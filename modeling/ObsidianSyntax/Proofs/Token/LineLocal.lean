import ObsidianSyntax.Proofs.Place.Exact
import ObsidianSyntax.Proofs.Token.Stream

/-!
# Lines are read independently

A line end is to every reader of a piece what the end of the input is: a string, a character
literal, a number, a word, a mark and a comment all stop before it, and nothing is carried over to
the next line. So a text in two parts with a line end between them is read as the parts are, except
that everything in the second part stands further back: by the bytes of the first part and by its
lines.
-/

namespace ObsidianSyntax

/-! ### Moving places -/

/-- The place as many bytes and lines further back. -/
def Position.movedBy (place : Position) (bytes lines : Nat) : Position :=
  ⟨place.offset + bytes, place.line + lines, place.column⟩

/-- The span as many bytes further back. -/
def Span.movedBy (span : Span) (bytes : Nat) : Span := ⟨span.start + bytes, span.stop + bytes⟩

/-- The token as many bytes and lines further back. -/
def Token.movedBy (token : Token) (bytes lines : Nat) : Token :=
  { token with place := token.place.movedBy bytes lines }

/-- The diagnostic as many bytes and lines further back. -/
def Diagnostic.movedBy (diagnostic : Diagnostic) (bytes lines : Nat) : Diagnostic :=
  { diagnostic with span := diagnostic.span.movedBy bytes, line := diagnostic.line + lines }

section

variable {bytes lines : Nat}

@[simp] theorem Position.after_movedBy (place : Position) (c : Char) :
    (place.movedBy bytes lines).after c = (place.after c).movedBy bytes lines := by
  unfold after
  split <;> simp only [movedBy, Position.mk.injEq, and_true] <;> omega

@[simp] theorem Position.afterText_movedBy (place : Position) (text : List Char) :
    (place.movedBy bytes lines).afterText text = (place.afterText text).movedBy bytes lines := by
  induction text generalizing place with
  | nil => rfl
  | cons c text ih => simp [ih]

@[simp] theorem Token.kind_movedBy (token : Token) : (token.movedBy bytes lines).kind = token.kind := rfl

@[simp] theorem Token.lexeme_movedBy (token : Token) :
    (token.movedBy bytes lines).lexeme = token.lexeme :=
  rfl

@[simp] theorem Token.span_movedBy (token : Token) :
    (token.movedBy bytes lines).span = token.span.movedBy bytes := by
  simp only [span, movedBy, Position.movedBy, Span.movedBy, Span.mk.injEq, true_and]
  omega

@[simp] theorem Span.single_movedBy (offset : Nat) :
    (single offset).movedBy bytes = single (offset + bytes) := by
  simp only [movedBy, single, Span.mk.injEq, true_and]
  omega

theorem LexicalFault.report_movedBy (fault : LexicalFault) (token : Token) :
    fault.report (token.movedBy bytes lines) = (fault.report token).movedBy bytes lines := by
  simp only [report, Diagnostic.movedBy, Token.span_movedBy]
  congr 1
  split
  · rw [Span.single_movedBy]
    rfl
  · rfl

theorem Token.lexicalReport?_movedBy (token : Token) :
    (token.movedBy bytes lines).lexicalReport? = token.lexicalReport?.map fun diagnostic =>
      diagnostic.movedBy bytes lines := by
  have hfault : (token.movedBy bytes lines).fault? = token.fault? := rfl
  rw [lexicalReport?, lexicalReport?, hfault, Option.map_map]
  exact Option.map_congr fun fault _ => fault.report_movedBy token

theorem skipTrivia_movedBy (text : List Char) (inComment : Bool) (place : Position) :
    skipTrivia inComment (place.movedBy bytes lines) text =
      ((skipTrivia inComment place text).1.movedBy bytes lines, (skipTrivia inComment place text).2) := by
  induction text generalizing inComment place with
  | nil => rfl
  | cons c text ih =>
    simp only [skipTrivia, Position.after_movedBy, ih]
    split
    · rfl
    · split
      · rfl
      · split <;> rfl

/-- A text further back has the same tokens, further back. -/
theorem tokensOf_movedBy (place : Position) (text : List Char) :
    tokensOf (place.movedBy bytes lines) text = (tokensOf place text).map fun token =>
      token.movedBy bytes lines := by
  match hskip : skipTrivia false place text with
  | (place', []) =>
    have hmoved := @skipTrivia_movedBy bytes lines text false place
    rw [hskip] at hmoved
    rw [tokensOf_of_nil hskip, tokensOf_of_nil hmoved]
    rfl
  | (place', first :: rest) =>
    have hmoved := @skipTrivia_movedBy bytes lines text false place
    rw [hskip] at hmoved
    have hshorter := length_drop_read_lt hskip
    rw [tokensOf_of_cons hskip, tokensOf_of_cons hmoved]
    simp only [Position.afterText_movedBy, List.map_cons]
    rw [tokensOf_movedBy]
    rfl
termination_by text.length
decreasing_by exact hshorter

end

/-! ### A line end is like the end of the input -/

namespace Lexeme

theorem stringEnd_newline (rest : List Char) (taken : Nat) :
    stringEnd ('\n' :: rest) taken = (taken, false) := by
  cases rest <;> simp [stringEnd]

theorem stringEnd_append_newline (text more : List Char) (taken : Nat) :
    stringEnd (text ++ '\n' :: more) taken = stringEnd text taken := by
  fun_induction stringEnd text taken with
  | case1 taken => exact stringEnd_newline more taken
  | case2 rest taken => exact stringEnd_quote _ taken
  | case3 rest taken => exact stringEnd_newline _ taken
  | case4 taken => simp [stringEnd]
  | case5 taken rest => simp [stringEnd]
  | case6 taken d rest hline _ _ ih => exact (stringEnd_pair hline _ taken).trans ih
  | case7 c rest taken hquote hline hescape ih =>
    exact (stringEnd_plain hquote hescape hline _ taken).trans ih

theorem ofString_append_newline (text more : List Char) :
    ofString (text ++ '\n' :: more) = ofString text := by
  rw [ofString, stringEnd_append_newline]
  rfl

theorem closeChar_append_newline (taken : Nat) (text more : List Char) :
    closeChar taken (text ++ '\n' :: more) = closeChar taken text := by
  cases text with
  | nil => rfl
  | cons c text => rfl

theorem ofChar_append_newline (text more : List Char) : ofChar (text ++ '\n' :: more) = ofChar text := by
  match text with
  | [] => rfl
  | [c] => simp [ofChar, closeChar]
  | c :: d :: text =>
    have hclose := closeChar_append_newline 2 (d :: text) more
    rw [List.cons_append] at hclose
    simp only [List.cons_append, ofChar, closeChar_append_newline, hclose]

theorem takeWhile_append_newline {inClass : Char → Bool} (hclass : inClass '\n' = false)
    (text more : List Char) :
    (text ++ '\n' :: more).takeWhile inClass = text.takeWhile inClass := by
  induction text with
  | nil => simp [hclass]
  | cons c text ih => simp [List.takeWhile_cons, ih]

theorem ofNumber_append_newline (text more : List Char) :
    ofNumber (text ++ '\n' :: more) = ofNumber text := by
  have htake := @takeWhile_append_newline Char.isDigit (by decide)
  have hle := (List.takeWhile_sublist Char.isDigit (l := text)).length_le
  simp only [ofNumber, htake, List.drop_append_of_le_length hle]
  cases text.drop (text.takeWhile Char.isDigit).length with
  | nil => rfl
  | cons c behind =>
    by_cases hpoint : c = '.'
    · subst hpoint
      cases behind with
      | nil => rfl
      | cons d after =>
        have htake' := @takeWhile_append_newline Char.isDigit (by decide) after more
        simp only [List.cons_append, htake']
    · simp [hpoint]

theorem ofWord_append_newline (text more : List Char) : ofWord (text ++ '\n' :: more) = ofWord text := by
  rw [ofWord, takeWhile_append_newline (by decide)]
  rfl

end Lexeme

theorem Mark.ofSpelling?_newline (c : Char) : ofSpelling? [c, '\n'] = none := by
  refine Option.eq_none_iff_forall_ne_some.2 fun mark hfound => ?_
  have hmem : '\n' ∈ mark.spelling.toList := by
    rw [← Mark.ofSpelling?_eq_some_iff.1 hfound]
    simp
  obtain ⟨_, _, _, _, _, hblank, _⟩ := Mark.of_mem_spelling hmem
  exact absurd hblank (by decide)

namespace Lexeme

theorem ofMark?_append_newline (first : Char) (text more : List Char) :
    ofMark? (first :: (text ++ '\n' :: more)) = ofMark? (first :: text) := by
  cases text with
  | nil =>
    simp only [ofMark?, List.nil_append, List.take_succ_cons, List.take_zero, List.take_nil,
      Mark.ofSpelling?_newline]
    cases Mark.ofSpelling? [first] <;> rfl
  | cons c text => rfl

/-- The piece that is read ends before the end of its line, and nothing behind that end matters for it. -/
theorem read_append_newline (first : Char) (text more : List Char) :
    read first (text ++ '\n' :: more) = read first text := by
  have hnumber := ofNumber_append_newline (first :: text) more
  have hword := ofWord_append_newline (first :: text) more
  rw [List.cons_append] at hnumber hword
  simp only [read, ofString_append_newline, ofChar_append_newline, hnumber, hword, ofMark?_append_newline]

end Lexeme

theorem skipTrivia_append_newline (text more : List Char) (inComment : Bool) (place : Position) :
    skipTrivia inComment place (text ++ '\n' :: more) =
      match skipTrivia inComment place text with
      | (place', []) => skipTrivia false (place'.after '\n') more
      | (place', first :: rest) => (place', first :: (rest ++ '\n' :: more)) := by
  have hblank : isBlank '\n' = true := by decide
  induction text generalizing inComment place with
  | nil => cases inComment <;> simp [skipTrivia, hblank]
  | cons c text ih =>
    simp only [List.cons_append, skipTrivia, ih]
    split
    · rfl
    · split
      · rfl
      · split <;> rfl

/-! ### Two parts with a line end between them -/

/-- Behind a line end reading starts anew, at the place behind it. -/
theorem tokensOf_append_newline (place : Position) (text more : List Char) :
    tokensOf place (text ++ '\n' :: more) =
      (tokensOf place text).filter (fun token => !token.isEnd) ++
        tokensOf ((place.afterText text).after '\n') more := by
  have hskip' := skipTrivia_append_newline text more false place
  obtain ⟨⟨gap, left, hgap, hsplit, _⟩, _⟩ := skipTrivia_eq_append text place
  cases left with
  | nil =>
    rw [List.append_nil] at hsplit
    rw [hgap, ← hsplit] at hskip'
    rw [tokensOf_of_nil hgap, tokensOf_congr hskip']
    simp
  | cons first rest =>
    have hshorter := length_drop_read_lt hgap
    rw [hgap] at hskip'
    obtain ⟨hfits, hkind⟩ := Lexeme.read_fits first rest
    have hlive : ∀ lexeme place, (!(Token.mk (Lexeme.read first rest).kind lexeme place).isEnd) = true :=
      fun _ _ => by simpa [Token.isEnd] using hkind
    have hplace : place.afterText text =
      ((place.afterText gap).afterText ((first :: rest).take (Lexeme.read first rest).length)).afterText
        ((first :: rest).drop (Lexeme.read first rest).length) := by
      rw [← Position.afterText_append, List.take_append_drop, ← Position.afterText_append, ← hsplit]
    rw [tokensOf_of_cons hgap, tokensOf_of_cons hskip']
    simp only [Lexeme.read_append_newline, ← List.cons_append, List.take_append_of_le_length hfits,
      List.drop_append_of_le_length hfits, List.filter_cons, hlive, if_true]
    rw [tokensOf_append_newline, ← hplace, List.cons_append]
termination_by text.length
decreasing_by exact hshorter

/-- Behind the first part of a source and a line end, places are moved by the bytes of the part and
by its lines. -/
theorem Position.after_newline_start (text : List Char) :
    (start.afterText text).after '\n' = start.movedBy ((String.ofList text).utf8ByteSize + 1)
      (text.count '\n' + 1) := by
  rw [afterText_start]
  simp only [after, movedBy, start, if_true, Position.mk.injEq, and_true]
  refine ⟨?_, by omega⟩
  rw [Nat.zero_add]
  rfl

/-- The tokens of a source in two parts with a line end between them. -/
theorem tokens_append_newline (a b : String) :
    (scan (a ++ "\n" ++ b)).1 = (scan a).1.filter (fun token => !token.isEnd) ++
      (scan b).1.map fun token => token.movedBy (a.utf8ByteSize + 1) (a.toList.count '\n' + 1) := by
  have hsource : (a ++ "\n" ++ b).toList = a.toList ++ '\n' :: b.toList := by simp
  simp only [scan_eq]
  rw [hsource, tokensOf_append_newline, Position.after_newline_start, tokensOf_movedBy, String.ofList_toList]

/-- The diagnostics of a source in two parts with a line end between them. -/
theorem reports_append_newline (a b : String) :
    (scan (a ++ "\n" ++ b)).2 = (scan a).2 ++
      (scan b).2.map fun diagnostic => diagnostic.movedBy (a.utf8ByteSize + 1) (a.toList.count '\n' + 1) := by
  have htokens := tokens_append_newline a b
  simp only [scan_eq] at htokens ⊢
  have hnone : ∀ token : Token, (if !token.isEnd then token.lexicalReport? else none) =
      token.lexicalReport? := by
    intro token
    cases hend : token.isEnd with
    | true => exact (Token.lexicalReport?_of_isEnd hend).symm
    | false => rfl
  rw [htokens, List.filterMap_append, List.filterMap_filter, List.filterMap_map, List.map_filterMap]
  simp only [hnone, Function.comp_def, Token.lexicalReport?_movedBy]

/-- Reading is line by line. In a source in two parts with a line end between them, the tokens are
those of the first part without its end of the input, and then those of the second part, and the
diagnostics are those of the first part and then those of the second. What comes from the second
part is moved by the bytes of the first part and the line end, and by the lines that these end, and
is else unchanged. -/
theorem scan_append_newline (a b : String) :
    scan (a ++ "\n" ++ b) =
      ((scan a).1.filter (fun token => !token.isEnd) ++
          (scan b).1.map fun token => token.movedBy (a.utf8ByteSize + 1) (a.toList.count '\n' + 1),
        (scan a).2 ++
          (scan b).2.map fun diagnostic =>
            diagnostic.movedBy (a.utf8ByteSize + 1) (a.toList.count '\n' + 1)) :=
  Prod.ext (tokens_append_newline a b) (reports_append_newline a b)

end ObsidianSyntax
