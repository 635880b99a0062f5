import ObsidianSyntax.Diagnostic.Plain
import ObsidianSyntax.Proofs.Fault.Earliest

/-!
# Places are exact

Lines and columns are counted while a source is read, and the bytes of a span along with them. They
are what one gets by counting in the source itself: the span is a piece of one line, the line is one
more than the line feeds before it, and the column one more than the characters between it and the
last of these. This holds of every token and of every diagnostic, of literals that are not closed
and of the end of the input that is made up behind a list of tokens cut short.
-/

namespace ObsidianSyntax

open Lexer (Hands Reports Reached)

/-! ### Last lines -/

theorem lastLine_append {piece : List Char} (hline : '\n' ∉ piece) (text : List Char) :
    lastLine (text ++ piece) = lastLine text ++ piece := by
  have hall : ∀ c ∈ piece.reverse, (c != '\n') = true := by
    intro c hc
    simpa using fun heq : c = '\n' => hline (heq ▸ List.mem_reverse.1 hc)
  rw [lastLine, List.reverse_append, List.takeWhile_append_of_pos hall, List.reverse_append,
    List.reverse_reverse, ← lastLine]

theorem lastLine_newline (text : List Char) : lastLine (text ++ ['\n']) = [] := by
  simp [lastLine]

theorem Position.afterText_start (text : List Char) :
    start.afterText text =
      ⟨(String.ofList text).utf8ByteSize, 1 + text.count '\n', 1 + (lastLine text).length⟩ := by
  induction text using List.reverseRecOn with
  | nil => rfl
  | append_singleton text c ih =>
    have hsize : (String.ofList (text ++ [c])).utf8ByteSize =
        (String.ofList text).utf8ByteSize + c.utf8Size := by
      simp [String.ofList_append]
    rw [afterText_append, ih, afterText_cons, afterText_nil, hsize]
    by_cases hc : c = '\n'
    · subst hc
      simp [after, lastLine_newline, Nat.add_assoc]
    · have hmem : '\n' ∉ [c] := by simpa using Ne.symm hc
      simp [after, hc, lastLine_append hmem, List.count_eq_zero.2 hmem, Nat.add_assoc]

/-! ### Covered text -/

/-- Between `before` and `after` the span covers `inside`, which is on one line, and line and column
are where that starts. -/
structure Covers (source : String) (span : Span) (line column : Nat)
    (before inside after : List Char) : Prop where
  text_eq : source.toList = before ++ inside ++ after
  span_eq : span = ⟨(String.ofList before).utf8ByteSize, (String.ofList (before ++ inside)).utf8ByteSize⟩
  newline_not_mem : '\n' ∉ inside
  line_eq : line = 1 + before.count '\n'
  column_eq : column = 1 + (lastLine before).length

/-- The span fits the source, from the front of one character to the front of another and on one
line, and line and column are where it starts: counted from one, in line feeds and in characters
behind the last of these. -/
structure IsExact (source : String) (span : Span) (line column : Nat) : Prop where
  start_le_stop : span.start ≤ span.stop
  stop_le : span.stop ≤ source.utf8ByteSize
  cut : ∃ before inside after : String, source = before ++ inside ++ after ∧
    span = ⟨before.utf8ByteSize, (before ++ inside).utf8ByteSize⟩ ∧ '\n' ∉ inside.toList ∧
    line = 1 + before.toList.count '\n' ∧ column = 1 + (lastLine before.toList).length

def Token.IsExact (source : String) (token : Token) : Prop :=
  ObsidianSyntax.IsExact source token.span token.place.line token.place.column

def Diagnostic.IsExact (source : String) (diagnostic : Diagnostic) : Prop :=
  ObsidianSyntax.IsExact source diagnostic.span diagnostic.line diagnostic.column

variable {source : String} {span : Span} {line column : Nat} {before inside after : List Char}

namespace Covers

theorem isExact (hcovers : Covers source span line column before inside after) :
    IsExact source span line column := by
  obtain ⟨htext, rfl, hline, rfl, rfl⟩ := hcovers
  have hsource : source = String.ofList before ++ String.ofList inside ++ String.ofList after := by
    rw [← String.ofList_append, ← String.ofList_append, ← htext, String.ofList_toList]
  refine ⟨?_, ?_, String.ofList before, String.ofList inside, String.ofList after, hsource, ?_, ?_, ?_, ?_⟩
  · simp [String.ofList_append]
  · rw [hsource]
    simp [String.ofList_append]
  · simp [String.ofList_append]
  · simpa using hline
  · simp
  · simp

/-- A text behind `before`, at the place to which counting through `before` leads. -/
theorem of_place {offset : Nat} (htext : source.toList = before ++ inside ++ after) (hline : '\n' ∉ inside)
    (hoffset : offset = (String.ofList inside).utf8ByteSize) :
    let place := Position.start.afterText before
    Covers source ⟨place.offset, place.offset + offset⟩ place.line place.column before inside after := by
  simp only [Position.afterText_start, hoffset]
  exact ⟨htext, by simp [String.ofList_append], hline, rfl, rfl⟩

/-- The end of the covered text is a place of its own, on the same line. -/
theorem behind (hcovers : Covers source span line column before inside after) :
    Covers source ⟨span.stop, span.stop⟩ line (column + inside.length) (before ++ inside) [] after := by
  obtain ⟨htext, rfl, hline, rfl, rfl⟩ := hcovers
  refine ⟨by rw [htext, List.append_nil], by rw [List.append_nil], by simp, ?_, ?_⟩
  · rw [List.count_append, List.count_eq_zero.2 hline, Nat.add_zero]
  · rw [lastLine_append hline, List.length_append, Nat.add_assoc]

end Covers

/-! ### Pieces are on one line -/

theorem Item.newline_not_mem {quote : Char} {item : List Char} (hitem : Item quote item) : '\n' ∉ item := by
  cases hitem with
  | plain _ _ hline => simpa using Ne.symm hline
  | pair hline => simpa using Ne.symm hline

theorem Items.newline_not_mem {quote : Char} {body : List Char} (hbody : Items quote body) : '\n' ∉ body := by
  induction hbody with
  | nil => simp
  | cons hitem _ ih => simp [hitem.newline_not_mem, ih]

theorem IsDigits.newline_not_mem {digits : List Char} (hdigits : IsDigits digits) : '\n' ∉ digits :=
  fun hmem => absurd (hdigits.2 _ hmem) (by decide)

theorem Spells.newline_not_mem {piece : List Char} {kind : Kind} (hspells : Spells piece kind) :
    '\n' ∉ piece := by
  cases hspells with
  | mark mark =>
    intro hmem
    obtain ⟨_, _, _, _, _, hblank, _⟩ := Mark.of_mem_spelling hmem
    exact absurd hblank (by decide)
  | reserved hword _ | identifier hword _ => exact fun hmem => absurd (hword.continuesWord _ hmem) (by decide)
  | int hdigits => exact hdigits.newline_not_mem
  | float hwhole hplaces => simp [hwhole.newline_not_mem, hplaces.newline_not_mem]
  | string hbody => simp [hbody.newline_not_mem]
  | char hitem => simp [hitem.newline_not_mem]

/-- A piece that is given up is on one line as well, as only a blank could be a line feed by itself. -/
theorem Broken.newline_not_mem {text piece : List Char} {fault : LexicalFault}
    (hbroken : Broken text piece fault) (hblank : ∀ c ∈ piece.head?, isBlank c = false) :
    '\n' ∉ piece := by
  cases hbroken with
  | @unexpected c =>
    rw [List.mem_singleton]
    rintro rfl
    exact absurd (hblank _ rfl) (by decide)
  | emptyChar | openChar | openPair => decide
  | openString hline _ => simpa using hline
  | openItem hitem _ => simpa using hitem.newline_not_mem

/-- A literal that is not closed starts with its quote, which is a single byte. -/
theorem Broken.of_isAtQuote {text piece : List Char} {fault : LexicalFault}
    (hbroken : Broken text piece fault) (hquote : fault.isAtQuote = true) :
    ∃ quote rest, piece = quote :: rest ∧ quote.utf8Size = 1 := by
  cases hbroken with
  | unexpected | emptyChar => cases hquote
  | openString => exact ⟨_, _, rfl, rfl⟩
  | openChar | openPair | openItem => exact ⟨_, _, rfl, rfl⟩

theorem Lexer.Takes.newline_not_mem {lexer : Lexer} {gap piece : List Char} {kind : Kind}
    (htakes : lexer.Takes gap piece kind) :
    '\n' ∉ piece := by
  obtain ⟨hspells, _⟩ | ⟨_, fault, hbroken, _⟩ := htakes.read
  · exact hspells.newline_not_mem
  · exact hbroken.newline_not_mem htakes.not_blank

/-! ### Tokens and lexical diagnostics -/

/-- Wherever calls lead, the text left is an end of the source, and its place is counted through
what stands before it. -/
theorem Lexer.Reached.place {lexer : Lexer} (hreached : Reached source lexer) :
    ∃ before, source.toList = before ++ lexer.text ∧ lexer.place = Position.start.afterText before := by
  have hnextToken : ∀ {lexer : Lexer}, (∃ before, source.toList = before ++ lexer.text ∧
      lexer.place = Position.start.afterText before) →
      ∃ before, source.toList = before ++ lexer.nextToken.2.text ∧ lexer.nextToken.2.place =
        Position.start.afterText before := by
    rintro lexer ⟨before, htext, hplace⟩
    obtain hfinishes | ⟨gap, piece, kind, _, htakes⟩ := lexer.nextToken_cases
    · refine ⟨before ++ lexer.text, by rw [hfinishes.text_eq, htext, List.append_nil], ?_⟩
      rw [hfinishes.place_eq, hplace, Position.afterText_append]
    · refine ⟨before ++ (gap ++ piece), by rw [htext, htakes.text_eq]; simp, ?_⟩
      rw [htakes.place_eq, hplace, ← Position.afterText_append]
  induction hreached with
  | start => exact ⟨[], rfl, rfl⟩
  | nextToken _ ih => exact hnextToken ih
  | @next lexer _ ih =>
    cases hfinished : lexer.finished with
    | true => rwa [next_of_finished hfinished]
    | false =>
      rw [next_of_not_finished hfinished]
      exact hnextToken ih
  | takeDiagnostics _ ih => exact ih

/-- The token is what its span covers, and does not start with a blank, nor does what stands behind
it if it is empty. -/
def Token.StandsIn (source : String) (token : Token) : Prop :=
  ∃ before after, Covers source token.span token.place.line token.place.column before
    token.lexeme.toList after ∧ ∀ c ∈ (token.lexeme.toList ++ after).head?, isBlank c = false

/-- The span of the diagnostic covers something that does not start with a blank, or nothing with no
blank behind it. -/
def Diagnostic.StandsIn (source : String) (diagnostic : Diagnostic) : Prop :=
  ∃ before inside after, Covers source diagnostic.span diagnostic.line diagnostic.column before inside after ∧
    ∀ c ∈ (inside ++ after).head?, isBlank c = false

theorem Lexer.Hands.standsIn {token : Token} (hhands : Hands source token) : token.StandsIn source := by
  obtain ⟨lexer, hreached, rfl⟩ := hhands
  obtain ⟨before, htext, hplace⟩ := hreached.place
  obtain hfinishes | ⟨gap, piece, kind, _, htakes⟩ := lexer.nextToken_cases
  · rw [hfinishes.token_eq, hplace, ← Position.afterText_append]
    exact ⟨_, [], .of_place (by simp [htext, Token.endOfInput]) (by simp [Token.endOfInput])
      (by simp), by simp [Token.endOfInput]⟩
  · rw [htakes.token_eq, hplace, ← Position.afterText_append]
    refine ⟨before ++ gap, lexer.nextToken.2.text, .of_place ?_ ?_ (by simp), ?_⟩
    · rw [htext, htakes.text_eq]
      simp
    · simpa using htakes.newline_not_mem
    · obtain ⟨c, rest, rfl⟩ := List.exists_cons_of_ne_nil htakes.piece_ne_nil
      simpa using htakes.not_blank

theorem Lexer.Reports.standsIn {diagnostic : Diagnostic} (hreports : Reports source diagnostic) :
    diagnostic.StandsIn source := by
  obtain ⟨lexer, gap, piece, fault, hreached, htakes, hbroken, rfl⟩ := hreports
  obtain ⟨before, htext, hplace⟩ := hreached.place
  have hsource : source.toList = before ++ gap ++ piece ++ lexer.nextToken.2.text := by
    rw [htext, htakes.text_eq]
    simp
  have hline := htakes.newline_not_mem
  have hblank := htakes.not_blank
  rw [htakes.token_eq, hplace, ← Position.afterText_append]
  by_cases hquote : fault.isAtQuote = true
  · obtain ⟨quote, rest, rfl, hsize⟩ := hbroken.of_isAtQuote hquote
    refine ⟨before ++ gap, [quote], rest ++ lexer.nextToken.2.text, ?_, by simpa using hblank⟩
    have hcovers := @Covers.of_place source (before ++ gap) [quote] (rest ++ lexer.nextToken.2.text)
      1 (by simp [hsource])
      (fun hmem => hline (List.mem_cons.2 (.inl (List.mem_singleton.1 hmem)))) (by simp [hsize])
    simpa [LexicalFault.report, hquote, Span.single] using hcovers
  · obtain ⟨c, rest, rfl⟩ := List.exists_cons_of_ne_nil htakes.piece_ne_nil
    refine ⟨before ++ gap, c :: rest, lexer.nextToken.2.text, ?_, by simpa using hblank⟩
    have hcovers := @Covers.of_place source (before ++ gap) (c :: rest) lexer.nextToken.2.text _
      hsource hline rfl
    simpa [LexicalFault.report, hquote, Token.span] using hcovers

theorem Token.StandsIn.isExact {token : Token} (hstands : token.StandsIn source) : token.IsExact source := by
  obtain ⟨before, after, hcovers, _⟩ := hstands
  exact hcovers.isExact

theorem Diagnostic.StandsIn.isExact {diagnostic : Diagnostic} (hstands : diagnostic.StandsIn source) :
    diagnostic.IsExact source := by
  obtain ⟨before, inside, after, hcovers, _⟩ := hstands
  exact hcovers.isExact

/-! ### Faults of the parser -/

theorem exists_fault_of_parseTokens {tokens : List Token} {diagnostic : Diagnostic}
    (hhands : ∀ token ∈ tokens, Hands source token)
    (herror : parseTokens tokens = .error diagnostic) :
    ∃ fault : Fault, diagnostic = fault.report ∧
      (fault.token ∈ tokens ∨ fault.token = Cursor.endOf tokens) := by
  have hnamed : ∀ token ∈ tokens, token.kind = .identifier → token.lexeme ≠ "" := by
    intro token hmem hname
    obtain ⟨lexer, _, rfl⟩ := hhands token hmem
    obtain hfinishes | ⟨gap, piece, kind, _, htakes⟩ := lexer.nextToken_cases
    · rw [hfinishes.token_eq] at hname
      cases hname
    · rw [htakes.token_eq]
      simpa using htakes.piece_ne_nil
  obtain ⟨fault, ts, rfl, hpinned⟩ := exists_pinned_of_parseTokens hnamed herror
  obtain ⟨middle, hreads, hmiddle⟩ := hpinned.reads
  obtain ⟨before, hsplit, hend, _, _⟩ := Cursor.reads_iff_append.1 hreads
  refine ⟨fault, rfl, ?_⟩
  rw [← hmiddle]
  cases hrest : middle.rest with
  | nil => exact .inr (by simp [Cursor.current, Cursor.peek, hrest, ← hend, Cursor.ofTokens])
  | cons x after =>
    rw [hrest] at hsplit
    have hmem : x ∈ tokens := by
      have htokens : tokens = before ++ x :: after := hsplit
      simp [htokens]
    exact .inl (by simpa [Cursor.current, Cursor.peek, hrest] using hmem)

theorem exists_fault_of_parseSource {diagnostic : Diagnostic}
    (herror : parseSource source = .error diagnostic) :
    Reports source diagnostic ∨ ∃ fault : Fault, diagnostic = fault.report ∧ Hands source fault.token := by
  obtain hlexical | ⟨tokens, hok, hparse⟩ := parseSource_eq_error herror
  · exact .inl (reports_of_tokenize hlexical)
  · have hhands := hands_of_tokenize hok
    obtain ⟨fault, rfl, htoken⟩ := exists_fault_of_parseTokens hhands hparse
    refine .inr ⟨fault, rfl, hhands _ ?_⟩
    obtain hmem | hend := htoken
    · exact hmem
    · obtain ⟨front, place, rfl, _⟩ := tokenize_eq_append hok
      simp [hend, Cursor.endOf]

/-- The end of the input behind tokens of a source is a place of the source, even where it is made
up behind the last of them. -/
theorem Cursor.endOf_isExact {tokens : List Token} (hstands : ∀ token ∈ tokens, token.StandsIn source) :
    (endOf tokens).IsExact source := by
  unfold endOf
  split
  · next last hlast =>
    have hmem := List.mem_of_getLast? hlast
    split
    · exact (hstands last hmem).isExact
    · obtain ⟨before, after, hcovers, _⟩ := hstands last hmem
      have hbehind := hcovers.behind.isExact
      simpa [Token.IsExact, Token.endOfInput, Token.endPlace, Token.span, String.length_toList] using hbehind
  · exact ⟨by simp [Token.endOfInput, Token.span], by
      simp [Token.endOfInput, Token.span, Position.start], "", "", source,
      by simp, rfl, by simp, rfl, rfl⟩

theorem parseTokens_isExact {tokens : List Token} {diagnostic : Diagnostic}
    (hhands : ∀ token ∈ tokens, Hands source token)
    (herror : parseTokens tokens = .error diagnostic) : diagnostic.IsExact source := by
  obtain ⟨fault, rfl, htoken⟩ := exists_fault_of_parseTokens hhands herror
  show fault.token.IsExact source
  obtain hmem | hend := htoken
  · exact (hhands fault.token hmem).standsIn.isExact
  · rw [hend]
    exact Cursor.endOf_isExact fun token hmem => (hhands token hmem).standsIn

theorem parseSource_standsIn {diagnostic : Diagnostic} (herror : parseSource source = .error diagnostic) :
    diagnostic.StandsIn source := by
  obtain hreports | ⟨fault, rfl, hhands⟩ := exists_fault_of_parseSource herror
  · exact hreports.standsIn
  · obtain ⟨before, after, hcovers, hblank⟩ := hhands.standsIn
    exact ⟨before, _, after, hcovers, hblank⟩

/-- Every place that is told of a source is exact: those of the tokens that its lexer hands out, in
whatever way it is called, and of the diagnostics that it queues; those of the tokens and
diagnostics of both ways to read a source; that of the error for which the source is no program; and
those of the end of the input and of the errors in any choice of its tokens, as in a list that is
cut short. -/
theorem places_exact (source : String) :
    (∀ lexer, Reached source lexer → lexer.nextToken.1.IsExact source ∧
      (∀ token, lexer.next.1 = some token → token.IsExact source) ∧
      ∀ diagnostic ∈ lexer.takeDiagnostics.1, diagnostic.IsExact source) ∧
    ((∀ token ∈ (scan source).1, token.IsExact source) ∧
      ∀ diagnostic ∈ (scan source).2, diagnostic.IsExact source) ∧
    ((∀ tokens, tokenize source = .ok tokens → ∀ token ∈ tokens, token.IsExact source) ∧
      ∀ diagnostic, tokenize source = .error diagnostic → diagnostic.IsExact source) ∧
    (∀ diagnostic, parseSource source = .error diagnostic → diagnostic.IsExact source) ∧
    ∀ tokens : List Token, (∀ token ∈ tokens, token ∈ (scan source).1) →
      (Cursor.endOf tokens).IsExact source ∧
        ∀ diagnostic, parseTokens tokens = .error diagnostic → diagnostic.IsExact source := by
  refine ⟨fun lexer hreached => ⟨?_, ?_, ?_⟩, ⟨?_, ?_⟩, ⟨?_, ?_⟩, ?_, fun tokens hscan => ⟨?_, ?_⟩⟩
  · exact hreached.hands.standsIn.isExact
  · exact fun token hnext => (hreached.hands_next hnext).standsIn.isExact
  · exact fun diagnostic hmem => (hreached.reports diagnostic hmem).standsIn.isExact
  · exact fun token hmem => (hands_of_mem_scan token hmem).standsIn.isExact
  · exact fun diagnostic hmem => (reports_of_mem_scan diagnostic hmem).standsIn.isExact
  · exact fun tokens hok token hmem => (hands_of_tokenize hok token hmem).standsIn.isExact
  · exact fun diagnostic herror => (reports_of_tokenize herror).standsIn.isExact
  · exact fun diagnostic herror => (parseSource_standsIn herror).isExact
  · exact Cursor.endOf_isExact fun token hmem => (hands_of_mem_scan token (hscan token hmem)).standsIn
  · exact fun diagnostic herror =>
      parseTokens_isExact (fun token hmem => hands_of_mem_scan token (hscan token hmem)) herror

end ObsidianSyntax
