import ObsidianSyntax.Proofs.Token.Spelling

/-!
# Tokens are the longest matches

The reader of tokens decides one character at a time. Here it is compared with the language of
tokens: where the front of the text is a token, the longest such front is read and has the kind of
that text; where it is none, the piece that is given up is one of four, told apart by what stands
there (`Broken`).
-/

namespace ObsidianSyntax

/-- Nothing is left, or the line ends here. -/
def AtLineEnd (text : List Char) : Prop := text = [] ∨ text.head? = some '\n'

/-- `piece` is a token at the front of `text`, and no longer front of it is one. -/
structure IsLongestToken (text piece : List Char) : Prop where
  front : piece <+: text
  token : IsToken piece
  longest : ∀ other, other <+: text → IsToken other → other.length ≤ piece.length

/-- A text that starts with no token, the piece at its front that is given up, and why: a character
that starts no token, the two quotes of an empty character literal, a string up to the end of its
line, or a character literal as far as it goes. -/
inductive Broken : List Char → List Char → LexicalFault → Prop where
  | unexpected {c : Char} {rest : List Char} (hstring : c ≠ '"') (hchar : c ≠ '\'') :
      Broken (c :: rest) [c] (.unexpected c)
  | emptyChar {rest : List Char} : Broken ('\'' :: '\'' :: rest) ['\'', '\''] .emptyChar
  | openString {body rest : List Char} (hline : '\n' ∉ body) (hend : AtLineEnd rest) :
      Broken ('"' :: body ++ rest) ('"' :: body) .unterminatedString
  | openChar {rest : List Char} (hend : AtLineEnd rest) : Broken ('\'' :: rest) ['\''] .unterminatedChar
  | openPair {rest : List Char} (hend : AtLineEnd rest) :
      Broken ('\'' :: '\\' :: rest) ['\'', '\\'] .unterminatedChar
  | openItem {item rest : List Char} (hitem : Item '\'' item) (hquote : rest.head? ≠ some '\'') :
      Broken ('\'' :: item ++ rest) ('\'' :: item) .unterminatedChar

namespace Lexeme

/-- The piece is a longest token of the kind it is said to be, or broken in the way it is said to be. -/
def Describes (lexeme : Lexeme) (text : List Char) : Prop :=
  match lexeme.verdict with
  | .ok kind => ∃ piece, text.take lexeme.length = piece ∧ piece.length = lexeme.length ∧ Spells piece kind ∧
      ∀ other, other <+: text → IsToken other → other.length ≤ piece.length
  | .error fault =>
    ∃ piece, text.take lexeme.length = piece ∧ piece.length = lexeme.length ∧ Broken text piece fault ∧
      ∀ other, other <+: text → ¬ IsToken other

theorem describes_ok {piece : List Char} (rest : List Char) {kind : Kind} (hspells : Spells piece kind)
    (hlongest : ∀ other, other <+: piece ++ rest → IsToken other → other.length ≤ piece.length) :
    Describes ⟨piece.length, .ok kind⟩ (piece ++ rest) :=
  ⟨piece, by simp, rfl, hspells, hlongest⟩

theorem describes_error {piece : List Char} (rest : List Char) {fault : LexicalFault}
    (hbroken : Broken (piece ++ rest) piece fault)
    (hnone : ∀ other, other <+: piece ++ rest → ¬ IsToken other) :
    Describes ⟨piece.length, .error fault⟩ (piece ++ rest) :=
  ⟨piece, by simp, rfl, hbroken, hnone⟩

end Lexeme

theorem IsToken.cons_of_front {c : Char} {rest other : List Char} (htoken : IsToken other)
    (hfront : other <+: c :: rest) :
    ∃ tail, other = c :: tail ∧ tail <+: rest := by
  obtain ⟨kind, hspells⟩ := htoken
  obtain ⟨first, tail, rfl⟩ := List.exists_cons_of_ne_nil hspells.ne_nil
  obtain ⟨rfl, htail⟩ := List.cons_prefix_cons.1 hfront
  exact ⟨tail, rfl, htail⟩

/-- A front whose characters all are in a class is no longer than the run of that class. -/
theorem length_le_takeWhile {text other : List Char} {inClass : Char → Bool} (hfront : other <+: text)
    (hall : ∀ c ∈ other, inClass c = true) : other.length ≤ (text.takeWhile inClass).length := by
  obtain ⟨rest, rfl⟩ := hfront
  rw [List.takeWhile_append_of_pos hall, List.length_append]
  exact Nat.le_add_right _ _

/-! ### Words -/

theorem not_startsWord_of_isDigit {c : Char} (hdigit : c.isDigit = true) : Lexeme.startsWord c = false := by
  have hne : c ≠ '_' := by
    rintro rfl
    exact absurd hdigit (by decide)
  simp [Lexeme.startsWord, not_isAlpha_of_isDigit hdigit, hne]

theorem Mark.not_startsWord {mark : Mark} {c : Char} (hmem : c ∈ mark.spelling.toList) :
    Lexeme.startsWord c = false := by
  obtain ⟨halpha, _, hunder, _⟩ := Mark.of_mem_spelling hmem
  simp [Lexeme.startsWord, halpha, hunder]

theorem Spells.word_of_startsWord {c : Char} {rest : List Char} {kind : Kind}
    (hspells : Spells (c :: rest) kind) (hstart : Lexeme.startsWord c = true) :
    IsWord (c :: rest) ∧ kind = (Kind.ofReserved? (String.ofList (c :: rest))).getD .identifier := by
  obtain ⟨_, hword, hkind⟩ | ⟨hdigit, _⟩ | ⟨hdigit, _⟩ | ⟨rfl, _⟩ | ⟨rfl, _⟩ | ⟨mark, hmark, _⟩ :=
    hspells.cases_first
  · exact ⟨hword, hkind⟩
  · simp [not_startsWord_of_isDigit hdigit] at hstart
  · simp [not_startsWord_of_isDigit hdigit] at hstart
  · exact absurd hstart (by decide)
  · exact absurd hstart (by decide)
  · simp [@Mark.not_startsWord mark c (by simp [← hmark])] at hstart

theorem IsWord.continuesWord {text : List Char} (hword : IsWord text) :
    ∀ c ∈ text, Lexeme.continuesWord c = true := by
  obtain ⟨first, rest, rfl, hfirst, hrest⟩ := hword
  intro c hc
  rcases List.mem_cons.1 hc with rfl | hc
  · exact Lexeme.continuesWord_of_startsWord (by simpa [Lexeme.startsWord] using hfirst)
  · simpa [Lexeme.continuesWord] using hrest c hc

theorem isWord_takeWhile {c : Char} (hstart : Lexeme.startsWord c = true) (rest : List Char) :
    IsWord ((c :: rest).takeWhile Lexeme.continuesWord) := by
  refine ⟨c, rest.takeWhile Lexeme.continuesWord, ?_, by simpa [Lexeme.startsWord] using hstart,
    fun d hd => ?_⟩
  · simp [Lexeme.continuesWord_of_startsWord hstart]
  · simpa [Lexeme.continuesWord] using List.mem_takeWhile_imp hd

theorem Lexeme.ofWord_describes {c : Char} (hstart : startsWord c = true) (rest : List Char) :
    (ofWord (c :: rest)).Describes (c :: rest) := by
  have hsplit := List.takeWhile_append_dropWhile (p := continuesWord) (l := c :: rest)
  have hlongest : ∀ other, other <+: c :: rest → IsToken other →
      other.length ≤ ((c :: rest).takeWhile continuesWord).length := by
    intro other hfront htoken
    obtain ⟨tail, rfl, _⟩ := htoken.cons_of_front hfront
    obtain ⟨kind, hspells⟩ := htoken
    exact length_le_takeWhile hfront (hspells.word_of_startsWord hstart).1.continuesWord
  have hdescribes := describes_ok ((c :: rest).dropWhile continuesWord) (isWord_takeWhile hstart rest).spells
    (by rwa [hsplit])
  rwa [hsplit] at hdescribes

/-! ### Numbers -/

theorem isDigits_takeWhile {c : Char} (hdigit : c.isDigit = true) (rest : List Char) :
    IsDigits ((c :: rest).takeWhile Char.isDigit) :=
  ⟨by simp [hdigit], fun _ hd => List.mem_takeWhile_imp hd⟩

theorem Spells.number_of_isDigit {c : Char} {rest : List Char} {kind : Kind}
    (hspells : Spells (c :: rest) kind) (hdigit : c.isDigit = true) :
    (IsDigits (c :: rest) ∧ kind = .intLiteral) ∨
    ((∃ whole places, IsDigits whole ∧ IsDigits places ∧ c :: rest = whole ++ '.' :: places) ∧
      kind = .floatLiteral) := by
  obtain ⟨hstart, _⟩ | ⟨_, hint⟩ | ⟨_, hfloat⟩ | ⟨rfl, _⟩ | ⟨rfl, _⟩ | ⟨mark, hmark, _⟩ := hspells.cases_first
  · simp [not_startsWord_of_isDigit hdigit] at hstart
  · exact .inl hint
  · exact .inr hfloat
  · exact absurd hdigit (by decide)
  · exact absurd hdigit (by decide)
  · simp [(@Mark.of_mem_spelling mark c (by simp [← hmark])).2.1] at hdigit

/-- Two ways to cut a text behind a run of a class and before a character that is not of it are one. -/
theorem append_inj_of_class {inClass : Char → Bool} {front front' rest rest' : List Char}
    {c c' : Char} (hfront : ∀ d ∈ front, inClass d = true)
    (hfront' : ∀ d ∈ front', inClass d = true) (hc : inClass c = false) (hc' : inClass c' = false)
    (heq : front ++ c :: rest = front' ++ c' :: rest') :
    front = front' ∧ c :: rest = c' :: rest' := by
  have htake := congrArg (List.takeWhile inClass) heq
  rw [List.takeWhile_append_of_pos hfront, List.takeWhile_append_of_pos hfront'] at htake
  have hsame : front = front' := by simpa [hc, hc'] using htake
  subst hsame
  exact ⟨rfl, List.append_cancel_left heq⟩

theorem takeWhile_isDigit_append {whole after : List Char} (hwhole : ∀ d ∈ whole, d.isDigit = true)
    (hafter : ∀ d, after.head? = some d → d.isDigit = false) :
    (whole ++ after).takeWhile Char.isDigit = whole := by
  rw [List.takeWhile_append_of_pos hwhole]
  cases after with
  | nil => simp
  | cons d more => simp [hafter d rfl]

/-- With a point and a digit behind its first digits a number goes on to the end of the digits
behind the point. -/
theorem Lexeme.ofNumber_float {whole more : List Char} {d : Char} (hwhole : ∀ d ∈ whole, d.isDigit = true)
    (hdigit : d.isDigit = true) :
    ofNumber (whole ++ '.' :: d :: more) =
      ⟨(whole ++ '.' :: (d :: more).takeWhile Char.isDigit).length, .ok .floatLiteral⟩ := by
  have htake := @takeWhile_isDigit_append whole ('.' :: d :: more) hwhole (by simp)
  simp only [ofNumber, htake, List.drop_left, hdigit, if_true, List.takeWhile_cons_of_pos, List.length_append,
    List.length_cons]
  congr 1
  omega

theorem Lexeme.ofNumber_int {whole after : List Char} (hwhole : ∀ d ∈ whole, d.isDigit = true)
    (hafter : ∀ d, after.head? = some d → d.isDigit = false)
    (hpoint : ∀ d more, after = '.' :: d :: more → d.isDigit = false) :
    ofNumber (whole ++ after) = ⟨whole.length, .ok .intLiteral⟩ := by
  simp only [ofNumber, takeWhile_isDigit_append hwhole hafter, List.drop_left]
  split
  · next d more => simp [hpoint d more rfl]
  · rfl

/-- A number at the front of digits and what stands behind them is no longer than the digits, or
goes over a point. -/
theorem IsToken.number_of_front {whole after other : List Char} (hwhole : IsDigits whole)
    (hafter : ∀ d, after.head? = some d → d.isDigit = false) (htoken : IsToken other)
    (hfront : other <+: whole ++ after) :
    other.length ≤ whole.length ∨
      ∃ places, IsDigits places ∧ other = whole ++ '.' :: places ∧ '.' :: places <+: after := by
  obtain ⟨c, rest, rfl⟩ := List.exists_cons_of_ne_nil hwhole.1
  obtain ⟨tail, rfl, htail⟩ := htoken.cons_of_front hfront
  obtain ⟨kind, hspells⟩ := htoken
  obtain ⟨hint, _⟩ | ⟨⟨whole', places, hwhole', hplaces, heq⟩, _⟩ :=
    hspells.number_of_isDigit (hwhole.2 c (by simp))
  · left
    have hle := length_le_takeWhile hfront hint.2
    rwa [takeWhile_isDigit_append hwhole.2 hafter] at hle
  · right
    obtain ⟨beyond, hbeyond⟩ := hfront
    rw [heq, List.append_assoc, List.cons_append] at hbeyond
    have hpoint : ∃ d more, after = d :: more := by
      cases after with
      | cons d more => exact ⟨d, more, rfl⟩
      | nil =>
        have hmem : '.' ∈ c :: rest := by
          rw [List.append_nil] at hbeyond
          rw [← hbeyond]
          simp
        exact absurd (hwhole.2 _ hmem) (by decide)
    obtain ⟨d, more, rfl⟩ := hpoint
    obtain ⟨rfl, hmore⟩ := append_inj_of_class hwhole'.2 hwhole.2 (by decide) (hafter d rfl) hbeyond
    exact ⟨places, hplaces, heq, beyond, hmore⟩

theorem Lexeme.ofNumber_describes {c : Char} (hdigit : c.isDigit = true) (rest : List Char) :
    (ofNumber (c :: rest)).Describes (c :: rest) := by
  obtain ⟨whole, after, hsplit, hwhole, hafter⟩ : ∃ whole after, c :: rest = whole ++ after ∧ IsDigits whole ∧
      ∀ d, after.head? = some d → d.isDigit = false := by
    refine ⟨_, _, List.takeWhile_append_dropWhile.symm, isDigits_takeWhile hdigit rest, fun d hd => ?_⟩
    simpa [hd] using List.head?_dropWhile_not Char.isDigit (c :: rest)
  rw [hsplit]
  by_cases hpoint : ∃ d more, after = '.' :: d :: more ∧ d.isDigit = true
  · obtain ⟨d, more, rfl, hd⟩ := hpoint
    rw [ofNumber_float hwhole.2 hd]
    have hplaces := isDigits_takeWhile hd more
    have hdescribes := describes_ok ((d :: more).dropWhile Char.isDigit) (Spells.float hwhole hplaces) (by
      intro other hfront htoken
      rw [List.append_assoc, List.cons_append, List.takeWhile_append_dropWhile] at hfront
      obtain hle | ⟨places, hdigits, rfl, hplace⟩ := htoken.number_of_front hwhole hafter hfront
      · simp only [List.length_append]
        omega
      · have hle := length_le_takeWhile (List.cons_prefix_cons.1 hplace).2 hdigits.2
        simpa using hle)
    rwa [List.append_assoc, List.cons_append, List.takeWhile_append_dropWhile] at hdescribes
  · have hno : ∀ d more, after = '.' :: d :: more → d.isDigit = false := fun d more hd => by
      simpa using fun hdigit => hpoint ⟨d, more, hd, hdigit⟩
    rw [ofNumber_int hwhole.2 hafter hno]
    refine describes_ok _ (.int hwhole) fun other hfront htoken => ?_
    obtain hle | ⟨places, hdigits, rfl, hplace⟩ := htoken.number_of_front hwhole hafter hfront
    · exact hle
    · obtain ⟨first, others, rfl⟩ := List.exists_cons_of_ne_nil hdigits.1
      obtain ⟨beyond, rfl⟩ := hplace
      have hfirst := hdigits.2 first (by simp)
      simp [hno first (others ++ beyond) rfl] at hfirst

/-! ### Strings -/

theorem stringEnd_quote (rest : List Char) (taken : Nat) :
    Lexeme.stringEnd ('"' :: rest) taken = (taken + 1, true) := by
  cases rest <;> simp [Lexeme.stringEnd]

theorem stringEnd_plain {c : Char} (hquote : c ≠ '"') (hescape : c ≠ '\\') (hline : c ≠ '\n')
    (rest : List Char) (taken : Nat) :
    Lexeme.stringEnd (c :: rest) taken = Lexeme.stringEnd rest (taken + 1) := by
  cases rest <;> simp [Lexeme.stringEnd, hquote, hescape, hline]

theorem stringEnd_pair {c : Char} (hline : c ≠ '\n') (rest : List Char) (taken : Nat) :
    Lexeme.stringEnd ('\\' :: c :: rest) taken = Lexeme.stringEnd rest (taken + 2) := by
  simp [Lexeme.stringEnd, hline]

theorem Items.stringEnd {body : List Char} (hbody : Items '"' body) (taken : Nat) (rest : List Char) :
    Lexeme.stringEnd (body ++ '"' :: rest) taken = (taken + body.length + 1, true) := by
  induction hbody generalizing taken with
  | nil => exact stringEnd_quote rest taken
  | cons hitem hrest ih =>
    cases hitem with
    | plain hquote hescape hline =>
      rw [List.append_assoc, List.singleton_append, stringEnd_plain hquote hescape hline, ih]
      simp only [List.length_append, List.length_singleton, Prod.mk.injEq, and_true]
      omega
    | pair hline =>
      rw [List.append_assoc, List.cons_append, List.singleton_append, stringEnd_pair hline, ih]
      simp only [List.length_append, List.length_cons, List.length_nil, Prod.mk.injEq, and_true]
      omega

/-- A string that is read to a quote holds items, and one that is not holds all that is left of its line. -/
theorem stringEnd_cases (text : List Char) (taken : Nat) :
    (∃ body rest, Items '"' body ∧ text = body ++ '"' :: rest ∧
      Lexeme.stringEnd text taken = (taken + body.length + 1, true)) ∨
    ∃ body rest, '\n' ∉ body ∧ AtLineEnd rest ∧ text = body ++ rest ∧
      Lexeme.stringEnd text taken = (taken + body.length, false) := by
  fun_induction Lexeme.stringEnd text taken with
  | case1 taken => exact .inr ⟨[], [], by simp, .inl rfl, rfl, rfl⟩
  | case2 rest taken => exact .inl ⟨[], rest, .nil, rfl, rfl⟩
  | case3 rest taken => exact .inr ⟨[], '\n' :: rest, by simp, .inr rfl, rfl, rfl⟩
  | case4 taken => exact .inr ⟨['\\'], [], by simp, .inl rfl, rfl, rfl⟩
  | case5 taken rest => exact .inr ⟨['\\'], '\n' :: rest, by simp, .inr rfl, rfl, rfl⟩
  | case6 taken d rest hpair _ _ ih =>
    rcases ih with ⟨body, more, hbody, rfl, hend⟩ | ⟨body, more, hbody, hmore, rfl, hend⟩
    · refine .inl ⟨'\\' :: d :: body, more, .cons (.pair hpair) hbody, rfl, ?_⟩
      rw [hend, List.length_cons, List.length_cons, Prod.mk.injEq]
      exact ⟨by omega, rfl⟩
    · refine .inr ⟨'\\' :: d :: body, more, by simp [hbody, Ne.symm hpair], hmore, rfl, ?_⟩
      rw [hend, List.length_cons, List.length_cons, Prod.mk.injEq]
      exact ⟨by omega, rfl⟩
  | case7 c rest taken hquote hline hescape ih =>
    rcases ih with ⟨body, more, hbody, rfl, hend⟩ | ⟨body, more, hbody, hmore, rfl, hend⟩
    · refine .inl ⟨c :: body, more, .cons (.plain hquote hescape hline) hbody, rfl, ?_⟩
      rw [hend, List.length_cons, Prod.mk.injEq]
      exact ⟨by omega, rfl⟩
    · refine .inr ⟨c :: body, more, by simp [hbody, Ne.symm hline], hmore, rfl, ?_⟩
      rw [hend, List.length_cons, Prod.mk.injEq]
      exact ⟨by omega, rfl⟩

theorem Spells.string_of_quote {rest : List Char} {kind : Kind} (hspells : Spells ('"' :: rest) kind) :
    (∃ body, Items '"' body ∧ rest = body ++ ['"']) ∧ kind = .stringLiteral := by
  obtain ⟨hstart, _⟩ | ⟨hdigit, _⟩ | ⟨hdigit, _⟩ | ⟨_, hstring⟩ | ⟨hchar, _⟩ | ⟨mark, hmark, _⟩ :=
    hspells.cases_first
  · exact absurd hstart (by decide)
  · exact absurd hdigit (by decide)
  · exact absurd hdigit (by decide)
  · exact hstring
  · exact absurd hchar (by decide)
  · exact absurd rfl (@Mark.of_mem_spelling mark '"' (by simp [← hmark])).2.2.2.1

/-- How far a string at the front of a text goes decides how far its reader goes. -/
theorem IsToken.stringEnd_of_front {rest other : List Char} (htoken : IsToken other)
    (hfront : other <+: '"' :: rest) :
    Lexeme.stringEnd rest 1 = (other.length, true) := by
  obtain ⟨tail, rfl, beyond, rfl⟩ := htoken.cons_of_front hfront
  obtain ⟨kind, hspells⟩ := htoken
  obtain ⟨⟨body, hbody, rfl⟩, _⟩ := hspells.string_of_quote
  rw [List.append_assoc, List.singleton_append, hbody.stringEnd]
  simp
  omega

theorem Lexeme.ofString_describes (rest : List Char) : (ofString rest).Describes ('"' :: rest) := by
  rcases stringEnd_cases rest 1 with ⟨body, more, hbody, rfl, hend⟩ | ⟨body, more, hline, hmore, rfl, hend⟩
  · have hlength : 1 + body.length + 1 = ('"' :: body ++ ['"']).length := by
      simp
      omega
    have hdescribes := describes_ok more (Spells.string hbody) fun other hfront htoken => by
      have hsame := @IsToken.stringEnd_of_front (body ++ '"' :: more) other htoken (by simpa using hfront)
      rw [hend, hlength, Prod.mk.injEq] at hsame
      exact Nat.le_of_eq hsame.1.symm
    simpa only [ofString, hend, hlength, if_true, List.cons_append, List.append_assoc,
      List.nil_append] using hdescribes
  · have hlength : 1 + body.length = ('"' :: body).length := by
      simp
      omega
    have hdescribes := describes_error _ (Broken.openString hline hmore) fun other hfront htoken => by
      have hsame := @IsToken.stringEnd_of_front (body ++ more) other htoken hfront
      simp [hend] at hsame
    simpa only [ofString, hend, hlength, List.cons_append, Bool.false_eq_true, if_false] using hdescribes

/-! ### Characters -/

theorem Spells.char_of_apostrophe {rest : List Char} {kind : Kind} (hspells : Spells ('\'' :: rest) kind) :
    (∃ item, Item '\'' item ∧ rest = item ++ ['\'']) ∧ kind = .charLiteral := by
  obtain ⟨hstart, _⟩ | ⟨hdigit, _⟩ | ⟨hdigit, _⟩ | ⟨hstring, _⟩ | ⟨_, hchar⟩ | ⟨mark, hmark, _⟩ :=
    hspells.cases_first
  · exact absurd hstart (by decide)
  · exact absurd hdigit (by decide)
  · exact absurd hdigit (by decide)
  · exact absurd hstring (by decide)
  · exact hchar
  · exact absurd rfl (@Mark.of_mem_spelling mark '\'' (by simp [← hmark])).2.2.2.2.1

/-- A character literal at the front of a text is one item and the quote behind it. -/
theorem IsToken.item_of_front {rest other : List Char} (htoken : IsToken other)
    (hfront : other <+: '\'' :: rest) :
    ∃ item beyond, Item '\'' item ∧ other = '\'' :: item ++ ['\''] ∧ rest = item ++ '\'' :: beyond := by
  obtain ⟨tail, rfl, beyond, rfl⟩ := htoken.cons_of_front hfront
  obtain ⟨kind, hspells⟩ := htoken
  obtain ⟨⟨item, hitem, rfl⟩, _⟩ := hspells.char_of_apostrophe
  exact ⟨item, beyond, hitem, rfl, by simp⟩

theorem Item.append_inj {quote : Char} {item item' rest rest' : List Char} (hitem : Item quote item)
    (hitem' : Item quote item') (heq : item ++ rest = item' ++ rest') : item = item' ∧ rest = rest' := by
  cases hitem <;> cases hitem' <;>
    simp only [List.cons_append, List.nil_append, List.cons.injEq] at heq ⊢ <;> grind

theorem Item.cons_ne {c : Char} {item rest rest' : List Char} (hitem : Item '\'' item)
    (hc : c = '\'' ∨ c = '\n') :
    c :: rest ≠ item ++ rest' := by
  have hescape : c ≠ '\\' := by
    rcases hc with rfl | rfl <;> decide
  cases hitem <;> simp only [List.cons_append, List.nil_append, ne_eq, List.cons.injEq] <;> grind

/-- Behind an item the reader of a character literal looks for the quote. -/
theorem Item.ofChar {item : List Char} (hitem : Item '\'' item) (rest : List Char) :
    Lexeme.ofChar (item ++ rest) = Lexeme.closeChar (1 + item.length) rest := by
  cases hitem with
  | plain hquote hescape hline => simp [Lexeme.ofChar, hquote, hescape, hline]
  | pair hline => simp [Lexeme.ofChar, hline]

theorem Lexeme.closeChar_describes {item : List Char} (hitem : Item '\'' item) (rest : List Char) :
    (closeChar (1 + item.length) rest).Describes ('\'' :: item ++ rest) := by
  have hitem' : ∀ other, other <+: '\'' :: (item ++ rest) → IsToken other →
      rest.head? = some '\'' ∧ other = '\'' :: item ++ ['\''] := by
    intro other hfront htoken
    obtain ⟨item', beyond, hitem', rfl, heq⟩ := htoken.item_of_front hfront
    obtain ⟨rfl, rfl⟩ := hitem.append_inj hitem' heq
    exact ⟨rfl, rfl⟩
  by_cases hquote : rest.head? = some '\''
  · obtain ⟨more, rfl⟩ : ∃ more, rest = '\'' :: more := by
      cases rest <;> simp_all
    have hlength : 1 + item.length + 1 = ('\'' :: item ++ ['\'']).length := by
      simp
      omega
    have hdescribes := describes_ok more (Spells.char hitem) fun other hfront htoken => by
      obtain ⟨_, rfl⟩ := hitem' other (by simpa using hfront) htoken
      exact Nat.le_refl _
    simpa only [closeChar, hlength, if_true, List.append_assoc, List.cons_append, List.nil_append]
      using hdescribes
  · have hlength : 1 + item.length = ('\'' :: item).length := by
      simp
      omega
    have hclose : closeChar (1 + item.length) rest = ⟨1 + item.length, .error .unterminatedChar⟩ := by
      cases rest with
      | nil => rfl
      | cons c more => simp_all [closeChar]
    rw [hclose, hlength]
    exact describes_error _ (.openItem hitem hquote) fun other hfront htoken =>
      hquote (hitem' other hfront htoken).1

theorem Lexeme.ofChar_describes (rest : List Char) : (ofChar rest).Describes ('\'' :: rest) := by
  have hnone : ∀ text, (∀ item beyond, Item '\'' item → text ≠ item ++ '\'' :: beyond) →
      ∀ other, other <+: '\'' :: text → ¬ IsToken other := by
    intro text htext other hfront htoken
    obtain ⟨item, beyond, hitem, _, heq⟩ := htoken.item_of_front hfront
    exact htext item beyond hitem heq
  have hopen : ∀ rest, AtLineEnd rest → (ofChar rest).Describes ('\'' :: rest) ∧
      (ofChar ('\\' :: rest)).Describes ('\'' :: '\\' :: rest) := by
    intro rest hend
    constructor
    · have hread : ofChar rest = ⟨['\''].length, .error .unterminatedChar⟩ := by
        rcases hend with rfl | hend
        · rfl
        · cases rest <;> simp_all [ofChar]
      rw [hread]
      refine describes_error _ (.openChar hend) (hnone _ fun item beyond hitem heq => ?_)
      rcases hend with rfl | hend
      · simp at heq
      · obtain ⟨more, rfl⟩ := List.head?_eq_some_iff.1 hend
        exact hitem.cons_ne (.inr rfl) heq
    · have hread : ofChar ('\\' :: rest) = ⟨['\'', '\\'].length, .error .unterminatedChar⟩ := by
        rcases hend with rfl | hend
        · simp [ofChar]
        · cases rest <;> simp_all [ofChar]
      rw [hread]
      refine describes_error _ (.openPair hend) (hnone _ fun item beyond hitem heq => ?_)
      rcases hend with rfl | hend
      · cases hitem <;> simp_all
      · cases hitem <;> simp_all
  cases rest with
  | nil => exact (hopen [] (.inl rfl)).1
  | cons c more =>
    by_cases hline : c = '\n'
    · exact (hopen _ (.inr (by simp [hline]))).1
    · by_cases hquote : c = '\''
      · subst hquote
        have hread : ofChar ('\'' :: more) = ⟨['\'', '\''].length, .error .emptyChar⟩ := by simp [ofChar]
        rw [hread]
        exact describes_error _ .emptyChar (hnone _ fun item beyond hitem heq => hitem.cons_ne (.inl rfl) heq)
      · by_cases hescape : c = '\\'
        · subst hescape
          cases more with
          | nil => exact (hopen [] (.inl rfl)).2
          | cons d more =>
            by_cases hpair : d = '\n'
            · exact (hopen _ (.inr (by simp [hpair]))).2
            · have hitem : Item '\'' ['\\', d] := .pair hpair
              have hread := hitem.ofChar more
              simp only [List.cons_append, List.nil_append] at hread
              rw [hread]
              exact closeChar_describes hitem more
        · have hitem : Item '\'' [c] := .plain hquote hescape hline
          have hread := hitem.ofChar more
          simp only [List.cons_append, List.nil_append] at hread
          rw [hread]
          exact closeChar_describes hitem more

/-! ### Marks -/

theorem Mark.ofSpelling?_eq_some_iff {text : List Char} {mark : Mark} :
    ofSpelling? text = some mark ↔ text = mark.spelling.toList := by
  refine ⟨fun hfound => ?_, fun h => ?_⟩
  · unfold ofSpelling? at hfound
    have hspelling := List.find?_some hfound
    exact (beq_iff_eq.1 hspelling).symm
  · obtain rfl := h
    cases mark <;> rfl

theorem Mark.length_spelling (mark : Mark) :
    mark.spelling.toList.length = 1 ∨ mark.spelling.toList.length = 2 := by
  cases mark <;> decide

theorem Spells.mark_of_other {c : Char} {rest : List Char} {kind : Kind}
    (hspells : Spells (c :: rest) kind) (hstring : c ≠ '"') (hchar : c ≠ '\'')
    (hdigit : c.isDigit = false) (hstart : Lexeme.startsWord c = false) :
    ∃ mark : Mark, c :: rest = mark.spelling.toList ∧ kind = mark := by
  obtain ⟨hc, _⟩ | ⟨hc, _⟩ | ⟨hc, _⟩ | ⟨hc, _⟩ | ⟨hc, _⟩ | hmark := hspells.cases_first
  · simp [hstart] at hc
  · simp [hdigit] at hc
  · simp [hdigit] at hc
  · exact absurd hc hstring
  · exact absurd hc hchar
  · exact hmark

theorem Mark.ofSpelling?_take {mark : Mark} {text : List Char} (hfront : mark.spelling.toList <+: text) :
    (mark.spelling.toList.length = 2 ∧ ofSpelling? (text.take 2) = some mark) ∨
    (mark.spelling.toList.length = 1 ∧ ofSpelling? (text.take 1) = some mark) := by
  have htake := List.prefix_iff_eq_take.1 hfront
  rcases mark.length_spelling with hlength | hlength
  · exact .inr ⟨hlength, ofSpelling?_eq_some_iff.2 (by rw [htake, hlength])⟩
  · exact .inl ⟨hlength, ofSpelling?_eq_some_iff.2 (by rw [htake, hlength])⟩

theorem Lexeme.ofMark_describes {c : Char} (hstring : c ≠ '"') (hchar : c ≠ '\'') (hdigit : c.isDigit = false)
    (hstart : startsWord c = false) (rest : List Char) :
    ((ofMark? (c :: rest)).getD ⟨1, .error (.unexpected c)⟩).Describes (c :: rest) := by
  have hfront : ∀ other, other <+: c :: rest → IsToken other → ∃ mark : Mark, other = mark.spelling.toList ∧
      ((other.length = 2 ∧ Mark.ofSpelling? ((c :: rest).take 2) = some mark) ∨
        (other.length = 1 ∧ Mark.ofSpelling? ((c :: rest).take 1) = some mark)) := by
    intro other hother htoken
    obtain ⟨tail, rfl, _⟩ := htoken.cons_of_front hother
    obtain ⟨kind, hspells⟩ := htoken
    obtain ⟨mark, hmark, _⟩ := hspells.mark_of_other hstring hchar hdigit hstart
    rw [hmark] at hother ⊢
    exact ⟨mark, rfl, Mark.ofSpelling?_take hother⟩
  have hsplit := List.take_append_drop 2 (c :: rest)
  unfold ofMark?
  split
  · next _ _ mark htwo =>
    have hspells : Spells ((c :: rest).take 2) mark := by
      rw [Mark.ofSpelling?_eq_some_iff.1 htwo]
      exact .mark mark
    have hdescribes := describes_ok ((c :: rest).drop 2) hspells fun other hother htoken => by
      rw [hsplit] at hother
      have hle := hother.length_le
      obtain ⟨_, _, ⟨hlength, _⟩ | ⟨hlength, _⟩⟩ := hfront other hother htoken <;>
        rw [List.length_take] <;> omega
    rwa [hsplit] at hdescribes
  · next mark hnone hone =>
    have hspells : Spells [c] mark := by
      have hsame : [c] = mark.spelling.toList := Mark.ofSpelling?_eq_some_iff.1 hone
      rw [hsame]
      exact .mark mark
    exact describes_ok rest hspells fun other hother htoken => by
      obtain ⟨_, _, ⟨_, htwo⟩ | ⟨hlength, _⟩⟩ := hfront other hother htoken
      · exact absurd (hnone.symm.trans htwo) (by simp)
      · exact Nat.le_of_eq hlength
  · next hnone hone =>
    refine @describes_error [c] rest _ (.unexpected hstring hchar) fun other hother htoken => ?_
    obtain ⟨_, _, ⟨_, htwo⟩ | ⟨_, hfound⟩⟩ := hfront other hother htoken
    · exact absurd (hnone.symm.trans htwo) (by simp)
    · exact absurd (hone.symm.trans hfound) (by simp)

/-! ### The piece that is read -/

/-- What is read at the front of a text is its longest token, or the broken piece there. -/
theorem Lexeme.read_describes (first : Char) (rest : List Char) :
    (read first rest).Describes (first :: rest) := by
  unfold read
  split
  · next hstring =>
    subst hstring
    exact ofString_describes rest
  · split
    · next hchar =>
      subst hchar
      exact ofChar_describes rest
    · split
      · next hdigit => exact ofNumber_describes hdigit rest
      · split
        · next hstart => exact ofWord_describes hstart rest
        · next hstring hchar hdigit hstart =>
          exact ofMark_describes hstring hchar (by simpa using hdigit) (by simpa using hstart) rest

/-- A text has at most one kind. -/
theorem Spells.kind_unique {text : List Char} {kind kind' : Kind} (hspells : Spells text kind)
    (hspells' : Spells text kind') : kind = kind' := by
  obtain ⟨c, rest, rfl⟩ := List.exists_cons_of_ne_nil hspells.ne_nil
  by_cases hstring : c = '"'
  · subst hstring
    rw [hspells.string_of_quote.2, hspells'.string_of_quote.2]
  by_cases hchar : c = '\''
  · subst hchar
    rw [hspells.char_of_apostrophe.2, hspells'.char_of_apostrophe.2]
  by_cases hdigit : c.isDigit = true
  · have hpoint : IsDigits (c :: rest) → ∀ whole places, c :: rest ≠ whole ++ '.' :: places := by
      intro hdigits whole places heq
      have hmem : '.' ∈ c :: rest := by simp [heq]
      exact absurd (hdigits.2 _ hmem) (by decide)
    rcases hspells.number_of_isDigit hdigit with ⟨hint, rfl⟩ | ⟨⟨whole, places, _, _, heq⟩, rfl⟩ <;>
      rcases hspells'.number_of_isDigit hdigit with ⟨hint', rfl⟩ | ⟨⟨whole', places', _, _, heq'⟩, rfl⟩
    · rfl
    · exact absurd heq' (hpoint hint _ _)
    · exact absurd heq (hpoint hint' _ _)
    · rfl
  by_cases hstart : Lexeme.startsWord c = true
  · rw [(hspells.word_of_startsWord hstart).2, (hspells'.word_of_startsWord hstart).2]
  · simp only [Bool.not_eq_true] at hdigit hstart
    obtain ⟨mark, hmark, rfl⟩ := hspells.mark_of_other hstring hchar hdigit hstart
    obtain ⟨mark', hmark', rfl⟩ := hspells'.mark_of_other hstring hchar hdigit hstart
    rw [Mark.ofSpelling?_eq_some_iff.2 hmark |>.symm.trans
      (Mark.ofSpelling?_eq_some_iff.2 hmark') |> Option.some.inj]

/-- No token has a kind that says it is none. -/
theorem Spells.kind_ne {text : List Char} {kind : Kind} (hspells : Spells text kind) :
    kind ≠ .invalid ∧ kind ≠ .endOfInput := by
  cases hspells with
  | reserved _ htable =>
    have hall : ∀ word ∈ Kind.reservedWords, word.2 ≠ .invalid ∧ word.2 ≠ .endOfInput := by decide
    exact hall _ htable
  | _ => simp

namespace Lexer

section

variable {lexer : Lexer} {place : Position} {first : Char} {rest : List Char}

theorem nextToken_of_ok {kind : Kind}
    (htrivia : skipTrivia false lexer.place lexer.text = (place, first :: rest))
    (hverdict : (Lexeme.read first rest).verdict = .ok kind) :
    lexer.nextToken =
      let piece := (first :: rest).take (Lexeme.read first rest).length
      (⟨kind, String.ofList piece, place⟩,
        { lexer with
          text := (first :: rest).drop (Lexeme.read first rest).length,
          place := place.afterText piece }) := by
  simp only [nextToken, htrivia, hverdict]

theorem nextToken_of_error {fault : LexicalFault}
    (htrivia : skipTrivia false lexer.place lexer.text = (place, first :: rest))
    (hverdict : (Lexeme.read first rest).verdict = .error fault) :
    lexer.nextToken =
      let piece := (first :: rest).take (Lexeme.read first rest).length
      let token : Token := ⟨.invalid, String.ofList piece, place⟩
      (token, { lexer with
        text := (first :: rest).drop (Lexeme.read first rest).length, place := place.afterText piece,
        queued := lexer.queued.push (fault.report token) }) := by
  simp only [nextToken, htrivia, hverdict]

end

/-- The next token where text is left behind the blanks and comments: the piece read there, as a
token of its kind or as an invalid one that is reported. -/
theorem nextToken_of_trivia {lexer : Lexer} {place : Position} {first : Char} {rest : List Char}
    (htrivia : skipTrivia false lexer.place lexer.text = (place, first :: rest)) :
    ∃ piece after, first :: rest = piece ++ after ∧ lexer.nextToken.2.text = after ∧
      lexer.nextToken.2.place = place.afterText piece ∧ lexer.nextToken.2.finished = lexer.finished ∧
      ((∃ kind, lexer.nextToken.1 = ⟨kind, String.ofList piece, place⟩ ∧
        lexer.nextToken.2.queued = lexer.queued ∧
          Spells piece kind ∧ ∀ other, other <+: first :: rest → IsToken other →
            other.length ≤ piece.length) ∨
        ∃ fault, lexer.nextToken.1 = ⟨.invalid, String.ofList piece, place⟩ ∧
          lexer.nextToken.2.queued = lexer.queued.push (fault.report lexer.nextToken.1) ∧
          Broken (first :: rest) piece fault ∧ ∀ other, other <+: first :: rest → ¬ IsToken other) := by
  have hread := Lexeme.read_describes first rest
  have hsplit := List.take_append_drop (Lexeme.read first rest).length (first :: rest)
  refine ⟨_, _, hsplit.symm, ?_⟩
  unfold Lexeme.Describes at hread
  cases hverdict : (Lexeme.read first rest).verdict with
  | ok kind =>
    rw [hverdict] at hread
    obtain ⟨piece, rfl, _, hspells, hlongest⟩ := hread
    rw [nextToken_of_ok htrivia hverdict]
    exact ⟨rfl, rfl, rfl, .inl ⟨kind, rfl, rfl, hspells, hlongest⟩⟩
  | error fault =>
    rw [hverdict] at hread
    obtain ⟨piece, rfl, _, hbroken, hnone⟩ := hread
    rw [nextToken_of_error htrivia hverdict]
    exact ⟨rfl, rfl, rfl, .inr ⟨fault, rfl, rfl, hbroken, hnone⟩⟩

/-- The reader of tokens matches the longest token of the language. Behind blanks and comments, with
text left, the next token is valid exactly if some front of the text is a token; then it is the
longest one and has its only kind, and otherwise it is the broken piece at the front. Reading goes
on behind it. -/
theorem nextToken_isLongestToken (lexer : Lexer) (place : Position) (text : List Char)
    (htrivia : skipTrivia false lexer.place lexer.text = (place, text)) (hleft : text ≠ []) :
    (lexer.nextToken.1.kind ≠ .invalid ↔ ∃ piece, piece ≠ [] ∧ piece <+: text ∧ IsToken piece) ∧
    (lexer.nextToken.1.kind ≠ .invalid → IsLongestToken text lexer.nextToken.1.lexeme.toList ∧
      ∀ kind, Spells lexer.nextToken.1.lexeme.toList kind ↔ lexer.nextToken.1.kind = kind) ∧
    (lexer.nextToken.1.kind = .invalid → ∃ fault, Broken text lexer.nextToken.1.lexeme.toList fault ∧
      lexer.nextToken.2.queued = lexer.queued.push (fault.report lexer.nextToken.1)) ∧
    lexer.nextToken.1.place = place ∧ text = lexer.nextToken.1.lexeme.toList ++ lexer.nextToken.2.text := by
  obtain ⟨first, rest, rfl⟩ := List.exists_cons_of_ne_nil hleft
  obtain ⟨piece, after, hsplit, rfl, _, _, hread⟩ := nextToken_of_trivia htrivia
  rcases hread with ⟨kind, htoken, _, hspells, hlongest⟩ | ⟨fault, htoken, hqueued, hbroken, hnone⟩
  · have hfront : piece <+: first :: rest := ⟨_, hsplit.symm⟩
    simp only [htoken, String.toList_ofList, ne_eq, hspells.kind_ne.1, not_false_eq_true, true_iff,
      forall_const, false_implies, true_and]
    refine ⟨⟨piece, hspells.ne_nil, hfront, kind, hspells⟩,
      ⟨⟨hfront, ⟨kind, hspells⟩, hlongest⟩, fun kind' => ?_⟩, hsplit⟩
    exact ⟨hspells.kind_unique, fun heq => heq ▸ hspells⟩
  · simp only [htoken, String.toList_ofList, ne_eq, not_true_eq_false, false_iff, false_implies,
      forall_const, true_and]
    refine ⟨fun ⟨other, _, hfront, htoken⟩ => hnone other hfront htoken, ⟨fault, hbroken, ?_⟩, hsplit⟩
    rw [hqueued, htoken]

theorem nextToken_isLongestToken_escapedQuote :
    skipTrivia false .start "# c\n '\\'' x".toList = (⟨5, 2, 2⟩, "'\\'' x".toList) ∧
    IsLongestToken "'\\'' x".toList (ofSource "# c\n '\\'' x").nextToken.1.lexeme.toList :=
  ⟨by decide, ((nextToken_isLongestToken (ofSource "# c\n '\\'' x") ⟨5, 2, 2⟩ "'\\'' x".toList (by decide)
    (by decide)).2.1 (by decide)).1⟩

end Lexer

end ObsidianSyntax
