import Mathlib.Data.List.TakeWhile
import ObsidianSyntax.Token.Lexer

/-!
# The language of tokens

Which texts are tokens, and of which kind, said without reading any of them: the marks, the words,
the numbers and the quoted literals. A text has at most one kind, and its first character already
tells which of the four classes it can belong to. What the reader of tokens does is compared with
this language elsewhere; here are only the language and the facts that follow from a first
character.
-/

namespace ObsidianSyntax

/-- What may stand between two quotes as one item: a character other than the quote, the backslash
and the line end, or a backslash and any character but the line end. -/
inductive Item (quote : Char) : List Char → Prop where
  | plain {c : Char} (hquote : c ≠ quote) (hescape : c ≠ '\\') (hline : c ≠ '\n') : Item quote [c]
  | pair {c : Char} (hline : c ≠ '\n') : Item quote ['\\', c]

inductive Items (quote : Char) : List Char → Prop where
  | nil : Items quote []
  | cons {item rest : List Char} (hitem : Item quote item) (hrest : Items quote rest) :
      Items quote (item ++ rest)

def IsDigits (text : List Char) : Prop := text ≠ [] ∧ ∀ c ∈ text, c.isDigit = true

/-- A letter or an underscore, and then letters, digits and underscores. -/
def IsWord (text : List Char) : Prop :=
  ∃ first rest, text = first :: rest ∧ (first.isAlpha = true ∨ first = '_') ∧
    ∀ c ∈ rest, c.isAlphanum = true ∨ c = '_'

/-- The texts that are tokens, each with its kind. A word has the kind of a reserved word exactly
when the whole of it is in the table of those. -/
inductive Spells : List Char → Kind → Prop where
  | mark (mark : Mark) : Spells mark.spelling.toList mark
  | reserved {text : List Char} {kind : Kind} (hword : IsWord text)
      (htable : (String.ofList text, kind) ∈ Kind.reservedWords) : Spells text kind
  | identifier {text : List Char} (hword : IsWord text)
      (htable : ∀ kind, (String.ofList text, kind) ∉ Kind.reservedWords) : Spells text .identifier
  | int {digits : List Char} (hdigits : IsDigits digits) : Spells digits .intLiteral
  | float {whole places : List Char} (hwhole : IsDigits whole) (hplaces : IsDigits places) :
      Spells (whole ++ '.' :: places) .floatLiteral
  | string {body : List Char} (hbody : Items '"' body) : Spells ('"' :: body ++ ['"']) .stringLiteral
  | char {item : List Char} (hitem : Item '\'' item) : Spells ('\'' :: item ++ ['\'']) .charLiteral

def IsToken (text : List Char) : Prop := ∃ kind, Spells text kind

/-! ### The table of reserved words -/

namespace Kind

theorem reservedWords_nodup : (reservedWords.map Prod.fst).Nodup := by decide

theorem mem_reservedWords_iff {text : String} {kind : Kind} :
    (text, kind) ∈ reservedWords ↔ ofReserved? text = some kind := by
  have hlookup : ∀ words : List (String × Kind), (words.map Prod.fst).Nodup →
      ((text, kind) ∈ words ↔ words.lookup text = some kind) := by
    intro words hnodup
    induction words with
    | nil => simp
    | cons word words ih =>
      obtain ⟨spelling, kind'⟩ := word
      simp only [List.map_cons, List.nodup_cons] at hnodup
      by_cases heq : text = spelling
      · subst heq
        have habsent : (text, kind) ∉ words := fun hmem => hnodup.1 (List.mem_map_of_mem hmem)
        simp [habsent, eq_comm]
      · have hne : (text == spelling) = false := by simpa using heq
        simp [List.lookup_cons, heq, hne, ih hnodup.2]
  exact hlookup reservedWords reservedWords_nodup

theorem not_mem_reservedWords_iff {text : String} :
    (∀ kind, (text, kind) ∉ reservedWords) ↔ ofReserved? text = none := by
  simp only [mem_reservedWords_iff]
  cases ofReserved? text <;> simp

end Kind

/-- The kind of a word is the one that the table gives to the whole of it. -/
theorem IsWord.spells {text : List Char} (hword : IsWord text) :
    Spells text ((Kind.ofReserved? (String.ofList text)).getD .identifier) := by
  cases hkind : Kind.ofReserved? (String.ofList text) with
  | none => exact .identifier hword (Kind.not_mem_reservedWords_iff.2 hkind)
  | some kind => exact .reserved hword (Kind.mem_reservedWords_iff.2 hkind)

/-! ### What the first character tells -/

theorem Mark.spelling_ne_nil (mark : Mark) : mark.spelling.toList ≠ [] := by
  cases mark <;> decide

/-- Marks are made of other characters than words, numbers and quoted literals start with. -/
theorem Mark.of_mem_spelling {mark : Mark} {c : Char} (hmem : c ∈ mark.spelling.toList) :
    c.isAlpha = false ∧ c.isDigit = false ∧ c ≠ '_' ∧ c ≠ '"' ∧ c ≠ '\'' ∧ isBlank c = false ∧ c ≠ '#' := by
  have hall : (mark.spelling.toList.all fun c =>
    decide (c.isAlpha = false ∧ c.isDigit = false ∧ c ≠ '_' ∧ c ≠ '"' ∧
      c ≠ '\'' ∧ isBlank c = false ∧ c ≠ '#')) = true := by
    cases mark <;> decide
  exact of_decide_eq_true (List.all_eq_true.1 hall c hmem)

theorem isAlpha_iff_toNat {c : Char} :
    c.isAlpha = true ↔ (65 ≤ c.toNat ∧ c.toNat ≤ 90) ∨ 97 ≤ c.toNat ∧ c.toNat ≤ 122 := by
  show (decide ('A'.val ≤ c.val ∧ c.val ≤ 'Z'.val) ||
    (decide ('a'.val ≤ c.val) && decide (c.val ≤ 'z'.val))) = true ↔ _
  simp only [Bool.or_eq_true, Bool.and_eq_true, decide_eq_true_eq, UInt32.le_iff_toNat_le]
  rfl

theorem not_isAlpha_of_isDigit {c : Char} (hdigit : c.isDigit = true) : c.isAlpha = false := by
  by_contra halpha
  rw [Bool.not_eq_false, isAlpha_iff_toNat] at halpha
  have hrange : 48 ≤ c.toNat ∧ c.toNat ≤ 57 := Char.isDigit_iff_toNat.1 hdigit
  omega

/-- What a token is, by the class of its first character. -/
theorem Spells.cases_first {c : Char} {rest : List Char} {kind : Kind}
    (hspells : Spells (c :: rest) kind) :
    (Lexeme.startsWord c = true ∧ IsWord (c :: rest) ∧
      kind = (Kind.ofReserved? (String.ofList (c :: rest))).getD .identifier) ∨
    (c.isDigit = true ∧ IsDigits (c :: rest) ∧ kind = .intLiteral) ∨
    (c.isDigit = true ∧
      (∃ whole places, IsDigits whole ∧ IsDigits places ∧ c :: rest = whole ++ '.' :: places) ∧
      kind = .floatLiteral) ∨
    (c = '"' ∧ (∃ body, Items '"' body ∧ rest = body ++ ['"']) ∧ kind = .stringLiteral) ∨
    (c = '\'' ∧ (∃ item, Item '\'' item ∧ rest = item ++ ['\'']) ∧ kind = .charLiteral) ∨
    ∃ mark : Mark, c :: rest = mark.spelling.toList ∧ kind = mark := by
  generalize htext : c :: rest = text at hspells
  cases hspells with
  | mark mark => exact .inr (.inr (.inr (.inr (.inr ⟨mark, rfl, rfl⟩))))
  | reserved hword htable =>
    have hkind := Kind.mem_reservedWords_iff.1 htable
    obtain ⟨first, others, rfl, hfirst, _⟩ := id hword
    cases htext
    exact .inl ⟨by simpa [Lexeme.startsWord] using hfirst, hword, by rw [hkind]; rfl⟩
  | identifier hword htable =>
    have hkind := Kind.not_mem_reservedWords_iff.1 htable
    obtain ⟨first, others, rfl, hfirst, _⟩ := id hword
    cases htext
    exact .inl ⟨by simpa [Lexeme.startsWord] using hfirst, hword, by rw [hkind]; rfl⟩
  | int hdigits =>
    subst htext
    exact .inr (.inl ⟨hdigits.2 c (by simp), hdigits, rfl⟩)
  | @float whole places hwhole hplaces =>
    obtain ⟨first, others, rfl⟩ := List.exists_cons_of_ne_nil hwhole.1
    have hc : c = first := by simpa using congrArg List.head? htext
    exact .inr (.inr (.inl ⟨hc ▸ hwhole.2 first (by simp), ⟨_, _, hwhole, hplaces, rfl⟩, rfl⟩))
  | @string body hbody =>
    obtain ⟨rfl, rfl⟩ : c = '"' ∧ rest = body ++ ['"'] := by simpa using htext
    exact .inr (.inr (.inr (.inl ⟨rfl, ⟨body, hbody, rfl⟩, rfl⟩)))
  | @char item hitem =>
    obtain ⟨rfl, rfl⟩ : c = '\'' ∧ rest = item ++ ['\''] := by simpa using htext
    exact .inr (.inr (.inr (.inr (.inl ⟨rfl, ⟨item, hitem, rfl⟩, rfl⟩))))

theorem Spells.ne_nil {text : List Char} {kind : Kind} (hspells : Spells text kind) : text ≠ [] := by
  cases hspells with
  | mark mark => exact mark.spelling_ne_nil
  | reserved hword _ | identifier hword _ =>
    obtain ⟨first, rest, rfl, _⟩ := hword
    simp
  | int hdigits => exact hdigits.1
  | float | string | char => simp

end ObsidianSyntax
