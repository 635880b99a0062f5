import ObsidianSyntax.Proofs.Parse.Programs
import ObsidianSyntax.Proofs.Print.Source
import ObsidianSyntax.Proofs.Token.Layout

/-!
# Spaced terminals are read back

A token with nothing or a blank behind it is the longest one at the front of its text: no word,
number or mark goes over a blank, and a quoted literal ends at its closing quote. So the text of
terminals with a blank between them is read as tokens of just those terminals.
-/

namespace ObsidianSyntax

/-- Nothing is left of the text, or a blank comes first. -/
def AtBlank (text : List Char) : Prop := text = [] ∨ text.head? = some ' '

/-! ### Tokens before a blank -/

theorem prefix_of_atBlank {piece rest other : List Char} (hrest : AtBlank rest) (hblank : ' ' ∉ other)
    (hfront : other <+: piece ++ rest) : other.length ≤ piece.length := by
  by_contra hlonger
  obtain ⟨beyond, hsplit⟩ := hfront
  have hpiece : piece <+: other ++ beyond := ⟨rest, hsplit.symm⟩
  obtain ⟨more, rfl⟩ := List.prefix_of_prefix_length_le hpiece (List.prefix_append other beyond) (by omega)
  rw [List.append_assoc, List.append_cancel_left_eq] at hsplit
  obtain rfl | hhead := hrest
  · obtain ⟨rfl, _⟩ := List.append_eq_nil_iff.1 hsplit
    simp at hlonger
  · cases more with
    | nil => simp at hlonger
    | cons c more =>
      rw [← hsplit] at hhead
      obtain rfl : c = ' ' := by simpa using hhead
      simp at hblank

/-- Only quoted literals hold blanks. -/
theorem Spells.blank_not_mem {c : Char} {rest : List Char} {kind : Kind} (hspells : Spells (c :: rest) kind)
    (hstring : c ≠ '"') (hchar : c ≠ '\'') : ' ' ∉ c :: rest := by
  intro hmem
  obtain ⟨_, hword, _⟩ | ⟨_, hdigits, _⟩ | ⟨_, ⟨whole, places, hwhole, hplaces, heq⟩, _⟩ |
    ⟨hquote, _⟩ | ⟨hquote, _⟩ | ⟨mark, hmark, _⟩ := hspells.cases_first
  · exact absurd (hword.continuesWord _ hmem) (by decide)
  · exact absurd (hdigits.2 _ hmem) (by decide)
  · rw [heq, List.mem_append, List.mem_cons] at hmem
    rcases hmem with hmem | hmem | hmem
    · exact absurd (hwhole.2 _ hmem) (by decide)
    · exact absurd hmem (by decide)
    · exact absurd (hplaces.2 _ hmem) (by decide)
  · exact hstring hquote
  · exact hchar hquote
  · rw [hmark] at hmem
    obtain ⟨_, _, _, _, _, hblank, _⟩ := Mark.of_mem_spelling hmem
    exact absurd hblank (by decide)

/-- A token before a blank is the longest token at the front of the text. -/
theorem Spells.longest_of_atBlank {piece rest : List Char} {kind : Kind}
    (hspells : Spells piece kind) (hrest : AtBlank rest) :
    ∀ other, other <+: piece ++ rest → IsToken other → other.length ≤ piece.length := by
  intro other hfront htoken
  obtain ⟨c, tail, rfl⟩ := List.exists_cons_of_ne_nil hspells.ne_nil
  have hpiece : IsToken (c :: tail) := ⟨kind, hspells⟩
  by_cases hstring : c = '"'
  · subst hstring
    have hend := htoken.stringEnd_of_front hfront
    have hend' := hpiece.stringEnd_of_front (List.prefix_append _ rest)
    rw [hend] at hend'
    exact Nat.le_of_eq (congrArg Prod.fst hend')
  by_cases hchar : c = '\''
  · subst hchar
    obtain ⟨item, beyond, hitem, rfl, heq⟩ := htoken.item_of_front hfront
    obtain ⟨item', beyond', hitem', heq', hsplit⟩ := hpiece.item_of_front (List.prefix_append _ rest)
    obtain ⟨rfl, _⟩ := hitem.append_inj hitem' (heq.symm.trans hsplit)
    exact Nat.le_of_eq (congrArg List.length heq'.symm)
  · obtain ⟨tail', rfl, _⟩ := htoken.cons_of_front hfront
    obtain ⟨kind', hspells'⟩ := htoken
    exact prefix_of_atBlank hrest (hspells'.blank_not_mem hstring hchar) hfront

theorem not_isBlank_of_isAlphanum {c : Char} (hc : c.isAlphanum = true) : isBlank c = false := by
  have hrange : 48 ≤ c.toNat ∧ c.toNat ≤ 122 := by
    rw [Char.isAlphanum, Bool.or_eq_true, isAlpha_iff_toNat, Char.isDigit_iff_toNat] at hc
    have h0 : '0'.toNat = 48 := rfl
    have h9 : '9'.toNat = 57 := rfl
    omega
  simp only [isBlank, blankRanges, CharRanges.contains, List.any_cons, List.any_nil,
    Bool.or_eq_false_iff, Bool.and_eq_false_iff, decide_eq_false_iff_not, Bool.or_false]
  omega

theorem Spells.first_ne {c : Char} {rest : List Char} {kind : Kind} (hspells : Spells (c :: rest) kind) :
    isBlank c = false ∧ c ≠ '#' := by
  have halphanum : c.isAlphanum = true → isBlank c = false ∧ c ≠ '#' := by
    intro hc
    refine ⟨not_isBlank_of_isAlphanum hc, fun heq => ?_⟩
    subst heq
    exact absurd hc (by decide)
  have hdigit : c.isDigit = true → isBlank c = false ∧ c ≠ '#' := fun hc =>
    halphanum (by simp [Char.isAlphanum, hc])
  obtain ⟨hstart, _⟩ | ⟨hc, _⟩ | ⟨hc, _⟩ | ⟨rfl, _⟩ | ⟨rfl, _⟩ | ⟨mark, hmark, _⟩ := hspells.cases_first
  · simp only [Lexeme.startsWord, Bool.or_eq_true, beq_iff_eq] at hstart
    obtain halpha | rfl := hstart
    · exact halphanum (by simp [Char.isAlphanum, halpha])
    · decide
  · exact hdigit hc
  · exact hdigit hc
  · decide
  · decide
  · have hmem : c ∈ mark.spelling.toList := hmark ▸ List.mem_cons_self
    obtain ⟨_, _, _, _, _, hblank, hcomment⟩ := Mark.of_mem_spelling hmem
    exact ⟨hblank, hcomment⟩

/-! ### Terminals -/

/-- The terminal is the one that its spelling is read as. -/
structure Terminal.Spelled (terminal : Terminal) : Prop where
  spells : Spells terminal.spelling.toList terminal.kind
  text_eq : terminal.kind.hasText = false → terminal.text = ""

theorem Terminal.Spelled.terminal_eq {terminal : Terminal} (hspelled : terminal.Spelled) (place : Position) :
    (Token.mk terminal.kind terminal.spelling place).terminal = terminal := by
  obtain ⟨kind, text⟩ := terminal
  have htext := hspelled.text_eq
  cases kind <;> simp_all [Token.terminal, Terminal.spelling, Kind.hasText]

theorem skipTrivia_of_first_ne {place : Position} {c : Char} {rest : List Char}
    (hc : isBlank c = false ∧ c ≠ '#') :
    skipTrivia false place (c :: rest) = (place, c :: rest) := by
  simp [skipTrivia, hc.1, hc.2]

theorem skipTrivia_blank (place : Position) (rest : List Char) :
    skipTrivia false place (' ' :: rest) = skipTrivia false (place.after ' ') rest := by
  have hblank : isBlank ' ' = true := by decide
  simp [skipTrivia, hblank]

namespace Lexer

/-- The text left is `text`, perhaps behind one blank. -/
def IsBefore (lexer : Lexer) (text : List Char) : Prop := lexer.text = text ∨ lexer.text = ' ' :: text

theorem IsBefore.skipTrivia_eq {lexer : Lexer} {text : List Char} (hbefore : lexer.IsBefore text) :
    ∃ place, skipTrivia false lexer.place lexer.text = skipTrivia false place text := by
  obtain heq | heq := hbefore
  · exact ⟨lexer.place, by rw [heq]⟩
  · exact ⟨lexer.place.after ' ', by rw [heq, skipTrivia_blank]⟩

theorem nextToken_of_spells {lexer : Lexer} {piece rest : List Char} {kind : Kind}
    (hspells : Spells piece kind) (hrest : AtBlank rest) (hbefore : lexer.IsBefore (piece ++ rest)) :
    ∃ place, lexer.nextToken.1 = ⟨kind, String.ofList piece, place⟩ ∧ lexer.nextToken.2.text = rest := by
  have hlongest := hspells.longest_of_atBlank hrest
  obtain ⟨place, hskip⟩ := hbefore.skipTrivia_eq
  obtain ⟨c, tail, rfl⟩ := List.exists_cons_of_ne_nil hspells.ne_nil
  rw [List.cons_append, skipTrivia_of_first_ne hspells.first_ne] at hskip
  obtain ⟨piece', after, hsplit, hafter, _, _, hread⟩ := nextToken_of_trivia hskip
  have hpiece : c :: tail <+: c :: (tail ++ rest) := List.prefix_append (c :: tail) rest
  obtain ⟨kind', htoken, _, hspells', hlongest'⟩ | ⟨fault, _, _, _, hnone⟩ := hread
  · have hfront : piece' <+: c :: (tail ++ rest) := ⟨after, hsplit.symm⟩
    have hle := hlongest piece' hfront ⟨kind', hspells'⟩
    have hge := hlongest' (c :: tail) hpiece ⟨kind, hspells⟩
    obtain rfl := (List.prefix_of_prefix_length_le hfront hpiece hle).eq_of_length_le hge
    obtain rfl := hspells.kind_unique hspells'
    rw [← List.cons_append, List.append_cancel_left_eq] at hsplit
    exact ⟨place, htoken, hafter.trans hsplit.symm⟩
  · exact absurd ⟨kind, hspells⟩ (hnone _ hpiece)

end Lexer

theorem toList_spaced_cons (t : Terminal) (ts : List Terminal) :
    ∃ rest, (spaced (t :: ts)).toList = t.spelling.toList ++ rest ∧ AtBlank rest ∧
      (rest = (spaced ts).toList ∨ rest = ' ' :: (spaced ts).toList) := by
  cases ts with
  | nil => exact ⟨[], by simp [spaced], .inl rfl, .inl (by simp [spaced])⟩
  | cons u us =>
    refine ⟨' ' :: (spaced (u :: us)).toList, ?_, .inr rfl, .inr rfl⟩
    rw [spaced, spaced, List.map_cons, List.map_cons, String.intercalate_cons_cons,
      String.toList_append, String.toList_append, List.append_assoc]
    rfl

/-- Reading spaced terminals gives tokens of just those terminals. -/
theorem collectValid_spaced {ts : List Terminal} (hspelled : ∀ t ∈ ts, t.Spelled) {lexer : Lexer}
    (hbefore : lexer.IsBefore (spaced ts).toList) (tokens : Array Token) :
    ∃ more, lexer.collectValid tokens = .ok (tokens ++ more.toArray) ∧ terminals more = ts := by
  induction ts generalizing lexer tokens with
  | nil =>
    have htext : (spaced []).toList = [] := by simp [spaced]
    rw [htext] at hbefore
    obtain ⟨place, hskip⟩ := hbefore.skipTrivia_eq
    have htoken : lexer.nextToken.1 = .endOfInput place := by
      simp [Lexer.nextToken, hskip, skipTrivia]
    refine ⟨[.endOfInput place], ?_, rfl⟩
    rw [Lexer.collectValid_of_end (by rw [htoken]; rfl), htoken]
    simp
  | cons t ts ih =>
    have ht := hspelled t List.mem_cons_self
    obtain ⟨rest, htext, hrest, hafter⟩ := toList_spaced_cons t ts
    rw [htext] at hbefore
    obtain ⟨place, htoken, hleft⟩ := Lexer.nextToken_of_spells ht.spells hrest hbefore
    rw [String.ofList_toList] at htoken
    have hbefore' : lexer.nextToken.2.IsBefore (spaced ts).toList := by
      rw [Lexer.IsBefore, hleft]
      exact hafter
    obtain ⟨more, hmore, hterminals⟩ :=
      ih (fun u hu => hspelled u (List.mem_cons_of_mem t hu)) hbefore' (tokens.push lexer.nextToken.1)
    have hkind := ht.spells.kind_ne
    have hlive : lexer.nextToken.1.isEnd = false := by
      rw [htoken]
      simpa [Token.isEnd] using hkind.2
    have hvalid : lexer.nextToken.1.kind ≠ .invalid := by
      rw [htoken]
      exact hkind.1
    refine ⟨lexer.nextToken.1 :: more, ?_, ?_⟩
    · rw [Lexer.collectValid_of_live hvalid hlive, hmore]
      simp
    · rw [terminals_cons_of_live hlive, hterminals, htoken, ht.terminal_eq]

theorem tokenize_spaced {ts : List Terminal} (hspelled : ∀ t ∈ ts, t.Spelled) :
    ∃ tokens, tokenize (spaced ts) = .ok tokens ∧ terminals tokens = ts := by
  have hbefore : (Lexer.ofSource (spaced ts)).IsBefore (spaced ts).toList := .inl rfl
  obtain ⟨tokens, hok, hterminals⟩ := collectValid_spaced hspelled hbefore #[]
  refine ⟨tokens, ?_, hterminals⟩
  rw [tokenize, hok]
  simp [Except.map]

end ObsidianSyntax
