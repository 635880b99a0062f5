import ObsidianSyntax.Proofs.Print.Literals
import ObsidianSyntax.Text.Quoted

/-!
# Words of a dump

The pieces of a dump that have no pieces of their own: names, integers, and texts between quotes.
Each of them says where it ends, by a character that cannot be in it or by the quote that closes it,
so that it is found again in front of whatever follows.
-/

namespace ObsidianSyntax

/-! ### Runs -/

section

variable {inClass : Char → Bool} {front front' rest rest' : List Char}

/-- A run of a class in front of a text that does not go on with it. -/
theorem takeWhile_run (hfront : ∀ c ∈ front, inClass c = true) (hrest : ∀ c ∈ rest.head?, inClass c = false) :
    (front ++ rest).takeWhile inClass = front := by
  rw [List.takeWhile_append_of_pos hfront]
  cases rest with
  | nil => simp
  | cons c rest => simp [hrest c rfl]

theorem dropWhile_run (hfront : ∀ c ∈ front, inClass c = true) (hrest : ∀ c ∈ rest.head?, inClass c = false) :
    (front ++ rest).dropWhile inClass = rest := by
  rw [List.dropWhile_append_of_pos hfront]
  cases rest with
  | nil => rfl
  | cons c rest => simp [hrest c rfl]

/-- A run ends at the same place however the text is cut behind it. -/
theorem run_append_inj (hfront : ∀ c ∈ front, inClass c = true) (hfront' : ∀ c ∈ front', inClass c = true)
    (hrest : ∀ c ∈ rest.head?, inClass c = false) (hrest' : ∀ c ∈ rest'.head?, inClass c = false)
    (heq : front ++ rest = front' ++ rest') : front = front' ∧ rest = rest' := by
  have htake := congrArg (List.takeWhile inClass) heq
  rw [takeWhile_run hfront hrest, takeWhile_run hfront' hrest'] at htake
  exact ⟨htake, List.append_cancel_left (htake ▸ heq)⟩

end

/-! ### Integers -/

/-- The integer written as digits, with a hyphen before them if it is negative. -/
def readInteger : List Char → Int
  | '-' :: digits => -(Nat.ofDigitChars 10 digits 0)
  | digits => Nat.ofDigitChars 10 digits 0

theorem readInteger_repr (value : Int) : readInteger value.repr.toList = value := by
  cases value with
  | ofNat n =>
    have hrepr : (Int.ofNat n).repr.toList = Nat.toDigits 10 n := Nat.toList_repr
    have hdigit : ∀ c ∈ Nat.toDigits 10 n, c.isDigit = true := (isDigits_toDigits n).2
    rw [hrepr, readInteger, Nat.ofDigitChars_ten_toDigits]
    · rfl
    · intro digits hminus
      exact absurd (hdigit '-' (hminus ▸ List.mem_cons_self)) (by decide)
  | negSucc n =>
    have hrepr : (Int.negSucc n).repr.toList = '-' :: Nat.toDigits 10 (n + 1) := by simp [Int.repr]
    rw [hrepr, readInteger, Nat.ofDigitChars_ten_toDigits]
    rfl

theorem repr_int_inj {value value' : Int} (hrepr : value.repr.toList = value'.repr.toList) :
    value = value' := by
  rw [← readInteger_repr value, hrepr, readInteger_repr]

theorem mem_repr_int {value : Int} {c : Char} (hmem : c ∈ value.repr.toList) :
    c.isDigit = true ∨ c = '-' := by
  have hdigit : ∀ n : Nat, c ∈ Nat.toDigits 10 n → c.isDigit = true := fun n => (isDigits_toDigits n).2 c
  cases value with
  | ofNat n => exact .inl (hdigit n (by simpa [Int.repr] using hmem))
  | negSucc n =>
    have hcases : c = '-' ∨ c ∈ Nat.toDigits 10 (n + 1) := by simpa [Int.repr] using hmem
    exact hcases.symm.imp_left (hdigit (n + 1))

/-! ### Texts between quotes -/

/-- The number written with the sixteen digits of base sixteen. -/
def readHex (digits : List Char) : Nat :=
  digits.foldl (fun value c =>
    16 * value + (if c.isDigit then c.toNat - '0'.toNat else c.toNat - 'a'.toNat + 10)) 0

theorem readHex_toDigits (n : Nat) : readHex (Nat.toDigits 16 n) = n := by
  induction n using Nat.strong_induction_on with
  | _ n ih =>
    have hdigit : ∀ d < 16, readHex [d.digitChar] = d := by decide
    by_cases hlt : n < 16
    · rw [Nat.toDigits_of_lt_base hlt, hdigit n hlt]
    · have hlast : ∀ front : List Char, ∀ c, readHex (front ++ [c]) = 16 * readHex front + readHex [c] := by
        intro front c
        simp [readHex, List.foldl_append]
      rw [Nat.toDigits_of_base_le (by decide) (Nat.le_of_not_lt hlt), hlast,
        ih (n / 16) (Nat.div_lt_self (by omega) (by decide)),
        hdigit _ (Nat.mod_lt n (by decide)), Nat.div_add_mod]

theorem exists_digitChar {n : Nat} {c : Char} (hmem : c ∈ Nat.toDigits 16 n) : ∃ d < 16, c = d.digitChar := by
  induction n using Nat.strong_induction_on with
  | _ n ih =>
    by_cases hlt : n < 16
    · rw [Nat.toDigits_of_lt_base hlt, List.mem_singleton] at hmem
      exact ⟨n, hlt, hmem⟩
    · rw [Nat.toDigits_of_base_le (by decide) (Nat.le_of_not_lt hlt), List.mem_append,
        List.mem_singleton] at hmem
      obtain hmem | hlast := hmem
      · exact ih (n / 16) (Nat.div_lt_self (by omega) (by decide)) hmem
      · exact ⟨n % 16, Nat.mod_lt n (by decide), hlast⟩

/-- Neither a brace nor a line end is a digit of base sixteen. -/
theorem ne_of_mem_toDigits {n : Nat} {c : Char} (hmem : c ∈ Nat.toDigits 16 n) : c ≠ '\x7d' ∧ c ≠ '\n' := by
  have hall : ∀ d < 16, d.digitChar ≠ '\x7d' ∧ d.digitChar ≠ '\n' := by decide
  obtain ⟨d, hd, rfl⟩ := exists_digitChar hmem
  exact hall d hd

/-- The character that the letter stands for behind a backslash. The quotes stand for themselves. -/
def letterValue (letter : Char) : Char :=
  if letter = '0' then '\x00'
  else if letter = 't' then '\t'
  else if letter = 'r' then '\r'
  else if letter = 'n' then '\n'
  else letter

/-- The character written first in a quoted text, and what is behind it. -/
def unquoteChar : List Char → Option (Char × List Char)
  | [] => none
  | '\\' :: 'u' :: rest =>
    some (Char.ofNat (readHex ((rest.drop 1).takeWhile (· != '\x7d'))),
      ((rest.drop 1).dropWhile (· != '\x7d')).drop 1)
  | '\\' :: letter :: rest => some (letterValue letter, rest)
  | c :: rest => some (c, rest)

theorem unquoteChar_letter {letter : Char} (hletter : letter ≠ 'u') (rest : List Char) :
    unquoteChar ('\\' :: letter :: rest) = some (letterValue letter, rest) := by
  rw [unquoteChar.eq_def]
  simp

theorem unquoteChar_plain {c : Char} (hc : c ≠ '\\') (rest : List Char) :
    unquoteChar (c :: rest) = some (c, rest) := by
  rw [unquoteChar.eq_def]
  simp [hc]

theorem unquoteChar_number (c : Char) (rest : List Char) :
    unquoteChar ("\\u\x7b".toList ++ Nat.toDigits 16 c.toNat ++ ['\x7d'] ++ rest) = some (c, rest) := by
  have hdigits : ∀ d ∈ Nat.toDigits 16 c.toNat, (d != '\x7d') = true := fun d hmem => by
    simpa using (ne_of_mem_toDigits hmem).1
  have hclose : ∀ d ∈ ('\x7d' :: rest).head?, (d != '\x7d') = false := by simp
  have htext : "\\u\x7b".toList ++ Nat.toDigits 16 c.toNat ++ ['\x7d'] ++ rest =
      '\\' :: 'u' :: '\x7b' :: (Nat.toDigits 16 c.toNat ++ '\x7d' :: rest) := by
    simp
  rw [htext, unquoteChar, List.drop_one, List.tail_cons, takeWhile_run hdigits hclose,
    dropWhile_run hdigits hclose, readHex_toDigits, Char.ofNat_toNat, List.drop_one, List.tail_cons]

theorem letterValue_escapeLetter {c letter : Char} (hletter : escapeLetter? c = some letter) :
    letter ≠ 'u' ∧ letter ≠ '\n' ∧ letterValue letter = c := by
  simp only [escapeLetter?] at hletter
  repeat' split at hletter
  all_goals cases hletter
  all_goals subst c
  all_goals decide

variable {quote : Char}

theorem unquoteChar_quotedChar (hquote : quote = '"' ∨ quote = '\'') (c : Char) (rest : List Char) :
    unquoteChar (quotedChar quote c ++ rest) = some (c, rest) := by
  unfold quotedChar
  split
  · next letter hletter =>
    obtain ⟨hu, -, hvalue⟩ := letterValue_escapeLetter hletter
    simp [unquoteChar_letter hu, hvalue]
  · next hletter =>
    have hc : c ≠ '\\' := by
      rintro rfl
      exact absurd hletter (by decide)
    split
    · next heq =>
      have hself : quote ≠ 'u' ∧ letterValue quote = quote := by
        obtain rfl | rfl := hquote <;> decide
      simp [unquoteChar_letter hself.1, hself.2, heq]
    · split
      · exact unquoteChar_number c rest
      · exact unquoteChar_plain hc rest

/-- No character is written with the quote in front. -/
theorem exists_quotedChar (hquote : quote = '"' ∨ quote = '\'') (c : Char) :
    ∃ first rest, quotedChar quote c = first :: rest ∧ first ≠ quote := by
  have hbackslash : '\\' ≠ quote := by
    obtain rfl | rfl := hquote <;> decide
  unfold quotedChar
  split
  · exact ⟨'\\', _, rfl, hbackslash⟩
  · split
    · exact ⟨'\\', _, rfl, hbackslash⟩
    · next hne =>
      split
      · exact ⟨'\\', _, rfl, hbackslash⟩
      · exact ⟨c, [], rfl, hne⟩

/-- A text between quotes is found again in front of anything. -/
theorem quoted_append_inj (hquote : quote = '"' ∨ quote = '\'') {text text' rest rest' : List Char}
    (heq : (quoted quote text).toList ++ rest = (quoted quote text').toList ++ rest') :
    text = text' ∧ rest = rest' := by
  have hclosed : ∀ text text' : List Char, text.flatMap (quotedChar quote) ++ quote :: rest =
      text'.flatMap (quotedChar quote) ++ quote :: rest' → text = text' ∧ rest = rest' := by
    intro text
    induction text with
    | nil =>
      intro text' heq
      cases text' with
      | nil => exact ⟨rfl, (List.cons.inj heq).2⟩
      | cons c text' =>
        obtain ⟨first, more, hfirst, hne⟩ := exists_quotedChar hquote c
        rw [List.flatMap_cons, hfirst] at heq
        exact absurd (List.cons.inj heq).1.symm hne
    | cons c text ih =>
      intro text' heq
      cases text' with
      | nil =>
        obtain ⟨first, more, hfirst, hne⟩ := exists_quotedChar hquote c
        rw [List.flatMap_cons, hfirst] at heq
        exact absurd (List.cons.inj heq).1 hne
      | cons c' text' =>
        have hread := congrArg unquoteChar heq
        simp only [List.flatMap_cons, List.append_assoc, unquoteChar_quotedChar hquote,
          Option.some.injEq, Prod.mk.injEq] at hread
        obtain ⟨rfl, hmore⟩ := hread
        exact (ih text' hmore).imp_left (congrArg (c :: ·))
  refine hclosed text text' ?_
  simpa [quoted] using heq

/-- No line ends inside a text between quotes. -/
theorem newline_not_mem_quoted (hquote : quote = '"' ∨ quote = '\'') (text : List Char) :
    '\n' ∉ (quoted quote text).toList := by
  have hne : '\n' ≠ quote := by
    obtain rfl | rfl := hquote <;> decide
  have hchar : ∀ c, '\n' ∉ quotedChar quote c := by
    intro c
    unfold quotedChar
    split
    · next letter hletter =>
      simpa using Ne.symm (letterValue_escapeLetter hletter).2.1
    · next hletter =>
      have hc : '\n' ≠ c := by
        rintro rfl
        exact absurd hletter (by decide)
      split
      · simpa using hne
      · split
        · have hdigits : '\n' ∉ Nat.toDigits 16 c.toNat := fun hmem => (ne_of_mem_toDigits hmem).2 rfl
          simpa using hdigits
        · simpa using hc
  simp [quoted, hne, hchar]

end ObsidianSyntax
