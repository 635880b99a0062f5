import Mathlib.Tactic.Ring
import ObsidianSyntax.Proofs.Parse.Grammar
import ObsidianSyntax.Tree.Basic

/-!
# Literals as they are written

Every value that a literal can have is written as one terminal. An integer is its digits. A
floating-point number is its exact decimal, with as many places as it needs and at least one. In the
body of a string or character literal the line end, the backslash and the two quotes are escaped and
everything else stands for itself.
-/

namespace ObsidianSyntax

/-! ### Quoted texts -/

/-- The character as it stands in the body of a literal. -/
def escaped (c : Char) : List Char :=
  if c = '\n' then ['\\', 'n']
  else if c = '\\' ∨ c = '"' ∨ c = '\'' then ['\\', c]
  else [c]

theorem escaped_cases (c : Char) :
    (c = '\n' ∧ escaped c = ['\\', 'n']) ∨
    (c ≠ '\n' ∧ (c = '\\' ∨ c = '"' ∨ c = '\'') ∧ escaped c = ['\\', c]) ∨
    (c ≠ '\n' ∧ c ≠ '\\' ∧ c ≠ '"' ∧ c ≠ '\'' ∧ escaped c = [c]) := by
  by_cases hline : c = '\n'
  · exact .inl ⟨hline, by simp [escaped, hline]⟩
  by_cases hescape : c = '\\' ∨ c = '"' ∨ c = '\''
  · exact .inr (.inl ⟨hline, hescape, by simp only [escaped, hline, hescape, if_true, if_false]⟩)
  · have hplain : escaped c = [c] := by simp only [escaped, hline, hescape, if_false]
    simp only [not_or] at hescape
    exact .inr (.inr ⟨hline, hescape.1, hescape.2.1, hescape.2.2, hplain⟩)

theorem item_escaped {quote : Char} (hquote : quote = '"' ∨ quote = '\'') (c : Char) :
    Item quote (escaped c) := by
  obtain ⟨_, heq⟩ | ⟨hline, _, heq⟩ | ⟨hline, hescape, hstring, hchar, heq⟩ := escaped_cases c
  · rw [heq]
    exact .pair (by decide)
  · rw [heq]
    exact .pair hline
  · rw [heq]
    apply Item.plain _ hescape hline
    rcases hquote with rfl | rfl
    · exact hstring
    · exact hchar

theorem items_escaped (text : List Char) : Items '"' (text.flatMap escaped) := by
  induction text with
  | nil => exact .nil
  | cons c rest ih => exact .cons (item_escaped (.inl rfl) c) ih

theorem unescape_escaped (c : Char) (rest : List Char) :
    unescape (escaped c ++ rest) = c :: unescape rest := by
  obtain ⟨rfl, heq⟩ | ⟨_, hescape, heq⟩ | ⟨_, hescape, _, _, heq⟩ := escaped_cases c
  · rw [heq]
    exact unescape_pair 'n' rest
  · rw [heq]
    have hpair : pairValue c = [c] := by
      rcases hescape with rfl | rfl | rfl <;> rfl
    exact (unescape_pair c rest).trans (by rw [hpair]; rfl)
  · rw [heq]
    exact unescape_cons_of_ne hescape rest

theorem unescape_flatMap_escaped (text : List Char) : unescape (text.flatMap escaped) = text := by
  induction text with
  | nil => exact unescape_nil
  | cons c rest ih => rw [List.flatMap_cons, unescape_escaped, ih]

/-- The literal that stands for the text, with the quotes around it. -/
def quotedSource (quote : Char) (text : List Char) : String :=
  String.ofList (quote :: text.flatMap escaped ++ [quote])

theorem unescape_quotedSource (quote : Char) (text : List Char) :
    unescape (quotedBody quote (quotedSource quote text).toList) = text := by
  rw [quotedSource, String.toList_ofList, quotedBody_wrapped, unescape_flatMap_escaped]

/-! ### Decimals -/

theorem isDigits_toDigits (n : Nat) : IsDigits (Nat.toDigits 10 n) :=
  ⟨Nat.toDigits_ne_nil, fun _ hc => Nat.isDigit_of_mem_toDigits (by decide) (by decide) hc⟩

/-- The last digits of a number, with zeros before it if it has fewer. -/
def lastDigits : Nat → Nat → List Char
  | 0, _ => []
  | count + 1, n => lastDigits count (n / 10) ++ [(n % 10).digitChar]

@[simp] theorem length_lastDigits (count n : Nat) : (lastDigits count n).length = count := by
  induction count generalizing n with
  | zero => rfl
  | succ count ih => simp [lastDigits, ih]

theorem isDigit_of_mem_lastDigits {count n : Nat} {c : Char} (hmem : c ∈ lastDigits count n) :
    c.isDigit = true := by
  induction count generalizing n with
  | zero => cases hmem
  | succ count ih =>
    rw [lastDigits, List.mem_append, List.mem_singleton] at hmem
    rcases hmem with hmem | rfl
    · exact ih hmem
    · have hlt : n % 10 < 10 := Nat.mod_lt n (by decide)
      apply Nat.isDigit_of_mem_toDigits (b := 10) (n := n % 10) (by decide) (by decide)
      rw [Nat.toDigits_of_lt_base hlt]
      exact List.mem_singleton_self _

/-- The last digits of a number, read behind those before them, give the number. -/
theorem ofDigitChars_lastDigits (count n : Nat) :
    Nat.ofDigitChars 10 (lastDigits count n) (n / 10 ^ count) = n := by
  induction count generalizing n with
  | zero => simp [lastDigits]
  | succ count ih =>
    have hdiv : n / 10 ^ (count + 1) = n / 10 / 10 ^ count := by rw [Nat.pow_succ', Nat.div_div_eq_div_mul]
    rw [lastDigits, Nat.ofDigitChars_append, hdiv, ih,
      Nat.ofDigitChars_cons_digitChar_of_lt_ten (Nat.mod_lt n (by decide)), Nat.ofDigitChars_nil]
    omega

namespace Binary64

/-- How many decimal places the magnitude of a number has, at least one. -/
def places (x : Binary64) : Nat :=
  (((List.range 1074).map (· + 1)).find? fun count => x.units * tenTo count % twoTo 1074 == 0).getD 1074

theorem places_pos (x : Binary64) : 0 < x.places := by
  unfold places
  generalize hfound : List.find? _ _ = found
  cases found with
  | none => decide
  | some count =>
    obtain ⟨_, _, rfl⟩ := List.mem_map.1 (List.mem_of_find?_eq_some hfound)
    exact Nat.succ_pos _

theorem twoTo_dvd_tenTo (count : Nat) : twoTo count ∣ tenTo count :=
  ⟨5 ^ count, by
    have hten : (10 : Nat) = 2 * 5 := rfl
    exact (congrArg (· ^ count) hten).trans (Nat.mul_pow 2 5 count)⟩

theorem twoTo_dvd_places (x : Binary64) : twoTo 1074 ∣ x.units * tenTo x.places := by
  unfold places
  generalize hfound : List.find? _ _ = found
  cases found with
  | none => exact Nat.dvd_mul_left_of_dvd (twoTo_dvd_tenTo 1074) _
  | some count => exact Nat.dvd_of_mod_eq_zero (by simpa using List.find?_some hfound)

/-- The magnitude of a number as a whole number of its last place. -/
def scaled (x : Binary64) : Nat := x.units * tenTo x.places / twoTo 1074

theorem scaled_mul (x : Binary64) : x.scaled * twoTo 1074 = x.units * tenTo x.places :=
  Nat.div_mul_cancel x.twoTo_dvd_places

def wholeDigits (x : Binary64) : List Char := Nat.toDigits 10 (x.scaled / tenTo x.places)

def placeDigits (x : Binary64) : List Char := lastDigits x.places x.scaled

theorem isDigits_placeDigits (x : Binary64) : IsDigits x.placeDigits := by
  refine ⟨fun hnil => ?_, fun c hc => isDigit_of_mem_lastDigits hc⟩
  have hlength : x.placeDigits.length = x.places := length_lastDigits _ _
  have hpos := x.places_pos
  rw [hnil] at hlength
  simp only [List.length_nil] at hlength
  omega

theorem ofDigitChars_decimal (x : Binary64) :
    Nat.ofDigitChars 10 (x.wholeDigits ++ x.placeDigits) 0 = x.scaled := by
  rw [Nat.ofDigitChars_append, wholeDigits, Nat.ofDigitChars_ten_toDigits]
  exact ofDigitChars_lastDigits x.places x.scaled

/-! ### Exact ratios -/

theorem divToNearest_mul {den : Nat} (hden : 0 < den) (num : Nat) : divToNearest (num * den) den = num := by
  simp [divToNearest, Nat.mul_div_cancel num hden, hden]

theorem spacing_of_exact {x : Binary64} {num den : Nat} (hden : 0 < den)
    (hratio : num * twoTo 1074 = x.units * den) :
    spacing num den = x.units.log2 - 52 := by
  rw [spacing, hratio, Nat.mul_div_cancel _ hden]

theorem fraction_lt (x : Binary64) : x.fraction < 2 ^ 52 := Nat.mod_lt _ (twoTo_pos 52)

theorem magnitude_eq (x : Binary64) : x.magnitude = x.exponentField * 2 ^ 52 + x.fraction :=
  (Nat.div_add_mod' x.magnitude (2 ^ 52)).symm

theorem log2_mul_two_pow {m : Nat} (hlow : 2 ^ 52 ≤ m) (hhigh : m < 2 ^ 53) (shift : Nat) :
    (m * 2 ^ shift).log2 = 52 + shift := by
  have hpos : 0 < 2 ^ shift := Nat.two_pow_pos shift
  have hne : m * 2 ^ shift ≠ 0 := Nat.mul_ne_zero (by omega) (by omega)
  apply (Nat.log2_eq_iff hne).2
  refine ⟨?_, ?_⟩
  · rw [Nat.pow_add]
    exact Nat.mul_le_mul_right _ hlow
  · rw [Nat.add_right_comm, Nat.pow_add]
    exact Nat.mul_lt_mul_of_pos_right hhigh hpos

theorem log2_units (x : Binary64) : x.units.log2 - 52 = x.exponentField - 1 := by
  have hfraction := x.fraction_lt
  by_cases hzero : x.exponentField = 0
  · have hunits : x.units = x.fraction := by simp [units, significand, hzero]
    rw [hunits, hzero]
    by_cases hnone : x.fraction = 0
    · simp [hnone]
    · have hlog := (Nat.log2_lt hnone).2 hfraction
      omega
  · have hunits : x.units = (2 ^ 52 + x.fraction) * 2 ^ (x.exponentField - 1) := by
      simp only [units, significand, hzero, if_false]
      rfl
    have hlog := log2_mul_two_pow (m := 2 ^ 52 + x.fraction) (by omega) (by omega) (x.exponentField - 1)
    rw [hunits, hlog, Nat.add_sub_cancel_left]

/-- A ratio that is the magnitude of a number has that number for its nearest. -/
theorem ofRatio_of_exact {x : Binary64} {num den : Nat} (hden : 0 < den)
    (hratio : num * twoTo 1074 = x.units * den) (hnumber : x.isNaN = false)
    (hsign : x.isNegative = false) : ofRatio num den = x := by
  have hspacing : spacing num den = x.exponentField - 1 := (spacing_of_exact hden hratio).trans x.log2_units
  have hdiv : divToNearest (num * twoTo 1074) (den * twoTo (x.exponentField - 1)) = x.significand := by
    have heq : num * twoTo 1074 = x.significand * (den * twoTo (x.exponentField - 1)) := by
      rw [hratio, units]
      ring
    rw [heq]
    exact divToNearest_mul (Nat.mul_pos hden (twoTo_pos _)) _
  have hword : (x.exponentField - 1) * twoTo 52 + x.significand = x.magnitude := by
    have hmagnitude := x.magnitude_eq
    have htwo : twoTo 52 = 2 ^ 52 := rfl
    rw [significand, htwo, hmagnitude]
    split <;> omega
  have hle : x.magnitude ≤ infiniteMagnitude := by simpa [isNaN] using hnumber
  have hbits : x.magnitude = x.bits.toNat := by
    have hlt : x.bits.toNat < twoTo 63 := by simpa [isNegative] using hsign
    exact Nat.mod_eq_of_lt hlt
  rw [ofRatio, hspacing, hdiv, hword, Nat.min_eq_left hle, hbits, UInt64.ofNat_toNat]

end Binary64

/-! ### Literals -/

namespace Literal

/-- Whether the value can be written as a literal: no integer or number below zero can. -/
def isExpressible : Literal → Bool
  | .int value => 0 ≤ value && value < 2 ^ 63
  | .float value => !value.isNaN && !value.isNegative
  | .bool _ | .char _ | .string _ => true

/-- The literal of the value. -/
def terminal : Literal → Terminal
  | .int value => ⟨.intLiteral, String.ofList (Nat.toDigits 10 value.toNat)⟩
  | .float value => ⟨.floatLiteral, String.ofList (value.wholeDigits ++ '.' :: value.placeDigits)⟩
  | .bool value => .keyword (if value then .trueWord else .falseWord)
  | .char value => ⟨.charLiteral, quotedSource '\'' [value]⟩
  | .string value => ⟨.stringLiteral, quotedSource '"' value.toList⟩

/-- A literal denotes the value it is written for. -/
theorem terminal_denotes {value : Literal} (hvalue : value.isExpressible = true) :
    value.terminal.Denotes value := by
  cases value with
  | int value =>
    simp only [isExpressible, Bool.and_eq_true, decide_eq_true_eq] at hvalue
    obtain ⟨n, rfl⟩ := Int.eq_ofNat_of_zero_le hvalue.1
    have hfits : Nat.ofDigitChars 10 (Nat.toDigits 10 n) 0 < 2 ^ 63 := by
      rw [Nat.ofDigitChars_ten_toDigits]
      omega
    have hdenotes := Terminal.Denotes.int (isDigits_toDigits n) hfits
    rwa [Nat.ofDigitChars_ten_toDigits] at hdenotes
  | float value =>
    simp only [isExpressible, Bool.and_eq_true, Bool.not_eq_true'] at hvalue
    have hdenotes := Terminal.Denotes.float (isDigits_toDigits (value.scaled / tenTo value.places))
      value.isDigits_placeDigits
    have hvalue' : Binary64.ofRatio value.scaled (10 ^ value.placeDigits.length) = value := by
      rw [Binary64.placeDigits, length_lastDigits]
      exact Binary64.ofRatio_of_exact (tenTo_pos _) value.scaled_mul hvalue.1 hvalue.2
    rwa [show Nat.toDigits 10 (value.scaled / tenTo value.places) = value.wholeDigits from rfl,
      value.ofDigitChars_decimal, hvalue'] at hdenotes
  | bool value =>
    cases value with
    | true => exact .true
    | false => exact .false
  | char value => exact .char (unescape_quotedSource '\'' [value])
  | string value =>
    have hdenotes := @Terminal.Denotes.string (quotedSource '"' value.toList)
    rwa [unescape_quotedSource, String.ofList_toList] at hdenotes

end Literal

end ObsidianSyntax
