import ObsidianSyntax.Decimal.Shortest
import ObsidianSyntax.Proofs.Place.PlainForm
import ObsidianSyntax.Proofs.Print.Words
import ObsidianSyntax.Proofs.Tree.WellFormed

/-!
# Written numbers are read back

The form in which a floating-point number is written leaves out zeros, moves the point and may set
the power of ten apart, but says which decimal it was made from, up to zeros at its end. Those do
not change the number that is nearest. The decimal was chosen because that number is the one to be
written, and if no short one was found it is the number itself, so that the written form reads back.
Two numbers of one form are therefore the same.
-/

namespace ObsidianSyntax

/-- A power of ten before the places of a decimal moves the point. -/
theorem ofDigitChars_append_zeros (digits : List Char) (count : Nat) :
    Nat.ofDigitChars 10 (digits ++ List.replicate count '0') 0 =
      Nat.ofDigitChars 10 digits 0 * 10 ^ count := by
  rw [Nat.ofDigitChars_append, Nat.ofDigitChars_replicate_zero, Nat.mul_comm]

namespace Binary64

/-! ### Nearest numbers -/

theorem divToNearest_mul_mul {factor : Nat} (hfactor : 0 < factor) (num den : Nat) :
    divToNearest (num * factor) (den * factor) = divToNearest num den := by
  have hless : 2 * (num % den * factor) < den * factor ↔ 2 * (num % den) < den := by
    rw [← Nat.mul_assoc, Nat.mul_lt_mul_right hfactor]
  have hequal : 2 * (num % den * factor) = den * factor ↔ 2 * (num % den) = den := by
    rw [← Nat.mul_assoc, Nat.mul_left_inj (Nat.ne_of_gt hfactor)]
  simp only [divToNearest, Nat.mul_div_mul_right _ _ hfactor, Nat.mul_mod_mul_right, hless, hequal]

/-- The nearest number does not depend on how a ratio is written. -/
theorem ofRatio_mul_mul {factor : Nat} (hfactor : 0 < factor) (num den : Nat) :
    ofRatio (num * factor) (den * factor) = ofRatio num den := by
  have hspacing : spacing (num * factor) (den * factor) = spacing num den := by
    rw [spacing, Nat.mul_right_comm, Nat.mul_div_mul_right _ _ hfactor, spacing]
  rw [ofRatio, hspacing, Nat.mul_right_comm num, Nat.mul_right_comm den,
    divToNearest_mul_mul hfactor, ofRatio]

theorem ofRatio_zero {den : Nat} (hden : 0 < den) : ofRatio 0 den = ⟨0⟩ :=
  ofRatio_of_exact hden (by simp [units, significand, exponentField, fraction, magnitude]) rfl rfl

theorem ofScaled_natCast (digits places : Nat) : ofScaled digits places = ofRatio digits (tenTo places) := by
  rw [ofScaled, Int.toNat_natCast, Int.toNat_of_nonpos (by omega), tenTo_zero, Nat.mul_one]

/-- One more place for a zero is the same decimal. -/
theorem ofScaled_mul_ten (digits : Nat) (places : Int) :
    ofScaled (digits * 10) (places + 1) = ofScaled digits places := by
  cases places with
  | ofNat count =>
    have hnum : digits * 10 * tenTo (-(Int.ofNat count + 1)).toNat = digits * tenTo
        (-Int.ofNat count).toNat * 10 := by
      rw [Int.toNat_of_nonpos (by simp only [Int.ofNat_eq_natCast]; omega),
        Int.toNat_of_nonpos (by simp), tenTo_zero, Nat.mul_one, Nat.mul_one]
    have hden : tenTo (Int.ofNat count + 1).toNat = tenTo (Int.ofNat count).toNat * 10 := rfl
    rw [ofScaled, hnum, hden, ofRatio_mul_mul (by decide), ofScaled]
  | negSucc count =>
    have hnum : digits * 10 * tenTo (-(Int.negSucc count + 1)).toNat = digits * tenTo
        (-Int.negSucc count).toNat := by
      have hless : (-(Int.negSucc count + 1)).toNat = count := by omega
      have hmore : (-Int.negSucc count).toNat = count + 1 := by omega
      rw [hless, hmore, tenTo_succ, Nat.mul_assoc]
    have hden : (Int.negSucc count + 1).toNat = (Int.negSucc count).toNat := by omega
    rw [ofScaled, hnum, hden, ofScaled]

theorem ofScaled_mul_pow (digits count : Nat) (places : Int) :
    ofScaled (digits * 10 ^ count) (places + count) = ofScaled digits places := by
  induction count with
  | zero => simp
  | succ count ih =>
    rw [Nat.pow_succ, ← Nat.mul_assoc, Int.natCast_succ, ← Int.add_assoc, ofScaled_mul_ten, ih]

/-! ### Reading a form -/

/-- The number that a written form stands for: digits with a point among them, and behind the letter
for it a power of ten. -/
def ofText (text : List Char) : Binary64 :=
  let mantissa := text.takeWhile (· != 'e')
  let exponent := readInteger (text.dropWhile (· != 'e')).tail
  let whole := mantissa.takeWhile (· != '.')
  let places := (mantissa.dropWhile (· != '.')).tail
  ofScaled (Nat.ofDigitChars 10 (whole ++ places) 0) (places.length - exponent)

/-- A text of digits, or of nothing. -/
def AllDigits (text : List Char) : Prop := ∀ c ∈ text, c.isDigit = true

section

variable {whole places digits : List Char}

theorem AllDigits.replicate (count : Nat) : AllDigits (List.replicate count '0') := by
  intro c hmem
  rw [(List.mem_replicate.1 hmem).2]
  rfl

theorem AllDigits.append (hwhole : AllDigits whole) (hplaces : AllDigits places) :
    AllDigits (whole ++ places) := by
  intro c hmem
  exact (List.mem_append.1 hmem).elim (hwhole c) (hplaces c)

theorem AllDigits.ne {c : Char} (hdigits : AllDigits digits) (hc : c.isDigit = false) :
    ∀ d ∈ digits, (d != c) = true := by
  intro d hmem
  have hne : d ≠ c := fun heq => by simp [← heq, hdigits d hmem] at hc
  simpa using hne

/-- A form is read part by part. The point and the letter for the power of ten may be missing. -/
theorem ofText_parts (hwhole : AllDigits whole) (fraction power : List Char)
    (hplaces : AllDigits fraction.tail) (hpoint : ∀ c ∈ fraction.head?, c = '.')
    (hpower : ∀ c ∈ power.head?, c = 'e') :
    ofText (whole ++ fraction ++ power) =
      ofScaled (Nat.ofDigitChars 10 (whole ++ fraction.tail) 0)
        (fraction.tail.length - readInteger power.tail) := by
  have hfraction : ∀ c ∈ fraction, (c != 'e') = true := by
    cases fraction with
    | nil => nofun
    | cons c places =>
      rw [hpoint c rfl]
      exact List.forall_mem_cons.2 ⟨rfl, hplaces.ne rfl⟩
  have hmantissa : ∀ c ∈ whole ++ fraction, (c != 'e') = true :=
    List.forall_mem_append.2 ⟨hwhole.ne rfl, hfraction⟩
  have hletter : ∀ c ∈ power.head?, (c != 'e') = false := fun c hc => by simp [hpower c hc]
  have hdot : ∀ c ∈ fraction.head?, (c != '.') = false := fun c hc => by simp [hpoint c hc]
  have hfront := hwhole.ne (c := '.') rfl
  simp only [ofText, takeWhile_run hmantissa hletter, dropWhile_run hmantissa hletter,
    takeWhile_run hfront hdot, dropWhile_run hfront hdot]

/-- Zeros filled in before the point and behind it do not change the number. -/
theorem ofText_positional (hdigits : AllDigits digits) (point : Int) :
    ofText (positional digits point) = ofScaled (Nat.ofDigitChars 10 digits 0) (digits.length - point) := by
  have hread : ∀ {whole places : List Char}, AllDigits whole → AllDigits places →
      ofText (whole ++ '.' :: places) = ofScaled (Nat.ofDigitChars 10 (whole ++ places) 0) places.length := by
    intro whole places hwhole hplaces
    have hparts := ofText_parts hwhole ('.' :: places) [] hplaces (by simp) (by simp)
    simpa [readInteger] using hparts
  unfold positional
  split
  · next hfront =>
    have hzero : AllDigits ['0'] := .replicate 1
    have hvalue : Nat.ofDigitChars 10 (['0'] ++ (List.replicate (-point).toNat '0' ++ digits)) 0 =
        Nat.ofDigitChars 10 digits 0 := by
      rw [← List.append_assoc, List.singleton_append, ← List.replicate_succ,
        Nat.ofDigitChars_append, Nat.ofDigitChars_replicate_zero, Nat.mul_zero]
    have hlength : ((List.replicate (-point).toNat '0' ++ digits).length : Int) = digits.length - point := by
      rw [List.length_append, List.length_replicate]
      omega
    have hzeros := hread hzero (.append (.replicate (-point).toNat) hdigits)
    rwa [hvalue, hlength] at hzeros
  · next hbehind =>
    obtain ⟨count, rfl⟩ := Int.eq_ofNat_of_zero_le (Int.le_of_lt (Int.not_le.1 hbehind))
    simp only [Int.toNat_natCast]
    by_cases hlong : count < digits.length
    · have htake : AllDigits (digits.take count) := fun c hmem => hdigits c (List.mem_of_mem_take hmem)
      have hdrop : AllDigits (digits.drop count) := fun c hmem => hdigits c (List.mem_of_mem_drop hmem)
      have hplaces : (digits.drop count).isEmpty = false := by simpa using hlong
      have hwhole : count - (digits.take count).length = 0 := by
        rw [List.length_take]
        omega
      rw [hplaces, hwhole, List.replicate_zero, List.append_nil, if_neg Bool.false_ne_true, hread htake hdrop,
        List.take_append_drop, List.length_drop, Int.ofNat_sub (Nat.le_of_lt hlong)]
    · have hzero : AllDigits ['0'] := .replicate 1
      have hplaces : (digits.drop count).isEmpty = true := by simpa using hlong
      have hwhole : digits.take count = digits := List.take_of_length_le (Nat.le_of_not_lt hlong)
      have hzeros : digits ++ List.replicate (count - digits.length) '0' ++ ['0'] =
          digits ++ List.replicate (count - digits.length + 1) '0' := by
        rw [List.replicate_succ', List.append_assoc]
      have hpoint : ((['0'].length : Nat) : Int) =
          digits.length - count + ((count - digits.length + 1 : Nat) : Int) := by
        rw [List.length_singleton]
        omega
      rw [hplaces, if_pos rfl, hwhole, hread (.append hdigits (.replicate _)) hzero, hzeros,
        ofDigitChars_append_zeros, hpoint, ofScaled_mul_pow]

theorem ofText_scientific (hdigits : AllDigits digits) (hne : digits ≠ []) (point : Int) :
    ofText (scientific digits point) = ofScaled (Nat.ofDigitChars 10 digits 0) (digits.length - point) := by
  obtain ⟨first, rest, rfl⟩ := List.exists_cons_of_ne_nil hne
  have hfirst : AllDigits [first] := fun c hmem => hdigits c (List.mem_singleton.1 hmem ▸ List.mem_cons_self)
  have hrest : AllDigits rest := fun c hmem => hdigits c (List.mem_cons_of_mem first hmem)
  have hlength : ((first :: rest).length : Int) - point = rest.length - (point - 1) := by
    rw [List.length_cons]
    omega
  have htail : (if (first :: rest).length ≤ 1 then [] else '.' :: rest).tail = rest := by
    cases rest <;> simp
  have hparts := ofText_parts hfirst (if (first :: rest).length ≤ 1 then [] else '.' :: rest)
    ('e' :: (point - 1).repr.toList) (by rwa [htail]) (by split <;> simp) (by simp)
  rw [htail, List.tail_cons, readInteger_repr, ← hlength] at hparts
  exact hparts

end

/-! ### The form of a number -/

variable {x y : Binary64}

theorem neighbour?_eq_some {willDo : Nat → Bool} {below digits : Nat} {isNearer : Bool}
    (hdigits : neighbour? willDo below isNearer = some digits) : willDo digits = true := by
  unfold neighbour? at hdigits
  split at hdigits
  · next hbelow habove =>
    split at hdigits
    · cases hdigits
      exact hbelow
    · cases hdigits
      exact habove
  · next hbelow _ =>
    cases hdigits
    exact hbelow
  · next _ habove =>
    cases hdigits
    exact habove
  · cases hdigits

theorem decimalOf?_readsBack {count digits : Nat} (hdecimal : x.decimalOf? count = some digits) :
    x.isReadFrom (count - x.pointPlace) digits = true :=
  neighbour?_eq_some hdecimal

theorem allDigits_readsBack (hnumber : x.isNaN = false) (hsign : x.isNegative = false) :
    x.isReadFrom (x.allDigits.2 - x.pointPlace) x.allDigits.1 = true := by
  have hplaces : (x.allDigits.2 : Int) - x.pointPlace = (1074 : Nat) := by
    have hplace : -400 ≤ x.pointPlace := by
      rw [pointPlace]
      omega
    rw [allDigits]
    omega
  have hexact : x.allDigits.1 * twoTo 1074 = x.units * tenTo 1074 := by
    rw [allDigits]
    exact Nat.div_mul_cancel (Nat.dvd_mul_left_of_dvd (twoTo_dvd_tenTo 1074) _)
  rw [isReadFrom, hplaces, ofScaled_natCast, ofRatio_of_exact (tenTo_pos 1074) hexact hnumber hsign,
    beq_self_eq_true]

/-- The digits that a number is written with read back to it. -/
theorem fewestDigits_readsBack (hnumber : x.isNaN = false) (hsign : x.isNegative = false) :
    x.isReadFrom (x.fewestDigits.2 - x.pointPlace) x.fewestDigits.1 = true := by
  unfold fewestDigits
  cases hfound : ((List.range 17).map (· + 1)).findSome? fun count =>
    (x.decimalOf? count).map fun digits => (digits, count) with
  | none => exact allDigits_readsBack hnumber hsign
  | some pair =>
    obtain ⟨count, -, hpair⟩ := List.exists_of_findSome?_eq_some hfound
    obtain ⟨digits, hdecimal, rfl⟩ := Option.map_eq_some_iff.1 hpair
    exact decimalOf?_readsBack hdecimal

theorem decimalWith_readsBack {chosen : Nat × Nat}
    (hread : x.isReadFrom (chosen.2 - x.pointPlace) chosen.1 = true) :
    (ofScaled (x.decimalWith chosen).digits
      ((Nat.toDigits 10
        (x.decimalWith chosen).digits).length - (x.decimalWith chosen).point)).magnitude = x.magnitude := by
  have hlength : chosen.1.repr.length = (Nat.toDigits 10 chosen.1).length := by
    rw [← String.length_toList, Nat.toList_repr]
  have hplaces : ((Nat.toDigits 10 chosen.1).length : Int) -
    (x.pointPlace + (chosen.1.repr.length - chosen.2)) =
      chosen.2 - x.pointPlace := by
    omega
  rw [decimalWith, hplaces]
  exact beq_iff_eq.1 hread

theorem shortest_readsBack (hnumber : x.isNaN = false) (hsign : x.isNegative = false) :
    (ofScaled x.shortest.digits
      ((Nat.toDigits 10 x.shortest.digits).length - x.shortest.point)).magnitude = x.magnitude :=
  decimalWith_readsBack (fewestDigits_readsBack hnumber hsign)

theorem ofScaled_zero (places : Int) : (ofScaled 0 places).magnitude = 0 := by
  rw [ofScaled, Nat.zero_mul, ofRatio_zero (tenTo_pos _)]
  rfl

theorem allDigits_trimZeros (n : Nat) : AllDigits (trimZeros (Nat.toDigits 10 n)) := by
  obtain ⟨count, hdigits, -⟩ := dropTrailing_spec '0' (Nat.toDigits 10 n)
  intro c hmem
  exact (isDigits_toDigits n).2 c (hdigits ▸ List.mem_append_left _ hmem)

/-- The zeros at the end of the decimal are not needed. -/
theorem ofText_magnitudeText (hnumber : x.isNaN = false) (hsign : x.isNegative = false) :
    (ofText x.magnitudeText).magnitude = x.magnitude := by
  unfold magnitudeText
  split
  · next hzero =>
    have hdigit : AllDigits ['0'] := .replicate 1
    have hread := ofText_positional hdigit 1
    rw [hzero]
    exact (congrArg magnitude hread).trans (ofScaled_zero _)
  · next hzero =>
    have hread := shortest_readsBack hnumber hsign
    have hall := allDigits_trimZeros x.shortest.digits
    obtain ⟨count, hdigits⟩ : ∃ count, Nat.toDigits 10 x.shortest.digits =
        trimZeros (Nat.toDigits 10 x.shortest.digits) ++ List.replicate count '0' :=
      (dropTrailing_spec '0' (Nat.toDigits 10 x.shortest.digits)).imp fun _ hspec => hspec.1
    dsimp only
    generalize trimZeros (Nat.toDigits 10 x.shortest.digits) = digits at hall hdigits ⊢
    have hvalue : x.shortest.digits = Nat.ofDigitChars 10 digits 0 * 10 ^ count := by
      rw [← ofDigitChars_append_zeros, ← hdigits, Nat.ofDigitChars_ten_toDigits]
    have hlength : ((Nat.toDigits 10 x.shortest.digits).length : Int) - x.shortest.point =
        digits.length - x.shortest.point + count := by
      rw [hdigits, List.length_append, List.length_replicate]
      omega
    rw [hlength, hvalue, ofScaled_mul_pow] at hread
    have hne : digits ≠ [] := by
      rintro rfl
      exact hzero (hread.symm.trans (ofScaled_zero _))
    split
    · rw [ofText_positional hall, hread]
    · rw [ofText_scientific hall hne, hread]

theorem mem_positional {digits : List Char} (hdigits : AllDigits digits) (point : Int) {c : Char}
    (hmem : c ∈ positional digits point) :
    c.isDigit = true ∨ c = '.' := by
  have hzero : ∀ count, c ∈ List.replicate count '0' → c.isDigit = true := fun count =>
    AllDigits.replicate count c
  have hwhole : c ∈ digits.take point.toNat → c.isDigit = true := fun hc =>
    hdigits c (List.mem_of_mem_take hc)
  have hplaces : c ∈ digits.drop point.toNat → c.isDigit = true := fun hc =>
    hdigits c (List.mem_of_mem_drop hc)
  have hlast : c ∈ ['0'] → c.isDigit = true := hzero 1
  unfold positional at hmem
  split at hmem
  · simp only [List.cons_append, List.mem_cons, List.mem_append] at hmem
    obtain rfl | rfl | hmem | hmem := hmem
    · exact .inl rfl
    · exact .inr rfl
    · exact .inl (hzero _ hmem)
    · exact .inl (hdigits c hmem)
  · simp only [List.mem_append, List.mem_cons] at hmem
    obtain (hmem | hmem) | rfl | hmem := hmem
    · exact .inl (hwhole hmem)
    · exact .inl (hzero _ hmem)
    · exact .inr rfl
    · split at hmem
      · exact .inl (hlast hmem)
      · exact .inl (hplaces hmem)

theorem mem_scientific {digits : List Char} (hdigits : AllDigits digits) (point : Int) {c : Char}
    (hmem : c ∈ scientific digits point) :
    c.isDigit = true ∨ c = '.' ∨ c = 'e' ∨ c = '-' := by
  have hfirst : c ∈ digits.take 1 → c.isDigit = true := fun hc => hdigits c (List.mem_of_mem_take hc)
  have hrest : c ∈ digits.drop 1 → c.isDigit = true := fun hc => hdigits c (List.mem_of_mem_drop hc)
  simp only [scientific, List.mem_append, List.mem_cons] at hmem
  obtain (hmem | hmem) | rfl | hmem := hmem
  · exact .inl (hfirst hmem)
  · split at hmem
    · cases hmem
    · exact (List.mem_cons.1 hmem).elim (fun hc => .inr (.inl hc)) fun hc => .inl (hrest hc)
  · exact .inr (.inr (.inl rfl))
  · exact (mem_repr_int hmem).imp_right fun hc => .inr (.inr hc)

/-- What finite magnitudes are written with. -/
theorem mem_magnitudeText {c : Char} (hmem : c ∈ x.magnitudeText) :
    c.isDigit = true ∨ c = '.' ∨ c = 'e' ∨ c = '-' := by
  unfold magnitudeText at hmem
  split at hmem
  · have hdigit : AllDigits ['0'] := .replicate 1
    exact (mem_positional hdigit 1 hmem).imp_right .inl
  · dsimp only at hmem
    split at hmem
    · exact (mem_positional (allDigits_trimZeros _) _ hmem).imp_right .inl
    · exact mem_scientific (allDigits_trimZeros _) _ hmem

theorem positional_ne_nil (digits : List Char) (point : Int) : positional digits point ≠ [] := by
  unfold positional
  split <;> simp

theorem scientific_ne_nil (digits : List Char) (point : Int) : scientific digits point ≠ [] := by
  simp [scientific]

theorem magnitudeText_ne_nil (x : Binary64) : x.magnitudeText ≠ [] := by
  unfold magnitudeText
  split
  · exact List.cons_ne_nil _ _
  · dsimp only
    split
    · exact positional_ne_nil _ _
    · exact scientific_ne_nil _ _

theorem text_eq (hnumber : x.isNaN = false) (hsign : x.isNegative = false) :
    x.text.toList = if x.isInfinite then ['i', 'n', 'f'] else x.magnitudeText := by
  simp only [text, hnumber, hsign, Bool.false_eq_true, if_false]
  split <;> simp

theorem eq_of_magnitude_eq (hsign : x.isNegative = false) (hsign' : y.isNegative = false)
    (heq : x.magnitude = y.magnitude) : x = y := by
  rw [magnitude_eq_toNat hsign, magnitude_eq_toNat hsign'] at heq
  cases x
  cases y
  exact congrArg mk (UInt64.toNat_inj.1 heq)

/-- Numbers without a sign are told apart by how they are written. -/
theorem text_inj (hx : x.isNaN = false ∧ x.isNegative = false) (hy : y.isNaN = false ∧ y.isNegative = false)
    (htext : x.text.toList = y.text.toList) : x = y := by
  have hinfinite : ∀ {z : Binary64}, ['i', 'n', 'f'] ≠ z.magnitudeText := by
    intro z heq
    have hmem : 'i' ∈ z.magnitudeText := heq ▸ List.mem_cons_self
    exact absurd (mem_magnitudeText hmem) (by decide)
  rw [text_eq hx.1 hx.2, text_eq hy.1 hy.2] at htext
  apply eq_of_magnitude_eq hx.2 hy.2
  by_cases hx' : x.isInfinite <;> by_cases hy' : y.isInfinite
  · exact (beq_iff_eq.1 hx').trans (beq_iff_eq.1 hy').symm
  · rw [if_pos hx', if_neg hy'] at htext
    exact absurd htext hinfinite
  · rw [if_neg hx', if_pos hy'] at htext
    exact absurd htext.symm hinfinite
  · rw [if_neg hx', if_neg hy'] at htext
    rw [← ofText_magnitudeText hx.1 hx.2, htext, ofText_magnitudeText hy.1 hy.2]

end Binary64

end ObsidianSyntax
