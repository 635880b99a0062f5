import ObsidianSyntax.Decimal.Power

/-!
# Floating-point numbers of 64 bits

A number is its word of 64 bits: a sign, eleven bits of exponent, 52 bits of fraction. Magnitudes
are measured in units of 2^-1074, the smallest positive number, so that every finite magnitude is a
natural number and rounding a ratio is one division of natural numbers. The fields are laid out so
that the next larger magnitude has the next larger word, which lets a rounding that carries into the
next exponent be a plain addition.
-/

namespace ObsidianSyntax

/-- A floating-point number, as the word that holds it. -/
structure Binary64 where
  bits : UInt64
deriving DecidableEq, Repr

/-- The quotient rounded to the nearest natural number, a half to the even neighbour. -/
def divToNearest (num den : Nat) : Nat :=
  let down := num / den
  let twice := 2 * (num % den)
  if twice < den ∨ (twice = den ∧ down % 2 = 0) then down else down + 1

namespace Binary64

/-- The word without its sign. -/
def magnitude (x : Binary64) : Nat := x.bits.toNat % twoTo 63

def isNegative (x : Binary64) : Bool := twoTo 63 ≤ x.bits.toNat

def exponentField (x : Binary64) : Nat := x.magnitude / twoTo 52

def fraction (x : Binary64) : Nat := x.magnitude % twoTo 52

/-- The magnitude of the two infinities. Words of a larger magnitude are no numbers. -/
def infiniteMagnitude : Nat := 2047 * twoTo 52

def isNaN (x : Binary64) : Bool := infiniteMagnitude < x.magnitude

def isInfinite (x : Binary64) : Bool := x.magnitude == infiniteMagnitude

/-- The digits of a finite number in base two, as a natural number. -/
def significand (x : Binary64) : Nat :=
  if x.exponentField = 0 then x.fraction else twoTo 52 + x.fraction

/-- The magnitude of a finite number in units of 2^-1074. -/
def units (x : Binary64) : Nat := x.significand * twoTo (x.exponentField - 1)

/-- Whether the two are the same number: the two zeros are, and what is no number is the same as nothing. -/
def sameNumber (x y : Binary64) : Bool :=
  !x.isNaN && !y.isNaN && (x.bits == y.bits || (x.magnitude == 0 && y.magnitude == 0))

/-- How many units of 2^-1074 stand between neighbours at the size of `num / den`, as a power of two. -/
def spacing (num den : Nat) : Nat := (num * twoTo 1074 / den).log2 - 52

/-- The non-negative number nearest to `num / den`, a half to the even neighbour. What is too large
becomes infinite. -/
def ofRatio (num den : Nat) : Binary64 :=
  let exponent := spacing num den
  let word := exponent * twoTo 52 + divToNearest (num * twoTo 1074) (den * twoTo exponent)
  ⟨.ofNat (min word infiniteMagnitude)⟩

/-- The number that a literal of digits, a point and digits stands for. -/
def ofLiteral? (text : List Char) : Option Binary64 :=
  let whole := text.takeWhile Char.isDigit
  match text.dropWhile Char.isDigit with
  | '.' :: places =>
    if !whole.isEmpty && !places.isEmpty && places.all Char.isDigit then
      some (ofRatio (Nat.ofDigitChars 10 (whole ++ places) 0) (tenTo places.length))
    else none
  | _ => none

end Binary64

end ObsidianSyntax
