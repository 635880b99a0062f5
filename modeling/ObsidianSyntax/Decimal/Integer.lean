import ObsidianSyntax.Decimal.Power

/-!
# Integers written in decimal

An integer literal is digits alone and must fit 64 bits with a sign, so the largest is
9223372036854775807. Zeros in front are allowed.
-/

namespace ObsidianSyntax

/-- The number that digits stand for, if it fits 64 bits with a sign. -/
def integerValue? (digits : List Char) : Option Nat :=
  let value := Nat.ofDigitChars 10 digits 0
  if !digits.isEmpty && digits.all Char.isDigit && value < twoTo 63 then some value else none

end ObsidianSyntax
