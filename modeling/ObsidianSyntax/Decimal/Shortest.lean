import ObsidianSyntax.Decimal.Binary64

/-!
# Shortest decimals

The written form of a floating-point number has the fewest digits that read back to it. For one
digit, two digits and so on, the two neighbours of the number among the decimals of that many digits
are tried: the first count with a hit wins, and of two hits the nearer one, the larger if both are
equally near. Seventeen digits always read back.
-/

namespace ObsidianSyntax

/-- The decimal `digits · 10 ^ (point - number of digits)`: the point stands behind as many digits
as `point` says. -/
structure Decimal where
  digits : Nat
  point : Int
deriving DecidableEq, Repr

namespace Binary64

/-- The number nearest to `digits / 10 ^ places`. -/
def ofScaled (digits : Nat) (places : Int) : Binary64 :=
  ofRatio (digits * tenTo (-places).toNat) (tenTo places.toNat)

/-- How many digits a finite number other than zero has before its point, negative when zeros follow
the point. -/
def pointPlace (x : Binary64) : Int :=
  ((x.units * tenTo 400 / twoTo 1074).repr.length : Int) - 400

/-- Whether the decimal of these digits reads back to a number of the magnitude of `x`. -/
def isReadFrom (x : Binary64) (places : Int) (digits : Nat) : Bool :=
  (ofScaled digits places).magnitude == x.magnitude

/-- Of `below` and its successor the one that is taken: the one that will do, and if both will, the
one that is nearer. -/
def neighbour? (willDo : Nat → Bool) (below : Nat) (isNearer : Bool) : Option Nat :=
  match willDo below, willDo (below + 1) with
  | true, true => some (if isNearer then below else below + 1)
  | true, false => some below
  | false, true => some (below + 1)
  | false, false => none

/-- The decimal of `count` digits that is nearest to `x` among those that read back to it. -/
def decimalOf? (x : Binary64) (count : Nat) : Option Nat :=
  let places : Int := count - x.pointPlace
  let num := x.units * tenTo places.toNat
  let den := twoTo 1074 * tenTo (-places).toNat
  neighbour? (x.isReadFrom places) (num / den) (2 * (num % den) < den)

/-- All digits of a finite number, down to the last place that a multiple of 2^-1074 can have, and
their count. -/
def allDigits (x : Binary64) : Nat × Nat := (x.units * tenTo 1074 / twoTo 1074, (1074 + x.pointPlace).toNat)

/-- The digits of the first count for which there are any that read back, and that count. -/
def fewestDigits (x : Binary64) : Nat × Nat :=
  (((List.range 17).map (· + 1)).findSome? fun count =>
    (x.decimalOf? count).map fun digits => (digits, count)).getD x.allDigits

/-- Digits and the count that was asked for, as a decimal beside `x`. A neighbour with one digit
more than was asked for moves the point by one. -/
def decimalWith (x : Binary64) (chosen : Nat × Nat) : Decimal :=
  ⟨chosen.1, x.pointPlace + (chosen.1.repr.length - chosen.2 : Int)⟩

/-- The shortest digits of a finite number other than zero, and where its point stands. -/
def shortest (x : Binary64) : Decimal := x.decimalWith x.fewestDigits

def trimZeros (digits : List Char) : List Char := (digits.reverse.dropWhile (· == '0')).reverse

/-- Digits with a point, zeros filled in on either side so that a digit stands both before and behind it. -/
def positional (digits : List Char) (point : Int) : List Char :=
  if point ≤ 0 then '0' :: '.' :: List.replicate (-point).toNat '0' ++ digits
  else
    let whole := digits.take point.toNat
    let places := digits.drop point.toNat
    whole ++ List.replicate (point.toNat - whole.length) '0' ++
      '.' :: (if places.isEmpty then ['0'] else places)

/-- One digit, the others behind a point if there are any, and the power of ten. -/
def scientific (digits : List Char) (point : Int) : List Char :=
  digits.take 1 ++ (if digits.length ≤ 1 then [] else '.' :: digits.drop 1) ++ 'e' :: (point - 1).repr.toList

/-- The magnitude of a finite number: positional from 10^-4 to below 10^16, by a power of ten elsewhere. -/
def magnitudeText (x : Binary64) : List Char :=
  if x.magnitude = 0 then ['0', '.', '0']
  else
    let decimal := x.shortest
    let digits := trimZeros (Nat.toDigits 10 decimal.digits)
    if -4 < decimal.point ∧ decimal.point ≤ 16 then positional digits decimal.point
    else scientific digits decimal.point

def text (x : Binary64) : String :=
  if x.isNaN then "NaN"
  else
    let size := if x.isInfinite then "inf" else String.ofList x.magnitudeText
    if x.isNegative then "-" ++ size else size

end Binary64

end ObsidianSyntax
