/-!
# Powers of two and ten

The two bases that floating-point numbers and decimals are scaled by.
-/

namespace ObsidianSyntax

/-- Two to a power. -/
def twoTo (exponent : Nat) : Nat := Nat.pow 2 exponent

/-- Ten to a power. -/
def tenTo (exponent : Nat) : Nat := Nat.pow 10 exponent

@[simp] theorem twoTo_zero : twoTo 0 = 1 := rfl

theorem twoTo_succ (exponent : Nat) : twoTo (exponent + 1) = 2 * twoTo exponent :=
  Nat.mul_comm (Nat.pow 2 exponent) 2

@[simp] theorem tenTo_zero : tenTo 0 = 1 := rfl

theorem tenTo_succ (exponent : Nat) : tenTo (exponent + 1) = 10 * tenTo exponent :=
  Nat.mul_comm (Nat.pow 10 exponent) 10

theorem twoTo_pos (exponent : Nat) : 0 < twoTo exponent := by
  induction exponent with
  | zero => decide
  | succ exponent ih =>
    rw [twoTo_succ]
    omega

theorem tenTo_pos (exponent : Nat) : 0 < tenTo exponent := by
  induction exponent with
  | zero => decide
  | succ exponent ih =>
    rw [tenTo_succ]
    omega

end ObsidianSyntax
