import ObsidianSyntax.Token.Kind

/-!
# Precedence of operators

How tightly a token binds the expression before it to what follows, from the loosest to the
tightest. A token that cannot go on with an expression has the lowest precedence, so an expression
ends there. The right side of an operator is read at the operator's own precedence, which groups
equal operators to the left, or one step lower, which groups them to the right.
-/

namespace ObsidianSyntax

/-- The precedences, loosest first. -/
inductive Precedence where
  | lowest
  | comma
  | assignment
  | ternary
  | logicalOr
  | logicalAnd
  | bitwiseOr
  | bitwiseXor
  | bitwiseAnd
  | relational
  | comparison
  | shift
  | additive
  | multiplicative
  | exponent
  | prefixOp
  | postfixOp
deriving DecidableEq, Repr

namespace Precedence

def all : List Precedence :=
  [.lowest, .comma, .assignment, .ternary, .logicalOr, .logicalAnd, .bitwiseOr, .bitwiseXor, .bitwiseAnd,
   .relational, .comparison, .shift, .additive, .multiplicative, .exponent, .prefixOp, .postfixOp]

/-- How many precedences are looser. -/
def rank : Precedence → Nat
  | .lowest => 0
  | .comma => 1
  | .assignment => 2
  | .ternary => 3
  | .logicalOr => 4
  | .logicalAnd => 5
  | .bitwiseOr => 6
  | .bitwiseXor => 7
  | .bitwiseAnd => 8
  | .relational => 9
  | .comparison => 10
  | .shift => 11
  | .additive => 12
  | .multiplicative => 13
  | .exponent => 14
  | .prefixOp => 15
  | .postfixOp => 16

instance : LT Precedence := ⟨fun p q => p.rank < q.rank⟩
instance : LE Precedence := ⟨fun p q => p.rank ≤ q.rank⟩
instance (p q : Precedence) : Decidable (p < q) := inferInstanceAs (Decidable (p.rank < q.rank))
instance (p q : Precedence) : Decidable (p ≤ q) := inferInstanceAs (Decidable (p.rank ≤ q.rank))

theorem lt_def {p q : Precedence} : p < q ↔ p.rank < q.rank := .rfl

theorem le_def {p q : Precedence} : p ≤ q ↔ p.rank ≤ q.rank := .rfl

theorem rank_injective {p q : Precedence} (h : p.rank = q.rank) : p = q := by
  cases p <;> cases q <;> first | rfl | exact absurd h (by decide)

/-- The precedence one step looser. There is none below the lowest. -/
def lower (p : Precedence) : Precedence := all.getD (p.rank - 1) .lowest

/-- The precedence, the one below it and so on to the lowest. -/
def descent (p : Precedence) : List Precedence :=
  (List.range (p.rank + 1)).map fun steps => Nat.repeat lower steps p

/-- The precedences looser than `p`, loosest first. -/
def looser (p : Precedence) : List Precedence := all.filter (· < p)

def name : Precedence → String
  | .lowest => "Default"
  | .comma => "Comma"
  | .assignment => "Assignment"
  | .ternary => "Ternary"
  | .logicalOr => "LogicalOr"
  | .logicalAnd => "LogicalAnd"
  | .bitwiseOr => "BitwiseOr"
  | .bitwiseXor => "BitwiseXor"
  | .bitwiseAnd => "BitwiseAnd"
  | .relational => "Relational"
  | .comparison => "Comparison"
  | .shift => "Shift"
  | .additive => "Additive"
  | .multiplicative => "Multiplicative"
  | .exponent => "Exponent"
  | .prefixOp => "Prefix"
  | .postfixOp => "Postfix"

def ofName? (name : String) : Option Precedence := all.find? fun p => p.name == name

end Precedence

/-- How tightly the mark binds the expression before it. -/
def Mark.precedence : Mark → Precedence
  | .comma => .comma
  | .equal | .plusEqual | .minusEqual | .starEqual | .slashEqual => .assignment
  | .question => .ternary
  | .pipePipe | .caretCaret => .logicalOr
  | .ampAmp => .logicalAnd
  | .pipe => .bitwiseOr
  | .caret => .bitwiseXor
  | .ampersand => .bitwiseAnd
  | .equalEqual | .bangEqual => .relational
  | .less | .greater | .lessEqual | .greaterEqual => .comparison
  | .leftShift | .rightShift => .shift
  | .plus | .minus => .additive
  | .star | .slash | .percent => .multiplicative
  | .power => .exponent
  | .increment | .decrement | .leftParen => .postfixOp
  | .rightParen | .leftBrace | .rightBrace | .leftBracket | .rightBracket | .dot | .colon
      | .semicolon | .tilde
  | .arrow | .bang => .lowest

def Kind.precedence : Kind → Precedence
  | .mark m => m.precedence
  | _ => .lowest

end ObsidianSyntax
