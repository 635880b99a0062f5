import ObsidianSyntax.Token.Kind

/-!
# Operators

The operators of expressions: those between two operands, those before or behind one, and the
assignments. Each has a symbol, shared by some, and a name of its own.
-/

namespace ObsidianSyntax

/-- Operators between two operands. -/
inductive BinaryOp where
  | add | subtract | multiply | divide | modulo | power
  | equal | notEqual | less | lessEqual | greater | greaterEqual
  | shiftLeft | shiftRight | bitAnd | bitOr | bitXor
  | logicalAnd | logicalOr | logicalXor | comma
deriving DecidableEq, Repr

namespace BinaryOp

def all : List BinaryOp :=
  [.add, .subtract, .multiply, .divide, .modulo, .power, .equal, .notEqual, .less, .lessEqual,
    .greater, .greaterEqual,
   .shiftLeft, .shiftRight, .bitAnd, .bitOr, .bitXor, .logicalAnd, .logicalOr, .logicalXor, .comma]

def mark : BinaryOp → Mark
  | .add => .plus
  | .subtract => .minus
  | .multiply => .star
  | .divide => .slash
  | .modulo => .percent
  | .power => .power
  | .equal => .equalEqual
  | .notEqual => .bangEqual
  | .less => .less
  | .lessEqual => .lessEqual
  | .greater => .greater
  | .greaterEqual => .greaterEqual
  | .shiftLeft => .leftShift
  | .shiftRight => .rightShift
  | .bitAnd => .ampersand
  | .bitOr => .pipe
  | .bitXor => .caret
  | .logicalAnd => .ampAmp
  | .logicalOr => .pipePipe
  | .logicalXor => .caretCaret
  | .comma => .comma

def ofMark? (mark : Mark) : Option BinaryOp := all.find? fun op => op.mark == mark

def symbol (op : BinaryOp) : String := op.mark.spelling

def name : BinaryOp → String
  | .add => "Add"
  | .subtract => "Subtract"
  | .multiply => "Multiply"
  | .divide => "Divide"
  | .modulo => "Modulo"
  | .power => "Power"
  | .equal => "Equal"
  | .notEqual => "NotEqual"
  | .less => "Less"
  | .lessEqual => "LessEqual"
  | .greater => "Greater"
  | .greaterEqual => "GreaterEqual"
  | .shiftLeft => "ShiftLeft"
  | .shiftRight => "ShiftRight"
  | .bitAnd => "BitAnd"
  | .bitOr => "BitOr"
  | .bitXor => "BitXor"
  | .logicalAnd => "LogicalAnd"
  | .logicalOr => "LogicalOr"
  | .logicalXor => "LogicalXor"
  | .comma => "Comma"

theorem ofMark?_mark (op : BinaryOp) : ofMark? op.mark = some op := by
  cases op <;> rfl

end BinaryOp

/-- Operators before or behind their operand. -/
inductive UnaryOp where
  | negate | plus | not | bitNot | preIncrement | preDecrement | addressOf | deref
  | postIncrement | postDecrement
deriving DecidableEq, Repr

namespace UnaryOp

def all : List UnaryOp :=
  [.negate, .plus, .not, .bitNot, .preIncrement, .preDecrement, .addressOf, .deref, .postIncrement,
    .postDecrement]

def mark : UnaryOp → Mark
  | .negate => .minus
  | .plus => .plus
  | .not => .bang
  | .bitNot => .tilde
  | .preIncrement | .postIncrement => .increment
  | .preDecrement | .postDecrement => .decrement
  | .addressOf => .ampersand
  | .deref => .star

def isBehind : UnaryOp → Bool
  | .postIncrement | .postDecrement => true
  | _ => false

/-- The operator that is written by the mark before its operand. -/
def before? (mark : Mark) : Option UnaryOp := all.find? fun op => !op.isBehind && op.mark == mark

/-- The operator that is written by the mark behind its operand. -/
def behind? (mark : Mark) : Option UnaryOp := all.find? fun op => op.isBehind && op.mark == mark

def symbol (op : UnaryOp) : String := op.mark.spelling

def name : UnaryOp → String
  | .negate => "Negate"
  | .plus => "Plus"
  | .not => "Not"
  | .bitNot => "BitNot"
  | .preIncrement => "PreIncrement"
  | .preDecrement => "PreDecrement"
  | .addressOf => "AddressOf"
  | .deref => "Deref"
  | .postIncrement => "PostIncrement"
  | .postDecrement => "PostDecrement"

end UnaryOp

inductive AssignOp where
  | assign | addAssign | subtractAssign | multiplyAssign | divideAssign
deriving DecidableEq, Repr

namespace AssignOp

def all : List AssignOp := [.assign, .addAssign, .subtractAssign, .multiplyAssign, .divideAssign]

def mark : AssignOp → Mark
  | .assign => .equal
  | .addAssign => .plusEqual
  | .subtractAssign => .minusEqual
  | .multiplyAssign => .starEqual
  | .divideAssign => .slashEqual

def ofMark? (mark : Mark) : Option AssignOp := all.find? fun op => op.mark == mark

def symbol (op : AssignOp) : String := op.mark.spelling

def name : AssignOp → String
  | .assign => "Assign"
  | .addAssign => "AddAssign"
  | .subtractAssign => "SubtractAssign"
  | .multiplyAssign => "MultiplyAssign"
  | .divideAssign => "DivideAssign"

end AssignOp

end ObsidianSyntax
