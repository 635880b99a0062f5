import ObsidianSyntax.Decimal.Integer
import ObsidianSyntax.Parse.Cursor
import ObsidianSyntax.Precedence
import ObsidianSyntax.Text.Escape
import ObsidianSyntax.Tree.Basic

/-!
# Parsing expressions

An expression is an operand and then, as long as the token behind it binds tighter than the
expression's own precedence, a continuation of what has been read so far: an operator with its right
side, a call, or an operator behind its operand. What is nested inside is read by parsers that are
given (`Nested`), so that every function here is a plain one; the parsers themselves are put
together where the depth of nesting is bounded.
-/

namespace ObsidianSyntax

/-- The parsers for what is nested one level deeper. -/
structure Nested where
  /-- An expression whose operators all bind tighter than the precedence. -/
  expr : Precedence → Parse Tree
  stmt : Parse Tree

namespace Token

/-- The value that a token stands for, or what is wrong with it. -/
def literal (token : Token) : Except Cause Literal :=
  match token.kind with
  | .intLiteral =>
    match integerValue? token.lexeme.toList with
    | some value => .ok (.int value)
    | none => .error .integerTooLarge
  | .floatLiteral =>
    match Binary64.ofLiteral? token.lexeme.toList with
    | some value => .ok (.float value)
    | none => .error .malformedFloat
  | .charLiteral =>
    match unescape (quotedBody '\'' token.lexeme.toList) with
    | [c] => .ok (.char c)
    | _ => .error .malformedChar
  | .stringLiteral => .ok (.string (String.ofList (unescape (quotedBody '"' token.lexeme.toList))))
  | .keyword .trueWord => .ok (.bool true)
  | .keyword .falseWord => .ok (.bool false)
  | _ => .error .noExpression

end Token

/-- The precedence at which the right side of a binary operator is read. Powers group to the right,
all others to the left. -/
def BinaryOp.rightPrecedence (op : BinaryOp) : Precedence :=
  if op = .power then op.mark.precedence.lower else op.mark.precedence

namespace Parse

/-- The name of a type. -/
def typeName : Parse TypeName := do
  let token ← current
  if token.kind.isType || token.kind == .identifier then
    let _ ← advance
    match TypeName.ofString? token.lexeme with
    | some type => return type
    | none => fail .noType token
  else fail .noType token

def blockBody (inner : Nested) : Parse (List Tree) := do
  expect .openBlock
  let statements ← many (fun token => !(token.kind == .mark .rightBrace || token.isEnd)) inner.stmt
  expect .closeBlock
  return statements

/-! ### Operands -/

def atom : Parse Tree := do
  let token ← advance
  if token.kind = .identifier then return .identifier token.lexeme
  else
    match token.literal with
    | .ok value => return .literal value
    | .error cause => fail cause token

/-- An operator and the operand behind it. -/
def prefixed (inner : Nested) (op : UnaryOp) : Parse Tree := do
  let _ ← advance
  return .unary op (← inner.expr .prefixOp)

def group (inner : Nested) : Parse Tree := do
  let _ ← advance
  refuse (.mark .rightParen) .emptyGroup
  let tree ← inner.expr .lowest
  expect .closeGroup
  return tree

/-- A provided function and its argument in parentheses. -/
def builtin (inner : Nested) (function : Builtin) : Parse Tree := do
  let _ ← advance
  expect (.openAfter function.word)
  let argument ← inner.expr .lowest
  expect (.closeBuiltin function.word)
  return .builtin function argument

def sizeOf : Parse Tree := do
  let _ ← advance
  expect (.openAfter .sizeofWord)
  let type ← typeName
  expect .closeType
  return .sizeOf type

def unsafeBlock (inner : Nested) : Parse Tree := do
  let _ ← advance
  return .unsafeBlock (← blockBody inner)

/-- A type in angle brackets and what is cast to it in parentheses. -/
def cast (inner : Nested) : Parse Tree := do
  let _ ← advance
  expect .openCastType
  let type ← typeName
  expect .closeCastType
  expect .openCastOperand
  let operand ← inner.expr .lowest
  expect .closeCastOperand
  return .cast type operand

/-- The operand that starts at the cursor. -/
def operand (inner : Nested) : Parse Tree := do
  let token ← current
  match token.kind with
  | .intLiteral | .floatLiteral | .stringLiteral | .charLiteral | .identifier
  | .keyword .trueWord | .keyword .falseWord => atom
  | .mark .leftParen => group inner
  | .keyword .sizeofWord => sizeOf
  | .keyword .unsafeWord => unsafeBlock inner
  | .keyword .castWord => cast inner
  | .mark mark =>
    match UnaryOp.before? mark with
    | some op => prefixed inner op
    | none => fail .noExpression token
  | .keyword word =>
    match Builtin.ofWord? word with
    | some function => builtin inner function
    | none => fail .noExpression token
  | _ => fail .noExpression token

/-! ### Continuations -/

/-- An assignment to what has been read, which must be a name. -/
def assignment (inner : Nested) (op : AssignOp) (target : Tree) : Parse Tree := do
  let token ← advance
  match target with
  | .identifier name => return .assign op name (← inner.expr Precedence.assignment.lower)
  | _ => fail .notAssignable token

/-- The two branches of a choice on what has been read. -/
def ternary (inner : Nested) (condition : Tree) : Parse Tree := do
  let _ ← advance
  let consequent ← inner.expr .lowest
  expect .ternaryColon
  return .ternary condition consequent (← inner.expr Precedence.ternary.lower)

/-- The arguments of a call and the parenthesis behind them. An argument binds tighter than a comma. -/
def arguments (inner : Nested) : Parse (List Tree) := do
  let arguments ← listItems (inner.expr .comma)
  expect .closeArguments
  return arguments

/-- A call of what has been read, which must be a name. -/
def call (inner : Nested) (callee : Tree) : Parse Tree := do
  let token ← advance
  match callee with
  | .identifier name => return .call name (← arguments inner)
  | _ => fail .notCallable token

/-- An operator behind what has been read. -/
def postfixed (op : UnaryOp) (operand : Tree) : Parse Tree := do
  let _ ← advance
  return .unary op operand

/-- A binary operator behind what has been read, and its right side. -/
def binary (inner : Nested) (op : BinaryOp) (left : Tree) : Parse Tree := do
  let _ ← advance
  return .binary op left (← rightSideOf op (inner.expr op.rightPrecedence))

/-- What the mark at the cursor makes of what has been read. -/
def continuation (inner : Nested) (left : Tree) : Parse Tree := do
  let token ← current
  match token.kind with
  | .mark .question => ternary inner left
  | .mark .leftParen => call inner left
  | .mark mark =>
    match AssignOp.ofMark? mark, UnaryOp.behind? mark, BinaryOp.ofMark? mark with
    | some op, _, _ => assignment inner op left
    | none, some op, _ => postfixed op left
    | none, none, some op => binary inner op left
    | none, none, none => fail .notAnOperator token
  | _ => fail .notAnOperator token

/-- Goes on with what has been read as long as the next token binds tighter than `precedence`. -/
def climb (inner : Nested) (precedence : Precedence) (left : Tree) : Parse Tree :=
  repeatWhile (fun token => precedence < token.kind.precedence) (continuation inner) left

/-- An expression whose operators all bind tighter than `precedence`. -/
def expression (inner : Nested) (precedence : Precedence) : Parse Tree := do
  climb inner precedence (← operand inner)

end Parse

end ObsidianSyntax
