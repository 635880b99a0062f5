import ObsidianSyntax.Diagnostic.Basic
import ObsidianSyntax.Operator
import ObsidianSyntax.Token.Basic

/-!
# Why a program cannot be parsed

A fault is a cause and the token that it is found at. Most causes are a token that is missing at a
place where the grammar allows no other; each such place has its own wording. A fault inside the
right side of a binary operator that comes with no hint is given one about that operator, the
innermost such operator first.
-/

namespace ObsidianSyntax

/-- The places at which the grammar allows one kind of token only. -/
inductive Expectation where
  | closeGroup
  | ternaryColon
  | closeArguments
  /-- The parenthesis behind a word that is followed by one. -/
  | openAfter (word : Keyword)
  | closeBuiltin (word : Keyword)
  | closeType
  | openCastType
  | closeCastType
  | openCastOperand
  | closeCastOperand
  | openBlock
  | closeBlock
  | functionName
  | openParams
  | paramName
  | closeParams
  | variableName
  | endDeclaration
  | closeCondition (word : Keyword)
  | endForStart
  | endForCondition
  | closeForClauses
  | endReturn
  | endPrintln
  | endStatement
deriving DecidableEq, Repr

namespace Expectation

/-- The kind of token that is allowed. -/
def kind : Expectation → Kind
  | .closeGroup | .closeArguments | .closeBuiltin _ | .closeType | .closeCastOperand | .closeParams
  | .closeCondition _ | .closeForClauses => .mark .rightParen
  | .openAfter _ | .openCastOperand | .openParams => .mark .leftParen
  | .ternaryColon => .mark .colon
  | .openCastType => .mark .less
  | .closeCastType => .mark .greater
  | .openBlock => .mark .leftBrace
  | .closeBlock => .mark .rightBrace
  | .functionName | .paramName | .variableName => .identifier
  | .endDeclaration | .endForStart | .endForCondition | .endReturn | .endPrintln | .endStatement =>
    .mark .semicolon

/-- How a message asks for the token. -/
def wording : Expectation → String
  | .closeGroup => "Expected ')' after expression"
  | .ternaryColon => "Expected ':' in conditional expression"
  | .closeArguments => "Expected ')' after arguments"
  | .openAfter word => "Expected '(' after '" ++ word.spelling ++ "'"
  | .closeBuiltin word => "Expected ')' after '" ++ word.spelling ++ "' argument"
  | .closeType => "Expected ')' after type"
  | .openCastType => "Expected '<' after 'cast'"
  | .closeCastType => "Expected '>' after cast type"
  | .openCastOperand => "Expected '(' before cast operand"
  | .closeCastOperand => "Expected ')' after cast operand"
  | .openBlock => "Expected '\x7b' before block"
  | .closeBlock => "Expected '\x7d' after block"
  | .functionName => "Expected function name"
  | .openParams => "Expected '(' after function name"
  | .paramName => "Expected parameter name"
  | .closeParams => "Expected ')' after parameters"
  | .variableName => "Expected variable name"
  | .endDeclaration => "Expected ';' after variable declaration"
  | .closeCondition word => "Expected ')' after " ++ word.spelling ++ " condition"
  | .endForStart => "Expected ';' after for initializer"
  | .endForCondition => "Expected ';' after for condition"
  | .closeForClauses => "Expected ')' after for clauses"
  | .endReturn => "Expected ';' after return"
  | .endPrintln => "Expected ';' after println"
  | .endStatement => "Expected ';' after expression"

/-- The hint on what to write, for the places that have one. -/
def help : Expectation → Option String
  | .ternaryColon => some "Conditional expressions have the form 'condition ? a : b'"
  | .closeArguments => some "Function arguments must be closed with ')'"
  | .openCastType => some "Casts are written 'cast<f64>(value)'"
  | .closeBlock => some "Every '\x7b' needs a matching '\x7d'"
  | .variableName => some "Declarations have the form 'i64 x = 10;'"
  | .endStatement => some "Statements must end with ';'"
  | _ => none

end Expectation

inductive Construct where
  | expression
  | statement
deriving DecidableEq, Repr

def Construct.title : Construct → String
  | .expression => "Expression"
  | .statement => "Statement"

/-- What is wrong at a token. -/
inductive Cause where
  | missing (expectation : Expectation)
  | noExpression
  | noType
  | emptyGroup
  | notAssignable
  | notCallable
  | integerTooLarge
  | malformedFloat
  | malformedChar
  | notAnOperator
  | tooDeep (construct : Construct) (limit : Nat)
deriving DecidableEq, Repr

namespace Cause

/-- The message about a token with that cause. -/
def message (cause : Cause) (token : Token) : String :=
  match cause with
  | .missing expectation => expectation.wording ++ ", found " ++ token.describe
  | .noExpression => "Expected expression, found " ++ token.describe
  | .noType => "Expected type name, found " ++ token.describe
  | .emptyGroup => "Empty parentheses are not allowed"
  | .notAssignable => "Invalid assignment target"
  | .notCallable => "Only named functions can be called"
  | .integerTooLarge => "Invalid integer literal '" ++ token.lexeme ++ "'"
  | .malformedFloat => "Invalid float literal '" ++ token.lexeme ++ "'"
  | .malformedChar => "Invalid character literal " ++ token.lexeme
  | .notAnOperator => "Unexpected " ++ token.describe ++ " in expression"
  | .tooDeep construct _ => construct.title ++ " nested too deeply"

/-- The hint that belongs to a cause. -/
def help : Cause → Option String
  | .missing expectation => expectation.help
  | .emptyGroup => some "Parentheses must contain an expression, e.g. '(1 + 2)'"
  | .notAssignable => some "Only variables can be assigned to, e.g. 'x = 10'"
  | .integerTooLarge => some "Integer literals must fit in a signed 64-bit value"
  | .tooDeep _ limit => some ("At most " ++ limit.repr ++ " levels of nesting are supported")
  | _ => none

end Cause

/-- A cause at a token, and the binary operator whose right side was being read, if that is the hint
to give. -/
structure Fault where
  cause : Cause
  token : Token
  operator : Option BinaryOp
deriving DecidableEq, Repr

namespace Fault

/-- The fault as seen from the right side of `op`: a fault without a hint gets the one about the operator. -/
def inRightSide (fault : Fault) (op : BinaryOp) : Fault :=
  if fault.cause.help.isSome || fault.operator.isSome then fault else { fault with operator := some op }

/-- The hint that comes with a fault. -/
def help (fault : Fault) : Option String :=
  fault.cause.help.or (fault.operator.map fun op => "'" ++ op.symbol ++ "' needs an expression on both sides")

def report (fault : Fault) : Diagnostic where
  kind := .syntactic
  span := fault.token.span
  line := fault.token.place.line
  column := fault.token.place.column
  message := fault.cause.message fault.token
  help := fault.help

end Fault

end ObsidianSyntax
