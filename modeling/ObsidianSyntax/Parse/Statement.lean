import ObsidianSyntax.Parse.Expression

/-!
# Parsing statements

The first token decides which statement is read. Two names in a row start a declaration, which is
the only place where a second token is looked at. Everything that no word introduces is an
expression with a semicolon behind it.
-/

namespace ObsidianSyntax

namespace Parse

def param : Parse Param := do
  let type ← typeName
  return ⟨type, ← expectName .paramName⟩

/-- The definition of a function. One that states no type returns nothing. -/
def functionDef (inner : Nested) : Parse Tree := do
  let _ ← advance
  let name ← expectName .functionName
  expect .openParams
  let params ← listItems param
  expect .closeParams
  let returnType ← ifNext (.mark .arrow) typeName
  return .functionDef name (returnType.getD .void) params (← blockBody inner)

/-- The declaration of a variable. Its value binds tighter than a comma. -/
def varDecl (inner : Nested) : Parse Tree := do
  let type ← typeName
  let name ← expectName .variableName
  let value ← ifNext (.mark .equal) (inner.expr .comma)
  expect .endDeclaration
  return .varDecl type name value

/-- A condition in parentheses behind the word that introduces it. -/
def condition (inner : Nested) (word : Keyword) : Parse Tree := do
  let _ ← advance
  expect (.openAfter word)
  let condition ← inner.expr .lowest
  expect (.closeCondition word)
  return condition

/-- A choice. What follows the word for the other branch belongs to the nearest choice before it. -/
def ifElse (inner : Nested) : Parse Tree := do
  let condition ← condition inner .ifWord
  let consequent ← inner.stmt
  return .ifElse condition consequent (← ifNext (.keyword .elseWord) inner.stmt)

def whileLoop (inner : Nested) : Parse Tree := do
  let condition ← condition inner .whileWord
  return .whileLoop condition (← inner.stmt)

/-- A loop with three clauses, each of which may be missing. -/
def forLoop (inner : Nested) : Parse Tree := do
  let _ ← advance
  expect (.openAfter .forWord)
  let start ← unlessAt (.mark .semicolon) (inner.expr .lowest)
  expect .endForStart
  let condition ← unlessAt (.mark .semicolon) (inner.expr .lowest)
  expect .endForCondition
  let step ← unlessAt (.mark .rightParen) (inner.expr .lowest)
  expect .closeForClauses
  return .forLoop start condition step (← inner.stmt)

def returnStmt (inner : Nested) : Parse Tree := do
  let _ ← advance
  let value ← unlessAt (.mark .semicolon) (inner.expr .lowest)
  expect .endReturn
  return .returnStmt value

/-- An output that is a statement of its own. -/
def printlnStmt (inner : Nested) : Parse Tree := do
  let tree ← builtin inner .println
  expect .endPrintln
  return tree

/-- An expression that is a statement of its own. -/
def expressionStmt (inner : Nested) : Parse Tree := do
  let tree ← inner.expr .lowest
  expect .endStatement
  return tree

/-- The statement that starts at the cursor. -/
def statement (inner : Nested) : Parse Tree := do
  let cursor ← get
  match cursor.current.kind with
  | .mark .leftBrace => return .block (← blockBody inner)
  | .keyword .fnWord => functionDef inner
  | .keyword .ifWord => ifElse inner
  | .keyword .whileWord => whileLoop inner
  | .keyword .forWord => forLoop inner
  | .keyword .returnWord => returnStmt inner
  | .keyword .printlnWord => printlnStmt inner
  | .primitive _ => varDecl inner
  | .identifier => if (cursor.peek 1).kind = .identifier then varDecl inner else expressionStmt inner
  | _ => expressionStmt inner

end Parse

end ObsidianSyntax
