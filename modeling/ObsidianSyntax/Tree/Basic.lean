import ObsidianSyntax.Decimal.Binary64
import ObsidianSyntax.Operator

/-!
# Trees of programs

One type of tree holds expressions and statements alike; a call counts as both. The bodies of
functions and of unsafe blocks are lists of statements, and in the tree they stand below their owner
as a block (`Tree.children`).
-/

namespace ObsidianSyntax

/-- The name of a type: never empty, the name of a primitive type or any other. -/
structure TypeName where
  text : String
  text_ne_empty : text ≠ ""
deriving DecidableEq

namespace TypeName

/-- The type of that name. There is none without a name. -/
def ofString? (text : String) : Option TypeName := if h : text = "" then none else some ⟨text, h⟩

/-- The type of what returns nothing. -/
def void : TypeName := ⟨"void", by decide⟩

def isPrimitive (type : TypeName) : Bool := Primitive.all.any fun primitive => primitive.spelling == type.text

end TypeName

/-- A value written out in a program. -/
inductive Literal where
  | int (value : Int)
  | float (value : Binary64)
  | bool (value : Bool)
  | char (value : Char)
  | string (value : String)
deriving DecidableEq

namespace Literal

def type : Literal → Primitive
  | .int _ => .i64
  | .float _ => .f64
  | .bool _ => .bool
  | .char _ => .char
  | .string _ => .string

def kindName : Literal → String
  | .int _ => "IntLiteral"
  | .float _ => "FloatLiteral"
  | .bool _ => "BoolLiteral"
  | .char _ => "CharLiteral"
  | .string _ => "StringLiteral"

/-- Whether two literals are the same value. Floating-point numbers are the same as numbers, not as words. -/
def same : Literal → Literal → Bool
  | .float x, .float y => x.sameNumber y
  | a, b => a == b

end Literal

/-- The functions of one argument that the language itself provides. -/
inductive Builtin where
  | println | length | typeOf | alloc | dealloc
deriving DecidableEq, Repr

namespace Builtin

def all : List Builtin := [.println, .length, .typeOf, .alloc, .dealloc]

def word : Builtin → Keyword
  | .println => .printlnWord
  | .length => .lengthWord
  | .typeOf => .typeofWord
  | .alloc => .allocWord
  | .dealloc => .deallocWord

def ofWord? (word : Keyword) : Option Builtin := all.find? fun function => function.word == word

def name : Builtin → String
  | .println => "Println"
  | .length => "Length"
  | .typeOf => "TypeOf"
  | .alloc => "Alloc"
  | .dealloc => "Dealloc"

end Builtin

structure Param where
  type : TypeName
  name : String
deriving DecidableEq

/-- Expressions and statements. -/
inductive Tree where
  | literal (value : Literal)
  | identifier (name : String)
  | binary (op : BinaryOp) (left right : Tree)
  | unary (op : UnaryOp) (operand : Tree)
  | assign (op : AssignOp) (target : String) (value : Tree)
  | ternary (condition consequent alternative : Tree)
  | builtin (function : Builtin) (argument : Tree)
  | sizeOf (type : TypeName)
  | unsafeBlock (body : List Tree)
  | cast (type : TypeName) (operand : Tree)
  | call (callee : String) (arguments : List Tree)
  | block (statements : List Tree)
  | functionDef (name : String) (returnType : TypeName) (params : List Param) (body : List Tree)
  | returnStmt (value : Option Tree)
  | varDecl (type : TypeName) (name : String) (value : Option Tree)
  | ifElse (condition consequent : Tree) (alternative : Option Tree)
  | whileLoop (condition body : Tree)
  | forLoop (start condition step : Option Tree) (body : Tree)

namespace Tree

/-- The direct parts of a tree in program order. -/
def children : Tree → List Tree
  | .literal _ | .identifier _ | .sizeOf _ => []
  | .binary _ left right => [left, right]
  | .unary _ operand => [operand]
  | .assign _ _ value => [value]
  | .ternary condition consequent alternative => [condition, consequent, alternative]
  | .builtin _ argument => [argument]
  | .unsafeBlock body | .functionDef _ _ _ body => [.block body]
  | .cast _ operand => [operand]
  | .call _ arguments => arguments
  | .block statements => statements
  | .returnStmt value | .varDecl _ _ value => value.toList
  | .ifElse condition consequent alternative => condition :: consequent :: alternative.toList
  | .whileLoop condition body => [condition, body]
  | .forLoop start condition step body => start.toList ++ condition.toList ++ step.toList ++ [body]

/-- Whether the tree may stand as a statement of its own kind, calls included. -/
def isStatement : Tree → Bool
  | .call .. | .block _ | .functionDef .. | .returnStmt _ | .varDecl .. | .ifElse .. | .whileLoop ..
  | .forLoop .. => true
  | _ => false

/-- Whether the tree is an expression. A call is both. -/
def isExpression : Tree → Bool
  | .call .. => true
  | tree => !tree.isStatement

def kindName : Tree → String
  | .literal value => value.kindName
  | .identifier _ => "Identifier"
  | .binary .. => "BinaryOp"
  | .unary op _ => if op.isBehind then "PostfixOp" else "UnaryOp"
  | .assign .. => "Assign"
  | .ternary .. => "Ternary"
  | .builtin function _ => function.name
  | .sizeOf _ => "SizeOf"
  | .unsafeBlock _ => "Unsafe"
  | .cast .. => "Cast"
  | .call .. => "FunctionCall"
  | .block _ => "Block"
  | .functionDef .. => "FunctionDef"
  | .returnStmt _ => "Return"
  | .varDecl .. => "VarDecl"
  | .ifElse .. => "If"
  | .whileLoop .. => "While"
  | .forLoop .. => "For"

/-- The type that a tree states: literals, casts, declarations and functions do. -/
def typeTag : Tree → Option String
  | .literal value => some value.type.spelling
  | .cast type _ | .varDecl type _ _ | .functionDef _ type _ _ => some type.text
  | _ => none

mutual

/-- The number of nodes of a tree, itself included. -/
def nodeCount : Tree → Nat
  | .literal _ | .identifier _ | .sizeOf _ => 1
  | .binary _ left right => 1 + left.nodeCount + right.nodeCount
  | .unary _ operand => 1 + operand.nodeCount
  | .assign _ _ value => 1 + value.nodeCount
  | .ternary condition consequent alternative =>
    1 + condition.nodeCount + consequent.nodeCount + alternative.nodeCount
  | .builtin _ argument => 1 + argument.nodeCount
  | .unsafeBlock body | .functionDef _ _ _ body => 2 + countAll body
  | .cast _ operand => 1 + operand.nodeCount
  | .call _ arguments => 1 + countAll arguments
  | .block statements => 1 + countAll statements
  | .returnStmt value | .varDecl _ _ value => 1 + countOption value
  | .ifElse condition consequent alternative =>
    1 + condition.nodeCount + consequent.nodeCount + countOption alternative
  | .whileLoop condition body => 1 + condition.nodeCount + body.nodeCount
  | .forLoop start condition step body =>
    1 + countOption start + countOption condition + countOption step + body.nodeCount

def countAll : List Tree → Nat
  | [] => 0
  | tree :: rest => tree.nodeCount + countAll rest

def countOption : Option Tree → Nat
  | none => 0
  | some tree => tree.nodeCount

end

mutual

/-- Whether two trees are the same, their floating-point numbers compared as numbers. -/
def same : Tree → Tree → Bool
  | .literal a, .literal b => a.same b
  | .identifier a, .identifier b => a == b
  | .binary op left right, .binary op' left' right' => op == op' && left.same left' && right.same right'
  | .unary op operand, .unary op' operand' => op == op' && operand.same operand'
  | .assign op target value, .assign op' target' value' => op == op' && target == target' && value.same value'
  | .ternary condition consequent alternative, .ternary condition' consequent' alternative' =>
    condition.same condition' && consequent.same consequent' && alternative.same alternative'
  | .builtin function argument, .builtin function' argument' =>
    function == function' && argument.same argument'
  | .sizeOf type, .sizeOf type' => type == type'
  | .unsafeBlock body, .unsafeBlock body' => sameAll body body'
  | .cast type operand, .cast type' operand' => type == type' && operand.same operand'
  | .call callee arguments, .call callee' arguments' => callee == callee' && sameAll arguments arguments'
  | .block statements, .block statements' => sameAll statements statements'
  | .functionDef name returnType params body, .functionDef name' returnType' params' body' =>
    name == name' && returnType == returnType' && params == params' && sameAll body body'
  | .returnStmt value, .returnStmt value' => sameOption value value'
  | .varDecl type name value, .varDecl type' name' value' =>
    type == type' && name == name' && sameOption value value'
  | .ifElse condition consequent alternative, .ifElse condition' consequent' alternative' =>
    condition.same condition' && consequent.same consequent' && sameOption alternative alternative'
  | .whileLoop condition body, .whileLoop condition' body' => condition.same condition' && body.same body'
  | .forLoop start condition step body, .forLoop start' condition' step' body' =>
    sameOption start start' && sameOption condition condition' && sameOption step step' && body.same body'
  | _, _ => false

def sameAll : List Tree → List Tree → Bool
  | [], [] => true
  | tree :: rest, tree' :: rest' => tree.same tree' && sameAll rest rest'
  | _, _ => false

def sameOption : Option Tree → Option Tree → Bool
  | none, none => true
  | some tree, some tree' => tree.same tree'
  | _, _ => false

end

end Tree

end ObsidianSyntax
