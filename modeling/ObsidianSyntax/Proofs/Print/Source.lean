import ObsidianSyntax.Proofs.Print.Literals

/-!
# Trees as they are written

The text of a program, from its tree. A tree is written by what it is and by where it stands: as a
statement, or as an operand that may not be looser than a level. An operand that is looser stands in
parentheses, and so does a `println` that begins a longer statement, which would be read as a
statement of its own. Between two terminals there is one blank.

Not every tree can be written. One that can has expressions where expressions belong, names that are
no reserved words, values that literals have, and no choice with two branches whose first ends in a
choice with one (`Tree.isExpressible`).
-/

namespace ObsidianSyntax

def inParens (ts : List Terminal) : List Terminal := .mark .leftParen :: (ts ++ [.mark .rightParen])

def inBraces (ts : List Terminal) : List Terminal := .mark .leftBrace :: (ts ++ [.mark .rightBrace])

/-! ### Where a tree stands -/

/-- A tree stands as a statement or as an operand of a level at least. A leading operand begins a
statement. -/
inductive Role where
  | statement
  | operand (level : Precedence) (leading : Bool)

namespace Role

/-- An expression of the level in the role, from its text without parentheses, which depends on
whether it leads. -/
def write (role : Role) (level : Precedence) (bare : Bool → List Terminal) : List Terminal :=
  match role with
  | .statement => bare true ++ [.mark .semicolon]
  | .operand outer leading => if level < outer then inParens (bare false) else bare leading

def depth (role : Role) (level : Precedence) (bare : Bool → Nat) : Nat :=
  match role with
  | .statement => bare true + 1
  | .operand outer leading => if level < outer then bare false + 1 else bare leading

/-- The call of a provided function in the role. It stands in parentheses where it would be read as
a statement that prints a line. -/
def writeBuiltin (role : Role) (function : Builtin) (argument : List Terminal) : List Terminal :=
  let call := .keyword function.word :: inParens argument
  match role with
  | .statement => call ++ [.mark .semicolon]
  | .operand _ leading => if leading = true ∧ function = .println then inParens call else call

/-- How deep the call nests in the role. The statement that prints a line is no expression. -/
def depthBuiltin (role : Role) (function : Builtin) (argument : Nat) : Nat :=
  match role with
  | .statement => if function = .println then argument + 1 else argument + 2
  | .operand _ leading => if leading = true ∧ function = .println then argument + 2 else argument + 1

end Role

/-! ### Trees -/

namespace BinaryOp

/-- The level of what stands before the operator. Powers group to the right. -/
def leftLevel (op : BinaryOp) : Precedence := if op = .power then .prefixOp else op.mark.precedence

/-- The level of what stands behind the operator. -/
def rightLevel (op : BinaryOp) : Precedence := if op = .power then .exponent else op.mark.precedence.tighter

end BinaryOp

def TypeName.terminal (type : TypeName) : Terminal :=
  ⟨(Kind.ofReserved? type.text).getD .identifier, type.text⟩

/-- The parameters with commas between them. -/
def paramsSource : List Param → List Terminal
  | [] => []
  | [param] => [param.type.terminal, .name param.name]
  | param :: rest => param.type.terminal :: .name param.name :: .mark .comma :: paramsSource rest

/-- What a function returns, not written if it is nothing. -/
def returnsSource (type : TypeName) : List Terminal :=
  if type = .void then [] else [.mark .arrow, type.terminal]

namespace Tree

mutual

/-- The terminals of a tree in a role. -/
def source : Tree → Role → List Terminal
  | .literal value, role => role.write .postfixOp fun _ => [value.terminal]
  | .identifier name, role => role.write .postfixOp fun _ => [.name name]
  | .binary op left right, role => role.write op.mark.precedence fun leading =>
    left.source (.operand op.leftLevel leading) ++ .mark op.mark :: right.source
      (.operand op.rightLevel false)
  | .unary op operand, role =>
    if op.isBehind then role.write .postfixOp fun leading =>
      operand.source (.operand .postfixOp leading) ++ [.mark op.mark]
    else role.write .prefixOp fun _ => .mark op.mark :: operand.source (.operand .prefixOp false)
  | .assign op target value, role => role.write .assignment fun _ =>
    .name target :: .mark op.mark :: value.source (.operand .assignment false)
  | .ternary condition consequent alternative, role => role.write .ternary fun leading =>
    condition.source (.operand .logicalOr leading) ++ .mark .question ::
      (consequent.source (.operand .comma false) ++
      .mark .colon :: alternative.source (.operand .ternary false))
  | .builtin function argument, role => role.writeBuiltin function (argument.source (.operand .comma false))
  | .sizeOf type, role => role.write .postfixOp fun _ => .keyword .sizeofWord :: inParens [type.terminal]
  | .unsafeBlock body, role =>
    role.write .postfixOp fun _ => .keyword .unsafeWord :: inBraces (sourceAll body)
  | .cast type operand, role => role.write .postfixOp fun _ =>
    .keyword .castWord :: .mark .less :: type.terminal :: .mark .greater :: inParens
      (operand.source (.operand .comma false))
  | .call callee arguments, role =>
    role.write .postfixOp fun _ => .name callee :: inParens (sourceArguments arguments)
  | .block statements, _ => inBraces (sourceAll statements)
  | .functionDef name returnType params body, _ =>
    .keyword .fnWord :: .name name :: .mark .leftParen :: (paramsSource params ++ .mark .rightParen ::
      (returnsSource returnType ++ inBraces (sourceAll body)))
  | .returnStmt value, _ => .keyword .returnWord :: (sourceClause value ++ [.mark .semicolon])
  | .varDecl type name none, _ => [type.terminal, .name name, .mark .semicolon]
  | .varDecl type name (some value), _ =>
    type.terminal :: .name name :: .mark .equal :: (value.source (.operand .assignment false) ++
      [.mark .semicolon])
  | .ifElse condition consequent none, _ =>
    .keyword .ifWord :: .mark .leftParen :: (condition.source (.operand .comma false) ++ .mark .rightParen ::
      consequent.source .statement)
  | .ifElse condition consequent (some alternative), _ =>
    .keyword .ifWord :: .mark .leftParen :: (condition.source (.operand .comma false) ++ .mark .rightParen ::
      (consequent.source .statement ++ .keyword .elseWord :: alternative.source .statement))
  | .whileLoop condition body, _ =>
    .keyword .whileWord :: .mark .leftParen :: (condition.source (.operand .comma false) ++
      .mark .rightParen ::
      body.source .statement)
  | .forLoop start condition step body, _ =>
    .keyword .forWord :: .mark .leftParen ::
      (sourceClause start ++ .mark .semicolon :: (sourceClause condition ++
      .mark .semicolon :: (sourceClause step ++ .mark .rightParen :: body.source .statement)))

def sourceAll : List Tree → List Terminal
  | [] => []
  | tree :: rest => tree.source .statement ++ sourceAll rest

def sourceArguments : List Tree → List Terminal
  | [] => []
  | [tree] => tree.source (.operand .assignment false)
  | tree :: rest => tree.source (.operand .assignment false) ++ .mark .comma :: sourceArguments rest

def sourceClause : Option Tree → List Terminal
  | none => []
  | some tree => tree.source (.operand .comma false)

end

mutual

/-- How deep a tree nests in a role as it is written. -/
def depth : Tree → Role → Nat
  | .literal _, role | .identifier _, role | .sizeOf _, role => role.depth .postfixOp fun _ => 1
  | .binary op left right, role => role.depth op.mark.precedence fun leading =>
    max (left.depth (.operand op.leftLevel leading)) (right.depth (.operand op.rightLevel false) + 1)
  | .unary op operand, role =>
    if op.isBehind then role.depth .postfixOp fun leading => operand.depth (.operand .postfixOp leading)
    else role.depth .prefixOp fun _ => operand.depth (.operand .prefixOp false) + 1
  | .assign _ _ value, role => role.depth .assignment fun _ => value.depth (.operand .assignment false) + 1
  | .ternary condition consequent alternative, role => role.depth .ternary fun leading =>
    max (condition.depth (.operand .logicalOr leading))
      (max (consequent.depth (.operand .comma false)) (alternative.depth (.operand .ternary false)) + 1)
  | .builtin function argument, role => role.depthBuiltin function (argument.depth (.operand .comma false))
  | .unsafeBlock body, role => role.depth .postfixOp fun _ => depthAll body + 1
  | .cast _ operand, role => role.depth .postfixOp fun _ => operand.depth (.operand .comma false) + 1
  | .call _ arguments, role => role.depth .postfixOp fun _ => depthArguments arguments + 1
  | .block body, _ | .functionDef _ _ _ body, _ => depthAll body + 1
  | .returnStmt value, _ => depthClause value + 1
  | .varDecl _ _ none, _ => 1
  | .varDecl _ _ (some value), _ => value.depth (.operand .assignment false) + 1
  | .ifElse condition consequent none, _ =>
    max (condition.depth (.operand .comma false)) (consequent.depth .statement) + 1
  | .ifElse condition consequent (some alternative), _ =>
    max (condition.depth (.operand .comma false))
      (max (consequent.depth .statement) (alternative.depth .statement)) + 1
  | .whileLoop condition body, _ => max (condition.depth (.operand .comma false)) (body.depth .statement) + 1
  | .forLoop start condition step body, _ =>
    max (max (depthClause start) (depthClause condition)) (max (depthClause step) (body.depth .statement)) + 1

def depthAll : List Tree → Nat
  | [] => 0
  | tree :: rest => max (tree.depth .statement) (depthAll rest)

def depthArguments : List Tree → Nat
  | [] => 0
  | tree :: rest => max (tree.depth (.operand .assignment false)) (depthArguments rest)

def depthClause : Option Tree → Nat
  | none => 0
  | some tree => tree.depth (.operand .comma false)

end

/-! ### Trees that can be written -/

/-- Whether the tree ends, as a statement, in a choice without a second branch. -/
def endsOpen : Tree → Bool
  | .ifElse _ _ none => true
  | .ifElse _ _ (some alternative) => alternative.endsOpen
  | .whileLoop _ body => body.endsOpen
  | .forLoop _ _ _ body => body.endsOpen
  | _ => false

end Tree

def isWord : List Char → Bool
  | [] => false
  | first :: rest => Lexeme.startsWord first && rest.all Lexeme.continuesWord

theorem isWord_spec {text : List Char} (hword : isWord text = true) : IsWord text := by
  cases text with
  | nil => cases hword
  | cons first rest =>
    simp only [isWord, Lexeme.startsWord, Lexeme.continuesWord, Bool.and_eq_true, Bool.or_eq_true, beq_iff_eq,
      List.all_eq_true] at hword
    exact ⟨first, rest, rfl, hword.1, hword.2⟩

/-- A name is a word that is not reserved. -/
def isName (text : String) : Bool := isWord text.toList && (Kind.ofReserved? text).isNone

def TypeName.isExpressible (type : TypeName) : Bool := type.isPrimitive || isName type.text

def Param.isExpressible (param : Param) : Bool := param.type.isExpressible && isName param.name

namespace Tree

mutual

/-- Whether the tree can be written. -/
def isExpressible : Tree → Bool
  | .literal value => value.isExpressible
  | .identifier name => isName name
  | .binary _ left right =>
    left.isExpression && left.isExpressible && (right.isExpression && right.isExpressible)
  | .unary _ operand => operand.isExpression && operand.isExpressible
  | .assign _ target value => isName target && (value.isExpression && value.isExpressible)
  | .ternary condition consequent alternative =>
    condition.isExpression && condition.isExpressible &&
      (consequent.isExpression && consequent.isExpressible) &&
      (alternative.isExpression && alternative.isExpressible)
  | .builtin _ argument => argument.isExpression && argument.isExpressible
  | .sizeOf type => type.isExpressible
  | .unsafeBlock body | .block body => allExpressible body
  | .cast type operand => type.isExpressible && (operand.isExpression && operand.isExpressible)
  | .call callee arguments => isName callee && argumentsExpressible arguments
  | .functionDef name returnType params body =>
    isName name && returnType.isExpressible && params.all Param.isExpressible && allExpressible body
  | .returnStmt value => clauseExpressible value
  | .varDecl type name value => type.isExpressible && isName name && clauseExpressible value
  | .ifElse condition consequent none =>
    condition.isExpression && condition.isExpressible && consequent.isExpressible
  | .ifElse condition consequent (some alternative) =>
    condition.isExpression && condition.isExpressible && consequent.isExpressible && !consequent.endsOpen &&
      alternative.isExpressible
  | .whileLoop condition body => condition.isExpression && condition.isExpressible && body.isExpressible
  | .forLoop start condition step body =>
    clauseExpressible start && clauseExpressible condition && clauseExpressible step && body.isExpressible

def allExpressible : List Tree → Bool
  | [] => true
  | tree :: rest => tree.isExpressible && allExpressible rest

def argumentsExpressible : List Tree → Bool
  | [] => true
  | tree :: rest => tree.isExpression && tree.isExpressible && argumentsExpressible rest

def clauseExpressible : Option Tree → Bool
  | none => true
  | some tree => tree.isExpression && tree.isExpressible

end

/-- Whether the tree is a program that can be written: a block of statements. -/
def isProgram : Tree → Bool
  | .block statements => allExpressible statements
  | _ => false

/-- The terminals of a program. Its statements stand outside of all braces. -/
def programSource : Tree → List Terminal
  | .block statements => sourceAll statements
  | tree => tree.source .statement

def programDepth : Tree → Nat
  | .block statements => depthAll statements
  | tree => tree.depth .statement

end Tree

/-! ### Texts -/

/-- How a terminal is written. -/
def Terminal.spelling (terminal : Terminal) : String :=
  match terminal.kind with
  | .mark mark => mark.spelling
  | .keyword word => word.spelling
  | _ => terminal.text

/-- The text of terminals, with a blank between them. -/
def spaced (ts : List Terminal) : String := " ".intercalate (ts.map Terminal.spelling)

def Tree.render (tree : Tree) : String := spaced tree.programSource

end ObsidianSyntax
