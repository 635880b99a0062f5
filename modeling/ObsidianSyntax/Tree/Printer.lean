import ObsidianSyntax.Decimal.Shortest
import ObsidianSyntax.Text.Blank
import ObsidianSyntax.Text.Quoted
import ObsidianSyntax.Tree.Basic

/-!
# Dumps of trees

A tree is dumped as indented lines, one for each node. Some parts of statements have no lines of
their own and stand in the line of their owner in a form on one line: initial values, returned
values, and the conditions and clauses of control flow. Both forms are built from back to front: a
tree is written before what is already there, so that a chain of any length is written in one pass.
What is already there stays as it is (`Tree.inlineOnto_eq_append`, `Tree.linesOnto_eq_append`).
-/

namespace ObsidianSyntax

def Literal.line (literal : Literal) : String :=
  literal.kindName ++ ": " ++
    match literal with
    | .int value => value.repr
    | .float value => value.text
    | .bool value => if value then "true" else "false"
    | .char value => quoted '\'' [value]
    | .string value => quoted '"' value.toList

def Param.line (param : Param) : String := param.type.text ++ " " ++ param.name

def functionHead (name : String) (returnType : TypeName) (params : List Param) : String :=
  "FunctionDef: " ++ name ++ "(" ++ ", ".intercalate (params.map Param.line) ++ ") -> " ++ returnType.text

/-- A line of a dump: how deep it is indented, and its text. -/
structure DumpLine where
  depth : Nat
  text : String
deriving DecidableEq, Repr

/-- A line as written, two blanks for each step of depth. -/
def DumpLine.render (line : DumpLine) : String :=
  String.ofList (List.replicate (2 * line.depth) ' ') ++ line.text ++ "\n"

namespace Tree

mutual

/-- The pieces of a tree on one line, before the pieces in `after`. -/
def inlineOnto : Tree → List String → List String
  | .literal value, after => value.line :: after
  | .identifier name, after => "Identifier: " :: name :: after
  | .binary op left right, after =>
    "BinaryOp('" :: op.symbol :: "', " :: left.inlineOnto (", " :: right.inlineOnto (")" :: after))
  | .unary op operand, after =>
    (if op.isBehind then "PostfixOp('" else "UnaryOp('") :: op.symbol :: "', " :: operand.inlineOnto
      (")" :: after)
  | .assign op target value, after =>
    "Assign('" :: op.symbol :: "', " :: target :: ", " :: value.inlineOnto (")" :: after)
  | .ternary condition consequent alternative, after =>
    "Ternary(" :: condition.inlineOnto
      (", " :: consequent.inlineOnto (", " :: alternative.inlineOnto (")" :: after)))
  | .builtin function argument, after => function.name :: "(" :: argument.inlineOnto (")" :: after)
  | .sizeOf type, after => "SizeOf(" :: type.text :: ")" :: after
  | .unsafeBlock body, after => "Unsafe(Block[" :: body.length.repr :: "])" :: after
  | .cast type operand, after => "Cast(" :: type.text :: ", " :: operand.inlineOnto (")" :: after)
  | .call callee arguments, after =>
    "FunctionCall: " :: callee :: "(" :: inlineArguments arguments (")" :: after)
  | .block statements, after => "Block[" :: statements.length.repr :: "]" :: after
  | .functionDef name returnType params _, after => functionHead name returnType params :: after
  | .returnStmt none, after => "Return" :: after
  | .returnStmt (some value), after => "Return: " :: value.inlineOnto after
  | .varDecl type name none, after => "VarDecl: " :: type.text :: " " :: name :: after
  | .varDecl type name (some value), after =>
    "VarDecl: " :: type.text :: " " :: name :: " = " :: value.inlineOnto after
  | .ifElse condition _ _, after => "If: " :: condition.inlineOnto after
  | .whileLoop condition _, after => "While: " :: condition.inlineOnto after
  | .forLoop start condition step _, after =>
    trimEnd (String.join
      ("For: " :: inlineOption start
      ("; " :: inlineOption condition ("; " :: inlineOption step [])))) :: after

/-- The pieces of a tree that may be missing, before the pieces in `after`. -/
def inlineOption : Option Tree → List String → List String
  | none, after => after
  | some tree, after => tree.inlineOnto after

/-- The pieces of trees with commas between them, before the pieces in `after`. -/
def inlineArguments : List Tree → List String → List String
  | [], after => after
  | tree :: rest, after => tree.inlineOnto (inlineMore rest after)

/-- The pieces of trees with a comma before each, before the pieces in `after`. -/
def inlineMore : List Tree → List String → List String
  | [], after => after
  | tree :: rest, after => ", " :: tree.inlineOnto (inlineMore rest after)

end

mutual

/-- What is already there is left as it is. -/
theorem inlineOnto_eq_append (tree : Tree) (after : List String) :
    tree.inlineOnto after = tree.inlineOnto [] ++ after := by
  match tree with
  | .literal _ | .identifier _ | .sizeOf _ | .unsafeBlock _ | .block _ | .functionDef .. | .forLoop ..
  | .returnStmt none | .varDecl _ _ none => simp [inlineOnto]
  | .binary _ left right =>
    simp only [inlineOnto]
    rw [left.inlineOnto_eq_append (", " :: right.inlineOnto (")" :: after)),
      left.inlineOnto_eq_append (", " :: right.inlineOnto [")"]), right.inlineOnto_eq_append (")" :: after),
      right.inlineOnto_eq_append [")"]]
    simp
  | .ternary condition consequent alternative =>
    simp only [inlineOnto]
    rw [condition.inlineOnto_eq_append
      (", " :: consequent.inlineOnto (", " :: alternative.inlineOnto (")" :: after))),
      condition.inlineOnto_eq_append (", " :: consequent.inlineOnto (", " :: alternative.inlineOnto [")"])),
      consequent.inlineOnto_eq_append (", " :: alternative.inlineOnto (")" :: after)),
      consequent.inlineOnto_eq_append (", " :: alternative.inlineOnto [")"]),
      alternative.inlineOnto_eq_append (")" :: after), alternative.inlineOnto_eq_append [")"]]
    simp
  | .call _ arguments =>
    simp only [inlineOnto]
    rw [inlineArguments_eq_append arguments (")" :: after), inlineArguments_eq_append arguments [")"]]
    simp
  | .unary _ part | .assign _ _ part | .builtin _ part | .cast _ part =>
    simp only [inlineOnto]
    rw [part.inlineOnto_eq_append (")" :: after), part.inlineOnto_eq_append [")"]]
    simp
  | .returnStmt (some part) | .varDecl _ _ (some part) | .ifElse part _ _ | .whileLoop part _ =>
    simp only [inlineOnto]
    rw [part.inlineOnto_eq_append after]
    simp

theorem inlineArguments_eq_append (trees : List Tree) (after : List String) :
    inlineArguments trees after = inlineArguments trees [] ++ after := by
  match trees with
  | [] => simp [inlineArguments]
  | tree :: rest =>
    simp only [inlineArguments]
    rw [tree.inlineOnto_eq_append (inlineMore rest after), tree.inlineOnto_eq_append (inlineMore rest []),
      inlineMore_eq_append rest after]
    simp

theorem inlineMore_eq_append (trees : List Tree) (after : List String) :
    inlineMore trees after = inlineMore trees [] ++ after := by
  match trees with
  | [] => simp [inlineMore]
  | tree :: rest =>
    simp only [inlineMore]
    rw [tree.inlineOnto_eq_append (inlineMore rest after), tree.inlineOnto_eq_append (inlineMore rest []),
      inlineMore_eq_append rest after]
    simp

end

/-- A tree on one line. -/
def inline (tree : Tree) : String := String.join (tree.inlineOnto [])

mutual

/-- The lines of a tree at `depth`, before the lines in `after`. -/
def linesOnto : Tree → Nat → List DumpLine → List DumpLine
  | .binary op left right, depth, after =>
    ⟨depth, "BinaryOp: '" ++ op.symbol ++ "'"⟩ :: left.linesOnto (depth + 1)
      (right.linesOnto (depth + 1) after)
  | .unary op operand, depth, after =>
    ⟨depth, (if op.isBehind then "PostfixOp: '" else "UnaryOp: '") ++ op.symbol ++ "'"⟩
      :: operand.linesOnto (depth + 1) after
  | .assign op target value, depth, after =>
    ⟨depth, "Assign: " ++ target ++ " '" ++ op.symbol ++ "'"⟩ :: value.linesOnto (depth + 1) after
  | .ternary condition consequent alternative, depth, after =>
    ⟨depth, "Ternary"⟩ :: condition.linesOnto (depth + 1)
      (consequent.linesOnto (depth + 1) (alternative.linesOnto (depth + 1) after))
  | .builtin function argument, depth, after => ⟨depth, function.name⟩ :: argument.linesOnto (depth + 1) after
  | .sizeOf type, depth, after => ⟨depth, "SizeOf: " ++ type.text⟩ :: after
  | .unsafeBlock body, depth, after =>
    ⟨depth, "Unsafe"⟩ :: ⟨depth + 1, "Block"⟩ :: linesOfAll body (depth + 2) after
  | .cast type operand, depth, after => ⟨depth, "Cast: " ++ type.text⟩ :: operand.linesOnto (depth + 1) after
  | .call callee arguments, depth, after =>
    ⟨depth, "FunctionCall: " ++ callee⟩ :: linesOfAll arguments (depth + 1) after
  | .block statements, depth, after => ⟨depth, "Block"⟩ :: linesOfAll statements (depth + 1) after
  | .functionDef name returnType params body, depth, after =>
    ⟨depth, functionHead name returnType params⟩ :: ⟨depth + 1, "Block"⟩ :: linesOfAll body (depth + 2) after
  | .ifElse condition consequent alternative, depth, after =>
    ⟨depth, "If: " ++ condition.inline⟩ :: consequent.linesOnto (depth + 1)
      (linesOfElse alternative depth after)
  | .whileLoop condition body, depth, after =>
    ⟨depth, "While: " ++ condition.inline⟩ :: body.linesOnto (depth + 1) after
  | .forLoop start condition step body, depth, after =>
    ⟨depth, (Tree.forLoop start condition step body).inline⟩ :: body.linesOnto (depth + 1) after
  | .literal value, depth, after => ⟨depth, value.line⟩ :: after
  | .identifier name, depth, after => ⟨depth, "Identifier: " ++ name⟩ :: after
  | .returnStmt value, depth, after => ⟨depth, (Tree.returnStmt value).inline⟩ :: after
  | .varDecl type name value, depth, after => ⟨depth, (Tree.varDecl type name value).inline⟩ :: after

/-- The lines of a branch that may be missing under a line of its own, before the lines in `after`. -/
def linesOfElse : Option Tree → Nat → List DumpLine → List DumpLine
  | none, _, after => after
  | some tree, depth, after => ⟨depth, "Else"⟩ :: tree.linesOnto (depth + 1) after

/-- The lines of trees one after the other, before the lines in `after`. -/
def linesOfAll : List Tree → Nat → List DumpLine → List DumpLine
  | [], _, after => after
  | tree :: rest, depth, after => tree.linesOnto depth (linesOfAll rest depth after)

end

mutual

/-- What is already there is left as it is. -/
theorem linesOnto_eq_append (tree : Tree) (depth : Nat) (after : List DumpLine) :
    tree.linesOnto depth after = tree.linesOnto depth [] ++ after := by
  match tree with
  | .literal _ | .identifier _ | .sizeOf _ | .returnStmt _ | .varDecl .. => simp [linesOnto]
  | .binary _ left right =>
    simp only [linesOnto]
    rw [left.linesOnto_eq_append _ (right.linesOnto (depth + 1) after),
      left.linesOnto_eq_append _ (right.linesOnto (depth + 1) []), right.linesOnto_eq_append _ after]
    simp
  | .ternary condition consequent alternative =>
    simp only [linesOnto]
    rw [condition.linesOnto_eq_append _
      (consequent.linesOnto (depth + 1) (alternative.linesOnto (depth + 1) after)),
      condition.linesOnto_eq_append _
      (consequent.linesOnto (depth + 1) (alternative.linesOnto (depth + 1) [])),
      consequent.linesOnto_eq_append _ (alternative.linesOnto (depth + 1) after),
      consequent.linesOnto_eq_append _ (alternative.linesOnto (depth + 1) []),
      alternative.linesOnto_eq_append _ after]
    simp
  | .ifElse _ consequent alternative =>
    simp only [linesOnto]
    rw [consequent.linesOnto_eq_append _ (linesOfElse alternative depth after),
      consequent.linesOnto_eq_append _ (linesOfElse alternative depth []),
      linesOfElse_eq_append alternative depth after]
    simp
  | .unary _ part | .assign _ _ part | .builtin _ part | .cast _ part | .whileLoop _ part
  | .forLoop _ _ _ part =>
    simp only [linesOnto]
    rw [part.linesOnto_eq_append _ after]
    simp
  | .unsafeBlock parts | .functionDef _ _ _ parts | .call _ parts | .block parts =>
    simp only [linesOnto]
    rw [linesOfAll_eq_append parts _ after]
    simp

theorem linesOfElse_eq_append (tree : Option Tree) (depth : Nat) (after : List DumpLine) :
    linesOfElse tree depth after = linesOfElse tree depth [] ++ after := by
  match tree with
  | none => simp [linesOfElse]
  | some tree =>
    simp only [linesOfElse]
    rw [tree.linesOnto_eq_append _ after]
    simp

theorem linesOfAll_eq_append (trees : List Tree) (depth : Nat) (after : List DumpLine) :
    linesOfAll trees depth after = linesOfAll trees depth [] ++ after := by
  match trees with
  | [] => simp [linesOfAll]
  | tree :: rest =>
    simp only [linesOfAll]
    rw [tree.linesOnto_eq_append _ (linesOfAll rest depth after),
      tree.linesOnto_eq_append _ (linesOfAll rest depth []), linesOfAll_eq_append rest depth after]
    simp

end

def lines (tree : Tree) (depth : Nat) : List DumpLine := tree.linesOnto depth []

/-- The dump of a tree, one line for each node that is not written in the line of another. -/
def dump (tree : Tree) : String := String.join ((tree.lines 0).map DumpLine.render)

end Tree

end ObsidianSyntax
