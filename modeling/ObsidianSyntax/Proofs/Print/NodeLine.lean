import ObsidianSyntax.Proofs.Place.Lines
import ObsidianSyntax.Proofs.Print.OneLine
import ObsidianSyntax.Proofs.Tree.Parts

/-!
# Lines of nodes

The line of a node starts with the name of its kind. What follows is made of words, operators and
expressions on one line, each of which ends where it must, so that the line tells all about the node
but for the parts below. The expressions that are written in the line of a statement say all about
themselves if they hold no unsafe block. And no line ends within the line of a node, whatever texts
the tree holds, unless one of its names does so.
-/

namespace ObsidianSyntax

namespace Tree

/-! ### Clear trees -/

/-- The parts of a node that are written in its own line. -/
@[simp] def inlineParts : Tree → List Tree
  | .returnStmt value | .varDecl _ _ value => value.toList
  | .ifElse condition _ _ | .whileLoop condition _ => [condition]
  | .forLoop start condition step _ => start.toList ++ condition.toList ++ step.toList
  | _ => []

/-- The parts of a node that have lines of their own. -/
def belowParts (tree : Tree) : List Tree := tree.children.drop tree.inlineParts.length

/-- Every part is either written in the line of the node or has lines of its own. -/
theorem inlineParts_append_belowParts (tree : Tree) :
    tree.inlineParts ++ tree.belowParts = tree.children := by
  cases tree <;> simp [belowParts, children]

theorem mem_children_of_mem_inlineParts {tree part : Tree} (hpart : part ∈ tree.inlineParts) :
    part ∈ tree.children := by
  rw [← inlineParts_append_belowParts]
  exact List.mem_append_left _ hpart

theorem mem_children_of_mem_belowParts {tree part : Tree} (hpart : part ∈ tree.belowParts) :
    part ∈ tree.children := by
  rw [← inlineParts_append_belowParts]
  exact List.mem_append_right _ hpart

/-- No unsafe block stands in a part that is written in the line of its node. -/
def ShowsBlocks (tree : Tree) : Prop := ∀ node, tree.Holds node → ∀ part ∈ node.inlineParts, part.IsSafe

/-- The line of the node says all about it but for the parts below. -/
structure HasClearLine (node : Tree) : Prop where
  literal : ∀ value ∈ node.literal?, value.IsSound
  name : ∀ name ∈ node.names, IsWord name.toList
  type : ∀ type ∈ node.types, IsWord type.text.toList
  returnType : ∀ type ∈ node.returnType?, IsWord type.text.toList
  part : ∀ part ∈ node.inlineParts, part.IsLegible

/-- All lines of the tree are clear. -/
def IsClear (tree : Tree) : Prop := ∀ node, tree.Holds node → node.HasClearLine

theorem IsClear.of_mem_children {tree part : Tree} (h : tree.IsClear) (hpart : part ∈ tree.children) :
    part.IsClear :=
  (forall_holds_iff.1 h).2 part hpart

theorem IsClear.hasClearLine {tree : Tree} (h : tree.IsClear) : tree.HasClearLine := h tree .self

theorem mem_operands_of_mem_inlineParts {node part : Tree} (hpart : part ∈ node.inlineParts) :
    part ∈ node.operands := by
  cases node <;> simp_all

theorem Holds.trans {tree node inner : Tree} (hnode : tree.Holds node) (hinner : node.Holds inner) :
    tree.Holds inner := by
  induction hnode with
  | self => exact hinner
  | inside hpart _ ih => exact .inside hpart (ih hinner)

theorem Holds.isSafe {tree node : Tree} (hnode : tree.Holds node) (h : tree.IsSafe) :
    node.IsSafe := fun body hbody =>
  h body (hnode.trans hbody)

theorem IsSafe.showsBlocks {tree : Tree} (h : tree.IsSafe) : tree.ShowsBlocks := fun _ hnode _ hpart =>
  (hnode.isSafe h).of_mem_children (mem_children_of_mem_inlineParts hpart)

variable {tokens : List Token}

theorem IsWellFormed.hasClearLine {node : Tree} (h : node.IsWellFormed tokens)
    (hsafe : ∀ part ∈ node.inlineParts, part.IsSafe) :
    node.HasClearLine where
  literal := h.isSound.literal
  name := fun name hname => (h.isSound.name name hname).isWord
  type := fun type htype => (h.isSound.type type htype).isWord
  returnType := fun type htype => by
    obtain rfl | hread := h.isSound.returnType type htype
    · exact isWord_spec (by decide)
    · exact hread.isWord
  part := fun part hpart =>
    have hoperand := mem_operands_of_mem_inlineParts hpart
    part.isLegible_of_isSafe (h.of_mem_children (mem_children_of_mem_operands hoperand))
      (h.isSound.operand part hoperand) (hsafe part hpart)

theorem Holds.isWellFormed {tree node : Tree} (hnode : tree.Holds node)
    (h : tree.IsWellFormed tokens) : node.IsWellFormed tokens :=
  fun inner hinner => h inner (hnode.trans hinner)

theorem IsWellFormed.isClear {tree : Tree} (h : tree.IsWellFormed tokens)
    (hshows : tree.ShowsBlocks) : tree.IsClear := fun node hnode =>
  (hnode.isWellFormed h).hasClearLine (hshows node hnode)

/-! ### Lines -/

/-- The characters of a part that may be missing. -/
def optionChars : Option Tree → List Char
  | none => []
  | some tree => tree.chars

/-- The characters of a part that may be missing, behind a text that comes with it. -/
def prefixedChars (front : List Char) : Option Tree → List Char
  | none => []
  | some tree => front ++ tree.chars

end Tree

def Param.chars (param : Param) : List Char := param.type.text.toList ++ ' ' :: param.name.toList

namespace Tree

/-- What stands in the line of a node behind the name of its kind. -/
def lineTail : Tree → List Char
  | .literal value => ':' :: ' ' :: value.word
  | .identifier name => ':' :: ' ' :: name.toList
  | .binary op _ _ => ':' :: ' ' :: '\'' :: (op.mark.spelling.toList ++ ['\''])
  | .unary op _ => ':' :: ' ' :: '\'' :: (op.mark.spelling.toList ++ ['\''])
  | .assign op target _ => ':' :: ' ' :: (target.toList ++ ' ' :: '\'' :: (op.mark.spelling.toList ++ ['\'']))
  | .sizeOf type | .cast type _ => ':' :: ' ' :: type.text.toList
  | .call callee _ => ':' :: ' ' :: callee.toList
  | .functionDef name returnType params _ =>
    ':' :: ' ' :: (name.toList ++
      '(' :: (listed Param.chars params ++ ')' :: (" -> ".toList ++ returnType.text.toList)))
  | .returnStmt value => prefixedChars [':', ' '] value
  | .varDecl type name value =>
    ':' :: ' ' :: (type.text.toList ++ ' ' :: (name.toList ++ prefixedChars [' ', '=', ' '] value))
  | .ifElse condition _ _ | .whileLoop condition _ => ':' :: ' ' :: condition.chars
  | .forLoop start condition step _ =>
    ':' :: ' ' :: (optionChars start ++
      ';' :: ' ' :: (optionChars condition ++ ';' :: prefixedChars [' '] step))
  | .ternary .. | .builtin .. | .unsafeBlock _ | .block _ => []

theorem flatMap_inlineOption (part : Option Tree) (after : List String) :
    (inlineOption part after).flatMap String.toList = optionChars part ++ after.flatMap String.toList := by
  cases part with
  | none => rfl
  | some tree => exact flatMap_inlineOnto tree after

theorem dropTrailing_prefix (inClass : Char → Bool) (text : List Char) :
    dropTrailing inClass text <+: text := by
  have hsuffix : text.reverse.dropWhile inClass <:+ text.reverse := List.dropWhile_suffix inClass
  simpa [dropTrailing] using List.reverse_prefix.2 hsuffix

theorem dropTrailing_of_last {inClass : Char → Bool} {text : List Char} {c : Char}
    (hlast : text.getLast? = some c) (hc : inClass c = false) :
    dropTrailing inClass text = text := by
  obtain ⟨front, rfl⟩ := List.getLast?_eq_some_iff.1 hlast
  exact dropTrailing_append_cons hc front []

/-- What is written in the line of a node behind the name of its kind. The blank before a clause
that is missing at the end of a head is trimmed, and so are blanks at the end of one that is
there. -/
def writtenTail : Tree → List Char
  | .forLoop start condition step _ =>
    ':' :: ' ' :: (optionChars start ++
      ';' :: ' ' :: (optionChars condition ++ ';' :: dropTrailing isBlank (' ' :: optionChars step)))
  | tree => tree.lineTail

/-- The line of a node. -/
def lineText (tree : Tree) : String := String.ofList (tree.kindName.toList ++ tree.writtenTail)

theorem toList_lineText (tree : Tree) : tree.lineText.toList = tree.kindName.toList ++ tree.writtenTail := by
  rw [lineText, String.toList_ofList]

theorem toList_forLoop (start condition step : Option Tree) (body : Tree) :
    (forLoop start condition step body).inline.toList = "For".toList ++
      (forLoop start condition step body).writtenTail := by
  have htext : (String.join ("For: " :: inlineOption start
    ("; " :: inlineOption condition ("; " :: inlineOption step [])))).toList =
      ("For: ".toList ++ optionChars start ++ "; ".toList ++ optionChars condition) ++
        ';' :: ' ' :: optionChars step := by
    simp [flatMap_inlineOption]
  rw [inline, inlineOnto, String.toList_join, List.flatMap_singleton, trimEnd, String.toList_ofList,
    htext, dropTrailing_append_cons rfl]
  simp [writtenTail]

/-- Trimming takes away no more than the end of a line. -/
theorem writtenTail_prefix (tree : Tree) : tree.writtenTail <+: tree.lineTail := by
  cases tree with
  | forLoop start condition step body =>
    have hstep : dropTrailing isBlank (' ' :: optionChars step) <+: prefixedChars [' '] step := by
      cases step with
      | none => exact List.nil_prefix
      | some tree => exact dropTrailing_prefix isBlank (' ' :: tree.chars)
    simpa [writtenTail, lineTail, List.prefix_append_right_inj] using hstep
  | _ => exact List.prefix_rfl

/-- The line of a node that is clear is written in full. -/
theorem HasClearLine.writtenTail_eq {tree : Tree} (h : tree.HasClearLine) :
    tree.writtenTail = tree.lineTail := by
  cases tree with
  | forLoop start condition step body =>
    have htrim : dropTrailing isBlank (' ' :: optionChars step) = prefixedChars [' '] step := by
      cases step with
      | none => rfl
      | some tree =>
        obtain ⟨c, hlast, hc⟩ := (h.part tree (by simp)).exists_last
        exact dropTrailing_of_last (by simp [optionChars, List.getLast?_cons, hlast]) hc
    rw [writtenTail, htrim, lineTail]
  | _ => rfl

theorem toList_paramLine (param : Param) : param.line.toList = param.chars := by
  simp [Param.line, Param.chars]

theorem toList_functionHead (name : String) (returnType : TypeName) (params : List Param)
    (body : List Tree) :
    (functionHead name returnType params).toList = "FunctionDef".toList ++
      (functionDef name returnType params body).lineTail := by
  have hparams : (", ".intercalate (params.map Param.line)).toList = listed Param.chars params := by
    rw [String.toList_intercalate, List.map_map, listed]
    congr 1
    exact List.map_congr_left fun param _ => toList_paramLine param
  delta functionHead
  simp [hparams, lineTail]

/-- A statement other than a block has the same form on one line as in its line of a dump. -/
theorem inline_eq_lineText {tree : Tree} (h : tree.isExpression = false)
    (hblock : ∀ statements, tree ≠ .block statements) :
    tree.inline = tree.lineText := by
  rw [← String.toList_inj, toList_lineText, inline]
  cases tree with
  | functionDef name returnType params body =>
    rw [inlineOnto, String.toList_join, List.flatMap_singleton]
    exact toList_functionHead name returnType params body
  | returnStmt value | varDecl type name value =>
    cases value <;> simp [inlineOnto, flatMap_inlineOnto, kindName, writtenTail, lineTail, prefixedChars]
  | ifElse | whileLoop => simp [inlineOnto, flatMap_inlineOnto, kindName, writtenTail, lineTail]
  | forLoop start condition step body => exact toList_forLoop start condition step body
  | block statements => exact absurd rfl (hblock statements)
  | _ => cases h

/-- The first line of a tree, whatever its names are. -/
theorem head?_linesOnto_written (tree : Tree) (depth : Nat) (after : List DumpLine) :
    (tree.linesOnto depth after).head? = some ⟨depth, tree.lineText⟩ := by
  have hline : ∀ {text : String}, text.toList = tree.kindName.toList ++ tree.writtenTail →
      some (⟨depth, text⟩ : DumpLine) = some ⟨depth, tree.lineText⟩ := by
    intro text htext
    rw [lineText, ← htext, String.ofList_toList]
  cases tree with
  | literal value => exact hline value.toList_line
  | unary op operand =>
    refine hline ?_
    cases hbehind : op.isBehind <;> simp [kindName, writtenTail, lineTail, UnaryOp.symbol, hbehind]
  | functionDef name returnType params body => exact hline (toList_functionHead name returnType params body)
  | returnStmt | varDecl | forLoop =>
    rw [linesOnto, List.head?_cons, inline_eq_lineText rfl]
    rintro _ ⟨⟩
  | _ => exact hline (by simp [kindName, writtenTail, lineTail, chars, BinaryOp.symbol, AssignOp.symbol])

/-- The first line of a tree. -/
theorem head?_linesOnto {tree : Tree} (h : tree.HasClearLine) (depth : Nat) (after : List DumpLine) :
    (tree.linesOnto depth after).head? =
      some ⟨depth, String.ofList (tree.kindName.toList ++ tree.lineTail)⟩ := by
  rw [head?_linesOnto_written, lineText, h.writtenTail_eq]

theorem isAlpha_head?_lineTail (tree : Tree) : ∀ c ∈ tree.lineTail.head?, c.isAlpha = false := by
  cases tree with
  | returnStmt value => cases value <;> simp [lineTail, prefixedChars]
  | _ => simp [lineTail]

/-- The name of the kind ends where it must. -/
theorem lineTail_eq_of_linesOnto {tree tree' : Tree} (h : tree.HasClearLine)
    (h' : tree'.HasClearLine) {depth : Nat} {after after' : List DumpLine}
    (heq : tree.linesOnto depth after = tree'.linesOnto depth after') :
    tree.kindName = tree'.kindName ∧ tree.lineTail = tree'.lineTail := by
  have hhead := congrArg List.head? heq
  rw [head?_linesOnto h, head?_linesOnto h', Option.some.injEq, DumpLine.mk.injEq] at hhead
  have hchars := String.ofList_injective hhead.2
  exact (run_append_inj isAlpha_of_mem_kindName isAlpha_of_mem_kindName tree.isAlpha_head?_lineTail
    tree'.isAlpha_head?_lineTail hchars).imp_left fun hkind => String.toList_injective hkind

/-! ### Nodes of one line -/

/-- Two trees of one form are taken apart together. -/
@[elab_as_elim]
theorem cases_sameForm {motive : (tree tree' : Tree) → tree.ctorIdx = tree'.ctorIdx → Prop}
    (literal : ∀ value value', motive (.literal value) (.literal value') rfl)
    (identifier : ∀ name name', motive (.identifier name) (.identifier name') rfl)
    (binary : ∀ op left right op' left' right', motive (.binary op left right) (.binary op' left' right') rfl)
    (unary : ∀ op operand op' operand', motive (.unary op operand) (.unary op' operand') rfl)
    (assign : ∀ op target value op' target' value', motive (.assign op target value)
      (.assign op' target' value') rfl)
    (ternary : ∀ condition consequent alternative condition' consequent' alternative', motive
      (.ternary condition consequent alternative) (.ternary condition' consequent' alternative') rfl)
    (builtin : ∀ function argument function' argument', motive (.builtin function argument)
      (.builtin function' argument') rfl)
    (sizeOf : ∀ type type', motive (.sizeOf type) (.sizeOf type') rfl)
    (unsafeBlock : ∀ body body', motive (.unsafeBlock body) (.unsafeBlock body') rfl)
    (cast : ∀ type operand type' operand', motive (.cast type operand) (.cast type' operand') rfl)
    (call : ∀ callee arguments callee' arguments', motive (.call callee arguments)
      (.call callee' arguments') rfl)
    (block : ∀ statements statements', motive (.block statements) (.block statements') rfl)
    (functionDef : ∀ name returnType params body name' returnType' params' body', motive
      (.functionDef name returnType params body) (.functionDef name' returnType' params' body') rfl)
    (returnStmt : ∀ value value', motive (.returnStmt value) (.returnStmt value') rfl)
    (varDecl : ∀ type name value type' name' value', motive (.varDecl type name value)
      (.varDecl type' name' value') rfl)
    (ifElse : ∀ condition consequent alternative condition' consequent' alternative', motive
      (.ifElse condition consequent alternative) (.ifElse condition' consequent' alternative') rfl)
    (whileLoop : ∀ condition body condition' body', motive (.whileLoop condition body)
      (.whileLoop condition' body') rfl)
    (forLoop : ∀ start condition step body start' condition' step' body', motive
      (.forLoop start condition step body) (.forLoop start' condition' step' body') rfl)
    (tree tree' : Tree) (hform : tree.ctorIdx = tree'.ctorIdx) : motive tree tree' hform := by
  cases tree <;> cases tree' <;> first | (cases hform; done) | apply_assumption

/-- The nodes have the same line: they differ at most in the parts below. -/
inductive SameLine : Tree → Tree → Prop where
  | literal {value : Literal} : SameLine (.literal value) (.literal value)
  | identifier {name : String} : SameLine (.identifier name) (.identifier name)
  | binary {op : BinaryOp} {left right left' right' : Tree} :
      SameLine (.binary op left right) (.binary op left' right')
  | unary {op : UnaryOp} {operand operand' : Tree} : SameLine (.unary op operand) (.unary op operand')
  | assign {op : AssignOp} {target : String} {value value' : Tree} :
      SameLine (.assign op target value) (.assign op target value')
  | ternary {condition consequent alternative condition' consequent' alternative' : Tree} :
    SameLine (.ternary condition consequent alternative) (.ternary condition' consequent' alternative')
  | builtin {function : Builtin} {argument argument' : Tree} :
      SameLine (.builtin function argument) (.builtin function argument')
  | sizeOf {type : TypeName} : SameLine (.sizeOf type) (.sizeOf type)
  | unsafeBlock {body body' : List Tree} : SameLine (.unsafeBlock body) (.unsafeBlock body')
  | cast {type : TypeName} {operand operand' : Tree} : SameLine (.cast type operand) (.cast type operand')
  | call {callee : String} {arguments arguments' : List Tree} :
      SameLine (.call callee arguments) (.call callee arguments')
  | block {statements statements' : List Tree} : SameLine (.block statements) (.block statements')
  | functionDef {name : String} {returnType : TypeName} {params : List Param} {body body' : List Tree} :
    SameLine (.functionDef name returnType params body) (.functionDef name returnType params body')
  | returnStmt {value : Option Tree} : SameLine (.returnStmt value) (.returnStmt value)
  | varDecl {type : TypeName} {name : String} {value : Option Tree} :
      SameLine (.varDecl type name value) (.varDecl type name value)
  | ifElse {condition consequent consequent' : Tree} {alternative alternative' : Option Tree} :
    SameLine (.ifElse condition consequent alternative) (.ifElse condition consequent' alternative')
  | whileLoop {condition body body' : Tree} :
      SameLine (.whileLoop condition body) (.whileLoop condition body')
  | forLoop {start condition step : Option Tree} {body body' : Tree} :
    SameLine (.forLoop start condition step body) (.forLoop start condition step body')

/-- A part that may be missing is found again in front of what follows a part. -/
theorem optionChars_append_inj {part part' : Option Tree} (h : ∀ tree ∈ part, tree.IsLegible)
    (h' : ∀ tree ∈ part', tree.IsLegible) {rest rest' : List Char} (hrest : EndsPart rest)
    (hrest' : EndsPart rest') (heq : optionChars part ++ rest = optionChars part' ++ rest') :
    part = part' ∧ rest = rest' := by
  have hstarts : ∀ {tree : Tree} {rest rest' : List Char}, tree.IsLegible → EndsPart rest →
      rest ≠ tree.chars ++ rest' := by
    intro tree rest rest' htree hrest heq
    obtain ⟨c, tail, hc, hchars⟩ := htree.exists_first
    rw [heq, hchars] at hrest
    exact absurd (hrest c rfl) (by simp [show isDelimiter c = false from isDelimiter_eq_false (by decide) hc])
  cases part with
  | none =>
    cases part' with
    | none => exact ⟨rfl, heq⟩
    | some tree' => exact absurd heq (hstarts (h' tree' rfl) hrest)
  | some tree =>
    cases part' with
    | none => exact absurd heq.symm (hstarts (h tree rfl) hrest')
    | some tree' =>
      exact ((h tree rfl).isFoundAgain tree' (h' tree' rfl) rest rest' hrest hrest' heq).imp_left
        (congrArg some)

/-- The text in front tells a part at the end from a missing one. -/
theorem prefixedChars_inj {front : List Char} (hfront : front ≠ []) {part part' : Option Tree}
    (h : ∀ tree ∈ part, tree.IsLegible) (h' : ∀ tree ∈ part', tree.IsLegible)
    (heq : prefixedChars front part = prefixedChars front part') : part = part' := by
  cases part with
  | none =>
    cases part' with
    | none => rfl
    | some tree' => exact absurd heq.symm (by simp [prefixedChars, hfront])
  | some tree =>
    cases part' with
    | none => exact absurd heq (by simp [prefixedChars, hfront])
    | some tree' => exact congrArg some ((h tree rfl).chars_inj (h' tree' rfl) (List.append_cancel_left heq))

theorem areFoundAgain_params {params params' : List Param}
    (htype : ∀ param ∈ params, IsWord param.type.text.toList)
    (htype' : ∀ param ∈ params', IsWord param.type.text.toList)
    (hname : ∀ param ∈ params, IsWord param.name.toList)
    (hname' : ∀ param ∈ params', IsWord param.name.toList) :
    AreFoundAgain Param.chars params params' := by
  intro param hmem param' hmem' rest rest' hrest hrest' heq
  obtain ⟨type, name⟩ := param
  obtain ⟨type', name'⟩ := param'
  simp only [Param.chars, List.append_assoc, List.cons_append] at heq
  obtain ⟨htext, hmore⟩ := append_inj_of_class (htype _ hmem).continuesWord
    (htype' _ hmem').continuesWord rfl rfl heq
  obtain ⟨hword, rfl⟩ := part_append_inj (hname _ hmem).isDelimiter_eq_false
    (hname' _ hmem').isDelimiter_eq_false hrest hrest' (List.cons.inj hmore).2
  obtain rfl := TypeName.ext_toList htext
  obtain rfl := String.toList_injective hword
  exact ⟨rfl, rfl⟩

theorem SameLine.of_assign {op op' : AssignOp} {target target' : String} {value value' : Tree}
    (hword : IsWord target.toList) (hword' : IsWord target'.toList)
    (htail : (Tree.assign op target value).lineTail = (Tree.assign op' target' value').lineTail) :
    SameLine (.assign op target value) (.assign op' target' value') := by
  simp only [lineTail, List.cons.injEq, true_and] at htail
  obtain ⟨htext, hmark⟩ := append_inj_of_class hword.continuesWord hword'.continuesWord rfl rfl htail
  obtain rfl := String.toList_injective htext
  simp only [List.cons.injEq, true_and] at hmark
  obtain rfl := AssignOp.mark_injective (Mark.spelling_append_inj hmark).1
  exact .assign

section

variable {name name' : String} {type type' : TypeName}

theorem SameLine.of_functionDef {params params' : List Param} {body body' : List Tree}
    (h : (Tree.functionDef name type params body).HasClearLine)
    (h' : (Tree.functionDef name' type' params' body').HasClearLine)
    (htail : (Tree.functionDef name type params body).lineTail =
      (Tree.functionDef name' type' params' body').lineTail) :
    SameLine (.functionDef name type params body) (.functionDef name' type' params' body') := by
  have hname := h.name
  have hname' := h'.name
  have htype := h.type
  have htype' := h'.type
  simp only [names, types, List.forall_mem_cons, List.forall_mem_map] at hname hname' htype htype'
  simp only [lineTail, List.cons.injEq, true_and] at htail
  obtain ⟨htext, hmore⟩ := append_inj_of_class hname.1.continuesWord hname'.1.continuesWord rfl rfl htail
  obtain rfl := String.toList_injective htext
  have hopen : ∀ param, param ∈ params ∨ param ∈ params' → ∃ c tail, c ≠ ')' ∧ param.chars = c :: tail := by
    intro param hmem
    obtain ⟨c, tail, hchars, hc, -⟩ := hmem.elim (htype param) (htype' param)
    refine ⟨c, _, ?_, by rw [Param.chars, hchars, List.cons_append]⟩
    rintro rfl
    exact absurd hc (by decide)
  have hfound := areFoundAgain_params htype htype' hname.2 hname'.2
  obtain ⟨rfl, hreturn⟩ := listed_append_inj hopen hfound (List.cons.inj hmore).2
  obtain rfl := TypeName.ext_toList (List.append_cancel_left hreturn)
  exact .functionDef

theorem SameLine.of_varDecl {value value' : Option Tree} (h : (Tree.varDecl type name value).HasClearLine)
    (h' : (Tree.varDecl type' name' value').HasClearLine)
    (htail : (Tree.varDecl type name value).lineTail = (Tree.varDecl type' name' value').lineTail) :
    SameLine (.varDecl type name value) (.varDecl type' name' value') := by
  have hpart := h.part
  have hpart' := h'.part
  simp only [inlineParts, Option.mem_toList] at hpart hpart'
  simp only [lineTail, List.cons.injEq, true_and] at htail
  have htype := h.type type (by simp)
  have htype' := h'.type type' (by simp)
  obtain ⟨htext, hmore⟩ := append_inj_of_class htype.continuesWord htype'.continuesWord rfl rfl htail
  obtain rfl := TypeName.ext_toList htext
  have hname := h.name name (by simp)
  have hname' := h'.name name' (by simp)
  have hbehind : ∀ value, ∀ c ∈ (prefixedChars [' ', '=', ' '] value).head?,
      Lexeme.continuesWord c = false := by
    intro value
    cases value <;> simp [prefixedChars, Lexeme.continuesWord]
  obtain ⟨hword, hvalue⟩ := run_append_inj hname.continuesWord hname'.continuesWord (hbehind value)
    (hbehind value') (List.cons.inj hmore).2
  obtain rfl := String.toList_injective hword
  obtain rfl := prefixedChars_inj (by simp) hpart hpart' hvalue
  exact .varDecl

end

theorem SameLine.of_forLoop {start condition step start' condition' step' : Option Tree}
    {body body' : Tree} (h : (Tree.forLoop start condition step body).HasClearLine)
    (h' : (Tree.forLoop start' condition' step' body').HasClearLine)
    (htail : (Tree.forLoop start condition step body).lineTail =
      (Tree.forLoop start' condition' step' body').lineTail) :
    SameLine (.forLoop start condition step body) (.forLoop start' condition' step' body') := by
  have hpart := h.part
  have hpart' := h'.part
  simp only [inlineParts, List.mem_append, Option.mem_toList, or_imp, forall_and] at hpart hpart'
  simp only [lineTail, List.cons.injEq, true_and] at htail
  obtain ⟨rfl, hmore⟩ := optionChars_append_inj hpart.1.1 hpart'.1.1 (endsPart_cons rfl _)
    (endsPart_cons rfl _) htail
  simp only [List.cons.injEq, true_and] at hmore
  obtain ⟨rfl, hlast⟩ := optionChars_append_inj hpart.1.2 hpart'.1.2 (endsPart_cons rfl _)
    (endsPart_cons rfl _) hmore
  obtain rfl := prefixedChars_inj (by simp) hpart.2 hpart'.2 (List.cons.inj hlast).2
  exact .forLoop

/-- The line says all about a node but the parts below. -/
theorem sameLine_of_lineTail {tree tree' : Tree} (h : tree.HasClearLine) (h' : tree'.HasClearLine)
    (hkind : tree.kindName = tree'.kindName) (htail : tree.lineTail = tree'.lineTail) :
    SameLine tree tree' := by
  have hform := ctorIdx_eq_of_kindName hkind
  cases tree, tree', hform using cases_sameForm with
  | literal value value' =>
    have hword : value.word ++ [] = value'.word ++ [] := by simpa [lineTail] using htail
    obtain ⟨rfl, -⟩ := Literal.word_append_inj (h.literal value rfl) (h'.literal value' rfl) hkind
      endsPart_nil endsPart_nil hword
    exact .literal
  | identifier name name' =>
    obtain rfl := String.toList_injective (by simpa [lineTail] using htail)
    exact .identifier
  | binary op left right op' left' right' =>
    simp only [lineTail, List.cons.injEq, true_and] at htail
    obtain rfl := BinaryOp.mark_injective (Mark.spelling_append_inj htail).1
    exact .binary
  | unary op operand op' operand' =>
    simp only [lineTail, List.cons.injEq, true_and] at htail
    obtain rfl := UnaryOp.mark_injective (isBehind_eq_of_kindName hkind) (Mark.spelling_append_inj htail).1
    exact .unary
  | assign op target value op' target' value' =>
    exact .of_assign (h.name target (by simp)) (h'.name target' (by simp)) htail
  | ternary => exact .ternary
  | builtin function argument function' argument' =>
    obtain rfl := Builtin.name_injective hkind
    exact .builtin
  | sizeOf type type' =>
    simp only [lineTail, List.cons.injEq, true_and] at htail
    obtain rfl := TypeName.ext_toList htail
    exact .sizeOf
  | unsafeBlock => exact .unsafeBlock
  | cast type operand type' operand' =>
    simp only [lineTail, List.cons.injEq, true_and] at htail
    obtain rfl := TypeName.ext_toList htail
    exact .cast
  | call callee arguments callee' arguments' =>
    obtain rfl := String.toList_injective (by simpa [lineTail] using htail)
    exact .call
  | block => exact .block
  | functionDef => exact .of_functionDef h h' htail
  | returnStmt value value' =>
    have hpart := h.part
    have hpart' := h'.part
    simp only [inlineParts, Option.mem_toList] at hpart hpart'
    obtain rfl := prefixedChars_inj (by simp) hpart hpart' htail
    exact .returnStmt
  | varDecl => exact .of_varDecl h h' htail
  | ifElse condition consequent alternative condition' consequent' alternative' =>
    simp only [lineTail, List.cons.injEq, true_and] at htail
    obtain rfl := (h.part condition (by simp)).chars_inj (h'.part condition' (by simp)) htail
    exact .ifElse
  | whileLoop condition body condition' body' =>
    simp only [lineTail, List.cons.injEq, true_and] at htail
    obtain rfl := (h.part condition (by simp)).chars_inj (h'.part condition' (by simp)) htail
    exact .whileLoop
  | forLoop => exact .of_forLoop h h' htail

/-! ### Line ends -/

/-- No name and no type of the node is broken by a line end. -/
@[mk_iff]
structure HasUnbrokenNames (node : Tree) : Prop where
  name : ∀ name ∈ node.names, '\n' ∉ name.toList
  type : ∀ type ∈ node.types, '\n' ∉ type.text.toList
  returnType : ∀ type ∈ node.returnType?, '\n' ∉ type.text.toList

/-- No name and no type in the tree is broken by a line end. -/
def IsUnbroken (tree : Tree) : Prop := ∀ node, tree.Holds node → node.HasUnbrokenNames

theorem isUnbroken_iff {tree : Tree} :
    tree.IsUnbroken ↔ tree.HasUnbrokenNames ∧ ∀ part ∈ tree.children, part.IsUnbroken :=
  forall_holds_iff

theorem IsUnbroken.hasUnbrokenNames {tree : Tree} (h : tree.IsUnbroken) : tree.HasUnbrokenNames :=
  (isUnbroken_iff.1 h).1

theorem IsUnbroken.of_mem_children {tree part : Tree} (h : tree.IsUnbroken)
    (hpart : part ∈ tree.children) : part.IsUnbroken :=
  (isUnbroken_iff.1 h).2 part hpart

theorem Holds.isUnbroken {tree node : Tree} (hnode : tree.Holds node) (h : tree.IsUnbroken) :
    node.IsUnbroken := fun inner hinner =>
  h inner (hnode.trans hinner)

theorem IsClear.isUnbroken {tree : Tree} (h : tree.IsClear) : tree.IsUnbroken := fun node hnode =>
  have hline := h node hnode
  ⟨fun name hmem => (hline.name name hmem).newline_not_mem, fun type hmem =>
    (hline.type type hmem).newline_not_mem,
    fun type hmem => (hline.returnType type hmem).newline_not_mem⟩

theorem newline_not_mem_optionChars {part : Option Tree} (h : ∀ tree ∈ part, '\n' ∉ tree.chars) :
    '\n' ∉ optionChars part := by
  cases part with
  | none => exact List.not_mem_nil
  | some tree => exact h tree rfl

theorem newline_not_mem_prefixedChars {front : List Char} (hfront : '\n' ∉ front) {part : Option Tree}
    (h : ∀ tree ∈ part, '\n' ∉ tree.chars) : '\n' ∉ prefixedChars front part := by
  cases part with
  | none => exact List.not_mem_nil
  | some tree => simpa [prefixedChars, hfront] using h tree rfl

/-- No line ends inside the line of a node if none does inside the parts that are written in it. -/
theorem newline_not_mem_lineText_of_parts {tree : Tree} (h : tree.HasUnbrokenNames)
    (hpart : ∀ part ∈ tree.inlineParts, '\n' ∉ part.chars) : '\n' ∉ tree.lineText.toList := by
  rw [toList_lineText, List.mem_append, not_or]
  refine ⟨tree.newline_not_mem_kindName, mt (fun hmem => tree.writtenTail_prefix.subset hmem) ?_⟩
  have hname := h.name
  have htype := h.type
  cases tree with
  | literal value => simpa [lineTail] using value.newline_not_mem_word
  | binary op left right => simpa [lineTail] using op.mark.newline_not_mem_spelling
  | unary op operand => simpa [lineTail] using op.mark.newline_not_mem_spelling
  | assign op target value => simpa [lineTail, op.mark.newline_not_mem_spelling] using hname target (by simp)
  | functionDef name returnType params body =>
    simp only [names, types, List.forall_mem_cons, List.forall_mem_map] at hname htype
    have hparams : '\n' ∉ listed Param.chars params :=
      newline_not_mem_listed fun param hmem => by simp [Param.chars, htype param hmem, hname.2 param hmem]
    simp [lineTail, hname.1, hparams, h.returnType returnType rfl]
  | returnStmt value =>
    simp only [inlineParts, Option.mem_toList] at hpart
    exact newline_not_mem_prefixedChars (by simp) hpart
  | varDecl type name value =>
    simp only [inlineParts, Option.mem_toList] at hpart
    have hvalue : '\n' ∉ prefixedChars [' ', '=', ' '] value := newline_not_mem_prefixedChars (by simp) hpart
    simp [lineTail, htype type (by simp), hname name (by simp), hvalue]
  | ifElse condition consequent alternative => simpa [lineTail] using hpart condition (by simp)
  | whileLoop condition body => simpa [lineTail] using hpart condition (by simp)
  | forLoop start condition step body =>
    simp only [inlineParts, List.mem_append, Option.mem_toList, or_imp, forall_and] at hpart
    have hstart : '\n' ∉ optionChars start := newline_not_mem_optionChars hpart.1.1
    have hcondition : '\n' ∉ optionChars condition := newline_not_mem_optionChars hpart.1.2
    have hstep : '\n' ∉ prefixedChars [' '] step := newline_not_mem_prefixedChars (by simp) hpart.2
    simp [lineTail, hstart, hcondition, hstep]
  | _ => simp_all [lineTail]

theorem newline_not_mem_toDigits (count : Nat) : '\n' ∉ Nat.toDigits 10 count := fun hmem =>
  absurd ((isDigits_toDigits count).2 '\n' hmem) (by decide)

/-- No line ends inside an expression on one line if none does inside its parts. -/
theorem newline_not_mem_formTail_of_parts {tree : Tree} (h : tree.HasUnbrokenNames)
    (hpart : ∀ part ∈ tree.children, '\n' ∉ part.chars) :
    '\n' ∉ tree.formTail := by
  have hname := h.name
  have htype := h.type
  cases tree with
  | literal value => simpa [formTail] using value.newline_not_mem_word
  | assign op target value =>
    simp only [children, List.forall_mem_singleton] at hpart
    simpa [formTail, Mark.newline_not_mem_spelling, hpart] using hname
  | unsafeBlock body =>
    simp [formTail, newline_not_mem_toDigits]
  | cast type operand =>
    simp only [children, List.forall_mem_singleton] at hpart
    simpa [formTail, hpart] using htype
  | call callee arguments =>
    have harguments : '\n' ∉ listed chars arguments := newline_not_mem_listed hpart
    simpa [formTail, harguments] using hname
  | _ => simp_all [formTail, children, Mark.newline_not_mem_spelling]

theorem newline_not_mem_chars_block (statements : List Tree) : '\n' ∉ (block statements).chars := by
  simp [chars, inline, inlineOnto, newline_not_mem_toDigits]

theorem newline_not_mem_chars {tree : Tree} (h : tree.IsUnbroken) : '\n' ∉ tree.chars := by
  induction tree using induction_on_parts with
  | node tree ih =>
    have hpart : ∀ part ∈ tree.children, '\n' ∉ part.chars := fun part hmem =>
      ih part hmem (h.of_mem_children hmem)
    by_cases hexpr : tree.isExpression = true
    · rw [chars_eq hexpr, List.mem_append, not_or]
      exact ⟨tree.newline_not_mem_kindName, newline_not_mem_formTail_of_parts h.hasUnbrokenNames hpart⟩
    · by_cases hblock : ∃ statements, tree = .block statements
      · obtain ⟨statements, rfl⟩ := hblock
        exact newline_not_mem_chars_block statements
      · rw [chars, inline_eq_lineText (Bool.not_eq_true _ ▸ hexpr) (not_exists.1 hblock)]
        exact newline_not_mem_lineText_of_parts h.hasUnbrokenNames fun part hmem =>
          hpart part (mem_children_of_mem_inlineParts hmem)

theorem newline_not_mem_lineText {tree : Tree} (h : tree.IsUnbroken) : '\n' ∉ tree.lineText.toList :=
  newline_not_mem_lineText_of_parts h.hasUnbrokenNames fun _ hmem =>
    newline_not_mem_chars (h.of_mem_children (mem_children_of_mem_inlineParts hmem))

end Tree

end ObsidianSyntax
