import ObsidianSyntax.Proofs.Print.Source

/-!
# Written trees have derivations

What is written for a tree is derived by the grammar for that very tree, in the role it is written
for and at every depth from the one it nests to. There is one lemma for each form of tree, from the
parts to the whole, and an induction over trees that puts them together.
-/

namespace ObsidianSyntax

open Grammar

namespace Role

def accepts (role : Role) (tree : Tree) : Bool :=
  match role with
  | .statement => true
  | .operand _ _ => tree.isExpression

/-- The terminals are read as the tree in the role. A leading operand does not start like a
statement that prints a line. -/
def Reads (role : Role) (n : Nat) (ts : List Terminal) (tree : Tree) : Prop :=
  match role with
  | .statement => Stmt n tree.endsOpen ts tree
  | .operand level leading =>
    Expr n level ts tree ∧ (leading = true → ts.head? ≠ some (.keyword .printlnWord))

end Role

/-- What is written for the tree in the role is read as that tree. -/
def Tree.Readable (tree : Tree) (role : Role) : Prop :=
  ∀ n, tree.depth role ≤ n → role.Reads n (tree.source role) tree

/-! ### Operands -/

section

variable {n : Nat} {p : Precedence} {ts us : List Terminal} {tree : Tree}

/-- What nests a level deeper than its parts leaves one level less to them. -/
theorem exists_room {deep n : Nat} (hdepth : deep + 1 ≤ n) : ∃ m, n = m + 1 ∧ deep ≤ m :=
  ⟨n - 1, by omega, by omega⟩

theorem comma_le_binary (op : BinaryOp) : .comma ≤ op.mark.precedence := by
  cases op <;> decide

/-- What is put behind an expression does not change what it starts with. -/
theorem Grammar.Expr.head?_append_ne {t : Terminal} (hexpr : Expr n p ts tree) (hfirst : ts.head? ≠ some t) :
    (ts ++ us).head? ≠ some t := by
  obtain ⟨first, rest, rfl, _⟩ := hexpr.starts
  exact hfirst

theorem expr_inParens (hexpr : Expr n .comma ts tree) : Expr (n + 1) p (inParens ts) tree :=
  .primary (.group hexpr)

theorem expr_call {function : Builtin} (hexpr : Expr n .comma ts tree) :
    Expr (n + 1) p (.keyword function.word :: inParens ts) (.builtin function tree) :=
      .primary (.builtin hexpr)

/-- An expression of a level is read in every role, in parentheses where the role asks for a tighter one. -/
theorem Role.reads_write {role : Role} {level : Precedence} {bare : Bool → List Terminal}
    {deep : Bool → Nat} (hlevel : .comma ≤ level) (hclosed : tree.endsOpen = false)
    (hbare : ∀ leading m, deep leading ≤ m → Expr m level (bare leading) tree ∧
      (leading = true → (bare leading).head? ≠ some (.keyword .printlnWord)))
    (hdepth : role.depth level deep ≤ n) : role.Reads n (role.write level bare) tree := by
  cases role with
  | statement =>
    obtain ⟨m, rfl, hroom⟩ := exists_room hdepth
    obtain ⟨hexpr, hfirst⟩ := hbare true m hroom
    have hstmt := Stmt.expression (hfirst rfl) (hexpr.looser hlevel)
    rw [← hclosed] at hstmt
    exact hstmt
  | operand outer leading =>
    by_cases hloose : level < outer
    · simp only [Role.depth, write, hloose, if_true] at hdepth ⊢
      obtain ⟨m, rfl, hroom⟩ := exists_room hdepth
      obtain ⟨hexpr, _⟩ := hbare false m hroom
      exact ⟨expr_inParens (hexpr.looser hlevel),
        fun _ => by simp [inParens, Terminal.mark, Terminal.keyword]⟩
    · simp only [Role.depth, write, hloose, if_false] at hdepth ⊢
      obtain ⟨hexpr, hfirst⟩ := hbare leading n hdepth
      exact ⟨hexpr.looser (Nat.le_of_not_lt hloose), hfirst⟩

/-- An expression that is the same whether it leads or not. -/
theorem Role.reads_write_same {role : Role} {level : Precedence} {deep : Nat} (hlevel : .comma ≤ level)
    (hclosed : tree.endsOpen = false) (hfirst : ts.head? ≠ some (.keyword .printlnWord))
    (hbare : ∀ m, deep ≤ m → Expr (m + 1) level ts tree) (hdepth : role.depth level (fun _ => deep + 1) ≤ n) :
    role.Reads n (role.write level fun _ => ts) tree := by
  refine reads_write hlevel hclosed (fun _ m hm => ⟨?_, fun _ => hfirst⟩) hdepth
  obtain ⟨m, rfl, hroom⟩ := exists_room hm
  exact hbare m hroom

end

namespace Tree

theorem Readable.expr {tree : Tree} {level : Precedence} {leading : Bool} {n : Nat}
    (htree : tree.Readable (.operand level leading)) (hdepth : tree.depth (.operand level leading) ≤ n) :
    Expr n level (tree.source (.operand level leading)) tree :=
  (htree n hdepth).1

theorem Readable.stmt {tree : Tree} {n : Nat} (htree : tree.Readable .statement)
    (hdepth : tree.depth .statement ≤ n) :
    Stmt n tree.endsOpen (tree.source .statement) tree :=
  htree n hdepth

end Tree

/-! ### Expressions -/

section

variable {role : Role}

theorem head?_ne_println {t : Terminal} {ts : List Terminal} (hkind : t.kind ≠ .keyword .printlnWord) :
    (t :: ts).head? ≠ some (.keyword .printlnWord) := by
  simpa [Terminal.keyword] using fun heq : t = ⟨.keyword .printlnWord, ""⟩ => hkind (heq ▸ rfl)

theorem Terminal.Denotes.kind_ne_println {terminal : Terminal} {value : Literal}
    (hdenotes : terminal.Denotes value) :
    terminal.kind ≠ .keyword .printlnWord := by
  cases hdenotes <;> simp [keyword]

theorem Terminal.Denotes.kind_ne_endOfInput {terminal : Terminal} {value : Literal}
    (hdenotes : terminal.Denotes value) :
    terminal.kind ≠ .endOfInput := by
  cases hdenotes <;> simp [keyword]

theorem readable_literal {value : Literal} (hvalue : value.isExpressible = true) :
    (Tree.literal value).Readable role := by
  intro n hdepth
  have hdenotes := value.terminal_denotes hvalue
  exact Role.reads_write_same (by decide) rfl (head?_ne_println hdenotes.kind_ne_println)
    (fun m _ => .primary (.literal hdenotes)) hdepth

theorem readable_identifier {name : String} : (Tree.identifier name).Readable role := by
  intro n hdepth
  exact Role.reads_write_same (by decide) rfl (head?_ne_println nofun) (fun m _ => .primary .name)
    hdepth

theorem readable_binary {op : BinaryOp} {left right : Tree}
    (hleft : ∀ leading, left.Readable (.operand op.leftLevel leading))
    (hright : right.Readable (.operand op.rightLevel false)) : (Tree.binary op left right).Readable role := by
  intro n hdepth
  refine Role.reads_write (comma_le_binary op) rfl (fun leading m hm => ?_) hdepth
  obtain ⟨hmleft, hmright⟩ := Nat.max_le.1 hm
  obtain ⟨m, rfl, hroom⟩ := exists_room hmright
  obtain ⟨hexpr, hfirst⟩ := hleft leading (m + 1) hmleft
  have hexpr' := hright.expr hroom
  refine ⟨?_, fun hleading => hexpr.head?_append_ne (hfirst hleading)⟩
  by_cases hpower : op = .power
  · subst hpower
    exact .power (Nat.le_refl _) hexpr hexpr'
  · simp only [BinaryOp.leftLevel, BinaryOp.rightLevel, hpower, if_false] at hexpr hexpr' ⊢
    exact .binary (Nat.le_refl _) hpower hexpr hexpr'

theorem readable_unary {op : UnaryOp} {operand : Tree}
    (hbehind : ∀ leading, operand.Readable (.operand .postfixOp leading))
    (hbefore : operand.Readable (.operand .prefixOp false)) :
    (Tree.unary op operand).Readable role := by
  intro n hdepth
  by_cases hop : op.isBehind = true
  · simp only [Tree.depth, Tree.source, hop, if_true] at hdepth ⊢
    refine Role.reads_write (by decide) rfl (fun leading m hm => ?_) hdepth
    obtain ⟨hexpr, hfirst⟩ := hbehind leading m hm
    refine ⟨?_, fun hleading => hexpr.head?_append_ne (hfirst hleading)⟩
    cases m with
    | zero => exact absurd hexpr not_expr_zero
    | succ m => exact .behind hop hexpr
  · simp only [Bool.not_eq_true] at hop
    simp only [Tree.depth, Tree.source, hop, Bool.false_eq_true, if_false] at hdepth ⊢
    refine Role.reads_write_same (by decide) rfl (head?_ne_println nofun) (fun m hm => ?_) hdepth
    exact .before (Nat.le_refl _) hop (hbefore.expr hm)

theorem readable_assign {op : AssignOp} {target : String} {value : Tree}
    (hvalue : value.Readable (.operand .assignment false)) : (Tree.assign op target value).Readable role := by
  intro n hdepth
  refine Role.reads_write_same (by decide) rfl (head?_ne_println nofun) (fun m hm => ?_) hdepth
  exact .assign (Nat.le_refl _) .name (hvalue.expr hm)

theorem readable_ternary {condition consequent alternative : Tree}
    (hcondition : ∀ leading, condition.Readable (.operand .logicalOr leading))
    (hconsequent : consequent.Readable (.operand .comma false))
    (halternative : alternative.Readable (.operand .ternary false)) :
    (Tree.ternary condition consequent alternative).Readable role := by
  intro n hdepth
  refine Role.reads_write (by decide) rfl (fun leading m hm => ?_) hdepth
  obtain ⟨hmcondition, hmbranches⟩ := Nat.max_le.1 hm
  obtain ⟨m, rfl, hroom⟩ := exists_room hmbranches
  obtain ⟨hmconsequent, hmalternative⟩ := Nat.max_le.1 hroom
  obtain ⟨hexpr, hfirst⟩ := hcondition leading (m + 1) hmcondition
  refine ⟨?_, fun hleading => hexpr.head?_append_ne (hfirst hleading)⟩
  exact .ternary (Nat.le_refl _) hexpr (hconsequent.expr hmconsequent) (halternative.expr hmalternative)

theorem readable_builtin {function : Builtin} {argument : Tree}
    (hargument : argument.Readable (.operand .comma false)) :
    (Tree.builtin function argument).Readable role := by
  intro n hdepth
  cases role with
  | statement =>
    by_cases hprintln : function = .println
    · subst hprintln
      obtain ⟨m, rfl, hroom⟩ := exists_room hdepth
      have hstmt := Stmt.println (hargument.expr hroom)
      have htext : (Tree.builtin .println argument).source .statement = .keyword .printlnWord ::
        .mark .leftParen ::
          (argument.source (.operand .comma false) ++ [.mark .rightParen, .mark .semicolon]) := by
        simp [Tree.source, Role.writeBuiltin, inParens, Builtin.word]
      rw [htext]
      exact hstmt
    · simp only [Tree.depth, Role.depthBuiltin, hprintln, if_false] at hdepth
      obtain ⟨_, rfl, houter⟩ := exists_room hdepth
      obtain ⟨m, rfl, hroom⟩ := exists_room houter
      have hexpr := hargument.expr hroom
      apply Stmt.expression (head?_ne_println _) (expr_call hexpr)
      cases function <;> simp [Terminal.keyword, Builtin.word] at hprintln ⊢
  | operand outer leading =>
    by_cases hprintln : leading = true ∧ function = .println
    · simp only [Tree.depth, Tree.source, Role.depthBuiltin, Role.writeBuiltin, hprintln, if_true,
        and_self] at hdepth ⊢
      obtain ⟨_, rfl, houter⟩ := exists_room hdepth
      obtain ⟨m, rfl, hroom⟩ := exists_room houter
      have hexpr := hargument.expr hroom
      exact ⟨expr_inParens (expr_call hexpr), fun _ => head?_ne_println (by rintro ⟨⟩)⟩
    · simp only [Tree.depth, Tree.source, Role.depthBuiltin, Role.writeBuiltin, hprintln,
        if_false] at hdepth ⊢
      obtain ⟨m, rfl, hroom⟩ := exists_room hdepth
      refine ⟨expr_call (hargument.expr hroom), fun hleading => head?_ne_println fun hword => ?_⟩
      apply hprintln ⟨hleading, _⟩
      cases function <;> simp [Terminal.keyword, Builtin.word] at hword ⊢

/-- A type that can be written is a primitive one or goes by a name. -/
theorem TypeName.isExpressible_cases {type : TypeName} (htype : type.isExpressible = true) :
    (∃ primitive : Primitive, type.text = primitive.spelling ∧ Kind.ofReserved? type.text = some
      (.primitive primitive)) ∨
    (isName type.text = true ∧ Kind.ofReserved? type.text = none) := by
  simp only [isExpressible, isPrimitive, Bool.or_eq_true, List.any_eq_true, beq_iff_eq] at htype
  obtain ⟨primitive, _, htext⟩ | hname := htype
  · left
    refine ⟨primitive, htext.symm, ?_⟩
    rw [← htext]
    cases primitive <;> rfl
  · right
    refine ⟨hname, ?_⟩
    simp only [isName, Bool.and_eq_true, Option.isNone_iff_eq_none] at hname
    exact hname.2

theorem TypeName.terminal_namesType {type : TypeName} (htype : type.isExpressible = true) :
    type.terminal.NamesType type := by
  refine ⟨?_, rfl⟩
  obtain ⟨primitive, _, hkind⟩ | ⟨_, hkind⟩ := isExpressible_cases htype
  · left
    rw [terminal, hkind]
    rfl
  · right
    rw [terminal, hkind]
    rfl

theorem readable_sizeOf {type : TypeName} (htype : type.isExpressible = true) :
    (Tree.sizeOf type).Readable role := by
  intro n hdepth
  exact Role.reads_write_same (by decide) rfl (head?_ne_println nofun)
    (fun m _ => .primary (.sizeOf (TypeName.terminal_namesType htype))) hdepth

theorem readable_cast {type : TypeName} {operand : Tree} (htype : type.isExpressible = true)
    (hoperand : operand.Readable (.operand .comma false)) : (Tree.cast type operand).Readable role := by
  intro n hdepth
  refine Role.reads_write_same (by decide) rfl (head?_ne_println nofun) (fun m hm => ?_) hdepth
  exact .primary (.cast (TypeName.terminal_namesType htype) (hoperand.expr hm))

end

/-! ### Lists of trees -/

section

variable {n : Nat}

theorem stmts_sourceAll {body : List Tree} (hbody : ∀ tree ∈ body, tree.Readable .statement)
    (hdepth : Tree.depthAll body ≤ n) :
    Stmts n (Tree.sourceAll body) body := by
  induction body with
  | nil => exact .nil
  | cons tree rest ih =>
    obtain ⟨htree, hrest⟩ := Nat.max_le.1 hdepth
    exact .cons ((hbody tree (by simp)).stmt htree) (ih (fun tree hmem => hbody tree (by simp [hmem])) hrest)

theorem exprs_sourceArguments {tree : Tree} {rest : List Tree}
    (harguments : ∀ argument ∈ tree :: rest, argument.Readable (.operand .assignment false))
    (hdepth : Tree.depthArguments (tree :: rest) ≤ n) :
    Exprs n (Tree.sourceArguments (tree :: rest)) (tree :: rest) := by
  induction rest generalizing tree with
  | nil =>
    obtain ⟨htree, _⟩ := Nat.max_le.1 hdepth
    exact .one ((harguments tree (by simp)).expr htree)
  | cons next rest ih =>
    obtain ⟨htree, hrest⟩ := Nat.max_le.1 hdepth
    exact .cons ((harguments tree (by simp)).expr htree)
      (ih (fun argument hmem => harguments argument (by simp [hmem])) hrest)

theorem args_sourceArguments {arguments : List Tree}
    (harguments : ∀ argument ∈ arguments, argument.Readable (.operand .assignment false))
    (hdepth : Tree.depthArguments arguments ≤ n) : Args n (Tree.sourceArguments arguments) arguments := by
  cases arguments with
  | nil => exact .none
  | cons tree rest => exact .some (exprs_sourceArguments harguments hdepth)

theorem clause_sourceClause {value : Option Tree}
    (hvalue : ∀ tree ∈ value, tree.Readable (.operand .comma false))
    (hdepth : Tree.depthClause value ≤ n) : Clause n (Tree.sourceClause value) value := by
  cases value with
  | none => exact .none
  | some tree => exact .some ((hvalue tree rfl).expr hdepth)

theorem separated_paramsSource {param : Param} {rest : List Param}
    (hparams : (param :: rest).all Param.isExpressible = true) :
    Separated IsParam (paramsSource (param :: rest)) (param :: rest) := by
  induction rest generalizing param with
  | nil =>
    simp only [List.all_cons, List.all_nil, Bool.and_true, Param.isExpressible, Bool.and_eq_true] at hparams
    exact .one (.intro (TypeName.terminal_namesType hparams.1))
  | cons next rest ih =>
    rw [List.all_cons, Bool.and_eq_true] at hparams
    obtain ⟨hparam, hrest⟩ := hparams
    simp only [Param.isExpressible, Bool.and_eq_true] at hparam
    exact .cons (.intro (TypeName.terminal_namesType hparam.1)) (ih hrest)

theorem params_paramsSource {params : List Param} (hparams : params.all Param.isExpressible = true) :
    Params (paramsSource params) params := by
  cases params with
  | nil => exact .none
  | cons param rest => exact .some (separated_paramsSource hparams)

theorem returns_returnsSource {type : TypeName} (htype : type.isExpressible = true) :
    Returns (returnsSource type) type := by
  by_cases hvoid : type = .void
  · subst hvoid
    exact .nothing
  · rw [returnsSource, if_neg hvoid]
    exact .type (TypeName.terminal_namesType htype)

end

theorem readable_unsafeBlock {role : Role} {body : List Tree}
    (hbody : ∀ tree ∈ body, tree.Readable .statement) :
    (Tree.unsafeBlock body).Readable role := by
  intro n hdepth
  refine Role.reads_write_same (by decide) rfl (head?_ne_println nofun) (fun m hm => ?_) hdepth
  exact .primary (.unsafeBlock (stmts_sourceAll hbody hm))

theorem readable_call {role : Role} {callee : String} {arguments : List Tree}
    (harguments : ∀ argument ∈ arguments, argument.Readable (.operand .assignment false)) :
    (Tree.call callee arguments).Readable role := by
  intro n hdepth
  refine Role.reads_write_same (by decide) rfl (head?_ne_println nofun) (fun m hm => ?_) hdepth
  exact .call .name (args_sourceArguments harguments hm)

/-! ### Statements -/

section

theorem readable_block {body : List Tree} (hbody : ∀ tree ∈ body, tree.Readable .statement) :
    (Tree.block body).Readable .statement := by
  intro n hdepth
  obtain ⟨m, rfl, hroom⟩ := exists_room hdepth
  exact .block (stmts_sourceAll hbody hroom)

theorem readable_functionDef {name : String} {returnType : TypeName} {params : List Param}
    {body : List Tree} (htype : returnType.isExpressible = true)
    (hparams : params.all Param.isExpressible = true)
    (hbody : ∀ tree ∈ body, tree.Readable .statement) :
    (Tree.functionDef name returnType params body).Readable .statement := by
  intro n hdepth
  obtain ⟨m, rfl, hroom⟩ := exists_room hdepth
  have hstmts := stmts_sourceAll hbody hroom
  exact .functionDef (params_paramsSource hparams) (returns_returnsSource htype) hstmts

theorem readable_returnStmt {value : Option Tree}
    (hvalue : ∀ tree ∈ value, tree.Readable (.operand .comma false)) :
    (Tree.returnStmt value).Readable .statement := by
  intro n hdepth
  obtain ⟨m, rfl, hroom⟩ := exists_room hdepth
  exact .returnStmt (clause_sourceClause hvalue hroom)

theorem readable_declaration {type : TypeName} {name : String} (htype : type.isExpressible = true) :
    (Tree.varDecl type name none).Readable .statement := by
  intro n hdepth
  obtain ⟨m, rfl, _⟩ := exists_room hdepth
  exact .declaration (TypeName.terminal_namesType htype)

theorem readable_initialized {type : TypeName} {name : String} {value : Tree}
    (htype : type.isExpressible = true) (hvalue : value.Readable (.operand .assignment false)) :
    (Tree.varDecl type name (some value)).Readable .statement := by
  intro n hdepth
  obtain ⟨m, rfl, hroom⟩ := exists_room hdepth
  exact .initialized (TypeName.terminal_namesType htype) (hvalue.expr hroom)

variable {condition consequent alternative body : Tree}

theorem readable_ifThen (hcondition : condition.Readable (.operand .comma false))
    (hconsequent : consequent.Readable .statement) :
    (Tree.ifElse condition consequent none).Readable .statement := by
  intro n hdepth
  obtain ⟨m, rfl, hroom⟩ := exists_room hdepth
  obtain ⟨hmcondition, hmconsequent⟩ := Nat.max_le.1 hroom
  exact .ifThen (hcondition.expr hmcondition) (hconsequent.stmt hmconsequent)

theorem readable_ifElse (hcondition : condition.Readable (.operand .comma false))
    (hconsequent : consequent.Readable .statement) (hclosed : consequent.endsOpen = false)
    (halternative : alternative.Readable .statement) :
    (Tree.ifElse condition consequent (some alternative)).Readable .statement := by
  intro n hdepth
  obtain ⟨m, rfl, hroom⟩ := exists_room hdepth
  obtain ⟨hmcondition, hmbranches⟩ := Nat.max_le.1 hroom
  obtain ⟨hmconsequent, hmalternative⟩ := Nat.max_le.1 hmbranches
  have hstmt := hconsequent.stmt hmconsequent
  rw [hclosed] at hstmt
  exact .ifElse (hcondition.expr hmcondition) hstmt (halternative.stmt hmalternative)

theorem readable_whileLoop (hcondition : condition.Readable (.operand .comma false))
    (hbody : body.Readable .statement) :
    (Tree.whileLoop condition body).Readable .statement := by
  intro n hdepth
  obtain ⟨m, rfl, hroom⟩ := exists_room hdepth
  obtain ⟨hmcondition, hmbody⟩ := Nat.max_le.1 hroom
  exact .whileLoop (hcondition.expr hmcondition) (hbody.stmt hmbody)

theorem readable_forLoop {start condition step : Option Tree}
    (hstart : ∀ tree ∈ start, tree.Readable (.operand .comma false))
    (hcondition : ∀ tree ∈ condition, tree.Readable (.operand .comma false))
    (hstep : ∀ tree ∈ step, tree.Readable (.operand .comma false))
    (hbody : body.Readable .statement) :
    (Tree.forLoop start condition step body).Readable .statement := by
  intro n hdepth
  obtain ⟨m, rfl, hroom⟩ := exists_room hdepth
  obtain ⟨hmfirst, hmlast⟩ := Nat.max_le.1 hroom
  obtain ⟨hmstart, hmcondition⟩ := Nat.max_le.1 hmfirst
  obtain ⟨hmstep, hmbody⟩ := Nat.max_le.1 hmlast
  exact .forLoop (clause_sourceClause hstart hmstart) (clause_sourceClause hcondition hmcondition)
    (clause_sourceClause hstep hmstep) (hbody.stmt hmbody)

end

/-! ### All trees -/

mutual

/-- Every tree that can be written is read, as it is written, as itself. -/
theorem Tree.readable :
    ∀ (tree : Tree), tree.isExpressible = true → ∀ role : Role, role.accepts tree = true → tree.Readable role
  | .literal value, hok, role, _ => readable_literal hok
  | .identifier name, _, role, _ => readable_identifier
  | .binary op left right, hok, role, _ => by
    simp only [Tree.isExpressible, Bool.and_eq_true] at hok
    obtain ⟨⟨hleft, hleft'⟩, hright, hright'⟩ := hok
    exact readable_binary (fun leading => left.readable hleft' _ hleft) (right.readable hright' _ hright)
  | .unary op operand, hok, role, _ => by
    simp only [Tree.isExpressible, Bool.and_eq_true] at hok
    exact readable_unary (fun leading => operand.readable hok.2 _ hok.1) (operand.readable hok.2 _ hok.1)
  | .assign op target value, hok, role, _ => by
    simp only [Tree.isExpressible, Bool.and_eq_true] at hok
    exact readable_assign (value.readable hok.2.2 _ hok.2.1)
  | .ternary condition consequent alternative, hok, role, _ => by
    simp only [Tree.isExpressible, Bool.and_eq_true] at hok
    obtain ⟨⟨⟨hcondition, hcondition'⟩, hconsequent, hconsequent'⟩, halternative, halternative'⟩ := hok
    exact readable_ternary (fun leading => condition.readable hcondition' _ hcondition)
      (consequent.readable hconsequent' _ hconsequent) (alternative.readable halternative' _ halternative)
  | .builtin function argument, hok, role, _ => by
    simp only [Tree.isExpressible, Bool.and_eq_true] at hok
    exact readable_builtin (argument.readable hok.2 _ hok.1)
  | .sizeOf type, hok, role, _ => readable_sizeOf hok
  | .unsafeBlock body, hok, role, _ => readable_unsafeBlock (readable_statements body hok)
  | .cast type operand, hok, role, _ => by
    simp only [Tree.isExpressible, Bool.and_eq_true] at hok
    exact readable_cast hok.1 (operand.readable hok.2.2 _ hok.2.1)
  | .call callee arguments, hok, role, _ => by
    simp only [Tree.isExpressible, Bool.and_eq_true] at hok
    exact readable_call (readable_arguments arguments hok.2)
  | .block body, hok, .statement, _ => readable_block (readable_statements body hok)
  | .functionDef name returnType params body, hok, .statement, _ => by
    simp only [Tree.isExpressible, Bool.and_eq_true] at hok
    obtain ⟨⟨⟨_, htype⟩, hparams⟩, hbody⟩ := hok
    exact readable_functionDef htype hparams (readable_statements body hbody)
  | .returnStmt value, hok, .statement, _ => readable_returnStmt (readable_clause value hok)
  | .varDecl type name none, hok, .statement, _ => by
    simp only [Tree.isExpressible, Bool.and_eq_true] at hok
    exact readable_declaration hok.1.1
  | .varDecl type name (some value), hok, .statement, _ => by
    simp only [Tree.isExpressible, Tree.clauseExpressible, Bool.and_eq_true] at hok
    obtain ⟨⟨htype, _⟩, hvalue, hvalue'⟩ := hok
    exact readable_initialized htype (value.readable hvalue' _ hvalue)
  | .ifElse condition consequent none, hok, .statement, _ => by
    simp only [Tree.isExpressible, Bool.and_eq_true] at hok
    obtain ⟨⟨hcondition, hcondition'⟩, hconsequent⟩ := hok
    exact readable_ifThen (condition.readable hcondition' _ hcondition)
      (consequent.readable hconsequent _ rfl)
  | .ifElse condition consequent (some alternative), hok, .statement, _ => by
    simp only [Tree.isExpressible, Bool.and_eq_true, Bool.not_eq_true'] at hok
    obtain ⟨⟨⟨⟨hcondition, hcondition'⟩, hconsequent⟩, hclosed⟩, halternative⟩ := hok
    exact readable_ifElse (condition.readable hcondition' _ hcondition)
      (consequent.readable hconsequent _ rfl) hclosed (alternative.readable halternative _ rfl)
  | .whileLoop condition body, hok, .statement, _ => by
    simp only [Tree.isExpressible, Bool.and_eq_true] at hok
    obtain ⟨⟨hcondition, hcondition'⟩, hbody⟩ := hok
    exact readable_whileLoop (condition.readable hcondition' _ hcondition) (body.readable hbody _ rfl)
  | .forLoop start condition step body, hok, .statement, _ => by
    simp only [Tree.isExpressible, Bool.and_eq_true] at hok
    obtain ⟨⟨⟨hstart, hcondition⟩, hstep⟩, hbody⟩ := hok
    exact readable_forLoop (readable_clause start hstart) (readable_clause condition hcondition)
      (readable_clause step hstep) (body.readable hbody _ rfl)

theorem readable_statements :
    ∀ (body : List Tree), Tree.allExpressible body = true → ∀ tree ∈ body, tree.Readable .statement
  | [], _, _, hmem => nomatch hmem
  | first :: rest, hok, tree, hmem => by
    simp only [Tree.allExpressible, Bool.and_eq_true] at hok
    obtain heq | hmem := List.mem_cons.1 hmem
    · rw [heq]
      exact first.readable hok.1 _ rfl
    · exact readable_statements rest hok.2 tree hmem

theorem readable_arguments : ∀ (arguments : List Tree), Tree.argumentsExpressible arguments = true →
    ∀ tree ∈ arguments, tree.Readable (.operand .assignment false)
  | [], _, _, hmem => nomatch hmem
  | first :: rest, hok, tree, hmem => by
    simp only [Tree.argumentsExpressible, Bool.and_eq_true] at hok
    obtain heq | hmem := List.mem_cons.1 hmem
    · rw [heq]
      exact first.readable hok.1.2 _ hok.1.1
    · exact readable_arguments rest hok.2 tree hmem

theorem readable_clause : ∀ (value : Option Tree), Tree.clauseExpressible value = true →
    ∀ tree ∈ value, tree.Readable (.operand .comma false)
  | none, _, _, hmem => nomatch hmem
  | some value, hok, tree, hmem => by
    simp only [Tree.clauseExpressible, Bool.and_eq_true] at hok
    rw [← Option.some.inj hmem]
    exact value.readable hok.2 _ hok.1

end

end ObsidianSyntax
