import ObsidianSyntax.Proofs.Print.Derivation
import ObsidianSyntax.Proofs.Print.Spacing
import ObsidianSyntax.Source

/-!
# Parsing undoes writing

The text of a program is read as the terminals it was made of, for every one of them is spelled as
it is read. These are the statements of the program, as deep as the program nests. So parsing the
text gives the program back, unless it nests too deep, and then it is refused for that alone.
-/

namespace ObsidianSyntax

/-! ### Spellings -/

theorem spells_reserved {text : String} {kind : Kind} (hword : isWord text.toList = true)
    (hkind : Kind.ofReserved? text = some kind) : Spells text.toList kind := by
  apply Spells.reserved (isWord_spec hword)
  rw [String.ofList_toList]
  exact Kind.mem_reservedWords_iff.2 hkind

theorem spells_name {text : String} (hname : isName text = true) : Spells text.toList .identifier := by
  simp only [isName, Bool.and_eq_true, Option.isNone_iff_eq_none] at hname
  apply Spells.identifier (isWord_spec hname.1)
  rw [String.ofList_toList]
  exact Kind.not_mem_reservedWords_iff.2 hname.2

theorem Terminal.spelled_mark (mark : Mark) : (Terminal.mark mark).Spelled := ⟨.mark mark, fun _ => rfl⟩

theorem Terminal.spelled_keyword (word : Keyword) : (Terminal.keyword word).Spelled := by
  refine ⟨?_, fun _ => rfl⟩
  apply spells_reserved
  · cases word <;> decide
  · cases word <;> rfl

theorem Terminal.spelled_name {text : String} (hname : isName text = true) : (Terminal.name text).Spelled :=
  ⟨spells_name hname, nofun⟩

theorem TypeName.spelled_terminal {type : TypeName} (htype : type.isExpressible = true) :
    type.terminal.Spelled := by
  obtain ⟨primitive, htext, hkind⟩ | ⟨hname, hkind⟩ := isExpressible_cases htype
  · have hword : isWord type.text.toList = true := by
      rw [htext]
      cases primitive <;> decide
    rw [terminal, hkind]
    exact ⟨spells_reserved hword hkind, by rintro ⟨⟩⟩
  · rw [terminal, hkind]
    exact ⟨spells_name hname, by rintro ⟨⟩⟩

theorem Literal.spelled_terminal {value : Literal} : value.terminal.Spelled := by
  cases value with
  | int value =>
    refine ⟨?_, by rintro ⟨⟩⟩
    rw [terminal, Terminal.spelling, String.toList_ofList]
    exact .int (isDigits_toDigits value.toNat)
  | float value =>
    refine ⟨?_, by rintro ⟨⟩⟩
    rw [terminal, Terminal.spelling, String.toList_ofList]
    exact .float (isDigits_toDigits _) value.isDigits_placeDigits
  | bool value => exact Terminal.spelled_keyword _
  | char value =>
    refine ⟨?_, by rintro ⟨⟩⟩
    rw [terminal, Terminal.spelling, quotedSource, String.toList_ofList, List.flatMap_singleton]
    exact .char (item_escaped (.inr rfl) value)
  | string value =>
    refine ⟨?_, by rintro ⟨⟩⟩
    rw [terminal, Terminal.spelling, quotedSource, String.toList_ofList]
    exact .string (items_escaped value.toList)

/-- Each of the terminals is the one that its spelling is read as. -/
def AllSpelled (ts : List Terminal) : Prop := ∀ t ∈ ts, t.Spelled

section

variable {t : Terminal} {ts us : List Terminal}

@[simp] theorem allSpelled_nil : AllSpelled [] := nofun

@[simp] theorem allSpelled_cons : AllSpelled (t :: ts) ↔ t.Spelled ∧ AllSpelled ts := List.forall_mem_cons

@[simp] theorem allSpelled_append : AllSpelled (ts ++ us) ↔ AllSpelled ts ∧ AllSpelled us :=
  List.forall_mem_append

attribute [simp] Terminal.spelled_mark Terminal.spelled_keyword

@[simp] theorem allSpelled_inParens : AllSpelled (inParens ts) ↔ AllSpelled ts := by
  simp [inParens]

@[simp] theorem allSpelled_inBraces : AllSpelled (inBraces ts) ↔ AllSpelled ts := by
  simp [inBraces]

end

theorem Role.allSpelled_write {role : Role} {level : Precedence} {bare : Bool → List Terminal}
    (hbare : ∀ leading, AllSpelled (bare leading)) : AllSpelled (role.write level bare) := by
  cases role with
  | statement => simp [write, hbare]
  | operand outer leading =>
    rw [write]
    split <;> simp [hbare]

theorem Role.allSpelled_writeBuiltin {role : Role} {function : Builtin} {argument : List Terminal}
    (hargument : AllSpelled argument) : AllSpelled (role.writeBuiltin function argument) := by
  cases role with
  | statement => simp [writeBuiltin, hargument]
  | operand outer leading =>
    simp only [writeBuiltin]
    split <;> simp [hargument]

theorem allSpelled_paramsSource {params : List Param} (hparams : params.all Param.isExpressible = true) :
    AllSpelled (paramsSource params) := by
  induction params with
  | nil => exact allSpelled_nil
  | cons param rest ih =>
    rw [List.all_cons, Bool.and_eq_true] at hparams
    obtain ⟨hparam, hrest⟩ := hparams
    simp only [Param.isExpressible, Bool.and_eq_true] at hparam
    have htype := TypeName.spelled_terminal hparam.1
    have hname := Terminal.spelled_name hparam.2
    cases rest with
    | nil => simp [paramsSource, htype, hname]
    | cons next rest => simp [paramsSource, htype, hname, ih hrest]

theorem allSpelled_returnsSource {type : TypeName} (htype : type.isExpressible = true) :
    AllSpelled (returnsSource type) := by
  rw [returnsSource]
  split <;> simp [TypeName.spelled_terminal htype]

mutual

/-- Every terminal of a tree that can be written is the one that its spelling is read as. -/
theorem Tree.allSpelled_source :
    ∀ (tree : Tree), tree.isExpressible = true → ∀ role, AllSpelled (tree.source role)
  | .literal value, _, role => Role.allSpelled_write fun _ => by simp [Literal.spelled_terminal]
  | .identifier name, hok, role => Role.allSpelled_write fun _ => by simp [Terminal.spelled_name hok]
  | .binary op left right, hok, role => by
    simp only [Tree.isExpressible, Bool.and_eq_true] at hok
    have hleft := left.allSpelled_source hok.1.2
    have hright := right.allSpelled_source hok.2.2
    exact Role.allSpelled_write fun leading => by simp [hleft, hright]
  | .unary op operand, hok, role => by
    simp only [Tree.isExpressible, Bool.and_eq_true] at hok
    have hoperand := operand.allSpelled_source hok.2
    rw [Tree.source]
    split
    · exact Role.allSpelled_write fun leading => by simp [hoperand]
    · exact Role.allSpelled_write fun leading => by simp [hoperand]
  | .assign op target value, hok, role => by
    simp only [Tree.isExpressible, Bool.and_eq_true] at hok
    have hvalue := value.allSpelled_source hok.2.2
    exact Role.allSpelled_write fun leading => by simp [Terminal.spelled_name hok.1, hvalue]
  | .ternary condition consequent alternative, hok, role => by
    simp only [Tree.isExpressible, Bool.and_eq_true] at hok
    obtain ⟨⟨⟨_, hcondition⟩, _, hconsequent⟩, _, halternative⟩ := hok
    have hcondition' := condition.allSpelled_source hcondition
    have hconsequent' := consequent.allSpelled_source hconsequent
    have halternative' := alternative.allSpelled_source halternative
    exact Role.allSpelled_write fun leading => by simp [hcondition', hconsequent', halternative']
  | .builtin function argument, hok, role => by
    simp only [Tree.isExpressible, Bool.and_eq_true] at hok
    exact Role.allSpelled_writeBuiltin (argument.allSpelled_source hok.2 _)
  | .sizeOf type, hok, role => Role.allSpelled_write fun _ => by simp [TypeName.spelled_terminal hok]
  | .unsafeBlock body, hok, role => by
    have hbody := allSpelled_sourceAll body hok
    exact Role.allSpelled_write fun leading => by simp [hbody]
  | .cast type operand, hok, role => by
    simp only [Tree.isExpressible, Bool.and_eq_true] at hok
    have hoperand := operand.allSpelled_source hok.2.2
    exact Role.allSpelled_write fun leading => by simp [TypeName.spelled_terminal hok.1, hoperand]
  | .call callee arguments, hok, role => by
    simp only [Tree.isExpressible, Bool.and_eq_true] at hok
    have harguments := allSpelled_sourceArguments arguments hok.2
    exact Role.allSpelled_write fun leading => by simp [Terminal.spelled_name hok.1, harguments]
  | .block body, hok, role => by
    have hbody := allSpelled_sourceAll body hok
    simp [Tree.source, hbody]
  | .functionDef name returnType params body, hok, role => by
    simp only [Tree.isExpressible, Bool.and_eq_true] at hok
    obtain ⟨⟨⟨hname, htype⟩, hparams⟩, hbody⟩ := hok
    have hbody' := allSpelled_sourceAll body hbody
    simp [Tree.source, Terminal.spelled_name hname, allSpelled_paramsSource hparams,
      allSpelled_returnsSource htype, hbody']
  | .returnStmt value, hok, role => by
    have hvalue := allSpelled_sourceClause value hok
    simp [Tree.source, hvalue]
  | .varDecl type name none, hok, role => by
    simp only [Tree.isExpressible, Bool.and_eq_true] at hok
    simp [Tree.source, TypeName.spelled_terminal hok.1.1, Terminal.spelled_name hok.1.2]
  | .varDecl type name (some value), hok, role => by
    simp only [Tree.isExpressible, Tree.clauseExpressible, Bool.and_eq_true] at hok
    obtain ⟨⟨htype, hname⟩, _, hvalue⟩ := hok
    have hvalue' := value.allSpelled_source hvalue
    simp [Tree.source, TypeName.spelled_terminal htype, Terminal.spelled_name hname, hvalue']
  | .ifElse condition consequent none, hok, role => by
    simp only [Tree.isExpressible, Bool.and_eq_true] at hok
    have hcondition := condition.allSpelled_source hok.1.2
    have hconsequent := consequent.allSpelled_source hok.2
    simp [Tree.source, hcondition, hconsequent]
  | .ifElse condition consequent (some alternative), hok, role => by
    simp only [Tree.isExpressible, Bool.and_eq_true] at hok
    obtain ⟨⟨⟨⟨_, hcondition⟩, hconsequent⟩, _⟩, halternative⟩ := hok
    have hcondition' := condition.allSpelled_source hcondition
    have hconsequent' := consequent.allSpelled_source hconsequent
    have halternative' := alternative.allSpelled_source halternative
    simp [Tree.source, hcondition', hconsequent', halternative']
  | .whileLoop condition body, hok, role => by
    simp only [Tree.isExpressible, Bool.and_eq_true] at hok
    have hcondition := condition.allSpelled_source hok.1.2
    have hbody := body.allSpelled_source hok.2
    simp [Tree.source, hcondition, hbody]
  | .forLoop start condition step body, hok, role => by
    simp only [Tree.isExpressible, Bool.and_eq_true] at hok
    obtain ⟨⟨⟨hstart, hcondition⟩, hstep⟩, hbody⟩ := hok
    have hstart' := allSpelled_sourceClause start hstart
    have hcondition' := allSpelled_sourceClause condition hcondition
    have hstep' := allSpelled_sourceClause step hstep
    have hbody' := body.allSpelled_source hbody
    simp [Tree.source, hstart', hcondition', hstep', hbody']

theorem allSpelled_sourceAll :
    ∀ (body : List Tree), Tree.allExpressible body = true → AllSpelled (Tree.sourceAll body)
  | [], _ => allSpelled_nil
  | tree :: rest, hok => by
    simp only [Tree.allExpressible, Bool.and_eq_true] at hok
    have htree := tree.allSpelled_source hok.1
    have hrest := allSpelled_sourceAll rest hok.2
    simp [Tree.sourceAll, htree, hrest]

theorem allSpelled_sourceArguments : ∀ (arguments : List Tree), Tree.argumentsExpressible arguments = true →
    AllSpelled (Tree.sourceArguments arguments)
  | [], _ => allSpelled_nil
  | [tree], hok => by
    simp only [Tree.argumentsExpressible, Bool.and_eq_true] at hok
    exact tree.allSpelled_source hok.1.2 _
  | tree :: next :: rest, hok => by
    rw [Tree.argumentsExpressible] at hok
    simp only [Bool.and_eq_true] at hok
    have htree := tree.allSpelled_source hok.1.2
    have hrest := allSpelled_sourceArguments (next :: rest) hok.2
    simp [Tree.sourceArguments, htree, hrest]

theorem allSpelled_sourceClause : ∀ (value : Option Tree), Tree.clauseExpressible value = true →
    AllSpelled (Tree.sourceClause value)
  | none, _ => allSpelled_nil
  | some tree, hok => by
    simp only [Tree.clauseExpressible, Bool.and_eq_true] at hok
    exact tree.allSpelled_source hok.2 _

end

/-! ### Programs -/

/-- Parsing the text of a program gives the program back. Every program that can be written is
parsed into itself or refused for its depth, and one that nests at most `maxDepth` levels as it is
written is never refused. -/
theorem parseSource_render (tree : Tree) (hprogram : tree.isProgram = true) :
    (tree.programDepth ≤ maxDepth → parseSource tree.render = .ok tree) ∧
    (parseSource tree.render = .ok tree ∨
      ∃ fault : Fault, fault.IsTooDeep maxDepth ∧ parseSource tree.render = .error fault.report) := by
  obtain ⟨body, rfl⟩ : ∃ body, tree = .block body := by
    cases tree <;> first | exact ⟨_, rfl⟩ | cases hprogram
  have hreadable := readable_statements body hprogram
  obtain ⟨tokens, htokens, hterminals⟩ := tokenize_spaced (allSpelled_sourceAll body hprogram)
  have hparse : parseSource (Tree.render (.block body)) = parseTokens tokens := by
    have hok : tokenize (Tree.render (.block body)) = .ok tokens := htokens
    rw [parseSource, hok]
    rfl
  rw [hparse]
  refine ⟨fun hdepth => ?_, ?_⟩
  · have hstmts := stmts_sourceAll hreadable hdepth
    rw [← hterminals] at hstmts
    exact parseTokens_eq_ok_iff.2 ⟨body, hstmts, rfl⟩
  · have hstmts := stmts_sourceAll hreadable (Nat.le_refl _)
    rw [← hterminals] at hstmts
    exact parseTokens_of_stmts hstmts

theorem parseSource_render_leadingPrintln :
    Tree.isProgram (.block [.binary .add (.builtin .println (.identifier "x"))
      (.unary .negate (.binary .power (.identifier "x") (.literal (.int 2))))]) = true ∧
    parseSource "( println ( x ) ) + - ( x ** 2 ) ;" =
      .ok (.block [.binary .add (.builtin .println (.identifier "x"))
      (.unary .negate (.binary .power (.identifier "x") (.literal (.int 2))))]) := by
  have htext : Tree.render (.block [.binary .add (.builtin .println (.identifier "x"))
      (.unary .negate (.binary .power (.identifier "x") (.literal (.int 2))))]) =
      "( println ( x ) ) + - ( x ** 2 ) ;" := by
    decide
  rw [← htext]
  exact ⟨by decide, (parseSource_render _ (by decide)).1 (by decide)⟩

end ObsidianSyntax
