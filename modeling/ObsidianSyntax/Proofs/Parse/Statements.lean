import ObsidianSyntax.Proofs.Parse.Climbing

/-!
# The statements that the parser reads

Each statement is told by its first token, or by its first two when it starts with a name. With
parsers for what is nested that follow the grammar, the parser of statements follows it one level
deeper, and so does the parser of programs.
-/

namespace ObsidianSyntax

open Grammar

namespace Parse

variable {inner : Nested} {n : Nat}

/-! ### Parameters and clauses -/

theorem param_accepts : param.Accepts fun ts param _ => IsParam ts param ∧ True := by
  have hbody := Accepts.typeName.bind fun type =>
    (@Accepts.expectName .paramName rfl).bind fun name => Accepts.pure (Param.mk type name)
  refine Accepts.congr hbody fun ts param next => ?_
  refine ⟨fun h => ?_, fun h => ?_⟩
  · obtain ⟨_, type, _, rfl, ⟨terminal, rfl, htype⟩, _, name, _, rfl, rfl, rfl, rfl⟩ := h
    exact ⟨.intro htype, trivial⟩
  · obtain ⟨⟨htype⟩, _⟩ := h
    exact ⟨[_], _, _, rfl, ⟨_, rfl, htype⟩, _, _, [], rfl, rfl, rfl, rfl⟩

theorem following_params_ne {ts : List Terminal} {params : List Param} {next : Kind}
    (hparams : Separated IsParam ts params) :
    following ts next ≠ .mark .rightParen := by
  have hparam : ∀ {ts : List Terminal} {param : Param} {next : Kind}, IsParam ts param →
      following ts next ≠ .mark .rightParen := by
    rintro _ _ _ ⟨htype⟩ hfollowing
    have hends := NamesType.endsStatements htype
    obtain ⟨htype | hname, _⟩ := htype
    · rw [following_cons] at hfollowing
      rw [hfollowing] at htype
      cases htype
    · rw [following_cons, hname] at hfollowing
      cases hfollowing
  cases hparams with
  | one hitem => exact hparam hitem
  | cons hitem _ =>
    rw [following_append]
    exact hparam hitem

theorem params_accepts :
    (listItems param).Accepts fun ts params next => (ts = [] ∧ params = [] ∧ next = .mark .rightParen) ∨
      Separated IsParam ts params ∧ True ∧ next ≠ .mark .comma ∧ following ts next ≠ .mark .rightParen := by
  have hconsumes : param.Consumes := by
    refine param_accepts.consumes fun ts param next hparam => ?_
    obtain ⟨⟨_⟩, _⟩ := hparam
    simp
  exact Accepts.listItems hconsumes param_accepts trivial

theorem params_iff {ts : List Terminal} {params : List Param} :
    ((ts = [] ∧ params = [] ∧ Kind.mark .rightParen = .mark .rightParen) ∨
      Separated IsParam ts params ∧ True ∧
      Kind.mark .rightParen ≠ .mark .comma ∧ following ts (.mark .rightParen) ≠ .mark .rightParen) ↔
        Params ts params := by
  refine ⟨fun h => ?_, fun hparams => ?_⟩
  · obtain ⟨rfl, rfl, _⟩ | ⟨hseparated, _⟩ := h
    · exact .none
    · exact .some hseparated
  · cases hparams with
    | none => exact .inl ⟨rfl, rfl, rfl⟩
    | some hseparated => exact .inr ⟨hseparated, trivial, by simp, following_params_ne hseparated⟩

theorem returns_iff {ts : List Terminal} {type : TypeName} :
    (∃ found, Language.after (.mark .arrow) (fun ts type _ =>
      ∃ terminal, ts = [terminal] ∧ terminal.NamesType type)
      ts found (.mark .leftBrace) ∧ found.getD .void = type) ↔ Returns ts type := by
  refine ⟨fun h => ?_, fun hreturns => ?_⟩
  · obtain ⟨_, ⟨rfl, rfl, _⟩ | ⟨type, rfl, _, rfl, terminal, rfl, htype⟩, rfl⟩ := h
    · exact .nothing
    · exact .type htype
  · cases hreturns with
    | nothing => exact ⟨none, .inl ⟨rfl, rfl, by simp⟩, rfl⟩
    | type htype => exact ⟨some type, .inr ⟨type, rfl, _, rfl, _, rfl, htype⟩, rfl⟩

/-- An expression that may be missing, before the token that shows that it is. -/
theorem clause_iff {refused : Kind} (hstart : startsExpression refused = false)
    (hlowest : refused.precedence = .lowest) {ts : List Terminal} {value : Option Tree} :
    Language.unless refused (fun ts tree next => Expr n Precedence.lowest.tighter ts tree ∧
      next.precedence ≤ .lowest)
      ts value refused ↔ Clause n ts value := by
  refine ⟨fun h => ?_, fun hclause => ?_⟩
  · obtain ⟨rfl, rfl, _⟩ | ⟨tree, rfl, ⟨hexpr, _⟩, _⟩ := h
    · exact .none
    · exact .some hexpr
  · cases hclause with
    | none => exact .inl ⟨rfl, rfl, rfl⟩
    | some hexpr =>
      exact .inr ⟨_, rfl, ⟨hexpr, by rw [hlowest]; exact Nat.le_refl 0⟩, hexpr.starts.following_ne hstart⟩

/-! ### Statements by their first word -/

theorem functionDef_accepts (hinner : inner.Follows n) :
    (functionDef inner).AcceptsAt (.keyword .fnWord) fun ts tree _ =>
      ∃ name ps params rs type us body, ts = .keyword .fnWord :: .name name :: .mark .leftParen :: (ps ++
          .mark .rightParen :: (rs ++ .mark .leftBrace :: (us ++ [.mark .rightBrace]))) ∧
        Params ps params ∧ Returns rs type ∧ Stmts n us body ∧ tree = .functionDef name type params body := by
  have hreturns := @Accepts.ifNext _ _ _ Accepts.typeName (.mark .arrow) rfl (by decide)
  have hbody := (@Accepts.expectName .functionName rfl).bind fun name =>
    (@Accepts.expect .openParams rfl (by decide)).bind fun _ =>
    params_accepts.bind fun params =>
    (@Accepts.expect .closeParams rfl (by decide)).bind fun _ =>
    hreturns.bind fun returnType =>
    (blockBody_accepts hinner).bind fun body =>
      Accepts.pure (Tree.functionDef name (returnType.getD .void) params body)
  refine (AcceptsAt.skip hbody rfl (by decide)).congr fun ts tree next _ => ?_
  simp only [Language.behind, Language.andThen_expected, Language.andThen_behind]
  refine ⟨fun h => ?_, fun h => ?_⟩
  · obtain ⟨_, rfl, _, name, _, rfl, rfl, ps, params, _, rfl, hparams, rs, found, _, rfl, hreturns,
      _, body, _, rfl, ⟨us, rfl, hbody⟩, rfl, rfl⟩ := h
    refine ⟨name, ps, params, rs, _, us, body, ?_, params_iff.1 hparams,
      returns_iff.1 ⟨found, hreturns, rfl⟩, hbody, rfl⟩
    simp only [List.append_nil]
    rfl
  · obtain ⟨name, ps, params, rs, type, us, body, rfl, hparams, hreturns, hbody, rfl⟩ := h
    obtain ⟨found, hfound, rfl⟩ := returns_iff.2 hreturns
    exact ⟨_, rfl, [.name name], name, _, rfl, rfl, ps, params, _, rfl, params_iff.2 hparams, rs,
      found, _, rfl, hfound, _, body, [], (List.append_nil _).symm, ⟨us, rfl, hbody⟩, rfl, rfl⟩

theorem varDecl_accepts (hinner : inner.Follows n) :
    (varDecl inner).Accepts fun ts tree _ => ∃ terminal type name, terminal.NamesType type ∧
      (ts = [terminal, .name name, .mark .semicolon] ∧ tree = .varDecl type name none ∨
        ∃ us value, ts = terminal :: .name name :: .mark .equal :: (us ++ [.mark .semicolon]) ∧
          Expr n .assignment us value ∧ tree = .varDecl type name (some value)) := by
  have hvalue := @Accepts.ifNext _ _ _ (hinner.expr .comma (by decide)) (.mark .equal) rfl (by decide)
  have hbody := Accepts.typeName.bind fun type =>
    (@Accepts.expectName .variableName rfl).bind fun name => hvalue.bind fun value =>
    (@Accepts.expect .endDeclaration rfl (by decide)).bind fun _ =>
      Accepts.pure (Tree.varDecl type name value)
  refine Accepts.congr hbody fun ts tree next => ?_
  simp only [Language.andThen_expected]
  refine ⟨fun h => ?_, fun h => ?_⟩
  · obtain ⟨_, type, _, rfl, ⟨terminal, rfl, htype⟩, _, name, _, rfl, rfl, hvalue⟩ := h
    obtain ⟨us, _, _, rfl, ⟨rfl, rfl, _⟩ | ⟨value, rfl, _, rfl, hexpr, _⟩, rfl, rfl⟩ :=
      Language.andThen_behind.1 hvalue
    · exact ⟨terminal, type, name, htype, .inl ⟨rfl, rfl⟩⟩
    · exact ⟨terminal, type, name, htype, .inr ⟨_, value, rfl, hexpr, rfl⟩⟩
  · obtain ⟨terminal, type, name, htype, ⟨rfl, rfl⟩ | ⟨us, value, rfl, hexpr, rfl⟩⟩ := h
    · refine ⟨[terminal], type, _, rfl, ⟨_, rfl, htype⟩, [.name name], name, _, rfl, rfl,
        Language.andThen_behind.2 ?_⟩
      exact ⟨[], none, [], rfl, .inl ⟨rfl, rfl, by decide⟩, rfl, rfl⟩
    · refine ⟨[terminal], type, _, rfl, ⟨_, rfl, htype⟩, [.name name], name, _, rfl, rfl,
        Language.andThen_behind.2 ?_⟩
      exact ⟨.mark .equal :: us, some value, [], rfl, .inr ⟨value, rfl, us, rfl, hexpr, by decide⟩, rfl, rfl⟩

theorem condition_accepts (hinner : inner.Follows n) (word : Keyword) :
    (condition inner word).AcceptsAt (.keyword word) fun ts tree _ =>
      ∃ us, ts = .keyword word :: .mark .leftParen :: (us ++ [.mark .rightParen]) ∧
        Expr n .comma us tree := by
  have hbody := (@Accepts.expect (.openAfter word) rfl (by simp [Expectation.kind])).bind fun _ =>
    (hinner.expr .lowest (by decide)).bind fun condition =>
    (@Accepts.expect (.closeCondition word) rfl (by simp [Expectation.kind])).bind fun _ =>
      Accepts.pure condition
  refine (AcceptsAt.skip hbody rfl (by simp)).congr fun ts tree next _ => ?_
  simp only [Language.behind, Language.andThen_expected, Language.andThen_behind]
  refine ⟨fun h => ?_, fun h => ?_⟩
  · obtain ⟨_, rfl, _, rfl, us, condition, _, rfl, ⟨hexpr, _⟩, rfl, rfl⟩ := h
    exact ⟨us, rfl, hexpr⟩
  · obtain ⟨us, rfl, hexpr⟩ := h
    exact ⟨_, rfl, _, rfl, us, tree, [], rfl, ⟨hexpr, Nat.le_refl 0⟩, rfl, rfl⟩

/-- What a parser of statements accepts: a statement, and no second branch behind it that it could take. -/
abbrev Statement (n : Nat) : Language Tree := fun ts tree next =>
  ∃ isOpen, Stmt n isOpen ts tree ∧ (isOpen = true → next ≠ .keyword .elseWord)

/-- A choice. With a second branch the first is not open, as it would have taken that branch. -/
theorem ifElse_accepts (hinner : inner.Follows n) :
    (ifElse inner).AcceptsAt (.keyword .ifWord) fun ts tree next => ∃ us vs condition consequent,
      Expr n .comma us condition ∧
        ((∃ isOpen, ts = .keyword .ifWord :: .mark .leftParen :: (us ++ .mark .rightParen :: vs) ∧
            Stmt n isOpen vs consequent ∧ next ≠ .keyword .elseWord ∧
              tree = .ifElse condition consequent none) ∨
          ∃ isOpen ws alternative, ts = .keyword .ifWord :: .mark .leftParen ::
            (us ++ .mark .rightParen :: (vs ++
              .keyword .elseWord :: ws)) ∧
            Stmt n false vs consequent ∧ Stmt n isOpen ws alternative ∧
            (isOpen = true → next ≠ .keyword .elseWord) ∧
            tree = .ifElse condition consequent (some alternative)) := by
  have helse := @Accepts.ifNext _ _ _ hinner.stmt (.keyword .elseWord) rfl (by decide)
  have hbody := (condition_accepts hinner .ifWord).bind fun condition =>
    hinner.stmt.bind fun consequent => helse.bind fun alternative =>
      Accepts.pure (Tree.ifElse condition consequent alternative)
  refine AcceptsAt.congr hbody fun ts tree next _ => ?_
  refine ⟨fun h => ?_, fun h => ?_⟩
  · obtain ⟨_, condition, _, rfl, ⟨us, rfl, hcondition⟩, vs, consequent, _, rfl,
        ⟨isOpen, hconsequent, hopen⟩, hrest⟩ := h
    obtain ⟨alternative, hafter, rfl⟩ := Language.andThen_pure.1 hrest
    refine ⟨us, vs, condition, consequent, hcondition, ?_⟩
    rcases hafter with ⟨rfl, rfl, hnext⟩ | ⟨alternative, rfl, ws, rfl, isOpen', halternative, hopen'⟩
    · exact .inl ⟨isOpen, by simp, hconsequent, hnext, rfl⟩
    · have hclosed : isOpen = false := by
        by_contra htrue
        exact hopen (by simpa using htrue) rfl
      exact .inr ⟨isOpen', ws, alternative, by simp [Terminal.keyword], hclosed ▸ hconsequent,
        halternative, hopen', rfl⟩
  · obtain ⟨us, vs, condition, consequent, hcondition, ⟨isOpen, rfl, hconsequent, hnext, rfl⟩ |
      ⟨isOpen, ws, alternative, rfl, hconsequent, halternative, hopen, rfl⟩⟩ := h
    · exact ⟨_, condition, vs, by simp, ⟨us, rfl, hcondition⟩, vs, consequent, [], (List.append_nil _).symm,
        ⟨isOpen, hconsequent, fun _ => hnext⟩, Language.andThen_pure.2 ⟨none, .inl ⟨rfl, rfl, hnext⟩, rfl⟩⟩
    · exact ⟨_, condition, vs ++ .keyword .elseWord :: ws, by simp, ⟨us, rfl, hcondition⟩, vs,
        consequent, _, rfl, ⟨false, hconsequent, by simp⟩,
        Language.andThen_pure.2 ⟨some alternative,
        .inr ⟨alternative, rfl, ws, rfl, isOpen, halternative, hopen⟩, rfl⟩⟩

theorem whileLoop_accepts (hinner : inner.Follows n) :
    (whileLoop inner).AcceptsAt (.keyword .whileWord) fun ts tree next => ∃ us vs condition body,
      ts = .keyword .whileWord :: .mark .leftParen :: (us ++ .mark .rightParen :: vs) ∧
        Expr n .comma us condition ∧
        Statement n vs body next ∧ tree = .whileLoop condition body := by
  have hbody := (condition_accepts hinner .whileWord).bind fun condition => hinner.stmt.bind fun body =>
    Accepts.pure (Tree.whileLoop condition body)
  refine AcceptsAt.congr hbody fun ts tree next _ => ?_
  refine ⟨fun h => ?_, fun h => ?_⟩
  · obtain ⟨_, condition, vs, rfl, ⟨us, rfl, hcondition⟩, hrest⟩ := h
    obtain ⟨body, hstatement, rfl⟩ := Language.andThen_pure.1 hrest
    exact ⟨us, vs, condition, body, by simp, hcondition, hstatement, rfl⟩
  · obtain ⟨us, vs, condition, body, rfl, hcondition, hstatement, rfl⟩ := h
    exact ⟨_, condition, vs, by simp, ⟨us, rfl, hcondition⟩, Language.andThen_pure.2 ⟨body, hstatement, rfl⟩⟩

theorem forLoop_accepts (hinner : inner.Follows n) :
    (forLoop inner).AcceptsAt (.keyword .forWord) fun ts tree next => ∃ us vs ws xs start condition step body,
      ts = .keyword .forWord :: .mark .leftParen ::
        (us ++ .mark .semicolon :: (vs ++ .mark .semicolon :: (ws ++
          .mark .rightParen :: xs))) ∧
        Clause n us start ∧ Clause n vs condition ∧ Clause n ws step ∧ Statement n xs body next ∧
        tree = .forLoop start condition step body := by
  have hclause (refused : Kind) := (hinner.expr .lowest (by decide)).unlessAt refused
  have hbody := (@Accepts.expect (.openAfter .forWord) rfl (by decide)).bind fun _ =>
    (hclause (.mark .semicolon)).bind fun start =>
      (@Accepts.expect .endForStart rfl (by decide)).bind fun _ =>
    (hclause (.mark .semicolon)).bind fun condition =>
      (@Accepts.expect .endForCondition rfl (by decide)).bind fun _ =>
    (hclause (.mark .rightParen)).bind fun step =>
      (@Accepts.expect .closeForClauses rfl (by decide)).bind fun _ =>
    hinner.stmt.bind fun body => Accepts.pure (Tree.forLoop start condition step body)
  refine (AcceptsAt.skip hbody rfl (by decide)).congr fun ts tree next _ => ?_
  simp only [Language.behind, Language.andThen_expected, Language.andThen_behind, Language.andThen_pure]
  refine ⟨fun h => ?_, fun h => ?_⟩
  · obtain ⟨_, rfl, _, rfl, us, start, _, rfl, hstart, vs, condition, _, rfl, hcondition, ws, step,
      xs, rfl, hstep, body, hstatement, rfl⟩ := h
    exact ⟨us, vs, ws, xs, start, condition, step, body, rfl, (clause_iff rfl rfl).1 hstart,
      (clause_iff rfl rfl).1 hcondition, (clause_iff rfl rfl).1 hstep, hstatement, rfl⟩
  · obtain ⟨us, vs, ws, xs, start, condition, step, body, rfl, hstart, hcondition, hstep,
        hstatement, rfl⟩ := h
    exact ⟨_, rfl, _, rfl, us, start, _, rfl, (clause_iff rfl rfl).2 hstart, vs, condition, _, rfl,
      (clause_iff rfl rfl).2 hcondition, ws, step, xs, rfl, (clause_iff rfl rfl).2 hstep, body,
      hstatement, rfl⟩

theorem returnStmt_accepts (hinner : inner.Follows n) :
    (returnStmt inner).AcceptsAt (.keyword .returnWord) fun ts tree _ => ∃ us value,
      ts = .keyword .returnWord :: (us ++ [.mark .semicolon]) ∧ Clause n us value ∧
        tree = .returnStmt value := by
  have hbody := ((hinner.expr .lowest (by decide)).unlessAt (.mark .semicolon)).bind fun value =>
    (@Accepts.expect .endReturn rfl (by decide)).bind fun _ => Accepts.pure (Tree.returnStmt value)
  refine (AcceptsAt.skip hbody rfl (by decide)).congr fun ts tree next _ => ?_
  simp only [Language.behind, Language.andThen_expected, Language.andThen_behind]
  refine ⟨fun h => ?_, fun h => ?_⟩
  · obtain ⟨_, rfl, us, value, _, rfl, hclause, rfl, rfl⟩ := h
    exact ⟨us, value, rfl, (clause_iff rfl rfl).1 hclause, rfl⟩
  · obtain ⟨us, value, rfl, hclause, rfl⟩ := h
    exact ⟨_, rfl, us, value, [], rfl, (clause_iff rfl rfl).2 hclause, rfl, rfl⟩

theorem printlnStmt_accepts (hinner : inner.Follows n) :
    (printlnStmt inner).AcceptsAt (.keyword .printlnWord) fun ts tree _ => ∃ us argument,
      ts = .keyword .printlnWord :: .mark .leftParen :: (us ++ [.mark .rightParen, .mark .semicolon]) ∧
        Expr n .comma us argument ∧ tree = .builtin .println argument := by
  have hbody := (builtin_accepts hinner .println).bind fun tree =>
    (@Accepts.expect .endPrintln rfl (by decide)).bind fun _ => Accepts.pure tree
  refine AcceptsAt.congr hbody fun ts tree next _ => ?_
  simp only [Language.andThen_expected, Language.andThen_behind]
  refine ⟨fun h => ?_, fun h => ?_⟩
  · obtain ⟨_, _, _, rfl, ⟨us, argument, rfl, hexpr, rfl⟩, rfl, rfl⟩ := h
    exact ⟨us, argument, by simp [Terminal.mark, Expectation.kind, Builtin.word], hexpr, rfl⟩
  · obtain ⟨us, argument, rfl, hexpr, rfl⟩ := h
    exact ⟨_, _, [], by simp [Terminal.mark, Expectation.kind, Builtin.word],
      ⟨us, argument, rfl, hexpr, rfl⟩, rfl, rfl⟩

theorem expressionStmt_accepts (hinner : inner.Follows n) :
    (expressionStmt inner).Accepts fun ts tree _ => ∃ us, ts = us ++ [.mark .semicolon] ∧
      Expr n .comma us tree := by
  have hbody := (hinner.expr .lowest (by decide)).bind fun tree =>
    (@Accepts.expect .endStatement rfl (by decide)).bind fun _ => Accepts.pure tree
  refine Accepts.congr hbody fun ts tree next => ?_
  simp only [Language.andThen_expected, Language.andThen_behind]
  refine ⟨fun h => ?_, fun h => ?_⟩
  · obtain ⟨us, _, _, rfl, ⟨hexpr, _⟩, rfl, rfl⟩ := h
    exact ⟨us, rfl, hexpr⟩
  · obtain ⟨us, rfl, hexpr⟩ := h
    exact ⟨us, tree, [], rfl, ⟨hexpr, by decide⟩, rfl, rfl⟩

/-! ### Statements -/

theorem statement_eq (cursor : Cursor) :
    statement inner cursor = (match cursor.current.kind with
      | .mark .leftBrace => return .block (← blockBody inner)
      | .keyword .fnWord => functionDef inner
      | .keyword .ifWord => ifElse inner
      | .keyword .whileWord => whileLoop inner
      | .keyword .forWord => forLoop inner
      | .keyword .returnWord => returnStmt inner
      | .keyword .printlnWord => printlnStmt inner
      | .primitive _ => varDecl inner
      | .identifier => if (cursor.peek 1).kind = .identifier then varDecl inner else expressionStmt inner
      | _ => expressionStmt inner : Parse Tree) cursor := rfl

/-- What starts an expression introduces no other statement, but for `println` and for a name with a
second name behind it. -/
theorem statement_eq_expressionStmt {cursor : Cursor} (hstart : startsExpression cursor.current.kind = true)
    (hprintln : cursor.current.kind ≠ .keyword .printlnWord)
    (hname : cursor.current.kind = .identifier → (cursor.peek 1).kind ≠ .identifier) :
    statement inner cursor = expressionStmt inner cursor := by
  rw [statement_eq]
  generalize cursor.current.kind = first at *
  cases first with
  | mark mark => cases mark <;> first | rfl | exact absurd hstart (by decide)
  | keyword word => cases word <;> first | rfl | exact absurd hstart (by decide) | exact absurd rfl hprintln
  | identifier => exact congrFun (if_neg (hname rfl)) cursor
  | primitive | invalid | endOfInput => cases hstart
  | _ => rfl

/-- The name of a type with a name behind it introduces a declaration. -/
theorem statement_eq_varDecl {cursor : Cursor} {terminal : Terminal} {type : TypeName}
    (htype : terminal.NamesType type) (hfirst : cursor.current.kind = terminal.kind)
    (hsecond : (cursor.peek 1).kind = .identifier) :
    statement inner cursor = varDecl inner cursor := by
  rw [statement_eq, hfirst]
  obtain ⟨htype | hname, _⟩ := htype
  · revert htype
    cases terminal.kind <;> simp [Kind.isType]
  · rw [hname]
    exact congrFun (if_pos hsecond) cursor

theorem block_accepts (hinner : inner.Follows n) :
    (return .block (← blockBody inner) : Parse Tree).Accepts fun ts tree _ =>
      ∃ us body, ts = .mark .leftBrace :: (us ++ [.mark .rightBrace]) ∧ Stmts n us body ∧
        tree = .block body := by
  refine ((blockBody_accepts hinner).bind fun body => Accepts.pure (Tree.block body)).congr
    fun ts tree next => ?_
  rw [Language.andThen_pure]
  refine ⟨fun h => ?_, fun h => ?_⟩
  · obtain ⟨body, ⟨us, rfl, hbody⟩, rfl⟩ := h
    exact ⟨us, body, rfl, hbody, rfl⟩
  · obtain ⟨us, body, rfl, hbody, rfl⟩ := h
    exact ⟨body, ⟨us, rfl, hbody⟩, rfl⟩

/-- The parser of statements reads a statement that nests one level more than the parsers it is given may. -/
theorem exists_statement (hinner : inner.Follows n) {cursor after : Cursor} {tree : Tree}
    (hok : statement inner cursor = .ok tree after) :
    ∃ ts, cursor.Reads ts after ∧ Statement (n + 1) ts tree after.current.kind := by
  have hvarDecl : varDecl inner cursor = .ok tree after →
      ∃ ts, cursor.Reads ts after ∧ Statement (n + 1) ts tree after.current.kind := by
    intro hok
    obtain ⟨_, hreads, terminal, type, name, htype, ⟨rfl, rfl⟩ | ⟨us, value, rfl, hvalue, rfl⟩⟩ :=
      (varDecl_accepts hinner _ cursor rfl tree after).1 hok
    · exact ⟨_, hreads, false, .declaration htype, by simp⟩
    · exact ⟨_, hreads, false, .initialized htype hvalue, by simp⟩
  have hexpression : cursor.current.kind ≠ .keyword .printlnWord →
    expressionStmt inner cursor = .ok tree after →
      ∃ ts, cursor.Reads ts after ∧ Statement (n + 1) ts tree after.current.kind := by
    intro hprintln hok
    obtain ⟨_, hreads, us, rfl, hexpr⟩ := (expressionStmt_accepts hinner _ cursor rfl tree after).1 hok
    refine ⟨_, hreads, false, .expression (fun hfirst => hprintln ?_) hexpr, by simp⟩
    rw [hreads.following, following_append, following, hfirst]
    rfl
  rw [statement_eq] at hok
  generalize hkind : cursor.current.kind = kind at hok
  split at hok
  · obtain ⟨_, hreads, us, body, rfl, hbody, rfl⟩ := (block_accepts hinner _ cursor hkind tree after).1 hok
    exact ⟨_, hreads, false, .block hbody, by simp⟩
  · obtain ⟨_, hreads, name, ps, params, rs, type, us, body, rfl, hparams, hreturns, hbody, rfl⟩ :=
      (functionDef_accepts hinner cursor hkind tree after).1 hok
    exact ⟨_, hreads, false, .functionDef hparams hreturns hbody, by simp⟩
  · obtain ⟨_, hreads, us, vs, condition, consequent, hcondition, ⟨isOpen, rfl, hconsequent, hnext, rfl⟩ |
      ⟨isOpen, ws, alternative, rfl, hconsequent, halternative, hopen, rfl⟩⟩ :=
      (ifElse_accepts hinner cursor hkind tree after).1 hok
    · exact ⟨_, hreads, true, .ifThen hcondition hconsequent, fun _ => hnext⟩
    · exact ⟨_, hreads, isOpen, .ifElse hcondition hconsequent halternative, hopen⟩
  · obtain ⟨_, hreads, us, vs, condition, body, rfl, hcondition, ⟨isOpen, hbody, hopen⟩, rfl⟩ :=
      (whileLoop_accepts hinner cursor hkind tree after).1 hok
    exact ⟨_, hreads, isOpen, .whileLoop hcondition hbody, hopen⟩
  · obtain ⟨_, hreads, us, vs, ws, xs, start, condition, step, body, rfl, hstart, hcondition, hstep,
      ⟨isOpen, hbody, hopen⟩, rfl⟩ := (forLoop_accepts hinner cursor hkind tree after).1 hok
    exact ⟨_, hreads, isOpen, .forLoop hstart hcondition hstep hbody, hopen⟩
  · obtain ⟨_, hreads, us, value, rfl, hvalue, rfl⟩ :=
      (returnStmt_accepts hinner cursor hkind tree after).1 hok
    exact ⟨_, hreads, false, .returnStmt hvalue, by simp⟩
  · obtain ⟨_, hreads, us, argument, rfl, hexpr, rfl⟩ :=
      (printlnStmt_accepts hinner cursor hkind tree after).1 hok
    exact ⟨_, hreads, false, .println hexpr, by simp⟩
  · exact hvarDecl hok
  · by_cases hsecond : (cursor.peek 1).kind = .identifier
    · rw [if_pos hsecond] at hok
      exact hvarDecl hok
    · rw [if_neg hsecond] at hok
      exact hexpression (by simp [hkind]) hok
  · next hprintln _ _ =>
    exact hexpression (by rw [hkind]; exact hprintln) hok

theorem statement_accepts (hinner : inner.Follows n) : (statement inner).Accepts (Statement (n + 1)) := by
  intro kind cursor _ tree after
  refine ⟨exists_statement hinner, ?_⟩
  rintro ⟨ts, hreads, isOpen, hstmt, hopen⟩
  have hfollowing := hreads.following
  cases hstmt with
  | block hbody =>
    rw [statement_eq, hfollowing]
    exact (block_accepts hinner _ cursor hfollowing _ after).2 ⟨_, hreads, _, _, rfl, hbody, rfl⟩
  | functionDef hparams hreturns hbody =>
    rw [statement_eq, hfollowing]
    exact (functionDef_accepts hinner cursor hfollowing _ after).2
      ⟨_, hreads, _, _, _, _, _, _, _, rfl, hparams, hreturns, hbody, rfl⟩
  | declaration htype =>
    rw [statement_eq_varDecl htype hfollowing hreads.peek_one]
    exact (varDecl_accepts hinner _ cursor rfl _ after).2 ⟨_, hreads, _, _, _, htype, .inl ⟨rfl, rfl⟩⟩
  | initialized htype hvalue =>
    rw [statement_eq_varDecl htype hfollowing hreads.peek_one]
    exact (varDecl_accepts hinner _ cursor rfl _ after).2 ⟨_, hreads, _, _, _, htype,
      .inr ⟨_, _, rfl, hvalue, rfl⟩⟩
  | ifThen hcondition hconsequent =>
    rw [statement_eq, hfollowing]
    exact (ifElse_accepts hinner cursor hfollowing _ after).2
      ⟨_, hreads, _, _, _, _, hcondition, .inl ⟨_, rfl, hconsequent, hopen rfl, rfl⟩⟩
  | ifElse hcondition hconsequent halternative =>
    rw [statement_eq, hfollowing]
    exact (ifElse_accepts hinner cursor hfollowing _ after).2
      ⟨_, hreads, _, _, _, _, hcondition, .inr ⟨_, _, _, rfl, hconsequent, halternative, hopen, rfl⟩⟩
  | whileLoop hcondition hbody =>
    rw [statement_eq, hfollowing]
    exact (whileLoop_accepts hinner cursor hfollowing _ after).2
      ⟨_, hreads, _, _, _, _, rfl, hcondition, ⟨_, hbody, hopen⟩, rfl⟩
  | forLoop hstart hcondition hstep hbody =>
    rw [statement_eq, hfollowing]
    exact (forLoop_accepts hinner cursor hfollowing _ after).2
      ⟨_, hreads, _, _, _, _, _, _, _, _, rfl, hstart, hcondition, hstep, ⟨_, hbody, hopen⟩, rfl⟩
  | returnStmt hvalue =>
    rw [statement_eq, hfollowing]
    exact (returnStmt_accepts hinner cursor hfollowing _ after).2 ⟨_, hreads, _, _, rfl, hvalue, rfl⟩
  | println hexpr =>
    rw [statement_eq, hfollowing]
    exact (printlnStmt_accepts hinner cursor hfollowing _ after).2 ⟨_, hreads, _, _, rfl, hexpr, rfl⟩
  | @expression _ us _ hfirst hexpr =>
    have hok := (expressionStmt_accepts hinner _ cursor rfl _ after).2 ⟨_, hreads, us, rfl, hexpr⟩
    obtain ⟨first, rest, rfl, hstart, hsecond⟩ := hexpr.starts
    rw [statement_eq_expressionStmt, hok]
    · rw [hfollowing]
      exact hstart
    · intro hprintln
      obtain ⟨_, hterminal, _⟩ := hreads
      rw [(Token.terminal_eq_iff rfl).2 hprintln] at hterminal
      exact hfirst (congrArg some hterminal.symm)
    · intro hname
      rw [hfollowing] at hname
      cases rest with
      | nil =>
        rw [hreads.peek_one]
        simp [Terminal.mark]
      | cons second rest =>
        rw [hreads.peek_one]
        exact hsecond hname second rfl

end Parse

end ObsidianSyntax
