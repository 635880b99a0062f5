import ObsidianSyntax.Proofs.Fault.Expressions

/-!
# Faults in statements

The parser of statements fails at the earliest token, given that the parsers for what is nested do.
The one place where it looks at a second token needs care: behind a first name, a second one decides
for a declaration, and what completes an expression never starts with two names.

By induction on the levels left, all parsers fail at the earliest token, and so does the parser of programs.
-/

namespace ObsidianSyntax

open Grammar

namespace Cursor

variable {cursor after : Cursor} {t : Terminal} {ts : List Terminal}

/-- Behind a token that is not the end, the second token is the one at the next cursor. -/
theorem peek_one (hlive : cursor.current.isEnd = false) : cursor.peek 1 = cursor.advance.current := by
  have hadvance : cursor.advance = { cursor with rest := cursor.rest.drop 1 } := by
    simp only [advance, hlive]; rfl
  rw [hadvance]
  simp [current, peek]

theorem current_mem_rest (hlive : cursor.current.isEnd = false) : cursor.current ∈ cursor.rest := by
  obtain ⟨rest, endToken, hend⟩ := cursor
  cases rest with
  | nil => exact absurd (hlive.symm.trans hend) (by simp)
  | cons token rest => exact List.mem_cons_self

theorem kind_peek_one (hreads : cursor.Reads (t :: ts) after) :
    (cursor.peek 1).kind = following ts after.current.kind := by
  rw [Cursor.peek_one hreads.1]
  exact hreads.2.2.following

end Cursor

namespace Parse

namespace Graded

variable {limit room : Nat} {kind : Kind} {closes : Kind → Prop}

/-! ### Parameters -/

theorem param_pinpoints : Pinpoints (fun _ => param) closes limit room [.someName, .someName] :=
  .typeNameThen fun type => .behindName rfl fun name => .pure (Param.mk type name)

theorem consumes_param : param.Consumes := by
  refine param_accepts.consumes fun ts param next hparam => ?_
  obtain ⟨⟨_⟩, _⟩ := hparam
  simp

theorem params_pinpoints : Pinpoints (fun _ => listItems param) (· = .mark .rightParen) limit room [] := by
  have hparam : ∀ kind, KeepsAt kind (fun _ => param) (fun _ => True) := fun _ =>
    .of_accepts (fun _ => param_accepts) (fun _ _ _ _ _ h _ => h) (.const _)
  exact .listItems (fun _ => consumes_param) param_pinpoints hparam trivial

theorem keepsAt_params : KeepsAt kind (fun _ => listItems param) (· = .mark .rightParen) := by
  refine @KeepsAt.listItems _ _ 0 _ (fun _ => IsParam) (fun _ => True) (fun _ => consumes_param)
    (fun _ => param_accepts) ?_ trivial trivial fun _ _ _ => .refl _
  rintro _ ts param ⟨_⟩
  simp

variable (hinner : NestedPinpoint limit room)

include hinner

/-! ### Clauses -/

/-- An expression that may be missing, the mark that shows that it is, and something behind it. -/
theorem clauseThen {α : Type} {next : Option Tree → Graded α} {sample : List Token}
    {expectation : Expectation} {mark : Mark} (hmark : expectation.kind = .mark mark)
    (hends : EndsExpression (.mark mark))
    (hnext : ∀ clause, Pinpoints (next clause) closes limit room sample) :
    Pinpoints (fun room => unlessAt (.mark mark) (exprs limit .lowest room) >>= fun clause => do
      Parse.expect expectation
      next clause room) closes limit room (.ofMark mark :: sample) := by
  have hlowest : Precedence.lowest ≤ .prefixOp := by decide
  have hclause : Pinpoints (fun room => unlessAt (.mark mark) (exprs limit .lowest room))
      (· = .mark mark) limit room [] :=
    .unlessAt (hinner.expr .lowest hlowest).pinpointsAt hends
  refine hclause.bind (fun kind => ?_) (fun clause => .behind hmark (hnext clause)) fun _ _ => rfl
  refine .unlessAt (fun room => (Nested.withRoom_follows limit room).expr .lowest hlowest)
    (fun room ts tree _ hexpr => ⟨?_, hexpr.1, ?_⟩)
    fun _ _ hle => (Nested.withRoom_within hle limit limit).expr .lowest
  · obtain ⟨first, rest, rfl, _⟩ := hexpr.1.starts
    simp
  · exact EndsExpression.le hends .lowest

theorem condition_pinpointsAt (word : Keyword) :
    PinpointsAt (.keyword word) (fun room => condition (.withRoom limit room) word)
      (fun _ => True) limit room :=
  .skip (.behind rfl (hinner.exprThen .lowest (by decide)
    (fun condition => .behind rfl (.pure condition)) fun _ _ => rfl)) (by simp)

omit hinner in
theorem keepsAt_condition (word : Keyword) :
    KeepsAt (.keyword word) (fun room => condition (.withRoom limit room) word) (fun _ => True) := by
  refine .of_acceptsAt (fun room => condition_accepts (Nested.withRoom_follows limit room) word)
    (fun _ _ _ _ _ h _ => h) ?_
    (.of_within fun _ _ hle => .condition (Nested.withRoom_within hle limit limit) word)
  rintro _ _ _ _ ⟨us, rfl, _⟩
  simp

/-! ### Statements by their first word -/

theorem functionDef_pinpointsAt :
    PinpointsAt (.keyword .fnWord) (fun room => functionDef (.withRoom limit room)) closes limit room := by
  have hreturns : Pinpoints (fun _ => ifNext (.mark .arrow) typeName) (· = .mark .leftBrace) limit room [] :=
    .ifNext (typeName_pinpoints : Pinpoints _ (fun _ => True) _ _ _) (by simp) (by rintro _ rfl; simp)
  have hkeeps : ∀ kind, KeepsAt kind (fun _ => ifNext (.mark .arrow) typeName)
      (· = .mark .leftBrace) := fun _ =>
    @KeepsAt.ifNext _ _ _ _ 0 _ _ (fun _ => Accepts.typeName) (fun _ _ _ _ _ h _ => h) rfl (by simp)
      (by rintro _ rfl; simp) fun _ _ _ => .refl _
  have hbody (name : String) (params : List Param) :
      Pinpoints (fun room => ifNext (.mark .arrow) typeName >>= fun type =>
        blockBody (.withRoom limit room) >>= fun body =>
        Pure.pure (Tree.functionDef name (type.getD .void) params body))
        closes limit room [.ofMark .leftBrace, .ofMark .rightBrace] :=
    hreturns.bind hkeeps
      (fun type => (blockBody_pinpoints hinner).map
      (Tree.functionDef name (type.getD .void) params)) fun _ _ => rfl
  exact .skip (.behindName rfl fun name => .behind rfl (params_pinpoints.bind (fun _ => keepsAt_params)
    (fun params => .behind rfl (hbody name params)) fun _ _ => rfl)) (by simp)

/-- What stands behind the type and the name of a declaration. -/
abbrev declared (limit : Nat) (type : TypeName) (name : String) : Graded Tree := fun room => do
  let value ← ifNext (.mark .equal) (exprs limit .comma room)
  Parse.expect .endDeclaration
  return .varDecl type name value

theorem declared_pinpoints (type : TypeName) (name : String) :
    Pinpoints (declared limit type name) closes limit room [.ofMark .semicolon] := by
  have hcomma : Precedence.comma ≤ .prefixOp := by decide
  have hvalue : Pinpoints (fun room => ifNext (.mark .equal) (exprs limit .comma room))
      (· = .mark .semicolon) limit room [] :=
    .ifNext (hinner.expr .comma hcomma) (by simp) (by rintro _ rfl; exact ⟨rfl, by simp⟩)
  refine hvalue.bind (fun kind => ?_) (fun value => .behind rfl (.pure _)) fun _ _ => rfl
  refine @KeepsAt.ifNext _ _ _ _ limit _ _
    (fun room => (Nested.withRoom_follows limit room).expr .comma hcomma) ?_ rfl (by simp)
    (by rintro _ rfl; simp) fun _ _ hle => (Nested.withRoom_within hle limit limit).expr .comma
  rintro room ts value next _ hexpr rfl
  exact ⟨hexpr.1, by decide⟩

theorem varDecl_pinpoints :
    Pinpoints (fun room => varDecl (.withRoom limit room)) closes limit room
      [.someName, .someName, .ofMark .semicolon] :=
  .typeNameThen fun type => .behindName rfl fun name => declared_pinpoints hinner type name

theorem ifElse_pinpointsAt :
    PinpointsAt (.keyword .ifWord) (fun room => ifElse (.withRoom limit room)) EndsStatement limit room := by
  have helse : Pinpoints (fun room => ifNext (.keyword .elseWord) (stmts limit room)) EndsStatement
      limit room [] :=
    .ifNext hinner.stmt (by simp) fun _ hends => ⟨hends, hends⟩
  have hbranches (condition : Tree) : Pinpoints (fun room => stmts limit room >>= fun consequent =>
      ifNext (.keyword .elseWord) (stmts limit room) >>= fun alternative =>
        Pure.pure (Tree.ifElse condition consequent alternative)) EndsStatement limit room _ :=
    hinner.stmt.bind (fun _ => keepsAt_stmt)
      (fun consequent => helse.map (Tree.ifElse condition consequent)) fun _ hends => hends
  exact (condition_pinpointsAt hinner .ifWord).bind (keepsAt_condition .ifWord) hbranches fun _ _ => trivial

theorem whileLoop_pinpointsAt :
    PinpointsAt (.keyword .whileWord) (fun room => whileLoop (.withRoom limit room)) EndsStatement
      limit room :=
  (condition_pinpointsAt hinner .whileWord).bind (keepsAt_condition .whileWord)
    (fun condition => hinner.stmt.map (Tree.whileLoop condition)) fun _ _ => trivial

theorem forLoop_pinpointsAt :
    PinpointsAt (.keyword .forWord) (fun room => forLoop (.withRoom limit room)) EndsStatement limit room :=
  .skip (.behind rfl (clauseThen hinner rfl rfl fun start => clauseThen hinner rfl rfl fun condition =>
    clauseThen hinner rfl rfl fun step => hinner.stmt.map (Tree.forLoop start condition step))) (by simp)

theorem returnStmt_pinpointsAt :
    PinpointsAt (.keyword .returnWord) (fun room => returnStmt (.withRoom limit room)) closes limit room :=
  .skip (clauseThen hinner rfl rfl fun value => .pure (Tree.returnStmt value)) (by simp)

theorem printlnStmt_pinpointsAt :
    PinpointsAt (.keyword .printlnWord) (fun room => printlnStmt (.withRoom limit room)) closes
      limit room := by
  have hkeeps : KeepsAt (.keyword .printlnWord)
      (fun room => builtin (.withRoom limit room) .println) (fun _ => True) := by
    refine .of_acceptsAt (fun room => builtin_accepts (Nested.withRoom_follows limit room) .println)
      (fun _ _ _ _ _ h _ => h) ?_
      (.of_within fun _ _ hle => .builtin (Nested.withRoom_within hle limit limit) .println)
    rintro _ _ _ _ ⟨us, argument, rfl, _⟩
    simp
  exact (builtin_pinpointsAt hinner .println).bind hkeeps
    (fun tree => .behind rfl (.pure tree)) fun _ _ => trivial

theorem expressionStmt_pinpoints :
    Pinpoints (fun room => expressionStmt (.withRoom limit room)) closes limit room
      [.someLiteral, .ofMark .semicolon] :=
  hinner.exprThen .lowest (by decide) (fun tree => .behind rfl (.pure tree)) fun _ _ => rfl

/-! ### Names at the start of a statement -/

omit hinner in
/-- What is read as an expression with a semicolon behind it is read as a statement, unless an
output starts there. -/
theorem statement_of_expressionStmt {cursor after : Cursor} {tree : Tree}
    (hprintln : cursor.current.kind ≠ .keyword .printlnWord)
    (hok : expressionStmt (.withRoom limit room) cursor = .ok tree after) :
    statement (.withRoom limit room) cursor = .ok tree after := by
  have hfollows := Nested.withRoom_follows limit room
  obtain ⟨_, hreads, us, rfl, hexpr⟩ := (expressionStmt_accepts hfollows _ cursor rfl tree after).1 hok
  refine (statement_accepts hfollows _ cursor rfl tree after).2 ⟨_, hreads, false,
    .expression (fun hfirst => hprintln ?_) hexpr, by simp⟩
  rw [hreads.following, following_append, following, hfirst]
  rfl

omit hinner in
/-- An expression statement starts with any name, so no fault about something else than depth is at
the name. -/
theorem not_refuses_name {token : Token} (hname : token.kind = .identifier) :
    ¬ Refuses (fun room => expressionStmt (.withRoom limit room)) room [] token.terminal := by
  intro hrefuses
  have hlive : token.isEnd = false := by simp [Token.isEnd, hname]
  have hterminals : terminals [token, .ofMark .semicolon] = [.name token.lexeme] ++ [.mark .semicolon] := by
    rw [terminals_cons_of_live hlive, (Token.terminal_eq_iff_of_hasText rfl).2 ⟨hname, rfl⟩]
    rfl
  obtain ⟨after, hreads, _⟩ :=
    (Cursor.reads_to_end_iff [token, .ofMark .semicolon] _ (Cursor.isEnd_endOf []) _).2 rfl
  rw [hterminals] at hreads
  have hexpr : Expr (room + 1) .comma [.name token.lexeme] (.identifier token.lexeme) := .primary .name
  have hok := (expressionStmt_accepts (Nested.withRoom_follows limit (room + 1)) _ _ rfl _ after).2
    ⟨_, hreads, _, rfl, hexpr⟩
  exact hrefuses (room + 1) (by omega) _ _ rfl rfl _ _ hok

omit hinner in
/-- With a name and no second name behind it, a statement fails where an expression with a semicolon
behind it does. -/
theorem Pinned.of_expressionStmt {cursor : Cursor} {fault : Fault} {ts : List Terminal}
    (hname : cursor.current.kind = .identifier) (hsecond : (cursor.peek 1).kind ≠ .identifier)
    (hpinned : Pinned (fun room => expressionStmt (.withRoom limit room)) closes limit room cursor fault ts) :
    Pinned (fun room => statement (.withRoom limit room)) closes limit room cursor fault ts := by
  obtain ⟨⟨middle, hreads, hmiddle⟩, hearliest⟩ := hpinned
  refine ⟨⟨middle, hreads, hmiddle⟩, hearliest.imp_right fun h => ⟨fun hne => ?_, ?_⟩⟩
  · obtain ⟨more, hspelled, tree, enough, hreaches⟩ := h.1 hne
    refine ⟨more, hspelled, tree, enough, fun room' hroom cursor' after hreads' hcloses => ?_⟩
    obtain ⟨t, rest, rfl⟩ := List.exists_cons_of_ne_nil hne
    have hkind : cursor'.current.kind = .identifier :=
      (hreads'.following.trans hreads.following.symm).trans hname
    have hprintln : cursor'.current.kind ≠ .keyword .printlnWord := by simp [hkind]
    exact statement_of_expressionStmt hprintln (hreaches room' hroom cursor' after hreads' hcloses)
  · intro more hmore cursor' middle' hreads' hterminal tree after hok
    cases ts with
    | nil =>
      obtain rfl := hreads
      rw [← hmiddle] at h
      exact not_refuses_name hname h.2
    | cons t rest =>
      have hkind : cursor'.current.kind = .identifier :=
        (hreads'.following.trans hreads.following.symm).trans hname
      have hnext : middle'.current.kind = middle.current.kind := by
        rw [hmiddle]
        exact congrArg Terminal.kind hterminal
      have hsame : (cursor'.peek 1).kind = (cursor.peek 1).kind := by
        rw [Cursor.kind_peek_one hreads', Cursor.kind_peek_one hreads, hnext]
      have heq : statement (.withRoom limit more) cursor' = expressionStmt (.withRoom limit more) cursor' :=
        statement_eq_expressionStmt (by rw [hkind]; rfl) (by simp [hkind]) fun _ => hsame ▸ hsecond
      exact h.2 more hmore cursor' middle' hreads' hterminal tree after (heq.symm.trans hok)

omit hinner in
/-- Two names start a declaration. -/
theorem statement_of_names {cursor : Cursor} {type : TypeName}
    (hname : cursor.current.kind = .identifier) (htype : cursor.current.lexeme = type.text)
    (hsecond : cursor.advance.current.kind = .identifier) (room : Nat) :
    statement (.withRoom limit room) cursor = declared limit type cursor.advance.current.lexeme room
      cursor.advance.advance := by
  have hlive := isEnd_eq_false_of_kind hname (by simp)
  have hnames : Terminal.NamesType ⟨.identifier, type.text⟩ type := ⟨.inr rfl, rfl⟩
  rw [statement_eq_varDecl hnames hname (by rwa [Cursor.peek_one hlive])]
  have htypeName := typeName_eq_ok.2 ⟨.inr hname, htype, rfl⟩
  have htake : take .variableName cursor.advance = .ok _ _ := take_eq_ok.2 ⟨hsecond, rfl, rfl⟩
  have hexpect : Parse.expectName .variableName cursor.advance = .ok _ _ := bind_eq_ok.2 ⟨_, _, htake, rfl⟩
  unfold varDecl
  rw [bind_of_ok htypeName, bind_of_ok hexpect]

omit hinner in
/-- A fault behind two names is one of the declaration that they start. -/
theorem Pinned.of_declared {cursor : Cursor} {fault : Fault} {ts : List Terminal} {type : TypeName}
    (hname : cursor.current.kind = .identifier) (htype : cursor.current.lexeme = type.text)
    (hsecond : cursor.advance.current.kind = .identifier)
    (hpinned : Pinned (declared limit type cursor.advance.current.lexeme) closes limit room
      cursor.advance.advance fault ts)
    (hcompletes : ¬ fault.IsTooDeep limit →
      Completes (declared limit type cursor.advance.current.lexeme) closes ts) :
    Pinned (fun room => statement (.withRoom limit room)) closes limit room cursor fault
      (cursor.current.terminal :: cursor.advance.current.terminal :: ts) := by
  have hlive := isEnd_eq_false_of_kind hname (by simp)
  have hlive' := isEnd_eq_false_of_kind hsecond (by simp)
  have hstep : ∀ room (cursor' after : Cursor) us,
      cursor'.Reads (cursor.current.terminal :: cursor.advance.current.terminal :: us) after →
      statement (.withRoom limit room) cursor' =
        declared limit type cursor.advance.current.lexeme room cursor'.advance.advance := by
    rintro room cursor' after us ⟨_, hfirst, _, hnext, _⟩
    obtain ⟨hkind, hlexeme⟩ := lexeme_eq_of_terminal_eq hfirst (by rw [hname]; rfl)
    obtain ⟨hkind', hlexeme'⟩ := lexeme_eq_of_terminal_eq hnext (by rw [hsecond]; rfl)
    rw [← hlexeme']
    exact statement_of_names (hkind.trans hname) (hlexeme.trans htype) (hkind'.trans hsecond) room
  obtain ⟨⟨middle, hreads, hmiddle⟩, hearliest⟩ := hpinned
  refine ⟨⟨middle, ⟨hlive, rfl, hlive', rfl, hreads⟩, hmiddle⟩, ?_⟩
  by_cases hdeep : fault.IsTooDeep limit
  · exact .inl hdeep
  refine .inr ⟨fun _ => ?_, fun more hmore cursor' middle' hreads' hterminal tree after hok => ?_⟩
  · obtain ⟨more, hspelled, tree, enough, hreaches⟩ := hcompletes hdeep
    refine ⟨more, hspelled, tree, enough, fun room' hroom cursor' after hreads' hcloses => ?_⟩
    have hrest := hreaches room' hroom cursor'.advance.advance after hreads'.2.2.2.2 hcloses
    exact (hstep room' cursor' after _ hreads').trans hrest
  · have hrefuses := (hearliest.resolve_left hdeep).2 more hmore cursor'.advance.advance middle'
      hreads'.2.2.2.2 hterminal
    exact hrefuses tree after ((hstep more cursor' middle' _ hreads').symm.trans hok)

theorem identifier_pinpointsAt :
    PinpointsAt .identifier (fun room => statement (.withRoom limit room)) EndsStatement limit room := by
  intro cursor hnamed hname fault after herror
  have hlive := isEnd_eq_false_of_kind hname (by simp)
  by_cases hsecond : (cursor.peek 1).kind = .identifier
  · rw [Cursor.peek_one hlive] at hsecond
    have hne : cursor.current.lexeme ≠ "" := hnamed _ (Cursor.current_mem_rest hlive) hname
    let type : TypeName := ⟨cursor.current.lexeme, hne⟩
    have hpinpoints : Pinpoints (declared limit type cursor.advance.current.lexeme) EndsStatement
        limit room [.ofMark .semicolon] :=
      declared_pinpoints hinner type _
    have heq : statement (.withRoom limit room) cursor =
        declared limit type cursor.advance.current.lexeme room cursor.advance.advance :=
          statement_of_names hname rfl hsecond room
    have hrest := heq.symm.trans herror
    obtain ⟨ts, hpinned⟩ := hpinpoints.pinpointsAt _ _ hnamed.advance.advance rfl fault after hrest
    exact ⟨_, hpinned.of_declared hname rfl hsecond fun hdeep =>
      hpinned.completes hpinpoints.toHasSample hdeep⟩
  · have heq : statement (.withRoom limit room) cursor = expressionStmt (.withRoom limit room) cursor :=
      statement_eq_expressionStmt (by rw [hname]; rfl) (by simp [hname]) fun _ => hsecond
    obtain ⟨ts, hpinned⟩ :=
      (expressionStmt_pinpoints hinner).pinpointsAt _ cursor hnamed rfl fault after (heq.symm.trans herror)
    exact ⟨ts, hpinned.of_expressionStmt hname hsecond⟩

/-! ### Statements -/

theorem statement_pinpointsAt :
    PinpointsAt kind (fun room => statement (.withRoom limit room)) EndsStatement limit room := by
  have hexpression (hsame : ∀ room (cursor : Cursor), cursor.current.kind = kind →
      statement (.withRoom limit room) cursor = expressionStmt (.withRoom limit room) cursor) :
      PinpointsAt kind (fun room => statement (.withRoom limit room)) EndsStatement limit room :=
    ((expressionStmt_pinpoints hinner).pinpointsAt kind).congr hsame
  cases kind with
  | identifier => exact identifier_pinpointsAt hinner
  | primitive type =>
    exact ((varDecl_pinpoints hinner).pinpointsAt _).congr fun room cursor hcursor => by
      rw [statement_eq, hcursor]
  | mark mark =>
    cases mark with
    | leftBrace =>
      exact (((blockBody_pinpoints hinner).map Tree.block).pinpointsAt _).congr fun room cursor hcursor => by
        rw [statement_eq, hcursor]
    | _ => exact hexpression fun room cursor hcursor => by rw [statement_eq, hcursor]
  | keyword word =>
    cases word with
    | fnWord =>
      exact (functionDef_pinpointsAt hinner).congr fun room cursor hcursor => by rw [statement_eq, hcursor]
    | ifWord =>
      exact (ifElse_pinpointsAt hinner).congr fun room cursor hcursor => by rw [statement_eq, hcursor]
    | whileWord =>
      exact (whileLoop_pinpointsAt hinner).congr fun room cursor hcursor => by rw [statement_eq, hcursor]
    | forWord =>
      exact (forLoop_pinpointsAt hinner).congr fun room cursor hcursor => by rw [statement_eq, hcursor]
    | returnWord =>
      exact (returnStmt_pinpointsAt hinner).congr fun room cursor hcursor => by rw [statement_eq, hcursor]
    | printlnWord =>
      exact (printlnStmt_pinpointsAt hinner).congr fun room cursor hcursor => by rw [statement_eq, hcursor]
    | _ => exact hexpression fun room cursor hcursor => by rw [statement_eq, hcursor]
  | _ => exact hexpression fun room cursor hcursor => by rw [statement_eq, hcursor]

/-! ### All levels -/

omit hinner in
/-- What is pinned of the parsers one level further out is pinned with one level more. -/
theorem PinpointsAt.of_succ {α : Type} {parse : Graded α}
    (hpinpoints : PinpointsAt kind (fun room => parse (room + 1)) closes limit room) :
    PinpointsAt kind parse closes limit (room + 1) := by
  intro cursor hnamed hkind fault after herror
  obtain ⟨ts, hreads, hearliest⟩ := hpinpoints cursor hnamed hkind fault after herror
  refine ⟨ts, hreads, hearliest.imp_right fun h => ⟨fun hne => ?_, fun more hmore => ?_⟩⟩
  · obtain ⟨more, hspelled, value, enough, hreaches⟩ := h.1 hne
    refine ⟨more, hspelled, value, enough + 1, fun room' hroom => ?_⟩
    obtain ⟨room', rfl⟩ : ∃ less, room' = less + 1 := ⟨room' - 1, by omega⟩
    exact hreaches room' (by omega)
  · obtain ⟨more, rfl⟩ : ∃ less, more = less + 1 := ⟨more - 1, by omega⟩
    exact h.2 more (by omega)

omit hinner in
/-- With no level left everything is refused for its depth. -/
theorem pinpointsAt_tooDeep {α : Type} {parse : Graded α} {construct : Construct}
    (hzero : parse 0 = failHere (.tooDeep construct limit)) : PinpointsAt kind parse closes limit 0 := by
  intro cursor _ _ fault after herror
  rw [hzero] at herror
  cases herror
  exact ⟨[], ⟨cursor, rfl, rfl⟩, .inl ⟨construct, rfl⟩⟩

omit hinner in
/-- Whatever levels are left, the parsers fail at the earliest token. -/
theorem nestedPinpoint (limit room : Nat) : NestedPinpoint limit room := by
  induction room with
  | zero =>
    exact ⟨fun p hp => ⟨hasSample_expr hp, fun _ => pinpointsAt_tooDeep rfl⟩, hasSample_stmt,
      fun _ => pinpointsAt_tooDeep rfl⟩
  | succ room ih =>
    refine ⟨fun p hp => ⟨hasSample_expr hp, fun kind => .of_succ ?_⟩, hasSample_stmt, fun kind => .of_succ ?_⟩
    · exact (expression_pinpoints ih p).pinpointsAt kind
    · exact statement_pinpointsAt ih

omit hinner in
theorem programWith_pinpoints (limit room : Nat) :
    Pinpoints (fun room => programWith (.withRoom limit room)) (· = .endOfInput) limit room [] := by
  have hinner := nestedPinpoint limit room
  let more (kind : Kind) : Bool := !(kind == .endOfInput)
  have hstatements : Pinpoints (fun room => many (fun token => more token.kind) (stmts limit room))
      (· = .endOfInput) limit room [] :=
    .many (by decide) (fun room => consumes_stmt (Nested.withRoom_follows limit room))
      (fun kind _ => hinner.stmt.pinpointsAt kind)
      (fun kind _ => keepsAt_stmt) (by rintro _ rfl; exact ⟨by decide, by simp [EndsStatement]⟩)
  exact hstatements.map Tree.block

end Graded

end Parse

end ObsidianSyntax
