import ObsidianSyntax.Proofs.Fault.Laws
import ObsidianSyntax.Proofs.Parse.Programs

/-!
# Faults in expressions

The parsers of operands, of what goes on with an expression, and of whole expressions fail at the
earliest token, given that those for what is nested one level deeper do. Each construct is closed by
the samples of what is still to come in it. An expression that has been read so far can always end
before a token that no operator is.
-/

namespace ObsidianSyntax

open Grammar

namespace Parse

namespace Graded

variable {limit room : Nat} {kind : Kind} {closes : Kind → Prop}

/-- No expression goes on with a token of the kind. -/
def EndsExpression (kind : Kind) : Prop := kind.precedence = .lowest

/-- No statement goes on with a token of the kind. -/
def EndsStatement (kind : Kind) : Prop := kind ≠ .keyword .elseWord

/-- The parsers of expressions for every number of levels. -/
abbrev exprs (limit : Nat) (p : Precedence) : Graded Tree := fun room => (Nested.withRoom limit room).expr p

/-- The parsers of statements for every number of levels. -/
abbrev stmts (limit : Nat) : Graded Tree := fun room => (Nested.withRoom limit room).stmt

/-- The parsers with room for `room` levels fail at the earliest token. -/
structure NestedPinpoint (limit room : Nat) : Prop where
  expr : ∀ p : Precedence, p ≤ .prefixOp → Pinpoints (exprs limit p) EndsExpression limit room [.someLiteral]
  stmt : Pinpoints (stmts limit) EndsStatement limit room [.ofMark .leftBrace, .ofMark .rightBrace]

/-! ### What is nested -/

theorem EndsExpression.le (hends : EndsExpression kind) (p : Precedence) : kind.precedence ≤ p := by
  rw [hends]
  exact Nat.zero_le _

theorem denotes_someLiteral : Token.someLiteral.terminal.Denotes (.int 0) :=
  @Terminal.Denotes.int ['0'] Token.isDigits_zero (by decide)

theorem exprs_grows (p : Precedence) : Grows (exprs limit p) :=
  .of_within fun _ _ hle => (Nested.withRoom_within hle limit limit).expr p

theorem keepsAt_expr {p : Precedence} (hp : p ≤ .prefixOp) : KeepsAt kind (exprs limit p) EndsExpression :=
  .of_accepts (fun room => (Nested.withRoom_follows limit room).expr p hp) (fun _ _ _ _ _ h hends =>
    ⟨h.1, hends.le p⟩) (exprs_grows p)

theorem keepsAt_stmt : KeepsAt kind (stmts limit) EndsStatement :=
  .of_accepts (fun room => (Nested.withRoom_follows limit room).stmt)
    (fun _ _ _ _ _ ⟨isOpen, hstmt, _⟩ hends => ⟨isOpen, hstmt, fun _ => hends⟩)
    (.of_within fun _ _ hle => (Nested.withRoom_within hle limit limit).stmt)

theorem hasSample_expr {p : Precedence} (hp : p ≤ .prefixOp) :
    HasSample (exprs limit p) EndsExpression [.someLiteral] := by
  refine ⟨by simpa using Token.isSpelled_someLiteral, .literal (.int 0), 1,
    fun room hroom cursor after hreads hends => ?_⟩
  obtain ⟨room, rfl⟩ : ∃ more, room = more + 1 := ⟨room - 1, by omega⟩
  exact ((Nested.withRoom_follows limit (room + 1)).expr p hp _ cursor rfl _ after).2
    ⟨_, hreads, .primary (.literal denotes_someLiteral), hends.le p⟩

theorem hasSample_stmt : HasSample (stmts limit) EndsStatement [.ofMark .leftBrace, .ofMark .rightBrace] := by
  have hspelled : ∀ token ∈ [Token.ofMark .leftBrace, .ofMark .rightBrace], token.IsSpelled := by
    simpa using ⟨Token.isSpelled_ofMark .leftBrace, Token.isSpelled_ofMark .rightBrace⟩
  refine ⟨hspelled, .block [], 1, fun room hroom cursor after hreads hends => ?_⟩
  obtain ⟨room, rfl⟩ : ∃ more, room = more + 1 := ⟨room - 1, by omega⟩
  exact ((Nested.withRoom_follows limit (room + 1)).stmt _ cursor rfl _ after).2 ⟨_, hreads, false,
    .block .nil, by simp⟩

/-- An expression with something behind it. -/
theorem NestedPinpoint.exprThen {α : Type} {next : Tree → Graded α} {sample : List Token}
    (hinner : NestedPinpoint limit room) (p : Precedence) (hp : p ≤ .prefixOp)
    (hnext : ∀ tree, Pinpoints (next tree) closes limit room sample)
    (hfirst : ∀ kind, closes kind → EndsExpression (following (sample.map Token.terminal) kind)) :
    Pinpoints (fun room => exprs limit p room >>= fun tree => next tree room) closes limit room
      (.someLiteral :: sample) :=
  (hinner.expr p hp).bind (fun _ => keepsAt_expr hp) hnext hfirst

/-! ### Names and literals -/

/-- Tokens that the grammar cannot tell apart have the same kind, and the same text where the kind has any. -/
theorem lexeme_eq_of_terminal_eq {token token' : Token} (hterminal : token.terminal = token'.terminal)
    (htext : token'.kind.hasText = true) : token.kind = token'.kind ∧ token.lexeme = token'.lexeme := by
  rw [(Token.terminal_eq_iff_of_hasText htext).2 ⟨rfl, rfl⟩] at hterminal
  exact (Token.terminal_eq_iff_of_hasText htext).1 hterminal

theorem typeName_pinpoints : Pinpoints (fun _ => typeName) closes limit room [.someName] := by
  have haccepts := Accepts.typeName
  refine ⟨⟨by simpa using Token.isSpelled_someName, ⟨"x", by decide⟩, 0,
    fun room _ cursor after hreads _ => ?_⟩, fun kind => ?_⟩
  · exact (haccepts _ cursor rfl _ after).2 ⟨_, hreads, _, rfl, .inr rfl, rfl⟩
  refine .of_first fun cursor _ fault after herror =>
    ⟨?_, fun more _ cursor' middle hreads hterminal type after' hok => ?_⟩
  · rw [typeName_apply] at herror
    split at herror
    · cases htype : TypeName.ofString? cursor.current.lexeme <;> (rw [htype] at herror; cases herror)
      rfl
    · cases herror
      rfl
  · obtain rfl := hreads
    obtain ⟨hkind, hlexeme, _⟩ := typeName_eq_ok.1 hok
    obtain ⟨hsame, hsame'⟩ := lexeme_eq_of_terminal_eq hterminal.symm (Kind.hasText_of_namesType hkind)
    rw [← hsame] at hkind
    have hok' := typeName_eq_ok.2 ⟨hkind, hsame'.trans hlexeme, rfl⟩
    exact absurd (hok'.symm.trans herror) (by simp)

theorem keepsAt_typeName : KeepsAt kind (fun _ => typeName) closes :=
  .of_accepts (fun _ => Accepts.typeName) (fun _ _ _ _ _ h _ => h) (.const _)

/-- The name of a type with something behind it. -/
theorem Pinpoints.typeNameThen {α : Type} {next : TypeName → Graded α} {sample : List Token}
    (hnext : ∀ type, Pinpoints (next type) closes limit room sample) :
    Pinpoints (fun room => typeName >>= fun type => next type room) closes limit room
      (.someName :: sample) := by
  have htype : Pinpoints (fun _ => typeName) (fun _ => True) limit room [.someName] := typeName_pinpoints
  exact htype.bind (fun _ => keepsAt_typeName) hnext fun _ _ => trivial

theorem atom_pinpointsAt : PinpointsAt kind (fun _ => atom) closes limit room := by
  refine .of_first fun cursor _ fault after herror =>
    ⟨?_, fun more _ cursor' middle hreads hterminal tree after' hok => ?_⟩
  · rw [atom_apply] at herror
    split at herror
    · cases herror
    · cases hvalue : cursor.current.literal <;> (rw [hvalue] at herror; cases herror)
      rfl
  · obtain rfl := hreads
    have hok' : atom cursor = .ok tree cursor.advance := by
      rw [atom_eq_ok] at hok ⊢
      refine ⟨?_, rfl⟩
      obtain ⟨⟨hname, htree⟩ | ⟨hname, value, hvalue, htree⟩, _⟩ := hok
      · obtain ⟨hkind, hlexeme⟩ := lexeme_eq_of_terminal_eq hterminal.symm (by rw [hname]; rfl)
        exact .inl ⟨hkind.trans hname, by rw [hlexeme, htree]⟩
      · have hkind : cursor.current.kind = cursor'.current.kind := congrArg Terminal.kind hterminal.symm
        rw [Token.literal_eq_ok_iff, hterminal, ← Token.literal_eq_ok_iff] at hvalue
        exact .inr ⟨by rwa [hkind], value, hvalue, htree⟩
    exact absurd (hok'.symm.trans herror) (by simp)

/-! ### Operands -/

variable (hinner : NestedPinpoint limit room)

include hinner

theorem blockBody_pinpoints :
    Pinpoints (fun room => blockBody (.withRoom limit room)) closes limit room
      [.ofMark .leftBrace, .ofMark .rightBrace] := by
  let more (kind : Kind) : Bool := !(kind == .mark .rightBrace || kind == .endOfInput)
  have hfollows := Nested.withRoom_follows limit
  have hmore : ∀ kind, endsStatements kind = false → more kind = true := by
    intro kind hkind
    simp only [endsStatements, Bool.or_eq_false_iff] at hkind
    simp [more, hkind.1.2, hkind.2]
  have hends : ∀ kind, more kind = false → EndsStatement kind := by
    rintro _ hkind rfl
    cases hkind
  have hmany : Pinpoints (fun room => many (fun token => more token.kind) (stmts limit room))
      (more · = false) limit room [] :=
    .many (by decide) (fun room => consumes_stmt (hfollows room)) (fun kind _ => hinner.stmt.pinpointsAt kind)
      (fun kind _ => keepsAt_stmt) fun kind hkind => ⟨hkind, hends kind hkind⟩
  have hkeeps : ∀ kind, KeepsAt kind
      (fun room => many (fun token => more token.kind) (stmts limit room)) (more · = false) := by
    intro kind
    refine .of_accepts
      (fun room => Accepts.many (by decide) (consumes_stmt (hfollows room)) fun kind _ =>
      (hfollows room).stmt kind)
      (fun room ts body next next' hbody hnext => ?_) (.of_within fun _ _ hle =>
        .many _ (Nested.withRoom_within hle limit limit).stmt)
    rw [repeats_stmt_iff hmore (by decide)] at hbody ⊢
    exact ⟨hbody.1, hnext⟩
  exact .behind rfl (hmany.bind hkeeps (fun body => .behind rfl (.pure body)) fun _ _ => rfl)

theorem group_pinpointsAt :
    PinpointsAt (.mark .leftParen) (fun room => group (.withRoom limit room)) closes limit room := by
  have hrest := hinner.exprThen .lowest (by decide)
    (fun tree => @Pinpoints.behind _ closes _ _ _ _ .closeGroup _ rfl (.pure tree)) fun _ _ => rfl
  exact .skip ((Pinpoints.refuse (.mark .rightParen) .emptyGroup).bind (fun _ => .refuse _ _) (fun _ => hrest)
    fun _ _ => by simp) (by simp)

theorem builtin_pinpointsAt (function : Builtin) :
    PinpointsAt (.keyword function.word) (fun room => builtin (.withRoom limit room) function)
      closes limit room :=
  .skip (.behind rfl (hinner.exprThen .lowest (by decide)
    (fun tree => .behind rfl (.pure (Tree.builtin function tree))) fun _ _ => rfl)) (by simp)

omit hinner in
theorem sizeOf_pinpointsAt : PinpointsAt (.keyword .sizeofWord) (fun _ => sizeOf) closes limit room :=
  .skip (.behind rfl (.typeNameThen fun type => .behind rfl (.pure (Tree.sizeOf type)))) (by simp)

theorem unsafeBlock_pinpointsAt :
    PinpointsAt (.keyword .unsafeWord) (fun room => unsafeBlock (.withRoom limit room)) closes limit room :=
  .skip ((blockBody_pinpoints hinner).map Tree.unsafeBlock) (by simp)

theorem cast_pinpointsAt :
    PinpointsAt (.keyword .castWord) (fun room => cast (.withRoom limit room)) closes limit room :=
  .skip (.behind rfl (.typeNameThen fun type => .behind rfl (.behind rfl (hinner.exprThen .lowest (by decide)
    (fun tree => .behind rfl (.pure (Tree.cast type tree))) fun _ _ => rfl)))) (by simp)

theorem prefixed_pinpointsAt (op : UnaryOp) :
    PinpointsAt (.mark op.mark) (fun room => prefixed (.withRoom limit room) op) EndsExpression limit room :=
  .skip ((hinner.expr .prefixOp (by decide)).map (Tree.unary op)) (by simp)

omit hinner in
theorem operand_eq {inner : Nested} (cursor : Cursor) :
    operand inner cursor = (match cursor.current.kind with
      | .intLiteral | .floatLiteral | .stringLiteral | .charLiteral | .identifier
      | .keyword .trueWord | .keyword .falseWord => atom
      | .mark .leftParen => group inner
      | .keyword .sizeofWord => sizeOf
      | .keyword .unsafeWord => unsafeBlock inner
      | .keyword .castWord => cast inner
      | .mark mark =>
        match UnaryOp.before? mark with
        | some op => prefixed inner op
        | none => fail .noExpression cursor.current
      | .keyword word =>
        match Builtin.ofWord? word with
        | some function => builtin inner function
        | none => fail .noExpression cursor.current
      | _ => fail .noExpression cursor.current : Parse Tree) cursor := rfl

/-- What starts no operand is refused at once. Otherwise the first token decides which operand is read. -/
theorem operand_pinpointsAt :
    PinpointsAt kind (fun room => operand (.withRoom limit room)) EndsExpression limit room := by
  have hfail (hsame : ∀ room (cursor : Cursor), cursor.current.kind = kind →
      operand (.withRoom limit room) cursor = (failHere .noExpression : Parse Tree) cursor) :
      PinpointsAt kind (fun room => operand (.withRoom limit room)) EndsExpression limit room :=
    (PinpointsAt.failHere .noExpression).congr hsame
  cases kind with
  | intLiteral | floatLiteral | stringLiteral | charLiteral | identifier =>
    exact atom_pinpointsAt.congr fun room cursor hcursor => by rw [operand_eq, hcursor]
  | primitive | invalid | endOfInput =>
    exact hfail fun room cursor hcursor => by rw [operand_eq, hcursor]; rfl
  | mark mark =>
    by_cases hparen : mark = .leftParen
    · subst hparen
      exact (group_pinpointsAt hinner).congr fun room cursor hcursor => by rw [operand_eq, hcursor]
    cases hop : UnaryOp.before? mark with
    | some op =>
      obtain ⟨hbefore, rfl⟩ := before?_eq_some hop
      refine (prefixed_pinpointsAt hinner op).congr fun room cursor hcursor => ?_
      rw [operand_eq, hcursor]
      cases op <;> first | rfl | exact absurd hbefore (by decide)
    | none =>
      refine hfail fun room cursor hcursor => ?_
      rw [operand_eq, hcursor]
      cases mark <;> first | rfl | exact absurd rfl hparen | exact absurd hop (by decide)
  | keyword word =>
    cases hfunction : Builtin.ofWord? word with
    | some function =>
      obtain rfl := ofWord?_eq_some hfunction
      refine (builtin_pinpointsAt hinner function).congr fun room cursor hcursor => ?_
      rw [operand_eq, hcursor]
      cases function <;> rfl
    | none =>
      cases word with
      | trueWord | falseWord =>
        exact atom_pinpointsAt.congr fun room cursor hcursor => by rw [operand_eq, hcursor]
      | sizeofWord => exact sizeOf_pinpointsAt.congr fun room cursor hcursor => by rw [operand_eq, hcursor]
      | unsafeWord =>
        exact (unsafeBlock_pinpointsAt hinner).congr fun room cursor hcursor => by rw [operand_eq, hcursor]
      | castWord =>
        exact (cast_pinpointsAt hinner).congr fun room cursor hcursor => by rw [operand_eq, hcursor]
      | _ =>
        refine hfail fun room cursor hcursor => ?_
        rw [operand_eq, hcursor]
        first | rfl | exact absurd hfunction (by decide)

omit hinner in
theorem hasSample_operand : HasSample (fun room => operand (.withRoom limit room)) closes [.someLiteral] := by
  refine ⟨by simpa using Token.isSpelled_someLiteral, .literal (.int 0), 0,
    fun room _ cursor after hreads _ => ?_⟩
  exact (operand_accepts (Nested.withRoom_follows limit room) _ cursor rfl _ after).2
    ⟨_, hreads, .inl (.literal denotes_someLiteral)⟩

omit hinner in
theorem keepsAt_operand : KeepsAt kind (fun room => operand (.withRoom limit room)) EndsExpression := by
  refine .of_accepts (fun room => operand_accepts (Nested.withRoom_follows limit room)) ?_
    (.of_within fun _ _ hle => .operand (Nested.withRoom_within hle limit limit))
  rintro room ts tree next next' (hprimary | ⟨op, us, operand, hop, rfl, hexpr, rfl, _⟩) hends
  · exact .inl hprimary
  · exact .inr ⟨op, us, operand, hop, rfl, hexpr, rfl, hends.le _⟩

/-! ### Continuations -/

omit hinner in
theorem consumes_exprs {p : Precedence} (hp : p ≤ .prefixOp) (room : Nat) : (exprs limit p room).Consumes :=
  consumes_expr (Nested.withRoom_follows limit room) hp

theorem arguments_pinpoints :
    Pinpoints (fun room => arguments (.withRoom limit room)) closes limit room [.ofMark .rightParen] := by
  have hcomma : Precedence.comma ≤ .prefixOp := by decide
  have hitems : Pinpoints (fun room => listItems (exprs limit .comma room)) (· = .mark .rightParen)
      limit room [] :=
    .listItems (consumes_exprs hcomma) (hinner.expr .comma hcomma) (fun _ => keepsAt_expr hcomma) rfl
  have hkeeps : ∀ kind, KeepsAt kind (fun room => listItems (exprs limit .comma room))
      (· = .mark .rightParen) := by
    intro kind
    refine @KeepsAt.listItems _ _ limit _ (fun room => Grammar.Expr room .assignment)
      (·.precedence ≤ .comma) (consumes_exprs hcomma)
      (fun room => (Nested.withRoom_follows limit room).expr .comma hcomma)
        (fun room ts tree hexpr => ?_) (by decide) (by decide)
      fun _ _ hle => (Nested.withRoom_within hle limit limit).expr .comma
    obtain ⟨first, rest, rfl, _⟩ := hexpr.starts
    simp
  exact hitems.bind hkeeps (fun arguments => .behind rfl (.pure arguments)) fun _ _ => rfl

/-- Only a name can be called. The parenthesis behind anything else is what no program has there. -/
theorem call_pinpointsAt (callee : Tree) :
    PinpointsAt (.mark .leftParen) (fun room => call (.withRoom limit room) callee) closes limit room := by
  cases callee with
  | identifier name => exact .skip ((arguments_pinpoints hinner).map (Tree.call name)) (by simp)
  | _ => exact .of_fails fun room cursor => ⟨_, cursor.advance, rfl, rfl⟩

theorem assignment_pinpointsAt (op : AssignOp) (target : Tree) :
    PinpointsAt (.mark op.mark) (fun room => assignment (.withRoom limit room) op target)
      EndsExpression limit room := by
  cases target with
  | identifier name =>
    exact .skip ((hinner.expr Precedence.assignment.lower (by decide)).map (Tree.assign op name)) (by simp)
  | _ => exact .of_fails fun room cursor => ⟨_, cursor.advance, rfl, rfl⟩

theorem ternary_pinpointsAt (condition : Tree) :
    PinpointsAt (.mark .question) (fun room => ternary (.withRoom limit room) condition)
      EndsExpression limit room :=
  .skip (hinner.exprThen .lowest (by decide) (fun consequent => .behind rfl
    ((hinner.expr Precedence.ternary.lower (by decide)).map (Tree.ternary condition consequent)))
    fun _ _ => rfl) (by simp)

omit hinner in
theorem postfixed_pinpointsAt (op : UnaryOp) (operand : Tree) :
    PinpointsAt (.mark op.mark) (fun _ => postfixed op operand) closes limit room :=
  .skip (.pure (Tree.unary op operand)) (by simp)

theorem binary_pinpointsAt (op : BinaryOp) (left : Tree) :
    PinpointsAt (.mark op.mark) (fun room => binary (.withRoom limit room) op left) EndsExpression
      limit room :=
  .skip (((hinner.expr op.rightPrecedence (rightPrecedence_le op)).rightSideOf op).map
    (Tree.binary op left)) (by simp)

omit hinner in
theorem continuation_eq {inner : Nested} (left : Tree) (cursor : Cursor) :
    continuation inner left cursor = (match cursor.current.kind with
      | .mark .question => ternary inner left
      | .mark .leftParen => call inner left
      | .mark mark =>
        match AssignOp.ofMark? mark, UnaryOp.behind? mark, BinaryOp.ofMark? mark with
        | some op, _, _ => assignment inner op left
        | none, some op, _ => postfixed op left
        | none, none, some op => binary inner op left
        | none, none, none => fail .notAnOperator cursor.current
      | _ => fail .notAnOperator cursor.current : Parse Tree) cursor := rfl

theorem continuation_pinpointsAt (left : Tree) :
    PinpointsAt kind (fun room => continuation (.withRoom limit room) left) EndsExpression limit room := by
  have hfail (hsame : ∀ room (cursor : Cursor), cursor.current.kind = kind →
      continuation (.withRoom limit room) left cursor = (failHere .notAnOperator : Parse Tree) cursor) :
      PinpointsAt kind (fun room => continuation (.withRoom limit room) left) EndsExpression limit room :=
    (PinpointsAt.failHere .notAnOperator).congr hsame
  cases kind with
  | mark mark =>
    cases hassign : AssignOp.ofMark? mark with
    | some op =>
      obtain rfl := assignOp_ofMark?_eq_some hassign
      refine (assignment_pinpointsAt hinner op left).congr fun room cursor hcursor => ?_
      rw [continuation_eq, hcursor]
      cases op <;> rfl
    | none =>
    cases hbehind : UnaryOp.behind? mark with
    | some op =>
      obtain ⟨hop, rfl⟩ := behind?_eq_some hbehind
      refine (postfixed_pinpointsAt op left).congr fun room cursor hcursor => ?_
      rw [continuation_eq, hcursor]
      cases op <;> first | rfl | exact absurd hop (by decide)
    | none =>
    cases hbinary : BinaryOp.ofMark? mark with
    | some op =>
      obtain rfl := binaryOp_ofMark?_eq_some hbinary
      refine (binary_pinpointsAt hinner op left).congr fun room cursor hcursor => ?_
      rw [continuation_eq, hcursor]
      cases op <;> rfl
    | none =>
      cases mark with
      | question =>
        exact (ternary_pinpointsAt hinner left).congr fun room cursor hcursor => by
          rw [continuation_eq, hcursor]
      | leftParen =>
        exact (call_pinpointsAt hinner left).congr fun room cursor hcursor => by rw [continuation_eq, hcursor]
      | _ =>
        refine hfail fun room cursor hcursor => ?_
        rw [continuation_eq, hcursor]
        first
          | rfl
          | exact absurd hassign (by decide)
          | exact absurd hbehind (by decide)
          | exact absurd hbinary (by decide)
  | _ => exact hfail fun room cursor hcursor => by rw [continuation_eq, hcursor]; rfl

omit hinner in
theorem keepsAt_continuation (left : Tree) :
    KeepsAt kind (fun room => continuation (.withRoom limit room) left) EndsExpression := by
  refine .of_accepts (fun room => continuation_accepts (Nested.withRoom_follows limit room) left) ?_
    (.of_within fun _ _ hle => .continuation (Nested.withRoom_within hle limit limit) left)
  intro room ts tree next next' hcontinues hends
  cases hcontinues with
  | ternary hconsequent halternative _ => exact .ternary hconsequent halternative (hends.le _)
  | call hcallee harguments => exact .call hcallee harguments
  | assign htarget hvalue _ => exact .assign htarget hvalue (hends.le _)
  | behind hop => exact .behind hop
  | binary hright _ => exact .binary hright (hends.le _)

/-! ### Climbing -/

theorem climb_pinpoints (p : Precedence) (left : Tree) :
    Pinpoints (fun room => climb (.withRoom limit room) p left) EndsExpression limit room [] := by
  have hlowest : decide (p < Kind.endOfInput.precedence) = false := by
    simp [Precedence.lt_def, Kind.precedence, Precedence.ranks]
  have hconsumes : ∀ left room, (continuation (.withRoom limit room) left).Consumes := by
    intro left room
    refine (continuation_accepts (Nested.withRoom_follows limit room) left).consumes
      fun ts tree next hcontinues => ?_
    cases hcontinues <;> simp
  refine @Pinpoints.repeatWhile _ EndsExpression EndsExpression limit room (fun kind => p < kind.precedence)
    (fun left room => continuation (.withRoom limit room) left) hlowest hconsumes
      (fun _ _ left => continuation_pinpointsAt hinner left)
    (fun _ _ left => keepsAt_continuation left) (fun kind hends => ⟨?_, hends⟩) left
  rw [hends]
  exact hlowest

/-- With parsers for what is nested that fail at the earliest token, so does the parser of
expressions one level further out. -/
theorem expression_pinpoints (p : Precedence) :
    Pinpoints (fun room => expression (.withRoom limit room) p) EndsExpression limit room [.someLiteral] := by
  have hoperand : Pinpoints (fun room => operand (.withRoom limit room)) EndsExpression limit room
      [.someLiteral] :=
    ⟨hasSample_operand, fun _ => operand_pinpointsAt hinner⟩
  exact hoperand.bind (fun _ => keepsAt_operand) (climb_pinpoints hinner p) fun _ hends => hends

end Graded

end Parse

end ObsidianSyntax
