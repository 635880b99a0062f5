import ObsidianSyntax.Proofs.Depth.Plan
import ObsidianSyntax.Proofs.Fault.Expressions
import ObsidianSyntax.Proofs.Parse.Programs

/-!
# The plans of the parsers

One law for each way in which parsers are put together gives the plan of the whole from those of its
parts, and with it that the whole follows its plan, whatever parsers it is given for what is nested.
From the laws come the plans of all productions, and of the parsers for expressions, statements and
programs. A plan is all that later proofs need to know of a production.
-/

namespace ObsidianSyntax

theorem Token.isEnd_eq_false_iff {token : Token} : token.isEnd = false ↔ token.kind ≠ .endOfInput := by
  simp [isEnd]

/-- What names a type is not the end of the input. -/
theorem Token.live_of_namesType {token : Token}
    (hkind : (token.kind.isType || token.kind == .identifier) = true) :
    token.isEnd = false := by
  rw [isEnd_eq_false_iff]
  intro hend
  simp [hend, Kind.isType] at hkind

/-- A plan that a parser follows, whatever parsers it is given for what is nested, and whose loops
all move. -/
structure Planned {α : Type} (parse : Nested → Parse α) where
  plan : Plan α
  run_eq : ∀ inner, plan.run inner = parse inner
  loopsMove : plan.LoopsMove

namespace Planned

variable {α β γ : Type} {parse : Nested → Parse α}

/-- The plan moves, wherever it starts and whatever it has read. -/
def Moves (planned : Planned parse) : Prop := ∀ cursor, planned.plan.Moves (fun _ => True) cursor

/-! ### Laws -/

def done (value : α) : Planned fun _ => pure value := ⟨.done value, fun _ => rfl, trivial⟩

def fail (cause : Cause) (token : Token) (hown : cause.isAboutDepth = false := by rfl) :
    Planned fun _ => (Parse.fail cause token : Parse α) :=
  ⟨.fail cause token hown, fun _ => rfl, trivial⟩

def look : Planned fun _ => (get : Parse Cursor) := ⟨.look .done, fun _ => rfl, fun _ => trivial⟩

def bind {rest : Nested → α → Parse β} (first : Planned parse)
    (next : ∀ value, Planned fun inner => rest inner value) :
    Planned fun inner => parse inner >>= rest inner where
  plan := first.plan.bind fun value => (next value).plan
  run_eq inner := by
    rw [Plan.run_bind, first.run_eq]
    exact congrArg (parse inner >>= ·) (funext fun value => (next value).run_eq inner)
  loopsMove := first.loopsMove.bind fun value => (next value).loopsMove

theorem Moves.bind {rest : Nested → α → Parse β} {first : Planned parse} (hmoves : first.Moves)
    (next : ∀ value, Planned fun inner => rest inner value) : (first.bind next).Moves :=
  fun cursor => (hmoves cursor).bind _

def map (f : α → β) (planned : Planned parse) :
    Planned fun inner => parse inner >>= fun value => Pure.pure (f value) :=
  planned.bind fun value => done (f value)

def current : Planned fun _ => Parse.current := look.bind fun cursor => done cursor.current

def advance : Planned fun _ => Parse.advance :=
  ⟨.look fun cursor => .step (.done cursor.current), fun _ => rfl, fun _ => trivial⟩

def skip (next : Planned parse) : Planned fun inner => (do let _ ← Parse.advance; parse inner) :=
  advance.bind fun _ => next

def ite {p : Prop} [Decidable p] {other : Nested → Parse α} (planned : Planned parse)
    (otherwise : Planned other) :
    Planned fun inner => if p then parse inner else other inner where
  plan := if p then planned.plan else otherwise.plan
  run_eq inner := by
    split
    · exact planned.run_eq inner
    · exact otherwise.run_eq inner
  loopsMove := by
    split
    · exact planned.loopsMove
    · exact otherwise.loopsMove

def failHere (cause : Cause) (hown : cause.isAboutDepth = false := by rfl) :
    Planned fun _ => (Parse.failHere cause : Parse α) :=
  current.bind fun token => fail cause token hown

def isAt (kind : Kind) : Planned fun _ => Parse.isAt kind :=
  current.map fun token : Token => token.kind == kind

def refuse (kind : Kind) (cause : Cause) (hown : cause.isAboutDepth = false := by rfl) :
    Planned fun _ => Parse.refuse kind cause :=
  (isAt kind).bind fun _ => ite (failHere cause hown) (done ())

def ifNext (kind : Kind) (planned : Planned parse) : Planned fun inner => Parse.ifNext kind (parse inner) :=
  (isAt kind).bind fun _ => ite (skip (planned.map some)) (done none)

def unlessAt (kind : Kind) (planned : Planned parse) :
    Planned fun inner => Parse.unlessAt kind (parse inner) :=
  (isAt kind).bind fun _ => ite (done none) (planned.map some)

def take (expectation : Expectation) : Planned fun _ => Parse.take expectation :=
  current.bind fun _ => ite advance (failHere (.missing expectation))

def expect (expectation : Expectation) : Planned fun _ => Parse.expect expectation :=
  (take expectation).map fun _ => ()

def close (expectation : Expectation) (value : α) :
    Planned fun _ => (do Parse.expect expectation; Pure.pure value : Parse α) :=
  (expect expectation).map fun _ => value

def expectName (expectation : Expectation) : Planned fun _ => Parse.expectName expectation :=
  (take expectation).map Token.lexeme

/-- A plan that steps over a token first moves, unless it is at the end of the input. -/
theorem moves_skip {rest : Nested → Token → Parse α} {allowed : Request → Prop} {cursor : Cursor}
    (hlive : cursor.current.isEnd = false) (next : ∀ token, Planned fun inner => rest inner token) :
    (advance.bind next).plan.Moves allowed cursor := .inl hlive

theorem moves_skip_of_kind {rest : Nested → Token → Parse α} {allowed : Request → Prop}
    {cursor : Cursor} {kind : Kind} (hkind : cursor.current.kind = kind)
    (hlive : kind ≠ .endOfInput) (next : ∀ token, Planned fun inner => rest inner token) :
    (advance.bind next).plan.Moves allowed cursor :=
  moves_skip (Parse.isEnd_eq_false_of_kind hkind hlive) next

theorem moves_take {allowed : Request → Prop} (expectation : Expectation) (cursor : Cursor) :
    (take expectation).plan.Moves allowed cursor := by
  show Plan.Moves allowed (if _ then _ else _) cursor
  split
  · next hkind =>
    have hlive : expectation.kind ≠ .endOfInput := by cases expectation <;> exact nofun
    exact .inl (Parse.isEnd_eq_false_of_kind hkind hlive)
  · trivial

/-! ### What is nested -/

def expr (precedence : Precedence) : Planned fun inner => inner.expr precedence :=
  ⟨.ask (.expression precedence) none .done, fun _ => bind_pure _, fun _ => trivial⟩

def stmt : Planned fun inner => inner.stmt :=
  ⟨.ask .statement none .done, fun _ => bind_pure _, fun _ => trivial⟩

def rightSide (op : BinaryOp) (precedence : Precedence) :
    Planned fun inner => Parse.rightSideOf op (inner.expr precedence) :=
  ⟨.ask (.expression precedence) (some op) .done, fun _ => bind_pure _, fun _ => trivial⟩

theorem moves_expr (precedence : Precedence) : (expr precedence).Moves := fun _ => trivial

theorem moves_stmt : stmt.Moves := fun _ => trivial

/-! ### Repetition -/

def repeatWhile {more : Token → Bool} {step : Nested → α → Parse α}
    (hend : ∀ token, token.isEnd = true → more token = false)
    (round : ∀ value, Planned fun inner => step inner value) (hmoves : ∀ value, (round value).Moves)
    (value : α) :
    Planned fun inner => Parse.repeatWhile more (step inner) value where
  plan := .loop more (fun value => (round value).plan) value .done
  run_eq inner := by
    have hround : (fun value => (round value).plan.run inner) = step inner := funext fun value =>
      (round value).run_eq inner
    show Parse.repeatWhile more (fun value => (round value).plan.run inner) value >>= Pure.pure = _
    rw [hround, bind_pure]
  loopsMove := ⟨hend, hmoves, fun value => (round value).loopsMove, fun _ => trivial⟩

def many {more : Token → Bool} (hend : ∀ token, token.isEnd = true → more token = false)
    (item : Planned parse) (hmoves : item.Moves) :
    Planned fun inner => Parse.many more (parse inner) :=
  (repeatWhile hend (fun items : Array α => item.map items.push) (fun _ => hmoves.bind _) #[]).map
    Array.toList

def commaSeparated (item : Planned parse) (hmoves : item.Moves) :
    Planned fun inner => Parse.commaSeparated (parse inner) :=
  item.bind fun first =>
    (many (fun token hend => by simp [beq_iff_eq.1 hend]) (skip item) fun _ => .inr (hmoves _)).map
      (first :: ·)

def listItems (item : Planned parse) (hmoves : item.Moves) :
    Planned fun inner => Parse.listItems (parse inner) :=
  (unlessAt _ (commaSeparated item hmoves)).map fun items : Option (List α) => items.getD []

/-! ### Expressions -/

def typeOr (type : Option TypeName) (token : Token) :
    Planned fun _ => (match type with
      | some type => Pure.pure type
      | none => Parse.fail .noType token : Parse TypeName) :=
  match type with
  | some type => done type
  | none => fail .noType token

def typeName : Planned fun _ => Parse.typeName :=
  current.bind fun token => ite (skip (typeOr (TypeName.ofString? token.lexeme) token)) (fail .noType token)

theorem moves_typeName {allowed : Request → Prop} {cursor : Cursor} : typeName.plan.Moves allowed cursor := by
  show Plan.Moves allowed (if _ then _ else _) cursor
  split
  · next hkind =>
    exact moves_skip (Token.live_of_namesType hkind) _
  · trivial

def blockBody : Planned Parse.blockBody :=
  (expect _).bind fun _ =>
    (many (fun token hend => by simp [hend]) stmt moves_stmt).bind fun statements => close _ statements

def group : Planned Parse.group :=
  skip ((refuse _ _).bind fun _ => (expr _).bind fun tree => close _ tree)

/-- A token that is read as a value, or stopped at for what is wrong with it. -/
def valueOf (token : Token) :
    Planned fun _ => (match token.literal with
      | .ok value => Pure.pure (.literal value)
      | .error cause => Parse.fail cause token : Parse Tree) where
  plan :=
    match hliteral : token.literal with
    | .ok value => .done (.literal value)
    | .error cause => .fail cause token (Token.isAboutDepth_of_literal hliteral)
  run_eq inner := by
    split <;> simp only [*]
    · rfl
    · rfl
  loopsMove := by split <;> trivial

def atom : Planned fun _ => Parse.atom :=
  advance.bind fun token => ite (done (Tree.identifier token.lexeme)) (valueOf token)

def prefixed (op : UnaryOp) : Planned fun inner => Parse.prefixed inner op :=
  skip ((expr _).map (Tree.unary op))

def builtin (function : Builtin) : Planned fun inner => Parse.builtin inner function :=
  skip ((expect _).bind fun _ => (expr _).bind fun tree => close _ (Tree.builtin function tree))

def sizeOf : Planned fun _ => Parse.sizeOf :=
  skip ((expect _).bind fun _ => typeName.bind fun type => close _ (Tree.sizeOf type))

def unsafeBlock : Planned Parse.unsafeBlock := skip (blockBody.map Tree.unsafeBlock)

def cast : Planned Parse.cast :=
  skip ((expect _).bind fun _ => typeName.bind fun type => (expect _).bind fun _ => (expect _).bind fun _ =>
    (expr _).bind fun operand => close _ (Tree.cast type operand))

def operand : Planned Parse.operand where
  plan := .look fun cursor =>
    match cursor.current.kind with
    | .intLiteral | .floatLiteral | .stringLiteral | .charLiteral | .identifier
    | .keyword .trueWord | .keyword .falseWord => atom.plan
    | .mark .leftParen => group.plan
    | .keyword .sizeofWord => sizeOf.plan
    | .keyword .unsafeWord => unsafeBlock.plan
    | .keyword .castWord => cast.plan
    | .mark mark =>
      match UnaryOp.before? mark with
      | some op => (prefixed op).plan
      | none => .fail .noExpression cursor.current rfl
    | .keyword word =>
      match Builtin.ofWord? word with
      | some function => (builtin function).plan
      | none => .fail .noExpression cursor.current rfl
    | _ => .fail .noExpression cursor.current rfl
  run_eq inner := by
    funext cursor
    rw [Plan.run_look, Parse.Graded.operand_eq]
    split <;> try simp only [*, run_eq]
    · next mark _ _ =>
      cases UnaryOp.before? mark with
      | none => rfl
      | some op => exact congrFun ((prefixed op).run_eq inner) cursor
    · next word _ _ _ _ _ _ =>
      cases Builtin.ofWord? word with
      | none => rfl
      | some function => exact congrFun ((builtin function).run_eq inner) cursor
    · rfl
  loopsMove cursor := by
    dsimp only
    split
    iterate 7
      · exact atom.loopsMove
    · exact group.loopsMove
    · exact sizeOf.loopsMove
    · exact unsafeBlock.loopsMove
    · exact cast.loopsMove
    · split
      · exact loopsMove _
      · trivial
    · split
      · exact loopsMove _
      · trivial
    · trivial

def arguments : Planned Parse.arguments :=
  (listItems (expr _) (moves_expr _)).bind fun trees => close _ trees

/-- The parser that goes on with the name of what has been read, or stops if that is no name. -/
def named {rest : Nested → String → Parse Tree} (target : Tree) (cause : Cause) (token : Token)
    (next : ∀ name, Planned fun inner => rest inner name) (hown : cause.isAboutDepth = false := by rfl) :
    Planned fun inner => match target with
      | .identifier name => rest inner name
      | _ => Parse.fail cause token where
  plan :=
    match target with
    | .identifier name => (next name).plan
    | _ => .fail cause token hown
  run_eq inner := by
    cases target with
    | identifier name => exact (next name).run_eq inner
    | _ => rfl
  loopsMove := by
    cases target with
    | identifier name => exact (next name).loopsMove
    | _ => trivial

def call (callee : Tree) : Planned fun inner => Parse.call inner callee :=
  advance.bind fun token => named callee .notCallable token fun name => arguments.map (Tree.call name)

def assignment (op : AssignOp) (target : Tree) : Planned fun inner => Parse.assignment inner op target :=
  advance.bind fun token => named target .notAssignable token fun name => (expr _).map (Tree.assign op name)

def ternary (condition : Tree) : Planned fun inner => Parse.ternary inner condition :=
  skip ((expr _).bind fun consequent => (expect _).bind fun _ =>
    (expr _).map (Tree.ternary condition consequent))

def postfixed (op : UnaryOp) (operand : Tree) : Planned fun _ => Parse.postfixed op operand :=
  skip (done (Tree.unary op operand))

def binary (op : BinaryOp) (left : Tree) : Planned fun inner => Parse.binary inner op left :=
  skip ((rightSide op _).map (Tree.binary op left))

def continuation (left : Tree) : Planned fun inner => Parse.continuation inner left where
  plan := .look fun cursor =>
    match cursor.current.kind with
    | .mark .question => (ternary left).plan
    | .mark .leftParen => (call left).plan
    | .mark mark =>
      match AssignOp.ofMark? mark, UnaryOp.behind? mark, BinaryOp.ofMark? mark with
      | some op, _, _ => (assignment op left).plan
      | none, some op, _ => (postfixed op left).plan
      | none, none, some op => (binary op left).plan
      | none, none, none => .fail .notAnOperator cursor.current rfl
    | _ => .fail .notAnOperator cursor.current rfl
  run_eq inner := by
    funext cursor
    rw [Plan.run_look, Parse.Graded.continuation_eq]
    split <;> try simp only [*, run_eq]
    · split <;> try simp only [*, run_eq]
      rfl
    · rfl
  loopsMove cursor := by
    dsimp only
    split
    · exact loopsMove _
    · exact loopsMove _
    · split
      · exact loopsMove _
      · exact loopsMove _
      · exact loopsMove _
      · trivial
    · trivial

theorem moves_continuation (left : Tree) : (continuation left).Moves := by
  intro cursor
  dsimp only [continuation]
  rw [Plan.moves_look]
  split
  · next hkind => exact moves_skip_of_kind hkind nofun _
  · next hkind => exact moves_skip_of_kind hkind nofun _
  · next hkind =>
    have hlive := Parse.isEnd_eq_false_of_kind hkind nofun
    split
    · exact moves_skip hlive _
    · exact moves_skip hlive _
    · exact moves_skip hlive _
    · trivial
  · trivial

theorem consumes_continuation {inner : Nested} (hinner : inner.Consumes) (left : Tree) :
    (Parse.continuation inner left).Consumes := by
  rw [← (continuation left).run_eq]
  exact Plan.consumes_run hinner (moves_continuation left)

def climb (precedence : Precedence) (left : Tree) : Planned fun inner => Parse.climb inner precedence left :=
  repeatWhile (fun token hend => by
    rw [beq_iff_eq.1 hend]
    exact decide_eq_false (Nat.not_lt_zero _)) continuation moves_continuation left

def expression (precedence : Precedence) : Planned fun inner => Parse.expression inner precedence :=
  operand.bind (climb precedence)

/-! ### Statements -/

def param : Planned fun _ => Parse.param :=
  typeName.bind fun type => (expectName _).map (Param.mk type)

theorem moves_param : param.Moves := fun _ => moves_typeName.bind _

def functionDef : Planned Parse.functionDef :=
  skip ((expectName _).bind fun name => (expect _).bind fun _ =>
    (listItems param moves_param).bind fun params =>
    (expect _).bind fun _ => (ifNext _ typeName).bind fun returnType =>
      blockBody.map (Tree.functionDef name (returnType.getD .void) params))

def varDecl : Planned Parse.varDecl :=
  typeName.bind fun type => (expectName _).bind fun name => (ifNext _ (expr _)).bind fun value =>
    close _ (Tree.varDecl type name value)

def condition (word : Keyword) : Planned fun inner => Parse.condition inner word :=
  skip ((expect _).bind fun _ => (expr _).bind fun tree => close _ tree)

def ifElse : Planned Parse.ifElse :=
  (condition _).bind fun condition => stmt.bind fun consequent =>
    (ifNext _ stmt).map (Tree.ifElse condition consequent)

def whileLoop : Planned Parse.whileLoop :=
  (condition _).bind fun condition => stmt.map (Tree.whileLoop condition)

def forLoop : Planned Parse.forLoop :=
  skip ((expect _).bind fun _ => (unlessAt _ (expr _)).bind fun start => (expect _).bind fun _ =>
    (unlessAt _ (expr _)).bind fun condition => (expect _).bind fun _ =>
    (unlessAt _ (expr _)).bind fun step => (expect _).bind fun _ =>
      stmt.map (Tree.forLoop start condition step))

def returnStmt : Planned Parse.returnStmt :=
  skip ((unlessAt _ (expr _)).bind fun value => close _ (Tree.returnStmt value))

def printlnStmt : Planned Parse.printlnStmt := (builtin _).bind fun tree => close _ tree

def expressionStmt : Planned Parse.expressionStmt := (expr _).bind fun tree => close _ tree

def statement : Planned Parse.statement where
  plan := .look fun cursor =>
    match cursor.current.kind with
    | .mark .leftBrace => (blockBody.map Tree.block).plan
    | .keyword .fnWord => functionDef.plan
    | .keyword .ifWord => ifElse.plan
    | .keyword .whileWord => whileLoop.plan
    | .keyword .forWord => forLoop.plan
    | .keyword .returnWord => returnStmt.plan
    | .keyword .printlnWord => printlnStmt.plan
    | .primitive _ => varDecl.plan
    | .identifier => if (cursor.peek 1).kind = .identifier then varDecl.plan else expressionStmt.plan
    | _ => expressionStmt.plan
  run_eq inner := by
    funext cursor
    rw [Plan.run_look, Parse.statement_eq]
    split <;> simp only [*, run_eq]
    split <;> simp only [run_eq]
  loopsMove cursor := by
    dsimp only
    split
    iterate 8
      · exact loopsMove _
    · split <;> exact loopsMove _
    · exact loopsMove _

def program : Planned Parse.programWith :=
  (many (fun token hend => by simp [hend]) stmt moves_stmt).map Tree.block

/-! ### What the plans start with -/

theorem moves_operand {allowed : Request → Prop} {cursor : Cursor} : operand.plan.Moves allowed cursor := by
  dsimp only [operand]
  rw [Plan.moves_look]
  split
  iterate 11
    · next hkind => exact moves_skip_of_kind hkind nofun _
  · next hkind =>
    split
    · exact moves_skip_of_kind hkind nofun _
    · trivial
  · next hkind =>
    split
    · exact moves_skip_of_kind hkind nofun _
    · trivial
  · trivial

end Planned

/-- How much what is asked for may read before it steps over a token: a statement may be an
expression, which has to start with a token. -/
def Request.rank : Request → Nat
  | .expression _ => 0
  | .statement => 1

theorem Request.rank_le (request : Request) : request.rank ≤ 1 := by
  cases request <;> simp [rank]

/-- The plan of what is asked for. -/
def Request.plan : Request → Plan Tree
  | .expression precedence => (Planned.expression precedence).plan
  | .statement => Planned.statement.plan

/-- What is asked for steps over a token before it has anything of its own rank read. -/
theorem Request.moves_plan (request : Request) (cursor : Cursor) :
    request.plan.Moves (fun other => other.rank < request.rank) cursor := by
  cases request with
  | expression precedence => exact Planned.moves_operand.bind _
  | statement =>
    dsimp only [plan, Planned.statement]
    rw [Plan.moves_look]
    split
    · exact (((Planned.moves_take _ cursor).bind _).bind _).bind _
    · next hkind => exact Planned.moves_skip_of_kind hkind nofun _
    · next hkind => exact (Planned.moves_skip_of_kind hkind nofun _).bind _
    · next hkind => exact (Planned.moves_skip_of_kind hkind nofun _).bind _
    · next hkind => exact Planned.moves_skip_of_kind hkind nofun _
    · next hkind => exact Planned.moves_skip_of_kind hkind nofun _
    · next hkind => exact (Planned.moves_skip_of_kind hkind nofun _).bind _
    · exact Planned.moves_typeName.bind _
    · split
      · exact Planned.moves_typeName.bind _
      · exact Nat.zero_lt_one
    · exact Nat.zero_lt_one

theorem Request.loopsMove_plan (request : Request) : request.plan.LoopsMove := by
  cases request with
  | expression precedence => exact (Planned.expression precedence).loopsMove
  | statement => exact Planned.statement.loopsMove

theorem Nested.answer_withRoom_succ (limit room : Nat) (request : Request) :
    (withRoom limit (room + 1)).answer request = request.plan.run (withRoom limit room) := by
  cases request with
  | expression precedence => exact ((Planned.expression precedence).run_eq _).symm
  | statement => exact (Planned.statement.run_eq _).symm

theorem Nested.answer_withRoom_zero (limit : Nat) (request : Request) :
    (withRoom limit 0).answer request = Parse.failHere (.tooDeep request.construct limit) := by
  cases request <;> rfl

/-- However many levels may nest, what is nested is at least one token. -/
theorem Nested.withRoom_consumes (limit room : Nat) : (withRoom limit room).Consumes := by
  induction room with
  | zero =>
    intro request cursor tree after hok
    rw [answer_withRoom_zero] at hok
    exact absurd hok Parse.failHere_ne_ok
  | succ room ih =>
    intro request
    rw [answer_withRoom_succ]
    exact Plan.consumes_run ih request.moves_plan

/-! ### Levels enough -/

/-- What a repetition stops with is what one of its steps stops with. -/
theorem Plan.exists_of_repeatFor_eq_error {α : Type} {more : Token → Bool} {step : α → Parse α}
    (hstep : ∀ value cursor next after, step value cursor = .ok next after →
      after.rest.length ≤ cursor.rest.length) (rounds : List Token) :
    ∀ value cursor fault after, Parse.repeatFor more step rounds value cursor = .error fault after →
        ∃ value' cursor', cursor'.rest.length ≤ cursor.rest.length ∧ step value' cursor' =
          .error fault after := by
  induction rounds with
  | nil =>
    intro value cursor fault after herror
    cases herror
  | cons round rounds ih =>
    intro value cursor fault after herror
    rw [Parse.repeatFor_cons] at herror
    split at herror
    · obtain hfirst | ⟨next, middle, hok, hrest⟩ := Parse.bind_eq_error herror
      · exact ⟨value, cursor, Nat.le_refl _, hfirst⟩
      · obtain ⟨value', cursor', hle, hlater⟩ := ih _ _ _ _ hrest
        exact ⟨value', cursor', Nat.le_trans hle (hstep _ _ _ _ hok), hlater⟩
    · cases herror

/-- Nothing that starts with few enough tokens left is refused for its depth. -/
def Nested.Spares (inner : Nested) (bound : Nat) : Prop :=
  ∀ request cursor fault after, 2 * cursor.rest.length + request.rank < bound →
    inner.answer request cursor = .error fault after → fault.cause.isAboutDepth = false

namespace Plan

variable {α : Type} {inner : Nested} {bound : Nat} {plan : Plan α} {cursor after : Cursor} {fault : Fault}

theorem isAboutDepth_of_readFor {request : Request} {operator : Option BinaryOp}
    (hspares : inner.Spares bound) (hfew : 2 * cursor.rest.length + request.rank < bound)
    (herror : (inner.answer request).readFor operator cursor = .error fault after) :
    fault.cause.isAboutDepth = false := by
  rw [Parse.readFor_eq] at herror
  split at herror <;> cases herror
  next hanswer =>
    rw [Fault.cause_seenFrom]
    exact hspares _ _ _ _ hfew hanswer

/-- With few enough tokens left, no plan comes to a fault about depth. -/
theorem isAboutDepth_of_run (hinner : inner.Consumes) (hspares : inner.Spares bound)
    (hfew : 2 * cursor.rest.length + 1 < bound)
    (herror : plan.run inner cursor = .error fault after) : fault.cause.isAboutDepth = false := by
  induction plan generalizing cursor after with
  | done value => cases herror
  | fail cause token hown =>
    cases herror
    exact hown
  | look next ih => exact ih cursor hfew herror
  | step next ih =>
    have hle := Parse.length_advance_le cursor
    exact ih (by omega) herror
  | ask request operator next ih =>
    have hrank := request.rank_le
    obtain hanswer | ⟨tree, middle, hanswer, hrest⟩ := Parse.bind_eq_error herror
    · exact isAboutDepth_of_readFor hspares (by omega) hanswer
    · have hless := hinner request _ _ _ (answer_readFor_eq_ok hanswer)
      exact ih tree (by omega) hrest
  | loop more round value next ihround ih =>
    have hback : ∀ value cursor next after, (round value).run inner cursor = .ok next after →
        after.rest.length ≤ cursor.rest.length :=
      fun _ _ _ _ hok => length_le_of_run hinner hok
    obtain hloop | ⟨result, middle, hloop, hrest⟩ := Parse.bind_eq_error herror
    · obtain ⟨value', cursor', hle, hround⟩ := exists_of_repeatFor_eq_error hback _ _ _ _ _ hloop
      exact ihround value' (by omega) hround
    · have hle := length_le_of_repeatFor hback _ _ _ _ _ hloop
      exact ih result (by omega) hrest

/-- A plan that moves may start with some more tokens left, as it has nothing read at once that may
start with as many. -/
theorem Moves.isAboutDepth_of_run {rank : Nat} (hinner : inner.Consumes)
    (hspares : inner.Spares bound) (hmoves : plan.Moves (fun request => request.rank < rank) cursor)
    (hfew : 2 * cursor.rest.length + rank ≤ bound)
    (herror : plan.run inner cursor = .error fault after) : fault.cause.isAboutDepth = false := by
  induction plan generalizing cursor with
  | done value => exact hmoves.elim
  | fail cause token hown =>
    cases herror
    exact hown
  | look next ih => exact ih cursor hmoves hfew herror
  | step next ih =>
    have hrest : next.run inner cursor.advance = .error fault after := herror
    obtain hless | ⟨hsame, hmoves⟩ := hmoves.step_cases
    · exact Plan.isAboutDepth_of_run hinner hspares (by omega) hrest
    · rw [hsame] at hrest
      exact ih hmoves hfew hrest
  | ask request operator next _ =>
    have hlower : request.rank < rank := hmoves
    obtain hanswer | ⟨tree, middle, hanswer, hrest⟩ := Parse.bind_eq_error herror
    · exact isAboutDepth_of_readFor hspares (by omega) hanswer
    · have hless := hinner request _ _ _ (answer_readFor_eq_ok hanswer)
      exact Plan.isAboutDepth_of_run hinner hspares (by omega) hrest
  | loop => exact hmoves.elim

end Plan

/-- With two levels for each token left, nothing is refused for its depth. -/
theorem Nested.withRoom_spares (limit room : Nat) : (withRoom limit room).Spares room := by
  induction room with
  | zero => exact fun _ _ _ _ hfew => absurd hfew (Nat.not_lt_zero _)
  | succ room ih =>
    intro request cursor fault after hfew herror
    rw [answer_withRoom_succ] at herror
    exact (request.moves_plan cursor).isAboutDepth_of_run (withRoom_consumes limit room) ih (by omega) herror

end ObsidianSyntax
