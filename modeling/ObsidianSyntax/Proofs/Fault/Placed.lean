import ObsidianSyntax.Proofs.Depth.Planned
import ObsidianSyntax.Proofs.Token.Stream

/-!
# Where the faults of a plan stand

Most faults stand at the token that the cursor is at. A few are found out only once the token has
been stepped over: that a literal has no value, or that what stands before a parenthesis or an
assignment is no name. These stand at the token directly behind the cursor. Which of both it is
depends on the cause alone.

Two causes are never found at all: that a token continues an expression and is no operator, and that
the text of a floating-point literal is no number. The first would need a token that binds what
stands before it without being an operator, the second a literal that is not spelled as one.

Nothing is read for the right side of a binary operator unless the mark of the operator has just
been stepped over. All this holds of a plan if it holds of its parts, so there is one law for each
way in which plans are put together, as for the plans themselves.
-/

namespace ObsidianSyntax

/-- Whether the cause is found out about a token that has been stepped over. -/
def Cause.isAboutPassed : Cause → Bool
  | .notAssignable | .notCallable | .integerTooLarge | .malformedChar => true
  | _ => false

/-- Whether the cause is ever found. The other ones are for what a token cannot be where they are
looked for. -/
def Cause.arises : Cause → Bool
  | .malformedFloat | .notAnOperator => false
  | _ => true

theorem Cause.arises_of_isAboutPassed {cause : Cause} (hpassed : cause.isAboutPassed = true) :
    cause.arises = true := by
  cases cause <;> first | rfl | cases hpassed

/-- A mark that is no operator binds nothing before it. -/
theorem Mark.precedence_of_none {mark : Mark} (hquestion : mark ≠ .question)
    (hparen : mark ≠ .leftParen) (hassign : AssignOp.ofMark? mark = none)
    (hbehind : UnaryOp.behind? mark = none) (hbinary : BinaryOp.ofMark? mark = none) :
    mark.precedence = .lowest := by
  cases mark <;> first | rfl | contradiction

/-- Only marks bind what stands before them. -/
theorem Kind.exists_mark_of_binds {kind : Kind} (hbinds : .lowest < kind.precedence) :
    ∃ mark, kind = .mark mark := by
  cases kind with
  | mark mark => exact ⟨mark, rfl⟩
  | _ => exact absurd hbinds (Nat.lt_irrefl 0)

namespace Cursor

/-- The token that has been stepped over last, after a further step. The end of the input is never
stepped over. -/
def passed (last : Option Token) (cursor : Cursor) : Option Token :=
  if cursor.current.isEnd then last else some cursor.current

theorem passed_of_live {cursor : Cursor} (hlive : cursor.current.isEnd = false) (last : Option Token) :
    cursor.passed last = some cursor.current := by
  simp [passed, hlive]

/-- The tokens ahead are all allowed. -/
def Ahead (allowed : Token → Prop) (cursor : Cursor) : Prop := ∀ token ∈ cursor.rest, allowed token

/-- The tokens ahead have the kinds that their texts spell. -/
def IsFaithful (cursor : Cursor) : Prop := ∀ token ∈ cursor.rest, token.IsFaithful

variable {allowed : Token → Prop} {cursor : Cursor}

theorem Ahead.advance (hahead : cursor.Ahead allowed) : cursor.advance.Ahead allowed := by
  intro token hmem
  unfold Cursor.advance at hmem
  split at hmem
  · exact hahead token hmem
  · exact hahead token (List.mem_of_mem_drop hmem)

theorem Ahead.current (hahead : cursor.Ahead allowed) (hlive : cursor.current.isEnd = false) :
    allowed cursor.current := by
  obtain ⟨rest, endToken, hend⟩ := cursor
  cases rest with
  | nil => exact absurd (hlive.symm.trans hend) (by simp)
  | cons token rest => exact hahead token List.mem_cons_self

theorem IsFaithful.advance (hfaithful : cursor.IsFaithful) : cursor.advance.IsFaithful :=
  Ahead.advance hfaithful

theorem IsFaithful.current (hfaithful : cursor.IsFaithful) (hlive : cursor.current.isEnd = false) :
    cursor.current.IsFaithful :=
  Ahead.current hfaithful hlive

end Cursor

theorem Cursor.live_of_mark {cursor : Cursor} {mark : Mark} (hkind : cursor.current.kind = .mark mark) :
    cursor.current.isEnd = false :=
  Parse.isEnd_eq_false_of_kind hkind (by simp)

/-- What names a type is not empty. -/
theorem Token.IsFaithful.exists_typeName {token : Token} (hfaithful : token.IsFaithful)
    (hkind : (token.kind.isType || token.kind == .identifier) = true) :
    ∃ type, TypeName.ofString? token.lexeme = some type := by
  have hspells : Spells token.lexeme.toList token.kind := by
    apply hfaithful.spells <;> intro hkind' <;> simp [hkind', Kind.isType] at hkind
  have hne : token.lexeme ≠ "" := by simpa using hspells.ne_nil
  exact ⟨_, dif_neg hne⟩

theorem Spells.ofLiteral?_ne_none {text : List Char} (hspells : Spells text .floatLiteral) :
    Binary64.ofLiteral? text ≠ none := by
  cases hspells with
  | reserved _ htable => exact absurd htable (by simp [Kind.reservedWords])
  | float hwhole hplaces => simp [Binary64.ofLiteral?_eq_some_iff.2 ⟨_, _, hwhole, hplaces, rfl, rfl⟩]

/-- What is wrong with the text of a literal is found out once it has been stepped over. -/
theorem Token.IsFaithful.isAboutPassed_of_literal {token : Token} {cause : Cause}
    (hfaithful : token.IsFaithful)
    (hkind : token.kind ∈ [.intLiteral, .floatLiteral, .stringLiteral, .charLiteral,
      .keyword .trueWord, .keyword .falseWord]) (herror : token.literal = .error cause) :
    cause.isAboutPassed = true := by
  unfold Token.literal at herror
  split at herror
  · split at herror <;> cases herror
    rfl
  · next hfloat =>
    have hspells : Spells token.lexeme.toList .floatLiteral := by
      rw [← hfloat]
      exact hfaithful.spells (by simp [hfloat]) (by simp [hfloat])
    split at herror <;> cases herror
    next hnone => exact absurd hnone hspells.ofLiteral?_ne_none
  · split at herror <;> cases herror
    rfl
  · cases herror
  · cases herror
  · cases herror
  · simp_all

/-- The token is the one at the cursor, or for causes about what has been stepped over the last one
before it. -/
def Cause.IsFoundAt (cause : Cause) (last : Option Token) (cursor : Cursor) (token : Token) : Prop :=
  if cause.isAboutPassed then last = some token else cursor.current = token

namespace Plan

variable {α β : Type}

/-- The plan stops for causes that are found, at the tokens at which they are, and has the right
side of an operator read directly behind the mark of the operator. -/
def Places {α : Type} : Plan α → Option Token → Cursor → Prop
  | done _, _, _ => True
  | fail cause token _, last, cursor => cause.arises = true ∧ cause.IsFoundAt last cursor token
  | look next, last, cursor => Places (next cursor) last cursor
  | step next, last, cursor => Places next (cursor.passed last) cursor.advance
  | ask request operator next, last, _ =>
    (∀ op ∈ operator, request = .expression op.rightPrecedence ∧ ∃ token ∈ last, token.kind = .mark op.mark) ∧
      ∀ tree last cursor, cursor.IsFaithful → Places (next tree) last cursor
  | loop more round _ next, _, _ =>
    ∀ value last cursor, cursor.IsFaithful →
      (more cursor.current = true → Places (round value) last cursor) ∧ Places (next value) last cursor

theorem places_look (next : Cursor → Plan α) (last : Option Token) (cursor : Cursor) :
    (look next).Places last cursor = (next cursor).Places last cursor := rfl

/-- With a cause about what is at the cursor, a plan may stop there. -/
theorem places_fail_current {cause : Cause} {hown : cause.isAboutDepth = false}
    (harises : cause.arises = true) (hhere : cause.isAboutPassed = false) (last : Option Token)
    (cursor : Cursor) :
    (fail cause cursor.current hown : Plan α).Places last cursor :=
  ⟨harises, by simp [Cause.IsFoundAt, hhere]⟩

theorem Places.bind {plan : Plan α} {rest : α → Plan β} {last : Option Token} {cursor : Cursor}
    (hfaithful : cursor.IsFaithful) (hplaces : plan.Places last cursor)
    (hrest : ∀ value last cursor, cursor.IsFaithful → (rest value).Places last cursor) :
    (plan.bind rest).Places last cursor := by
  induction plan generalizing last cursor with
  | done value => exact hrest value last cursor hfaithful
  | fail cause token hown => exact hplaces
  | look next ih => exact ih cursor hfaithful hplaces hrest
  | step next ih => exact ih hfaithful.advance hplaces hrest
  | ask request operator next ih =>
    exact ⟨hplaces.1, fun tree last cursor hfaithful =>
      ih tree hfaithful (hplaces.2 tree last cursor hfaithful) hrest⟩
  | loop more round value next _ ih =>
    intro value last cursor hfaithful
    obtain ⟨hround, hnext⟩ := hplaces value last cursor hfaithful
    exact ⟨hround, ih value hfaithful hnext hrest⟩

end Plan

namespace Planned

variable {α β : Type} {parse : Nested → Parse α} {last : Option Token} {cursor : Cursor}

/-- The plan places its faults, wherever it starts and whatever stands before. -/
def Places (planned : Planned parse) : Prop :=
  ∀ last cursor, cursor.IsFaithful → planned.plan.Places last cursor

/-! ### Laws -/

theorem places_done (value : α) : (done value).Places := fun _ _ _ => trivial

theorem Places.bind {rest : Nested → α → Parse β} {first : Planned parse}
    {next : ∀ value, Planned fun inner => rest inner value} (hfirst : first.Places)
    (hnext : ∀ value, (next value).Places) : (first.bind next).Places :=
  fun last cursor hfaithful => (hfirst last cursor hfaithful).bind hfaithful hnext

theorem Places.map {f : α → β} {planned : Planned parse} (hplaces : planned.Places) :
    (planned.map f).Places :=
  hplaces.bind fun value => places_done (f value)

theorem places_current : current.Places := fun _ _ _ => trivial

theorem places_advance : advance.Places := fun _ _ _ => trivial

theorem Places.skip {planned : Planned parse} (hplaces : planned.Places) : (skip planned).Places :=
  places_advance.bind fun _ => hplaces

theorem Places.ite {p : Prop} [Decidable p] {other : Nested → Parse α} {planned : Planned parse}
    {otherwise : Planned other} (hplaces : planned.Places) (hotherwise : otherwise.Places) :
    (ite (p := p) planned otherwise).Places := by
  intro last cursor hfaithful
  show Plan.Places (if p then _ else _) last cursor
  split
  · exact hplaces last cursor hfaithful
  · exact hotherwise last cursor hfaithful

theorem places_failHere {cause : Cause} {hown : cause.isAboutDepth = false}
    (harises : cause.arises = true) (hhere : cause.isAboutPassed = false) :
    (failHere cause hown : Planned fun _ => (Parse.failHere cause : Parse α)).Places :=
  fun last cursor _ => Plan.places_fail_current harises hhere last cursor

theorem places_isAt (kind : Kind) : (isAt kind).Places := places_current.map

theorem places_refuse {kind : Kind} {cause : Cause} {hown : cause.isAboutDepth = false}
    (harises : cause.arises = true) (hhere : cause.isAboutPassed = false) :
    (refuse kind cause hown).Places :=
  (places_isAt kind).bind fun _ => (places_failHere harises hhere).ite (places_done ())

theorem Places.ifNext {kind : Kind} {planned : Planned parse} (hplaces : planned.Places) :
    (ifNext kind planned).Places :=
  (places_isAt kind).bind fun _ => hplaces.map.skip.ite (places_done none)

theorem Places.unlessAt {kind : Kind} {planned : Planned parse} (hplaces : planned.Places) :
    (unlessAt kind planned).Places :=
  (places_isAt kind).bind fun _ => (places_done none).ite hplaces.map

theorem places_take (expectation : Expectation) : (take expectation).Places :=
  places_current.bind fun _ => places_advance.ite (places_failHere rfl rfl)

theorem places_expect (expectation : Expectation) : (expect expectation).Places :=
  (places_take expectation).map

theorem places_close (expectation : Expectation) (value : α) : (close expectation value).Places :=
  (places_expect expectation).map

theorem places_expectName (expectation : Expectation) : (expectName expectation).Places :=
  (places_take expectation).map

/-! ### What is nested -/

theorem places_expr (precedence : Precedence) : (expr precedence).Places :=
  fun _ _ _ => ⟨nofun, fun _ _ _ _ => trivial⟩

theorem places_stmt : stmt.Places := fun _ _ _ => ⟨nofun, fun _ _ _ _ => trivial⟩

/-- The right side of an operator is read behind its mark. -/
theorem places_rightSide {op : BinaryOp} {token : Token} (hkind : token.kind = .mark op.mark)
    (cursor : Cursor) :
    (rightSide op op.rightPrecedence).plan.Places (some token) cursor := by
  refine ⟨fun other hother => ?_, fun _ _ _ _ => trivial⟩
  obtain rfl : op = other := by simpa using hother
  exact ⟨rfl, token, rfl, hkind⟩

/-! ### Repetition -/

section

variable {more : Token → Bool} {hend : ∀ token, token.isEnd = true → more token = false}

theorem places_repeatWhile {step : Nested → α → Parse α}
    {round : ∀ value, Planned fun inner => step inner value} {hmoves : ∀ value, (round value).Moves}
    (value : α)
    (hround : ∀ value last cursor, cursor.IsFaithful → more cursor.current = true →
      (round value).plan.Places last cursor) :
    (repeatWhile hend round hmoves value).Places :=
  fun _ _ _ value last cursor hfaithful => ⟨hround value last cursor hfaithful, trivial⟩

theorem Places.many {item : Planned parse} {hmoves : item.Moves} (hplaces : item.Places) :
    (many hend item hmoves).Places := by
  refine (places_repeatWhile _ fun items last cursor hfaithful _ => ?_).map
  exact hplaces.map last cursor hfaithful

end

theorem Places.commaSeparated {item : Planned parse} {hmoves : item.Moves} (hplaces : item.Places) :
    (commaSeparated item hmoves).Places :=
  hplaces.bind fun _ => hplaces.skip.many.map

theorem Places.listItems {item : Planned parse} {hmoves : item.Moves} (hplaces : item.Places) :
    (listItems item hmoves).Places :=
  hplaces.commaSeparated.unlessAt.map

/-! ### Expressions -/

theorem places_typeName : typeName.Places := by
  intro last cursor hfaithful
  show Plan.Places (if _ then _ else _) last cursor
  split
  · next hkind =>
    have hlive := Token.live_of_namesType hkind
    obtain ⟨type, htype⟩ := (hfaithful.current hlive).exists_typeName hkind
    show (typeOr (TypeName.ofString? cursor.current.lexeme) cursor.current).plan.Places _ _
    rw [htype]
    trivial
  · exact Plan.places_fail_current rfl rfl last cursor

theorem places_blockBody : blockBody.Places :=
  (places_expect _).bind fun _ => places_stmt.many.bind fun _ => places_close _ _

theorem places_group : group.Places :=
  ((places_refuse rfl rfl).bind fun _ => (places_expr _).bind fun _ => places_close _ _).skip

/-- Names and values are not the end of the input. -/
theorem live_of_atom
    (hkind : cursor.current.kind ∈ [.intLiteral, .floatLiteral, .stringLiteral, .charLiteral,
      .identifier, .keyword .trueWord, .keyword .falseWord]) :
    cursor.current.isEnd = false := by
  rw [Token.isEnd_eq_false_iff]
  intro hend
  simp [hend] at hkind

/-- A literal is stepped over before its text is read. -/
theorem places_atom (hfaithful : cursor.IsFaithful)
    (hkind : cursor.current.kind ∈ [.intLiteral, .floatLiteral, .stringLiteral, .charLiteral,
      .identifier, .keyword .trueWord, .keyword .falseWord]) :
    atom.plan.Places last cursor := by
  have hlive := live_of_atom hkind
  show Plan.Places (if cursor.current.kind = .identifier then _ else _) (cursor.passed last) cursor.advance
  split
  · trivial
  · next hname =>
    rw [Cursor.passed_of_live hlive]
    dsimp only [valueOf]
    split
    · trivial
    · next cause herror =>
      have hpassed := (hfaithful.current hlive).isAboutPassed_of_literal (by simpa [hname] using hkind) herror
      exact ⟨cause.arises_of_isAboutPassed hpassed, by simp [Cause.IsFoundAt, hpassed]⟩

theorem places_prefixed (op : UnaryOp) : (prefixed op).Places := (places_expr _).map.skip

theorem places_builtin (function : Builtin) : (builtin function).Places :=
  ((places_expect _).bind fun _ => (places_expr _).bind fun _ => places_close _ _).skip

theorem places_sizeOf : sizeOf.Places :=
  ((places_expect _).bind fun _ => places_typeName.bind fun _ => places_close _ _).skip

theorem places_unsafeBlock : unsafeBlock.Places := places_blockBody.map.skip

theorem places_cast : cast.Places :=
  ((places_expect _).bind fun _ => places_typeName.bind fun _ => (places_expect _).bind fun _ =>
    (places_expect _).bind fun _ =>
    (places_expr _).bind fun _ => places_close _ _).skip

theorem places_operand : operand.Places := by
  intro last cursor hfaithful
  dsimp only [operand]
  rw [Plan.places_look]
  split
  iterate 7
    · next hkind => exact places_atom hfaithful (by simp [hkind])
  · exact places_group last cursor hfaithful
  · exact places_sizeOf last cursor hfaithful
  · exact places_unsafeBlock last cursor hfaithful
  · exact places_cast last cursor hfaithful
  · split
    · exact places_prefixed _ last cursor hfaithful
    · exact Plan.places_fail_current rfl rfl last cursor
  · split
    · exact places_builtin _ last cursor hfaithful
    · exact Plan.places_fail_current rfl rfl last cursor
  · exact Plan.places_fail_current rfl rfl last cursor

theorem places_arguments : arguments.Places := (places_expr _).listItems.bind fun _ => places_close _ _

/-- What is no name has been stepped over when that is found out. -/
theorem places_named {rest : Nested → String → Parse Tree} {target : Tree} {cause : Cause}
    {hown : cause.isAboutDepth = false} {next : ∀ name, Planned fun inner => rest inner name}
    (hpassed : cause.isAboutPassed = true) (hnext : ∀ name, (next name).Places) (token : Token)
    (hfaithful : cursor.IsFaithful) :
    (named target cause token next hown).plan.Places (some token) cursor := by
  cases target with
  | identifier name => exact hnext name _ cursor hfaithful
  | _ => exact ⟨cause.arises_of_isAboutPassed hpassed, by simp [Cause.IsFoundAt, hpassed]⟩

theorem places_call (callee : Tree) (hfaithful : cursor.IsFaithful) (hlive : cursor.current.isEnd = false) :
    (call callee).plan.Places last cursor := by
  show (named _ _ cursor.current _ _).plan.Places (cursor.passed last) cursor.advance
  rw [Cursor.passed_of_live hlive]
  exact places_named rfl (fun _ => places_arguments.map) cursor.current hfaithful.advance

theorem places_assignment (op : AssignOp) (target : Tree) (hfaithful : cursor.IsFaithful)
    (hlive : cursor.current.isEnd = false) :
    (assignment op target).plan.Places last cursor := by
  show (named _ _ cursor.current _ _).plan.Places (cursor.passed last) cursor.advance
  rw [Cursor.passed_of_live hlive]
  exact places_named rfl (fun _ => (places_expr _).map) cursor.current hfaithful.advance

theorem places_ternary (condition : Tree) : (ternary condition).Places :=
  ((places_expr _).bind fun _ => (places_expect _).bind fun _ => (places_expr _).map).skip

theorem places_postfixed (op : UnaryOp) (operand : Tree) : (postfixed op operand).Places :=
  (places_done _).skip

theorem places_binary {op : BinaryOp} (left : Tree) (hfaithful : cursor.IsFaithful)
    (hkind : cursor.current.kind = .mark op.mark) :
    (binary op left).plan.Places last cursor := by
  show ((rightSide op _).map _).plan.Places (cursor.passed last) cursor.advance
  rw [Cursor.passed_of_live (Cursor.live_of_mark hkind)]
  exact (places_rightSide hkind _).bind hfaithful.advance fun _ _ _ _ => trivial

/-- A token that binds what stands before it is an operator, so nothing else is found where one is
looked for. -/
theorem places_continuation (left : Tree) (hfaithful : cursor.IsFaithful)
    (hbinds : .lowest < cursor.current.kind.precedence) :
    (continuation left).plan.Places last cursor := by
  dsimp only [continuation]
  rw [Plan.places_look]
  split
  · exact places_ternary left last cursor hfaithful
  · next hkind => exact places_call left hfaithful (Cursor.live_of_mark hkind)
  · next mark hquestion hparen hkind =>
    have hlive := Cursor.live_of_mark hkind
    split
    · exact places_assignment _ left hfaithful hlive
    · exact places_postfixed _ left last cursor hfaithful
    · next op _ _ hbinary =>
      obtain rfl := Parse.binaryOp_ofMark?_eq_some hbinary
      exact places_binary left hfaithful hkind
    · next hassign hbehind hbinary =>
      rw [hkind, Kind.precedence, Mark.precedence_of_none hquestion hparen hassign hbehind hbinary] at hbinds
      exact absurd hbinds (by decide)
  · next hmark =>
    obtain ⟨mark, hkind⟩ := Kind.exists_mark_of_binds hbinds
    exact absurd hkind (hmark mark)

theorem places_climb (precedence : Precedence) (left : Tree) : (climb precedence left).Places :=
  places_repeatWhile left fun left _ _ hfaithful hmore =>
    places_continuation left hfaithful (Nat.lt_of_le_of_lt (Nat.zero_le _) (of_decide_eq_true hmore))

theorem places_expression (precedence : Precedence) : (expression precedence).Places :=
  places_operand.bind (places_climb precedence)

/-! ### Statements -/

theorem places_param : param.Places := places_typeName.bind fun _ => (places_expectName _).map

theorem places_functionDef : functionDef.Places :=
  ((places_expectName _).bind fun _ => (places_expect _).bind fun _ => places_param.listItems.bind fun _ =>
    (places_expect _).bind fun _ => places_typeName.ifNext.bind fun _ => places_blockBody.map).skip

theorem places_varDecl : varDecl.Places :=
  places_typeName.bind fun _ => (places_expectName _).bind fun _ =>
    (places_expr _).ifNext.bind fun _ => places_close _ _

theorem places_condition (word : Keyword) : (condition word).Places :=
  ((places_expect _).bind fun _ => (places_expr _).bind fun _ => places_close _ _).skip

theorem places_ifElse : ifElse.Places :=
  (places_condition _).bind fun _ => places_stmt.bind fun _ => places_stmt.ifNext.map

theorem places_whileLoop : whileLoop.Places := (places_condition _).bind fun _ => places_stmt.map

theorem places_forLoop : forLoop.Places :=
  ((places_expect _).bind fun _ => (places_expr _).unlessAt.bind fun _ => (places_expect _).bind fun _ =>
    (places_expr _).unlessAt.bind fun _ => (places_expect _).bind fun _ =>
    (places_expr _).unlessAt.bind fun _ => (places_expect _).bind fun _ => places_stmt.map).skip

theorem places_returnStmt : returnStmt.Places :=
  ((places_expr _).unlessAt.bind fun _ => places_close _ _).skip

theorem places_printlnStmt : printlnStmt.Places := (places_builtin _).bind fun _ => places_close _ _

theorem places_expressionStmt : expressionStmt.Places := (places_expr _).bind fun _ => places_close _ _

theorem places_statement : statement.Places := by
  intro last cursor hfaithful
  dsimp only [statement]
  rw [Plan.places_look]
  split
  · exact places_blockBody.map last cursor hfaithful
  · exact places_functionDef last cursor hfaithful
  · exact places_ifElse last cursor hfaithful
  · exact places_whileLoop last cursor hfaithful
  · exact places_forLoop last cursor hfaithful
  · exact places_returnStmt last cursor hfaithful
  · exact places_printlnStmt last cursor hfaithful
  · exact places_varDecl last cursor hfaithful
  · split
    · exact places_varDecl last cursor hfaithful
    · exact places_expressionStmt last cursor hfaithful
  · exact places_expressionStmt last cursor hfaithful

theorem places_program : program.Places := places_stmt.many.map

end Planned

theorem Request.places_plan (request : Request) {last : Option Token} {cursor : Cursor}
    (hfaithful : cursor.IsFaithful) :
    request.plan.Places last cursor := by
  cases request with
  | expression precedence => exact Planned.places_expression precedence last cursor hfaithful
  | statement => exact Planned.places_statement last cursor hfaithful

end ObsidianSyntax
