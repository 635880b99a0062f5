import ObsidianSyntax.Proofs.Fault.Pinned

/-!
# What a parser does, one act after the other

A parser that is given parsers for what is nested looks at the tokens, steps over one, stops with a
fault, goes round a loop, or has something nested read and goes on with the tree. Its plan lists
these acts without saying how many levels may nest or how the nested parsers work, so one plan
serves for every limit on depth. Run with parsers for what is nested, a plan is a parser again
(`Plan.run`).

A plan's own faults are never about depth. Two things are to be checked of a plan: that it reads a
token before it gives a value (`Plan.Moves`), and that every round of a loop does
(`Plan.LoopsMove`), which is why loops end.
-/

namespace ObsidianSyntax

/-- Whether the cause is that something nests too deeply. -/
def Cause.isAboutDepth : Cause → Bool
  | .tooDeep .. => true
  | _ => false

theorem Token.isAboutDepth_of_literal {token : Token} {cause : Cause}
    (herror : token.literal = .error cause) :
    cause.isAboutDepth = false := by
  unfold literal at herror
  repeat' split at herror
  all_goals cases herror
  all_goals rfl

/-- The fault as seen from where something nested was read for: from the right side of an operator,
or from elsewhere. -/
def Fault.seenFrom (operator : Option BinaryOp) (fault : Fault) : Fault :=
  operator.elim fault fault.inRightSide

@[simp] theorem Fault.cause_seenFrom (operator : Option BinaryOp) (fault : Fault) :
    (fault.seenFrom operator).cause = fault.cause := by
  cases operator with
  | none => rfl
  | some op =>
    show (fault.inRightSide op).cause = fault.cause
    unfold inRightSide
    split <;> rfl

/-- No operator adds its hint to a fault about depth, which comes with one. -/
theorem Fault.seenFrom_of_isAboutDepth {fault : Fault} (hdeep : fault.cause.isAboutDepth = true)
    (operator : Option BinaryOp) :
    fault.seenFrom operator = fault := by
  obtain ⟨cause, token, hint⟩ := fault
  cases cause <;> cases hdeep
  cases operator <;> rfl

/-- What is nested in a construct, which the parsers that are given read. -/
inductive Request where
  | expression (precedence : Precedence)
  | statement
deriving DecidableEq, Repr

def Request.construct : Request → Construct
  | .expression _ => .expression
  | .statement => .statement

/-- The parser for what is asked for. -/
def Nested.answer (inner : Nested) : Request → Parse Tree
  | .expression precedence => inner.expr precedence
  | .statement => inner.stmt

/-- The parsers for what is nested read a token whenever they succeed. -/
def Nested.Consumes (inner : Nested) : Prop := ∀ request, (inner.answer request).Consumes

/-- A parser of something nested, its faults seen from where it is read for. -/
def Parse.readFor {α : Type} (operator : Option BinaryOp) (parse : Parse α) : Parse α :=
  operator.elim parse (rightSideOf · parse)

theorem Parse.readFor_eq {α : Type} (operator : Option BinaryOp) (parse : Parse α) (cursor : Cursor) :
    parse.readFor operator cursor =
      match parse cursor with
      | .ok value after => .ok value after
      | .error fault after => .error (fault.seenFrom operator) after := by
  cases operator with
  | none =>
    show parse cursor = _
    cases parse cursor <;> rfl
  | some op => rfl

/-- What a parser does, up to its value. -/
inductive Plan : Type → Type 1 where
  | done {α : Type} (value : α) : Plan α
  | fail {α : Type} (cause : Cause) (token : Token) (hown : cause.isAboutDepth = false) : Plan α
  | look {α : Type} (next : Cursor → Plan α) : Plan α
  | step {α : Type} (next : Plan α) : Plan α
  /-- Something nested is read, perhaps for the right side of an operator. -/
  | ask {α : Type} (request : Request) (operator : Option BinaryOp) (next : Tree → Plan α) : Plan α
  /-- Rounds are made as long as the token at the cursor allows. -/
  | loop {α β : Type} (more : Token → Bool) (round : β → Plan β) (value : β) (next : β → Plan α) : Plan α

namespace Plan

variable {α β : Type}

/-- The parser that follows the plan with the parsers that are given for what is nested. -/
def run {α : Type} (inner : Nested) : Plan α → Parse α
  | done value => pure value
  | fail cause token _ => Parse.fail cause token
  | look next => get >>= fun cursor => run inner (next cursor)
  | step next => Parse.advance >>= fun _ => run inner next
  | ask request operator next => (inner.answer request).readFor operator >>= fun tree => run inner (next tree)
  | loop more round value next =>
    Parse.repeatWhile more (fun value => run inner (round value)) value >>= fun value =>
      run inner (next value)

theorem run_look (inner : Nested) (next : Cursor → Plan α) (cursor : Cursor) :
    (look next).run inner cursor = (next cursor).run inner cursor := rfl

/-- The plan that goes on with what another gives. -/
def bind {α β : Type} (rest : α → Plan β) : Plan α → Plan β
  | done value => rest value
  | fail cause token hown => fail cause token hown
  | look next => look fun cursor => bind rest (next cursor)
  | step next => step (bind rest next)
  | ask request operator next => ask request operator fun tree => bind rest (next tree)
  | loop more round value next => loop more round value fun value => bind rest (next value)

theorem run_bind (inner : Nested) (plan : Plan α) (rest : α → Plan β) :
    (plan.bind rest).run inner = plan.run inner >>= fun value => (rest value).run inner := by
  induction plan with
  | done value => rfl
  | fail cause token hown => rfl
  | look next ih => simp only [bind, run, ih, bind_assoc]
  | step next ih => simp only [bind, run, ih, bind_assoc]
  | ask request operator next ih => simp only [bind, run, ih, bind_assoc]
  | loop more round value next _ ih => simp only [bind, run, ih, bind_assoc]

/-- Going on with nothing. -/
theorem bind_done (plan : Plan α) : plan.bind done = plan := by
  induction plan with
  | done value => rfl
  | fail cause token hown => rfl
  | look next ih => simp only [bind, ih]
  | step next ih => simp only [bind, ih]
  | ask request operator next ih => simp only [bind, ih]
  | loop more round value next _ ih => simp only [bind, ih]

/-! ### Plans that move -/

/-- Before it gives a value the plan steps over a token or has something nested read, and what it
has read before stepping over a token is of the kind allowed. -/
def Moves {α : Type} (allowed : Request → Prop) : Plan α → Cursor → Prop
  | done _, _ => False
  | fail .., _ => True
  | look next, cursor => Moves allowed (next cursor) cursor
  | step next, cursor => cursor.current.isEnd = false ∨ Moves allowed next cursor
  | ask request .., _ => allowed request
  | loop .., _ => False

theorem moves_look (allowed : Request → Prop) (next : Cursor → Plan α) (cursor : Cursor) :
    (look next).Moves allowed cursor = (next cursor).Moves allowed cursor := rfl

theorem Moves.bind {allowed : Request → Prop} {plan : Plan α} {cursor : Cursor}
    (hmoves : plan.Moves allowed cursor) (rest : α → Plan β) :
    (plan.bind rest).Moves allowed cursor := by
  induction plan generalizing β with
  | done value => exact hmoves.elim
  | fail cause token hown => exact trivial
  | look next ih => exact ih cursor hmoves rest
  | step next ih => exact hmoves.imp_right fun hmoves => ih hmoves rest
  | ask request operator next => exact hmoves
  | loop => exact hmoves.elim

/-- A plan that moves and steps over a token first gets further on with it, or moves from where it
is, at the end of the input. -/
theorem Moves.step_cases {allowed : Request → Prop} {next : Plan α} {cursor : Cursor}
    (hmoves : (step next).Moves allowed cursor) :
    cursor.advance.rest.length < cursor.rest.length ∨
      cursor.advance = cursor ∧ next.Moves allowed cursor := by
  cases hend : cursor.current.isEnd with
  | false =>
    have hstep := Cursor.length_advance hend
    exact .inl (by omega)
  | true => exact .inr ⟨if_pos hend, hmoves.resolve_left (by simp [hend])⟩

/-- Every loop stops at the end of the input, and each of its rounds moves, wherever it starts. -/
def LoopsMove {α : Type} : Plan α → Prop
  | done _ => True
  | fail .. => True
  | look next => ∀ cursor, LoopsMove (next cursor)
  | step next => LoopsMove next
  | ask _ _ next => ∀ tree, LoopsMove (next tree)
  | loop more round _ next =>
    (∀ token, token.isEnd = true → more token = false) ∧
      (∀ value cursor, (round value).Moves (fun _ => True) cursor) ∧
      (∀ value, LoopsMove (round value)) ∧ ∀ value, LoopsMove (next value)

theorem LoopsMove.bind {plan : Plan α} {rest : α → Plan β} (hplan : plan.LoopsMove)
    (hrest : ∀ value, (rest value).LoopsMove) :
    (plan.bind rest).LoopsMove := by
  induction plan with
  | done value => exact hrest value
  | fail cause token hown => exact trivial
  | look next ih => exact fun cursor => ih cursor (hplan cursor) hrest
  | step next ih => exact ih hplan hrest
  | ask request operator next ih => exact fun tree => ih tree (hplan tree) hrest
  | loop more round value next _ ih =>
    obtain ⟨hend, hmoves, hround, hnext⟩ := hplan
    exact ⟨hend, hmoves, hround, fun value => ih value (hnext value) hrest⟩

/-! ### Running plans -/

open Parse (bind_eq_ok pure_eq_ok fail_ne_ok)

variable {inner : Nested} {plan : Plan α} {cursor after : Cursor} {value : α}

theorem answer_readFor_eq_ok {request : Request} {operator : Option BinaryOp} {tree : Tree}
    (hok : (inner.answer request).readFor operator cursor = .ok tree after) :
    inner.answer request cursor = .ok tree after := by
  rw [Parse.readFor_eq] at hok
  split at hok <;> cases hok
  assumption

/-- A repetition does not go back if its steps do not. -/
theorem length_le_of_repeatFor {more : Token → Bool} {step : α → Parse α}
    (hstep : ∀ value cursor next after, step value cursor = .ok next after →
      after.rest.length ≤ cursor.rest.length) (rounds : List Token) :
    ∀ value cursor result after, Parse.repeatFor more step rounds value cursor = .ok result after →
        after.rest.length ≤ cursor.rest.length := by
  induction rounds with
  | nil =>
    intro value cursor result after hok
    obtain ⟨_, rfl⟩ := pure_eq_ok.1 hok
    exact Nat.le_refl _
  | cons round rounds ih =>
    intro value cursor result after hok
    rw [Parse.repeatFor_cons] at hok
    split at hok
    · obtain ⟨next, middle, hok, hrest⟩ := bind_eq_ok.1 hok
      exact Nat.le_trans (ih _ _ _ _ hrest) (hstep _ _ _ _ hok)
    · cases hok
      exact Nat.le_refl _

/-- Following a plan never goes back. -/
theorem length_le_of_run (hinner : inner.Consumes) (hok : plan.run inner cursor = .ok value after) :
    after.rest.length ≤ cursor.rest.length := by
  induction plan generalizing cursor after with
  | done value =>
    obtain ⟨_, rfl⟩ := pure_eq_ok.1 hok
    exact Nat.le_refl _
  | fail cause token hown => exact absurd hok fail_ne_ok
  | look next ih => exact ih cursor hok
  | step next ih => exact Nat.le_trans (ih hok) (Parse.length_advance_le cursor)
  | ask request operator next ih =>
    obtain ⟨tree, middle, hanswer, hrest⟩ := bind_eq_ok.1 hok
    have hless := hinner request _ _ _ (answer_readFor_eq_ok hanswer)
    exact Nat.le_trans (ih tree hrest) (Nat.le_of_lt hless)
  | loop more round value next ihround ih =>
    obtain ⟨result, middle, hloop, hrest⟩ := bind_eq_ok.1 hok
    have hle := length_le_of_repeatFor (fun value cursor _ _ hok => ihround value hok) _ _ _ _ _ hloop
    exact Nat.le_trans (ih result hrest) hle

/-- A plan that moves reads a token whenever it succeeds. -/
theorem Moves.length_lt {allowed : Request → Prop} (hinner : inner.Consumes)
    (hmoves : plan.Moves allowed cursor) (hok : plan.run inner cursor = .ok value after) :
    after.rest.length < cursor.rest.length := by
  induction plan generalizing cursor with
  | done value => exact hmoves.elim
  | fail cause token hown => exact absurd hok fail_ne_ok
  | look next ih => exact ih cursor hmoves hok
  | step next ih =>
    have hrest : next.run inner cursor.advance = .ok value after := hok
    obtain hless | ⟨hsame, hmoves⟩ := hmoves.step_cases
    · exact Nat.lt_of_le_of_lt (length_le_of_run hinner hrest) hless
    · rw [hsame] at hrest
      exact ih hmoves hrest
  | ask request operator next _ =>
    obtain ⟨tree, middle, hanswer, hrest⟩ := bind_eq_ok.1 hok
    have hless := hinner request _ _ _ (answer_readFor_eq_ok hanswer)
    exact Nat.lt_of_le_of_lt (length_le_of_run hinner hrest) hless
  | loop => exact hmoves.elim

theorem consumes_run {allowed : Request → Prop} (hinner : inner.Consumes)
    (hmoves : ∀ cursor, plan.Moves allowed cursor) :
    (plan.run inner).Consumes :=
  fun cursor _ _ hok => (hmoves cursor).length_lt hinner hok

end Plan

end ObsidianSyntax
