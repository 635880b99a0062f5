import Mathlib.Logic.Relation
import ObsidianSyntax.Proofs.Depth.Planned

/-!
# The parser one step at a time

Plans are carried out by a machine that reads tokens one by one and keeps an account of what is
nested: for everything nested that is being read there is a frame, which says who waits for it, and
a counter is raised when something nested is started and lowered when it is left, whether with a
tree or with a fault. With a limit, what is started too deep is refused on the spot. Nothing bounds
how long a loop or the whole machine runs.

Machine and parser agree: started on the plan of a parser, the machine comes to its outcome
(`reaches_ended`). In particular it stops. Without a limit it stops too, as what is nested in each
other starts further and further on in the tokens (`exists_reaches_ended`).
-/

namespace ObsidianSyntax

/-- Who waits for something nested: where faults are seen from there, and how it goes on with a tree. -/
structure Frame where
  operator : Option BinaryOp
  resume : Tree → Plan Tree

/-- What is left to be done at the innermost level, or the fault that it has stopped with. -/
inductive Control where
  | going (plan : Plan Tree)
  | failed (fault : Fault)

/-- Where the machine stands. -/
structure Configuration where
  cursor : Cursor
  depth : Nat
  frames : List Frame
  control : Control

namespace Configuration

/-- The limit that does not allow for one level more, if there is one. -/
def exhausted (limit : Option Nat) (depth : Nat) : Option Nat := limit.filter (· ≤ depth)

theorem exhausted_eq_none_iff {limit : Option Nat} {depth : Nat} :
    exhausted limit depth = none ↔ ∀ n ∈ limit, depth < n := by
  cases limit <;> simp [exhausted, Option.filter_eq_none_iff]

theorem exhausted_eq_some_iff {limit : Option Nat} {depth n : Nat} :
    exhausted limit depth = some n ↔ limit = some n ∧ n ≤ depth := by
  simp [exhausted, Option.filter_eq_some_iff]

/-- The next configuration. There is none once the outermost plan is done or has failed. -/
def step (limit : Option Nat) (state : Configuration) : Option Configuration :=
  match state.control, state.frames with
  | .going (.done _), [] => none
  | .going (.done tree), frame :: frames =>
    some { state with depth := state.depth - 1, frames := frames, control := .going (frame.resume tree) }
  | .going (.fail cause token _), _ => some { state with control := .failed ⟨cause, token, none⟩ }
  | .going (.look next), _ => some { state with control := .going (next state.cursor) }
  | .going (.step next), _ => some { state with cursor := state.cursor.advance, control := .going next }
  | .going (.ask request operator next), frames =>
    match exhausted limit state.depth with
    | some limit =>
      let fault : Fault := ⟨.tooDeep request.construct limit, state.cursor.current, none⟩
      some { state with control := .failed (fault.seenFrom operator) }
    | none =>
      some { state with
        depth := state.depth + 1, frames := ⟨operator, next⟩ :: frames, control := .going request.plan }
  | .going (.loop more round value next), _ =>
    some { state with
      control := .going <|
        if more state.cursor.current then
          (round value).bind fun value => .loop more round value next
        else next value }
  | .failed _, [] => none
  | .failed fault, frame :: frames =>
    some { state with
      depth := state.depth - 1, frames := frames, control := .failed (fault.seenFrom frame.operator) }

/-- The machine comes from one configuration to another. -/
def Reaches (limit : Option Nat) : Configuration → Configuration → Prop :=
  Relation.ReflTransGen fun state next => state.step limit = some next

/-- The machine is about to have something nested read. -/
def Asks (state : Configuration) (request : Request) : Prop :=
  ∃ operator next, state.control = .going (.ask request operator next)

/-- The plan at its start. -/
def start (plan : Plan Tree) (cursor : Cursor) : Configuration := ⟨cursor, 0, [], .going plan⟩

/-- The configuration in which what comes behind a parser is left to be done, or its fault is to be
handed on. -/
def behind {α : Type} (depth : Nat) (frames : List Frame) (rest : α → Plan Tree) :
    EStateM.Result Fault Cursor α → Configuration
  | .ok value cursor => ⟨cursor, depth, frames, .going (rest value)⟩
  | .error fault cursor => ⟨cursor, depth, frames, .failed fault⟩

/-- The machine has come to an outcome. -/
def ended (outcome : EStateM.Result Fault Cursor Tree) : Configuration := behind 0 [] .done outcome

variable {limit : Option Nat} {state next : Configuration}

/-! ### What a step does -/

/-- A step stays at its level and reads at most one token, or starts something nested that the limit
allows for, or leaves it. -/
theorem step_cases (hstep : state.step limit = some next) :
    (next.depth = state.depth ∧ next.frames = state.frames ∧ (next.cursor = state.cursor ∨
      next.cursor = state.cursor.advance)) ∨
    ((∃ request, state.Asks request) ∧ exhausted limit state.depth = none ∧ next.depth = state.depth + 1 ∧
      (∃ frame, next.frames = frame :: state.frames) ∧ next.cursor = state.cursor) ∨
    (next.depth = state.depth - 1 ∧ (∃ frame, state.frames = frame :: next.frames) ∧
      next.cursor = state.cursor) := by
  obtain ⟨cursor, depth, frames, control⟩ := state
  unfold step at hstep
  split at hstep
  · cases hstep
  · next hcontrol hframes =>
    cases hstep
    exact .inr (.inr ⟨rfl, ⟨_, hframes⟩, rfl⟩)
  · cases hstep
    exact .inl ⟨rfl, rfl, .inl rfl⟩
  · cases hstep
    exact .inl ⟨rfl, rfl, .inl rfl⟩
  · cases hstep
    exact .inl ⟨rfl, rfl, .inr rfl⟩
  · next hcontrol =>
    split at hstep
    · cases hstep
      exact .inl ⟨rfl, rfl, .inl rfl⟩
    · next hexhausted =>
      cases hstep
      exact .inr (.inl ⟨⟨_, _, _, hcontrol⟩, hexhausted, rfl, ⟨_, rfl⟩, rfl⟩)
  · cases hstep
    exact .inl ⟨rfl, rfl, .inl rfl⟩
  · cases hstep
  · next hcontrol hframes =>
    cases hstep
    exact .inr (.inr ⟨rfl, ⟨_, hframes⟩, rfl⟩)

/-- The counter counts the frames, and keeps to the limit. -/
structure IsBalanced (limit : Option Nat) (state : Configuration) : Prop where
  depth_eq : state.depth = state.frames.length
  depth_le : ∀ n ∈ limit, state.depth ≤ n

theorem isBalanced_start (limit : Option Nat) (plan : Plan Tree) (cursor : Cursor) :
    (start plan cursor).IsBalanced limit :=
  ⟨rfl, fun _ _ => Nat.zero_le _⟩

theorem IsBalanced.step (hbalanced : state.IsBalanced limit) (hstep : state.step limit = some next) :
    next.IsBalanced limit := by
  obtain ⟨hdepth, hle⟩ := hbalanced
  obtain ⟨hsame, hframes, _⟩ | ⟨_, hnone, hmore, ⟨frame, hframes⟩, _⟩ |
    ⟨hless, ⟨frame, hframes⟩, _⟩ := step_cases hstep
  · exact ⟨by rw [hsame, hframes, hdepth], by rwa [hsame]⟩
  · refine ⟨by rw [hmore, hframes, List.length_cons, hdepth], fun n hn => ?_⟩
    have hlt := exhausted_eq_none_iff.1 hnone n hn
    omega
  · rw [hframes, List.length_cons] at hdepth
    refine ⟨by omega, fun n hn => ?_⟩
    have hle := hle n hn
    omega

theorem IsBalanced.reaches (hbalanced : state.IsBalanced limit) (hreaches : Reaches limit state next) :
    next.IsBalanced limit := by
  induction hreaches with
  | refl => exact hbalanced
  | tail _ hstep ih => exact ih.step hstep

/-! ### Coming to an outcome -/

/-- At a depth the machine comes to what the parsers for what is nested give. -/
def Answers (limit : Option Nat) (depth : Nat) (inner : Nested) : Prop :=
  ∀ request operator next cursor frames, Reaches limit ⟨cursor, depth, frames,
    .going (.ask request operator next)⟩
    (behind depth frames next ((inner.answer request).readFor operator cursor))

variable {α β : Type} {inner : Nested} {depth : Nat}

/-- What comes behind two parsers comes behind the second, where that starts behind the first. -/
theorem reaches_behind_bind {parse : Parse α} {more : α → Parse β} {rest : β → Plan Tree}
    {cursor : Cursor} {frames : List Frame} (again : α → Plan Tree)
    (hfirst : Reaches limit state (behind depth frames again (parse cursor)))
    (hsecond : ∀ value middle, parse cursor = .ok value middle →
      Reaches limit ⟨middle, depth, frames, .going (again value)⟩
      (behind depth frames rest (more value middle))) :
    Reaches limit state (behind depth frames rest ((parse >>= more) cursor)) := by
  cases hresult : parse cursor with
  | ok value middle =>
    rw [hresult] at hfirst
    rw [Parse.bind_of_ok hresult]
    exact hfirst.trans (hsecond value middle hresult)
  | error fault after =>
    rw [hresult] at hfirst
    have herror : (parse >>= more) cursor = .error fault after := by simp only [bind, EStateM.bind, hresult]
    rw [herror]
    exact hfirst

/-- Where it comes to what nested parsers give, the machine comes to what a plan gives with them. In
a loop every round but the last one reads a token. -/
theorem Answers.reaches_behind (hanswers : Answers limit depth inner) (hinner : inner.Consumes)
    {plan : Plan α} (hloops : plan.LoopsMove) (rest : α → Plan Tree) (cursor : Cursor)
    (frames : List Frame) :
    Reaches limit ⟨cursor, depth, frames, .going (plan.bind rest)⟩
      (behind depth frames rest (plan.run inner cursor)) := by
  induction plan generalizing cursor with
  | done value => exact .refl
  | fail cause token hown => exact .single rfl
  | look next ih => exact .head rfl (ih cursor (hloops cursor) rest cursor)
  | step next ih => exact .head rfl (ih hloops rest cursor.advance)
  | ask request operator next ih =>
    exact reaches_behind_bind _ (hanswers request operator _ cursor frames) fun tree middle _ =>
      ih tree (hloops tree) rest middle
  | loop more round value next ihround ih =>
    obtain ⟨hend, hmoves, hround, hnext⟩ := hloops
    have hconsumes (value) := Plan.consumes_run hinner (hmoves value)
    refine reaches_behind_bind (fun value => (next value).bind rest) ?_ fun value middle _ =>
      ih value (hnext value) rest middle
    induction hsize : cursor.rest.length using Nat.strong_induction_on generalizing value cursor with
    | _ size ihsize =>
      rw [Parse.repeatWhile_eq hend hconsumes]
      refine .head rfl ?_
      dsimp only
      split
      · refine reaches_behind_bind _ (ihround value (hround value) _ cursor) fun value middle hok => ?_
        exact ihsize _ (hsize ▸ hconsumes _ _ _ _ hok) value middle rfl
      · exact .refl

theorem reaches_resume (limit : Option Nat) (depth : Nat) (frames : List Frame) (operator : Option BinaryOp)
    (resume : Tree → Plan Tree) (parse : Parse Tree) (cursor : Cursor) :
    Reaches limit (behind (depth + 1) (⟨operator, resume⟩ :: frames) .done (parse cursor))
      (behind depth frames resume (parse.readFor operator cursor)) := by
  rw [Parse.readFor_eq]
  cases parse cursor <;> exact .single rfl

/-- With a limit the machine comes to what the parsers give that have room for the levels left. -/
theorem answers_withRoom {limit room depth : Nat} (hroom : depth + room = limit) :
    Answers (some limit) depth (.withRoom limit room) := by
  induction room generalizing depth with
  | zero =>
    intro request operator next cursor frames
    have hexhausted : exhausted (some limit) depth = some limit := exhausted_eq_some_iff.2 ⟨rfl, by omega⟩
    rw [Nested.answer_withRoom_zero, Parse.readFor_eq]
    refine .single ?_
    simp only [step, hexhausted]
    rfl
  | succ room ih =>
    intro request operator next cursor frames
    have hnone : exhausted (some limit) depth = none := exhausted_eq_none_iff.2 (by simp; omega)
    refine .head (b := ⟨cursor, depth + 1, ⟨operator, next⟩ :: frames, .going request.plan⟩)
      (by simp only [step, hnone]) ?_
    have hless : depth + 1 + room = limit := by omega
    have hplan := (ih hless).reaches_behind (Nested.withRoom_consumes limit room)
      request.loopsMove_plan .done cursor (⟨operator, next⟩ :: frames)
    rw [Plan.bind_done] at hplan
    rw [Nested.answer_withRoom_succ]
    exact hplan.trans (reaches_resume _ _ _ _ _ _ _)

theorem reaches_ended {limit : Nat} {plan : Plan Tree} (hloops : plan.LoopsMove) (cursor : Cursor) :
    Reaches (some limit) (start plan cursor) (ended (plan.run (.withRoom limit limit) cursor)) := by
  have hanswers := answers_withRoom (Nat.zero_add limit)
  have hreaches := hanswers.reaches_behind (Nested.withRoom_consumes limit limit) hloops .done cursor []
  rwa [Plan.bind_done] at hreaches

/-! ### One outcome -/

variable {outcome outcome' : EStateM.Result Fault Cursor Tree}

theorem step_behind_nil (limit : Option Nat) (depth : Nat) (outcome : EStateM.Result Fault Cursor Tree) :
    (behind depth [] .done outcome).step limit = none := by
  cases outcome <;> rfl

theorem eq_of_reaches_of_step_eq_none (hstop : state.step limit = none)
    (hreaches : Reaches limit state next) : state = next := by
  cases hreaches.cases_head with
  | inl heq => exact heq
  | inr h =>
    obtain ⟨between, hstep, _⟩ := h
    rw [hstop] at hstep
    cases hstep

theorem Reaches.to_ended (hended : Reaches limit state (ended outcome))
    (hreaches : Reaches limit state next) :
    Reaches limit next (ended outcome) := by
  have hunique : Relator.RightUnique fun state next : Configuration => state.step limit = some next := by
    intro state next next' hstep hstep'
    exact Option.some.inj (hstep.symm.trans hstep')
  obtain hback | hon := Relation.ReflTransGen.total_of_right_unique hunique hended hreaches
  · rw [← eq_of_reaches_of_step_eq_none (step_behind_nil limit 0 outcome) hback]
    exact .refl
  · exact hon

theorem behind_nil_injective {depth depth' : Nat}
    (heq : behind depth [] .done outcome = behind depth' [] .done outcome') :
    depth = depth' ∧ outcome = outcome' := by
  cases outcome <;> cases outcome' <;> simp_all [behind]

/-- The machine comes to one outcome only, and with the counter where it was. -/
theorem Reaches.outcome_unique {depth : Nat} (hended : Reaches limit state (ended outcome))
    (hother : Reaches limit state (behind depth [] .done outcome')) : depth = 0 ∧ outcome' = outcome :=
  behind_nil_injective (eq_of_reaches_of_step_eq_none (step_behind_nil limit depth outcome')
    (hended.to_ended hother))

/-! ### Refusals -/

theorem reaches_ended_of_failed {fault : Fault} (hdeep : fault.cause.isAboutDepth = true)
    (limit : Option Nat) (cursor : Cursor) (frames : List Frame) :
    Reaches limit ⟨cursor, frames.length, frames, .failed fault⟩ (ended (.error fault cursor)) := by
  induction frames with
  | nil => exact .refl
  | cons frame frames ih =>
    refine .head rfl ?_
    rw [Fault.seenFrom_of_isAboutDepth hdeep]
    exact ih

theorem reaches_refused {request : Request} {n : Nat} (hbalanced : state.IsBalanced limit)
    (hasks : state.Asks request) (hexhausted : exhausted limit state.depth = some n) :
    Reaches limit state
      (ended (.error ⟨.tooDeep request.construct n, state.cursor.current, none⟩ state.cursor)) := by
  obtain ⟨cursor, depth, frames, control⟩ := state
  obtain ⟨operator, next, rfl⟩ := hasks
  obtain rfl : depth = frames.length := hbalanced.depth_eq
  refine .head (b := ⟨cursor, frames.length, frames, .failed
    ⟨.tooDeep request.construct n, cursor.current, none⟩⟩) ?_ ?_
  · simp only [step, hexhausted]
    rw [Fault.seenFrom_of_isAboutDepth (by rfl)]
  · exact reaches_ended_of_failed rfl limit cursor frames

theorem step_congr {limit' : Option Nat}
    (hallowed : ∀ request, state.Asks request → exhausted limit state.depth = none ∧
      exhausted limit' state.depth = none) :
    state.step limit = state.step limit' := by
  obtain ⟨cursor, depth, frames, control⟩ := state
  cases control with
  | failed fault => cases frames <;> rfl
  | going plan =>
    cases plan with
    | done tree => cases frames <;> rfl
    | ask request operator next =>
      obtain ⟨hnone, hnone'⟩ := hallowed request ⟨operator, next, rfl⟩
      simp only [step, hnone, hnone']
    | _ => rfl

/-! ### Without a limit -/

theorem Reaches.congr {limit' : Option Nat} (hreaches : Reaches limit state next)
    (hallowed : ∀ between, Reaches limit state between → ∀ request, between.Asks request →
      exhausted limit between.depth = none ∧ exhausted limit' between.depth = none) :
    Reaches limit' state next := by
  induction hreaches with
  | refl => exact .refl
  | tail hbetween hstep ih => exact ih.tail ((step_congr (hallowed _ hbetween)).symm.trans hstep)

theorem exhausted_eq_none_of_ended {request : Request} (hbalanced : state.IsBalanced limit)
    (hended : Reaches limit state (ended outcome))
    (hown : ∀ fault after, outcome = .error fault after → fault.cause.isAboutDepth = false)
    (hreaches : Reaches limit state next) (hasks : next.Asks request) :
    exhausted limit next.depth = none := by
  cases hexhausted : exhausted limit next.depth with
  | none => rfl
  | some n =>
    have hrefused := reaches_refused (hbalanced.reaches hreaches) hasks hexhausted
    have hdeep := hown _ _ ((hended.to_ended hreaches).outcome_unique hrefused).2.symm
    cases hdeep

/-- Without a limit the machine stops as well, and comes to what the parsers give that have levels enough. -/
theorem exists_reaches_ended {plan : Plan Tree} (hloops : plan.LoopsMove) (cursor : Cursor) {limit : Nat}
    (henough : 2 * cursor.rest.length + 1 < limit) :
    Reaches none (start plan cursor) (ended (plan.run (.withRoom limit limit) cursor)) := by
  have hended : Reaches (some limit) (start plan cursor) _ := reaches_ended hloops cursor
  refine hended.congr fun between hbetween request hasks => ⟨?_, rfl⟩
  exact exhausted_eq_none_of_ended (isBalanced_start _ _ _) hended
    (fun fault after herror => Plan.isAboutDepth_of_run (Nested.withRoom_consumes _ _)
      (Nested.withRoom_spares _ _) henough herror) hbetween hasks

end Configuration

/-! ### Where parsing may start -/

/-- What can be parsed from the outside: something that may nest, or a program. -/
inductive Entry where
  | nested (request : Request)
  | program

namespace Entry

/-- The parser with all levels of the limit left. -/
def parse (limit : Nat) : Entry → Parse Tree
  | .nested request => (Parse.outermost limit).answer request
  | .program => Parse.program limit

def plan : Entry → Plan Tree
  | .nested request => .ask request none .done
  | .program => Planned.program.plan

theorem run_plan (entry : Entry) (limit : Nat) :
    entry.plan.run (.withRoom limit limit) = entry.parse limit := by
  cases entry with
  | nested request => exact bind_pure _
  | program => exact Planned.program.run_eq _

theorem loopsMove_plan (entry : Entry) : entry.plan.LoopsMove := by
  cases entry with
  | nested request => exact fun _ => trivial
  | program => exact Planned.program.loopsMove

theorem reaches_ended (entry : Entry) (limit : Nat) (cursor : Cursor) :
    Configuration.Reaches (some limit) (.start entry.plan cursor) (.ended (entry.parse limit cursor)) := by
  rw [← run_plan]
  exact Configuration.reaches_ended entry.loopsMove_plan cursor

end Entry

end ObsidianSyntax
