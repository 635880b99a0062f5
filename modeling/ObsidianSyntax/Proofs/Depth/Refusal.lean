import ObsidianSyntax.Proofs.Depth.Machine

/-!
# A limit only refuses

Two machines with different limits go the same way until something is started that is one level too
deep for the smaller limit. There the one stops, at the token where the other goes on, and its fault
is handed out as it is. So a parser with the smaller limit either does what the other does or
refuses something for its depth, and which of the two happens, and where, can be seen from the run
of the other.
-/

namespace ObsidianSyntax

namespace Configuration

variable {limit : Nat} {limit' limit'' : Option Nat} {state next : Configuration} {request : Request}

/-- Something nested is about to be started while as many levels are open as the limit allows for. -/
def StartsAt (limit : Nat) (request : Request) (state : Configuration) : Prop :=
  state.Asks request ∧ state.depth = limit

/-- The machine comes from one configuration to another, and starts nothing at the limit before. -/
def ReachesBelow (limit : Nat) (limit' : Option Nat) : Configuration → Configuration → Prop :=
  Relation.ReflTransGen fun state next => state.step limit' = some next ∧
    ∀ request, ¬ state.StartsAt limit request

/-- What the limit refuses a request with. -/
def refusal (limit : Nat) (request : Request) (state : Configuration) : Fault :=
  ⟨.tooDeep request.construct limit, state.cursor.current, none⟩

theorem ReachesBelow.reaches (hbelow : ReachesBelow limit limit' state next) : Reaches limit' state next := by
  induction hbelow with
  | refl => exact .refl
  | tail _ hstep ih => exact ih.tail hstep.1

theorem ReachesBelow.isBalanced (hbelow : ReachesBelow limit limit' state next)
    (hbalanced : state.IsBalanced (some limit)) :
    next.IsBalanced (some limit) := by
  induction hbelow with
  | refl => exact hbalanced
  | tail _ hstep ih =>
    obtain ⟨hstep, hnot⟩ := hstep
    obtain ⟨hdepth, hle⟩ := ih
    have hle := hle limit rfl
    obtain ⟨hsame, hframes, _⟩ | ⟨⟨request, hasks⟩, _, hmore, ⟨frame, hframes⟩, _⟩ |
      ⟨hless, ⟨frame, hframes⟩, _⟩ := step_cases hstep
    · exact ⟨by rw [hsame, hframes, hdepth], by simpa [hsame] using hle⟩
    · have hne : _ ≠ limit := fun heq => hnot request ⟨hasks, heq⟩
      exact ⟨by rw [hmore, hframes, List.length_cons, hdepth], by simp; omega⟩
    · rw [hframes, List.length_cons] at hdepth
      exact ⟨by omega, by simp; omega⟩

/-- Up to the limit, every machine that allows for as much goes the same way. -/
theorem ReachesBelow.lockstep (hle' : ∀ n ∈ limit', limit ≤ n) (hle'' : ∀ n ∈ limit'', limit ≤ n)
    (hbalanced : state.IsBalanced (some limit)) (hbelow : ReachesBelow limit limit' state next) :
    Reaches limit'' state next := by
  induction hbelow with
  | refl => exact .refl
  | @tail between next hbetween hstep ih =>
    obtain ⟨hstep, hnot⟩ := hstep
    have hdepth := (ReachesBelow.isBalanced hbetween hbalanced).depth_le limit rfl
    have hsame : between.step limit' = between.step limit'' := by
      refine step_congr fun request hasks => ?_
      have hne : between.depth ≠ limit := fun heq => hnot request ⟨hasks, heq⟩
      have hlt : between.depth < limit := by omega
      exact ⟨exhausted_eq_none_iff.2 fun n hn => Nat.lt_of_lt_of_le hlt (hle' n hn),
        exhausted_eq_none_iff.2 fun n hn => Nat.lt_of_lt_of_le hlt (hle'' n hn)⟩
    exact ih.tail (hsame ▸ hstep)

/-- Where something is started at the limit, there is a first such place; and if nothing is, the
machine stays below. -/
theorem Reaches.below_or_startsAt (limit : Nat) (hreaches : Reaches limit' state next) :
    ReachesBelow limit limit' state next ∨ ∃ first request, ReachesBelow limit limit' state first ∧
      first.StartsAt limit request := by
  induction hreaches with
  | refl => exact .inl .refl
  | @tail between next _ hstep ih =>
    obtain hbelow | hfirst := ih
    · by_cases hstarts : ∃ request, between.StartsAt limit request
      · obtain ⟨request, hstarts⟩ := hstarts
        exact .inr ⟨between, request, hbelow, hstarts⟩
      · exact .inl (hbelow.tail ⟨hstep, not_exists.1 hstarts⟩)
    · exact .inr hfirst

theorem exists_first_of_startsAt (hreaches : Reaches limit' state next)
    (hstarts : next.StartsAt limit request) :
    ∃ first request, ReachesBelow limit limit' state first ∧ first.StartsAt limit request := by
  obtain hbelow | hfirst := hreaches.below_or_startsAt limit
  · exact ⟨next, request, hbelow, hstarts⟩
  · exact hfirst

theorem ReachesBelow.reaches_refused (hle : ∀ n ∈ limit', limit ≤ n)
    (hbalanced : state.IsBalanced (some limit)) (hbelow : ReachesBelow limit limit' state next)
    (hstarts : next.StartsAt limit request) :
    Reaches (some limit) state (ended (.error (next.refusal limit request) next.cursor)) := by
  obtain ⟨hasks, hdepth⟩ := hstarts
  have hexhausted : exhausted (some limit) next.depth = some limit := exhausted_eq_some_iff.2 ⟨rfl, by omega⟩
  have hsame : Reaches (some limit) state next := hbelow.lockstep hle (by simp) hbalanced
  exact hsame.trans (Configuration.reaches_refused (hbelow.isBalanced hbalanced) hasks hexhausted)

end Configuration

namespace Entry

open ObsidianSyntax.Configuration (Reaches ReachesBelow start ended isBalanced_start)

variable {entry : Entry} {cursor : Cursor} {limit : Nat} {limit' : Option Nat}
    {outcome : EStateM.Result Fault Cursor Tree}

/-- The parsers with a limit or none: the outcome is the parser's with that limit, or with every
limit that is large enough. -/
def IsOutcome (entry : Entry) (cursor : Cursor) (limit : Option Nat)
    (outcome : EStateM.Result Fault Cursor Tree) : Prop :=
  ∀ n, (limit = none ∧ 2 * cursor.rest.length + 1 < n ∨ limit = some n) → entry.parse n cursor = outcome

theorem exists_outcome (entry : Entry) (cursor : Cursor) (limit' : Option Nat) :
    ∃ outcome, Reaches limit' (start entry.plan cursor) (ended outcome) ∧
      entry.IsOutcome cursor limit' outcome := by
  cases limit' with
  | none =>
    have hreaches (n : Nat) (henough : 2 * cursor.rest.length + 1 < n) :
        Reaches none (start entry.plan cursor) (ended (entry.parse n cursor)) := by
      rw [← run_plan]
      exact Configuration.exists_reaches_ended entry.loopsMove_plan cursor henough
    have hfirst := hreaches _ (Nat.lt_succ_self _)
    refine ⟨_, hfirst, fun n hn => ?_⟩
    obtain ⟨_, henough⟩ | hsome := hn
    · exact (hfirst.outcome_unique (hreaches n henough)).2
    · cases hsome
  | some limit =>
    refine ⟨_, entry.reaches_ended limit cursor, fun n hn => ?_⟩
    obtain ⟨hnone, _⟩ | hsome := hn
    · cases hnone
    · cases hsome
      rfl

theorem not_isTooDeep_of_enough {fault : Fault} {after : Cursor}
    (henough : 2 * cursor.rest.length + 1 < limit)
    (herror : entry.parse limit cursor = .error fault after) (limit' : Nat) :
    ¬ fault.IsTooDeep limit' := by
  rintro ⟨construct, hcause⟩
  rw [← run_plan] at herror
  have hown := Plan.isAboutDepth_of_run (Nested.withRoom_consumes _ _) (Nested.withRoom_spares _ _)
    henough herror
  rw [hcause] at hown
  cases hown

theorem parse_of_reachesBelow (hle : ∀ n ∈ limit', limit ≤ n)
    (hbelow : ReachesBelow limit limit' (start entry.plan cursor) (ended outcome)) :
    entry.parse limit cursor = outcome ∧ ∀ fault after, outcome = .error fault after →
      ¬ fault.IsTooDeep limit := by
  have hbalanced := isBalanced_start (some limit) entry.plan cursor
  have hparse (n : Nat) (hn : limit ≤ n) : entry.parse n cursor = outcome :=
    have hsame : Reaches (some n) _ _ := hbelow.lockstep hle (by simpa using hn) hbalanced
    (hsame.outcome_unique (entry.reaches_ended n cursor)).2
  refine ⟨hparse limit (Nat.le_refl _), fun fault after herror => ?_⟩
  rw [← hparse _ (Nat.le_max_left limit (2 * cursor.rest.length + 2))] at herror
  exact not_isTooDeep_of_enough (by omega) herror limit

theorem parse_of_startsAt {state : Configuration} {request : Request}
    (hle : ∀ n ∈ limit', limit ≤ n)
    (hbelow : ReachesBelow limit limit' (start entry.plan cursor) state)
    (hstarts : state.StartsAt limit request) :
    entry.parse limit cursor = .error (state.refusal limit request) state.cursor :=
  ((hbelow.reaches_refused hle (isBalanced_start _ _ _) hstarts).outcome_unique
    (entry.reaches_ended limit cursor)).2

/-- A limit on nesting only ever refuses. Take a parser with a limit, and the run of one with a
larger limit or none, which comes to an outcome. Either both have the same outcome, or the parser
refuses something for its depth; the latter exactly if the run starts something at the parser's
limit; and then what is refused is what the run starts first there, at the token where it starts,
and with the hint about depth. -/
theorem limit_only_refuses (entry : Entry) (cursor : Cursor) (limit : Nat) (limit' : Option Nat)
    (hle : ∀ n ∈ limit', limit ≤ n) :
    ∃ outcome, Reaches limit' (start entry.plan cursor) (ended outcome) ∧
      entry.IsOutcome cursor limit' outcome ∧
      (entry.parse limit cursor = outcome ∨
        ∃ fault after, entry.parse limit cursor = .error fault after ∧ fault.IsTooDeep limit) ∧
      ((∃ fault after, entry.parse limit cursor = .error fault after ∧ fault.IsTooDeep limit) ↔
        ∃ state request, Reaches limit' (start entry.plan cursor) state ∧ state.StartsAt limit request) ∧
      ∀ state request, ReachesBelow limit limit' (start entry.plan cursor) state →
        state.StartsAt limit request →
        entry.parse limit cursor = .error (state.refusal limit request) state.cursor ∧
        (state.refusal limit request).token = state.cursor.current ∧
        (state.refusal limit request).report.message = request.construct.title ++ " nested too deeply" ∧
        (state.refusal limit request).report.help =
          some ("At most " ++ limit.repr ++ " levels of nesting are supported") := by
  obtain ⟨outcome, hreaches, houtcome⟩ := exists_outcome entry cursor limit'
  have hfirst {state : Configuration} {request : Request} :=
    @parse_of_startsAt entry cursor limit limit' state request hle
  have hdeep (state : Configuration) (request : Request) :
      (state.refusal limit request).IsTooDeep limit := ⟨_, rfl⟩
  refine ⟨outcome, hreaches, houtcome, ?_, ⟨fun hrefused => ?_, fun hstarts => ?_⟩, ?_⟩
  · obtain hbelow | ⟨state, request, hbelow, hstarts⟩ := hreaches.below_or_startsAt limit
    · exact .inl (parse_of_reachesBelow hle hbelow).1
    · exact .inr ⟨_, _, hfirst hbelow hstarts, hdeep _ _⟩
  · obtain ⟨fault, after, herror, htooDeep⟩ := hrefused
    obtain hbelow | ⟨state, request, hbelow, hstarts⟩ := hreaches.below_or_startsAt limit
    · obtain ⟨hsame, hown⟩ := parse_of_reachesBelow hle hbelow
      exact absurd htooDeep (hown fault after (hsame.symm.trans herror))
    · exact ⟨state, request, hbelow.reaches, hstarts⟩
  · obtain ⟨state, request, hstate, hstarts⟩ := hstarts
    obtain ⟨first, request, hbelow, hstarts⟩ := Configuration.exists_first_of_startsAt hstate hstarts
    exact ⟨_, _, hfirst hbelow hstarts, hdeep _ _⟩
  · exact fun state request hbelow hstarts => ⟨hfirst hbelow hstarts, rfl, rfl, rfl⟩

theorem limit_only_refuses_signedName :
    (∀ n ∈ some 128, 1 ≤ n) ∧ ∃ state request,
      Reaches (some 128)
        (start (nested (.expression .lowest)).plan (.ofTokens [.ofMark .minus, .someName])) state ∧
        state.StartsAt 1 request := by
  have hle : ∀ n ∈ some 128, 1 ≤ n := by simp
  obtain ⟨_, _, _, _, hiff, _⟩ :=
    limit_only_refuses (nested (.expression .lowest)) (.ofTokens [.ofMark .minus, .someName]) 1 (some 128) hle
  exact ⟨hle, hiff.1 ⟨_, _, rfl, .expression, rfl⟩⟩

end Entry

end ObsidianSyntax
