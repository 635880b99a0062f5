import ObsidianSyntax.Proofs.Fault.Earliest
import ObsidianSyntax.Proofs.Depth.Planned

/-!
# Climbing in stages

An expression can be read in stages: first what binds tighter than some precedence, and then, from
there, what a looser one takes in as well. Both ways lead to the same tree or to the same fault, and
stop at the same place. So whatever can be read at a precedence has a front that can be read at each
tighter one, and no token behind it would have been taken in.

This is a law of repetition. Steps that go on under a condition go on first as long as a narrower
condition holds, and then under the condition itself.
-/

namespace ObsidianSyntax

namespace Parse

variable {α : Type} {more more' : Token → Bool} {step : α → Parse α}

/-- Steps under a condition are the steps under a narrower one, and then those that are left: both
sides take the same first step, and every step reads a token. -/
theorem repeatWhile_stages (hend : ∀ token, token.isEnd = true → more token = false)
    (hconsumes : ∀ value, (step value).Consumes)
    (hnarrower : ∀ token, more' token = true → more token = true) (value : α) :
    repeatWhile more step value = repeatWhile more' step value >>= repeatWhile more step := by
  have hend' : ∀ token, token.isEnd = true → more' token = false := by
    intro token htoken
    by_contra hmore
    have hmore := hnarrower token (by simpa using hmore)
    rw [hend token htoken] at hmore
    cases hmore
  funext cursor
  induction hsize : cursor.rest.length using Nat.strong_induction_on generalizing value cursor with
  | _ size ih =>
    cases hmore : more' cursor.current with
    | false =>
      have hstop : repeatWhile more' step value cursor = .ok value cursor := by
        rw [repeatWhile_eq hend' hconsumes, hmore]
        rfl
      rw [bind_of_ok hstop]
    | true =>
      have hwide : repeatWhile more step value cursor = (step value >>= repeatWhile more step) cursor := by
        rw [repeatWhile_eq hend hconsumes, if_pos (hnarrower _ hmore)]
      have hnarrow : repeatWhile more' step value cursor =
          (step value >>= repeatWhile more' step) cursor := by
        rw [repeatWhile_eq hend' hconsumes, if_pos hmore]
      rw [hwide]
      simp only [Bind.bind, EStateM.bind] at hnarrow ih ⊢
      rw [hnarrow]
      cases hstep : step value cursor with
      | ok next after => exact ih _ (hsize ▸ hconsumes _ _ _ _ hstep) next after rfl
      | error fault after => rfl

variable {p q : Precedence}

theorem climb_stages (limit room : Nat) (hle : p ≤ q) (left : Tree) :
    climb (.withRoom limit room) p left = climb (.withRoom limit room) q left >>=
      climb (.withRoom limit room) p := by
  refine repeatWhile_stages (fun token hend => ?_)
    (Planned.consumes_continuation (Nested.withRoom_consumes limit room)) (fun token hmore => ?_) left
  · rw [beq_iff_eq.1 hend]
    exact decide_eq_false (Nat.not_lt_zero _)
  · exact decide_eq_true (Nat.lt_of_le_of_lt hle (of_decide_eq_true hmore))

theorem expression_stages (limit room : Nat) (hle : p ≤ q) :
    expression (.withRoom limit room) p = expression (.withRoom limit room) q >>=
      climb (.withRoom limit room) p := by
  have hstages := funext (climb_stages limit room hle)
  calc operand (.withRoom limit room) >>= climb (.withRoom limit room) p
      = operand (.withRoom limit room) >>= fun left =>
          climb (.withRoom limit room) q left >>= climb (.withRoom limit room) p := by rw [← hstages]
    _ = (operand (.withRoom limit room) >>= climb (.withRoom limit room) q) >>=
      climb (.withRoom limit room) p :=
        (bind_assoc _ _ _).symm

theorem exists_stages_of_expr {limit room : Nat} {cursor after : Cursor} {tree : Tree} (hle : p ≤ q)
    (hok : (Nested.withRoom limit room).expr p cursor = .ok tree after) :
    ∃ left middle, (Nested.withRoom limit room).expr q cursor = .ok left middle ∧
      ∃ read more, cursor.rest = read ++ middle.rest ∧ middle.rest = more ++ after.rest := by
  cases room with
  | zero => exact absurd hok failHere_ne_ok
  | succ room =>
    have hfollows := Nested.withRoom_follows limit room
    have hstages : (expression (.withRoom limit room) q >>= climb (.withRoom limit room) p) cursor =
        .ok tree after := by
      rw [← expression_stages limit room hle]
      exact hok
    obtain ⟨left, middle, hleft, hclimb⟩ := bind_eq_ok.1 hstages
    obtain ⟨ts, hreads, _⟩ := expr_of_expression hfollows hleft
    obtain ⟨us, hreads', _⟩ := (climb_accepts hfollows p left _ middle rfl tree after).1 hclimb
    obtain ⟨read, hread, _⟩ := Cursor.reads_iff_append.1 hreads
    obtain ⟨more, hmore, _⟩ := Cursor.reads_iff_append.1 hreads'
    exact ⟨left, middle, hleft, read, more, hread, hmore⟩

theorem precedence_le_of_expr {limit room : Nat} {cursor after : Cursor} {tree : Tree}
    (hok : (Nested.withRoom limit room).expr p cursor = .ok tree after) :
    after.current.kind.precedence ≤ p := by
  cases room with
  | zero => exact absurd hok failHere_ne_ok
  | succ room =>
    obtain ⟨_, _, _, hle⟩ := expr_of_expression (Nested.withRoom_follows limit room) hok
    exact hle

/-- Wherever it starts and however many levels may nest, climbing at a precedence comes to what
comes of climbing at a tighter one first and going on from there, and a fault of the first stage is
the fault of the whole. Once an expression is read, the token behind it does not bind tighter than
the precedence, and at each tighter precedence an expression is read from the same place, over a
front of the same tokens. -/
theorem climbing_inStages (limit room : Nat) {p q : Precedence} (hle : p ≤ q) (cursor : Cursor) :
    (expression (.withRoom limit room) p cursor =
      match expression (.withRoom limit room) q cursor with
      | .ok left middle => climb (.withRoom limit room) p left middle
      | .error fault after => .error fault after) ∧
    ∀ tree after, (Nested.withRoom limit room).expr p cursor = .ok tree after →
      after.current.kind.precedence ≤ p ∧
      ∃ left middle, (Nested.withRoom limit room).expr q cursor = .ok left middle ∧
        ∃ read more, cursor.rest = read ++ middle.rest ∧ middle.rest = more ++ after.rest := by
  refine ⟨?_, fun tree after hok => ⟨precedence_le_of_expr hok, exists_stages_of_expr hle hok⟩⟩
  rw [expression_stages limit room hle]
  simp only [Bind.bind, EStateM.bind]
  cases expression (.withRoom limit room) q cursor <;> rfl

theorem climbing_inStages_comparedSum :
    let cursor := Cursor.ofTokens [⟨.identifier, "a", ⟨0, 1, 1⟩⟩, ⟨.mark .plus, "+", ⟨2, 1, 3⟩⟩,
      ⟨.identifier, "b", ⟨4, 1, 5⟩⟩, ⟨.mark .less, "<", ⟨6, 1, 7⟩⟩, ⟨.identifier, "c", ⟨8, 1, 9⟩⟩]
    let sum : Tree := .binary .add (.identifier "a") (.identifier "b")
    Precedence.lowest ≤ .comparison ∧ ∃ middle after,
      (Nested.withRoom maxDepth maxDepth).expr .lowest cursor =
        .ok (.binary .less sum (.identifier "c")) after ∧
      (Nested.withRoom maxDepth maxDepth).expr .comparison cursor = .ok sum middle ∧
      ∃ read more, cursor.rest = read ++ middle.rest ∧ middle.rest = more ++ after.rest := by
  intro cursor sum
  have hle : Precedence.lowest ≤ .comparison := by decide
  have hok : (Nested.withRoom maxDepth maxDepth).expr .lowest cursor =
      .ok (.binary .less sum (.identifier "c")) _ := rfl
  obtain ⟨_, left, middle, hleft, hfront⟩ := (climbing_inStages maxDepth maxDepth hle cursor).2 _ _ hok
  obtain ⟨rfl, rfl⟩ : sum = left ∧ _ = middle := EStateM.Result.ok.inj hleft
  exact ⟨hle, _, _, hok, hleft, hfront⟩

end Parse

end ObsidianSyntax
