import ObsidianSyntax.Proofs.Depth.Kept
import ObsidianSyntax.Proofs.Fault.Placed

/-!
# Parsers that do the same

Two parsers that differ can still do the same wherever they are used, as the tokens that would tell
them apart do not occur. This is said of parsers and of all cursors with nothing but allowed tokens
ahead: from there both come to the same outcome. The tokens ahead stay allowed, as parsers only step
over tokens, so the parsers can be used one behind the other. Whatever has a plan does the same with
parsers for what is nested that do the same.
-/

namespace ObsidianSyntax

namespace Parse

variable {allowed : Token → Prop} {α β : Type}

/-- From the cursor the second parser does what the first does, and all tokens that are left are allowed. -/
def SameFrom (allowed : Token → Prop) (cursor : Cursor) (parse parse' : Parse α) : Prop :=
  parse' cursor = parse cursor ∧ (cursorOf (parse cursor)).Ahead allowed

/-- As long as all tokens ahead are allowed, the second parser does what the first does. -/
def Same (allowed : Token → Prop) (parse parse' : Parse α) : Prop :=
  ∀ cursor, cursor.Ahead allowed → SameFrom allowed cursor parse parse'

/-! ### Laws -/

section

variable {parse parse' : Parse α} {next next' : α → Parse β}

theorem sameFrom_bind {cursor : Cursor} (hparse : SameFrom allowed cursor parse parse')
    (hnext : ∀ value, Same allowed (next value) (next' value)) :
    SameFrom allowed cursor (parse >>= next) (parse' >>= next') := by
  obtain ⟨heq, hahead⟩ := hparse
  simp only [SameFrom, Bind.bind, EStateM.bind, heq]
  cases hresult : parse cursor with
  | ok value middle =>
    rw [hresult] at hahead
    exact hnext value middle hahead
  | error fault after =>
    rw [hresult] at hahead
    exact ⟨rfl, hahead⟩

theorem Same.bind (hparse : Same allowed parse parse')
    (hnext : ∀ value, Same allowed (next value) (next' value)) :
    Same allowed (parse >>= next) (parse' >>= next') :=
  fun cursor hahead => sameFrom_bind (hparse cursor hahead) hnext

theorem Same.pure (value : α) : Same allowed (pure value : Parse α) (pure value) :=
  fun _ hahead => ⟨rfl, hahead⟩

theorem Same.map (f : α → β) (hparse : Same allowed parse parse') :
    Same allowed (parse >>= fun value => Pure.pure (f value)) (parse' >>= fun value => Pure.pure (f value)) :=
  hparse.bind fun value => .pure (f value)

theorem Same.fail (cause : Cause) (token : Token) :
    Same allowed (fail cause token : Parse α) (fail cause token) :=
  fun _ hahead => ⟨rfl, hahead⟩

/-- What looks at the token at the cursor may take it to be allowed, unless it is the end of the input. -/
theorem Same.current {next next' : Token → Parse β}
    (hnext : ∀ token, (token.isEnd = false → allowed token) → Same allowed (next token) (next' token)) :
    Same allowed (current >>= next) (current >>= next') :=
  fun cursor hahead => hnext cursor.current hahead.current cursor hahead

theorem Same.advance {next next' : Token → Parse β}
    (hnext : ∀ token, (token.isEnd = false → allowed token) → Same allowed (next token) (next' token)) :
    Same allowed (advance >>= next) (advance >>= next') :=
  fun cursor hahead => hnext cursor.current hahead.current cursor.advance hahead.advance

theorem Same.ite {p : Prop} [Decidable p] {other other' : Parse α}
    (hparse : p → Same allowed parse parse') (hother : ¬p → Same allowed other other') :
    Same allowed (if p then parse else other) (if p then parse' else other') := by
  by_cases hp : p
  · rw [if_pos hp, if_pos hp]
    exact hparse hp
  · rw [if_neg hp, if_neg hp]
    exact hother hp

/-- The rounds are those of the same tokens on both sides, so no step has to read one. -/
theorem same_repeatFor {more : Token → Bool} {step step' : α → Parse α}
    (hstep : ∀ value cursor, cursor.Ahead allowed → more cursor.current = true →
      SameFrom allowed cursor (step value) (step' value)) (rounds : List Token) :
    ∀ value, Same allowed (repeatFor more step rounds value) (repeatFor more step' rounds value) := by
  induction rounds with
  | nil => exact Same.pure
  | cons round rounds ih =>
    intro value cursor hahead
    simp only [SameFrom, repeatFor_cons]
    split
    · next hmore => exact sameFrom_bind (hstep value cursor hahead hmore) ih
    · exact ⟨rfl, hahead⟩

theorem Same.repeatWhile {more : Token → Bool} {step step' : α → Parse α}
    (hstep : ∀ value cursor, cursor.Ahead allowed → more cursor.current = true →
      SameFrom allowed cursor (step value) (step' value)) (value : α) :
    Same allowed (repeatWhile more step value) (repeatWhile more step' value) :=
  fun cursor hahead => same_repeatFor hstep cursor.rest value cursor hahead

theorem Same.many (more : Token → Bool) (hparse : Same allowed parse parse') :
    Same allowed (many more parse) (many more parse') :=
  (repeatWhile (fun _ cursor hahead _ => hparse.map _ cursor hahead) _).map _

theorem Same.readFor (operator : Option BinaryOp) (hparse : Same allowed parse parse') :
    Same allowed (parse.readFor operator) (parse'.readFor operator) := by
  intro cursor hahead
  obtain ⟨heq, hafter⟩ := hparse cursor hahead
  refine ⟨by simp only [readFor_eq, heq], ?_⟩
  rw [readFor_eq]
  cases hresult : parse cursor with
  | ok value after =>
    rw [hresult] at hafter
    exact hafter
  | error fault after =>
    rw [hresult] at hafter
    exact hafter

end

end Parse

/-- The second parsers for what is nested do what the first do. -/
def Nested.Same (allowed : Token → Prop) (inner inner' : Nested) : Prop :=
  ∀ request, Parse.Same allowed (inner.answer request) (inner'.answer request)

theorem Nested.same_withRoom_zero (allowed : Token → Prop) (limit : Nat) :
    (withRoom limit 0).Same allowed (withRoom limit 0) := by
  intro request
  rw [answer_withRoom_zero]
  exact .current fun token _ => .fail _ token

section

variable {allowed : Token → Prop} {α : Type} {inner inner' : Nested}

/-- A plan does the same with parsers for what is nested that do the same. -/
theorem Plan.same_run (hinner : inner.Same allowed inner') (plan : Plan α) :
    Parse.Same allowed (plan.run inner) (plan.run inner') := by
  induction plan with
  | done value => exact .pure value
  | fail cause token hown => exact .fail cause token
  | look next ih => exact fun cursor hahead => ih cursor cursor hahead
  | step next ih => exact .advance fun _ _ => ih
  | ask request operator next ih => exact ((hinner request).readFor operator).bind ih
  | loop more round value next ihround ih =>
    exact (Parse.Same.repeatWhile (fun value cursor hahead _ => ihround value cursor hahead) value).bind ih

theorem Planned.same {parse : Nested → Parse α} (planned : Planned parse)
    (hinner : inner.Same allowed inner') :
    Parse.Same allowed (parse inner) (parse inner') := by
  rw [← planned.run_eq inner, ← planned.run_eq inner']
  exact planned.plan.same_run hinner

/-- A parser that reads nothing nested does what it does. -/
theorem Planned.same_self {parse : Parse α} (planned : Planned fun _ => parse) :
    Parse.Same allowed parse parse :=
  planned.same (Nested.same_withRoom_zero allowed 0)

end

namespace Parse.Same

variable {allowed : Token → Prop} {α : Type} {parse parse' : Parse α}

theorem ifNext (kind : Kind) (hparse : Same allowed parse parse') :
    Same allowed (ifNext kind parse) (ifNext kind parse') :=
  (Planned.isAt kind).same_self.bind fun _ =>
    ite (fun _ => advance fun _ _ => hparse.map some) fun _ => .pure none

theorem unlessAt (kind : Kind) (hparse : Same allowed parse parse') :
    Same allowed (unlessAt kind parse) (unlessAt kind parse') :=
  (Planned.isAt kind).same_self.bind fun _ => ite (fun _ => .pure none) fun _ => hparse.map some

theorem commaSeparated (hparse : Same allowed parse parse') :
    Same allowed (commaSeparated parse) (commaSeparated parse') :=
  hparse.bind fun first => (many _ (advance fun _ _ => hparse)).map (first :: ·)

theorem listItems (hparse : Same allowed parse parse') : Same allowed (listItems parse) (listItems parse') :=
  (unlessAt _ (commaSeparated hparse)).map fun items : Option (List α) => items.getD []

end Parse.Same

end ObsidianSyntax
