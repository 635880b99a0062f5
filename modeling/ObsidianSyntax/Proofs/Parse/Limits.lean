import ObsidianSyntax.Parse.Program

/-!
# Parsing with fewer levels

A parser that may nest fewer levels does what one that may nest more does, until it runs out of
levels. So whatever is accepted with more levels is either accepted with fewer, and with the same
tree, or refused for its depth alone.
-/

namespace ObsidianSyntax

/-- The fault is that something nests deeper than the limit. -/
def Fault.IsTooDeep (fault : Fault) (limit : Nat) : Prop :=
  ∃ construct, fault.cause = .tooDeep construct limit

/-- A fault about depth has a hint, so a binary operator adds none. -/
theorem Fault.IsTooDeep.inRightSide {fault : Fault} {limit : Nat} (hdeep : fault.IsTooDeep limit)
    (op : BinaryOp) :
    fault.inRightSide op = fault := by
  obtain ⟨construct, hcause⟩ := hdeep
  simp [Fault.inRightSide, hcause, Cause.help]

namespace Parse

/-- Wherever it starts, the first parser does what the second does, or refuses something for its depth. -/
def Within {α : Type} (limit : Nat) (parse parse' : Parse α) : Prop :=
  ∀ cursor, parse cursor = parse' cursor ∨ ∃ fault after, parse cursor = .error fault after ∧
    fault.IsTooDeep limit

namespace Within

variable {α β : Type} {limit : Nat} {parse parse' : Parse α}

theorem refl (parse : Parse α) : Within limit parse parse := fun _ => .inl rfl

theorem failHere (construct : Construct) (parse' : Parse α) :
    Within limit (failHere (.tooDeep construct limit)) parse' :=
  fun _ => .inr ⟨_, _, rfl, construct, rfl⟩

theorem bind {next next' : α → Parse β} (hwithin : Within limit parse parse')
    (hnext : ∀ a, Within limit (next a) (next' a)) : Within limit (parse >>= next) (parse' >>= next') := by
  intro cursor
  simp only [Bind.bind, EStateM.bind]
  obtain hsame | ⟨fault, after, hfault, hdeep⟩ := hwithin cursor
  · rw [hsame]
    cases parse' cursor with
    | ok a middle => exact hnext a middle
    | error fault after => exact .inl rfl
  · rw [hfault]
    exact .inr ⟨fault, after, rfl, hdeep⟩

theorem rightSideOf (op : BinaryOp) (hwithin : Within limit parse parse') :
    Within limit (rightSideOf op parse) (rightSideOf op parse') := by
  intro cursor
  simp only [Parse.rightSideOf]
  obtain hsame | ⟨fault, after, hfault, hdeep⟩ := hwithin cursor
  · rw [hsame]
    exact .inl rfl
  · rw [hfault]
    exact .inr ⟨fault, after, congrArg (EStateM.Result.error · after) (hdeep.inRightSide op), hdeep⟩

theorem ite {p : Prop} [Decidable p] {other other' : Parse α} (hwithin : Within limit parse parse')
    (hother : Within limit other other') :
    Within limit (if p then parse else other) (if p then parse' else other') := by
  split
  · exact hwithin
  · exact hother

theorem ifNext (kind : Kind) (hwithin : Within limit parse parse') :
    Within limit (ifNext kind parse) (ifNext kind parse') :=
  bind (refl _) fun _ => ite (bind (refl _) fun _ => bind hwithin fun _ => refl _) (refl _)

theorem unlessAt (kind : Kind) (hwithin : Within limit parse parse') :
    Within limit (unlessAt kind parse) (unlessAt kind parse') :=
  bind (refl _) fun _ => ite (refl _) (bind hwithin fun _ => refl _)

theorem repeatFor {more : Token → Bool} {step step' : α → Parse α}
    (hstep : ∀ a, Within limit (step a) (step' a)) (rounds : List Token) :
    ∀ a, Within limit (repeatFor more step rounds a) (repeatFor more step' rounds a) := by
  induction rounds with
  | nil => exact fun _ => refl _
  | cons _ rounds ih => exact fun a => bind (refl _) fun _ => ite (bind (hstep a) ih) (refl _)

theorem repeatWhile {more : Token → Bool} {step step' : α → Parse α}
    (hstep : ∀ a, Within limit (step a) (step' a)) (a : α) :
    Within limit (repeatWhile more step a) (repeatWhile more step' a) :=
  bind (refl _) fun cursor => repeatFor hstep cursor.rest a

theorem many (more : Token → Bool) (hwithin : Within limit parse parse') :
    Within limit (many more parse) (many more parse') :=
  bind (repeatWhile (fun _ => bind hwithin fun _ => refl _) _) fun _ => refl _

theorem listItems (hwithin : Within limit parse parse') : Within limit (listItems parse) (listItems parse') :=
  bind (unlessAt _
    (bind hwithin fun _ => bind (many _ (bind (refl _) fun _ => hwithin)) fun _ => refl _)) fun _ => refl _

end Within

end Parse

/-- The parsers for what is nested do what others do that may nest more levels, or refuse something
for its depth. -/
structure Nested.Within (limit : Nat) (inner inner' : Nested) : Prop where
  expr : ∀ p, Parse.Within limit (inner.expr p) (inner'.expr p)
  stmt : Parse.Within limit inner.stmt inner'.stmt

namespace Parse

namespace Within

variable {limit : Nat} {inner inner' : Nested}

/-! ### Expressions -/

theorem blockBody (hinner : inner.Within limit inner') : Within limit (blockBody inner) (blockBody inner') :=
  bind (refl _) fun _ => bind (many _ hinner.stmt) fun _ => refl _

theorem builtin (hinner : inner.Within limit inner') (function : Builtin) :
    Within limit (builtin inner function) (builtin inner' function) :=
  bind (refl _) fun _ => bind (refl _) fun _ => bind (hinner.expr _) fun _ => refl _

theorem operand (hinner : inner.Within limit inner') : Within limit (operand inner) (operand inner') := by
  refine bind (refl _) fun token => ?_
  split
  iterate 7
    · exact refl _
  · exact bind (refl _) fun _ => bind (refl _) fun _ => bind (hinner.expr _) fun _ => refl _
  · exact refl _
  · exact bind (refl _) fun _ => bind (blockBody hinner) fun _ => refl _
  · exact bind (refl _) fun _ => bind (refl _) fun _ => bind (refl _) fun _ =>
        bind (refl _) fun _ => bind (refl _) fun _ =>
      bind (hinner.expr _) fun _ => refl _
  · split
    · exact bind (refl _) fun _ => bind (hinner.expr _) fun _ => refl _
    · exact refl _
  · split
    · exact builtin hinner _
    · exact refl _
  · exact refl _

theorem continuation (hinner : inner.Within limit inner') (left : Tree) :
    Within limit (continuation inner left) (continuation inner' left) := by
  refine bind (refl _) fun token => ?_
  split
  · exact bind (refl _) fun _ => bind (hinner.expr _) fun _ => bind (refl _) fun _ =>
      bind (hinner.expr _) fun _ => refl _
  · refine bind (refl _) fun _ => ?_
    split
    · exact bind (bind (listItems (hinner.expr _)) fun _ => refl _) fun _ => refl _
    · exact refl _
  · split
    · refine bind (refl _) fun _ => ?_
      split
      · exact bind (hinner.expr _) fun _ => refl _
      · exact refl _
    · exact refl _
    · exact bind (refl _) fun _ => bind (rightSideOf _ (hinner.expr _)) fun _ => refl _
    · exact refl _
  · exact refl _

theorem expression (hinner : inner.Within limit inner') (p : Precedence) :
    Within limit (expression inner p) (expression inner' p) :=
  bind (operand hinner) fun left => repeatWhile (continuation hinner) left

/-! ### Statements -/

theorem functionDef (hinner : inner.Within limit inner') :
    Within limit (functionDef inner) (functionDef inner') :=
  bind (refl _) fun _ => bind (refl _) fun _ => bind (refl _) fun _ => bind (refl _) fun _ =>
    bind (refl _) fun _ =>
    bind (refl _) fun _ => bind (blockBody hinner) fun _ => refl _

theorem varDecl (hinner : inner.Within limit inner') : Within limit (varDecl inner) (varDecl inner') :=
  bind (refl _) fun _ => bind (refl _) fun _ => bind (ifNext _ (hinner.expr _)) fun _ => refl _

theorem condition (hinner : inner.Within limit inner') (word : Keyword) :
    Within limit (condition inner word) (condition inner' word) :=
  bind (refl _) fun _ => bind (refl _) fun _ => bind (hinner.expr _) fun _ => refl _

theorem ifElse (hinner : inner.Within limit inner') : Within limit (ifElse inner) (ifElse inner') :=
  bind (condition hinner _) fun _ => bind hinner.stmt fun _ => bind (ifNext _ hinner.stmt) fun _ => refl _

theorem whileLoop (hinner : inner.Within limit inner') : Within limit (whileLoop inner) (whileLoop inner') :=
  bind (condition hinner _) fun _ => bind hinner.stmt fun _ => refl _

theorem forLoop (hinner : inner.Within limit inner') : Within limit (forLoop inner) (forLoop inner') :=
  bind (refl _) fun _ => bind (refl _) fun _ => bind (unlessAt _ (hinner.expr _)) fun _ =>
    bind (refl _) fun _ =>
    bind (unlessAt _ (hinner.expr _)) fun _ => bind (refl _) fun _ =>
      bind (unlessAt _ (hinner.expr _)) fun _ =>
    bind (refl _) fun _ => bind hinner.stmt fun _ => refl _

theorem returnStmt (hinner : inner.Within limit inner') :
    Within limit (returnStmt inner) (returnStmt inner') :=
  bind (refl _) fun _ => bind (unlessAt _ (hinner.expr _)) fun _ => refl _

theorem expressionStmt (hinner : inner.Within limit inner') :
    Within limit (expressionStmt inner) (expressionStmt inner') :=
  bind (hinner.expr _) fun _ => refl _

theorem statement (hinner : inner.Within limit inner') :
    Within limit (statement inner) (statement inner') := by
  refine bind (refl _) fun cursor => ?_
  split
  · exact bind (blockBody hinner) fun _ => refl _
  · exact functionDef hinner
  · exact ifElse hinner
  · exact whileLoop hinner
  · exact forLoop hinner
  · exact returnStmt hinner
  · exact bind (builtin hinner _) fun _ => refl _
  · exact varDecl hinner
  · exact ite (varDecl hinner) (expressionStmt hinner)
  · exact expressionStmt hinner

end Within

end Parse

/-- With fewer levels left, the parsers do what they do with more, or refuse something for its depth. -/
theorem Nested.withRoom_within {room room' : Nat} (hle : room ≤ room') (limit limit' : Nat) :
    (withRoom limit room).Within limit (withRoom limit' room') := by
  induction room generalizing room' with
  | zero => exact ⟨fun _ => .failHere _ _, .failHere _ _⟩
  | succ room ih =>
    obtain ⟨room', rfl⟩ : ∃ more, room' = more + 1 := ⟨room' - 1, by omega⟩
    have hinner := ih (Nat.le_of_succ_le_succ hle)
    exact ⟨Parse.Within.expression hinner, Parse.Within.statement hinner⟩

end ObsidianSyntax
