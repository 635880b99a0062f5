import ObsidianSyntax.Proofs.Parse.Operands

/-!
# Climbing is the grammar of levels

The parser of expressions reads an operand and goes on with whatever binds tighter than its
precedence. It never looks back at what it has read, and yet that is always an expression of the
level that the next token asks for: the right side of each operator ended before a token that it
could not take, and what is left is tight enough. The invariant behind this is a level that what has
been read is an expression of, together with a next token that no right side of that level would
have taken (`Stops`). The same condition is what makes the climb reach every expression of the
grammar.
-/

namespace ObsidianSyntax

open Grammar

theorem Precedence.eq_iff_rank {p q : Precedence} : p = q ↔ p.rank = q.rank :=
  ⟨congrArg rank, rank_injective⟩

/-- The ranks of the levels that the grammar names. -/
theorem Precedence.ranks :
    rank .lowest = 0 ∧ rank .comma = 1 ∧ rank .assignment = 2 ∧ rank .ternary = 3 ∧ rank .logicalOr = 4 ∧
      rank .multiplicative = 13 ∧ rank .exponent = 14 ∧ rank .prefixOp = 15 ∧ rank .postfixOp = 16 :=
  ⟨rfl, rfl, rfl, rfl, rfl, rfl, rfl, rfl, rfl⟩

theorem Precedence.rank_le (p : Precedence) : p.rank ≤ 16 := by
  cases p <;> decide

namespace Parse

variable {inner : Nested} {n : Nat}

/-! ### Continuations -/

/-- What can come behind what has been read: an operator with its right side, a call, or an operator
behind its operand. A right side ends before what it could go on with. -/
inductive Continues (n : Nat) (left : Tree) : Language Tree where
  | ternary {us vs : List Terminal} {consequent alternative : Tree} {next : Kind}
      (hconsequent : Expr n .comma us consequent)
      (halternative : Expr n .ternary vs alternative) (hnext : next.precedence ≤ .assignment) :
      Continues n left (.mark .question :: (us ++ .mark .colon :: vs))
        (.ternary left consequent alternative) next
  | call {callee : String} {us : List Terminal} {arguments : List Tree} {next : Kind}
      (hcallee : left = .identifier callee) (harguments : Args n us arguments) :
      Continues n left (.mark .leftParen :: (us ++ [.mark .rightParen])) (.call callee arguments) next
  | assign {op : AssignOp} {target : String} {us : List Terminal} {value : Tree} {next : Kind}
      (htarget : left = .identifier target) (hvalue : Expr n .assignment us value)
        (hnext : next.precedence ≤ .comma) :
      Continues n left (.mark op.mark :: us) (.assign op target value) next
  | behind {op : UnaryOp} {next : Kind} (hop : op.isBehind = true) :
      Continues n left [.mark op.mark] (.unary op left) next
  | binary {op : BinaryOp} {us : List Terminal} {right : Tree} {next : Kind}
      (hright : Expr n op.rightPrecedence.tighter us right) (hnext : next.precedence ≤ op.rightPrecedence) :
      Continues n left (.mark op.mark :: us) (.binary op left right) next

theorem consumes_expr (hinner : inner.Follows n) {p : Precedence} (hp : p ≤ .prefixOp) :
    (inner.expr p).Consumes := by
  refine (hinner.expr p hp).consumes fun ts tree next hexpr => ?_
  obtain ⟨first, rest, rfl, _⟩ := hexpr.1.starts
  simp

theorem exprs_iff_separated {ts : List Terminal} {trees : List Tree} :
    Exprs n ts trees ↔ Separated (Expr n .assignment) ts trees := by
  constructor
  · intro hexprs
    induction trees generalizing ts with
    | nil => cases hexprs
    | cons tree rest ih =>
      cases hexprs with
      | one hexpr => exact .one hexpr
      | cons hexpr hrest => exact .cons hexpr (ih hrest)
  · intro hseparated
    induction hseparated with
    | one hexpr => exact .one hexpr
    | cons hexpr _ ih => exact .cons hexpr ih

theorem arguments_accepts (hinner : inner.Follows n) :
    (arguments inner).Accepts fun ts arguments _ => ∃ us, ts = us ++ [.mark .rightParen] ∧
      Args n us arguments := by
  have hitems := Accepts.listItems (consumes_expr hinner (by decide))
    (hinner.expr .comma (by decide)) (Nat.le_refl 1)
  have hbody := hitems.bind fun arguments =>
    (@Accepts.expect .closeArguments rfl (by decide)).bind fun _ => Accepts.pure arguments
  refine Accepts.congr hbody fun ts arguments next => ?_
  simp only [Language.andThen_expected, Language.andThen_behind]
  refine ⟨fun h => ?_, fun h => ?_⟩
  · obtain ⟨us, _, _, rfl, ⟨rfl, rfl, _⟩ | ⟨hseparated, _⟩, rfl, rfl⟩ := h
    · exact ⟨[], rfl, .none⟩
    · exact ⟨us, rfl, .some (exprs_iff_separated.2 hseparated)⟩
  · obtain ⟨us, rfl, hargs⟩ := h
    refine ⟨us, arguments, [], rfl, ?_, rfl, rfl⟩
    cases hargs with
    | none => exact .inl ⟨rfl, rfl, rfl⟩
    | some hexprs =>
      have hstarts : Starts us := by
        cases hexprs with
        | one hexpr => exact hexpr.starts
        | cons hexpr _ => exact hexpr.starts.append (by simp [Terminal.mark])
      exact .inr ⟨exprs_iff_separated.1 hexprs, by decide, by decide, hstarts.following_ne rfl⟩

theorem call_accepts (hinner : inner.Follows n) (callee : String) :
    (call inner (.identifier callee)).AcceptsAt (.mark .leftParen) fun ts tree _ =>
      ∃ us arguments, ts = .mark .leftParen :: (us ++ [.mark .rightParen]) ∧ Args n us arguments ∧
        tree = .call callee arguments := by
  have hbody := (arguments_accepts hinner).bind fun arguments => Accepts.pure (Tree.call callee arguments)
  refine (AcceptsAt.skip hbody rfl (by decide)).congr fun ts tree next _ => ?_
  simp only [Language.behind, Language.andThen_pure]
  refine ⟨fun h => ?_, fun h => ?_⟩
  · obtain ⟨_, rfl, arguments, ⟨us, rfl, harguments⟩, rfl⟩ := h
    exact ⟨us, arguments, rfl, harguments, rfl⟩
  · obtain ⟨us, arguments, rfl, harguments, rfl⟩ := h
    exact ⟨_, rfl, arguments, ⟨us, rfl, harguments⟩, rfl⟩

theorem assignment_accepts (hinner : inner.Follows n) (op : AssignOp) (target : String) :
    (assignment inner op (.identifier target)).AcceptsAt (.mark op.mark) fun ts tree next =>
      ∃ us value, ts = .mark op.mark :: us ∧ Expr n .assignment us value ∧ next.precedence ≤ .comma ∧
        tree = .assign op target value := by
  have hbody := (hinner.expr Precedence.assignment.lower (by decide)).bind fun value =>
    Accepts.pure (Tree.assign op target value)
  refine (AcceptsAt.skip hbody rfl (by simp)).congr fun ts tree next _ => ?_
  simp only [Language.behind, Language.andThen_pure]
  refine ⟨fun h => ?_, fun h => ?_⟩
  · obtain ⟨us, rfl, value, ⟨hexpr, hnext⟩, rfl⟩ := h
    exact ⟨us, value, rfl, hexpr, hnext, rfl⟩
  · obtain ⟨us, value, rfl, hexpr, hnext, rfl⟩ := h
    exact ⟨us, rfl, value, ⟨hexpr, hnext⟩, rfl⟩

theorem ternary_accepts (hinner : inner.Follows n) (condition : Tree) :
    (ternary inner condition).AcceptsAt (.mark .question) fun ts tree next =>
      ∃ us vs consequent alternative, ts = .mark .question :: (us ++ .mark .colon :: vs) ∧
        Expr n .comma us consequent ∧
        Expr n .ternary vs alternative ∧ next.precedence ≤ .assignment ∧
          tree = .ternary condition consequent alternative := by
  have hbody := (hinner.expr .lowest (by decide)).bind fun consequent =>
    (@Accepts.expect .ternaryColon rfl (by decide)).bind fun _ =>
    (hinner.expr Precedence.ternary.lower (by decide)).bind fun alternative =>
      Accepts.pure (Tree.ternary condition consequent alternative)
  refine (AcceptsAt.skip hbody rfl (by decide)).congr fun ts tree next _ => ?_
  simp only [Language.behind, Language.andThen_expected, Language.andThen_behind, Language.andThen_pure]
  refine ⟨fun h => ?_, fun h => ?_⟩
  · obtain ⟨_, rfl, us, consequent, vs, rfl, ⟨hconsequent, _⟩, alternative, ⟨halternative, hnext⟩, rfl⟩ := h
    exact ⟨us, vs, consequent, alternative, rfl, hconsequent, halternative, hnext, rfl⟩
  · obtain ⟨us, vs, consequent, alternative, rfl, hconsequent, halternative, hnext, rfl⟩ := h
    exact ⟨_, rfl, us, consequent, vs, rfl, ⟨hconsequent, by decide⟩, alternative, ⟨halternative, hnext⟩, rfl⟩

theorem postfixed_accepts (op : UnaryOp) (operand : Tree) :
    (postfixed op operand).AcceptsAt (.mark op.mark) fun ts tree _ =>
      ts = [.mark op.mark] ∧ tree = .unary op operand := by
  refine (AcceptsAt.skip (Accepts.pure (Tree.unary op operand)) rfl (by simp)).congr fun ts tree next _ => ?_
  refine ⟨fun h => ?_, fun h => ?_⟩
  · obtain ⟨_, rfl, rfl, rfl⟩ := h
    exact ⟨rfl, rfl⟩
  · obtain ⟨rfl, rfl⟩ := h
    exact ⟨[], rfl, rfl, rfl⟩

theorem rightPrecedence_le (op : BinaryOp) : op.rightPrecedence ≤ .prefixOp := by
  cases op <;> decide

theorem binary_accepts (hinner : inner.Follows n) (op : BinaryOp) (left : Tree) :
    (binary inner op left).AcceptsAt (.mark op.mark) fun ts tree next =>
      ∃ us right, ts = .mark op.mark :: us ∧ Expr n op.rightPrecedence.tighter us right ∧
        next.precedence ≤ op.rightPrecedence ∧ tree = .binary op left right := by
  have hbody := ((hinner.expr op.rightPrecedence (rightPrecedence_le op)).rightSideOf op).bind fun right =>
    Accepts.pure (Tree.binary op left right)
  refine (AcceptsAt.skip hbody rfl (by simp)).congr fun ts tree next _ => ?_
  simp only [Language.behind, Language.andThen_pure]
  refine ⟨fun h => ?_, fun h => ?_⟩
  · obtain ⟨us, rfl, right, ⟨hexpr, hnext⟩, rfl⟩ := h
    exact ⟨us, right, rfl, hexpr, hnext, rfl⟩
  · obtain ⟨us, right, rfl, hexpr, hnext, rfl⟩ := h
    exact ⟨us, rfl, right, ⟨hexpr, hnext⟩, rfl⟩

theorem assignOp_ofMark?_eq_some {mark : Mark} {op : AssignOp}
    (hop : AssignOp.ofMark? mark = some op) : op.mark = mark := by
  unfold AssignOp.ofMark? at hop
  simpa using List.find?_some hop

theorem behind?_eq_some {mark : Mark} {op : UnaryOp} (hop : UnaryOp.behind? mark = some op) :
    op.isBehind = true ∧ op.mark = mark := by
  unfold UnaryOp.behind? at hop
  simpa using List.find?_some hop

theorem binaryOp_ofMark?_eq_some {mark : Mark} {op : BinaryOp}
    (hop : BinaryOp.ofMark? mark = some op) : op.mark = mark := by
  unfold BinaryOp.ofMark? at hop
  simpa using List.find?_some hop

theorem eq_identifier_of_call {left tree : Tree} {cursor after : Cursor}
    (hok : call inner left cursor = .ok tree after) :
    ∃ name, left = .identifier name := by
  cases left with
  | identifier name => exact ⟨name, rfl⟩
  | _ => exact absurd hok fail_ne_ok

theorem eq_identifier_of_assignment {op : AssignOp} {left tree : Tree} {cursor after : Cursor}
    (hok : assignment inner op left cursor = .ok tree after) : ∃ name, left = .identifier name := by
  cases left with
  | identifier name => exact ⟨name, rfl⟩
  | _ => exact absurd hok fail_ne_ok

theorem continuation_accepts (hinner : inner.Follows n) (left : Tree) :
    (continuation inner left).Accepts (Continues n left) := by
  intro kind
  refine AcceptsAt.current fun token htoken cursor hcursor tree after => ?_
  have hkind : token.kind = cursor.current.kind := htoken.trans hcursor.symm
  refine ⟨fun hok => ?_, fun h => ?_⟩
  · generalize hk : token.kind = k at hok hkind
    split at hok
    · obtain ⟨_, hreads, us, vs, consequent, alternative, rfl, hconsequent, halternative, hnext, rfl⟩ :=
        (ternary_accepts hinner left cursor hkind.symm tree after).1 hok
      exact ⟨_, hreads, .ternary hconsequent halternative hnext⟩
    · obtain ⟨callee, rfl⟩ := eq_identifier_of_call hok
      obtain ⟨_, hreads, us, arguments, rfl, harguments, rfl⟩ :=
        (call_accepts hinner callee cursor hkind.symm tree after).1 hok
      exact ⟨_, hreads, .call rfl harguments⟩
    · next mark _ _ =>
      cases hassign : AssignOp.ofMark? mark with
      | some op =>
        rw [hassign] at hok
        obtain rfl := assignOp_ofMark?_eq_some hassign
        obtain ⟨target, rfl⟩ := eq_identifier_of_assignment hok
        obtain ⟨_, hreads, us, value, rfl, hvalue, hnext, rfl⟩ :=
          (assignment_accepts hinner op target cursor hkind.symm tree after).1 hok
        exact ⟨_, hreads, .assign rfl hvalue hnext⟩
      | none =>
        cases hbehind : UnaryOp.behind? mark with
        | some op =>
          rw [hassign, hbehind] at hok
          obtain ⟨hop, rfl⟩ := behind?_eq_some hbehind
          obtain ⟨_, hreads, rfl, rfl⟩ := (postfixed_accepts op left cursor hkind.symm tree after).1 hok
          exact ⟨_, hreads, .behind hop⟩
        | none =>
          cases hbinary : BinaryOp.ofMark? mark with
          | some op =>
            rw [hassign, hbehind, hbinary] at hok
            obtain rfl := binaryOp_ofMark?_eq_some hbinary
            obtain ⟨_, hreads, us, right, rfl, hright, hnext, rfl⟩ :=
              (binary_accepts hinner op left cursor hkind.symm tree after).1 hok
            exact ⟨_, hreads, .binary hright hnext⟩
          | none =>
            rw [hassign, hbehind, hbinary] at hok
            exact absurd hok fail_ne_ok
    · exact absurd hok fail_ne_ok
  · obtain ⟨ts, hreads, hcontinues⟩ := h
    have hfollowing := hreads.following
    cases hcontinues with
    | ternary hconsequent halternative hnext =>
      rw [hkind, hfollowing]
      exact (ternary_accepts hinner left cursor hfollowing _ after).2
        ⟨_, hreads, _, _, _, _, rfl, hconsequent, halternative, hnext, rfl⟩
    | call hcallee harguments =>
      subst hcallee
      rw [hkind, hfollowing]
      exact (call_accepts hinner _ cursor hfollowing _ after).2 ⟨_, hreads, _, _, rfl, harguments, rfl⟩
    | @assign op target _ _ _ htarget hvalue hnext =>
      subst htarget
      have hassign := (assignment_accepts hinner op target cursor hfollowing _ after).2
        ⟨_, hreads, _, _, rfl, hvalue, hnext, rfl⟩
      rw [hkind, hfollowing]
      cases op <;> exact hassign
    | @behind op _ hop =>
      have hbehind := (postfixed_accepts op left cursor hfollowing _ after).2 ⟨_, hreads, rfl, rfl⟩
      rw [hkind, hfollowing]
      cases op <;> first | exact hbehind | exact absurd hop (by decide)
    | @binary op _ _ _ hright hnext =>
      have hbinary := (binary_accepts hinner op left cursor hfollowing _ after).2
        ⟨_, hreads, _, _, rfl, hright, hnext, rfl⟩
      rw [hkind, hfollowing]
      cases op <;> exact hbinary

/-! ### Climbing -/

/-- No right side of the level would have taken a token of the kind: it is looser than the level, or
as tight and the level groups to the left. -/
def Stops (p : Precedence) (next : Kind) : Prop :=
  next.precedence < p ∨ next.precedence = p ∧ p ≠ .assignment ∧ p ≠ .ternary ∧ p ≠ .exponent

theorem stops_iff {p : Precedence} {next : Kind} :
    Stops p next ↔ next.precedence.rank < p.rank ∨
      next.precedence.rank = p.rank ∧ p.rank ≠ 2 ∧ p.rank ≠ 3 ∧ p.rank ≠ 14 := by
  simp only [Stops, Precedence.lt_def, Precedence.eq_iff_rank, ne_eq, Precedence.ranks]

/-- Where the climb stands: what has been read is an expression of a level that the next token goes
on from, and not looser than the precedence of the climb asks for. -/
def Reached (n : Nat) (p : Precedence) (ts : List Terminal) (left : Tree) (next : Kind) : Prop :=
  ∃ q, p.tighter ≤ q ∧ Expr (n + 1) q ts left ∧ Stops q next

variable {p : Precedence} {ts us : List Terminal} {left tree : Tree} {next : Kind}

theorem Operand.reached (hoperand : Operand n ts left next) (p : Precedence) : Reached n p ts left next := by
  have htighter := p.rank_tighter
  have hle := next.precedence.rank_le
  rcases hoperand with hprimary | ⟨op, us, operand, hop, rfl, hexpr, rfl, hnext⟩
  · refine ⟨.postfixOp, ?_, .primary hprimary, ?_⟩
    · simp only [Precedence.le_def, Precedence.ranks]
      omega
    · simp only [stops_iff, Precedence.ranks]
      omega
  · refine ⟨.prefixOp, ?_, .before (Nat.le_refl _) hop hexpr, ?_⟩
    · simp only [Precedence.le_def, Precedence.ranks]
      omega
    · simp only [Precedence.le_def, stops_iff, Precedence.ranks] at hnext ⊢
      omega

@[simp] theorem precedence_kind_mark (mark : Mark) :
    (Terminal.mark mark).kind.precedence = mark.precedence :=
  rfl

theorem precedence_assignOp (op : AssignOp) : op.mark.precedence = .assignment := by
  cases op <;> rfl

theorem precedence_behind {op : UnaryOp} (hop : op.isBehind = true) : op.mark.precedence = .postfixOp := by
  cases op <;> first | rfl | exact absurd hop (by decide)

theorem rightPrecedence_of_ne_power {op : BinaryOp} (hop : op ≠ .power) :
    op.rightPrecedence = op.mark.precedence := by
  simp [BinaryOp.rightPrecedence, hop]

theorem rank_binaryOp {op : BinaryOp} (hop : op ≠ .power) :
    op.mark.precedence.rank = 1 ∨ 4 ≤ op.mark.precedence.rank ∧ op.mark.precedence.rank ≤ 13 := by
  cases op <;> first | decide | exact absurd rfl hop

/-- What a continuation makes of what has been read is an expression again, of the level of its operator. -/
theorem Reached.continues (hreached : Reached n p ts left (following us next))
    (htighter : p < (following us next).precedence) (hcontinues : Continues n left us tree next) :
    Reached n p (ts ++ us) tree next := by
  obtain ⟨q, hq, hexpr, hstops⟩ := hreached
  have hp := p.rank_tighter
  have hle := next.precedence.rank_le
  rw [stops_iff] at hstops
  rw [Precedence.le_def] at hq
  rw [Precedence.lt_def] at htighter
  cases hcontinues with
  | ternary hconsequent halternative hnext =>
    simp only [following_cons, precedence_kind_mark, Mark.precedence, Precedence.le_def,
      Precedence.ranks] at *
    have hcondition : Expr (n + 1) .logicalOr ts left := hexpr.looser (by
      simp only [Precedence.le_def, Precedence.ranks]
      omega)
    refine ⟨.ternary, ?_, .ternary (Nat.le_refl _) hcondition hconsequent halternative, ?_⟩
    · simp only [Precedence.le_def, Precedence.ranks]
      omega
    · simp only [stops_iff, Precedence.ranks]
      omega
  | call hcallee harguments =>
    subst hcallee
    refine ⟨.postfixOp, ?_, .call hexpr.primary_of_identifier harguments, ?_⟩
    · simp only [Precedence.le_def, Precedence.ranks]
      omega
    · simp only [stops_iff, Precedence.ranks]
      omega
  | assign htarget hvalue hnext =>
    subst htarget
    simp only [following_cons, precedence_kind_mark, precedence_assignOp, Precedence.le_def,
      Precedence.ranks] at *
    refine ⟨.assignment, ?_, .assign (Nat.le_refl _) hexpr.primary_of_identifier hvalue, ?_⟩
    · simp only [Precedence.le_def, Precedence.ranks]
      omega
    · simp only [stops_iff, Precedence.ranks]
      omega
  | behind hop =>
    simp only [following_cons, precedence_kind_mark, precedence_behind hop, Precedence.ranks] at *
    have hoperand : Expr (n + 1) .postfixOp ts left := hexpr.looser (by
      simp only [Precedence.le_def, Precedence.ranks]
      omega)
    refine ⟨.postfixOp, ?_, .behind hop hoperand, ?_⟩
    · simp only [Precedence.le_def, Precedence.ranks]
      omega
    · simp only [stops_iff, Precedence.ranks]
      omega
  | @binary op _ _ _ hright hnext =>
    by_cases hop : op = .power
    · subst hop
      have hlevel : BinaryOp.power.rightPrecedence = .multiplicative := rfl
      simp only [following_cons, precedence_kind_mark, BinaryOp.mark, Mark.precedence, hlevel,
        Precedence.le_def, Precedence.ranks] at *
      have hleft : Expr (n + 1) .prefixOp ts left := hexpr.looser (by
        simp only [Precedence.le_def, Precedence.ranks]
        omega)
      refine ⟨.exponent, ?_, .power (Nat.le_refl _) hleft hright, ?_⟩
      · simp only [Precedence.le_def, Precedence.ranks]
        omega
      · simp only [stops_iff, Precedence.ranks]
        omega
    · have hrank := rank_binaryOp hop
      rw [rightPrecedence_of_ne_power hop] at hright hnext
      simp only [following_cons, precedence_kind_mark, Precedence.le_def] at *
      have hleft : Expr (n + 1) op.mark.precedence ts left := hexpr.looser (by
        rw [Precedence.le_def]
        omega)
      refine ⟨op.mark.precedence, ?_, .binary (Nat.le_refl _) hop hleft hright, ?_⟩
      · rw [Precedence.le_def]
        omega
      · rw [stops_iff]
        omega

/-- The rounds of a climb at a precedence. -/
abbrev Climbs (n : Nat) (p : Precedence) : List Terminal → Tree → Tree → Kind → Prop :=
  Rounds (fun kind => p < kind.precedence) (Continues n)

/-- Whatever a climb makes of what has been read is an expression tighter than its precedence, and
it ends before a token that is not. -/
theorem Reached.climbs {result : Tree} (hreached : Reached n p ts left (following us next))
    (hclimbs : Climbs n p us left result next) :
    Expr (n + 1) p.tighter (ts ++ us) result ∧ next.precedence ≤ p := by
  induction hclimbs generalizing ts with
  | stop hstop =>
    obtain ⟨q, hq, hexpr, _⟩ := hreached
    rw [List.append_nil]
    simp only [decide_eq_false_iff_not, Precedence.lt_def, Nat.not_lt] at hstop
    exact ⟨hexpr.looser hq, hstop⟩
  | round hmore hstep _ ih =>
    rw [following_append] at hreached hmore
    rw [← List.append_assoc]
    exact ih (hreached.continues (of_decide_eq_true hmore) hstep)

/-- A climb passes through every expression at the front of the list that is tight enough and that
the next token would not have been taken into. Which operator the expression has last tells which
round leads to it; the left side of that operator was passed before. -/
theorem climbs_through {p : Precedence} (hp : p ≤ .prefixOp) {result : Tree} {next : Kind} :
    ∀ {m : Nat} {q : Precedence} {ts : List Terminal} {tree : Tree}, Expr m q ts tree →
      ∀ (n : Nat) (us : List Terminal),
      m = n + 1 → p.tighter ≤ q → Stops q (following us next) → Climbs n p us tree result next →
      ∃ vs left ws, ts ++ us = vs ++ ws ∧ Operand n vs left (following ws next) ∧
        Climbs n p ws left result next
  | _, _, ts, tree, .primary hprimary, n, us, hm, _, _, hclimbs => by
    obtain rfl := Nat.succ.inj hm
    exact ⟨ts, tree, us, rfl, .inl hprimary, hclimbs⟩
  | _, _, _, _, .before hlevel hop hoperand, n, us, hm, _, hstops, hclimbs => by
    obtain rfl := Nat.succ.inj hm
    refine ⟨_, _, us, rfl, .inr ⟨_, _, _, hop, rfl, hoperand, rfl, ?_⟩, hclimbs⟩
    simp only [stops_iff, Precedence.le_def, Precedence.ranks] at hstops hlevel ⊢
    omega
  | _, _, _, _, .behind hop hoperand, n, us, hm, hq, hstops, hclimbs => by
    obtain rfl := Nat.succ.inj hm
    have htighter := p.rank_tighter
    have hlevel := precedence_behind hop
    rw [List.append_assoc]
    refine climbs_through hp hoperand _ _ rfl ?_ ?_ (.round ?_ (.behind hop) hclimbs)
    · simp only [Precedence.le_def, Precedence.ranks]
      omega
    · simp only [List.cons_append, following_cons, precedence_kind_mark, hlevel, stops_iff,
        true_and, Precedence.ranks]
      omega
    · simp only [List.cons_append, following_cons, precedence_kind_mark, hlevel, decide_eq_true_eq,
        Precedence.lt_def, Precedence.le_def, Precedence.ranks] at hp ⊢
      omega
  | _, _, _, _, .call hcallee harguments, n, us, hm, hq, hstops, hclimbs => by
    obtain rfl := Nat.succ.inj hm
    rw [List.append_assoc]
    refine ⟨_, _, _, rfl, .inl hcallee, .round ?_ (.call rfl harguments) hclimbs⟩
    simp only [List.cons_append, following_cons, precedence_kind_mark, Mark.precedence, decide_eq_true_eq,
      Precedence.lt_def, Precedence.le_def, Precedence.ranks] at hp ⊢
    omega
  | _, _, _, _, .binary hlevel hop hleft hright, n, us, hm, hq, hstops, hclimbs => by
    obtain rfl := Nat.succ.inj hm
    have htighter := p.rank_tighter
    have hrank := rank_binaryOp hop
    rw [List.append_assoc]
    rw [← rightPrecedence_of_ne_power hop] at hright
    simp only [Precedence.le_def, stops_iff] at hq hlevel hstops
    refine climbs_through hp hleft _ _ rfl ?_ ?_ (.round ?_ (.binary hright ?_) hclimbs)
    · rw [Precedence.le_def]
      omega
    · simp only [List.cons_append, following_cons, precedence_kind_mark, stops_iff, true_and]
      omega
    · simp only [List.cons_append, following_cons, precedence_kind_mark, decide_eq_true_eq, Precedence.lt_def]
      omega
    · rw [rightPrecedence_of_ne_power hop, Precedence.le_def]
      omega
  | _, _, _, _, .power hlevel hleft hright, n, us, hm, hq, hstops, hclimbs => by
    obtain rfl := Nat.succ.inj hm
    have htighter := p.rank_tighter
    have hright' : BinaryOp.power.rightPrecedence = .multiplicative := rfl
    rw [List.append_assoc]
    simp only [Precedence.le_def, stops_iff, Precedence.ranks] at hq hlevel hstops
    refine climbs_through hp hleft _ _ rfl ?_ ?_
      (.round ?_ (@Continues.binary _ _ .power _ _ _ hright ?_) hclimbs)
    · simp only [Precedence.le_def, Precedence.ranks]
      omega
    · simp only [List.cons_append, following_cons, precedence_kind_mark, Mark.precedence, stops_iff,
        Precedence.ranks]
      omega
    · simp only [List.cons_append, following_cons, precedence_kind_mark, Mark.precedence,
        decide_eq_true_eq, Precedence.lt_def, Precedence.ranks]
      omega
    · simp only [hright', Precedence.le_def, Precedence.ranks]
      omega
  | _, _, _, _, .assign hlevel htarget hvalue, n, us, hm, hq, hstops, hclimbs => by
    obtain rfl := Nat.succ.inj hm
    have htighter := p.rank_tighter
    rw [List.append_assoc]
    simp only [Precedence.le_def, stops_iff, Precedence.ranks] at hq hlevel hstops
    refine ⟨_, _, _, rfl, .inl htarget, .round ?_ (.assign rfl hvalue ?_) hclimbs⟩
    · simp only [List.cons_append, following_cons, precedence_kind_mark, precedence_assignOp,
        decide_eq_true_eq, Precedence.lt_def, Precedence.ranks]
      omega
    · simp only [Precedence.le_def, Precedence.ranks]
      omega
  | _, _, _, _, .ternary hlevel hcondition hconsequent halternative, n, us, hm, hq, hstops, hclimbs => by
    obtain rfl := Nat.succ.inj hm
    have htighter := p.rank_tighter
    rw [List.append_assoc]
    simp only [Precedence.le_def, stops_iff, Precedence.ranks] at hq hlevel hstops
    refine climbs_through hp hcondition _ _ rfl ?_ ?_
      (.round ?_ (.ternary hconsequent halternative ?_) hclimbs)
    · simp only [Precedence.le_def, Precedence.ranks]
      omega
    · simp only [List.cons_append, following_cons, precedence_kind_mark, Mark.precedence, stops_iff,
        Precedence.ranks]
      omega
    · simp only [List.cons_append, following_cons, precedence_kind_mark, Mark.precedence, decide_eq_true_eq,
        Precedence.lt_def, Precedence.ranks]
      omega
    · simp only [Precedence.le_def, Precedence.ranks]
      omega

/-- Going on with what has been read is going through the rounds of a climb. -/
theorem climb_accepts (hinner : inner.Follows n) (p : Precedence) (left : Tree) :
    (climb inner p left).Accepts fun ts result next => Climbs n p ts left result next := by
  have hlowest : decide (p < Kind.endOfInput.precedence) = false := by
    simp [Precedence.lt_def, Kind.precedence, Precedence.ranks]
  have hconsumes : ∀ left, (continuation inner left).Consumes := by
    intro left
    refine (continuation_accepts hinner left).consumes fun ts tree next hcontinues => ?_
    cases hcontinues <;> simp
  exact @Accepts.repeatWhile _ (fun kind => p < kind.precedence) _ _ hlowest hconsumes
    (fun kind _ left => continuation_accepts hinner left kind) left

/-- At every precedence an expression is an operand and the rounds of a climb behind it. -/
theorem expression_accepts_climbs (hinner : inner.Follows n) (p : Precedence) :
    (expression inner p).Accepts
      ((Operand n).andThen fun left ts result next => Climbs n p ts left result next) :=
  (operand_accepts hinner).bind (climb_accepts hinner p)

/-- What is read at a precedence is an expression of the level above it, and the token behind it
does not bind tighter. -/
theorem expr_of_expression (hinner : inner.Follows n) {p : Precedence} {cursor after : Cursor} {tree : Tree}
    (hok : expression inner p cursor = .ok tree after) :
    ∃ ts, cursor.Reads ts after ∧ Expr (n + 1) p.tighter ts tree ∧ after.current.kind.precedence ≤ p := by
  obtain ⟨_, hreads, us, left, vs, rfl, hoperand, hclimbs⟩ :=
    (expression_accepts_climbs hinner p _ cursor rfl tree after).1 hok
  exact ⟨_, hreads, (hoperand.reached p).climbs hclimbs⟩

/-- Reading an expression at a precedence reads what the grammar has for the level above it. -/
theorem expression_accepts (hinner : inner.Follows n) {p : Precedence} (hp : p ≤ .prefixOp) :
    (expression inner p).Accepts fun ts tree next => Expr (n + 1) p.tighter ts tree ∧
      next.precedence ≤ p := by
  refine Accepts.congr (expression_accepts_climbs hinner p) fun ts tree next => ?_
  refine ⟨fun h => ?_, fun h => ?_⟩
  · obtain ⟨us, left, vs, rfl, hoperand, hclimbs⟩ := h
    exact (hoperand.reached p).climbs hclimbs
  · obtain ⟨hexpr, hnext⟩ := h
    have htighter := p.rank_tighter
    have hstops : Stops p.tighter next := by
      rw [Precedence.le_def] at hnext hp
      simp only [stops_iff, Precedence.ranks] at hp ⊢
      omega
    have hstop : Climbs n p [] tree tree next :=
      .stop (by simpa [Precedence.lt_def, Precedence.le_def] using hnext)
    obtain ⟨us, left, vs, hsplit, hoperand, hclimbs⟩ :=
      climbs_through hp hexpr n [] rfl (Nat.le_refl _) hstops hstop
    rw [List.append_nil] at hsplit
    exact ⟨us, left, vs, hsplit, hoperand, hclimbs⟩

end Parse

end ObsidianSyntax
