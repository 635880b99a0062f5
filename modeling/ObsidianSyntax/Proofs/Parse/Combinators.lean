import ObsidianSyntax.Proofs.Parse.Language

/-!
# Languages of the parser's parts

One law for each way in which parsers are put together: stepping over a token, asking for one,
refusing one, what may be missing, and repetition. Each gives the language of the whole from the
languages of the parts.
-/

namespace ObsidianSyntax

namespace Parse

variable {α β : Type} {kind : Kind} {parse : Parse α} {language : Language α}

/-! ### Single tokens -/

/-- A parser that looks at the token at the cursor first. -/
theorem AcceptsAt.current {next : Token → Parse α}
    (hnext : ∀ token : Token, token.kind = kind → (next token).AcceptsAt kind language) :
    (Parse.current >>= next).AcceptsAt kind language :=
  fun cursor hkind => hnext cursor.current hkind cursor hkind

theorem isEnd_eq_false_of_kind {cursor : Cursor} (hkind : cursor.current.kind = kind)
    (hend : kind ≠ .endOfInput) :
    cursor.current.isEnd = false := by
  rw [Token.isEnd, hkind]
  simpa using hend

/-- The terminals behind one of the kind, which carries no text. -/
def Language.behind (kind : Kind) (language : Language α) : Language α := fun ts value next =>
  ∃ us, ts = ⟨kind, ""⟩ :: us ∧ language us value next

theorem reads_behind {cursor after : Cursor} {ts : List Terminal} (hkind : cursor.current.kind = kind)
    (htext : kind.hasText = false) (hend : kind ≠ .endOfInput) :
    cursor.Reads (⟨kind, ""⟩ :: ts) after ↔ cursor.advance.Reads ts after := by
  rw [Cursor.reads_cons, Token.terminal_eq_iff htext]
  simp [isEnd_eq_false_of_kind hkind hend, hkind]

theorem AcceptsAt.skip (haccepts : parse.Accepts language) (htext : kind.hasText = false)
    (hend : kind ≠ .endOfInput) :
    (do let _ ← advance; parse).AcceptsAt kind (language.behind kind) := by
  intro cursor hkind value after
  have hstep : (do let _ ← advance; parse) cursor = parse cursor.advance := rfl
  rw [hstep, haccepts _ _ rfl]
  refine ⟨fun h => ?_, fun h => ?_⟩
  · obtain ⟨ts, hreads, hlanguage⟩ := h
    exact ⟨_, (reads_behind hkind htext hend).2 hreads, ts, rfl, hlanguage⟩
  · obtain ⟨_, hreads, ts, rfl, hlanguage⟩ := h
    exact ⟨ts, (reads_behind hkind htext hend).1 hreads, hlanguage⟩

theorem take_eq_ok {expectation : Expectation} {cursor after : Cursor} {token : Token} :
    take expectation cursor = .ok token after ↔
      cursor.current.kind = expectation.kind ∧ token = cursor.current ∧ after = cursor.advance := by
  show (if cursor.current.kind = expectation.kind then advance else failHere _ : Parse Token) cursor = _ ↔ _
  split
  · next hkind =>
    show EStateM.Result.ok cursor.current cursor.advance = _ ↔ _
    simp [hkind, eq_comm]
  · next hkind =>
    show EStateM.Result.error _ _ = _ ↔ _
    simp [hkind]

theorem Accepts.expect {expectation : Expectation} (htext : expectation.kind.hasText = false)
    (hend : expectation.kind ≠ .endOfInput) :
    (expect expectation).Accepts fun ts _ _ => ts = [⟨expectation.kind, ""⟩] := by
  intro kind cursor _ value after
  have htake : Parse.expect expectation cursor = .ok value after ↔
      ∃ token, take expectation cursor = .ok token after := by
    show (take expectation >>= fun _ => Pure.pure ()) cursor = _ ↔ _
    rw [bind_eq_ok]
    simp [Pure.pure, EStateM.pure]
  rw [htake]
  refine ⟨fun h => ?_, fun h => ?_⟩
  · obtain ⟨token, htoken⟩ := h
    obtain ⟨hkind, rfl, rfl⟩ := take_eq_ok.1 htoken
    exact ⟨_, (reads_behind hkind htext hend).2 (Cursor.reads_nil.2 rfl), rfl⟩
  · obtain ⟨_, hreads, rfl⟩ := h
    have hkind : cursor.current.kind = expectation.kind := hreads.following
    have hafter : cursor.advance = after := (reads_behind hkind htext hend).1 hreads
    exact ⟨_, take_eq_ok.2 ⟨hkind, rfl, hafter.symm⟩⟩

theorem Accepts.expectName {expectation : Expectation} (hname : expectation.kind = .identifier) :
    (expectName expectation).Accepts fun ts text _ => ts = [.name text] := by
  intro kind cursor _ text after
  have htake : Parse.expectName expectation cursor = .ok text after ↔
      ∃ token, take expectation cursor = .ok token after ∧ token.lexeme = text := by
    show (take expectation >>= fun token => Pure.pure token.lexeme) cursor = _ ↔ _
    rw [bind_eq_ok]
    simp only [Pure.pure, EStateM.pure, EStateM.Result.ok.injEq]
    refine ⟨fun h => ?_, fun h => ?_⟩
    · obtain ⟨token, _, htoken, hlexeme, rfl⟩ := h
      exact ⟨token, htoken, hlexeme⟩
    · obtain ⟨token, htoken, hlexeme⟩ := h
      exact ⟨token, after, htoken, hlexeme, rfl⟩
  have hreads : ∀ after, cursor.Reads [.name text] after ↔
      cursor.current.kind = .identifier ∧ cursor.current.lexeme = text ∧ cursor.advance = after := by
    intro after
    rw [Cursor.reads_cons, Cursor.reads_nil, Terminal.name, Token.terminal_eq_iff_of_hasText rfl]
    refine ⟨fun h => ?_, fun h => ?_⟩
    · obtain ⟨_, ⟨hkind, hlexeme⟩, hafter⟩ := h
      exact ⟨hkind, hlexeme, hafter⟩
    · obtain ⟨hkind, hlexeme, hafter⟩ := h
      exact ⟨isEnd_eq_false_of_kind hkind (by decide), ⟨hkind, hlexeme⟩, hafter⟩
  rw [htake]
  refine ⟨fun h => ?_, fun h => ?_⟩
  · obtain ⟨token, htoken, hlexeme⟩ := h
    obtain ⟨hkind, rfl, rfl⟩ := take_eq_ok.1 htoken
    exact ⟨_, (hreads _).2 ⟨hkind.trans hname, hlexeme, rfl⟩, rfl⟩
  · obtain ⟨_, hname', rfl⟩ := h
    obtain ⟨hkind, hlexeme, hafter⟩ := (hreads _).1 hname'
    exact ⟨_, take_eq_ok.2 ⟨hkind.trans hname.symm, rfl, hafter.symm⟩, hlexeme⟩

/-- Refusing a kind reads nothing and tells what the next kind is not. -/
theorem Accepts.refuse (refused : Kind) (cause : Cause) :
    (refuse refused cause).Accepts fun ts _ next => ts = [] ∧ next ≠ refused := by
  intro kind cursor _ value after
  show (if (cursor.current.kind == refused) = true then failHere cause
    else Pure.pure () : Parse Unit) cursor = _ ↔ _
  by_cases hrefused : cursor.current.kind = refused
  · simp only [hrefused, BEq.rfl, if_true]
    show EStateM.Result.error _ _ = _ ↔ _
    simp only [reduceCtorEq, false_iff]
    rintro ⟨_, hreads, rfl, hnext⟩
    obtain rfl := hreads
    exact hnext hrefused
  · simp only [beq_eq_false_iff_ne.2 hrefused, Bool.false_eq_true, if_false]
    show EStateM.Result.ok () cursor = _ ↔ _
    refine ⟨fun h => ?_, fun h => ?_⟩
    · cases h
      exact ⟨[], rfl, rfl, hrefused⟩
    · obtain ⟨_, hreads, rfl, _⟩ := h
      obtain rfl := hreads
      rfl

/-! ### Lists put together

How a language put together from single tokens and parts looks as one list.
-/

namespace Language

theorem andThen_refused {refused : Kind} {second : Unit → Language β} {ts : List Terminal}
    {value : β} {next : Kind} :
    andThen (fun us _ next => us = [] ∧ next ≠ refused) second ts value next ↔
      following ts next ≠ refused ∧ second () ts value next := by
  refine ⟨fun h => ?_, fun h => ?_⟩
  · obtain ⟨_, _, vs, rfl, ⟨rfl, hrefused⟩, hsecond⟩ := h
    exact ⟨hrefused, hsecond⟩
  · obtain ⟨hrefused, hsecond⟩ := h
    exact ⟨[], (), ts, rfl, ⟨rfl, hrefused⟩, hsecond⟩

theorem andThen_expected {second : Unit → Language β} :
    andThen (fun us _ _ => us = [⟨kind, ""⟩]) second = behind kind (second ()) := by
  funext ts value next
  apply propext
  refine ⟨fun h => ?_, fun h => ?_⟩
  · obtain ⟨_, _, vs, rfl, rfl, hsecond⟩ := h
    exact ⟨vs, rfl, hsecond⟩
  · obtain ⟨vs, rfl, hsecond⟩ := h
    exact ⟨_, (), vs, rfl, rfl, hsecond⟩

theorem andThen_behind {second : α → Language β} {ts : List Terminal} {value : β} {next : Kind} :
    language.andThen (fun a => behind kind (second a)) ts value next ↔
      ∃ us a vs, ts = us ++ ⟨kind, ""⟩ :: vs ∧ language us a kind ∧ second a vs value next := by
  refine ⟨fun h => ?_, fun h => ?_⟩
  · obtain ⟨us, a, _, rfl, hfirst, vs, rfl, hsecond⟩ := h
    exact ⟨us, a, vs, rfl, hfirst, hsecond⟩
  · obtain ⟨us, a, vs, rfl, hfirst, hsecond⟩ := h
    exact ⟨us, a, _, rfl, hfirst, vs, rfl, hsecond⟩

theorem andThen_pure {f : α → β} {ts : List Terminal} {value : β} {next : Kind} :
    language.andThen (fun a us value _ => us = [] ∧ value = f a) ts value next ↔
      ∃ a, language ts a next ∧ value = f a := by
  refine ⟨fun h => ?_, fun h => ?_⟩
  · obtain ⟨us, a, _, rfl, hfirst, rfl, rfl⟩ := h
    exact ⟨a, by simpa using hfirst, rfl⟩
  · obtain ⟨a, hfirst, rfl⟩ := h
    exact ⟨ts, a, [], by simp, hfirst, rfl, rfl⟩

end Language

/-! ### What may be missing -/

/-- What may be missing, and is if a token of the kind stands there. -/
def Language.unless (refused : Kind) (language : Language α) : Language (Option α) := fun ts value next =>
  (ts = [] ∧ value = none ∧ next = refused) ∨
    ∃ a, value = some a ∧ language ts a next ∧ following ts next ≠ refused

theorem unlessAt_apply (refused : Kind) (parse : Parse α) (cursor : Cursor) :
    unlessAt refused parse cursor =
      (if (cursor.current.kind == refused) = true then Pure.pure none else parse >>= fun a =>
        Pure.pure (some a) :
        Parse (Option α)) cursor := rfl

theorem Accepts.unlessAt (haccepts : parse.Accepts language) (refused : Kind) :
    (unlessAt refused parse).Accepts (language.unless refused) := by
  intro kind cursor hkind value after
  rw [unlessAt_apply]
  by_cases hrefused : cursor.current.kind = refused
  · rw [if_pos (by simpa using hrefused), Accepts.pure _ _ _ rfl]
    refine ⟨fun h => ?_, fun h => ?_⟩
    · obtain ⟨ts, hreads, rfl, rfl⟩ := h
      exact ⟨[], hreads, .inl ⟨rfl, rfl, hreads.following.symm.trans hrefused⟩⟩
    · obtain ⟨ts, hreads, ⟨rfl, rfl, _⟩ | ⟨a, _, _, hfollowing⟩⟩ := h
      · exact ⟨[], hreads, rfl, rfl⟩
      · exact absurd (hreads.following.symm.trans hrefused) hfollowing
  · rw [if_neg (by simpa using hrefused), (haccepts.bind fun a => Accepts.pure (some a)) _ _ rfl]
    refine ⟨fun h => ?_, fun h => ?_⟩
    · obtain ⟨ts, hreads, us, a, vs, rfl, hus, rfl, rfl⟩ := h
      rw [List.append_nil] at hreads
      exact ⟨us, hreads, .inr ⟨a, rfl, hus, hreads.following ▸ hrefused⟩⟩
    · obtain ⟨ts, hreads, ⟨rfl, _, hnext⟩ | ⟨a, rfl, hlanguage, _⟩⟩ := h
      · exact absurd (hreads.following.trans hnext) hrefused
      · exact ⟨ts, hreads, ts, a, [], by simp, hlanguage, rfl, rfl⟩

def Language.after (wanted : Kind) (language : Language α) : Language (Option α) := fun ts value next =>
  (ts = [] ∧ value = none ∧ next ≠ wanted) ∨ ∃ a, value = some a ∧ language.behind wanted ts a next

theorem ifNext_apply (wanted : Kind) (parse : Parse α) (cursor : Cursor) : ifNext wanted parse cursor =
    (if (cursor.current.kind == wanted) = true then
      (do let _ ← advance; (parse >>= fun a => Pure.pure (some a) : Parse (Option α)))
    else Pure.pure none : Parse (Option α)) cursor := rfl

theorem Accepts.ifNext (haccepts : parse.Accepts language) {wanted : Kind} (htext : wanted.hasText = false)
    (hend : wanted ≠ .endOfInput) : (ifNext wanted parse).Accepts (language.after wanted) := by
  intro kind cursor hkind value after
  rw [ifNext_apply]
  by_cases hwanted : cursor.current.kind = wanted
  · have hskip := AcceptsAt.skip (haccepts.bind fun a => Accepts.pure (some a)) htext hend
    rw [if_pos (by simpa using hwanted), hskip cursor hwanted]
    refine ⟨fun h => ?_, fun h => ?_⟩
    · obtain ⟨_, hreads, _, rfl, us, a, vs, rfl, hus, rfl, rfl⟩ := h
      rw [List.append_nil] at hreads
      exact ⟨_, hreads, .inr ⟨a, rfl, us, rfl, hus⟩⟩
    · obtain ⟨ts, hreads, ⟨rfl, _, hnext⟩ | ⟨a, rfl, us, rfl, hus⟩⟩ := h
      · exact absurd (hreads.following.symm.trans hwanted) hnext
      · exact ⟨_, hreads, us, rfl, us, a, [], by simp, hus, rfl, rfl⟩
  · rw [if_neg (by simpa using hwanted), Accepts.pure _ _ _ rfl]
    refine ⟨fun h => ?_, fun h => ?_⟩
    · obtain ⟨ts, hreads, rfl, rfl⟩ := h
      exact ⟨[], hreads, .inl ⟨rfl, rfl, fun hnext => hwanted (hreads.following.trans hnext)⟩⟩
    · obtain ⟨ts, hreads, ⟨rfl, rfl, _⟩ | ⟨a, _, us, rfl, _⟩⟩ := h
      · exact ⟨[], hreads, rfl, rfl⟩
      · exact absurd hreads.following hwanted

/-- The hint that faults get in the right side of an operator makes no difference to what is accepted. -/
theorem Accepts.rightSideOf (haccepts : parse.Accepts language) (op : BinaryOp) :
    (rightSideOf op parse).Accepts language := by
  intro kind cursor hkind value after
  rw [← haccepts kind cursor hkind]
  unfold Parse.rightSideOf
  cases parse cursor <;> simp

/-! ### Repetition -/

/-- Rounds of a step from a value to another, taken as long as the kind of the next token allows. -/
inductive Rounds (more : Kind → Bool) (step : α → Language α) : List Terminal → α → α → Kind → Prop where
  | stop {value : α} {next : Kind} (hstop : more next = false) : Rounds more step [] value value next
  | round {ts us : List Terminal} {value middle result : α} {next : Kind}
      (hmore : more (following (ts ++ us) next) = true)
      (hstep : step value ts middle (following us next)) (hrest : Rounds more step us middle result next) :
      Rounds more step (ts ++ us) value result next

/-- A parser reads something if there is something in each list that it accepts. -/
theorem Accepts.consumes (haccepts : parse.Accepts language)
    (hreads : ∀ ts a next, language ts a next → ts ≠ []) :
    parse.Consumes := by
  intro cursor a after hok
  obtain ⟨ts, hts, hlanguage⟩ := (haccepts _ cursor rfl a after).1 hok
  have hlength := hts.length
  have hpos := List.length_pos_iff.2 (hreads _ _ _ hlanguage)
  omega

theorem length_advance_le (cursor : Cursor) : cursor.advance.rest.length ≤ cursor.rest.length := by
  by_cases hlive : cursor.current.isEnd = true
  · simp [Cursor.advance, hlive]
  · have hlength := Cursor.length_advance (by simpa using hlive)
    omega

theorem Consumes.skip (hconsumes : parse.Consumes) : (do let _ ← advance; parse).Consumes := by
  intro cursor a after hok
  have hless := hconsumes cursor.advance a after hok
  have hle := length_advance_le cursor
  omega

/-- A repetition accepts rounds of what its step accepts, given that a step reads something. -/
theorem Accepts.repeatWhile {more : Kind → Bool} {step : α → Parse α} {language : α → Language α}
    (hend : more .endOfInput = false) (hconsumes : ∀ value, (step value).Consumes)
    (hstep : ∀ kind, more kind = true → ∀ value, (step value).AcceptsAt kind (language value)) (value : α) :
    (repeatWhile (fun token => more token.kind) step value).Accepts fun ts result next =>
      Rounds more language ts value result next := by
  have hmore : ∀ token : Token, token.isEnd = true → more token.kind = false := by
    intro token htoken
    rwa [beq_iff_eq.1 htoken]
  intro kind cursor hkind result after
  clear hkind
  refine ⟨fun hok => ?_, fun h => ?_⟩
  · induction hsize : cursor.rest.length using Nat.strong_induction_on generalizing value cursor with
    | _ size ih =>
      rw [repeatWhile_eq hmore hconsumes] at hok
      split at hok
      · next hcontinue =>
        obtain ⟨middle, between, hok, hrest⟩ := bind_eq_ok.1 hok
        have hless := hconsumes _ _ _ _ hok
        obtain ⟨ts, hts, hlanguage⟩ := (hstep _ hcontinue value cursor rfl middle between).1 hok
        obtain ⟨us, hus, hrounds⟩ := ih _ (hsize ▸ hless) middle between hrest rfl
        have hboth := Cursor.reads_append.2 ⟨between, hts, hus⟩
        rw [hus.following] at hlanguage
        exact ⟨ts ++ us, hboth, .round (by rwa [← hboth.following]) hlanguage hrounds⟩
      · next hcontinue =>
        cases hok
        exact ⟨[], rfl, .stop (by simpa using hcontinue)⟩
  · obtain ⟨ts, hts, hrounds⟩ := h
    generalize hnext : after.current.kind = next at hrounds
    induction hrounds generalizing cursor with
    | stop hstop =>
      obtain rfl := hts
      rw [repeatWhile_eq hmore hconsumes, if_neg (by simp [hnext, hstop])]
    | round hcontinue hlanguage _ ih =>
      have hfollowing := hts.following
      obtain ⟨between, hts, hus⟩ := Cursor.reads_append.1 hts
      rw [← hnext, ← hus.following] at hlanguage
      rw [← hnext, ← hfollowing] at hcontinue
      rw [repeatWhile_eq hmore hconsumes, if_pos hcontinue]
      exact bind_eq_ok.2 ⟨_, between, (hstep _ hcontinue _ cursor rfl _ _).2 ⟨_, hts, hlanguage⟩,
        ih between hus hnext⟩

/-- Items one after the other, as long as the kind of the next token allows. -/
inductive Repeats (more : Kind → Bool) (item : Language α) : Language (List α) where
  | nil {next : Kind} (hstop : more next = false) : Repeats more item [] [] next
  | cons {ts us : List Terminal} {a : α} {rest : List α} {next : Kind}
      (hmore : more (following (ts ++ us) next) = true)
      (hitem : item ts a (following us next)) (hrest : Repeats more item us rest next) :
      Repeats more item (ts ++ us) (a :: rest) next

/-- Rounds that each add an item to those before are the items. -/
theorem rounds_push_iff {more : Kind → Bool} {ts : List Terminal} {items result : Array α}
    {next : Kind} :
    Rounds more (fun items ts items' next => ∃ a, language ts a next ∧ items' = items.push a) ts
      items result next ↔
      ∃ rest, Repeats more language ts rest next ∧ result = items ++ rest := by
  refine ⟨fun hrounds => ?_, fun h => ?_⟩
  · induction hrounds with
    | stop hstop => exact ⟨[], .nil hstop, by simp⟩
    | round hmore hstep _ ih =>
      obtain ⟨a, hitem, rfl⟩ := hstep
      obtain ⟨rest, hrest, rfl⟩ := ih
      exact ⟨a :: rest, .cons hmore hitem hrest, by simp⟩
  · obtain ⟨rest, hrepeats, rfl⟩ := h
    induction hrepeats generalizing items with
    | nil hstop => exact .stop hstop
    | @cons _ _ a rest _ hmore hitem _ ih =>
      have hpush : items ++ a :: rest = items.push a ++ rest := by simp
      rw [hpush]
      exact .round hmore ⟨a, hitem, rfl⟩ ih

theorem Accepts.many {more : Kind → Bool} (hend : more .endOfInput = false) (hconsumes : parse.Consumes)
    (haccepts : ∀ kind, more kind = true → parse.AcceptsAt kind language) :
    (many (fun token => more token.kind) parse).Accepts (Repeats more language) := by
  have hstep : ∀ kind, more kind = true → ∀ items : Array α,
      (parse >>= fun a => Pure.pure (items.push a)).AcceptsAt kind
        fun ts items' next => ∃ a, language ts a next ∧ items' = items.push a := by
    intro kind hmore items
    refine ((haccepts kind hmore).bind fun a => Accepts.pure (items.push a)).congr fun ts items' next _ => ?_
    refine ⟨fun h => ?_, fun h => ?_⟩
    · obtain ⟨us, a, vs, rfl, hus, rfl, rfl⟩ := h
      rw [List.append_nil]
      exact ⟨a, hus, rfl⟩
    · obtain ⟨a, hitem, rfl⟩ := h
      exact ⟨ts, a, [], by simp, hitem, rfl, rfl⟩
  have hpush : ∀ items : Array α, (parse >>= fun a => Pure.pure (items.push a)).Consumes := by
    intro items cursor items' after hok
    obtain ⟨a, middle, hok, hpure⟩ := bind_eq_ok.1 hok
    cases hpure
    exact hconsumes cursor a _ hok
  have hrounds := Accepts.repeatWhile hend hpush hstep #[]
  refine (hrounds.bind fun items => Accepts.pure items.toList).congr fun ts result next => ?_
  simp only [Language.andThen, rounds_push_iff]
  refine ⟨fun h => ?_, fun hrepeats => ?_⟩
  · obtain ⟨us, _, vs, rfl, ⟨rest, hrepeats, rfl⟩, rfl, rfl⟩ := h
    simpa using hrepeats
  · exact ⟨ts, _, [], by simp, ⟨result, hrepeats, rfl⟩, rfl, by simp⟩

/-- A comma and an item, again and again, behind a first item. -/
theorem repeats_comma_iff {item : List Terminal → α → Prop} {stops : Kind → Prop}
    (hcomma : stops (.mark .comma)) {ts : List Terminal} {a : α} {rest : List α} {next : Kind} :
    (∃ us vs, ts = us ++ vs ∧ (item us a ∧ stops (following vs next)) ∧
      Repeats (· == .mark .comma)
        (Language.behind (.mark .comma) fun ts a next => item ts a ∧ stops next) vs rest next) ↔
      Grammar.Separated item ts (a :: rest) ∧ stops next ∧ next ≠ .mark .comma := by
  refine ⟨fun h => ?_, fun h => ?_⟩
  · obtain ⟨us, vs, rfl, ⟨hitem, hstops⟩, hrepeats⟩ := h
    induction hrepeats generalizing us a with
    | nil hstop =>
      rw [List.append_nil]
      exact ⟨.one hitem, hstops, by simpa using hstop⟩
    | cons hmore hbehind _ ih =>
      obtain ⟨ws, rfl, hitem', hstops'⟩ := hbehind
      obtain ⟨hseparated, hnext⟩ := ih ws hitem' hstops'
      exact ⟨.cons hitem hseparated, hnext⟩
  · obtain ⟨hseparated, hstops, hnext⟩ := h
    generalize hitems : a :: rest = items at hseparated
    induction hseparated generalizing a rest with
    | one hitem =>
      cases hitems
      exact ⟨_, [], by simp, ⟨hitem, hstops⟩, .nil (by simpa using hnext)⟩
    | @cons ts us _ items hitem hrest ih =>
      cases hitems
      obtain ⟨b, bs, rfl⟩ : ∃ b bs, items = b :: bs := by cases hrest <;> simp
      obtain ⟨vs, ws, rfl, hfirst, hrepeats⟩ := ih rfl
      have hbehind : Language.behind (.mark .comma) (fun ts a next => item ts a ∧ stops next)
        (.mark .comma :: vs) b (following ws next) := ⟨vs, rfl, hfirst⟩
      exact ⟨ts, .mark .comma :: (vs ++ ws), rfl, ⟨hitem, hcomma⟩, .cons (by rfl) hbehind hrepeats⟩

theorem Accepts.commaSeparated {item : List Terminal → α → Prop} {stops : Kind → Prop}
    (hconsumes : parse.Consumes) (haccepts : parse.Accepts fun ts a next => item ts a ∧ stops next)
    (hcomma : stops (.mark .comma)) :
    (commaSeparated parse).Accepts fun ts items next =>
      Grammar.Separated item ts items ∧ stops next ∧ next ≠ .mark .comma := by
  have hmany := Accepts.many (by rfl) (hconsumes.skip) fun kind (hkind : (kind == .mark .comma) = true) => by
    rw [beq_iff_eq.1 hkind]
    exact AcceptsAt.skip haccepts rfl (by simp)
  refine (haccepts.bind fun first => hmany.bind fun others => Accepts.pure (first :: others)).congr
    fun ts items next => ?_
  refine ⟨fun h => ?_, fun h => ?_⟩
  · obtain ⟨us, first, _, rfl, hfirst, vs, others, _, rfl, hothers, rfl, rfl⟩ := h
    rw [List.append_nil] at hfirst ⊢
    exact (repeats_comma_iff hcomma).1 ⟨us, vs, rfl, hfirst, hothers⟩
  · obtain ⟨hseparated, hnext⟩ := h
    obtain ⟨first, others, rfl⟩ : ∃ first others, items = first :: others := by cases hseparated <;> simp
    obtain ⟨us, vs, rfl, hfirst, hothers⟩ := (repeats_comma_iff hcomma).2 ⟨hseparated, hnext⟩
    exact ⟨us, first, vs, rfl, hfirst, vs, others, [], by simp, hothers, rfl, rfl⟩

/-- Items with commas between them up to a closing parenthesis, which no item starts with. -/
theorem Accepts.listItems {item : List Terminal → α → Prop} {stops : Kind → Prop} (hconsumes : parse.Consumes)
    (haccepts : parse.Accepts fun ts a next => item ts a ∧ stops next) (hcomma : stops (.mark .comma)) :
    (listItems parse).Accepts fun ts items next =>
      (ts = [] ∧ items = [] ∧ next = .mark .rightParen) ∨
        Grammar.Separated item ts items ∧ stops next ∧ next ≠ .mark .comma ∧
          following ts next ≠ .mark .rightParen := by
  have hunless := (haccepts.commaSeparated hconsumes hcomma).unlessAt (.mark .rightParen)
  refine (hunless.bind fun items => Accepts.pure (items.getD [])).congr fun ts items next => ?_
  refine ⟨fun h => ?_, fun h => ?_⟩
  · obtain ⟨us, found, _, rfl, hfound, rfl, rfl⟩ := h
    rw [List.append_nil]
    rcases hfound with ⟨rfl, rfl, hnext⟩ | ⟨items, rfl, ⟨hseparated, hstops, hnext⟩, hfollowing⟩
    · exact .inl ⟨rfl, rfl, hnext⟩
    · exact .inr ⟨hseparated, hstops, hnext, hfollowing⟩
  · obtain ⟨rfl, rfl, rfl⟩ | ⟨hseparated, hstops, hnext, hfollowing⟩ := h
    · exact ⟨[], none, [], rfl, .inl ⟨rfl, rfl, rfl⟩, rfl, rfl⟩
    · exact ⟨ts, some items, [], by simp,
        .inr ⟨items, rfl, ⟨hseparated, hstops, hnext⟩, hfollowing⟩, rfl, rfl⟩

end Parse

end ObsidianSyntax
