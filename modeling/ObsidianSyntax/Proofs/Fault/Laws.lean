import ObsidianSyntax.Proofs.Fault.Pinned

/-!
# Faults of the parser's parts

One law for each way in which parsers are put together, as for the languages that they accept: if
the parts fail at the earliest token, so does the whole. Beside it stand the tokens that the whole
can be completed with from nothing.
-/

namespace ObsidianSyntax

namespace Token

/-- The mark, as a source can hold it. -/
def ofMark (mark : Mark) : Token := ⟨.mark mark, mark.spelling, .start⟩

/-- A name, as a source can hold it. -/
def someName : Token := ⟨.identifier, "x", .start⟩

/-- A literal, as a source can hold it. -/
def someLiteral : Token := ⟨.intLiteral, "0", .start⟩

theorem isSpelled_ofMark (mark : Mark) : (ofMark mark).IsSpelled := .mark mark

theorem isSpelled_someName : someName.IsSpelled := by
  have hword : IsWord "x".toList := ⟨'x', [], rfl, .inl (by decide), by simp⟩
  exact .identifier hword (Kind.not_mem_reservedWords_iff.2 (by decide))

theorem isDigits_zero : IsDigits ['0'] := ⟨List.cons_ne_nil _ _, List.forall_mem_singleton.2 (by decide)⟩

theorem isSpelled_someLiteral : someLiteral.IsSpelled := .int isDigits_zero

@[simp] theorem kind_ofMark (mark : Mark) : (ofMark mark).kind = .mark mark := rfl

@[simp] theorem kind_someName : someName.kind = .identifier := rfl

@[simp] theorem kind_someLiteral : someLiteral.kind = .intLiteral := rfl

end Token

namespace Parse

theorem Consumes.map {α β : Type} {parse : Parse α} (f : α → β) (hconsumes : parse.Consumes) :
    (parse >>= fun a => Pure.pure (f a)).Consumes := by
  intro cursor value after hok
  obtain ⟨a, middle, hparse, hpure⟩ := bind_eq_ok.1 hok
  obtain ⟨_, rfl⟩ := pure_eq_ok.1 hpure
  exact hconsumes cursor a middle hparse

/-- What is accepted before one token is accepted before every other that the language allows there. -/
theorem AcceptsAt.ok_of_stable {α : Type} {kind next : Kind} {parse : Parse α}
    {language : Language α} {closes : Kind → Prop} {cursor after : Cursor} {ts : List Terminal}
    {value : α} (haccepts : parse.AcceptsAt kind language) (hkind : cursor.current.kind = kind)
    (hreads : cursor.Reads ts after) (hlanguage : language ts value next)
    (hstable : ∀ next', language ts value next → closes next' → language ts value next')
    (hnext : after.current.kind = next ∨ closes after.current.kind) :
    parse cursor = .ok value after := by
  refine (haccepts cursor hkind value after).2 ⟨ts, hreads, ?_⟩
  obtain hsame | hcloses := hnext
  · rwa [hsame]
  · exact hstable _ hlanguage hcloses

namespace Graded

variable {α β : Type} {kind refused wanted : Kind} {closes closes' : Kind → Prop} {limit room : Nat}
    {parse parse' : Graded α}
  {cursor after : Cursor} {fault : Fault} {ts : List Terminal} {sample : List Token}

/-! ### Parsers that are the same at a token -/

/-- Whether a fault is pinned does not depend on what the parser does at tokens of other kinds. -/
theorem Pinned.congr (hpinned : Pinned parse' closes limit room cursor fault ts)
    (hsame : ∀ room (cursor' : Cursor), cursor'.current.kind = cursor.current.kind →
      parse room cursor' = parse' room cursor') :
    Pinned parse closes limit room cursor fault ts := by
  obtain ⟨⟨middle, hreads, hmiddle⟩, hearliest⟩ := hpinned
  refine ⟨⟨middle, hreads, hmiddle⟩, hearliest.imp_right fun h => ⟨fun hne => ?_, ?_⟩⟩
  · obtain ⟨more, hspelled, value, enough, hreaches⟩ := h.1 hne
    refine ⟨more, hspelled, value, enough, fun room hroom cursor' after hreads' hcloses => ?_⟩
    obtain ⟨t, rest, rfl⟩ := List.exists_cons_of_ne_nil hne
    rw [hsame room cursor' (hreads'.following.trans hreads.following.symm)]
    exact hreaches room hroom cursor' after hreads' hcloses
  · intro more hmore cursor' middle' hreads' hterminal
    have hnext : middle'.current.kind = middle.current.kind := by
      rw [hmiddle]
      exact congrArg Terminal.kind hterminal
    rw [hsame more cursor' (by rw [hreads'.following, hreads.following, hnext])]
    exact h.2 more hmore cursor' middle' hreads' hterminal

theorem PinpointsAt.congr (hpinpoints : PinpointsAt kind parse' closes limit room)
    (hsame : ∀ room (cursor : Cursor), cursor.current.kind = kind → parse room cursor = parse' room cursor) :
    PinpointsAt kind parse closes limit room := by
  rintro cursor hnamed rfl fault after herror
  rw [hsame room cursor rfl] at herror
  obtain ⟨ts, hpinned⟩ := hpinpoints cursor hnamed rfl fault after herror
  exact ⟨ts, hpinned.congr hsame⟩

/-! ### Single tokens -/

/-- A parser that looks at one token fails at it or not at all. -/
theorem PinpointsAt.of_first (hfirst : ∀ cursor : Cursor, cursor.current.kind = kind → ∀ fault after,
    parse room cursor = .error fault after →
      fault.token = cursor.current ∧ Refuses parse room [] cursor.current.terminal) :
    PinpointsAt kind parse closes limit room := by
  intro cursor _ hkind fault after herror
  obtain ⟨htoken, hrefuses⟩ := hfirst cursor hkind fault after herror
  rw [← htoken] at hrefuses
  exact ⟨[], ⟨cursor, rfl, htoken.symm⟩, .inr ⟨fun hne => absurd rfl hne, hrefuses⟩⟩

/-- A parser that succeeds nowhere fails at the token it starts at. -/
theorem PinpointsAt.of_fails
    (hfails : ∀ room (cursor : Cursor), ∃ fault after, parse room cursor = .error fault after ∧
      fault.token = cursor.current) :
    PinpointsAt kind parse closes limit room := by
  refine of_first fun cursor _ fault after herror => ⟨?_, fun more _ cursor' _ _ _ value after hok => ?_⟩
  · obtain ⟨fault', after', herror', htoken⟩ := hfails room cursor
    rw [herror] at herror'
    cases herror'
    exact htoken
  · obtain ⟨fault', after', herror', _⟩ := hfails more cursor'
    rw [hok] at herror'
    cases herror'

theorem PinpointsAt.failHere (cause : Cause) :
    PinpointsAt kind (fun _ => (failHere cause : Parse α)) closes limit room :=
  .of_fails fun _ cursor => ⟨_, cursor, rfl, rfl⟩

theorem PinpointsAt.pure (value : α) :
    PinpointsAt kind (fun _ => (pure value : Parse α)) closes limit room := by
  intro cursor _ _ fault after herror
  cases herror

theorem HasSample.pure (value : α) : HasSample (fun _ => (pure value : Parse α)) closes [] := by
  refine ⟨by simp, value, 0, fun room _ cursor after hreads _ => ?_⟩
  obtain rfl := hreads
  rfl

theorem Pinpoints.pure (value : α) : Pinpoints (fun _ => (pure value : Parse α)) closes limit room [] :=
  ⟨.pure value, fun _ => .pure value⟩

/-- With more levels the parser reads whatever it reads with fewer. -/
def Grows (parse : Graded α) : Prop :=
  ∀ room more, room ≤ more → ∀ cursor value after, parse room cursor = .ok value after →
    parse more cursor = .ok value after

theorem Grows.const (parse : Parse α) : Grows fun _ => parse := fun _ _ _ _ _ _ hok => hok

theorem Grows.of_within
    (hwithin : ∀ room more, room ≤ more → Within limit (parse room) (parse more)) :
    Grows parse := by
  intro room more hmore cursor value after hok
  obtain hsame | ⟨fault, stop, herror, _⟩ := hwithin room more hmore cursor
  · rw [← hsame, hok]
  · exact absurd (hok.symm.trans herror) (by simp)

/-- At a token of the kind, what a parser accepts is kept if its language allows every next token of
the class. Where it reads nothing the next token is the one of the kind, which then must not
change. -/
theorem KeepsAt.of_acceptsAt {language : Nat → Language α}
    (haccepts : ∀ room, (parse room).AcceptsAt kind (language room))
    (hstable : ∀ room ts value next next', language room ts value next → closes next' →
      language room ts value next')
    (hreads : ∀ room ts value next, language room ts value next → ts ≠ []) (hgrows : Grows parse) :
    KeepsAt kind parse closes := by
  intro room cursor hkind value after hok
  obtain ⟨ts, hts, hlanguage⟩ := (haccepts room cursor hkind value after).1 hok
  obtain ⟨t, rest, rfl⟩ := List.exists_cons_of_ne_nil (hreads room ts value _ hlanguage)
  refine ⟨t :: rest, hts, fun more hmore cursor' after' hreads' hnext =>
    hgrows room more hmore cursor' value after' ?_⟩
  have hkind' : cursor'.current.kind = kind := (hreads'.following.trans hts.following.symm).trans hkind
  exact (haccepts room).ok_of_stable hkind' hreads' hlanguage (hstable room _ value _) hnext

/-- What a parser accepts is kept, if its language allows every next token of the class. -/
theorem KeepsAt.of_accepts {language : Nat → Language α}
    (haccepts : ∀ room, (parse room).Accepts (language room))
    (hstable : ∀ room ts value next next', language room ts value next → closes next' →
      language room ts value next') (hgrows : Grows parse) :
    KeepsAt kind parse closes := by
  intro room cursor _ value after hok
  obtain ⟨ts, hreads, hlanguage⟩ := (haccepts room _ cursor rfl value after).1 hok
  refine ⟨ts, hreads, fun more hmore cursor' after' hreads' hnext =>
    hgrows room more hmore cursor' value after' ?_⟩
  exact (haccepts room _).ok_of_stable rfl hreads' hlanguage (hstable room ts value _) hnext

theorem take_eq_error {expectation : Expectation} (herror : take expectation cursor = .error fault after) :
    cursor.current.kind ≠ expectation.kind ∧ fault.token = cursor.current := by
  have hstep : take expectation cursor = (if cursor.current.kind = expectation.kind then advance
    else Parse.failHere (.missing expectation) : Parse Token) cursor := rfl
  rw [hstep] at herror
  split at herror
  · cases herror
  · next hkind =>
    cases herror
    exact ⟨hkind, rfl⟩

/-- A parser that takes an expected token and then only makes something of it. -/
theorem pinpointsAt_take {expectation : Expectation} (f : Token → α) :
    PinpointsAt kind (fun _ => take expectation >>= fun token => Pure.pure (f token)) closes limit room := by
  refine .of_first fun cursor _ fault after herror => ?_
  obtain htake | ⟨token, middle, _, hpure⟩ := bind_eq_error herror
  case inr => cases hpure
  obtain ⟨hkind, htoken⟩ := take_eq_error htake
  refine ⟨htoken, fun more _ cursor' middle hreads hterminal value after' hok => hkind ?_⟩
  obtain rfl := hreads
  obtain ⟨token, between, hok, _⟩ := bind_eq_ok.1 hok
  rw [← (take_eq_ok.1 hok).1]
  exact (congrArg Terminal.kind hterminal).symm

theorem Pinpoints.expect {expectation : Expectation} {mark : Mark} (hmark : expectation.kind = .mark mark) :
    Pinpoints (fun _ => expect expectation) closes limit room [.ofMark mark] := by
  refine ⟨⟨by simpa using Token.isSpelled_ofMark mark, (), 0,
    fun room _ cursor after hreads _ => ?_⟩, fun kind => ?_⟩
  · have haccepts := @Accepts.expect expectation (by rw [hmark]; rfl) (by rw [hmark]; simp)
    exact (haccepts _ cursor rfl () after).2 ⟨_, hreads, by rw [hmark]; rfl⟩
  · exact pinpointsAt_take fun _ => ()

theorem KeepsAt.expect {expectation : Expectation} {mark : Mark} (hmark : expectation.kind = .mark mark) :
    KeepsAt kind (fun _ => expect expectation) closes := by
  have haccepts := @Accepts.expect expectation (by rw [hmark]; rfl) (by rw [hmark]; simp)
  exact .of_accepts (fun _ => haccepts) (fun _ _ _ _ _ h _ => h) (.const _)

theorem Pinpoints.expectName {expectation : Expectation} (hname : expectation.kind = .identifier) :
    Pinpoints (fun _ => expectName expectation) closes limit room [.someName] := by
  refine ⟨⟨by simpa using Token.isSpelled_someName, "x", 0, fun room _ cursor after hreads _ => ?_⟩,
    fun kind => ?_⟩
  · exact (Accepts.expectName hname _ cursor rfl "x" after).2 ⟨_, hreads, rfl⟩
  · exact pinpointsAt_take Token.lexeme

theorem KeepsAt.expectName {expectation : Expectation} (hname : expectation.kind = .identifier) :
    KeepsAt kind (fun _ => expectName expectation) closes :=
  .of_accepts (fun _ => Accepts.expectName hname) (fun _ _ _ _ _ h _ => h) (.const _)

/-- What is read behind an expected mark. -/
theorem Pinpoints.behind {expectation : Expectation} {mark : Mark}
    (hmark : expectation.kind = .mark mark) (hparse : Pinpoints parse closes limit room sample) :
    Pinpoints (fun room => do Parse.expect expectation; parse room) closes limit room
      (.ofMark mark :: sample) := by
  have hexpect : Pinpoints (fun _ => Parse.expect expectation)
      (fun _ => True) limit room [.ofMark mark] := .expect hmark
  exact hexpect.bind (fun _ => .expect hmark) (fun _ => hparse) fun _ _ => trivial

/-- What is read behind an expected name. -/
theorem Pinpoints.behindName {expectation : Expectation} {next : String → Graded α}
    (hname : expectation.kind = .identifier)
    (hnext : ∀ name, Pinpoints (next name) closes limit room sample) :
    Pinpoints (fun room => Parse.expectName expectation >>= fun name => next name room) closes limit
      room (.someName :: sample) := by
  have hexpect : Pinpoints (fun _ => Parse.expectName expectation)
      (fun _ => True) limit room [.someName] := .expectName hname
  exact hexpect.bind (fun _ => .expectName hname) hnext fun _ _ => trivial

theorem Pinpoints.refuse (refused : Kind) (cause : Cause) :
    Pinpoints (fun _ => refuse refused cause) (· ≠ refused) limit room [] := by
  refine ⟨⟨by simp, (), 0, fun room _ cursor after hreads hnext => ?_⟩, fun kind =>
    .of_first fun cursor _ fault after herror => ?_⟩
  · exact (Accepts.refuse refused cause _ cursor rfl () after).2 ⟨[], hreads, rfl, hnext⟩
  · have hstep : Parse.refuse refused cause cursor =
        (if (cursor.current.kind == refused) = true then Parse.failHere cause
          else Pure.pure () : Parse Unit) cursor := rfl
    rw [hstep] at herror
    split at herror
    · next hkind =>
      cases herror
      refine ⟨rfl, fun more _ cursor' middle hreads hterminal value after' hok => ?_⟩
      obtain rfl := hreads
      obtain ⟨ts, hreads, rfl, hnext⟩ := (Accepts.refuse refused cause _ cursor' rfl value after').1 hok
      obtain rfl := hreads
      exact hnext ((congrArg Terminal.kind hterminal).trans (beq_iff_eq.1 hkind))
    · cases herror

theorem KeepsAt.refuse (refused : Kind) (cause : Cause) :
    KeepsAt kind (fun _ => refuse refused cause) (· ≠ refused) :=
  .of_accepts (fun _ => Accepts.refuse refused cause) (fun _ _ _ _ _ h hnext => ⟨h.1, hnext⟩) (.const _)

/-- Stepping over the token at the cursor moves the place of a fault along. -/
theorem PinpointsAt.skip (hparse : Pinpoints parse closes limit room sample) (hend : kind ≠ .endOfInput) :
    PinpointsAt kind (fun room => do let _ ← advance; parse room) closes limit room := by
  intro cursor hnamed hkind fault after herror
  have hlive := isEnd_eq_false_of_kind hkind hend
  obtain ⟨ts, hpinned⟩ := hparse.pinpointsAt _ cursor.advance hnamed.advance rfl fault after herror
  obtain ⟨middle, hreads, hmiddle⟩ := hpinned.reads
  refine ⟨cursor.current.terminal :: ts, ⟨middle, ⟨hlive, rfl, hreads⟩, hmiddle⟩, ?_⟩
  by_cases hdeep : fault.IsTooDeep limit
  · exact .inl hdeep
  refine .inr ⟨fun _ => ?_, fun more hmore cursor' middle' hreads' hterminal => ?_⟩
  · obtain ⟨more, hspelled, value, enough, hreaches⟩ := hpinned.completes hparse.toHasSample hdeep
    exact ⟨more, hspelled, value, enough, fun room hroom cursor' after hreads' =>
      hreaches room hroom _ after hreads'.2.2⟩
  · exact (hpinned.earliest.resolve_left hdeep).2 more hmore cursor'.advance middle' hreads'.2.2 hterminal

theorem KeepsAt.skip (hparse : ∀ kind, KeepsAt kind parse closes) (hend : kind ≠ .endOfInput) :
    KeepsAt kind (fun room => do let _ ← advance; parse room) closes := by
  intro room cursor hkind value after hok
  have hlive := isEnd_eq_false_of_kind hkind hend
  obtain ⟨ts, hreads, hkeeps⟩ := hparse _ room cursor.advance rfl value after hok
  exact ⟨cursor.current.terminal :: ts, ⟨hlive, rfl, hreads⟩, fun more hmore cursor' after' hreads' hnext =>
    hkeeps more hmore cursor'.advance after' hreads'.2.2 hnext⟩

/-! ### Values made of what is read -/

theorem PinpointsAt.map (f : α → β) (hparse : PinpointsAt kind parse closes limit room) :
    PinpointsAt kind (fun room => parse room >>= fun a => Pure.pure (f a)) closes limit room := by
  intro cursor hnamed hkind fault after herror
  obtain herror | ⟨a, middle, _, hpure⟩ := bind_eq_error herror
  · obtain ⟨ts, hpinned⟩ := hparse cursor hnamed hkind fault after herror
    exact ⟨ts, hpinned.first (fun a => .pure (f a)) fun _ h => h⟩
  · cases hpure

theorem Pinpoints.map (f : α → β) (hparse : Pinpoints parse closes limit room sample) :
    Pinpoints (fun room => parse room >>= fun a => Pure.pure (f a)) closes limit room sample := by
  refine ⟨?_, fun kind => (hparse.pinpointsAt kind).map f⟩
  have hsample := hparse.toHasSample.bind (fun a => .pure (f a)) fun _ h => h
  rwa [List.append_nil] at hsample

theorem KeepsAt.map (f : α → β) (hparse : KeepsAt kind parse closes) :
    KeepsAt kind (fun room => parse room >>= fun a => Pure.pure (f a)) closes := by
  intro room cursor hkind value after hok
  obtain ⟨a, middle, hparsed, hpure⟩ := bind_eq_ok.1 hok
  obtain ⟨rfl, rfl⟩ := pure_eq_ok.1 hpure
  obtain ⟨ts, hreads, hkeeps⟩ := hparse room cursor hkind a middle hparsed
  exact ⟨ts, hreads, fun more hmore cursor' after' hreads' hnext =>
    bind_eq_ok.2 ⟨a, after', hkeeps more hmore cursor' after' hreads' hnext, rfl⟩⟩

/-- The hint that faults get in the right side of an operator does not move them. -/
theorem Pinpoints.rightSideOf (op : BinaryOp) (hparse : Pinpoints parse closes limit room sample) :
    Pinpoints (fun room => rightSideOf op (parse room)) closes limit room sample := by
  have hok : ∀ room (cursor : Cursor) value after, Parse.rightSideOf op (parse room) cursor =
    .ok value after ↔
      parse room cursor = .ok value after := by
    intro room cursor value after
    unfold Parse.rightSideOf
    cases parse room cursor <;> simp
  obtain ⟨⟨hspelled, value, enough, hreaches⟩, hpinpoints⟩ := hparse
  refine ⟨⟨hspelled, value, enough, fun room hroom cursor after hreads hnext => ?_⟩, ?_⟩
  · exact (hok room cursor value after).2 (hreaches room hroom cursor after hreads hnext)
  intro kind cursor hnamed hkind fault after herror
  cases hresult : parse room cursor with
  | ok value stop => simp [Parse.rightSideOf, hresult] at herror
  | error fault' stop =>
    obtain ⟨ts, hreads, hearliest⟩ := hpinpoints kind cursor hnamed hkind fault' stop hresult
    obtain rfl : fault'.inRightSide op = fault := by
      simp only [Parse.rightSideOf, hresult, EStateM.Result.error.injEq] at herror
      exact herror.1
    have htoken : (fault'.inRightSide op).token = fault'.token := by
      unfold Fault.inRightSide
      split <;> rfl
    refine ⟨ts, htoken ▸ hreads, ?_⟩
    rw [htoken]
    obtain hdeep | ⟨hcompletes, hrefuses⟩ := hearliest
    · exact .inl (by rwa [hdeep.inRightSide op])
    · refine .inr ⟨fun hne => ?_, fun more hmore cursor' middle hreads' hterminal value after' hok' => ?_⟩
      · obtain ⟨more, hspelled, value, enough, hreaches⟩ := hcompletes hne
        exact ⟨more, hspelled, value, enough, fun room hroom cursor' after hreads' hnext =>
          (hok room cursor' value after).2 (hreaches room hroom cursor' after hreads' hnext)⟩
      · exact hrefuses more hmore cursor' middle hreads' hterminal value after' ((hok _ _ _ _).1 hok')

/-! ### What may be missing -/

theorem Pinpoints.unlessAt (hparse : ∀ kind, PinpointsAt kind parse closes limit room)
    (hrefused : closes refused) :
    Pinpoints (fun room => unlessAt refused (parse room)) (· = refused) limit room [] := by
  refine ⟨⟨by simp, none, 0, fun room _ cursor after hreads hnext => ?_⟩, fun kind => ?_⟩
  · obtain rfl := hreads
    refine (unlessAt_apply refused (parse room) cursor).trans ?_
    rw [if_pos (by simpa using hnext)]
    rfl
  · by_cases hkind : kind = refused
    · refine (PinpointsAt.pure none).congr fun room cursor hcursor => ?_
      rw [unlessAt_apply, if_pos (by simp [hcursor, hkind])]
    · have hclosed : PinpointsAt kind parse (· = refused) limit room :=
        (hparse kind).mono (by rintro _ rfl; exact hrefused)
      refine (hclosed.map some).congr fun room cursor hcursor => ?_
      rw [unlessAt_apply, if_neg (by simp [hcursor, hkind])]

theorem KeepsAt.unlessAt {language : Nat → Language α}
    (haccepts : ∀ room, (parse room).Accepts (language room))
    (hstable : ∀ room ts value next, language room ts value next → ts ≠ [] ∧ language room ts value refused)
    (hwithin : ∀ room more, room ≤ more → Within limit (parse room) (parse more)) :
    KeepsAt kind (fun room => unlessAt refused (parse room)) (· = refused) := by
  refine .of_accepts (fun room => (haccepts room).unlessAt refused) ?_
    (.of_within fun room more hmore => (hwithin room more hmore).unlessAt refused)
  rintro room ts value next _ (⟨rfl, rfl, _⟩ | ⟨a, rfl, hlanguage, hfollowing⟩) rfl
  · exact .inl ⟨rfl, rfl, rfl⟩
  · obtain ⟨hne, hlanguage'⟩ := hstable room ts a next hlanguage
    obtain ⟨t, rest, rfl⟩ := List.exists_cons_of_ne_nil hne
    exact .inr ⟨a, rfl, hlanguage', hfollowing⟩

theorem Pinpoints.ifNext (hparse : Pinpoints parse closes limit room sample) (hwanted : wanted ≠ .endOfInput)
    (hcloses : ∀ kind, closes' kind → closes kind ∧ kind ≠ wanted) :
    Pinpoints (fun room => ifNext wanted (parse room)) closes' limit room [] := by
  refine ⟨⟨by simp, none, 0, fun room _ cursor after hreads hnext => ?_⟩, fun kind => ?_⟩
  · obtain rfl := hreads
    refine (ifNext_apply wanted (parse room) cursor).trans ?_
    rw [if_neg (by simpa using (hcloses _ hnext).2)]
    rfl
  · by_cases hkind : kind = wanted
    · have hclosed := hparse.mono fun kind h => (hcloses kind h).1
      refine (PinpointsAt.skip (hclosed.map some) (hkind ▸ hwanted)).congr fun room cursor hcursor => ?_
      rw [ifNext_apply, if_pos (by simp [hcursor, hkind])]
    · refine (PinpointsAt.pure none).congr fun room cursor hcursor => ?_
      rw [ifNext_apply, if_neg (by simp [hcursor, hkind])]

theorem KeepsAt.ifNext {language : Nat → Language α}
    (haccepts : ∀ room, (parse room).Accepts (language room))
    (hstable : ∀ room ts value next next', language room ts value next → closes next' →
      language room ts value next') (htext : wanted.hasText = false) (hend : wanted ≠ .endOfInput)
    (hcloses : ∀ kind, closes kind → kind ≠ wanted)
    (hwithin : ∀ room more, room ≤ more → Within limit (parse room) (parse more)) :
    KeepsAt kind (fun room => ifNext wanted (parse room)) closes := by
  refine .of_accepts (fun room => (haccepts room).ifNext htext hend) ?_
    (.of_within fun room more hmore => (hwithin room more hmore).ifNext wanted)
  rintro room ts value next next' (⟨rfl, rfl, _⟩ | ⟨a, rfl, us, rfl, hlanguage⟩) hnext
  · exact .inl ⟨rfl, rfl, hcloses next' hnext⟩
  · exact .inr ⟨a, rfl, us, rfl, hstable room us a next next' hlanguage hnext⟩

/-! ### Repetition -/

/-- A repetition fails where one of its rounds does. What completes that round completes the
repetition, which stops behind it. The induction is on the tokens left, as each round reads one. -/
theorem Pinpoints.repeatWhile {more : Kind → Bool} {step : α → Graded α} (hend : more .endOfInput = false)
    (hconsumes : ∀ value room, (step value room).Consumes)
    (hstep : ∀ kind, more kind = true → ∀ value, PinpointsAt kind (step value) closes limit room)
    (hkeeps : ∀ kind, more kind = true → ∀ value, KeepsAt kind (step value) closes)
    (hcloses : ∀ kind, closes' kind → more kind = false ∧ closes kind) (value : α) :
    Pinpoints (fun room => repeatWhile (fun token => more token.kind) (fun value => step value room) value)
      closes' limit room [] := by
  have hmore : ∀ token : Token, token.isEnd = true → more token.kind = false := by
    intro token htoken
    rwa [beq_iff_eq.1 htoken]
  have hrepeat (value : α) (room : Nat) (cursor : Cursor) :=
    repeatWhile_eq hmore (fun value => hconsumes value room) value cursor
  have hsample : ∀ value, HasSample (fun room => Parse.repeatWhile (fun token => more token.kind)
    (fun value => step value room) value) closes' [] := by
    refine fun value => ⟨by simp, value, 0, fun room _ cursor after hreads hnext => ?_⟩
    obtain rfl := hreads
    refine (hrepeat value room cursor).trans ?_
    rw [if_neg (by simpa using (hcloses _ hnext).1)]
  refine ⟨hsample value, fun kind cursor hnamed hkind fault after herror => ?_⟩
  clear hkind
  induction hsize : cursor.rest.length using Nat.strong_induction_on generalizing value cursor with
  | _ size ih =>
    rw [hrepeat] at herror
    split at herror
    · next hcontinue =>
      suffices hbind : ∃ ts, Pinned (fun room => step value room >>= fun middle =>
          Parse.repeatWhile (fun token => more token.kind) (fun value => step value room) middle)
          closes' limit room cursor fault ts by
        obtain ⟨ts, hpinned⟩ := hbind
        refine ⟨ts, hpinned.congr fun room cursor' hcursor => ?_⟩
        rw [hrepeat, if_pos (by rwa [hcursor])]
      have hfirst : ∀ kind, closes' kind → closes (following (List.map Token.terminal []) kind) :=
        fun kind h => (hcloses kind h).2
      obtain herror | ⟨middle, between, hok, hrest⟩ := bind_eq_error herror
      · obtain ⟨ts, hpinned⟩ := hstep _ hcontinue value cursor hnamed rfl fault after herror
        exact ⟨ts, hpinned.first hsample hfirst⟩
      · obtain ⟨us, hus, _⟩ := hkeeps _ hcontinue value room cursor rfl middle between hok
        have hless := hconsumes value room cursor middle between hok
        obtain ⟨vs, hpinned⟩ := ih _ (hsize ▸ hless) middle between (hnamed.of_reads hus) hrest rfl
        exact hpinned.second (hkeeps _ hcontinue value) hok (hsample middle) hfirst
    · cases herror

theorem Pinpoints.many {more : Kind → Bool} (hend : more .endOfInput = false)
    (hconsumes : ∀ room, (parse room).Consumes)
    (hitem : ∀ kind, more kind = true → PinpointsAt kind parse closes limit room)
    (hkeeps : ∀ kind, more kind = true → KeepsAt kind parse closes)
    (hcloses : ∀ kind, closes' kind → more kind = false ∧ closes kind) :
    Pinpoints (fun room => many (fun token => more token.kind) (parse room)) closes' limit room [] := by
  let step (items : Array α) : Graded (Array α) := fun room => parse room >>= fun a =>
    Pure.pure (items.push a)
  have hrounds : Pinpoints (fun room => Parse.repeatWhile (fun token => more token.kind)
    (fun items => step items room) #[]) closes' limit room [] :=
    .repeatWhile hend (fun items room => (hconsumes room).map items.push) (fun kind hmore items =>
      (hitem kind hmore).map items.push)
      (fun kind hmore items => (hkeeps kind hmore).map items.push) hcloses #[]
  exact hrounds.map Array.toList

theorem Pinpoints.commaSeparated (hconsumes : ∀ room, (parse room).Consumes)
    (hparse : Pinpoints parse closes limit room sample) (hkeeps : ∀ kind, KeepsAt kind parse closes)
    (hcloses : ∀ kind, closes' kind → kind ≠ .mark .comma ∧ closes kind) :
    Pinpoints (fun room => Parse.commaSeparated (parse room)) closes' limit room sample := by
  have hmany : Pinpoints
    (fun room => Parse.many (fun token => token.kind == .mark .comma) (do let _ ← advance; parse room))
      closes' limit room [] := by
    refine @Pinpoints.many _ closes closes' _ _ _ (· == .mark .comma) (by rfl)
      (fun room => (hconsumes room).skip) (fun kind hkind => ?_)
      (fun kind hkind => ?_) fun kind h => ⟨by simpa using (hcloses kind h).1, (hcloses kind h).2⟩
    · exact .skip hparse (by rw [beq_iff_eq.1 hkind]; simp)
    · exact .skip hkeeps (by rw [beq_iff_eq.1 hkind]; simp)
  have hboth := hparse.bind hkeeps (fun first => hmany.map (first :: ·)) fun kind h => (hcloses kind h).2
  rwa [List.append_nil] at hboth

theorem Pinpoints.listItems (hconsumes : ∀ room, (parse room).Consumes)
    (hparse : Pinpoints parse closes limit room sample) (hkeeps : ∀ kind, KeepsAt kind parse closes)
    (hcloses : closes (.mark .rightParen)) :
    Pinpoints (fun room => Parse.listItems (parse room)) (· = .mark .rightParen) limit room [] := by
  have hitems : Pinpoints (fun room => Parse.commaSeparated (parse room)) (· = .mark .rightParen)
      limit room sample :=
    hparse.commaSeparated hconsumes hkeeps (by rintro _ rfl; exact ⟨by simp, hcloses⟩)
  exact (Pinpoints.unlessAt hitems.pinpointsAt rfl).map (·.getD [])

/-- A list of items is kept in front of its closing parenthesis, as each item reads something. -/
theorem KeepsAt.listItems {item : Nat → List Terminal → α → Prop} {stops : Kind → Prop}
    (hconsumes : ∀ room, (parse room).Consumes)
    (haccepts : ∀ room, (parse room).Accepts fun ts a next => item room ts a ∧ stops next)
    (hreads : ∀ room ts a, item room ts a → ts ≠ []) (hcomma : stops (.mark .comma))
    (hparen : stops (.mark .rightParen))
    (hwithin : ∀ room more, room ≤ more → Within limit (parse room) (parse more)) :
    KeepsAt kind (fun room => Parse.listItems (parse room)) (· = .mark .rightParen) := by
  refine .of_accepts (fun room => (haccepts room).listItems (hconsumes room) hcomma) ?_
    (.of_within fun room more hmore => (hwithin room more hmore).listItems)
  rintro room ts items next _ (⟨rfl, rfl, _⟩ | ⟨hitems, _, _, hfollowing⟩) rfl
  · exact .inl ⟨rfl, rfl, rfl⟩
  · have hne : ts ≠ [] := by
      cases hitems with
      | one hitem => exact hreads room ts _ hitem
      | cons => simp
    obtain ⟨t, rest, rfl⟩ := List.exists_cons_of_ne_nil hne
    exact .inr ⟨hitems, hparen, by simp, hfollowing⟩

end Graded

end Parse

end ObsidianSyntax
