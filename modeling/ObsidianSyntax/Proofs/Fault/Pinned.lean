import ObsidianSyntax.Proofs.Parse.Combinators
import ObsidianSyntax.Proofs.Parse.Limits

/-!
# Where a parser fails

A parser that reads from left to right and never goes back should fail at the first token that no
continuation can save: what it has read so far can still be completed, and with the token at which
it stops no longer. Whether that holds of a parser follows from its parts. Two things have to be
known of each part: to which tokens it can be completed from nothing (`HasSample`), so that whatever
is open when an inner part fails can be closed, and that what it makes of its tokens depends on them
and on the kind of the next one only (`KeepsAt`), so that the same happens in front of any other
continuation.

Completions may nest deeper than what has been read. So all is said of parsers that are given for
every number of levels, and whatever nests deeper than the limit is left out.
-/

namespace ObsidianSyntax

/-- The token is spelled as tokens of its kind are. -/
def Token.IsSpelled (token : Token) : Prop := Spells token.lexeme.toList token.kind

namespace Cursor

variable {cursor after : Cursor} {ts : List Terminal}

/-- No name at the cursor or behind it is empty. -/
def IsNamed (cursor : Cursor) : Prop := ∀ token ∈ cursor.rest, token.kind = .identifier → token.lexeme ≠ ""

theorem IsNamed.advance (hnamed : cursor.IsNamed) : cursor.advance.IsNamed := by
  intro token hmem
  apply hnamed token
  unfold Cursor.advance at hmem
  split at hmem
  · exact hmem
  · exact List.mem_of_mem_drop hmem

theorem IsNamed.of_reads (hnamed : cursor.IsNamed) (hreads : cursor.Reads ts after) : after.IsNamed := by
  induction ts generalizing cursor with
  | nil =>
    obtain rfl := hreads
    exact hnamed
  | cons t ts ih => exact ih hnamed.advance hreads.2.2

end Cursor

namespace Parse

theorem bind_of_ok {α β : Type} {parse : Parse α} {next : α → Parse β} {cursor middle : Cursor} {a : α}
    (hok : parse cursor = .ok a middle) : (parse >>= next) cursor = next a middle := by
  simp only [Bind.bind, EStateM.bind, hok]

/-- A fault of two parsers one after the other is one of the first, or of the second behind what the
first has read. -/
theorem bind_eq_error {α β : Type} {parse : Parse α} {next : α → Parse β} {cursor after : Cursor}
    {fault : Fault} (herror : (parse >>= next) cursor = .error fault after) :
    parse cursor = .error fault after ∨ ∃ a middle, parse cursor = .ok a middle ∧
      next a middle = .error fault after := by
  cases hresult : parse cursor with
  | error fault' after' =>
    simp only [Bind.bind, EStateM.bind, hresult] at herror
    cases herror
    exact .inl rfl
  | ok a middle => exact .inr ⟨a, middle, rfl, (bind_of_ok hresult).symm.trans herror⟩

/-- A parser for each number of levels that may still be nested. -/
abbrev Graded (α : Type) := Nat → Parse α

namespace Graded

variable {α β : Type} {kind : Kind} {closes closes' closes₁ closes₂ : Kind → Prop}
    {limit room : Nat} {parse parse' : Graded α}
  {next : α → Graded β} {cursor middle after : Cursor} {fault : Fault} {ts vs : List Terminal}
    {sample sample' : List Token}

/-- With levels enough, the terminals are read as the value wherever a token of the class stands
behind them. -/
def Reaches (parse : Graded α) (closes : Kind → Prop) (ts : List Terminal) (value : α) : Prop :=
  ∃ enough, ∀ room, enough ≤ room → ∀ cursor after : Cursor, cursor.Reads ts after →
    closes after.current.kind → parse room cursor = .ok value after

/-- The tokens are ones that a source can hold, and they are read with a token of the class behind them. -/
structure HasSample (parse : Graded α) (closes : Kind → Prop) (sample : List Token) : Prop where
  spelled : ∀ token ∈ sample, token.IsSpelled
  reaches : ∃ value, Reaches parse closes (sample.map Token.terminal) value

/-- Further tokens complete the terminals to what is read with a token of the class behind it. -/
def Completes (parse : Graded α) (closes : Kind → Prop) (ts : List Terminal) : Prop :=
  ∃ more : List Token, (∀ token ∈ more, token.IsSpelled) ∧
    ∃ value, Reaches parse closes (ts ++ more.map Token.terminal) value

/-- However many levels there are from `room` on, nothing is read that starts with the terminals and
`next`. -/
def Refuses (parse : Graded α) (room : Nat) (ts : List Terminal) (next : Terminal) : Prop :=
  ∀ more, room ≤ more → ∀ cursor middle : Cursor, cursor.Reads ts middle → middle.current.terminal = next →
    ∀ value after, parse more cursor ≠ .ok value after

/-- The token of the fault stands behind the terminals `ts`. It is the earliest token to fail at,
unless the fault is about depth: the terminals can be completed, and with the token they cannot.
That nothing read can be completed is said by the samples instead. -/
structure Pinned (parse : Graded α) (closes : Kind → Prop) (limit room : Nat) (cursor : Cursor)
    (fault : Fault) (ts : List Terminal) : Prop where
  reads : ∃ middle, cursor.Reads ts middle ∧ middle.current = fault.token
  earliest : fault.IsTooDeep limit ∨
    (ts ≠ [] → Completes parse closes ts) ∧ Refuses parse room ts fault.token.terminal

/-- With a token of the kind at the cursor, every fault is pinned. -/
def PinpointsAt (kind : Kind) (parse : Graded α) (closes : Kind → Prop) (limit room : Nat) : Prop :=
  ∀ cursor : Cursor, cursor.IsNamed → cursor.current.kind = kind →
    ∀ fault after, parse room cursor = .error fault after →
    ∃ ts, Pinned parse closes limit room cursor fault ts

/-- Every fault is pinned, and there is something that is read. -/
structure Pinpoints (parse : Graded α) (closes : Kind → Prop) (limit room : Nat) (sample : List Token) : Prop
    extends HasSample parse closes sample where
  pinpointsAt : ∀ kind, PinpointsAt kind parse closes limit room

/-- With a token of the kind at the cursor, what is read and its value stay the same in front of any
token of the same kind as the next, and of the class. -/
def KeepsAt (kind : Kind) (parse : Graded α) (closes : Kind → Prop) : Prop :=
  ∀ (room : Nat) (cursor : Cursor), cursor.current.kind = kind →
    ∀ value after, parse room cursor = .ok value after →
    ∃ ts, cursor.Reads ts after ∧ ∀ more, room ≤ more → ∀ cursor' after' : Cursor, cursor'.Reads ts after' →
      after'.current.kind = after.current.kind ∨ closes after'.current.kind →
        parse more cursor' = .ok value after'

/-! ### Classes of next tokens -/

theorem Reaches.mono {value : α} (hreaches : Reaches parse closes ts value)
    (hcloses : ∀ kind, closes' kind → closes kind) :
    Reaches parse closes' ts value := by
  obtain ⟨enough, hreaches⟩ := hreaches
  exact ⟨enough, fun room hroom cursor after hreads hnext =>
    hreaches room hroom cursor after hreads (hcloses _ hnext)⟩

theorem HasSample.mono (hsample : HasSample parse closes sample)
    (hcloses : ∀ kind, closes' kind → closes kind) :
    HasSample parse closes' sample := by
  obtain ⟨hspelled, value, hreaches⟩ := hsample
  exact ⟨hspelled, value, hreaches.mono hcloses⟩

theorem PinpointsAt.mono (hpinpoints : PinpointsAt kind parse closes limit room)
    (hcloses : ∀ kind, closes' kind → closes kind) : PinpointsAt kind parse closes' limit room := by
  intro cursor hnamed hkind fault after herror
  obtain ⟨ts, hreads, hearliest⟩ := hpinpoints cursor hnamed hkind fault after herror
  refine ⟨ts, hreads, hearliest.imp_right fun h => ⟨fun hne => ?_, h.2⟩⟩
  obtain ⟨more, hspelled, value, hreaches⟩ := h.1 hne
  exact ⟨more, hspelled, value, hreaches.mono hcloses⟩

theorem Pinpoints.mono (hpinpoints : Pinpoints parse closes limit room sample)
    (hcloses : ∀ kind, closes' kind → closes kind) : Pinpoints parse closes' limit room sample :=
  ⟨hpinpoints.toHasSample.mono hcloses, fun kind => (hpinpoints.pinpointsAt kind).mono hcloses⟩

theorem HasSample.completes_nil (hsample : HasSample parse closes sample) : Completes parse closes [] :=
  ⟨sample, hsample.spelled, hsample.reaches⟩

/-- With a sample the terminals before every pinned fault can be completed. -/
theorem Pinned.completes (hpinned : Pinned parse closes limit room cursor fault ts)
    (hsample : HasSample parse closes sample) (hdeep : ¬ fault.IsTooDeep limit) :
    Completes parse closes ts := by
  obtain hdeep' | ⟨hcompletes, _⟩ := hpinned.earliest
  · exact absurd hdeep' hdeep
  · by_cases hts : ts = []
    · rw [hts]
      exact hsample.completes_nil
    · exact hcompletes hts

/-! ### One parser after the other -/

theorem Reaches.bind {a : α} {value : β} (hparse : Reaches parse closes₁ ts a)
    (hnext : Reaches (next a) closes₂ vs value)
    (hfirst : ∀ kind, closes₂ kind → closes₁ (following vs kind)) :
    Reaches (fun room => parse room >>= fun a => next a room) closes₂ (ts ++ vs) value := by
  obtain ⟨enough, hparse⟩ := hparse
  obtain ⟨enough', hnext⟩ := hnext
  refine ⟨max enough enough', fun room hroom cursor after hreads hcloses => ?_⟩
  obtain ⟨middle, hts, hvs⟩ := Cursor.reads_append.1 hreads
  have hmiddle : closes₁ middle.current.kind := hvs.following ▸ hfirst _ hcloses
  have hok := hparse room (by omega) cursor middle hts hmiddle
  exact bind_eq_ok.2 ⟨a, middle, hok, hnext room (by omega) middle after hvs hcloses⟩

theorem HasSample.bind (hparse : HasSample parse closes₁ sample)
    (hnext : ∀ a, HasSample (next a) closes₂ sample')
    (hfirst : ∀ kind, closes₂ kind → closes₁ (following (sample'.map Token.terminal) kind)) :
    HasSample (fun room => parse room >>= fun a => next a room) closes₂ (sample ++ sample') := by
  obtain ⟨hspelled, a, hreaches⟩ := hparse
  obtain ⟨hspelled', value, hreaches'⟩ := hnext a
  refine ⟨List.forall_mem_append.2 ⟨hspelled, hspelled'⟩, value, ?_⟩
  rw [List.map_append]
  exact hreaches.bind hreaches' hfirst

/-- A fault of the first parser is one of both. What completes the first is completed by a sample of
the second. -/
theorem Pinned.first (hpinned : Pinned parse closes₁ limit room cursor fault ts)
    (hsample : ∀ a, HasSample (next a) closes₂ sample)
    (hfirst : ∀ kind, closes₂ kind → closes₁ (following (sample.map Token.terminal) kind)) :
    Pinned (fun room => parse room >>= fun a => next a room) closes₂ limit room cursor fault ts := by
  refine ⟨hpinned.reads, hpinned.earliest.imp_right fun h => ⟨fun hne => ?_, ?_⟩⟩
  · obtain ⟨more, hspelled, a, hreaches⟩ := h.1 hne
    obtain ⟨hspelled', value, hreaches'⟩ := hsample a
    refine ⟨more ++ sample, List.forall_mem_append.2 ⟨hspelled, hspelled'⟩, value, ?_⟩
    rw [List.map_append, ← List.append_assoc]
    exact hreaches.bind hreaches' hfirst
  · intro more hmore cursor middle hreads hterminal value after hok
    obtain ⟨a, between, hok, _⟩ := bind_eq_ok.1 hok
    exact h.2 more hmore cursor middle hreads hterminal a between hok

/-- A fault of the second parser, behind what the first has read. Where the second has read nothing
yet, its sample decides what comes next, and the first must have stopped before that as well. -/
theorem Pinned.second {a : α} (hkeeps : KeepsAt cursor.current.kind parse closes₁)
    (hok : parse room cursor = .ok a middle)
    (hpinned : Pinned (next a) closes₂ limit room middle fault vs)
    (hsample : HasSample (next a) closes₂ sample)
    (hfirst : ∀ kind, closes₂ kind → closes₁ (following (sample.map Token.terminal) kind)) :
    ∃ ts, Pinned (fun room => parse room >>= fun a => next a room) closes₂ limit room cursor fault ts := by
  obtain ⟨us, hus, hkeeps⟩ := hkeeps room cursor rfl a middle hok
  obtain ⟨⟨stop, hvs, hstop⟩, hearliest⟩ := hpinned
  refine ⟨us ++ vs, ⟨stop, Cursor.reads_append.2 ⟨middle, hus, hvs⟩, hstop⟩,
    hearliest.imp_right fun h => ⟨fun _ => ?_, ?_⟩⟩
  · cases vs with
    | nil =>
      obtain ⟨hspelled, value, enough, hreaches⟩ := hsample
      refine ⟨sample, hspelled, value, max room enough, fun room' hroom cursor' after hreads hcloses => ?_⟩
      rw [List.append_nil] at hreads
      obtain ⟨middle', hus', hmore⟩ := Cursor.reads_append.1 hreads
      have hmiddle : closes₁ middle'.current.kind := hmore.following ▸ hfirst _ hcloses
      have hok' := hkeeps room' (by omega) cursor' middle' hus' (.inr hmiddle)
      exact bind_eq_ok.2 ⟨a, middle', hok', hreaches room' (by omega) middle' after hmore hcloses⟩
    | cons v vs =>
      obtain ⟨more, hspelled, value, enough, hreaches⟩ := h.1 (by simp)
      refine ⟨more, hspelled, value, max room enough, fun room' hroom cursor' after hreads hcloses => ?_⟩
      rw [List.append_assoc] at hreads
      obtain ⟨middle', hus', hmore⟩ := Cursor.reads_append.1 hreads
      have hsame : middle'.current.kind = middle.current.kind := hmore.following.trans hvs.following.symm
      have hok' := hkeeps room' (by omega) cursor' middle' hus' (.inl hsame)
      exact bind_eq_ok.2 ⟨a, middle', hok', hreaches room' (by omega) middle' after hmore hcloses⟩
  · intro more hmore cursor' stop' hreads hterminal value after hok'
    obtain ⟨middle', hus', hvs'⟩ := Cursor.reads_append.1 hreads
    have hnext : stop'.current.kind = stop.current.kind := by
      rw [hstop]
      exact congrArg Terminal.kind hterminal
    have hsame : middle'.current.kind = middle.current.kind := by
      rw [hvs'.following, hvs.following, hnext]
    have hfirst' := hkeeps more hmore cursor' middle' hus' (.inl hsame)
    obtain ⟨a', between, hok', hrest⟩ := bind_eq_ok.1 hok'
    obtain ⟨rfl, rfl⟩ : a = a' ∧ middle' = between := by simpa [hfirst'] using hok'
    exact h.2 more hmore middle' stop' hvs' hterminal value after hrest

theorem PinpointsAt.bind (hparse : PinpointsAt kind parse closes₁ limit room)
    (hkeeps : KeepsAt kind parse closes₁)
    (hnext : ∀ a, Pinpoints (next a) closes₂ limit room sample)
    (hfirst : ∀ kind, closes₂ kind → closes₁ (following (sample.map Token.terminal) kind)) :
    PinpointsAt kind (fun room => parse room >>= fun a => next a room) closes₂ limit room := by
  rintro cursor hnamed rfl fault after herror
  obtain herror | ⟨a, middle, hok, hrest⟩ := bind_eq_error herror
  · obtain ⟨ts, hpinned⟩ := hparse cursor hnamed rfl fault after herror
    exact ⟨ts, hpinned.first (fun a => (hnext a).toHasSample) hfirst⟩
  · obtain ⟨us, hus, _⟩ := hkeeps room cursor rfl a middle hok
    obtain ⟨vs, hpinned⟩ := (hnext a).pinpointsAt _ middle (hnamed.of_reads hus) rfl fault after hrest
    exact hpinned.second hkeeps hok (hnext a).toHasSample hfirst

theorem Pinpoints.bind (hparse : Pinpoints parse closes₁ limit room sample)
    (hkeeps : ∀ kind, KeepsAt kind parse closes₁)
    (hnext : ∀ a, Pinpoints (next a) closes₂ limit room sample')
    (hfirst : ∀ kind, closes₂ kind → closes₁ (following (sample'.map Token.terminal) kind)) :
    Pinpoints (fun room => parse room >>= fun a => next a room) closes₂ limit room (sample ++ sample') :=
  ⟨hparse.toHasSample.bind (fun a => (hnext a).toHasSample) hfirst,
    fun kind => (hparse.pinpointsAt kind).bind (hkeeps kind) hnext hfirst⟩

end Graded

end Parse

end ObsidianSyntax
