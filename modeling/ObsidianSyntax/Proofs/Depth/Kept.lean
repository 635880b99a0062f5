import ObsidianSyntax.Proofs.Depth.Machine

/-!
# Parsers that are kept

A parser can be kept and used again and again: asked what stands at the cursor or further on, moved
on by a token, or made to parse something, and it goes on from where it stopped, whether that was
behind a tree or at a fault. What it keeps between uses is its cursor and the counter of what is
nested.

Every use ends, and with the counter at zero. In between the counter stays within the limit. The
cursor never goes back, passes no end of the input and not the end of the list, and moves on over
whatever is accepted. As long as there are tokens left, nothing of the past can be told from the
answers: a fresh parser over the tokens left gives the same.
-/

namespace ObsidianSyntax

namespace Cursor

/-- The cursor is at a position in the tokens, with no end of the input before it. -/
structure StandsAt (tokens : List Token) (position : Nat) (cursor : Cursor) : Prop where
  rest_eq : cursor.rest = tokens.drop position
  endToken_eq : cursor.endToken = endOf tokens
  position_le : position ≤ tokens.length
  live : ∀ token ∈ tokens.take position, token.isEnd = false

variable {tokens : List Token} {position position' : Nat} {cursor after : Cursor}

theorem standsAt_ofTokens (tokens : List Token) : (ofTokens tokens).StandsAt tokens 0 :=
  ⟨rfl, rfl, Nat.zero_le _, nofun⟩

theorem StandsAt.length_rest (hstands : cursor.StandsAt tokens position) :
    cursor.rest.length + position = tokens.length := by
  have hle := hstands.position_le
  rw [hstands.rest_eq, List.length_drop]
  omega

theorem StandsAt.unique (hstands : cursor.StandsAt tokens position)
    (hstands' : cursor.StandsAt tokens position') :
    position = position' := by
  have hlength := hstands.length_rest
  have hlength' := hstands'.length_rest
  omega

/-- Where fewer tokens are left the position is further on. -/
theorem StandsAt.lt_of_length_lt (hstands : cursor.StandsAt tokens position)
    (hstands' : after.StandsAt tokens position') (hless : after.rest.length < cursor.rest.length) :
    position < position' := by
  have hlength := hstands.length_rest
  have hlength' := hstands'.length_rest
  omega

theorem StandsAt.advance (hstands : cursor.StandsAt tokens position) :
    ∃ position', position ≤ position' ∧ cursor.advance.StandsAt tokens position' := by
  cases hend : cursor.current.isEnd with
  | true =>
    have hsame : cursor.advance = cursor := if_pos hend
    exact ⟨position, Nat.le_refl _, by rwa [hsame]⟩
  | false =>
    have hadvance : cursor.advance = { cursor with rest := cursor.rest.drop 1 } := if_neg (by simp [hend])
    cases hrest : cursor.rest with
    | nil =>
      have hend' := isEnd_current_of_rest_eq_nil hrest
      rw [hend] at hend'
      cases hend'
    | cons token rest =>
      have hcurrent : cursor.current = token := by simp [current, peek, hrest]
      have hdrop : tokens.drop position = token :: rest := hstands.rest_eq.symm.trans hrest
      have hlength := hstands.length_rest
      rw [hrest, List.length_cons] at hlength
      have hget : tokens[position]? = some token := by
        rw [← List.head?_drop, hdrop]
        rfl
      refine ⟨position + 1, Nat.le_succ _, ⟨?_, ?_, by omega, fun other hmem => ?_⟩⟩
      · rw [hadvance, ← List.drop_drop, hstands.rest_eq]
      · rw [hadvance, hstands.endToken_eq]
      · rw [List.take_add_one, hget, List.mem_append] at hmem
        obtain hbefore | hlast := hmem
        · exact hstands.live other hbefore
        · obtain rfl : other = token := by simpa using hlast
          rw [← hcurrent]
          exact hend

/-- As long as there are tokens left, the cursor is one over these tokens. -/
theorem StandsAt.eq_ofTokens (hstands : cursor.StandsAt tokens position) (hlt : position < tokens.length) :
    cursor = ofTokens (tokens.drop position) := by
  have hend : endOf tokens = endOf (tokens.drop position) := by
    rw [endOf, endOf, List.getLast?_drop, if_neg (by omega)]
  obtain ⟨rest, endToken, hisEnd⟩ := cursor
  obtain ⟨rfl, rfl, _, _⟩ := hstands
  simp only [ofTokens, hend]

end Cursor

namespace Configuration

variable {limit : Option Nat} {state next : Configuration} {tokens : List Token} {position position' : Nat}

theorem standsAt_of_step (hstep : state.step limit = some next)
    (hstands : state.cursor.StandsAt tokens position) :
    ∃ position', position ≤ position' ∧ next.cursor.StandsAt tokens position' := by
  obtain ⟨_, _, hsame | hadvance⟩ | ⟨_, _, _, _, hsame⟩ | ⟨_, _, hsame⟩ := step_cases hstep
  · exact ⟨position, Nat.le_refl _, by rwa [hsame]⟩
  · rw [hadvance]
    exact hstands.advance
  · exact ⟨position, Nat.le_refl _, by rwa [hsame]⟩
  · exact ⟨position, Nat.le_refl _, by rwa [hsame]⟩

/-- The cursor never goes back. -/
theorem standsAt_of_reaches (hreaches : Reaches limit state next)
    (hstands : state.cursor.StandsAt tokens position) :
    ∃ position', position ≤ position' ∧ next.cursor.StandsAt tokens position' := by
  induction hreaches with
  | refl => exact ⟨position, Nat.le_refl _, hstands⟩
  | tail _ hstep ih =>
    obtain ⟨between, hle, hbetween⟩ := ih
    obtain ⟨position', hle', hnext⟩ := standsAt_of_step hstep hbetween
    exact ⟨position', Nat.le_trans hle hle', hnext⟩

theorem le_of_reaches (hreaches : Reaches limit state next) (hstands : state.cursor.StandsAt tokens position)
    (hstands' : next.cursor.StandsAt tokens position') : position ≤ position' := by
  obtain ⟨between, hle, hbetween⟩ := standsAt_of_reaches hreaches hstands
  rwa [← hbetween.unique hstands']

end Configuration

/-! ### Uses of a parser -/

/-- What can be done with a parser that is kept. -/
inductive Use where
  | hasTokens
  | current
  | advance
  | peek (offset : Nat)
  | parse (entry : Entry)

inductive Reply where
  | flag (value : Bool)
  | token (token : Token)
  | tree (tree : Tree)
  | fault (fault : Fault)

/-- The answer to a parser's outcome. -/
def Reply.of : EStateM.Result Fault Cursor Tree → Reply
  | .ok value _ => .tree value
  | .error found _ => .fault found

/-- The cursor that an outcome leaves. -/
def cursorOf {α : Type} : EStateM.Result Fault Cursor α → Cursor
  | .ok _ cursor | .error _ cursor => cursor

theorem cursor_ended (outcome : EStateM.Result Fault Cursor Tree) :
    (Configuration.ended outcome).cursor = cursorOf outcome := by
  cases outcome <;> rfl

/-- What the parsers answer, and the cursor to go on from. -/
def Use.run (cursor : Cursor) : Use → Reply × Cursor
  | .hasTokens => (.flag cursor.hasTokens, cursor)
  | .current => (.token cursor.current, cursor)
  | .advance => (.token cursor.current, cursor.advance)
  | .peek offset => (.token (cursor.peek offset), cursor)
  | .parse entry => (.of (entry.parse maxDepth cursor), cursorOf (entry.parse maxDepth cursor))

/-- What a parser keeps. -/
structure Kept where
  cursor : Cursor
  depth : Nat

namespace Kept

def fresh (tokens : List Token) : Kept := ⟨.ofTokens tokens, 0⟩

/-- A parser is used, step by step, and what it keeps afterwards. -/
inductive Does (kept : Kept) : Use → Reply → Kept → Prop where
  | hasTokens : Does kept .hasTokens (.flag kept.cursor.hasTokens) kept
  | current : Does kept .current (.token kept.cursor.current) kept
  | advance : Does kept .advance (.token kept.cursor.current) ⟨kept.cursor.advance, kept.depth⟩
  | peek (offset : Nat) : Does kept (.peek offset) (.token (kept.cursor.peek offset)) kept
  | parse (entry : Entry) {depth : Nat} {outcome : EStateM.Result Fault Cursor Tree}
      (hreaches : Configuration.Reaches (some maxDepth) ⟨kept.cursor, kept.depth, [], .going entry.plan⟩
        (.behind depth [] .done outcome)) : Does kept (.parse entry) (.of outcome) ⟨cursorOf outcome, depth⟩

/-- A parser is used several times, whatever it answers. -/
inductive DoesAll : Kept → List Use → Kept → Prop where
  | nil {kept : Kept} : DoesAll kept [] kept
  | cons {kept next last : Kept} {use : Use} {uses : List Use} {reply : Reply}
      (hdoes : Does kept use reply next)
      (hrest : DoesAll next uses last) : DoesAll kept (use :: uses) last

/-- A use with the counter at zero ends in one way, with the counter at zero. -/
theorem does_iff {cursor : Cursor} {use : Use} {reply : Reply} {next : Kept} :
    Does ⟨cursor, 0⟩ use reply next ↔ reply = (use.run cursor).1 ∧ next = ⟨(use.run cursor).2, 0⟩ := by
  refine ⟨fun hdoes => ?_, fun h => ?_⟩
  · cases hdoes with
    | parse entry hreaches =>
      obtain ⟨rfl, rfl⟩ := (entry.reaches_ended maxDepth cursor).outcome_unique hreaches
      exact ⟨rfl, rfl⟩
    | _ => exact ⟨rfl, rfl⟩
  · obtain ⟨rfl, rfl⟩ := h
    cases use with
    | hasTokens => exact .hasTokens
    | current => exact .current
    | advance => exact .advance
    | peek offset => exact .peek offset
    | parse entry => exact .parse entry (entry.reaches_ended maxDepth cursor)

/-- The cursor after several uses. -/
def cursorAfter (cursor : Cursor) (uses : List Use) : Cursor :=
  uses.foldl (fun cursor use => (use.run cursor).2) cursor

theorem doesAll_iff {uses : List Use} {cursor : Cursor} {last : Kept} :
    DoesAll ⟨cursor, 0⟩ uses last ↔ last = ⟨cursorAfter cursor uses, 0⟩ := by
  induction uses generalizing cursor with
  | nil =>
    refine ⟨fun h => ?_, fun h => ?_⟩
    · cases h
      rfl
    · subst h
      exact .nil
  | cons use uses ih =>
    refine ⟨fun h => ?_, fun h => ?_⟩
    · cases h with
      | cons hdoes hrest =>
        obtain ⟨_, rfl⟩ := does_iff.1 hdoes
        exact ih.1 hrest
    · exact .cons (does_iff.2 ⟨rfl, rfl⟩) (ih.2 h)

end Kept

/-! ### Every use is sound -/

/-- What holds of a use of a parser that stands at a position in the tokens, and at another one afterwards. -/
structure Use.IsSound (tokens : List Token) (cursor : Cursor) (position position' : Nat)
    (use : Use) : Prop where
  /-- The use ends, in one way, and with the counter at zero. -/
  ends : ∀ reply kept, Kept.Does ⟨cursor, 0⟩ use reply kept ↔
    reply = (use.run cursor).1 ∧ kept = ⟨(use.run cursor).2, 0⟩
  standsAt : (use.run cursor).2.StandsAt tokens position'
  le : position ≤ position'
  /-- On the way the counter counts what is nested, within the limit, and the cursor goes from
  position to position. -/
  keeps : ∀ entry, use = .parse entry → ∀ state, Configuration.Reaches (some maxDepth)
    (.start entry.plan cursor) state → state.depth = state.frames.length ∧ state.depth ≤ maxDepth ∧
      ∃ between, state.cursor.StandsAt tokens between ∧ position ≤ between ∧ between ≤ position'
  /-- An expression or statement is at least one token. -/
  moves : ∀ request tree, use = .parse (.nested request) → (use.run cursor).1 = .tree tree →
    position < position'
  /-- A program goes on to the end of the input. -/
  exhausts : ∀ tree, use = .parse .program → (use.run cursor).1 = .tree tree →
    (use.run cursor).2.hasTokens = false
  /-- With tokens left, a fresh parser over them does the same. -/
  forgets : position < tokens.length → ∀ reply kept,
    Kept.Does (.fresh (tokens.drop position)) use reply kept ↔ Kept.Does ⟨cursor, 0⟩ use reply kept

variable {tokens : List Token} {position : Nat} {cursor after : Cursor} {tree : Tree}

theorem Entry.exists_standsAt (entry : Entry) (hstands : cursor.StandsAt tokens position) :
    ∃ position', position ≤ position' ∧
      (cursorOf (entry.parse maxDepth cursor)).StandsAt tokens position' := by
  rw [← cursor_ended]
  exact Configuration.standsAt_of_reaches (entry.reaches_ended maxDepth cursor) hstands

/-- The position after a use. -/
theorem Use.exists_standsAt (use : Use) (hstands : cursor.StandsAt tokens position) :
    ∃ position', position ≤ position' ∧ (use.run cursor).2.StandsAt tokens position' := by
  cases use with
  | advance => exact hstands.advance
  | parse entry => exact entry.exists_standsAt hstands
  | _ => exact ⟨position, Nat.le_refl _, hstands⟩

theorem Kept.exists_standsAt_cursorAfter (uses : List Use) (hstands : cursor.StandsAt tokens position) :
    ∃ position', (cursorAfter cursor uses).StandsAt tokens position' := by
  induction uses generalizing cursor position with
  | nil => exact ⟨position, hstands⟩
  | cons use uses ih =>
    obtain ⟨between, _, hbetween⟩ := use.exists_standsAt hstands
    exact ih hbetween

/-- A program that is accepted reaches to the end of the input. -/
theorem hasTokens_of_program (hok : Parse.program maxDepth cursor = .ok tree after) :
    after.hasTokens = false := by
  have haccepts := Parse.programWith_accepts (Nested.withRoom_follows maxDepth maxDepth)
  obtain ⟨_, _, _, ⟨_, hend⟩, _⟩ := (haccepts _ cursor rfl tree after).1 hok
  simp [Cursor.hasTokens, Token.isEnd, hend]

/-- What is accepted as something that may nest is at least one token. -/
theorem length_lt_of_nested {request : Request}
    (hok : (Entry.nested request).parse maxDepth cursor = .ok tree after) :
    after.rest.length < cursor.rest.length :=
  Nested.withRoom_consumes maxDepth maxDepth request cursor tree after hok

theorem Reply.of_eq_tree {outcome : EStateM.Result Fault Cursor Tree} (heq : Reply.of outcome = .tree tree) :
    outcome = .ok tree (cursorOf outcome) := by
  cases outcome with
  | ok value after =>
    cases heq
    rfl
  | error found after => cases heq

theorem Use.exists_isSound (use : Use) (hstands : cursor.StandsAt tokens position) :
    ∃ position', use.IsSound tokens cursor position position' := by
  obtain ⟨position', hle, hstands'⟩ := use.exists_standsAt hstands
  refine ⟨position', ⟨fun _ _ => Kept.does_iff, hstands', hle, ?_, ?_, ?_, ?_⟩⟩
  · rintro entry rfl state hreaches
    have hbalanced := (Configuration.isBalanced_start (some maxDepth) entry.plan cursor).reaches hreaches
    have hended := (entry.reaches_ended maxDepth cursor).to_ended hreaches
    obtain ⟨between, hbefore, hbetween⟩ := Configuration.standsAt_of_reaches hreaches hstands
    refine ⟨hbalanced.depth_eq, hbalanced.depth_le _ rfl, between, hbetween, hbefore, ?_⟩
    exact Configuration.le_of_reaches hended hbetween (by rwa [cursor_ended])
  · rintro request tree rfl hreply
    have hless := length_lt_of_nested (Reply.of_eq_tree hreply)
    exact hstands.lt_of_length_lt hstands' hless
  · rintro tree rfl hreply
    exact hasTokens_of_program (Reply.of_eq_tree hreply)
  · intro hlt reply kept
    rw [hstands.eq_ofTokens hlt]
    rfl

/-- However a parser is used, each further use ends with the counter at zero and leaves the cursor
no further back, at a position that no end of the input stands before; the counter keeps to the
limit on the way; what is accepted is read, a whole program to the end; and while tokens are left
the use is answered as a fresh parser over them answers it. -/
theorem kept_parser_isSound (tokens : List Token) (uses : List Use) :
    ∃ cursor position, (∀ kept, Kept.DoesAll (.fresh tokens) uses kept ↔ kept = ⟨cursor, 0⟩) ∧
      cursor.StandsAt tokens position ∧
      ∀ use : Use, ∃ position', use.IsSound tokens cursor position position' := by
  obtain ⟨position, hstands⟩ := Kept.exists_standsAt_cursorAfter uses (Cursor.standsAt_ofTokens tokens)
  exact ⟨_, position, fun _ => Kept.doesAll_iff, hstands, fun use => use.exists_isSound hstands⟩

end ObsidianSyntax
