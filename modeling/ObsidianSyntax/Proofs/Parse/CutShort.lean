import ObsidianSyntax.Proofs.Depth.Kept
import ObsidianSyntax.Proofs.Parse.Alike

/-!
# Lists of tokens that are cut short

A list of tokens need not hold the end of the input. A parser over such a list sees an end made up
behind the last token, and whatever the parser is used for, how its end came about does not show:
over the same tokens with the end written behind them it answers the same, fault by fault, and
stands at the same token after each use. What is seen from the two cursors is the same, however far
one looks, and parsers do the same from cursors that see the same.
-/

namespace ObsidianSyntax

/-- The end of the input as it is written behind tokens: without text, at the end of the last token
and in its line, or at the start of the input where there is no token. -/
def Token.closing (tokens : List Token) : Token :=
  .endOfInput <|
    match tokens.getLast? with
    | some last => ⟨last.span.stop, last.place.line, last.place.column + last.lexeme.length⟩
    | none => ⟨0, 1, 1⟩

/-- Tokens that are the same, their places included. -/
def Matching.same : Matching where
  Pairs := Eq
  kind_eq := congrArg Token.kind
  lexeme_eq := congrArg Token.lexeme

theorem Fault.Matches.eq {fault fault' : Fault} (hmatches : fault.Matches .same fault') : fault = fault' := by
  obtain ⟨cause, token, operator⟩ := fault
  obtain ⟨hcause, hoperator, htoken⟩ := hmatches
  dsimp only at hcause hoperator
  cases htoken
  rw [hcause, hoperator]

namespace Cursor

variable {tokens : List Token}

theorem endOf_of_live (hlive : ∀ token ∈ tokens, token.isEnd = false) : endOf tokens = .closing tokens := by
  unfold endOf Token.closing
  cases hlast : tokens.getLast? with
  | none => rfl
  | some last => simp [hlive last (List.mem_of_getLast? hlast), Token.endPlace, Token.span]

@[simp] theorem endOf_concat {last : Token} (hend : last.isEnd = true) : endOf (tokens ++ [last]) = last := by
  simp [endOf, hend]

/-- From a list that is cut short the same is seen as with the end written behind it. -/
theorem ofTokens_matches_closing (hlive : ∀ token ∈ tokens, token.isEnd = false) :
    (ofTokens tokens).Matches .same (ofTokens (tokens ++ [.closing tokens])) := by
  intro offset
  show tokens[offset]?.getD (endOf tokens) = (tokens ++ [.closing tokens])[offset]?.getD
    (endOf (tokens ++ [.closing tokens]))
  rw [endOf_of_live hlive, endOf_concat rfl]
  obtain hlt | heq | hgt := Nat.lt_trichotomy offset tokens.length
  · rw [List.getElem?_append_left hlt]
  · subst heq
    simp
  · rw [List.getElem?_eq_none (Nat.le_of_lt hgt), List.getElem?_eq_none (by simp; omega)]

end Cursor

/-! ### Uses of matching parsers -/

theorem Entry.placeless (m : Matching) (limit : Nat) (entry : Entry) :
    Parse.Placeless m (entry.parse limit) := by
  have hinner := Nested.withRoom_placeless m limit limit
  match entry with
  | .nested (.expression precedence) => exact hinner.expr precedence
  | .nested .statement => exact hinner.stmt
  | .program => exact Parse.program_placeless m limit

section

variable {cursor cursor' : Cursor}

/-- A use is answered the same where the same is seen, and the same is seen afterwards, also after a fault. -/
theorem Use.run_matches (use : Use) (hmatches : cursor.Matches .same cursor') :
    (use.run cursor).1 = (use.run cursor').1 ∧ (use.run cursor).2.Matches .same (use.run cursor').2 := by
  have hcurrent : cursor.current = cursor'.current := hmatches.current
  cases use with
  | hasTokens => exact ⟨by simp only [run, Cursor.hasTokens, hcurrent], hmatches⟩
  | current => exact ⟨by simp only [run, hcurrent], hmatches⟩
  | advance => exact ⟨by simp only [run, hcurrent], hmatches.advance⟩
  | peek offset => exact ⟨congrArg Reply.token (hmatches offset), hmatches⟩
  | parse entry =>
    have hmatched := entry.placeless .same maxDepth cursor cursor' hmatches
    simp only [run]
    generalize entry.parse maxDepth cursor = outcome at hmatched ⊢
    generalize entry.parse maxDepth cursor' = outcome' at hmatched ⊢
    cases hmatched with
    | ok hvalue hafter => exact ⟨congrArg Reply.tree hvalue, hafter⟩
    | error hfault hafter => exact ⟨congrArg Reply.fault hfault.eq, hafter⟩

namespace Kept

/-- A parser is used several times and answers each time, and is at a token afterwards. -/
inductive Answers : Kept → List Use → List (Reply × Token) → Prop where
  | nil {kept : Kept} : Answers kept [] []
  | cons {kept next : Kept} {use : Use} {uses : List Use} {reply : Reply} {log : List (Reply × Token)}
      (hdoes : Does kept use reply next) (hrest : Answers next uses log) :
      Answers kept (use :: uses) ((reply, next.cursor.current) :: log)

/-- The answers of a parser that is used several times, each with the token at the cursor afterwards. -/
def answers (cursor : Cursor) : List Use → List (Reply × Token)
  | [] => []
  | use :: uses => ((use.run cursor).1, (use.run cursor).2.current) :: answers (use.run cursor).2 uses

theorem answers_iff {uses : List Use} {log : List (Reply × Token)} :
    Answers ⟨cursor, 0⟩ uses log ↔ log = answers cursor uses := by
  induction uses generalizing cursor log with
  | nil =>
    refine ⟨fun h => ?_, fun h => h ▸ .nil⟩
    cases h
    rfl
  | cons use uses ih =>
    refine ⟨fun h => ?_, fun h => h ▸ .cons (does_iff.2 ⟨rfl, rfl⟩) (ih.2 rfl)⟩
    cases h with
    | cons hdoes hrest =>
      obtain ⟨rfl, rfl⟩ := does_iff.1 hdoes
      rw [answers, ih.1 hrest]

theorem answers_eq_of_matches (uses : List Use) (hmatches : cursor.Matches .same cursor') :
    answers cursor uses = answers cursor' uses := by
  induction uses generalizing cursor cursor' with
  | nil => rfl
  | cons use uses ih =>
    obtain ⟨hreply, hafter⟩ := use.run_matches hmatches
    have hcurrent : (use.run cursor).2.current = (use.run cursor').2.current := hafter.current
    rw [answers, answers, hreply, hcurrent, ih hafter]

/-- Tokens without an end of the input are read as if it were written behind them: however a parser
over them is used, every use ends, with one answer and at one token, and both are those of a parser
over the same tokens and the end. -/
theorem cut_list_answers_as_closed (tokens : List Token)
    (hlive : ∀ token ∈ tokens, token.isEnd = false) (uses : List Use) :
    ∃ log, (∀ log', Answers (.fresh tokens) uses log' ↔ log' = log) ∧
      ∀ log', Answers (.fresh (tokens ++ [.closing tokens])) uses log' ↔ log' = log := by
  refine ⟨answers (.ofTokens tokens) uses, fun _ => answers_iff, fun _ => ?_⟩
  rw [answers_eq_of_matches uses (Cursor.ofTokens_matches_closing hlive)]
  exact answers_iff

/-- A group that is cut off: the statement fails behind it, at the end that is made up there. -/
theorem cut_list_answers_as_closed_openGroup :
    (∀ token ∈ [(⟨.mark .leftParen, "(", ⟨0, 1, 1⟩⟩ : Token), ⟨.identifier, "x", ⟨1, 1, 2⟩⟩],
      token.isEnd = false) ∧
      ∀ log, Answers (.fresh [⟨.mark .leftParen, "(", ⟨0, 1, 1⟩⟩, ⟨.identifier, "x", ⟨1, 1, 2⟩⟩,
        ⟨.endOfInput, "", ⟨2, 1, 3⟩⟩])
          [.parse (.nested .statement), .advance, .peek 3] log ↔
        log = [(.fault ⟨.missing .closeGroup, ⟨.endOfInput, "", ⟨2, 1, 3⟩⟩, none⟩,
          ⟨.endOfInput, "", ⟨2, 1, 3⟩⟩),
          (.token ⟨.endOfInput, "", ⟨2, 1, 3⟩⟩, ⟨.endOfInput, "", ⟨2, 1, 3⟩⟩),
          (.token ⟨.endOfInput, "", ⟨2, 1, 3⟩⟩, ⟨.endOfInput, "", ⟨2, 1, 3⟩⟩)] := by
  have hlive : ∀ token ∈
      [(⟨.mark .leftParen, "(", ⟨0, 1, 1⟩⟩ : Token), ⟨.identifier, "x", ⟨1, 1, 2⟩⟩], token.isEnd = false := by
    decide
  obtain ⟨log, hcut, hclosed⟩ := cut_list_answers_as_closed _ hlive [.parse (.nested .statement),
    .advance, .peek 3]
  have hlog := (hcut _).1 (answers_iff.2 rfl)
  refine ⟨hlive, fun log' => (hclosed log').trans ?_⟩
  rw [← hlog]
  rfl

end Kept

end

end ObsidianSyntax
