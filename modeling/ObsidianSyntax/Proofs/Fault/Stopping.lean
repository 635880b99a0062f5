import ObsidianSyntax.Proofs.Depth.Kept
import ObsidianSyntax.Proofs.Fault.Placed

/-!
# Where a failed parse leaves the cursor

Once a parser has failed, its cursor is either at the token that the fault is about or directly
behind it, and the message says which of both: only faults about something that has been stepped
over leave it behind. So whoever goes on after a fault knows where.

Whatever is nested fails in the same way, as faults are handed out as they are, but for the hint
about an operator. Such a hint comes from the innermost operator whose right side broke off, and
that right side was read directly behind the operator's mark.
-/

namespace ObsidianSyntax

namespace Cursor

/-- The cursor is behind what has been read from another one, and behind the last token of that if
it is known. -/
structure IsBehind (first : Cursor) (last : Option Token) (cursor : Cursor) : Prop where
  exists_read : ∃ read, first.rest = read ++ last.toList ++ cursor.rest
  endToken_eq : cursor.endToken = first.endToken

variable {first cursor : Cursor} {last : Option Token}

theorem isBehind_self (first : Cursor) : first.IsBehind none first := ⟨⟨[], rfl⟩, rfl⟩

theorem IsBehind.forget (hbehind : first.IsBehind last cursor) : first.IsBehind none cursor := by
  obtain ⟨⟨read, hread⟩, hend⟩ := hbehind
  exact ⟨⟨read ++ last.toList, by simpa using hread⟩, hend⟩

theorem IsBehind.advance (hbehind : first.IsBehind last cursor) :
    first.IsBehind (cursor.passed last) cursor.advance := by
  cases hend : cursor.current.isEnd with
  | true => simpa [passed, Cursor.advance, hend] using hbehind
  | false =>
    obtain ⟨⟨read, hread⟩, hsame⟩ := hbehind
    obtain ⟨rest, endToken, hisEnd⟩ := cursor
    cases rest with
    | nil => exact absurd (hend.symm.trans hisEnd) (by simp)
    | cons token rest =>
      have hlive : token.isEnd = false := hend
      refine ⟨⟨read ++ last.toList, ?_⟩, ?_⟩
      · simpa [passed, Cursor.advance, current, peek, hlive] using hread
      · simpa [Cursor.advance, current, peek, hlive] using hsame

theorem IsBehind.isFaithful (hbehind : first.IsBehind last cursor) (hfaithful : first.IsFaithful) :
    cursor.IsFaithful := by
  obtain ⟨⟨read, hread⟩, _⟩ := hbehind
  intro token hmem
  exact hfaithful token (hread ▸ List.mem_append_right _ hmem)

end Cursor

/-- The fault broke off the right side of the operator, which was read behind the operator's mark. -/
structure Fault.BreaksOff (limit : Nat) (first : Cursor) (op : BinaryOp) (fault : Fault) : Prop where
  help_eq : fault.cause.help = none
  exists_error : ∃ mark cursor room found after, first.IsBehind (some mark) cursor ∧
    mark.kind = .mark op.mark ∧
    (Nested.withRoom limit room).expr op.rightPrecedence cursor = .error found after ∧
      found.cause = fault.cause ∧ found.token = fault.token

/-- The fault has a cause that is found, it stands at the cursor or directly behind it, as its cause
says, and its hint is about an operator whose right side it broke off. -/
structure Fault.IsPlaced (limit : Nat) (first after : Cursor) (fault : Fault) : Prop where
  arises : fault.cause.arises = true
  stops : ∃ last, first.IsBehind last after ∧ fault.cause.IsFoundAt last after fault.token
  breaksOff : ∀ op ∈ fault.operator, fault.BreaksOff limit first op

/-- A parser that was started at a cursor has read on from there, and if it has failed its fault is placed. -/
def Leaves {α : Type} (limit : Nat) (first : Cursor) : EStateM.Result Fault Cursor α → Prop
  | .ok _ after => first.IsBehind none after
  | .error fault after => fault.IsPlaced limit first after

section

variable {α β : Type} {limit room : Nat} {first cursor : Cursor} {last : Option Token}

theorem leaves_bind {parse : Parse α} {next : α → Parse β} (hparse : Leaves limit first (parse cursor))
    (hnext : ∀ value middle, first.IsBehind none middle → Leaves limit first (next value middle)) :
    Leaves limit first ((parse >>= next) cursor) := by
  cases hresult : parse cursor with
  | ok value middle =>
    rw [Parse.bind_of_ok hresult]
    rw [hresult] at hparse
    exact hnext value middle hparse
  | error fault after =>
    have herror : (parse >>= next) cursor = .error fault after := by simp only [bind, EStateM.bind, hresult]
    rw [herror]
    rwa [hresult] at hparse

theorem leaves_repeatFor {more : Token → Bool} {step : α → Parse α}
    (hstep : ∀ value cursor, first.IsBehind none cursor → more cursor.current = true →
      Leaves limit first (step value cursor)) (rounds : List Token) :
    ∀ value cursor, first.IsBehind none cursor →
      Leaves limit first (Parse.repeatFor more step rounds value cursor) := by
  induction rounds with
  | nil => exact fun _ _ hbehind => hbehind
  | cons round rounds ih =>
    intro value cursor hbehind
    rw [Parse.repeatFor_cons]
    split
    · next hmore => exact leaves_bind (hstep value cursor hbehind hmore) ih
    · exact hbehind

theorem Fault.token_seenFrom (operator : Option BinaryOp) (fault : Fault) :
    (fault.seenFrom operator).token = fault.token := by
  cases operator with
  | none => rfl
  | some op =>
    show (fault.inRightSide op).token = fault.token
    unfold inRightSide
    split <;> rfl

/-- A fault keeps its hint, or gets the one about the operator as it has none. -/
theorem Fault.inRightSide_cases (fault : Fault) (op : BinaryOp) :
    fault.inRightSide op = fault ∨
      fault.cause.help = none ∧ fault.inRightSide op = { fault with operator := some op } := by
  unfold inRightSide
  split
  · exact .inl rfl
  · next hnone =>
    simp only [Bool.or_eq_true, not_or, Bool.not_eq_true, Option.isSome_eq_false_iff,
      Option.isNone_iff_eq_none] at hnone
    exact .inr ⟨hnone.1, rfl⟩

/-- What is nested leaves its faults placed also where they are seen from the right side of an operator. -/
theorem leaves_readFor {request : Request} {operator : Option BinaryOp}
    (hoperator : ∀ op ∈ operator, request = .expression op.rightPrecedence ∧
      ∃ token ∈ last, token.kind = .mark op.mark) (hbehind : first.IsBehind last cursor)
    (hanswer : Leaves limit first ((Nested.withRoom limit room).answer request cursor)) :
    Leaves limit first (((Nested.withRoom limit room).answer request).readFor operator cursor) := by
  rw [Parse.readFor_eq]
  cases hresult : (Nested.withRoom limit room).answer request cursor with
  | ok tree after =>
    rw [hresult] at hanswer
    exact hanswer
  | error fault after =>
    rw [hresult] at hanswer
    obtain ⟨harises, hstops, hbreaksOff⟩ := hanswer
    refine ⟨by simpa using harises, by simpa [Fault.token_seenFrom] using hstops, ?_⟩
    cases operator with
    | none => exact hbreaksOff
    | some op =>
      obtain hkept | ⟨hnone, hhinted⟩ := fault.inRightSide_cases op
      · rw [show fault.seenFrom (some op) = fault from hkept]
        exact hbreaksOff
      · rw [show fault.seenFrom (some op) = { fault with operator := some op } from hhinted]
        intro other hother
        obtain rfl : op = other := by simpa using hother
        obtain ⟨rfl, mark, rfl, hkind⟩ := hoperator op rfl
        exact ⟨hnone, mark, cursor, room, fault, after, hbehind, hkind, hresult, rfl, rfl⟩

theorem Plan.Places.leaves {plan : Plan α} (hfaithful : first.IsFaithful)
    (hanswers : ∀ request cursor last, first.IsBehind last cursor →
      Leaves limit first ((Nested.withRoom limit room).answer request cursor))
    (hbehind : first.IsBehind last cursor) (hplaces : plan.Places last cursor) :
    Leaves limit first (plan.run (.withRoom limit room) cursor) := by
  induction plan generalizing last cursor with
  | done value => exact hbehind.forget
  | fail cause token hown => exact ⟨hplaces.1, ⟨last, hbehind, hplaces.2⟩, nofun⟩
  | look next ih => exact ih cursor hbehind hplaces
  | step next ih => exact ih hbehind.advance hplaces
  | ask request operator next ih =>
    obtain ⟨hoperator, hnext⟩ := hplaces
    refine leaves_bind (leaves_readFor hoperator hbehind (hanswers request cursor last hbehind))
      fun tree middle hmiddle => ?_
    exact ih tree hmiddle (hnext tree _ middle (hmiddle.isFaithful hfaithful))
  | loop more round value next ihround ih =>
    refine leaves_bind (leaves_repeatFor (fun value cursor hbehind hmore => ?_) _ value cursor hbehind.forget)
      fun value middle hmiddle => ?_
    · exact ihround value hbehind ((hplaces value _ cursor (hbehind.isFaithful hfaithful)).1 hmore)
    · exact ih value hmiddle (hplaces value _ middle (hmiddle.isFaithful hfaithful)).2

/-- Whatever is nested, with however many levels left, leaves its faults placed. -/
theorem Nested.leaves_withRoom (hfaithful : first.IsFaithful) (limit room : Nat) :
    ∀ request cursor last, first.IsBehind last cursor →
      Leaves limit first ((withRoom limit room).answer request cursor) := by
  induction room with
  | zero =>
    intro request cursor last hbehind
    rw [answer_withRoom_zero]
    exact ⟨rfl, ⟨last, hbehind, rfl⟩, nofun⟩
  | succ room ih =>
    intro request cursor last hbehind
    rw [answer_withRoom_succ]
    exact (request.places_plan (hbehind.isFaithful hfaithful)).leaves hfaithful ih hbehind

theorem Entry.leaves (hfaithful : first.IsFaithful) (limit : Nat) (entry : Entry) :
    Leaves limit first (entry.parse limit first) := by
  rw [← entry.run_plan]
  have hplaces : entry.plan.Places none first := by
    cases entry with
    | nested request => exact ⟨nofun, fun _ _ _ _ => trivial⟩
    | program => exact Planned.places_program none first hfaithful
  exact hplaces.leaves hfaithful (Nested.leaves_withRoom hfaithful limit limit) first.isBehind_self

end

/-! ### Messages -/

/-- The messages about a token that has been stepped over. -/
def IsAboutPassed (message : String) : Prop :=
  message = "Invalid assignment target" ∨ message = "Only named functions can be called" ∨
    (∃ rest, message = "Invalid integer literal " ++ rest) ∨
      ∃ rest, message = "Invalid character literal " ++ rest

/-- The texts by which messages ask for what is missing. -/
def IsAskingText (text : String) : Prop :=
  text = "Expected expression" ∨ text = "Expected type name" ∨
    ∃ expectation : Expectation, text = expectation.wording

/-- The first characters of a message, which tell apart what it is about. -/
def opening (message : String) : List Char := message.toList.take 9

theorem opening_append {text : String} {characters : List Char}
    (hopening : opening text = characters) (hlong : characters.length = 9) (more : String) :
    opening (text ++ more) = characters := by
  subst hopening
  have hle : 9 ≤ text.toList.length := by
    rw [opening, List.length_take] at hlong
    omega
  rw [opening, opening, String.toList_append, List.take_append_of_le_length hle]

theorem Expectation.opening_wording (expectation : Expectation) :
    opening expectation.wording = "Expected ".toList := by
  cases expectation with
  | openAfter word | closeBuiltin word | closeCondition word =>
    exact opening_append (opening_append (by decide) rfl word.spelling) rfl _
  | _ => decide

namespace Cause

/-- How the messages with a cause open. -/
def opens : Cause → String
  | .missing _ | .noExpression | .noType => "Expected "
  | .emptyGroup => "Empty par"
  | .notAssignable => "Invalid a"
  | .notCallable => "Only name"
  | .integerTooLarge => "Invalid i"
  | .malformedFloat => "Invalid f"
  | .malformedChar => "Invalid c"
  | .notAnOperator => "Unexpecte"
  | .tooDeep .expression _ => "Expressio"
  | .tooDeep .statement _ => "Statement"

theorem opening_message (cause : Cause) (token : Token) :
    opening (cause.message token) = cause.opens.toList := by
  cases cause with
  | missing expectation => exact opening_append (opening_append expectation.opening_wording rfl _) rfl _
  | noExpression | noType | malformedChar => exact opening_append (by decide) rfl _
  | integerTooLarge | malformedFloat | notAnOperator =>
    exact opening_append (opening_append (by decide) rfl _) rfl _
  | tooDeep construct limit =>
    have htitle : ∀ construct : Construct, opening construct.title = (tooDeep construct 0).opens.toList := by
      intro construct
      cases construct <;> decide
    cases construct <;> exact opening_append (htitle _) rfl _
  | emptyGroup =>
    have hfixed : opening "Empty parentheses are not allowed" = emptyGroup.opens.toList := by decide
    exact hfixed
  | notAssignable =>
    have hfixed : opening "Invalid assignment target" = notAssignable.opens.toList := by decide
    exact hfixed
  | notCallable =>
    have hfixed : opening "Only named functions can be called" = notCallable.opens.toList := by decide
    exact hfixed

/-- Whether a message is about a token that has been stepped over is a matter of its cause. -/
theorem isAboutPassed_message_iff (cause : Cause) (token : Token) :
    IsAboutPassed (cause.message token) ↔ cause.isAboutPassed = true := by
  refine ⟨fun habout => ?_, fun hpassed => ?_⟩
  · have hopens : cause.opens.toList ∈
        ["Invalid a", "Only name", "Invalid i", "Invalid c"].map String.toList := by
      rw [← cause.opening_message token]
      obtain heq | heq | ⟨rest, heq⟩ | ⟨rest, heq⟩ := habout <;> rw [heq]
      · decide
      · decide
      · have hfixed : opening "Invalid integer literal " = "Invalid i".toList := by decide
        rw [opening_append hfixed rfl]
        decide
      · have hfixed : opening "Invalid character literal " = "Invalid c".toList := by decide
        rw [opening_append hfixed rfl]
        decide
    cases cause with
    | notAssignable | notCallable | integerTooLarge | malformedChar => rfl
    | tooDeep construct limit => cases construct <;> simp [opens] at hopens
    | _ => simp [opens] at hopens
  · cases cause with
    | notAssignable => exact .inl rfl
    | notCallable => exact .inr (.inl rfl)
    | integerTooLarge =>
      have hquoted : "Invalid integer literal '" = "Invalid integer literal " ++ "'" := by decide
      have hmessage : integerTooLarge.message token = "Invalid integer literal '" ++ token.lexeme ++
          "'" := rfl
      rw [hquoted, String.append_assoc, String.append_assoc] at hmessage
      exact .inr (.inr (.inl ⟨_, hmessage⟩))
    | malformedChar => exact .inr (.inr (.inr ⟨_, rfl⟩))
    | _ => cases hpassed

/-- A message that asks for something is a fixed text, and then says what was found instead. -/
theorem exists_askingText {cause : Cause} {token : Token} {rest : String}
    (hasks : cause.message token = "Expected " ++ rest) :
    ∃ text, IsAskingText text ∧ cause.message token = text ++ ", found " ++ token.describe := by
  have hopens := cause.opening_message token
  have hfixed : opening "Expected " = "Expected ".toList := by decide
  rw [hasks, opening_append hfixed rfl] at hopens
  cases cause with
  | missing expectation => exact ⟨expectation.wording, .inr (.inr ⟨expectation, rfl⟩), rfl⟩
  | noExpression =>
    have hsplit : "Expected expression, found " = "Expected expression" ++ ", found " := by decide
    exact ⟨"Expected expression", .inl rfl, congrArg (· ++ token.describe) hsplit⟩
  | noType =>
    have hsplit : "Expected type name, found " = "Expected type name" ++ ", found " := by decide
    exact ⟨"Expected type name", .inr (.inl rfl), congrArg (· ++ token.describe) hsplit⟩
  | tooDeep construct limit => cases construct <;> simp [opens] at hopens
  | _ => simp [opens] at hopens

end Cause

/-! ### Parsers that are kept -/

namespace Kept

/-- Whatever part of a source's tokens a parser is given and however it has been used, a parse that
fails reports a syntax error at a token. The cursor is left at that token; if the message is about a
token that has been stepped over, it is left directly behind. A message that asks for something says
what was found at that token instead. -/
theorem failure_stands_at_cursor {source : String} {tokens : List Token} {uses : List Use}
    {kept next : Kept} {entry : Entry} {fault : Fault} (htokens : tokens <:+: (scan source).1)
    (huses : DoesAll (.fresh tokens) uses kept)
    (hfails : Does kept (.parse entry) (.fault fault) next) :
    fault.report.kind = .syntactic ∧ ∃ token : Token,
      (fault.report.span = token.span ∧ fault.report.line = token.place.line ∧
        fault.report.column = token.place.column) ∧
      (¬ IsAboutPassed fault.report.message → token = next.cursor.current) ∧
      (IsAboutPassed fault.report.message → ∃ read, kept.cursor.rest = read ++ token :: next.cursor.rest) ∧
      ∀ wanted found, fault.report.message = "Expected " ++ wanted ++ ", found " ++ found →
        ∃ text, IsAskingText text ∧ fault.report.message = text ++ ", found " ++ token.describe := by
  obtain rfl := doesAll_iff.1 huses
  obtain ⟨hreply, rfl⟩ := does_iff.1 hfails
  generalize hcursor : cursorAfter (.ofTokens tokens) uses = cursor at *
  have hfaithful : cursor.IsFaithful := by
    obtain ⟨position, hstands⟩ := exists_standsAt_cursorAfter uses (Cursor.standsAt_ofTokens tokens)
    intro token hmem
    rw [← hcursor, hstands.rest_eq] at hmem
    exact isFaithful_of_mem_scan token (htokens.subset (List.mem_of_mem_drop hmem))
  have hleaves := entry.leaves hfaithful maxDepth
  cases hresult : entry.parse maxDepth cursor with
  | ok tree after =>
    rw [Use.run, hresult] at hreply
    cases hreply
  | error found after =>
    rw [Use.run, hresult] at hreply
    cases hreply
    rw [hresult] at hleaves
    obtain ⟨last, ⟨⟨read, hread⟩, _⟩, hfound⟩ := hleaves.stops
    have hcursor : ((Use.parse entry).run cursor).2 = after := by rw [Use.run, hresult]; rfl
    have hmessage : fault.report.message = fault.cause.message fault.token := rfl
    rw [hcursor, hmessage, Cause.isAboutPassed_message_iff]
    unfold Cause.IsFoundAt at hfound
    refine ⟨rfl, fault.token, ⟨rfl, rfl, rfl⟩, fun hhere => ?_, fun hpassed =>
      ?_, fun wanted what hasks => ?_⟩
    · exact ((if_neg hhere).mp hfound).symm
    · obtain rfl := (if_pos hpassed).mp hfound
      exact ⟨read, by simpa using hread⟩
    · rw [String.append_assoc, String.append_assoc] at hasks
      exact Cause.exists_askingText hasks

/-- A part of a source without its end, and a parser that has been moved on to where a number is
assigned to. -/
theorem failure_stands_at_cursor_valueTarget :
    ∃ (kept next : Kept) (fault : Fault), (scan "x 1 = 2;").1.take 4 <:+: (scan "x 1 = 2;").1 ∧
      DoesAll (.fresh ((scan "x 1 = 2;").1.take 4)) [.advance] kept ∧
      Does kept (.parse (.nested (.expression .lowest))) (.fault fault) next ∧
      fault.report.message = "Invalid assignment target" ∧ ∃ token : Token, fault.report.column =
        token.place.column ∧
        ∃ read, kept.cursor.rest = read ++ token :: next.cursor.rest := by
  have htokens : (scan "x 1 = 2;").1.take 4 = [⟨.identifier, "x", ⟨0, 1, 1⟩⟩, ⟨.intLiteral, "1", ⟨2, 1, 3⟩⟩,
      ⟨.mark .equal, "=", ⟨4, 1, 5⟩⟩, ⟨.intLiteral, "2", ⟨6, 1, 7⟩⟩] := by decide +kernel
  have hinfix : (scan "x 1 = 2;").1.take 4 <:+: (scan "x 1 = 2;").1 := (List.take_prefix 4 _).isInfix
  have huses : DoesAll (.fresh ((scan "x 1 = 2;").1.take 4)) [.advance] _ := doesAll_iff.2 rfl
  have hreply : Reply.fault ⟨.notAssignable, ⟨.mark .equal, "=", ⟨4, 1, 5⟩⟩, none⟩ =
      .of ((Entry.nested (.expression .lowest)).parse maxDepth
        (cursorAfter (.ofTokens ((scan "x 1 = 2;").1.take 4)) [.advance])) := by
    rw [htokens]
    rfl
  have hfails : Does _ (.parse (.nested (.expression .lowest))) _ _ := does_iff.2 ⟨hreply, rfl⟩
  obtain ⟨_, token, ⟨_, _, hcolumn⟩, _, hpassed, _⟩ := failure_stands_at_cursor hinfix huses hfails
  exact ⟨_, _, _, hinfix, huses, hfails, rfl, token, hcolumn, hpassed (.inl rfl)⟩

end Kept

end ObsidianSyntax
