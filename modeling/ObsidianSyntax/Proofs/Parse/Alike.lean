import Mathlib.Data.List.Forall2
import ObsidianSyntax.Proofs.Depth.Planned
import ObsidianSyntax.Proofs.Fault.Statements

/-!
# Parsing does not look at places

Two lists of tokens that differ in nothing but their places are parsed alike: to the same tree, or
up to a fault with the same cause, at tokens that stand for each other. This is said of two runs
side by side. Cursors match when what is seen from them does, however far one looks; whether the end
of the input is in the list or only stands behind it cannot be seen. Faults and outcomes of the runs
match when their tokens and cursors do, and two parsers are alike when they lead from matching
cursors to matching outcomes. There is a law for each way in which parsers are put together, and no
production of the grammar needs anything else.
-/

namespace ObsidianSyntax

/-- Which tokens of one run stand for which of another. They differ in nothing but their places. -/
structure Matching where
  Pairs : Token → Token → Prop
  kind_eq : ∀ {token token' : Token}, Pairs token token' → token.kind = token'.kind
  lexeme_eq : ∀ {token token' : Token}, Pairs token token' → token.lexeme = token'.lexeme

namespace Matching

variable {m : Matching} {token token' : Token}

theorem isEnd_eq (hpair : m.Pairs token token') : token.isEnd = token'.isEnd := by
  rw [Token.isEnd, Token.isEnd, m.kind_eq hpair]

theorem describe_eq (hpair : m.Pairs token token') : token.describe = token'.describe := by
  rw [Token.describe, Token.describe, m.kind_eq hpair, m.lexeme_eq hpair]

theorem message_eq (hpair : m.Pairs token token') (cause : Cause) :
    cause.message token = cause.message token' := by
  unfold Cause.message
  rw [describe_eq hpair, m.lexeme_eq hpair]

theorem literal_eq (hpair : m.Pairs token token') : token.literal = token'.literal := by
  rw [Token.literal, Token.literal, m.kind_eq hpair, m.lexeme_eq hpair]

end Matching

/-- However far one looks, the tokens that are seen from the cursors stand for each other. -/
def Cursor.Matches (m : Matching) (cursor cursor' : Cursor) : Prop :=
  ∀ offset, m.Pairs (cursor.peek offset) (cursor'.peek offset)

/-- The faults have the same cause and hint, at tokens that stand for each other. -/
structure Fault.Matches (m : Matching) (fault fault' : Fault) : Prop where
  cause_eq : fault.cause = fault'.cause
  operator_eq : fault.operator = fault'.operator
  token : m.Pairs fault.token fault'.token

theorem Cursor.peek_advance (cursor : Cursor) (offset : Nat) :
    cursor.advance.peek offset = if cursor.current.isEnd then cursor.peek offset
      else cursor.peek (offset + 1) := by
  unfold Cursor.advance
  split
  · rfl
  · simp only [peek, List.getElem?_drop, Nat.add_comm]

namespace Cursor.Matches

variable {m : Matching} {cursor cursor' : Cursor}

/-- Cursors match where the tokens still to be read stand for each other one by one, and so do the
ends of the input. -/
theorem of_forall₂ (hrest : List.Forall₂ m.Pairs cursor.rest cursor'.rest)
    (hend : m.Pairs cursor.endToken cursor'.endToken) :
    cursor.Matches m cursor' := by
  intro offset
  unfold Cursor.peek
  cases hget : cursor.rest[offset]? with
  | none =>
    have hget' : cursor'.rest[offset]? = none := by
      rw [List.getElem?_eq_none_iff] at hget ⊢
      rwa [← hrest.length_eq]
    rw [hget']
    exact hend
  | some token =>
    obtain ⟨hlt, rfl⟩ := List.getElem?_eq_some_iff.1 hget
    have hlt' : offset < cursor'.rest.length := hrest.length_eq ▸ hlt
    rw [List.getElem?_eq_getElem hlt']
    exact hrest.get hlt hlt'

theorem current (hmatches : cursor.Matches m cursor') : m.Pairs cursor.current cursor'.current := hmatches 0

theorem advance (hmatches : cursor.Matches m cursor') : cursor.advance.Matches m cursor'.advance := by
  intro offset
  rw [Cursor.peek_advance, Cursor.peek_advance, ← Matching.isEnd_eq hmatches.current]
  split
  · exact hmatches offset
  · exact hmatches (offset + 1)

end Cursor.Matches

/-- Where both lists end with the end of the input, matching lists are read from matching cursors. -/
theorem Matching.ofTokens_matches {m : Matching} {tokens tokens' before before' : List Token}
    {place place' : Position} (htokens : tokens = before ++ [.endOfInput place])
    (htokens' : tokens' = before' ++ [.endOfInput place'])
    (hpairs : List.Forall₂ m.Pairs tokens tokens') :
    (Cursor.ofTokens tokens).Matches m (.ofTokens tokens') := by
  refine .of_forall₂ hpairs ?_
  have hlast : m.Pairs (.endOfInput place) (.endOfInput place') := by
    have hreverse := List.forall₂_reverse_iff.2 hpairs
    simp only [htokens, htokens', List.reverse_append, List.reverse_singleton,
      List.singleton_append, List.forall₂_cons] at hreverse
    exact hreverse.1
  simpa [htokens, htokens', Cursor.ofTokens, Cursor.endOf] using hlast

namespace Parse

/-- Two outcomes match: both are values, which are related, with matching cursors behind them, or
both are faults, which match, with matching cursors left. -/
inductive Matched {α β : Type} (m : Matching) (related : α → β → Prop) :
    EStateM.Result Fault Cursor α → EStateM.Result Fault Cursor β → Prop where
  | ok {a : α} {b : β} {after after' : Cursor} (hvalue : related a b) (hafter : after.Matches m after') :
      Matched m related (.ok a after) (.ok b after')
  | error {fault fault' : Fault} {after after' : Cursor} (hfault : fault.Matches m fault')
      (hafter : after.Matches m after') :
      Matched m related (.error fault after) (.error fault' after')

/-- From matching cursors the parsers get to matching outcomes. -/
def Alike {α β : Type} (m : Matching) (related : α → β → Prop) (parse : Parse α) (parse' : Parse β) : Prop :=
  ∀ cursor cursor', cursor.Matches m cursor' → Matched m related (parse cursor) (parse' cursor')

/-- The parser does the same wherever the tokens stand. -/
abbrev Placeless {α : Type} (m : Matching) (parse : Parse α) : Prop := Alike m Eq parse parse

namespace Alike

variable {α β γ δ : Type} {m : Matching} {related : α → β → Prop} {related' : γ → δ → Prop}
    {parse : Parse α} {parse' : Parse β}

/-! ### Laws -/

theorem pure {a : α} {b : β} (hvalue : related a b) : Alike m related (pure a) (pure b) :=
  fun _ _ hcursor => .ok hvalue hcursor

theorem bind {next : α → Parse γ} {next' : β → Parse δ} (hparse : Alike m related parse parse')
    (hnext : ∀ a b, related a b → Alike m related' (next a) (next' b)) :
    Alike m related' (parse >>= next) (parse' >>= next') := by
  intro cursor cursor' hcursor
  have hmatched := hparse cursor cursor' hcursor
  simp only [Bind.bind, EStateM.bind]
  generalize parse cursor = outcome at hmatched
  generalize parse' cursor' = outcome' at hmatched
  cases hmatched with
  | ok hvalue hafter => exact hnext _ _ hvalue _ _ hafter
  | error hfault hafter => exact .error hfault hafter

/-- What comes behind a parser that reads the same value on both sides. -/
theorem andThen {parse : Parse α} {next : α → Parse γ} {next' : α → Parse δ}
    (hparse : Placeless m parse) (hnext : ∀ a, Alike m related' (next a) (next' a)) :
    Alike m related' (parse >>= next) (parse >>= next') :=
  hparse.bind fun a _ heq => heq ▸ hnext a

/-- A value made of what is read. -/
theorem map {parse : Parse α} (f : α → γ) (hparse : Placeless m parse) :
    Placeless m (parse >>= fun a => Pure.pure (f a)) :=
  hparse.andThen fun _ => pure rfl

theorem fail {token token' : Token} (cause : Cause) (hpair : m.Pairs token token') :
    Alike m related (fail cause token) (fail cause token') :=
  fun _ _ hcursor => .error ⟨rfl, rfl, hpair⟩ hcursor

theorem get : Alike m (Cursor.Matches m) get get := fun _ _ hcursor => .ok hcursor hcursor

theorem current : Alike m m.Pairs current current := fun _ _ hcursor => .ok hcursor.current hcursor

theorem advance : Alike m m.Pairs advance advance := fun _ _ hcursor => .ok hcursor.current hcursor.advance

/-- Stepping over a token that is not looked at. -/
theorem skip {next : Parse γ} {next' : Parse δ} (hnext : Alike m related' next next') :
    Alike m related' (do let _ ← Parse.advance; next) (do let _ ← Parse.advance; next') :=
  advance.bind fun _ _ _ => hnext

theorem failHere (cause : Cause) : Alike m related (failHere cause) (failHere cause) :=
  current.bind fun _ _ hpair => fail cause hpair

theorem ite {p p' : Prop} [Decidable p] [Decidable p'] {other : Parse α} {other' : Parse β} (hiff : p ↔ p')
    (hparse : Alike m related parse parse') (hother : Alike m related other other') :
    Alike m related (if p then parse else other) (if p' then parse' else other') := by
  by_cases hp : p
  · rw [if_pos hp, if_pos (hiff.1 hp)]
    exact hparse
  · rw [if_neg hp, if_neg (hiff.not.1 hp)]
    exact hother

theorem isAt (kind : Kind) : Placeless m (isAt kind) :=
  current.bind fun _ _ hpair => pure (by rw [m.kind_eq hpair])

theorem refuse (kind : Kind) (cause : Cause) : Placeless m (refuse kind cause) :=
  (isAt kind).andThen fun _ => ite .rfl (failHere cause) (pure rfl)

theorem ifNext {parse : Parse α} (kind : Kind) (hparse : Placeless m parse) :
    Placeless m (ifNext kind parse) :=
  (isAt kind).andThen fun _ => ite .rfl (skip (hparse.map some)) (pure rfl)

theorem unlessAt {parse : Parse α} (kind : Kind) (hparse : Placeless m parse) :
    Placeless m (unlessAt kind parse) :=
  (isAt kind).andThen fun _ => ite .rfl (pure rfl) (hparse.map some)

theorem take (expectation : Expectation) : Alike m m.Pairs (take expectation) (take expectation) :=
  current.bind fun _ _ hpair => ite (by rw [m.kind_eq hpair]) advance (failHere _)

theorem expect (expectation : Expectation) : Placeless m (expect expectation) :=
  (take expectation).bind fun _ _ _ => pure rfl

/-- A value that is given once an expected token is stepped over. -/
theorem close (expectation : Expectation) (value : γ) :
    Placeless m (do Parse.expect expectation; Pure.pure value) :=
  (expect expectation).map fun _ => value

theorem expectName (expectation : Expectation) : Placeless m (expectName expectation) :=
  (take expectation).bind fun _ _ hpair => pure (m.lexeme_eq hpair)

theorem rightSideOf {parse : Parse α} (op : BinaryOp) (hparse : Placeless m parse) :
    Placeless m (rightSideOf op parse) := by
  intro cursor cursor' hcursor
  have hmatched := hparse cursor cursor' hcursor
  simp only [Parse.rightSideOf]
  generalize parse cursor = outcome at hmatched
  generalize parse cursor' = outcome' at hmatched
  cases hmatched with
  | ok hvalue hafter => exact .ok hvalue hafter
  | error hfault hafter =>
    obtain ⟨hcause, hoperator, htoken⟩ := hfault
    refine .error ?_ hafter
    unfold Fault.inRightSide
    rw [← hcause, ← hoperator]
    split
    · exact ⟨hcause, hoperator, htoken⟩
    · exact ⟨rfl, rfl, htoken⟩

/-! ### Repetition -/

/-- Whether the repetition goes on is decided by the token at the cursor, its place apart. -/
def DecidesAlike (m : Matching) (more : Token → Bool) : Prop :=
  ∀ token token', m.Pairs token token' → more token = more token'

theorem DecidesAlike.of_kind (more : Kind → Bool) : DecidesAlike m fun token => more token.kind :=
  fun _ _ hpair => congrArg more (m.kind_eq hpair)

/-- Rounds from related values, given that every round reads a token. -/
theorem repeatWhile {more : Token → Bool} {step : α → Parse α} {step' : β → Parse β}
    (hmore : DecidesAlike m more) (hend : ∀ token, token.isEnd = true → more token = false)
    (hconsumes : ∀ a, (step a).Consumes) (hconsumes' : ∀ b, (step' b).Consumes)
    (hstep : ∀ a b, related a b → Alike m related (step a) (step' b)) {a : α} {b : β}
    (hvalue : related a b) :
    Alike m related (repeatWhile more step a) (repeatWhile more step' b) := by
  intro cursor cursor' hcursor
  induction hsize : cursor.rest.length using Nat.strong_induction_on generalizing a b cursor cursor' with
  | _ size ih =>
    rw [repeatWhile_eq hend hconsumes, repeatWhile_eq hend hconsumes', ← hmore _ _ hcursor.current]
    split
    · have hmatched := hstep a b hvalue cursor cursor' hcursor
      simp only [Bind.bind, EStateM.bind]
      cases hfirst : step a cursor with
      | ok next after =>
        have hless := hconsumes a cursor next after hfirst
        rw [hfirst] at hmatched
        generalize step' b cursor' = outcome' at hmatched
        cases hmatched with
        | ok hvalue hafter => exact ih _ (hsize ▸ hless) hvalue _ _ hafter rfl
      | error fault after =>
        rw [hfirst] at hmatched
        generalize step' b cursor' = outcome' at hmatched
        cases hmatched with
        | error hfault hafter => exact .error hfault hafter
    · exact .ok hvalue hcursor

theorem many {more : Token → Bool} {parse : Parse α} (hmore : DecidesAlike m more)
    (hend : ∀ token, token.isEnd = true → more token = false) (hconsumes : parse.Consumes)
    (hparse : Placeless m parse) :
    Placeless m (many more parse) :=
  (repeatWhile hmore hend (fun _ => hconsumes.map _) (fun _ => hconsumes.map _)
    (fun _ _ heq => heq ▸ hparse.map _) rfl).map Array.toList

theorem commaSeparated {parse : Parse α} (hconsumes : parse.Consumes) (hparse : Placeless m parse) :
    Placeless m (commaSeparated parse) :=
  hparse.andThen fun first =>
    (many (.of_kind (· == .mark .comma)) (fun token hend => by simp [beq_iff_eq.1 hend])
      hconsumes.skip (skip hparse)).map (first :: ·)

theorem listItems {parse : Parse α} (hconsumes : parse.Consumes) (hparse : Placeless m parse) :
    Placeless m (listItems parse) :=
  (unlessAt _ (commaSeparated hconsumes hparse)).map (·.getD [])

end Alike

end Parse

/-- The parsers for what is nested read a token whenever they succeed, and do the same wherever the
tokens stand. -/
structure Nested.Placeless (m : Matching) (inner : Nested) : Prop where
  consumes : inner.Consumes
  expr : ∀ p, Parse.Placeless m (inner.expr p)
  stmt : Parse.Placeless m inner.stmt

namespace Parse

namespace Alike

variable {m : Matching} {inner : Nested}

/-! ### Expressions -/

theorem typeName : Placeless m typeName := by
  refine current.bind fun token token' hpair => ?_
  rw [← m.kind_eq hpair, ← m.lexeme_eq hpair]
  refine ite .rfl (advance.bind fun _ _ _ => ?_) (fail _ hpair)
  split
  · exact pure rfl
  · exact fail _ hpair

theorem blockBody (hinner : inner.Placeless m) : Placeless m (blockBody inner) :=
  (expect _).andThen fun _ =>
    (many (.of_kind fun kind => !(kind == .mark .rightBrace || kind == .endOfInput))
      (fun token hend => by simp [beq_iff_eq.1 hend])
      (hinner.consumes .statement) hinner.stmt).andThen fun statements => close _ statements

theorem atom : Placeless m atom := by
  refine advance.bind fun token token' hpair => ?_
  rw [← m.kind_eq hpair, ← m.lexeme_eq hpair, ← m.literal_eq hpair]
  refine ite .rfl (pure rfl) ?_
  split
  · exact pure rfl
  · exact fail _ hpair

theorem group (hinner : inner.Placeless m) : Placeless m (group inner) :=
  skip ((refuse _ _).andThen fun _ => (hinner.expr _).andThen fun tree => close _ tree)

theorem builtin (hinner : inner.Placeless m) (function : Builtin) : Placeless m (builtin inner function) :=
  skip ((expect _).andThen fun _ => (hinner.expr _).andThen fun tree => close _ (Tree.builtin function tree))

theorem sizeOf : Placeless m sizeOf :=
  skip ((expect _).andThen fun _ => typeName.andThen fun type => close _ (Tree.sizeOf type))

theorem cast (hinner : inner.Placeless m) : Placeless m (cast inner) :=
  skip ((expect _).andThen fun _ => typeName.andThen fun type => (expect _).andThen fun _ =>
    (expect _).andThen fun _ =>
    (hinner.expr _).andThen fun operand => close _ (Tree.cast type operand))

theorem operand (hinner : inner.Placeless m) : Placeless m (operand inner) := by
  refine current.bind fun token token' hpair => ?_
  rw [← m.kind_eq hpair]
  split
  iterate 7
    · exact atom
  · exact group hinner
  · exact sizeOf
  · exact skip ((blockBody hinner).map Tree.unsafeBlock)
  · exact cast hinner
  · split
    · exact skip ((hinner.expr _).map (Tree.unary _))
    · exact fail _ hpair
  · split
    · exact builtin hinner _
    · exact fail _ hpair
  · exact fail _ hpair

theorem arguments (hinner : inner.Placeless m) : Placeless m (arguments inner) :=
  (listItems (hinner.consumes (.expression _)) (hinner.expr _)).andThen fun trees => close _ trees

theorem call (hinner : inner.Placeless m) (callee : Tree) : Placeless m (call inner callee) := by
  refine advance.bind fun token token' hpair => ?_
  split
  · exact (arguments hinner).map (Tree.call _)
  · exact fail _ hpair

theorem assignment (hinner : inner.Placeless m) (op : AssignOp) (target : Tree) :
    Placeless m (assignment inner op target) := by
  refine advance.bind fun token token' hpair => ?_
  split
  · exact (hinner.expr _).map (Tree.assign op _)
  · exact fail _ hpair

theorem ternary (hinner : inner.Placeless m) (condition : Tree) : Placeless m (ternary inner condition) :=
  skip ((hinner.expr _).andThen fun consequent => (expect _).andThen fun _ =>
    (hinner.expr _).map (Tree.ternary condition consequent))

theorem continuation (hinner : inner.Placeless m) (left : Tree) : Placeless m (continuation inner left) := by
  refine current.bind fun token token' hpair => ?_
  rw [← m.kind_eq hpair]
  split
  · exact ternary hinner left
  · exact call hinner left
  · split
    · exact assignment hinner _ left
    · exact skip (pure rfl)
    · exact skip (((hinner.expr _).rightSideOf _).map (Tree.binary _ left))
    · exact fail _ hpair
  · exact fail _ hpair

theorem expression (hinner : inner.Placeless m) (p : Precedence) : Placeless m (expression inner p) := by
  refine (operand hinner).andThen fun left => ?_
  have hend : ∀ token : Token, token.isEnd = true → decide (p < token.kind.precedence) = false := by
    intro token hend
    rw [beq_iff_eq.1 hend]
    exact decide_eq_false (Nat.not_lt_zero _)
  have hconsumes := Planned.consumes_continuation hinner.consumes
  exact repeatWhile (.of_kind fun kind => decide (p < kind.precedence)) hend hconsumes hconsumes
    (fun _ _ heq => heq ▸ continuation hinner _) rfl

/-! ### Statements -/

theorem param : Placeless m param := typeName.andThen fun type => (expectName _).map (Param.mk type)

theorem functionDef (hinner : inner.Placeless m) : Placeless m (functionDef inner) :=
  skip ((expectName _).andThen fun name => (expect _).andThen fun _ =>
    (listItems Graded.consumes_param param).andThen fun params =>
    (expect _).andThen fun _ => (typeName.ifNext _).andThen fun returnType =>
      (blockBody hinner).map (Tree.functionDef name (returnType.getD .void) params))

theorem varDecl (hinner : inner.Placeless m) : Placeless m (varDecl inner) :=
  typeName.andThen fun type => (expectName _).andThen fun name =>
    ((hinner.expr _).ifNext _).andThen fun value =>
    close _ (Tree.varDecl type name value)

theorem condition (hinner : inner.Placeless m) (word : Keyword) : Placeless m (condition inner word) :=
  skip ((expect _).andThen fun _ => (hinner.expr _).andThen fun tree => close _ tree)

theorem ifElse (hinner : inner.Placeless m) : Placeless m (ifElse inner) :=
  (condition hinner _).andThen fun condition => hinner.stmt.andThen fun consequent =>
    (hinner.stmt.ifNext _).map (Tree.ifElse condition consequent)

theorem whileLoop (hinner : inner.Placeless m) : Placeless m (whileLoop inner) :=
  (condition hinner _).andThen fun condition => hinner.stmt.map (Tree.whileLoop condition)

theorem forLoop (hinner : inner.Placeless m) : Placeless m (forLoop inner) :=
  skip ((expect _).andThen fun _ => ((hinner.expr _).unlessAt _).andThen fun start =>
    (expect _).andThen fun _ =>
    ((hinner.expr _).unlessAt _).andThen fun condition => (expect _).andThen fun _ =>
    ((hinner.expr _).unlessAt _).andThen fun step => (expect _).andThen fun _ =>
      hinner.stmt.map (Tree.forLoop start condition step))

theorem returnStmt (hinner : inner.Placeless m) : Placeless m (returnStmt inner) :=
  skip (((hinner.expr _).unlessAt _).andThen fun value => close _ (Tree.returnStmt value))

theorem printlnStmt (hinner : inner.Placeless m) : Placeless m (printlnStmt inner) :=
  (builtin hinner _).andThen fun tree => close _ tree

theorem expressionStmt (hinner : inner.Placeless m) : Placeless m (expressionStmt inner) :=
  (hinner.expr _).andThen fun tree => close _ tree

theorem statement (hinner : inner.Placeless m) : Placeless m (statement inner) := by
  refine get.bind fun cursor cursor' hcursor => ?_
  rw [← m.kind_eq hcursor.current, ← m.kind_eq (hcursor 1)]
  split
  · exact (blockBody hinner).map Tree.block
  · exact functionDef hinner
  · exact ifElse hinner
  · exact whileLoop hinner
  · exact forLoop hinner
  · exact returnStmt hinner
  · exact printlnStmt hinner
  · exact varDecl hinner
  · exact ite .rfl (varDecl hinner) (expressionStmt hinner)
  · exact expressionStmt hinner

end Alike

end Parse

/-- However many levels may nest, the parsers do the same wherever the tokens stand. -/
theorem Nested.withRoom_placeless (m : Matching) (limit room : Nat) : (withRoom limit room).Placeless m := by
  induction room with
  | zero => exact ⟨withRoom_consumes limit 0, fun _ => .failHere _, .failHere _⟩
  | succ room ih => exact ⟨withRoom_consumes limit (room + 1), .expression ih, .statement ih⟩

/-- Programs are parsed the same wherever their tokens stand. -/
theorem Parse.program_placeless (m : Matching) (limit : Nat) : Placeless m (program limit) :=
  have hinner := Nested.withRoom_placeless m limit limit
  (Alike.many (.of_kind fun kind => !(kind == .endOfInput))
    (fun token hend => by simp [beq_iff_eq.1 hend]) (hinner.consumes .statement)
    hinner.stmt).map Tree.block

/-- Matching lists of tokens are parsed to the same tree, or refused for matching faults. -/
theorem parseTokens_alike {m : Matching} {tokens tokens' : List Token}
    (hmatches : (Cursor.ofTokens tokens).Matches m (.ofTokens tokens')) :
    (∃ tree, parseTokens tokens = .ok tree ∧ parseTokens tokens' = .ok tree) ∨
      ∃ fault fault' : Fault, fault.Matches m fault' ∧
        parseTokens tokens = .error fault.report ∧ parseTokens tokens' = .error fault'.report := by
  have hmatched := Parse.program_placeless m maxDepth _ _ hmatches
  unfold parseTokens
  generalize Parse.program maxDepth (.ofTokens tokens) = outcome at hmatched ⊢
  generalize Parse.program maxDepth (.ofTokens tokens') = outcome' at hmatched ⊢
  cases hmatched with
  | ok hvalue _ => exact .inl ⟨_, rfl, hvalue ▸ rfl⟩
  | error hfault _ => exact .inr ⟨_, _, hfault, rfl, rfl⟩

end ObsidianSyntax
