import ObsidianSyntax.Parse.Fault

/-!
# Walking over tokens

A cursor holds the tokens still to be read. Looking past them gives the end of the input: the token
of that kind at the end of the list, or one made up behind the last token when the list was cut
short. A cursor never moves past the end of the input.

A parser is a step from cursor to cursor that gives a value or a fault, and in either case leaves a
cursor to go on from. Repetition is bounded by the tokens left when it starts, one round for each,
and the bound never shows as long as every step reads a token (`Parse.repeatWhile_eq`).
-/

namespace ObsidianSyntax

/-- The tokens still to be read, and the end of the input, which stands behind them all. -/
structure Cursor where
  rest : List Token
  endToken : Token
  isEnd_endToken : endToken.isEnd = true
deriving DecidableEq

namespace Cursor

/-- The end of the input behind a list of tokens. -/
def endOf (tokens : List Token) : Token :=
  match tokens.getLast? with
  | some last => if last.isEnd then last else .endOfInput last.endPlace
  | none => .endOfInput .start

theorem isEnd_endOf (tokens : List Token) : (endOf tokens).isEnd = true := by
  unfold endOf
  split
  · split
    · assumption
    · rfl
  · rfl

def ofTokens (tokens : List Token) : Cursor := ⟨tokens, endOf tokens, isEnd_endOf tokens⟩

def peek (cursor : Cursor) (offset : Nat) : Token := cursor.rest[offset]?.getD cursor.endToken

def current (cursor : Cursor) : Token := cursor.peek 0

def hasTokens (cursor : Cursor) : Bool := !cursor.current.isEnd

/-- The cursor behind the current token, which the end of the input never gets behind. -/
def advance (cursor : Cursor) : Cursor :=
  if cursor.current.isEnd then cursor else { cursor with rest := cursor.rest.drop 1 }

/-- With no tokens left the cursor is at the end of the input. -/
theorem isEnd_current_of_rest_eq_nil {cursor : Cursor} (h : cursor.rest = []) :
    cursor.current.isEnd = true := by
  simpa [current, peek, h] using cursor.isEnd_endToken

end Cursor

/-- A parser: from a cursor to a value or a fault, and to the cursor at which it stopped. -/
abbrev Parse := EStateM Fault Cursor

namespace Parse

def current : Parse Token := return (← get).current

/-- Steps over the token at the cursor. -/
def advance : Parse Token := do
  let cursor ← get
  set cursor.advance
  return cursor.current

/-- Stops with a cause at a token. -/
def fail {α : Type} (cause : Cause) (token : Token) : Parse α := throw ⟨cause, token, none⟩

def failHere {α : Type} (cause : Cause) : Parse α := do fail cause (← current)

def isAt (kind : Kind) : Parse Bool := return (← current).kind == kind

/-- Stops with a cause if the token at the cursor is of the kind. -/
def refuse (kind : Kind) (cause : Cause) : Parse Unit := do
  if ← isAt kind then failHere cause else return ()

/-- What stands behind a token of the kind, if there is one at the cursor. -/
def ifNext {α : Type} (kind : Kind) (parse : Parse α) : Parse (Option α) := do
  if ← isAt kind then
    let _ ← advance
    return some (← parse)
  else return none

/-- What stands at the cursor, unless it is a token of the kind. -/
def unlessAt {α : Type} (kind : Kind) (parse : Parse α) : Parse (Option α) := do
  if ← isAt kind then return none else return some (← parse)

/-- Steps over the token that must stand at the cursor. -/
def take (expectation : Expectation) : Parse Token := do
  if (← current).kind = expectation.kind then advance else failHere (.missing expectation)

/-- Steps over the token that must stand at the cursor, which carries no information. -/
def expect (expectation : Expectation) : Parse Unit := discard (take expectation)

/-- Steps over the name that must stand at the cursor. -/
def expectName (expectation : Expectation) : Parse String := return (← take expectation).lexeme

/-- A parser for the right side of a binary operator: its faults get the hint about that operator. -/
def rightSideOf {α : Type} (op : BinaryOp) (parse : Parse α) : Parse α := fun cursor =>
  match parse cursor with
  | .ok value cursor => .ok value cursor
  | .error fault cursor => .error (fault.inRightSide op) cursor

/-- Takes steps while the token at the cursor allows one, at most one for each of the tokens given. -/
def repeatFor {α : Type} (more : Token → Bool) (step : α → Parse α) : List Token → α → Parse α
  | [], value => return value
  | _ :: rounds, value => do
    if more (← current) then repeatFor more step rounds (← step value) else return value

/-- Takes steps while the token at the cursor allows one. As every step reads a token, the tokens
left are rounds enough. -/
def repeatWhile {α : Type} (more : Token → Bool) (step : α → Parse α) (value : α) : Parse α := do
  repeatFor more step (← get).rest value

/-- Whether the parser reads a token whenever it succeeds. -/
def Consumes {α : Type} (parse : Parse α) : Prop :=
  ∀ cursor value after, parse cursor = .ok value after → after.rest.length < cursor.rest.length

theorem repeatFor_cons {α : Type} (more : Token → Bool) (step : α → Parse α) (round : Token)
    (rounds : List Token) (value : α) (cursor : Cursor) :
    repeatFor more step (round :: rounds) value cursor =
      if more cursor.current then (step value >>= repeatFor more step rounds) cursor
      else .ok value cursor := by
  show (if more cursor.current then step value >>= repeatFor more step rounds else pure value :
    Parse α) cursor = _
  split <;> rfl

/-- Rounds beyond the number of tokens left make no difference. -/
theorem repeatFor_congr {α : Type} {more : Token → Bool} {step : α → Parse α}
    (hend : ∀ token, token.isEnd = true → more token = false) (hstep : ∀ value, (step value).Consumes)
    (rounds : List Token) :
    ∀ (rounds' : List Token) (value : α) (cursor : Cursor), cursor.rest.length ≤ rounds.length →
      cursor.rest.length ≤ rounds'.length →
      repeatFor more step rounds value cursor = repeatFor more step rounds' value cursor := by
  have hnil : ∀ (rounds' : List Token) (value : α) (cursor : Cursor), cursor.rest = [] →
      repeatFor more step rounds' value cursor = .ok value cursor := by
    intro rounds' value cursor hrest
    have hmore := hend _ (Cursor.isEnd_current_of_rest_eq_nil hrest)
    cases rounds' with
    | nil => rfl
    | cons round rounds' => simp [repeatFor_cons, hmore]
  induction rounds with
  | nil =>
    intro rounds' value cursor h _
    have hrest : cursor.rest = [] := List.eq_nil_of_length_eq_zero (by simpa using h)
    rw [hnil _ _ _ hrest, hnil _ _ _ hrest]
  | cons round rounds ih =>
    intro rounds' value cursor h h'
    cases rounds' with
    | nil =>
      have hrest : cursor.rest = [] := List.eq_nil_of_length_eq_zero (by simpa using h')
      rw [hnil _ _ _ hrest, hnil _ _ _ hrest]
    | cons round' rounds' =>
      rw [repeatFor_cons, repeatFor_cons]
      split
      · simp only [bind, EStateM.bind]
        cases hresult : step value cursor with
        | error fault after => rfl
        | ok next after =>
          have hless := hstep _ _ _ _ hresult
          simp only [List.length_cons] at h h'
          exact ih rounds' next after (by omega) (by omega)
      · rfl

/-- The rounds that bound a repetition do not show: it goes on exactly as long as the token at the
cursor allows. -/
theorem repeatWhile_eq {α : Type} {more : Token → Bool} {step : α → Parse α}
    (hend : ∀ token, token.isEnd = true → more token = false) (hstep : ∀ value, (step value).Consumes)
    (value : α) (cursor : Cursor) :
    repeatWhile more step value cursor =
      if more cursor.current then (step value >>= repeatWhile more step) cursor else .ok value cursor := by
  show repeatFor more step cursor.rest value cursor = _
  cases hrest : cursor.rest with
  | nil =>
    have hmore := hend _ (Cursor.isEnd_current_of_rest_eq_nil hrest)
    simp [hmore, repeatFor, pure, EStateM.pure]
  | cons token rest =>
    rw [repeatFor_cons]
    split
    · simp only [bind, EStateM.bind]
      cases hresult : step value cursor with
      | error fault after => rfl
      | ok next after =>
        have hless := hstep _ _ _ _ hresult
        rw [hrest] at hless
        exact repeatFor_congr hend hstep rest after.rest next after (Nat.le_of_lt_succ hless) (Nat.le_refl _)
    · rfl

/-- Items one after the other while the token at the cursor allows one. -/
def many {α : Type} (more : Token → Bool) (item : Parse α) : Parse (List α) :=
  return (← repeatWhile more (fun items => return items.push (← item)) #[]).toList

/-- Items with a comma between them, at least one. -/
def commaSeparated {α : Type} (item : Parse α) : Parse (List α) := do
  let first ← item
  let others ← many (fun token => token.kind == .mark .comma) do
    let _ ← advance
    item
  return first :: others

/-- Items with a comma between them up to a closing parenthesis, possibly none. -/
def listItems {α : Type} (item : Parse α) : Parse (List α) :=
  return (← unlessAt (.mark .rightParen) (commaSeparated item)).getD []

end Parse

end ObsidianSyntax
