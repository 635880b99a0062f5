import ObsidianSyntax.Diagnostic.Basic
import ObsidianSyntax.Token.Basic
import ObsidianSyntax.Token.Lexeme

/-!
# Reading a source token by token

A lexer holds the text still to be read and hands out one token at a time, skipping blanks and
comments. Text that is no token is handed out as an invalid token, and a diagnostic for it joins a
queue. Behind the last token the end of the input is handed out as often as it is asked for; `next`
hands it out once.

A whole source is read in two ways. `scan` keeps invalid tokens and collects all diagnostics.
`tokenize` stops at the first of them. Every token but the end of the input takes at least one
character (`nextToken_text_lt`), which bounds both.
-/

namespace ObsidianSyntax

namespace LexicalFault

/-- The diagnostic for an invalid token. -/
def report (fault : LexicalFault) (token : Token) : Diagnostic where
  kind := .lexical
  span := if fault.isAtQuote then .single token.place.offset else token.span
  line := token.place.line
  column := token.place.column
  message := fault.message
  help := none

end LexicalFault

/-- A source on its way into tokens: the text still to be read and its place, whether `next` has
handed out the end, and the diagnostics that nobody has taken yet. -/
structure Lexer where
  text : List Char
  place : Position
  finished : Bool
  queued : Array Diagnostic

namespace Lexer

/-- A lexer before the first character of a source. -/
def ofSource (source : String) : Lexer := ⟨source.toList, .start, false, #[]⟩

/-- The next token, the end of the input once nothing else is left. -/
def nextToken (lexer : Lexer) : Token × Lexer :=
  match skipTrivia false lexer.place lexer.text with
  | (place, []) => (.endOfInput place, { lexer with text := [], place })
  | (place, first :: rest) =>
    let lexeme := Lexeme.read first rest
    let piece := (first :: rest).take lexeme.length
    let text := (first :: rest).drop lexeme.length
    match lexeme.verdict with
    | .ok kind => (⟨kind, String.ofList piece, place⟩, { lexer with text, place := place.afterText piece })
    | .error fault =>
      let token : Token := ⟨.invalid, String.ofList piece, place⟩
      (token, { lexer with
        text, place := place.afterText piece, queued := lexer.queued.push (fault.report token) })

/-- The next token, nothing once the end of the input has been handed out here. -/
def next (lexer : Lexer) : Option Token × Lexer :=
  if lexer.finished then (none, lexer)
  else
    let (token, after) := lexer.nextToken
    (some token, { after with finished := token.isEnd })

/-- The queued diagnostics, leaving the queue empty. -/
def takeDiagnostics (lexer : Lexer) : Array Diagnostic × Lexer := (lexer.queued, { lexer with queued := #[] })

end Lexer

/-! ### Every token takes a character -/

theorem length_skipTrivia_le (inComment : Bool) (place : Position) (text : List Char) :
    (skipTrivia inComment place text).2.length ≤ text.length := by
  induction text generalizing inComment place with
  | nil => simp [skipTrivia]
  | cons c rest ih =>
    unfold skipTrivia
    repeat' split
    all_goals first | exact Nat.le_succ_of_le (ih _ _) | exact Nat.le_refl _

namespace Lexeme

theorem le_stringEnd (text : List Char) (taken : Nat) : taken ≤ (stringEnd text taken).1 := by
  fun_induction stringEnd text taken <;> grind

theorem length_closeChar_pos {taken : Nat} (h : 0 < taken) (rest : List Char) :
    0 < (closeChar taken rest).length := by
  unfold closeChar
  split
  · split <;> simp [h]
  · exact h

theorem length_ofChar_pos (rest : List Char) : 0 < (ofChar rest).length := by
  unfold ofChar
  split
  · simp
  · split
    · simp
    · split
      · simp
      · split
        · split
          · simp
          · split
            · simp
            · exact length_closeChar_pos (by omega) _
        · exact length_closeChar_pos (by omega) _

theorem length_ofNumber_pos {c : Char} (h : c.isDigit = true) (rest : List Char) :
    0 < (ofNumber (c :: rest)).length := by
  have hwhole : 0 < ((c :: rest).takeWhile Char.isDigit).length := by simp [h]
  simp only [ofNumber]
  split
  · split
    · exact Nat.lt_of_lt_of_le (Nat.lt_of_lt_of_le hwhole (Nat.le_add_right _ 2)) (Nat.le_add_right _ _)
    · exact hwhole
  · exact hwhole

theorem continuesWord_of_startsWord {c : Char} (h : startsWord c = true) : continuesWord c = true := by
  simp only [startsWord, continuesWord, Char.isAlphanum, Bool.or_eq_true] at h ⊢
  exact h.imp_left .inl

theorem length_ofWord_pos {c : Char} (h : startsWord c = true) (rest : List Char) :
    0 < (ofWord (c :: rest)).length := by
  simp [ofWord, continuesWord_of_startsWord h]

theorem length_pos_of_mem_ofMark? {c : Char} {rest : List Char} {lexeme : Lexeme}
    (h : lexeme ∈ ofMark? (c :: rest)) : 0 < lexeme.length := by
  unfold ofMark? at h
  split at h
  · cases h
    simp
  · cases h
    simp
  · cases h

theorem length_read_pos (first : Char) (rest : List Char) : 0 < (read first rest).length := by
  unfold read
  split
  · exact le_stringEnd rest 1
  · split
    · exact length_ofChar_pos rest
    · split
      · next h => exact length_ofNumber_pos h rest
      · split
        · next h => exact length_ofWord_pos h rest
        · cases h : ofMark? (first :: rest) with
          | none => simp
          | some lexeme => exact length_pos_of_mem_ofMark? h

end Lexeme

namespace Lexer

/-- A token other than the end of the input takes at least one character. -/
theorem nextToken_text_lt {lexer : Lexer} (h : lexer.nextToken.1.isEnd = false) :
    lexer.nextToken.2.text.length < lexer.text.length := by
  have hskip := length_skipTrivia_le false lexer.place lexer.text
  unfold nextToken at *
  split at h
  · simp at h
  · next place first rest heq =>
    rw [heq] at hskip
    have hpos := Lexeme.length_read_pos first rest
    simp only
    split <;> simp only [List.length_drop, List.length_cons] at hskip ⊢ <;> omega

/-- How many more tokens `next` can hand out. -/
def tokensLeft (lexer : Lexer) : Nat := if lexer.finished then 0 else lexer.text.length + 1

theorem tokensLeft_next_lt {lexer : Lexer} (h : lexer.next.1.isSome = true) :
    lexer.next.2.tokensLeft < lexer.tokensLeft := by
  unfold next at h ⊢
  split
  · simp_all
  · next hfinished =>
    simp only [tokensLeft, hfinished]
    cases hend : lexer.nextToken.1.isEnd with
    | true => simp
    | false =>
      have := nextToken_text_lt hend
      simpa using this

/-- All tokens that `next` still hands out, behind those in `tokens`, and the lexer behind the last. -/
def collect (lexer : Lexer) (tokens : Array Token) : Array Token × Lexer :=
  match h : lexer.next with
  | (none, after) => (tokens, after)
  | (some token, after) =>
    have : after.tokensLeft < lexer.tokensLeft := by simpa [h] using lexer.tokensLeft_next_lt (by simp [h])
    after.collect (tokens.push token)
termination_by lexer.tokensLeft

/-- All tokens up to the end of the input, behind those in `tokens`, or the diagnostic of the first
invalid one. -/
def collectValid (lexer : Lexer) (tokens : Array Token) : Except Diagnostic (Array Token) :=
  match h : lexer.nextToken with
  | (token, after) =>
    match (if token.kind = .invalid then after.queued[0]? else none) with
    | some diagnostic => .error diagnostic
    | none =>
      if hend : token.isEnd then .ok (tokens.push token)
      else
        have : after.text.length < lexer.text.length := by
          simpa [h] using lexer.nextToken_text_lt (by simpa [h] using hend)
        after.collectValid (tokens.push token)
termination_by lexer.text.length

end Lexer

/-- All tokens of a source, invalid ones included, and the diagnostics for those. -/
def scan (source : String) : List Token × List Diagnostic :=
  let (tokens, lexer) := (Lexer.ofSource source).collect #[]
  (tokens.toList, lexer.takeDiagnostics.1.toList)

/-- All tokens of a source, or the diagnostic of its first invalid one. -/
def tokenize (source : String) : Except Diagnostic (List Token) :=
  ((Lexer.ofSource source).collectValid #[]).map Array.toList

end ObsidianSyntax
