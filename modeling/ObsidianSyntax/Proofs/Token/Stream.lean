import ObsidianSyntax.Proofs.Token.Layout
import ObsidianSyntax.Source

/-!
# The tokens of a text

A lexer carries a queue and a flag along, but what it reads is a matter of the text and its place
alone. `tokensOf` gives the tokens of a text without any lexer. The diagnostics add nothing to it:
whether a token is reported, and how, can be told from the token, as the text of an invalid one
shows what is wrong with it. So both ways to read a source are functions of the list of its tokens.
-/

namespace ObsidianSyntax

/-- The kind of the token that a piece becomes. -/
def Lexeme.kind (lexeme : Lexeme) : Kind :=
  match lexeme.verdict with
  | .ok kind => kind
  | .error _ => .invalid

/-- The piece that is read is all there, and is spelled as a token of its kind, or broken where no
token starts. -/
theorem Lexeme.read_cases (first : Char) (rest : List Char) {piece : List Char}
    (hpiece : (first :: rest).take (read first rest).length = piece) :
    piece.length = (read first rest).length ∧
    ((∃ kind, (read first rest).verdict = .ok kind ∧ (read first rest).kind = kind ∧ Spells piece kind) ∨
      ∃ fault, (read first rest).verdict = .error fault ∧ (read first rest).kind = .invalid ∧
        Broken (first :: rest) piece fault ∧ ∀ other, other <+: first :: rest → ¬ IsToken other) := by
  have hread := read_describes first rest
  unfold Describes at hread
  cases hverdict : (read first rest).verdict with
  | ok kind =>
    rw [hverdict] at hread
    obtain ⟨_, rfl, hlength, hspells, _⟩ := hread
    rw [hpiece] at hlength hspells
    exact ⟨hlength, .inl ⟨kind, rfl, by rw [Lexeme.kind, hverdict], hspells⟩⟩
  | error fault =>
    rw [hverdict] at hread
    obtain ⟨_, rfl, hlength, hbroken, hnone⟩ := hread
    rw [hpiece] at hlength hbroken
    exact ⟨hlength, .inr ⟨fault, rfl, by rw [Lexeme.kind, hverdict], hbroken, hnone⟩⟩

theorem Lexeme.read_fits (first : Char) (rest : List Char) :
    (read first rest).length ≤ (first :: rest).length ∧ (read first rest).kind ≠ .endOfInput := by
  obtain ⟨hlength, hcases⟩ := read_cases first rest rfl
  rw [List.length_take] at hlength
  refine ⟨by omega, ?_⟩
  obtain ⟨kind, _, hkind, hspells⟩ | ⟨_, _, hkind, _⟩ := hcases
  · exact hkind ▸ hspells.kind_ne.2
  · simp [hkind]

theorem length_drop_read_lt {inComment : Bool} {place place' : Position} {text rest : List Char}
    {first : Char} (hskip : skipTrivia inComment place text = (place', first :: rest)) :
    ((first :: rest).drop (Lexeme.read first rest).length).length < text.length := by
  have hle := length_skipTrivia_le inComment place text
  rw [hskip] at hle
  have hpos := Lexeme.length_read_pos first rest
  simp only [List.length_drop, List.length_cons] at hle ⊢
  omega

/-- The tokens of a text that starts at `place`, invalid ones and the end of the input included. -/
def tokensOf (place : Position) (text : List Char) : List Token :=
  match _ : skipTrivia false place text with
  | (place', []) => [.endOfInput place']
  | (place', first :: rest) =>
    let lexeme := Lexeme.read first rest
    let piece := (first :: rest).take lexeme.length
    ⟨lexeme.kind, String.ofList piece, place'⟩ :: tokensOf (place'.afterText piece)
      ((first :: rest).drop lexeme.length)
termination_by text.length
decreasing_by exact length_drop_read_lt ‹_›

section

variable {place place' : Position} {text rest : List Char} {first : Char}

theorem tokensOf_of_nil (hskip : skipTrivia false place text = (place', [])) :
    tokensOf place text = [.endOfInput place'] := by
  rw [tokensOf.eq_def]
  split
  · next heq =>
    rw [hskip] at heq
    cases heq
    rfl
  · next heq =>
    rw [hskip] at heq
    cases heq

theorem tokensOf_of_cons (hskip : skipTrivia false place text = (place', first :: rest)) :
    tokensOf place text =
      let piece := (first :: rest).take (Lexeme.read first rest).length
      ⟨(Lexeme.read first rest).kind, String.ofList piece, place'⟩ ::
        tokensOf (place'.afterText piece) ((first :: rest).drop (Lexeme.read first rest).length) := by
  rw [tokensOf.eq_def]
  split
  · next heq =>
    rw [hskip] at heq
    cases heq
  · next heq =>
    rw [hskip] at heq
    cases heq
    rfl

theorem tokensOf_congr {text' : List Char}
    (hskip : skipTrivia false place text = skipTrivia false place' text') :
    tokensOf place text = tokensOf place' text' := by
  match hleft : skipTrivia false place' text' with
  | (stop, []) => rw [tokensOf_of_nil (hskip.trans hleft), tokensOf_of_nil hleft]
  | (stop, first :: rest) => rw [tokensOf_of_cons (hskip.trans hleft), tokensOf_of_cons hleft]

end

/-! ### What an invalid token shows -/

/-- What is wrong with a piece that is no token, as far as the piece shows it. -/
def LexicalFault.ofPiece? : List Char → Option LexicalFault
  | [] => none
  | c :: rest =>
    if c = '"' then some .unterminatedString
    else if c = '\'' then some (if rest = ['\''] then .emptyChar else .unterminatedChar)
    else some (.unexpected c)

/-- A broken piece is broken in the one way that it shows, whatever stands behind it. -/
theorem Broken.ofPiece?_eq {text piece : List Char} {fault : LexicalFault}
    (hbroken : Broken text piece fault) :
    LexicalFault.ofPiece? piece = some fault := by
  cases hbroken with
  | unexpected hstring hchar => simp [LexicalFault.ofPiece?, hstring, hchar]
  | emptyChar | openString | openChar | openPair => simp [LexicalFault.ofPiece?]
  | @openItem item rest hitem _ =>
    have hne : item ≠ ['\''] := by
      rintro rfl
      cases hitem with
      | plain hquote _ _ => exact hquote rfl
    simp [LexicalFault.ofPiece?, hne]

namespace Token

/-- What is wrong with an invalid token. -/
def fault? (token : Token) : Option LexicalFault :=
  if token.kind = .invalid then LexicalFault.ofPiece? token.lexeme.toList else none

/-- The diagnostic for an invalid token. -/
def lexicalReport? (token : Token) : Option Diagnostic := token.fault?.map fun fault => fault.report token

@[simp] theorem lexicalReport?_endOfInput (place : Position) : (endOfInput place).lexicalReport? = none := rfl

theorem lexicalReport?_of_kind_ne {token : Token} (hkind : token.kind ≠ .invalid) :
    token.lexicalReport? = none := by
  simp [lexicalReport?, fault?, hkind]

theorem kind_ne_invalid_of_lexicalReport? {token : Token} (hnone : token.lexicalReport? = none)
    (hne : token.lexeme.toList ≠ []) :
    token.kind ≠ .invalid := by
  intro hkind
  obtain ⟨c, rest, hpiece⟩ := List.exists_cons_of_ne_nil hne
  simp only [lexicalReport?, fault?, hkind, hpiece, LexicalFault.ofPiece?, if_true] at hnone
  split at hnone
  · cases hnone
  · split at hnone <;> cases hnone

theorem lexicalReport?_of_isEnd {token : Token} (hend : token.isEnd = true) :
    token.lexicalReport? = none := by
  refine lexicalReport?_of_kind_ne ?_
  rw [beq_iff_eq.1 hend]
  simp

end Token

/-! ### Reading a source -/

namespace Lexer

variable {lexer : Lexer} {place : Position} {first : Char} {rest : List Char}

theorem nextToken_of_nil (hskip : skipTrivia false lexer.place lexer.text = (place, [])) :
    lexer.nextToken = (.endOfInput place, { lexer with text := [], place }) := by
  simp only [nextToken, hskip]

/-- One step of a lexer: the token at the front, and what is left to be read. The queue gets what
the token itself shows. -/
structure StepsOver (lexer : Lexer) (place : Position) (piece rest : List Char) (kind : Kind) : Prop where
  token_eq : lexer.nextToken.1 = ⟨kind, String.ofList piece, place⟩
  text_eq : lexer.nextToken.2.text = rest
  place_eq : lexer.nextToken.2.place = place.afterText piece
  queued_eq : lexer.nextToken.2.queued = lexer.queued ++ lexer.nextToken.1.lexicalReport?.toList.toArray
  isEnd_eq : lexer.nextToken.1.isEnd = false
  piece_ne_nil : piece ≠ []

theorem stepsOver_of_cons (hskip : skipTrivia false lexer.place lexer.text = (place, first :: rest)) :
    lexer.StepsOver place ((first :: rest).take (Lexeme.read first rest).length)
      ((first :: rest).drop (Lexeme.read first rest).length) (Lexeme.read first rest).kind := by
  obtain ⟨_, ⟨kind, hverdict, hkind, hspells⟩ | ⟨fault, hverdict, hkind, hbroken, _⟩⟩ :=
    Lexeme.read_cases first rest rfl
  · have hstep := nextToken_of_ok hskip hverdict
    have htoken : lexer.nextToken.1.kind = kind := by rw [hstep]
    refine ⟨by rw [hstep, hkind], by rw [hstep], by rw [hstep], ?_, ?_, hspells.ne_nil⟩
    · rw [Token.lexicalReport?_of_kind_ne (htoken ▸ hspells.kind_ne.1), hstep]
      simp
    · rw [Token.isEnd, htoken]
      simpa using hspells.kind_ne.2
  · have hstep := nextToken_of_error hskip hverdict
    refine ⟨by rw [hstep, hkind], by rw [hstep], by rw [hstep], ?_, by rw [hstep]; rfl, hbroken.ne_nil⟩
    rw [hstep]
    simp [Token.lexicalReport?, Token.fault?, hbroken.ofPiece?_eq]

/-- All tokens of the text that is left are handed out, and the queue gets what they show. -/
theorem collect_eq_tokensOf (lexer : Lexer) (hfinished : lexer.finished = false) (tokens : Array Token) :
    (lexer.collect tokens).1.toList = tokens.toList ++ tokensOf lexer.place lexer.text ∧
    (lexer.collect tokens).2.queued.toList =
      lexer.queued.toList ++ (tokensOf lexer.place lexer.text).filterMap Token.lexicalReport? := by
  have hnext := next_of_not_finished hfinished
  match hskip : skipTrivia false lexer.place lexer.text with
  | (place, []) =>
    have hstep := nextToken_of_nil hskip
    have hlast : lexer.next.2.next = (none, lexer.next.2) := next_of_finished (by rw [hnext, hstep]; rfl)
    rw [collect_of_some (by rw [hnext]), collect_of_none (by rw [hlast]), hlast, hnext, hstep,
      tokensOf_of_nil hskip]
    simp
  | (place, first :: rest) =>
    have hsteps := stepsOver_of_cons hskip
    have hshorter := length_drop_read_lt hskip
    rw [hsteps.isEnd_eq] at hnext
    obtain ⟨htokens, hqueued⟩ :=
      collect_eq_tokensOf { lexer.nextToken.2 with finished := false } rfl (tokens.push lexer.nextToken.1)
    rw [collect_of_some (by rw [hnext]), hnext, htokens, hqueued, tokensOf_of_cons hskip]
    simp only [hsteps.place_eq, hsteps.text_eq, hsteps.queued_eq, hsteps.token_eq]
    cases hreport : Token.lexicalReport? ⟨(Lexeme.read first rest).kind, _, place⟩ with
    | none => simp [hreport]
    | some diagnostic => simp [hreport]
termination_by lexer.text.length
decreasing_by rwa [hsteps.text_eq]

/-- With an empty queue the tokens are read strictly up to the first one that is reported. -/
theorem collectValid_eq_tokensOf (lexer : Lexer) (hqueue : lexer.queued = #[]) (tokens : Array Token) :
    (lexer.collectValid tokens).map Array.toList =
      match (tokensOf lexer.place lexer.text).findSome? Token.lexicalReport? with
      | some diagnostic => .error diagnostic
      | none => .ok (tokens.toList ++ tokensOf lexer.place lexer.text) := by
  match hskip : skipTrivia false lexer.place lexer.text with
  | (place, []) =>
    have hstep := nextToken_of_nil hskip
    rw [collectValid_of_end (by rw [hstep]; rfl), hstep, tokensOf_of_nil hskip]
    simp [Except.map]
  | (place, first :: rest) =>
    have hsteps := stepsOver_of_cons hskip
    have hshorter := length_drop_read_lt hskip
    have hcons : tokensOf lexer.place lexer.text = lexer.nextToken.1 ::
        tokensOf lexer.nextToken.2.place lexer.nextToken.2.text := by
      rw [tokensOf_of_cons hskip, hsteps.token_eq, hsteps.place_eq, hsteps.text_eq]
    have hqueued := hsteps.queued_eq
    rw [hqueue] at hqueued
    cases hreport : lexer.nextToken.1.lexicalReport? with
    | none =>
      have hkind := Token.kind_ne_invalid_of_lexicalReport? hreport
        (by simpa [hsteps.token_eq] using hsteps.piece_ne_nil)
      rw [collectValid_of_live hkind hsteps.isEnd_eq,
        collectValid_eq_tokensOf lexer.nextToken.2 (by simpa [hreport] using hqueued), hcons,
        List.findSome?_cons, hreport]
      simp
    | some diagnostic =>
      have hkind : lexer.nextToken.1.kind = .invalid := by
        by_contra hkind
        simp [Token.lexicalReport?_of_kind_ne hkind] at hreport
      rw [hreport] at hqueued
      rw [collectValid, hcons, List.findSome?_cons, hreport]
      simp [hkind, hqueued, Except.map]
termination_by lexer.text.length
decreasing_by rwa [hsteps.text_eq]

end Lexer

/-- Both lists of a source that is read leniently come from its text. -/
theorem scan_eq (source : String) :
    scan source = (tokensOf .start source.toList,
      (tokensOf .start source.toList).filterMap Token.lexicalReport?) := by
  obtain ⟨htokens, hqueued⟩ := (Lexer.ofSource source).collect_eq_tokensOf rfl #[]
  refine Prod.ext ?_ ?_
  · simpa [scan, Lexer.ofSource] using htokens
  · simpa [scan, Lexer.takeDiagnostics, Lexer.ofSource] using hqueued

/-- A source that is read strictly gives the tokens of the lenient reading, unless one of them is reported. -/
theorem tokenize_eq (source : String) :
    tokenize source =
      match (scan source).1.findSome? Token.lexicalReport? with
      | some diagnostic => .error diagnostic
      | none => .ok (scan source).1 := by
  rw [scan_eq]
  exact (Lexer.ofSource source).collectValid_eq_tokensOf rfl #[]

theorem tokenize_eq_error_iff {source : String} {diagnostic : Diagnostic} :
    tokenize source = .error diagnostic ↔
      (scan source).1.findSome? Token.lexicalReport? = some diagnostic := by
  rw [tokenize_eq]
  cases (scan source).1.findSome? Token.lexicalReport? <;> simp

theorem tokenize_eq_ok_iff {source : String} {tokens : List Token} :
    tokenize source = .ok tokens ↔
      (scan source).1.findSome? Token.lexicalReport? = none ∧ (scan source).1 = tokens := by
  rw [tokenize_eq]
  cases (scan source).1.findSome? Token.lexicalReport? <;> simp

/-- The tokens of a source end with the end of the input, and only that is empty. -/
theorem scan_eq_append (source : String) :
    ∃ before place, (scan source).1 = before ++ [.endOfInput place] ∧
      ∀ token ∈ before, token.isEnd = false ∧ token.lexeme ≠ "" := by
  obtain ⟨before, place, htokens, _, hall⟩ := (scan_yields_layout source).2.last "" rfl
  exact ⟨before, place, htokens, hall⟩

/-- A source none of whose tokens is reported is parsed by these tokens. -/
theorem parseSource_of_valid {source : String}
    (hvalid : (scan source).1.findSome? Token.lexicalReport? = none) :
    parseSource source = parseTokens (scan source).1 := by
  rw [parseSource, tokenize_eq_ok_iff.2 ⟨hvalid, rfl⟩]
  rfl

theorem parseSource_of_invalid {source : String} {diagnostic : Diagnostic}
    (hinvalid : (scan source).1.findSome? Token.lexicalReport? = some diagnostic) :
    parseSource source = .error diagnostic := by
  rw [parseSource, tokenize_eq_error_iff.2 hinvalid]
  rfl

theorem fault?_of_valid {tokens : List Token} (hvalid : tokens.findSome? Token.lexicalReport? = none) :
    ∀ token ∈ tokens, token.fault? = none := by
  intro token hmem
  have hreport := List.findSome?_eq_none_iff.1 hvalid token hmem
  simpa [Token.lexicalReport?] using hreport

theorem parseSource_eq_ok_iff {source : String} {tree : Tree} :
    parseSource source = .ok tree ↔
      (scan source).1.findSome? Token.lexicalReport? = none ∧ parseTokens (scan source).1 = .ok tree := by
  rw [parseSource, tokenize_eq]
  cases (scan source).1.findSome? Token.lexicalReport? <;> simp [Bind.bind, Except.bind]

/-! ### Kinds and texts -/

/-- The kind of the token is that of its text, where its text is one of a token at all. -/
structure Token.IsFaithful (token : Token) : Prop where
  spells : token.kind ≠ .invalid → token.kind ≠ .endOfInput → Spells token.lexeme.toList token.kind
  kind_eq : ∀ {kind : Kind}, Spells token.lexeme.toList kind → token.kind = kind

theorem Lexeme.isFaithful_read (first : Char) (rest : List Char) (place : Position) :
    Token.IsFaithful
      ⟨(read first rest).kind, String.ofList ((first :: rest).take (read first rest).length), place⟩ := by
  generalize hpiece : (first :: rest).take (read first rest).length = piece
  obtain ⟨_, ⟨kind, _, rfl, hspells⟩ | ⟨_, _, hkind, _, hnone⟩⟩ := read_cases first rest hpiece
  · exact ⟨fun _ _ => by simpa using hspells, fun hother => hspells.kind_unique (by simpa using hother)⟩
  · refine ⟨fun hvalid => absurd hkind hvalid, fun {kind} hother => ?_⟩
    exact absurd ⟨kind, by simpa using hother⟩ (hnone piece (hpiece ▸ List.take_prefix _ _))

theorem isFaithful_of_mem_tokensOf (place : Position) (text : List Char) :
    ∀ token ∈ tokensOf place text, token.IsFaithful := by
  match hskip : skipTrivia false place text with
  | (stop, []) =>
    rw [tokensOf_of_nil hskip, List.forall_mem_singleton]
    exact ⟨fun _ hend => absurd rfl hend, fun hspells => absurd rfl hspells.ne_nil⟩
  | (start, first :: rest) =>
    rw [tokensOf_of_cons hskip, List.forall_mem_cons]
    exact ⟨Lexeme.isFaithful_read first rest start, isFaithful_of_mem_tokensOf _ _⟩
termination_by text.length
decreasing_by exact length_drop_read_lt hskip

theorem isFaithful_of_mem_scan {source : String} : ∀ token ∈ (scan source).1, token.IsFaithful := by
  rw [scan_eq]
  exact isFaithful_of_mem_tokensOf .start source.toList

end ObsidianSyntax
