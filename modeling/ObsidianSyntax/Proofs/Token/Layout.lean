import Mathlib.Data.List.Chain
import ObsidianSyntax.Proofs.Token.LongestMatch

/-!
# How tokens lie in a source

Reading a source into tokens loses nothing. The source is cut into gaps of blanks and comments and
the texts of the tokens between them, in order and without a rest (`Layout`). From the cut follow
the spans: each token is the text that its span cuts out of the source, spans follow one another
without overlap, and only the end of the input takes no character (`IsPartition`).
-/

namespace ObsidianSyntax

/-- Blanks and comments that stand before `rest`. A comment goes up to a line end, which it does not
take, or to the end of the input. -/
inductive Trivia : List Char → List Char → Prop where
  | nil {rest : List Char} : Trivia [] rest
  | blank {c : Char} {gap rest : List Char} (hblank : isBlank c = true) (hgap : Trivia gap rest) :
      Trivia (c :: gap) rest
  | comment {body gap rest : List Char} (hline : '\n' ∉ body) (hend : AtLineEnd (gap ++ rest))
      (hgap : Trivia gap rest) :
      Trivia ('#' :: body ++ gap) rest

/-- A text that starts at `place`, cut into gaps and tokens. Behind the last gap the input ends. -/
inductive Layout : Position → List Char → List Token → Prop where
  | finish {place : Position} {gap : List Char} (htrivia : Trivia gap []) :
      Layout place gap [.endOfInput (place.afterText gap)]
  | token {place : Position} {gap piece rest : List Char} {kind : Kind} {tokens : List Token}
      (htrivia : Trivia gap (piece ++ rest)) (hpiece : piece ≠ [])
      (hread : Spells piece kind ∨ kind = .invalid ∧ ∃ fault, Broken (piece ++ rest) piece fault)
      (hrest : Layout (place.afterText (gap ++ piece)) rest tokens) :
      Layout place (gap ++ piece ++ rest) (⟨kind, String.ofList piece, place.afterText gap⟩ :: tokens)

/-! ### Gaps -/

/-- What is skipped before a token is a gap, and from within a comment it is the rest of the comment
and a gap. -/
theorem skipTrivia_eq_append (text : List Char) :
    ∀ place : Position,
      (∃ gap rest, skipTrivia false place text = (place.afterText gap, rest) ∧ text = gap ++ rest ∧
        Trivia gap rest) ∧
      ∃ body gap rest, skipTrivia true place text = (place.afterText (body ++ gap), rest) ∧
        text = body ++ (gap ++ rest) ∧
        '\n' ∉ body ∧ AtLineEnd (gap ++ rest) ∧ Trivia gap rest := by
  induction text with
  | nil => exact fun place => ⟨⟨[], [], rfl, rfl, .nil⟩, [], [], [], rfl, rfl, by simp, .inl rfl, .nil⟩
  | cons c text ih =>
    intro place
    obtain ⟨⟨gap, rest, hskip, hsplit, hgap⟩, body, gap', rest', hskip', hsplit', hline, hend,
        hgap'⟩ := ih (place.after c)
    constructor
    · by_cases hcomment : c = '#'
      · subst hcomment
        exact ⟨'#' :: body ++ gap', rest', by simp [skipTrivia, hskip'], by simp [hsplit'],
          .comment hline hend hgap'⟩
      · by_cases hblank : isBlank c = true
        · exact ⟨c :: gap, rest, by simp [skipTrivia, hcomment, hblank, hskip], by simp [hsplit],
            .blank hblank hgap⟩
        · exact ⟨[], c :: text, by simp [skipTrivia, hcomment, hblank], rfl, .nil⟩
    · by_cases hbreak : c = '\n'
      · subst hbreak
        refine ⟨[], '\n' :: gap, rest, by simp [skipTrivia, hskip], by simp [hsplit], by simp, .inr rfl, ?_⟩
        exact .blank (by decide) hgap
      · have hne : (c != '\n') = true := by simpa using hbreak
        exact ⟨c :: body, gap', rest', by simp [skipTrivia, hne, hskip'], by simp [hsplit'],
          by simp [hline, Ne.symm hbreak], hend, hgap'⟩

/-- Behind the blanks and comments stands no blank, and no other comment starts. -/
theorem first_ne_of_skipTrivia {inComment : Bool} {place after : Position} {text rest : List Char} {c : Char}
    (hskip : skipTrivia inComment place text = (after, c :: rest)) : isBlank c = false ∧ c ≠ '#' := by
  induction text generalizing inComment place with
  | nil => simp [skipTrivia] at hskip
  | cons d text ih =>
    unfold skipTrivia at hskip
    split at hskip
    · exact ih hskip
    split at hskip
    · exact ih hskip
    split at hskip
    · exact ih hskip
    · next hcomment hblank =>
      cases hskip
      exact ⟨by simpa using hblank, hcomment⟩

/-! ### Reading lays the tokens out -/

theorem Broken.ne_nil {text piece : List Char} {fault : LexicalFault}
    (hbroken : Broken text piece fault) : piece ≠ [] := by
  cases hbroken <;> simp

namespace Lexer

/-- `next` hands out exactly these tokens, one after the other, and then nothing. -/
inductive Yields : Lexer → List Token → Prop where
  | stop {lexer : Lexer} (hnext : lexer.next.1 = none) : Yields lexer []
  | hand {lexer : Lexer} {token : Token} {tokens : List Token} (hnext : lexer.next.1 = some token)
      (hrest : Yields lexer.next.2 tokens) : Yields lexer (token :: tokens)

/-- The next token is a piece behind a gap, and reading goes on behind the piece. An invalid one is
reported. -/
structure Takes (lexer : Lexer) (gap piece : List Char) (kind : Kind) : Prop where
  text_eq : lexer.text = gap ++ piece ++ lexer.nextToken.2.text
  place_eq : lexer.nextToken.2.place = lexer.place.afterText (gap ++ piece)
  token_eq : lexer.nextToken.1 = ⟨kind, String.ofList piece, lexer.place.afterText gap⟩
  trivia : Trivia gap (piece ++ lexer.nextToken.2.text)
  piece_ne_nil : piece ≠ []
  not_blank : ∀ c ∈ piece.head?, isBlank c = false
  read : Spells piece kind ∧ lexer.nextToken.2.queued = lexer.queued ∨
    kind = .invalid ∧ ∃ fault, Broken (piece ++ lexer.nextToken.2.text) piece fault ∧
      lexer.nextToken.2.queued = lexer.queued.push (fault.report lexer.nextToken.1)

/-- The next token is the end of the input, and reading goes on there. -/
structure Finishes (lexer : Lexer) : Prop where
  trivia : Trivia lexer.text []
  token_eq : lexer.nextToken.1 = .endOfInput (lexer.place.afterText lexer.text)
  text_eq : lexer.nextToken.2.text = []
  place_eq : lexer.nextToken.2.place = lexer.place.afterText lexer.text
  queued_eq : lexer.nextToken.2.queued = lexer.queued

theorem nextToken_cases (lexer : Lexer) :
    lexer.Finishes ∨ ∃ gap piece kind, kind ≠ .endOfInput ∧ lexer.Takes gap piece kind := by
  obtain ⟨⟨gap, rest, hskip, hsplit, hgap⟩, _⟩ := skipTrivia_eq_append lexer.text lexer.place
  cases rest with
  | nil =>
    left
    rw [List.append_nil] at hsplit
    subst hsplit
    exact ⟨hgap, by simp [nextToken, hskip], by simp [nextToken, hskip], by
      simp [nextToken, hskip], by simp [nextToken, hskip]⟩
  | cons first rest =>
    right
    obtain ⟨hblank, _⟩ := first_ne_of_skipTrivia hskip
    obtain ⟨piece, after, hpiece, rfl, hplace, _, hread⟩ := nextToken_of_trivia hskip
    have hfirst : ∀ c ∈ piece.head?, isBlank c = false := by
      intro c hc
      obtain ⟨tail, rfl⟩ := List.head?_eq_some_iff.1 hc
      cases hpiece
      exact hblank
    rw [hpiece] at hsplit hgap hread
    rw [← Position.afterText_append] at hplace
    rw [← List.append_assoc] at hsplit
    rcases hread with ⟨kind, htoken, hqueued, hspells, _⟩ | ⟨fault, htoken, hqueued, hbroken, _⟩
    · exact ⟨gap, piece, kind, hspells.kind_ne.2, hsplit, hplace, htoken, hgap, hspells.ne_nil,
        hfirst, .inl ⟨hspells, hqueued⟩⟩
    · exact ⟨gap, piece, .invalid, by simp, hsplit, hplace, htoken, hgap, hbroken.ne_nil, hfirst,
        .inr ⟨rfl, fault, hbroken, hqueued⟩⟩

/-- What was read is a piece of a layout. -/
theorem Takes.spells_or_broken {lexer : Lexer} {gap piece : List Char} {kind : Kind}
    (htakes : lexer.Takes gap piece kind) :
    Spells piece kind ∨ kind = .invalid ∧ ∃ fault, Broken (piece ++ lexer.nextToken.2.text) piece fault := by
  obtain ⟨hspells, _⟩ | ⟨hkind, fault, hbroken, _⟩ := htakes.read
  · exact .inl hspells
  · exact .inr ⟨hkind, fault, hbroken⟩

theorem next_of_not_finished {lexer : Lexer} (hfinished : lexer.finished = false) :
    lexer.next = (some lexer.nextToken.1,
      { lexer.nextToken.2 with finished := lexer.nextToken.1.isEnd }) := by
  simp [next, hfinished]

theorem next_of_finished {lexer : Lexer} (hfinished : lexer.finished = true) :
    lexer.next = (none, lexer) := by
  simp [next, hfinished]

theorem collect_of_none {lexer : Lexer} (hnext : lexer.next.1 = none) (tokens : Array Token) :
    lexer.collect tokens = (tokens, lexer.next.2) := by
  rw [collect]
  split
  · next after heq => rw [heq]
  · next token after heq => simp [heq] at hnext

theorem collect_of_some {lexer : Lexer} {token : Token} (hnext : lexer.next.1 = some token)
    (tokens : Array Token) :
    lexer.collect tokens = lexer.next.2.collect (tokens.push token) := by
  rw [collect]
  split
  · next after heq => simp [heq] at hnext
  · next token' after heq =>
    simp only [heq, Option.some.injEq] at hnext ⊢
    rw [hnext]

theorem Yields.collect {lexer : Lexer} {more : List Token} (hyields : lexer.Yields more)
    (tokens : Array Token) :
    (lexer.collect tokens).1.toList = tokens.toList ++ more := by
  induction hyields generalizing tokens with
  | stop hnext => simp [collect_of_none hnext]
  | hand hnext _ ih => simp [collect_of_some hnext, ih]

/-- What is handed out lies in the text as a layout. The text left gets shorter with each token, so
the end comes. -/
theorem exists_yields_layout (lexer : Lexer) (hfinished : lexer.finished = false) :
    ∃ tokens, lexer.Yields tokens ∧ Layout lexer.place lexer.text tokens := by
  obtain hfinishes | ⟨gap, piece, kind, hkind, htakes⟩ := lexer.nextToken_cases
  · have htoken := hfinishes.token_eq
    have hnext := next_of_not_finished hfinished
    refine ⟨_, .hand (by rw [hnext, htoken]) (.stop ?_), .finish hfinishes.trivia⟩
    rw [hnext, htoken]
    exact congrArg Prod.fst (next_of_finished rfl)
  · have hend : lexer.nextToken.1.isEnd = false := by
      rw [htakes.token_eq]
      simpa [Token.isEnd] using hkind
    have hnext := next_of_not_finished hfinished
    rw [hend] at hnext
    have hshorter := nextToken_text_lt hend
    obtain ⟨tokens, hyields, hlayout⟩ := exists_yields_layout { lexer.nextToken.2 with finished := false } rfl
    refine ⟨_, .hand (by rw [hnext, htakes.token_eq]) (by rwa [hnext]), ?_⟩
    rw [htakes.text_eq]
    rw [htakes.place_eq] at hlayout
    exact .token htakes.trivia htakes.piece_ne_nil htakes.spells_or_broken hlayout
termination_by lexer.text.length

/-! ### Reading strictly -/

theorem collectValid_of_end {lexer : Lexer} (hend : lexer.nextToken.1.isEnd = true) (tokens : Array Token) :
    lexer.collectValid tokens = .ok (tokens.push lexer.nextToken.1) := by
  have hkind : lexer.nextToken.1.kind ≠ .invalid := by
    rw [beq_iff_eq.1 hend]
    simp
  rw [collectValid]
  simp [hkind, hend]

theorem collectValid_of_live {lexer : Lexer} (hkind : lexer.nextToken.1.kind ≠ .invalid)
    (hlive : lexer.nextToken.1.isEnd = false) (tokens : Array Token) :
    lexer.collectValid tokens = lexer.nextToken.2.collectValid (tokens.push lexer.nextToken.1) := by
  rw [collectValid]
  simp [hkind, hlive]

theorem collectValid_of_reported {lexer : Lexer} {diagnostic : Diagnostic}
    (hkind : lexer.nextToken.1.kind = .invalid)
    (hqueued : lexer.nextToken.2.queued = lexer.queued.push diagnostic) (tokens : Array Token) :
    ∃ reported ∈ lexer.nextToken.2.queued, lexer.collectValid tokens = .error reported := by
  have hpos : 0 < lexer.nextToken.2.queued.size := by simp [hqueued]
  refine ⟨_, Array.getElem_mem hpos, ?_⟩
  rw [collectValid]
  simp [hkind, hpos]

/-- What is read strictly lies in the text as a layout as well, and all of it is valid. -/
theorem layout_of_collectValid {lexer : Lexer} {tokens result : Array Token}
    (hok : lexer.collectValid tokens = .ok result) :
    ∃ more, result = tokens ++ more.toArray ∧ Layout lexer.place lexer.text more ∧
      ∀ token ∈ more, token.kind ≠ .invalid := by
  obtain hfinishes | ⟨gap, piece, kind, hkind, htakes⟩ := lexer.nextToken_cases
  · rw [collectValid_of_end (by rw [hfinishes.token_eq]; rfl), hfinishes.token_eq] at hok
    cases hok
    exact ⟨_, by simp, .finish hfinishes.trivia, by simp⟩
  · have hlive : lexer.nextToken.1.isEnd = false := by
      rw [htakes.token_eq]
      simpa [Token.isEnd] using hkind
    obtain ⟨hspells, _⟩ | ⟨hinvalid, fault, _, hqueued⟩ := htakes.read
    · have hkind' : lexer.nextToken.1.kind ≠ .invalid := by
        rw [htakes.token_eq]
        exact hspells.kind_ne.1
      rw [collectValid_of_live hkind' hlive] at hok
      have hshorter := nextToken_text_lt hlive
      obtain ⟨more, rfl, hlayout, hall⟩ := layout_of_collectValid hok
      refine ⟨lexer.nextToken.1 :: more, by simp, ?_, List.forall_mem_cons.2 ⟨hkind', hall⟩⟩
      rw [htakes.text_eq, htakes.token_eq]
      rw [htakes.place_eq] at hlayout
      exact .token htakes.trivia htakes.piece_ne_nil htakes.spells_or_broken hlayout
    · obtain ⟨reported, _, herror⟩ :=
        collectValid_of_reported (by rw [htakes.token_eq, hinvalid]) hqueued tokens
      rw [herror] at hok
      cases hok
termination_by lexer.text.length

end Lexer

/-- The tokens of a source are the ones that `next` hands out, and lie in the source as a layout. -/
theorem scan_yields_layout (source : String) :
    (Lexer.ofSource source).Yields (scan source).1 ∧ Layout .start source.toList (scan source).1 := by
  obtain ⟨tokens, hyields, hlayout⟩ := (Lexer.ofSource source).exists_yields_layout rfl
  have hscan : (scan source).1 = tokens := hyields.collect #[]
  rw [hscan]
  exact ⟨hyields, hlayout⟩

/-! ### Spans -/

theorem utf8ByteSize_cons (c : Char) (text : List Char) :
    (String.ofList (c :: text)).utf8ByteSize = c.utf8Size + (String.ofList text).utf8ByteSize := by
  rw [← List.singleton_append, String.ofList_append, String.utf8ByteSize_append]
  simp

theorem utf8ByteSize_append (before after : List Char) :
    (String.ofList (before ++ after)).utf8ByteSize =
      (String.ofList before).utf8ByteSize + (String.ofList after).utf8ByteSize := by
  rw [String.ofList_append, String.utf8ByteSize_append]

theorem Position.offset_afterText (place : Position) (text : List Char) :
    (place.afterText text).offset = place.offset + (String.ofList text).utf8ByteSize := by
  induction text generalizing place with
  | nil => simp
  | cons c rest ih =>
    have hafter : (place.after c).offset = place.offset + c.utf8Size := by
      unfold after
      split <;> rfl
    rw [afterText_cons, ih, hafter, utf8ByteSize_cons]
    omega

/-- Behind a text the bytes counted are those before it and its own. -/
theorem Position.offset_afterText_of_eq {place : Position} {before : String}
    (hplace : place.offset = before.utf8ByteSize) (text : List Char) :
    (place.afterText text).offset = (before ++ String.ofList text).utf8ByteSize := by
  rw [offset_afterText, hplace, String.utf8ByteSize_append]

/-- `piece` is what the span cuts out of the source, from the front of one character to the front of
another. -/
def IsSlice (source : String) (span : Span) (piece : String) : Prop :=
  ∃ before after, source = before ++ piece ++ after ∧
    span = ⟨before.utf8ByteSize, (before ++ piece).utf8ByteSize⟩

/-- `gap` is what the span cuts out of the source, and is made of blanks and comments. -/
def IsGap (source : String) (span : Span) (gap : String) : Prop :=
  ∃ before after, source = before ++ gap ++ after ∧
    span = ⟨before.utf8ByteSize, (before ++ gap).utf8ByteSize⟩ ∧ Trivia gap.toList after.toList

/-- The tokens cut the source into gaps and texts of tokens. -/
structure IsPartition (source : String) (tokens : List Token) : Prop where
  /-- There is at most one token more than there are characters. -/
  length_le : tokens.length ≤ source.length + 1
  slice : ∀ token ∈ tokens, IsSlice source token.span token.lexeme
  /-- Only the last token may be empty, and spans are in order and do not overlap. -/
  chain : tokens.IsChain fun token next => token.span.start < token.span.stop ∧ token.span.stop ≤
    next.span.start
  last : ∃ tokens' place, tokens = tokens' ++ [.endOfInput place] ∧
    (Token.endOfInput place).span = ⟨source.utf8ByteSize, source.utf8ByteSize⟩ ∧
    ∀ token ∈ tokens', token.isEnd = false ∧ token.lexeme ≠ ""
  /-- The gaps reach from the end of one token, or the front of the source, to the next token. -/
  gaps : ∃ gaps : List String, gaps.length = tokens.length ∧
    source = String.join (List.zipWith (fun gap token => gap ++ token.lexeme) gaps tokens) ∧
    ∀ (i stop : Nat) (token : Token) (gap : String), (0 :: tokens.map (·.span.stop))[i]? = some stop →
      tokens[i]? = some token → gaps[i]? = some gap → IsGap source ⟨stop, token.span.start⟩ gap

namespace Layout

variable {place : Position} {text : List Char} {tokens : List Token}

theorem length_le (hlayout : Layout place text tokens) : tokens.length ≤ text.length + 1 := by
  induction hlayout with
  | finish => simp
  | token _ hpiece _ _ ih =>
    have hpos := List.length_pos_iff.2 hpiece
    simp only [List.length_cons, List.length_append]
    omega

theorem slice (hlayout : Layout place text tokens) : ∀ before : String, place.offset = before.utf8ByteSize →
    ∀ token ∈ tokens, IsSlice (before ++ String.ofList text) token.span token.lexeme := by
  induction hlayout with
  | @finish place gap =>
    intro before hplace token hmem
    rw [List.mem_singleton.1 hmem]
    refine ⟨before ++ String.ofList gap, "", by simp [Token.endOfInput], ?_⟩
    simp [Token.span, Token.endOfInput, Position.offset_afterText, hplace]
  | @token place gap piece rest kind tokens _ _ _ _ ih =>
    intro before hplace token hmem
    rcases List.mem_cons.1 hmem with rfl | hmem
    · refine ⟨before ++ String.ofList gap,
        String.ofList rest, by simp [String.append_assoc, String.ofList_append], ?_⟩
      simp [Token.span, Position.offset_afterText, hplace]
    · have hslice := ih (before ++ String.ofList (gap ++ piece))
        (Position.offset_afterText_of_eq hplace _) token hmem
      simpa [String.append_assoc, String.ofList_append] using hslice

theorem le_start (hlayout : Layout place text tokens) :
    ∀ token ∈ tokens, place.offset ≤ token.span.start := by
  induction hlayout with
  | finish => simp [Token.span, Token.endOfInput, Position.offset_afterText]
  | token _ _ _ _ ih =>
    intro token hmem
    rcases List.mem_cons.1 hmem with rfl | hmem
    · simp [Token.span, Position.offset_afterText]
    · have hle := ih token hmem
      rw [Position.offset_afterText] at hle
      omega

theorem utf8ByteSize_pos {piece : List Char} (hpiece : piece ≠ []) :
    0 < (String.ofList piece).utf8ByteSize := by
  have hne : String.ofList piece ≠ "" := by simpa using hpiece
  exact Nat.pos_of_ne_zero (mt String.utf8ByteSize_eq_zero_iff.1 hne)

theorem chain (hlayout : Layout place text tokens) :
    tokens.IsChain fun token next => token.span.start < token.span.stop ∧ token.span.stop ≤
      next.span.start := by
  induction hlayout with
  | finish => exact .singleton _
  | @token place gap piece rest kind tokens _ hpiece _ hrest ih =>
    cases tokens with
    | nil => exact .singleton _
    | cons next tokens =>
      have hpos := utf8ByteSize_pos hpiece
      have hle := hrest.le_start next (by simp)
      rw [Position.offset_afterText, String.ofList_append, String.utf8ByteSize_append] at hle
      refine .cons_cons ?_ ih
      simp only [Token.span, Position.offset_afterText] at hle ⊢
      omega

theorem last (hlayout : Layout place text tokens) :
    ∀ before : String, place.offset = before.utf8ByteSize →
      ∃ tokens' place', tokens = tokens' ++ [.endOfInput place'] ∧
        (Token.endOfInput place').span =
          ⟨(before ++ String.ofList text).utf8ByteSize, (before ++ String.ofList text).utf8ByteSize⟩ ∧
        ∀ token ∈ tokens', token.isEnd = false ∧ token.lexeme ≠ "" := by
  induction hlayout with
  | @finish place gap =>
    intro before hplace
    refine ⟨[], place.afterText gap, rfl, ?_, by simp⟩
    simp [Token.span, Token.endOfInput, Position.offset_afterText, hplace]
  | @token place gap piece rest kind tokens _ hpiece hread _ ih =>
    intro before hplace
    obtain ⟨tokens', place', rfl, hspan, hall⟩ :=
      ih (before ++ String.ofList (gap ++ piece)) (Position.offset_afterText_of_eq hplace _)
    refine ⟨_ :: tokens', place',
      rfl, by simpa [String.append_assoc, String.ofList_append] using hspan, fun token hmem => ?_⟩
    rcases List.mem_cons.1 hmem with rfl | hmem
    · have hkind : kind ≠ .endOfInput := by
        rcases hread with hspells | ⟨rfl, _⟩
        · exact hspells.kind_ne.2
        · simp
      exact ⟨by simpa [Token.isEnd] using hkind, by simpa using hpiece⟩
    · exact hall token hmem

theorem gaps (hlayout : Layout place text tokens) :
    ∀ before : String, place.offset = before.utf8ByteSize →
      ∃ gaps : List String, gaps.length = tokens.length ∧
        String.ofList text = String.join
          (List.zipWith (fun gap (token : Token) => gap ++ token.lexeme) gaps tokens) ∧
        ∀ (i stop : Nat) (token : Token) (gap : String),
          (before.utf8ByteSize :: tokens.map (·.span.stop))[i]? = some stop → tokens[i]? = some token →
          gaps[i]? = some gap → IsGap (before ++ String.ofList text) ⟨stop, token.span.start⟩ gap := by
  induction hlayout with
  | @finish place gap htrivia =>
    intro before hplace
    refine ⟨[String.ofList gap], rfl, by simp [Token.endOfInput],
      fun i stop token gap' hstop htoken hgap => ?_⟩
    cases i with
    | zero =>
      cases hstop
      cases htoken
      cases hgap
      exact ⟨before, "", by simp, by
        simp [Token.span, Token.endOfInput, Position.offset_afterText, hplace], by simpa⟩
    | succ i => simp at htoken
  | @token place gap piece rest kind tokens htrivia _ _ _ ih =>
    intro before hplace
    have hplace' := Position.offset_afterText_of_eq hplace (gap ++ piece)
    obtain ⟨gaps, hlength, hjoin, hgaps⟩ := ih _ hplace'
    refine ⟨String.ofList gap :: gaps, by simp [hlength], ?_, fun i stop token gap' hstop htoken hgap => ?_⟩
    · simp only [List.zipWith_cons_cons, String.join_cons, ← hjoin, String.ofList_append]
    · cases i with
      | zero =>
        cases hstop
        cases htoken
        cases hgap
        refine ⟨before, String.ofList (piece ++ rest), by
          simp [String.append_assoc, String.ofList_append], ?_, by simpa⟩
        simp [Token.span, Position.offset_afterText, hplace]
      | succ i =>
        have hend : ((before ++ String.ofList (gap ++ piece)).utf8ByteSize :: tokens.map
            (·.span.stop))[i]? = some stop := by
          cases i with
          | zero =>
            cases hstop
            simp [Token.span, Position.offset_afterText, hplace, String.ofList_append, Nat.add_assoc]
          | succ i => simpa using hstop
        have hgap' := hgaps i stop token gap' hend htoken hgap
        simpa only [String.append_assoc, String.ofList_append] using hgap'

end Layout

/-- Reading a source into tokens loses nothing: what `next` hands out one after the other is finite,
is what `scan` gives, and cuts the source into gaps and texts of tokens. -/
theorem scan_isPartition (source : String) :
    (Lexer.ofSource source).Yields (scan source).1 ∧ IsPartition source (scan source).1 := by
  obtain ⟨hyields, hlayout⟩ := scan_yields_layout source
  have hsource : "" ++ String.ofList source.toList = source := by simp
  have hslice := hlayout.slice "" rfl
  have hlast := hlayout.last "" rfl
  have hgaps := hlayout.gaps "" rfl
  rw [hsource] at hslice hlast hgaps
  rw [String.ofList_toList] at hgaps
  have hlength := hlayout.length_le
  rw [String.length_toList] at hlength
  exact ⟨hyields, hlength, hslice, hlayout.chain, hlast, hgaps⟩

end ObsidianSyntax
