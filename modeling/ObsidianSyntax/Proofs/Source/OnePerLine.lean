import ObsidianSyntax.Proofs.Print.Spacing
import ObsidianSyntax.Proofs.Source.SameTokens
import ObsidianSyntax.Proofs.Token.LineLocal

/-!
# One token on each line

How far a token goes is decided with a look at what stands behind it: a second character may belong
to a mark, a digit behind the point makes the point part of a number, a quote closes a literal, and
an invalid piece ends where something else was found. None of these decisions changes when the piece
stands alone. So the texts of the tokens of a source, one in a line, are read as the same tokens
again, invalid ones and their diagnostics included.
-/

namespace ObsidianSyntax

/-! ### Pieces with nothing behind them -/

theorem Spells.read_alone {first : Char} {tail : List Char} {kind : Kind}
    (hspells : Spells (first :: tail) kind) :
    Lexeme.read first tail = ⟨(first :: tail).length, .ok kind⟩ := by
  have hread := Lexeme.read_describes first tail
  generalize Lexeme.read first tail = lexeme at hread ⊢
  obtain ⟨length, verdict⟩ := lexeme
  cases verdict with
  | error fault =>
    obtain ⟨_, _, _, _, hnone⟩ := hread
    exact absurd ⟨kind, hspells⟩ (hnone _ (List.prefix_refl _))
  | ok kind' =>
    obtain ⟨piece, hpiece, hlength, hspells', hlongest⟩ := hread
    have hfront : piece <+: first :: tail := hpiece ▸ List.take_prefix _ _
    obtain rfl := hfront.eq_of_length_le (hlongest _ (List.prefix_refl _) ⟨kind, hspells⟩)
    obtain rfl := hspells.kind_unique hspells'
    rw [hlength]

theorem Broken.read_alone {text tail : List Char} {first : Char} {fault : LexicalFault}
    (hbroken : Broken text (first :: tail) fault)
    (hnone : ∀ other, other <+: text → ¬ IsToken other) :
    Lexeme.read first tail = ⟨(first :: tail).length, .error fault⟩ := by
  generalize hpiece : first :: tail = piece at hbroken
  cases hbroken with
  | @unexpected c rest hstring hchar =>
    cases hpiece
    have hread := Lexeme.read_describes first []
    generalize Lexeme.read first [] = lexeme at hread ⊢
    obtain ⟨length, verdict⟩ := lexeme
    cases verdict with
    | ok kind =>
      obtain ⟨piece, rfl, _, hspells, _⟩ := hread
      exact absurd ⟨kind, hspells⟩ (hnone _ ((List.take_prefix _ _).trans ⟨rest, rfl⟩))
    | error fault =>
      obtain ⟨piece, hpiece, hlength, hbroken, _⟩ := hread
      have hfront : piece <+: [first] := hpiece ▸ List.take_prefix _ _
      obtain rfl := hfront.eq_of_length_le (List.length_pos_iff.2 hbroken.ne_nil)
      have hfault := hbroken.ofPiece?_eq
      simp only [LexicalFault.ofPiece?, hstring, hchar, if_false, Option.some.injEq] at hfault
      rw [hfault, hlength]
  | emptyChar =>
    cases hpiece
    rfl
  | @openString body rest hline hend =>
    cases hpiece
    obtain ⟨body, more, hbody, rfl, _⟩ | ⟨body, more, _, hmore, rfl, hread⟩ := stringEnd_cases tail 1
    · refine absurd ⟨_, .string hbody⟩ (hnone _ ⟨more ++ rest, ?_⟩)
      simp
    · obtain rfl : more = [] := by
        obtain hnil | hnewline := hmore
        · exact hnil
        · exact absurd (List.mem_append_right body (List.mem_of_mem_head? hnewline)) hline
      rw [Lexeme.read, if_pos rfl, Lexeme.ofString, hread]
      simp
      omega
  | openChar hend =>
    cases hpiece
    rfl
  | openPair hend =>
    cases hpiece
    rfl
  | @openItem item rest hitem hquote =>
    cases hpiece
    have hread := hitem.ofChar []
    rw [List.append_nil] at hread
    rw [Lexeme.read, if_neg (by decide), if_pos rfl, hread]
    simp [Lexeme.closeChar]
    omega

theorem Lexeme.read_alone {first : Char} {rest tail : List Char}
    (hpiece : (first :: rest).take (read first rest).length = first :: tail) :
    read first tail = read first rest := by
  obtain ⟨hlength, ⟨kind, hverdict, _, hspells⟩ | ⟨fault, hverdict, _, hbroken, hnone⟩⟩ :=
    read_cases first rest hpiece
  · rw [hspells.read_alone, hlength, ← hverdict]
  · rw [hbroken.read_alone hnone, hlength, ← hverdict]

namespace Token

/-- The text of the token, wherever it starts, is that token and nothing more. -/
def StandsAlone (token : Token) : Prop :=
  ∀ place, tokensOf place token.lexeme.toList =
    [{ token with place }, .endOfInput (place.afterText token.lexeme.toList)]

end Token

/-- Whatever stood around a token, its text alone is read as that token. -/
theorem standsAlone_of_mem_tokensOf (place : Position) (text : List Char) :
    ∀ token ∈ tokensOf place text, token.isEnd = false → token.StandsAlone := by
  match hskip : skipTrivia false place text with
  | (stop, []) =>
    rw [tokensOf_of_nil hskip, List.forall_mem_singleton]
    exact fun hlive => absurd hlive (by simp)
  | (start, first :: rest) =>
    rw [tokensOf_of_cons hskip, List.forall_mem_cons]
    refine ⟨fun _ place' => ?_, standsAlone_of_mem_tokensOf _ _⟩
    have hpos := Lexeme.length_read_pos first rest
    obtain ⟨tail, hpiece⟩ : ∃ tail, (first :: rest).take (Lexeme.read first rest).length = first :: tail := by
      obtain ⟨more, hmore⟩ := Nat.exists_eq_succ_of_ne_zero hpos.ne'
      exact ⟨rest.take more, by rw [hmore, List.take_succ_cons]⟩
    have hlength := (Lexeme.read_cases first rest hpiece).1
    rw [hpiece, String.toList_ofList,
      tokensOf_of_cons (skipTrivia_of_first_ne (first_ne_of_skipTrivia hskip)),
      Lexeme.read_alone hpiece, ← hlength, List.take_length, List.drop_length]
    exact congrArg _ (tokensOf_of_nil rfl)
termination_by text.length
decreasing_by exact length_drop_read_lt hskip

/-! ### Tokens in lines of their own -/

/-- The texts of the tokens, with a line end between each two. -/
def onePerLine (tokens : List Token) : String := "\n".intercalate (tokens.map Token.lexeme)

theorem content_tokensOf_onePerLine {tokens : List Token}
    (halone : ∀ token ∈ tokens, token.isEnd = false ∧ token.StandsAlone) (place : Position) :
    (tokensOf place (onePerLine tokens).toList).map Token.content = tokens.map Token.content ++
      [(.endOfInput, "")] := by
  induction tokens generalizing place with
  | nil =>
    rw [onePerLine, List.map_nil, String.intercalate_nil, String.toList_empty, tokensOf_of_nil rfl]
    rfl
  | cons token tokens ih =>
    obtain ⟨⟨hlive, hfirst⟩, hrest⟩ := List.forall_mem_cons.1 halone
    cases tokens with
    | nil =>
      rw [onePerLine, List.map_singleton, String.intercalate_singleton, hfirst]
      rfl
    | cons next tokens =>
      have hlines : (onePerLine (token :: next :: tokens)).toList =
          token.lexeme.toList ++ '\n' :: (onePerLine (next :: tokens)).toList := by
        simp [onePerLine]
      have hlive' : ({ token with place } : Token).isEnd = false := hlive
      rw [hlines, tokensOf_append_newline, hfirst, List.map_append, ih hrest]
      simp [hlive', Token.content]

theorem messages_eq_of_content_eq {tokens tokens' : List Token}
    (hsame : tokens.map Token.content = tokens'.map Token.content) :
    (tokens.filterMap Token.lexicalReport?).map Diagnostic.message =
      (tokens'.filterMap Token.lexicalReport?).map Diagnostic.message := by
  let message? (content : Kind × String) : Option String :=
    (if content.1 = .invalid then LexicalFault.ofPiece? content.2.toList else none).map LexicalFault.message
  have hmessage (token : Token) : token.lexicalReport?.map Diagnostic.message = message? token.content := by
    rw [Token.lexicalReport?, Option.map_map]
    rfl
  have hmessages (tokens : List Token) :
      (tokens.filterMap Token.lexicalReport?).map Diagnostic.message =
        (tokens.map Token.content).filterMap message? := by
    rw [List.map_filterMap, List.filterMap_map, funext hmessage]
    rfl
  rw [hmessages, hmessages, hsame]

/-- The tokens of a source are read again from their texts, one in a line: the same kinds and texts
in the same order, invalid ones included, and diagnostics that say the same. Each text alone is that
one token, with the end of the input behind it. -/
theorem scan_onePerLine (source : String) :
    let tokens := (scan source).1.filter fun token => !token.isEnd
    (scan (onePerLine tokens)).1.map Token.content = (scan source).1.map Token.content ∧
    (scan (onePerLine tokens)).2.map Diagnostic.message = (scan source).2.map Diagnostic.message ∧
    ∀ token ∈ tokens, (scan token.lexeme).1.map Token.content = [token.content, (.endOfInput, "")] := by
  intro tokens
  have hsource := scan_eq source
  have halone : ∀ token ∈ tokens, token.isEnd = false ∧ token.StandsAlone := by
    intro token hmem
    obtain ⟨hmem, hlive⟩ := List.mem_filter.1 hmem
    rw [hsource] at hmem
    have hlive : token.isEnd = false := by simpa using hlive
    exact ⟨hlive, standsAlone_of_mem_tokensOf _ _ token hmem hlive⟩
  have hcontent : (scan (onePerLine tokens)).1.map Token.content = (scan source).1.map Token.content := by
    obtain ⟨before, place, htokens, hbefore⟩ := scan_eq_append source
    have hfilter : tokens = before := by
      simp only [tokens, htokens, List.filter_append]
      simpa using fun token hmem => (hbefore token hmem).1
    rw [scan_eq, content_tokensOf_onePerLine halone, hfilter, htokens, List.map_append]
    rfl
  refine ⟨hcontent, ?_, fun token hmem => ?_⟩
  · simp only [scan_eq] at hcontent ⊢
    exact messages_eq_of_content_eq hcontent
  · rw [scan_eq, (halone token hmem).2]
    rfl

end ObsidianSyntax
