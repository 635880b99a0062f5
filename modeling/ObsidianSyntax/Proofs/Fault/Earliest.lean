import ObsidianSyntax.Proofs.Fault.Statements
import ObsidianSyntax.Proofs.Token.Reached
import ObsidianSyntax.Source

/-!
# The first fault is the earliest possible one

A source that is refused for its syntax is refused at the first token that no program can have
there: the tokens before it can be completed to a program, and with it they cannot. Faults about
depth are the exception, as the grammar has no limit on it.
-/

namespace ObsidianSyntax

open Grammar Parse.Graded

/-- The tokens up to the end of the input are a program, however deep it nests. -/
def IsProgram (tokens : List Token) : Prop := ∃ n body, Stmts n (terminals tokens) body

theorem Token.IsSpelled.isEnd_eq_false {token : Token} (hspelled : token.IsSpelled) :
    token.isEnd = false := by
  simpa [Token.isEnd] using hspelled.kind_ne.2

theorem terminals_append {before : List Token} (hlive : ∀ token ∈ before, token.isEnd = false)
    (rest : List Token) :
    terminals (before ++ rest) = before.map Token.terminal ++ terminals rest := by
  induction before with
  | nil => rfl
  | cons token before ih =>
    obtain ⟨hfirst, hlive⟩ := List.forall_mem_cons.1 hlive
    rw [List.cons_append, terminals_cons_of_live hfirst, ih hlive, List.map_cons, List.cons_append]

theorem terminals_of_live {tokens : List Token} (hlive : ∀ token ∈ tokens, token.isEnd = false) :
    terminals tokens = tokens.map Token.terminal := by
  have hnil : terminals [] = [] := rfl
  have hall := terminals_append hlive []
  rwa [List.append_nil, hnil, List.append_nil] at hall

namespace Cursor

theorem reads_iff_append {cursor after : Cursor} {ts : List Terminal} :
    cursor.Reads ts after ↔ ∃ before, cursor.rest = before ++ after.rest ∧ cursor.endToken = after.endToken ∧
      before.map Token.terminal = ts ∧ ∀ token ∈ before, token.isEnd = false := by
  induction ts generalizing cursor with
  | nil =>
    refine ⟨fun hreads => ?_, fun h => ?_⟩
    · obtain rfl := hreads
      exact ⟨[], rfl, rfl, rfl, by simp⟩
    · obtain ⟨before, hrest, hend, hmap, _⟩ := h
      obtain rfl := List.map_eq_nil_iff.1 hmap
      obtain ⟨rest, endToken, _⟩ := cursor
      obtain ⟨rest', endToken', _⟩ := after
      obtain rfl : rest = rest' := hrest
      obtain rfl : endToken = endToken' := hend
      rfl
  | cons t ts ih =>
    obtain ⟨rest, endToken, hend⟩ := cursor
    rw [reads_cons, ih]
    cases rest with
    | nil =>
      refine ⟨fun h => ?_, fun h => ?_⟩
      · exact absurd (h.1.symm.trans hend) (by simp)
      · obtain ⟨before, hrest, _, hmap, _⟩ := h
        obtain ⟨rfl, _⟩ := List.append_eq_nil_iff.1 hrest.symm
        cases hmap
    | cons token rest =>
      have hcurrent : (⟨token :: rest, endToken, hend⟩ : Cursor).current = token := rfl
      rw [hcurrent]
      have hadvance (hlive : token.isEnd = false) :
          (⟨token :: rest, endToken, hend⟩ : Cursor).advance = ⟨rest, endToken, hend⟩ := by
        simp only [advance, hcurrent, hlive]
        rfl
      refine ⟨fun h => ?_, fun h => ?_⟩
      · obtain ⟨hlive, hterminal, before, hrest, hsame, hmap, hall⟩ := h
        rw [hadvance hlive] at hrest hsame
        have hrest' : rest = before ++ after.rest := hrest
        exact ⟨token :: before, congrArg (token :: ·) hrest', hsame, by rw [List.map_cons, hterminal, hmap],
          List.forall_mem_cons.2 ⟨hlive, hall⟩⟩
      · obtain ⟨before, hrest, hsame, hmap, hall⟩ := h
        cases before with
        | nil => cases hmap
        | cons first before =>
          obtain ⟨rfl, hrest'⟩ : token = first ∧ rest = before ++ after.rest := by simpa using hrest
          obtain ⟨hterminal, hmap⟩ : token.terminal = t ∧ before.map Token.terminal = ts := by
            simpa using hmap
          obtain ⟨hlive, hall⟩ := List.forall_mem_cons.1 hall
          refine ⟨hlive, hterminal, before, ?_, ?_, hmap, hall⟩
          · rw [hadvance hlive]
            exact hrest'
          · rw [hadvance hlive]
            exact hsame

end Cursor

/-- What is refused behind some tokens is not read from any list that starts with them, however many
levels there are. -/
theorem Parse.Graded.Refuses.ne_ok {α : Type} {parse : Parse.Graded α} {before : List Token}
    {x : Token} {room : Nat} (hrefuses : Refuses parse room (before.map Token.terminal) x.terminal)
    (hgrows : Grows parse) (hlive : ∀ token ∈ before, token.isEnd = false) (more : List Token)
    (n : Nat) (value : α) (after : Cursor) :
    parse n (.ofTokens (before ++ x :: more)) ≠ .ok value after := by
  intro hok
  let middle : Cursor := ⟨x :: more, _, Cursor.isEnd_endOf (before ++ x :: more)⟩
  have hreads : (Cursor.ofTokens (before ++ x :: more)).Reads (before.map Token.terminal) middle :=
    Cursor.reads_iff_append.2 ⟨before, rfl, rfl, rfl, hlive⟩
  have hok' := hgrows n (max n room) (Nat.le_max_left n room) _ _ _ hok
  exact hrefuses (max n room) (Nat.le_max_right n room) _ middle hreads rfl value after hok'

/-! ### Programs -/

variable {tokens : List Token} {diagnostic : Diagnostic}

theorem isProgram_iff : IsProgram tokens ↔
    ∃ n tree after, Parse.programWith (.withRoom maxDepth n) (.ofTokens tokens) = .ok tree after := by
  have heq (n : Nat) (tree : Tree) :=
    @Parse.programWith_eq_ok _ n (Nested.withRoom_follows maxDepth n) tokens tree
  refine ⟨fun h => ?_, fun h => ?_⟩
  · obtain ⟨n, body, hstmts⟩ := h
    obtain ⟨after, hok⟩ := (heq n _).2 ⟨body, hstmts, rfl⟩
    exact ⟨n, _, after, hok⟩
  · obtain ⟨n, tree, after, hok⟩ := h
    obtain ⟨body, hstmts, _⟩ := (heq n tree).1 ⟨after, hok⟩
    exact ⟨n, body, hstmts⟩

/-- A list of tokens is refused for a fault at one of them or at the end of the input, and the fault
is pinned. -/
theorem exists_pinned_of_parseTokens
    (hnamed : ∀ token ∈ tokens, token.kind = .identifier → token.lexeme ≠ "")
    (herror : parseTokens tokens = .error diagnostic) :
    ∃ fault ts, diagnostic = fault.report ∧
      Pinned (fun room => Parse.programWith (.withRoom maxDepth room)) (· = .endOfInput)
        maxDepth maxDepth (.ofTokens tokens) fault ts := by
  unfold parseTokens at herror
  rw [Parse.program_eq_programWith] at herror
  cases hresult : Parse.programWith (.withRoom maxDepth maxDepth) (.ofTokens tokens) with
  | ok tree after => simp [hresult] at herror
  | error fault after =>
    obtain rfl : fault.report = diagnostic := by simpa [hresult] using herror
    obtain ⟨ts, hpinned⟩ := (programWith_pinpoints maxDepth maxDepth).pinpointsAt _
      (.ofTokens tokens) hnamed rfl fault after hresult
    exact ⟨fault, ts, rfl, hpinned⟩

theorem isProgram_of_completes {before : List Token} (hlive : ∀ token ∈ before, token.isEnd = false)
    (hcompletes : Completes (fun room => Parse.programWith (.withRoom maxDepth room)) (· = .endOfInput)
      (before.map Token.terminal)) :
    ∃ more : List Token, (∀ token ∈ more, token.IsSpelled) ∧ IsProgram (before ++ more) := by
  obtain ⟨more, hspelled, tree, enough, hreaches⟩ := hcompletes
  refine ⟨more, hspelled, isProgram_iff.2 ?_⟩
  have hlive' : ∀ token ∈ more, token.isEnd = false := fun token hmem => (hspelled token hmem).isEnd_eq_false
  have hterminals : terminals (before ++ more) = before.map Token.terminal ++ more.map Token.terminal := by
    rw [terminals_append hlive, terminals_of_live hlive']
  obtain ⟨after, hreads, hend⟩ :=
    (Cursor.reads_to_end_iff (before ++ more) _ (Cursor.isEnd_endOf _) _).2 hterminals.symm
  exact ⟨enough, tree, after, hreaches enough (Nat.le_refl _) _ after hreads (beq_iff_eq.1 hend)⟩

theorem not_isProgram_of_refuses {before : List Token} {x : Token} {room : Nat}
    (hlive : ∀ token ∈ before, token.isEnd = false)
    (hrefuses : Refuses (fun room => Parse.programWith (.withRoom maxDepth room)) room
      (before.map Token.terminal) x.terminal) (more : List Token) :
    ¬ IsProgram (before ++ x :: more) := by
  intro hprogram
  obtain ⟨n, tree, after, hok⟩ := isProgram_iff.1 hprogram
  have hgrows : Grows fun room => Parse.programWith (.withRoom maxDepth room) :=
    .of_within fun _ _ hle => Parse.programWith_within (Nested.withRoom_within hle maxDepth maxDepth)
  exact hrefuses.ne_ok hgrows hlive more n tree after hok

/-! ### Sources -/

/-- The tokens of a source without lexical errors end with the end of the input, and only that is empty. -/
theorem tokenize_eq_append {source : String} (hok : tokenize source = .ok tokens) :
    ∃ before place, tokens = before ++ [.endOfInput place] ∧ ∀ token ∈ before, token.isEnd = false ∧
      token.lexeme ≠ "" := by
  unfold tokenize at hok
  cases hresult : (Lexer.ofSource source).collectValid #[] with
  | error diagnostic => simp [hresult, Except.map] at hok
  | ok result =>
    obtain rfl : result.toList = tokens := by simpa [hresult, Except.map] using hok
    obtain ⟨more, hmore, hlayout, _⟩ := Lexer.layout_of_collectValid hresult
    obtain ⟨before, place, rfl, _, hall⟩ := hlayout.last "" rfl
    exact ⟨before, place, by simp [hmore], hall⟩

theorem parseSource_eq_error {source : String} (herror : parseSource source = .error diagnostic) :
    tokenize source = .error diagnostic ∨ ∃ tokens, tokenize source = .ok tokens ∧
      parseTokens tokens = .error diagnostic := by
  unfold parseSource at herror
  cases hresult : tokenize source with
  | error lexical =>
    rw [hresult] at herror
    cases herror
    exact .inl rfl
  | ok tokens =>
    rw [hresult] at herror
    exact .inr ⟨tokens, rfl, herror⟩

theorem kind_eq_lexical_of_tokenize {source : String} (herror : tokenize source = .error diagnostic) :
    diagnostic.kind = .lexical := by
  obtain ⟨_, _, _, fault, _, _, _, rfl⟩ := reports_of_tokenize herror
  rfl

theorem exists_tokens_of_syntactic {source : String}
    (herror : parseSource source = .error diagnostic) (hkind : diagnostic.kind = .syntactic) :
    ∃ tokens, tokenize source = .ok tokens ∧ parseTokens tokens = .error diagnostic := by
  obtain hlexical | hparse := parseSource_eq_error herror
  · have hkind' := kind_eq_lexical_of_tokenize hlexical
    rw [hkind] at hkind'
    cases hkind'
  · exact hparse

theorem isNamed_of_tokenize {source : String} (hok : tokenize source = .ok tokens) :
    (Cursor.ofTokens tokens).IsNamed := by
  obtain ⟨front, place, rfl, hfront⟩ := tokenize_eq_append hok
  intro token hmem hname
  obtain hmem | hmem := List.mem_append.1 hmem
  · exact (hfront token hmem).2
  · rw [List.mem_singleton.1 hmem] at hname
    cases hname

theorem Fault.IsTooDeep.message {fault : Fault} {limit : Nat} (hdeep : fault.IsTooDeep limit) :
    ∃ construct : Construct, fault.report.message = construct.title ++ " nested too deeply" := by
  obtain ⟨construct, hcause⟩ := hdeep
  have hmessage : Cause.message (.tooDeep construct limit) fault.token = construct.title ++
      " nested too deeply" := rfl
  rw [← hcause] at hmessage
  exact ⟨construct, hmessage⟩

/-- A syntax error that is not about depth stands at the first token that cannot be there: the
tokens before it can be completed to a program, and no program starts with them and that token. With
the end of the input for that token, the source itself is none. -/
theorem parseSource_fails_earliest (source : String) (diagnostic : Diagnostic)
    (herror : parseSource source = .error diagnostic) (hkind : diagnostic.kind = .syntactic)
    (hdepth : ∀ construct : Construct, diagnostic.message ≠ construct.title ++ " nested too deeply") :
    ∃ (before : List Token) (x : Token) (after : List Token), tokenize source = .ok (before ++ x :: after) ∧
      (diagnostic.span = x.span ∧ diagnostic.line = x.place.line ∧ diagnostic.column = x.place.column) ∧
      (∀ token ∈ before, token.isEnd = false) ∧
      (∃ more : List Token, (∀ token ∈ more, token.IsSpelled) ∧ IsProgram (before ++ more)) ∧
      ∀ more : List Token, ¬ IsProgram (before ++ x :: more) := by
  obtain ⟨tokens, hok, hparse⟩ := exists_tokens_of_syntactic herror hkind
  obtain ⟨fault, ts, rfl, hpinned⟩ := exists_pinned_of_parseTokens (isNamed_of_tokenize hok) hparse
  obtain ⟨front, place, rfl, hfront⟩ := tokenize_eq_append hok
  have hdeep : ¬ fault.IsTooDeep maxDepth := by
    intro hdeep
    obtain ⟨construct, hmessage⟩ := hdeep.message
    exact hdepth construct hmessage
  obtain ⟨middle, hreads, hmiddle⟩ := hpinned.reads
  obtain ⟨before, hsplit, _, rfl, hlive⟩ := Cursor.reads_iff_append.1 hreads
  cases hrest : middle.rest with
  | nil =>
    have hmem : Token.endOfInput place ∈ before := by
      have hall : front ++ [Token.endOfInput place] = before ++ middle.rest := hsplit
      rw [hrest, List.append_nil] at hall
      rw [← hall]
      simp
    exact absurd (hlive _ hmem) (by simp)
  | cons x after =>
    have hx : fault.token = x := by
      rw [← hmiddle]
      simp [Cursor.current, Cursor.peek, hrest]
    rw [hrest] at hsplit
    have htokens : tokenize source = .ok (before ++ x :: after) := hok.trans (congrArg Except.ok hsplit)
    have hrefuses := (hpinned.earliest.resolve_left hdeep).2
    rw [hx] at hrefuses
    refine ⟨before, x, after, htokens, ?_, hlive, ?_, not_isProgram_of_refuses hlive hrefuses⟩
    · rw [← hx]
      exact ⟨rfl, rfl, rfl⟩
    · exact isProgram_of_completes hlive
        (hpinned.completes (programWith_pinpoints maxDepth maxDepth).toHasSample hdeep)

theorem parseSource_fails_earliest_openSum :
    let diagnostic : Diagnostic :=
      ⟨.syntactic, ⟨9, 10⟩, 1, 10, "Expected expression, found ';'",
        some "'+' needs an expression on both sides"⟩
    parseSource "x = (2 + ;" = .error diagnostic ∧ ∃ (before : List Token) (x : Token) (after : List Token),
      tokenize "x = (2 + ;" = .ok (before ++ x :: after) ∧ diagnostic.span = x.span ∧
        (∃ more : List Token, (∀ token ∈ more, token.IsSpelled) ∧ IsProgram (before ++ more)) ∧
        ∀ more : List Token, ¬ IsProgram (before ++ x :: more) := by
  intro diagnostic
  have htokens : tokenize "x = (2 + ;" = .ok
      [⟨.identifier, "x", ⟨0, 1, 1⟩⟩, ⟨.mark .equal, "=", ⟨2, 1, 3⟩⟩, ⟨.mark .leftParen, "(", ⟨4, 1, 5⟩⟩,
        ⟨.intLiteral, "2", ⟨5, 1, 6⟩⟩, ⟨.mark .plus, "+", ⟨7, 1, 8⟩⟩, ⟨.mark .semicolon, ";", ⟨9, 1, 10⟩⟩,
        .endOfInput ⟨10, 1, 11⟩] := by decide +kernel
  have herror : parseSource "x = (2 + ;" = .error diagnostic := by
    rw [parseSource, htokens]
    rfl
  have hdepth : ∀ construct : Construct, diagnostic.message ≠ construct.title ++ " nested too deeply" := by
    intro construct
    cases construct <;> decide
  obtain ⟨before, x, after, hok, hplace, _, hmore, hnone⟩ :=
    parseSource_fails_earliest _ diagnostic herror rfl hdepth
  exact ⟨herror, before, x, after, hok, hplace.1, hmore, hnone⟩

end ObsidianSyntax
