import ObsidianSyntax.Proofs.Parse.Limits
import ObsidianSyntax.Proofs.Parse.Statements

/-!
# The parser accepts its grammar

The parsers with room for some levels follow the grammar of what nests at most that many levels, by
induction on the room. So the parser of programs gives a tree exactly when the tokens before the end
of the input are statements that nest at most `maxDepth` levels, and the tree is the one that the
grammar has for them.
-/

namespace ObsidianSyntax

open Grammar

/-- The parsers with room for `room` levels read what nests at most that many levels. -/
theorem Nested.withRoom_follows (limit room : Nat) : (withRoom limit room).Follows room := by
  induction room with
  | zero =>
    refine ⟨fun p _ kind cursor _ tree after => ?_, fun kind cursor _ tree after => ?_⟩
    · simp [withRoom, not_expr_zero]
    · simp [withRoom, not_stmt_zero]
  | succ room ih =>
    exact ⟨fun p hp => Parse.expression_accepts ih hp, Parse.statement_accepts ih⟩

/-- The terminals of a program: those of its tokens up to the end of the input. -/
def terminals (tokens : List Token) : List Terminal :=
  (tokens.takeWhile fun token => !token.isEnd).map Token.terminal

theorem terminals_cons_of_isEnd {token : Token} (hend : token.isEnd = true) (rest : List Token) :
    terminals (token :: rest) = [] := by
  simp [terminals, hend]

theorem terminals_cons_of_live {token : Token} (hlive : token.isEnd = false) (rest : List Token) :
    terminals (token :: rest) = token.terminal :: terminals rest := by
  simp [terminals, hlive]

/-- What is read up to the end of the input is the terminals of the tokens before it. -/
theorem Cursor.reads_to_end_iff (tokens : List Token) (endToken : Token) (hendToken : endToken.isEnd = true) :
    ∀ ts, (∃ after, (⟨tokens, endToken, hendToken⟩ : Cursor).Reads ts after ∧ after.current.isEnd = true) ↔
      ts = terminals tokens := by
  induction tokens with
  | nil =>
    intro ts
    cases ts with
    | nil => exact ⟨fun _ => rfl, fun _ => ⟨_, rfl, hendToken⟩⟩
    | cons t ts =>
      refine ⟨fun h => ?_, fun heq => ?_⟩
      · obtain ⟨after, ⟨hlive, _⟩, _⟩ := h
        exact absurd (hlive.symm.trans hendToken) (by simp)
      · cases heq
  | cons token rest ih =>
    intro ts
    have hcurrent : (⟨token :: rest, endToken, hendToken⟩ : Cursor).current = token := rfl
    cases hend : token.isEnd with
    | true =>
      rw [terminals_cons_of_isEnd hend]
      refine ⟨fun h => ?_, fun h => ?_⟩
      · obtain ⟨after, hreads, _⟩ := h
        cases ts with
        | nil => rfl
        | cons t ts => exact absurd (hreads.1.symm.trans (hcurrent ▸ hend)) (by simp)
      · obtain rfl := h
        exact ⟨_, rfl, hcurrent ▸ hend⟩
    | false =>
      have hadvance : (⟨token :: rest, endToken, hendToken⟩ : Cursor).advance =
          ⟨rest, endToken, hendToken⟩ := by
        simp only [advance, hcurrent, hend]
        rfl
      rw [terminals_cons_of_live hend]
      cases ts with
      | nil =>
        refine ⟨fun h => ?_, fun heq => ?_⟩
        · obtain ⟨after, hreads, hafter⟩ := h
          obtain rfl := hreads
          exact absurd (hend.symm.trans (hcurrent ▸ hafter)) (by simp)
        · cases heq
      | cons t ts =>
        rw [List.cons.injEq, ← ih ts]
        refine ⟨fun h => ?_, fun h => ?_⟩
        · obtain ⟨after, ⟨_, hterminal, hreads⟩, hafter⟩ := h
          exact ⟨hterminal.symm, after, hadvance ▸ hreads, hafter⟩
        · obtain ⟨rfl, after, hreads, hafter⟩ := h
          exact ⟨after, ⟨hend, rfl, hadvance ▸ hreads⟩, hafter⟩

namespace Parse

/-- The parser of programs with the parsers for statements left open. -/
def programWith (inner : Nested) : Parse Tree := return .block (← many (fun token => !token.isEnd) inner.stmt)

theorem program_eq_programWith (limit : Nat) : program limit = programWith (.withRoom limit limit) := rfl

theorem programWith_accepts {inner : Nested} {n : Nat} (hinner : inner.Follows n) :
    (programWith inner).Accepts fun ts tree next =>
      ∃ body, (Stmts n ts body ∧ next = .endOfInput) ∧ tree = .block body := by
  let more (kind : Kind) : Bool := !(kind == .endOfInput)
  have hmore : ∀ kind, endsStatements kind = false → more kind = true := by
    intro kind hkind
    simp only [endsStatements, Bool.or_eq_false_iff] at hkind
    simp [more, hkind.2]
  have hmany : (many (fun token => more token.kind) inner.stmt).Accepts _ :=
    Accepts.many (by decide) (consumes_stmt hinner) fun kind _ => hinner.stmt kind
  refine Accepts.congr (hmany.bind fun body => Accepts.pure (Tree.block body)) fun ts tree next => ?_
  rw [Language.andThen_pure]
  simp only [repeats_stmt_iff hmore (by decide), more, Bool.not_eq_false', beq_iff_eq]

theorem programWith_eq_ok {inner : Nested} {n : Nat} (hinner : inner.Follows n)
    {tokens : List Token} {tree : Tree} :
    (∃ after, programWith inner (.ofTokens tokens) = .ok tree after) ↔
      ∃ body, Stmts n (terminals tokens) body ∧ tree = .block body := by
  have hreads := Cursor.reads_to_end_iff tokens (Cursor.endOf tokens) (Cursor.isEnd_endOf tokens)
  have haccepts := programWith_accepts hinner _ (.ofTokens tokens) rfl tree
  refine ⟨fun h => ?_, fun h => ?_⟩
  · obtain ⟨after, hok⟩ := h
    obtain ⟨ts, hts, body, ⟨hstmts, hend⟩, rfl⟩ := (haccepts after).1 hok
    obtain rfl := (hreads ts).1 ⟨after, hts, beq_iff_eq.2 hend⟩
    exact ⟨body, hstmts, rfl⟩
  · obtain ⟨body, hstmts, rfl⟩ := h
    obtain ⟨after, hts, hend⟩ := (hreads _).2 rfl
    exact ⟨after, (haccepts after).2 ⟨_, hts, body, ⟨hstmts, beq_iff_eq.1 hend⟩, rfl⟩⟩

theorem programWith_within {limit : Nat} {inner inner' : Nested} (hinner : inner.Within limit inner') :
    Within limit (programWith inner) (programWith inner') :=
  Within.bind (Within.many _ hinner.stmt) fun _ => .refl _

end Parse

theorem parseTokens_eq_ok_iff {tokens : List Token} {tree : Tree} :
    parseTokens tokens = .ok tree ↔ ∃ body, Stmts maxDepth (terminals tokens) body ∧ tree = .block body := by
  rw [← Parse.programWith_eq_ok (Nested.withRoom_follows maxDepth maxDepth), ← Parse.program_eq_programWith]
  unfold parseTokens
  cases Parse.program maxDepth (.ofTokens tokens) <;> simp

theorem parseTokens_of_program_error {tokens : List Token} {fault : Fault} {after : Cursor}
    (hfault : Parse.program maxDepth (.ofTokens tokens) = .error fault after) :
    parseTokens tokens = .error fault.report := by
  simp [parseTokens, hfault]

/-- A program of any depth is parsed into its tree, or refused for its depth. -/
theorem parseTokens_of_stmts {tokens : List Token} {n : Nat} {body : List Tree}
    (hstmts : Stmts n (terminals tokens) body) :
    parseTokens tokens = .ok (.block body) ∨
      ∃ fault : Fault, fault.IsTooDeep maxDepth ∧ parseTokens tokens = .error fault.report := by
  have hfollows := Nested.withRoom_follows maxDepth n
  obtain ⟨after, hok⟩ := (Parse.programWith_eq_ok hfollows).2 ⟨body, hstmts, rfl⟩
  rw [parseTokens_eq_ok_iff, ← Parse.programWith_eq_ok (Nested.withRoom_follows maxDepth maxDepth)]
  rcases Nat.le_total n maxDepth with hle | hle
  · obtain hsame | ⟨fault, after', hfault, _⟩ :=
      Parse.programWith_within (Nested.withRoom_within hle maxDepth maxDepth) (.ofTokens tokens)
    · exact .inl ⟨after, hsame ▸ hok⟩
    · exact absurd (hok.symm.trans hfault) (by simp)
  · obtain hsame | ⟨fault, after', hfault, hdeep⟩ :=
      Parse.programWith_within (Nested.withRoom_within hle maxDepth maxDepth) (.ofTokens tokens)
    · exact .inl ⟨after, hsame.trans hok⟩
    · exact .inr ⟨fault, hdeep, parseTokens_of_program_error hfault⟩

/-- The parser accepts exactly its grammar and builds the tree of the derivation. It gives a tree
for the tokens of a program that nests at most `maxDepth` levels and for no others, and the tree is
the block of the statements that the grammar has for the tokens. What is a program but nests deeper
is refused for its depth alone. -/
theorem parseTokens_follows_grammar (tokens : List Token) :
    (∀ tree, parseTokens tokens = .ok tree ↔
      ∃ body, Stmts maxDepth (terminals tokens) body ∧ tree = .block body) ∧
    ∀ n body, Stmts n (terminals tokens) body → parseTokens tokens = .ok (.block body) ∨
      ∃ fault : Fault, fault.IsTooDeep maxDepth ∧ parseTokens tokens = .error fault.report :=
  ⟨fun _ => parseTokens_eq_ok_iff, fun _ _ => parseTokens_of_stmts⟩

end ObsidianSyntax
