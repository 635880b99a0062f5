import ObsidianSyntax.Proofs.Token.Layout

/-!
# What a source can make its lexer hand out

The lexers that a source leads to, by whatever calls in whatever order. Every token of a source,
read leniently or strictly, is the next one of such a lexer, and every lexical diagnostic was queued
by one when it gave up a broken piece. So whatever holds of the next token of all of them holds of
all tokens and of all lexical diagnostics.
-/

namespace ObsidianSyntax

namespace Lexer

/-- The lexers that calls lead to from the start of a source. -/
inductive Reached (source : String) : Lexer → Prop where
  | start : Reached source (.ofSource source)
  | nextToken {lexer : Lexer} (hreached : Reached source lexer) : Reached source lexer.nextToken.2
  | next {lexer : Lexer} (hreached : Reached source lexer) : Reached source lexer.next.2
  | takeDiagnostics {lexer : Lexer} (hreached : Reached source lexer) : Reached source lexer.takeDiagnostics.2

/-- The token is the next one of some lexer of the source. -/
def Hands (source : String) (token : Token) : Prop :=
  ∃ lexer, Reached source lexer ∧ lexer.nextToken.1 = token

/-- The diagnostic is about a broken piece that some lexer of the source gave up. -/
def Reports (source : String) (diagnostic : Diagnostic) : Prop :=
  ∃ lexer gap piece fault, Reached source lexer ∧ lexer.Takes gap piece .invalid ∧
    Broken (piece ++ lexer.nextToken.2.text) piece fault ∧ diagnostic = fault.report lexer.nextToken.1

variable {source : String} {lexer : Lexer}

/-- The next token adds to the queue at most the diagnostic about itself. -/
theorem Reached.mem_queued_nextToken (hreached : Reached source lexer) {diagnostic : Diagnostic}
    (hmem : diagnostic ∈ lexer.nextToken.2.queued) :
    diagnostic ∈ lexer.queued ∨ Reports source diagnostic := by
  obtain hfinishes | ⟨gap, piece, kind, _, htakes⟩ := lexer.nextToken_cases
  · rw [hfinishes.queued_eq] at hmem
    exact .inl hmem
  · obtain ⟨_, hqueued⟩ | ⟨rfl, fault, hbroken, hqueued⟩ := htakes.read
    · rw [hqueued] at hmem
      exact .inl hmem
    · rw [hqueued, Array.mem_push] at hmem
      exact hmem.imp_right fun heq => ⟨lexer, gap, piece, fault, hreached, htakes, hbroken, heq⟩

theorem queued_next_cases (lexer : Lexer) :
    lexer.next.2.queued = lexer.queued ∨ lexer.next.2.queued = lexer.nextToken.2.queued := by
  cases hfinished : lexer.finished with
  | true => exact .inl (by rw [next_of_finished hfinished])
  | false => exact .inr (by rw [next_of_not_finished hfinished])

theorem Reached.reports (hreached : Reached source lexer) :
    ∀ diagnostic ∈ lexer.queued, Reports source diagnostic := by
  induction hreached with
  | start => simp [ofSource]
  | nextToken hreached ih =>
    exact fun diagnostic hmem => (hreached.mem_queued_nextToken hmem).elim (ih diagnostic) id
  | @next lexer hreached ih =>
    intro diagnostic hmem
    obtain hqueued | hqueued := lexer.queued_next_cases
    · exact ih diagnostic (hqueued ▸ hmem)
    · rw [hqueued] at hmem
      exact (hreached.mem_queued_nextToken hmem).elim (ih diagnostic) id
  | takeDiagnostics _ _ => simp [Lexer.takeDiagnostics]

theorem Reached.hands (hreached : Reached source lexer) : Hands source lexer.nextToken.1 :=
  ⟨lexer, hreached, rfl⟩

theorem Reached.hands_next (hreached : Reached source lexer) {token : Token}
    (hnext : lexer.next.1 = some token) :
    Hands source token := by
  cases hfinished : lexer.finished with
  | true => simp [next_of_finished hfinished] at hnext
  | false =>
    rw [next_of_not_finished hfinished] at hnext
    cases hnext
    exact hreached.hands

/-! ### Whole sources -/

theorem Reached.collect {lexer : Lexer} (hreached : Reached source lexer) (tokens : Array Token)
    (htokens : ∀ token ∈ tokens, Hands source token) :
    (∀ token ∈ (lexer.collect tokens).1, Hands source token) ∧ Reached source (lexer.collect tokens).2 := by
  cases hnext : lexer.next.1 with
  | none =>
    rw [collect_of_none hnext]
    exact ⟨htokens, hreached.next⟩
  | some token =>
    have hless := lexer.tokensLeft_next_lt (by simp [hnext])
    rw [collect_of_some hnext]
    refine Reached.collect hreached.next _ fun token' hmem => ?_
    obtain hmem | rfl := Array.mem_push.1 hmem
    · exact htokens token' hmem
    · exact hreached.hands_next hnext
termination_by lexer.tokensLeft

theorem Reached.collectValid {lexer : Lexer} (hreached : Reached source lexer) (tokens : Array Token)
    (htokens : ∀ token ∈ tokens, Hands source token) :
    (∃ result, lexer.collectValid tokens = .ok result ∧ ∀ token ∈ result, Hands source token) ∨
      ∃ diagnostic, lexer.collectValid tokens = .error diagnostic ∧ Reports source diagnostic := by
  have hpush : ∀ token ∈ tokens.push lexer.nextToken.1, Hands source token := by
    intro token hmem
    obtain hmem | rfl := Array.mem_push.1 hmem
    · exact htokens token hmem
    · exact hreached.hands
  obtain hfinishes | ⟨gap, piece, kind, hkind, htakes⟩ := lexer.nextToken_cases
  · exact .inl ⟨_, collectValid_of_end (by rw [hfinishes.token_eq]; rfl) tokens, hpush⟩
  · obtain ⟨hspells, _⟩ | ⟨rfl, fault, _, hqueued⟩ := htakes.read
    · have hvalid : lexer.nextToken.1.kind ≠ .invalid := by
        rw [htakes.token_eq]
        exact hspells.kind_ne.1
      have hlive : lexer.nextToken.1.isEnd = false := by
        rw [htakes.token_eq]
        simpa [Token.isEnd] using hkind
      have hless := nextToken_text_lt hlive
      rw [collectValid_of_live hvalid hlive]
      exact Reached.collectValid hreached.nextToken _ hpush
    · obtain ⟨reported, hmem, herror⟩ := collectValid_of_reported (by rw [htakes.token_eq]) hqueued tokens
      exact .inr ⟨reported, herror, hreached.nextToken.reports reported hmem⟩
termination_by lexer.text.length

end Lexer

open Lexer (Hands Reports Reached)

variable {source : String}

theorem hands_of_mem_scan : ∀ token ∈ (scan source).1, Hands source token := by
  have hcollect := (Reached.start : Reached source (.ofSource source)).collect #[] (by simp)
  intro token hmem
  exact hcollect.1 token (by simpa [scan] using hmem)

theorem reports_of_mem_scan : ∀ diagnostic ∈ (scan source).2, Reports source diagnostic := by
  have hcollect := (Reached.start : Reached source (.ofSource source)).collect #[] (by simp)
  intro diagnostic hmem
  exact hcollect.2.reports diagnostic (by simpa [scan, Lexer.takeDiagnostics] using hmem)

theorem hands_of_tokenize {tokens : List Token} (hok : tokenize source = .ok tokens) :
    ∀ token ∈ tokens, Hands source token := by
  obtain ⟨result, hresult, hall⟩ | ⟨diagnostic, hresult, _⟩ :=
    (Reached.start : Reached source (.ofSource source)).collectValid #[] (by simp)
  · obtain rfl : result.toList = tokens := by simpa [tokenize, hresult, Except.map] using hok
    simpa using hall
  · simp [tokenize, hresult, Except.map] at hok

theorem reports_of_tokenize {diagnostic : Diagnostic} (herror : tokenize source = .error diagnostic) :
    Reports source diagnostic := by
  obtain ⟨result, hresult, _⟩ | ⟨reported, hresult, hreports⟩ :=
    (Reached.start : Reached source (.ofSource source)).collectValid #[] (by simp)
  · simp [tokenize, hresult, Except.map] at herror
  · obtain rfl : reported = diagnostic := by simpa [tokenize, hresult, Except.map] using herror
    exact hreports

end ObsidianSyntax
