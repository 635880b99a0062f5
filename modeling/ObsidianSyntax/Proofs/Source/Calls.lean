import ObsidianSyntax.Proofs.Source.SameTokens

/-!
# A lexer that is called in any order

A lexer answers four calls: the next token, the next item of the sequence that ends with the end of
the input, a look at the queued diagnostics, and taking them. They share the text that is left, the
flag that the sequence is done and the queue, and any of them may come at any time, also behind the
end of the input.

The order makes no difference to what they hand out. Behind any calls the tokens handed out so far
and the tokens of the text that is left are together those of the source, with its end repeated
(`Follows`). Each call keeps this, so all of them do, and with it come what has been taken from the
queue and what is still in it: one diagnostic for each invalid token.
-/

namespace ObsidianSyntax

namespace Lexer

/-- What can be asked of a lexer. -/
inductive Call where
  | nextToken
  | next
  | diagnostics
  | takeDiagnostics

/-- What a lexer gives back for each of the calls. -/
inductive Answer where
  | nextToken (token : Token)
  | next (item : Option Token)
  | diagnostics (queued : List Diagnostic)
  | takeDiagnostics (taken : List Diagnostic)

namespace Answer

/-- The token that an answer hands out. -/
def handed? : Answer → Option Token
  | .nextToken token => some token
  | .next item => item
  | .diagnostics _ | .takeDiagnostics _ => none

/-- The diagnostics that an answer takes out of the queue. -/
def drained : Answer → List Diagnostic
  | .takeDiagnostics taken => taken
  | .nextToken _ | .next _ | .diagnostics _ => []

end Answer

/-- The answer to a call, and the lexer to go on with. -/
def call (lexer : Lexer) : Call → Answer × Lexer
  | .nextToken => (.nextToken lexer.nextToken.1, lexer.nextToken.2)
  | .next => (.next lexer.next.1, lexer.next.2)
  | .diagnostics => (.diagnostics lexer.queued.toList, lexer)
  | .takeDiagnostics => (.takeDiagnostics lexer.takeDiagnostics.1.toList, lexer.takeDiagnostics.2)

/-- The answers to calls one after the other, and the lexer to go on with. -/
def callAll (lexer : Lexer) : List Call → List Answer × Lexer
  | [] => ([], lexer)
  | first :: calls =>
    let (answer, after) := lexer.call first
    let (answers, last) := after.callAll calls
    (answer :: answers, last)

def handed (answers : List Answer) : List Token := answers.filterMap Answer.handed?

def drained (answers : List Answer) : List Diagnostic := answers.flatMap Answer.drained

/-- An item of the sequence was the end of the input. -/
def GaveEnd (answers : List Answer) : Prop := ∃ token, Answer.next (some token) ∈ answers ∧ token.isEnd = true

section

variable (answers answers' : List Answer)

theorem handed_append : handed (answers ++ answers') = handed answers ++ handed answers' :=
  List.filterMap_append

theorem drained_append : drained (answers ++ answers') = drained answers ++ drained answers' :=
  List.flatMap_append

theorem gaveEnd_append : GaveEnd (answers ++ answers') ↔ GaveEnd answers ∨ GaveEnd answers' := by
  simp only [GaveEnd, List.mem_append, or_and_right, exists_or]

end

/-! ### One token -/

variable (lexer : Lexer)

/-- The next token is the first of the text that is left. Only the end of the input stays there. -/
theorem tokensOf_nextToken :
    (lexer.nextToken.1.isEnd = true ∧ tokensOf lexer.place lexer.text = [lexer.nextToken.1] ∧
      tokensOf lexer.nextToken.2.place lexer.nextToken.2.text = [lexer.nextToken.1]) ∨
    lexer.nextToken.1.isEnd = false ∧
      tokensOf lexer.place lexer.text = lexer.nextToken.1 :: tokensOf lexer.nextToken.2.place
        lexer.nextToken.2.text := by
  match hskip : skipTrivia false lexer.place lexer.text with
  | (place, []) =>
    have hstep := nextToken_of_nil hskip
    rw [tokensOf_of_nil hskip, hstep]
    exact .inl ⟨rfl, rfl, tokensOf_of_nil rfl⟩
  | (place, first :: rest) =>
    have hsteps := stepsOver_of_cons hskip
    rw [tokensOf_of_cons hskip, hsteps.place_eq, hsteps.text_eq, hsteps.isEnd_eq, hsteps.token_eq]
    exact .inr ⟨rfl, rfl⟩

/-- The queue gets what the next token shows, and nothing else. -/
theorem queued_nextToken :
    lexer.nextToken.2.queued.toList = lexer.queued.toList ++
      [lexer.nextToken.1].filterMap Token.lexicalReport? := by
  match hskip : skipTrivia false lexer.place lexer.text with
  | (place, []) => simp [nextToken_of_nil hskip]
  | (place, first :: rest) =>
    rw [(stepsOver_of_cons hskip).queued_eq]
    cases hreport : lexer.nextToken.1.lexicalReport? <;> simp [hreport]

theorem finished_nextToken : lexer.nextToken.2.finished = lexer.finished := by
  unfold nextToken
  split
  · rfl
  · simp only
    split <;> rfl

/-! ### One call -/

variable (call : Call)

/-- A call hands out the next token and goes on behind it, or hands out nothing and leaves the text
as it is. -/
theorem tokensOf_call :
    (handed [(lexer.call call).1] = [] ∧
      tokensOf (lexer.call call).2.place (lexer.call call).2.text = tokensOf lexer.place lexer.text) ∨
    handed [(lexer.call call).1] = [lexer.nextToken.1] ∧
      tokensOf (lexer.call call).2.place (lexer.call call).2.text =
        tokensOf lexer.nextToken.2.place lexer.nextToken.2.text := by
  cases call with
  | nextToken => exact .inr ⟨rfl, rfl⟩
  | next =>
    cases hfinished : lexer.finished with
    | true =>
      rw [Lexer.call, next_of_finished hfinished]
      exact .inl ⟨rfl, rfl⟩
    | false =>
      rw [Lexer.call, next_of_not_finished hfinished]
      exact .inr ⟨rfl, rfl⟩
  | diagnostics | takeDiagnostics => exact .inl ⟨rfl, rfl⟩

/-- What a call takes out of the queue and what it leaves there is what was in it, and a diagnostic
for the token handed out if that is invalid. -/
theorem drained_call :
    drained [(lexer.call call).1] ++ (lexer.call call).2.queued.toList =
      lexer.queued.toList ++ (handed [(lexer.call call).1]).filterMap Token.lexicalReport? := by
  cases call with
  | nextToken => exact lexer.queued_nextToken
  | next =>
    cases hfinished : lexer.finished with
    | true =>
      rw [Lexer.call, next_of_finished hfinished]
      simp [drained, handed, Answer.drained, Answer.handed?]
    | false =>
      rw [Lexer.call, next_of_not_finished hfinished]
      exact lexer.queued_nextToken
  | diagnostics => simp [Lexer.call, drained, handed, Answer.drained, Answer.handed?]
  | takeDiagnostics =>
    simp [Lexer.call, Lexer.takeDiagnostics, drained, handed, Answer.drained, Answer.handed?]

/-- Only `next` ends the sequence, when it hands out the end of the input. -/
theorem finished_call :
    (lexer.call call).2.finished = true ↔ lexer.finished = true ∨ GaveEnd [(lexer.call call).1] := by
  cases call with
  | nextToken => simp [Lexer.call, finished_nextToken, GaveEnd]
  | next =>
    cases hfinished : lexer.finished with
    | true => simp [Lexer.call, next_of_finished hfinished, hfinished]
    | false => simp [Lexer.call, next_of_not_finished hfinished, GaveEnd]
  | diagnostics => simp [Lexer.call, GaveEnd]
  | takeDiagnostics => simp [Lexer.call, Lexer.takeDiagnostics, GaveEnd]

theorem call_eq_done_iff : (lexer.call call).1 = .next none ↔ call = .next ∧ lexer.finished = true := by
  cases call with
  | next =>
    cases hfinished : lexer.finished with
    | true => simp [Lexer.call, next_of_finished hfinished]
    | false => simp [Lexer.call, next_of_not_finished hfinished]
  | _ => simp [Lexer.call]

/-! ### Any calls -/

/-- Where a lexer stands behind some answers. The tokens of its source are `before` and then the end
of the input at `stop`. -/
structure Follows (before : List Token) (stop : Position) (answers : List Answer) (lexer : Lexer) : Prop where
  tokens : ∃ more, handed answers ++ tokensOf lexer.place lexer.text = before ++ List.replicate
    (more + 1) (.endOfInput stop)
  finished_iff : lexer.finished = true ↔ GaveEnd answers
  reports : drained answers ++ lexer.queued.toList = (handed answers).filterMap Token.lexicalReport?

section

variable {lexer call} {before : List Token} {stop : Position} {answers : List Answer}

/-- The end of the input stays in front when it is handed out, so it is counted once more then. -/
theorem Follows.tokens_nextToken (hfollows : Follows before stop answers lexer) :
    ∃ more, (handed answers ++ [lexer.nextToken.1]) ++
      tokensOf lexer.nextToken.2.place lexer.nextToken.2.text =
      before ++ List.replicate (more + 1) (.endOfInput stop) := by
  obtain ⟨more, htokens⟩ := hfollows.tokens
  obtain ⟨_, hlast, hstays⟩ | ⟨_, hfirst⟩ := lexer.tokensOf_nextToken
  · rw [hlast] at htokens
    have hend : [lexer.nextToken.1] = [.endOfInput stop] := by
      rw [List.replicate_succ', ← List.append_assoc] at htokens
      exact (List.append_inj' htokens rfl).2
    refine ⟨more + 1, ?_⟩
    rw [hstays, htokens, hend, List.append_assoc, ← List.replicate_succ']
  · refine ⟨more, ?_⟩
    rw [← htokens, hfirst, List.append_assoc, List.singleton_append]

/-- Each call keeps the account. -/
theorem Follows.step (hfollows : Follows before stop answers lexer) (call : Call) :
    Follows before stop (answers ++ [(lexer.call call).1]) (lexer.call call).2 where
  tokens := by
    rw [handed_append]
    obtain ⟨hnone, hsame⟩ | ⟨hhanded, hafter⟩ := lexer.tokensOf_call call
    · rw [hnone, hsame, List.append_nil]
      exact hfollows.tokens
    · rw [hhanded, hafter]
      exact hfollows.tokens_nextToken
  finished_iff := by rw [finished_call, gaveEnd_append, hfollows.finished_iff]
  reports := by
    rw [drained_append, List.append_assoc, drained_call, ← List.append_assoc, hfollows.reports, handed_append,
      List.filterMap_append]

theorem Follows.steps (hfollows : Follows before stop answers lexer) (calls : List Call) :
    Follows before stop (answers ++ (lexer.callAll calls).1) (lexer.callAll calls).2 := by
  induction calls generalizing answers lexer with
  | nil => simpa [Lexer.callAll] using hfollows
  | cons first calls ih => simpa [Lexer.callAll] using ih (hfollows.step first)

end

/-! ### What can be relied on -/

/-- The diagnostic says that the token is invalid, and where it stands. -/
structure Announces (diagnostic : Diagnostic) (token : Token) : Prop where
  kind_eq : diagnostic.kind = .lexical
  help_eq : diagnostic.help = none
  isAbout : diagnostic.IsAbout token

theorem forall₂_announces {tokens : List Token}
    (hne : ∀ token ∈ tokens, token.kind = .invalid → token.lexeme ≠ "") :
    List.Forall₂ Announces (tokens.filterMap Token.lexicalReport?)
      (tokens.filter fun token => token.kind == .invalid) := by
  induction tokens with
  | nil => exact .nil
  | cons token rest ih =>
    obtain ⟨hfirst, hrest⟩ := List.forall_mem_cons.1 hne
    by_cases hkind : token.kind = .invalid
    · have hreport : token.lexicalReport? ≠ none := fun hnone =>
        Token.kind_ne_invalid_of_lexicalReport? hnone (by simpa using hfirst hkind) hkind
      obtain ⟨fault, hfault⟩ : ∃ fault, token.fault? = some fault := by
        simpa [Token.lexicalReport?, Option.ne_none_iff_exists'] using hreport
      have hannounces : Announces (fault.report token) token := ⟨rfl, rfl, LexicalFault.report_isAbout hfault⟩
      simpa [Token.lexicalReport?, hfault, hkind] using And.intro hannounces (ih hrest)
    · simpa [Token.lexicalReport?_of_kind_ne hkind, hkind] using ih hrest

/-- The invalid tokens among those handed out. -/
def invalid (answers : List Answer) : List Token :=
  (handed answers).filter fun token => token.kind == .invalid

/-- What can be relied on behind some answers, and about one call more. -/
structure IsConsistent (source : String) (answers : List Answer) (lexer : Lexer) : Prop where
  /-- The tokens handed out are those of the source, and behind them its end again and again. -/
  handed : ∀ k token, (handed answers)[k]? = some token →
    (scan source).1[k]? = some token ∨
      (scan source).1.length ≤ k ∧ (scan source).1.getLast? = some token ∧ token.isEnd = true
  /-- The sequence is over exactly if it has given the end of the input. -/
  done : ∀ call, (lexer.call call).1 = .next none ↔ call = .next ∧ GaveEnd answers
  /-- What was taken from the queue and what is in it announce the invalid tokens handed out, one
  each and in order. -/
  announced : List.Forall₂ Announces (drained answers ++ lexer.queued.toList) (invalid answers)
  /-- A call keeps all diagnostics, and adds one only for an invalid token that it hands out. -/
  keeps : ∀ call, ∃ added, List.Forall₂ Announces added (invalid [(lexer.call call).1]) ∧
    drained (answers ++ [(lexer.call call).1]) ++ (lexer.call call).2.queued.toList =
      drained answers ++ lexer.queued.toList ++ added

namespace Follows

variable {source : String} {lexer : Lexer} {before : List Token} {stop : Position} {answers : List Answer}

theorem prefix_tokens (hfollows : Follows before stop answers lexer) :
    ∃ more, Lexer.handed answers <+: before ++ List.replicate (more + 1) (.endOfInput stop) := by
  obtain ⟨more, htokens⟩ := hfollows.tokens
  exact ⟨more, _, htokens⟩

theorem handed_cases (hfollows : Follows before stop answers lexer) {k : Nat} {token : Token}
    (hget : (Lexer.handed answers)[k]? = some token) :
    (before ++ [.endOfInput stop])[k]? = some token ∨ before.length + 1 ≤ k ∧ token = .endOfInput stop := by
  obtain ⟨more, behind, htokens⟩ := hfollows.prefix_tokens
  have hall : (before ++ List.replicate (more + 1) (.endOfInput stop))[k]? = some token := by
    obtain ⟨hlt, _⟩ := List.getElem?_eq_some_iff.1 hget
    rw [← htokens, List.getElem?_append_left hlt, hget]
  by_cases hk : k < before.length
  · left
    rw [List.getElem?_append_left hk] at hall ⊢
    exact hall
  · have hend : token = .endOfInput stop := by
      rw [List.getElem?_append_right (by omega)] at hall
      exact List.eq_of_mem_replicate (List.mem_of_getElem? hall)
    obtain hfirst | hagain : k = before.length ∨ before.length + 1 ≤ k := by omega
    · exact .inl (by simp [hfirst, hend])
    · exact .inr ⟨hagain, hend⟩

theorem lexeme_ne_empty (hfollows : Follows before stop answers lexer)
    (hbefore : ∀ token ∈ before, token.lexeme ≠ "") :
    ∀ token ∈ Lexer.handed answers, token.kind = .invalid → token.lexeme ≠ "" := by
  obtain ⟨more, hfront⟩ := hfollows.prefix_tokens
  intro token hmem hkind
  obtain hmem | hmem := List.mem_append.1 (hfront.subset hmem)
  · exact hbefore token hmem
  · rw [List.eq_of_mem_replicate hmem] at hkind
    cases hkind

theorem isConsistent (hfollows : Follows before stop answers lexer)
    (hscan : (scan source).1 = before ++ [.endOfInput stop])
    (hbefore : ∀ token ∈ before, token.lexeme ≠ "") : IsConsistent source answers lexer where
  handed := by
    intro k token hget
    rw [hscan]
    obtain hfirst | ⟨hagain, rfl⟩ := hfollows.handed_cases hget
    · exact .inl hfirst
    · exact .inr ⟨by simpa using hagain, by simp, rfl⟩
  done := by
    intro call
    rw [call_eq_done_iff, hfollows.finished_iff]
  announced := by
    rw [hfollows.reports]
    exact forall₂_announces (hfollows.lexeme_ne_empty hbefore)
  keeps := by
    intro call
    have hmem : ∀ token ∈ Lexer.handed [(lexer.call call).1], token ∈ Lexer.handed
        (answers ++ [(lexer.call call).1]) := by
      intro token hmem
      rw [handed_append]
      exact List.mem_append_right _ hmem
    have hne := (hfollows.step call).lexeme_ne_empty hbefore
    refine ⟨_, forall₂_announces fun token htoken => hne token (hmem token htoken), ?_⟩
    rw [drained_append, List.append_assoc, drained_call, ← List.append_assoc]

end Follows

/-- However the four calls follow each other, a lexer hands out the tokens of its source one after
the other, whichever call asks for them, and behind them the end of the input; the sequence is over
exactly if it has given that end; and its diagnostics, taken or still queued, announce the invalid
tokens handed out, one each and in order, where a further call loses none and adds one only for an
invalid token. -/
theorem calls_areConsistent (source : String) (calls : List Call) :
    IsConsistent source ((ofSource source).callAll calls).1 ((ofSource source).callAll calls).2 := by
  obtain ⟨before, stop, hscan, hbefore⟩ := scan_eq_append source
  have hstart : Follows before stop [] (ofSource source) := by
    refine ⟨⟨0, ?_⟩, by simp [ofSource, GaveEnd], by simp [ofSource, handed, drained]⟩
    rw [scan_eq] at hscan
    exact hscan
  exact (hstart.steps calls).isConsistent hscan fun token hmem => (hbefore token hmem).2

end Lexer

end ObsidianSyntax
