import ObsidianSyntax.Proofs.Fault.Earliest
import ObsidianSyntax.Proofs.Fault.Stopping

/-!
# What the hint about an operator says

A fault without a hint of its own that is found on the right side of a binary operator gets the hint
that the operator needs an expression on both sides. The hint does not say that nothing stands on
the right: it is also given where there is something that breaks off further on, in parentheses that
are not closed or at a call of something that has no name. What does hold is that the right side
breaks off at the token of the fault: up to there it can be completed to an expression of the level
that is read for the operator, and with that token it can not.
-/

namespace ObsidianSyntax

open Grammar Parse.Graded

/-! ### Right sides -/

/-- The tokens are what can stand on the right side of the operator, however deep it nests. -/
structure BinaryOp.IsRightSide (op : BinaryOp) (tokens : List Token) : Prop where
  live : ∀ token ∈ tokens, token.isEnd = false
  exists_expr : ∃ n tree, Expr n op.rightPrecedence.tighter (tokens.map Token.terminal) tree

/-- The right side of the operator breaks off at the token: what stands before it can still be
completed, and with it no more. -/
structure BinaryOp.BreaksOffAt (op : BinaryOp) (before : List Token) (x : Token) : Prop where
  completes : ∃ more : List Token, (∀ token ∈ more, token.IsSpelled) ∧ op.IsRightSide (before ++ more)
  refuses : ∀ more : List Token, ¬ op.IsRightSide (before ++ x :: more)

variable {op : BinaryOp} {tokens : List Token}

theorem Cursor.exists_reads_all (hlive : ∀ token ∈ tokens, token.isEnd = false) :
    ∃ after, (ofTokens tokens).Reads (tokens.map Token.terminal) after ∧ after.rest = [] ∧
      EndsExpression after.current.kind := by
  let after : Cursor := ⟨[], _, isEnd_endOf tokens⟩
  have hkind : after.current.kind = .endOfInput := beq_iff_eq.1 (isEnd_endOf tokens)
  refine ⟨after, reads_iff_append.2 ⟨tokens, (List.append_nil _).symm, rfl, rfl, hlive⟩, rfl, ?_⟩
  rw [hkind]
  rfl

namespace BinaryOp

/-- A right side is what the parser of right sides reads to its end, given levels enough. -/
theorem isRightSide_iff :
    op.IsRightSide tokens ↔
      ∃ n tree after, exprs maxDepth op.rightPrecedence n (.ofTokens tokens) = .ok tree after ∧
        after.rest = [] := by
  have haccepts (n : Nat) := (Nested.withRoom_follows maxDepth n).expr op.rightPrecedence
    (Parse.rightPrecedence_le op)
  refine ⟨fun hright => ?_, fun h => ?_⟩
  · obtain ⟨hlive, n, tree, hexpr⟩ := hright
    obtain ⟨after, hreads, hrest, hends⟩ := Cursor.exists_reads_all hlive
    exact ⟨n, tree, after, (haccepts n _ _ rfl tree after).2 ⟨_, hreads, hexpr, hends.le _⟩, hrest⟩
  · obtain ⟨n, tree, after, hok, hrest⟩ := h
    obtain ⟨ts, hreads, hexpr, _⟩ := (haccepts n _ _ rfl tree after).1 hok
    obtain ⟨before, hsplit, _, rfl, hlive⟩ := Cursor.reads_iff_append.1 hreads
    obtain rfl : tokens = before := by simpa [hrest, Cursor.ofTokens] using hsplit
    exact ⟨hlive, n, tree, hexpr⟩

theorem breaksOffAt_of_pinned {room : Nat} {cursor : Cursor} {fault : Fault} {before : List Token}
    (hpinned : Pinned (exprs maxDepth op.rightPrecedence) EndsExpression maxDepth room cursor fault
      (before.map Token.terminal)) (hlive : ∀ token ∈ before, token.isEnd = false)
    (hdeep : ¬ fault.IsTooDeep maxDepth) : op.BreaksOffAt before fault.token := by
  have hp := Parse.rightPrecedence_le op
  refine ⟨?_, fun more hright => ?_⟩
  · obtain ⟨more, hspelled, tree, enough, hreaches⟩ := hpinned.completes (hasSample_expr hp) hdeep
    have hall : ∀ token ∈ before ++ more, token.isEnd = false :=
      List.forall_mem_append.2 ⟨hlive, fun token hmem => (hspelled token hmem).isEnd_eq_false⟩
    obtain ⟨after, hreads, hrest, hends⟩ := Cursor.exists_reads_all hall
    rw [List.map_append] at hreads
    exact ⟨more, hspelled,
      isRightSide_iff.2 ⟨enough, tree, after, hreaches enough (Nat.le_refl _) _ after hreads hends, hrest⟩⟩
  · obtain ⟨n, tree, after, hok, _⟩ := isRightSide_iff.1 hright
    have hrefuses := (hpinned.earliest.resolve_left hdeep).2
    exact hrefuses.ne_ok (exprs_grows _) hlive more n tree after hok

/-! ### Hints -/

theorem symbol_injective {op' : BinaryOp} (hsymbol : op.symbol = op'.symbol) : op = op' := by
  have hspelling (op : BinaryOp) : Mark.ofSpelling? op.symbol.toList = some op.mark :=
    Mark.ofSpelling?_eq_some_iff.2 rfl
  have hmark : op.mark = op'.mark := Option.some.inj ((hspelling op).symm.trans (hsymbol ▸ hspelling op'))
  exact Option.some.inj ((ofMark?_mark op).symm.trans (hmark ▸ ofMark?_mark op'))

end BinaryOp

theorem Cause.help_ne_quoted (cause : Cause) (rest : String) : cause.help ≠ some ("'" ++ rest) := by
  intro hhelp
  have hfirst := congrArg (Option.map fun text => text.toList.head?) hhelp
  cases cause with
  | missing expectation => cases expectation <;> simp [help, Expectation.help] at hfirst
  | _ => simp [help] at hfirst

theorem Fault.operator_eq_of_help {fault : Fault}
    (hhelp : fault.help = some ("'" ++ op.symbol ++ "' needs an expression on both sides")) :
    fault.operator = some op := by
  rw [help] at hhelp
  cases hcause : fault.cause.help with
  | some text =>
    rw [hcause, Option.some_or, String.append_assoc] at hhelp
    exact absurd (hcause.trans hhelp) (fault.cause.help_ne_quoted _)
  | none =>
    rw [hcause, Option.none_or, Option.map_eq_some_iff] at hhelp
    obtain ⟨other, hother, htext⟩ := hhelp
    have hsymbol : other.symbol = op.symbol := by
      simpa [String.ext_iff] using htext
    rw [hother, BinaryOp.symbol_injective hsymbol]

theorem exists_cons_of_live {front before inner rest : List Token} {place : Position}
    (hsplit : front ++ [.endOfInput place] = before ++ (inner ++ rest)) (hne : inner ≠ [])
    (hlive : ∀ token ∈ inner, token.isEnd = false) : ∃ x after, rest = x :: after := by
  cases rest with
  | cons x after => exact ⟨x, after, rfl⟩
  | nil =>
    have hlast : inner.getLast? = some (.endOfInput place) := by
      have hlast := congrArg List.getLast? hsplit
      rwa [List.append_nil, List.getLast?_concat, List.getLast?_append_of_ne_nil _ hne, eq_comm] at hlast
    exact absurd (hlive _ (List.mem_of_getLast? hlast)) (by simp)

/-- A fault that broke off the right side of an operator stands where that right side breaks off. -/
theorem Fault.BreaksOff.exists_breaksOffAt {front : List Token} {place : Position} {fault : Fault}
    (hbreaks : fault.BreaksOff maxDepth (.ofTokens (front ++ [.endOfInput place])) op)
    (hnamed : (Cursor.ofTokens (front ++ [.endOfInput place])).IsNamed) :
    ∃ before mark right after, front ++ [.endOfInput place] = before ++
      mark :: (right ++ fault.token :: after) ∧
      mark.kind = .mark op.mark ∧ op.BreaksOffAt right fault.token := by
  obtain ⟨hnone, mark, cursor, room, found, stop, ⟨⟨before, hbefore⟩, _⟩, hmark, herror, hcause,
      htoken⟩ := hbreaks
  have hbefore : front ++ [.endOfInput place] = before ++ [mark] ++ cursor.rest := hbefore
  have hcursor : cursor.IsNamed := by
    intro token hmem
    have htokens : token ∈ front ++ [.endOfInput place] := hbefore ▸ List.mem_append_right _ hmem
    exact hnamed token htokens
  have hdeep : ¬ found.IsTooDeep maxDepth := by
    rintro ⟨construct, hdeep⟩
    rw [← hcause, hdeep] at hnone
    cases hnone
  have hpinpoints := (nestedPinpoint maxDepth room).expr op.rightPrecedence (Parse.rightPrecedence_le op)
  obtain ⟨ts, hpinned⟩ := hpinpoints.pinpointsAt _ cursor hcursor rfl found stop herror
  obtain ⟨middle, hreads, hmiddle⟩ := hpinned.reads
  obtain ⟨right, hright, _, rfl, hlive⟩ := Cursor.reads_iff_append.1 hreads
  have hbreaksOffAt := BinaryOp.breaksOffAt_of_pinned hpinned hlive hdeep
  have hmarkLive : mark.isEnd = false := by simp [Token.isEnd, hmark]
  have hsplit : front ++ [.endOfInput place] = before ++ (mark :: right ++ middle.rest) := by
    rw [hbefore, hright]
    simp
  obtain ⟨x, after, hrest⟩ := exists_cons_of_live hsplit (by simp) (List.forall_mem_cons.2 ⟨hmarkLive, hlive⟩)
  have hx : x = fault.token := by
    rw [← htoken, ← hmiddle]
    simp [Cursor.current, Cursor.peek, hrest]
  rw [← htoken] at hx ⊢
  rw [hrest, hx] at hsplit
  exact ⟨before, mark, right, after, hsplit, hmark, hbreaksOffAt⟩

/-- The hint about an operator is given where the right side of one of its marks breaks off: what
stands between the mark and the token of the fault can be completed to an expression of the level
that is read there, and with that token it can not. -/
theorem hint_marks_broken_rightSide {source : String} {diagnostic : Diagnostic} {op : BinaryOp}
    (herror : parseSource source = .error diagnostic) (hkind : diagnostic.kind = .syntactic)
    (hhelp : diagnostic.help = some ("'" ++ op.symbol ++ "' needs an expression on both sides")) :
    ∃ (before : List Token) (mark : Token) (right : List Token) (x : Token) (after : List Token),
      tokenize source = .ok (before ++ mark :: (right ++ x :: after)) ∧ mark.kind = .mark op.mark ∧
      (diagnostic.span = x.span ∧ diagnostic.line = x.place.line ∧
        diagnostic.column = x.place.column) ∧ op.BreaksOffAt right x := by
  obtain ⟨tokens, hok, hparse⟩ := exists_tokens_of_syntactic herror hkind
  have hfaithful : (Cursor.ofTokens tokens).IsFaithful := by
    obtain ⟨_, rfl⟩ := tokenize_eq_ok_iff.1 hok
    exact isFaithful_of_mem_scan
  have hnamed := isNamed_of_tokenize hok
  obtain ⟨front, place, rfl, _⟩ := tokenize_eq_append hok
  have hleaves := Entry.program.leaves hfaithful maxDepth
  unfold parseTokens at hparse
  cases hresult : Parse.program maxDepth (.ofTokens (front ++ [.endOfInput place])) with
  | ok tree stop => simp [hresult] at hparse
  | error fault stop =>
    obtain rfl : fault.report = diagnostic := by simpa [hresult] using hparse
    rw [Entry.parse, hresult] at hleaves
    have hbreaks := hleaves.breaksOff op (Fault.operator_eq_of_help hhelp)
    obtain ⟨before, mark, right, after, hsplit, hmark, hbreaksOffAt⟩ := hbreaks.exists_breaksOffAt hnamed
    exact ⟨before, mark, right, fault.token, after, hok.trans (congrArg Except.ok hsplit), hmark,
      ⟨rfl, rfl, rfl⟩, hbreaksOffAt⟩

section

/-- What a call of a number is reported as, behind an operator. -/
def calledNumberReport : Diagnostic :=
  ⟨.syntactic, ⟨5, 6⟩, 1, 6, "Only named functions can be called",
    some "'+' needs an expression on both sides"⟩

theorem tokenize_calledNumber :
    tokenize "1 + 2(3);" = .ok
      [⟨.intLiteral, "1", ⟨0, 1, 1⟩⟩, ⟨.mark .plus, "+", ⟨2, 1, 3⟩⟩, ⟨.intLiteral, "2", ⟨4, 1, 5⟩⟩,
        ⟨.mark .leftParen, "(", ⟨5, 1, 6⟩⟩, ⟨.intLiteral, "3", ⟨6, 1, 7⟩⟩,
        ⟨.mark .rightParen, ")", ⟨7, 1, 8⟩⟩, ⟨.mark .semicolon, ";", ⟨8, 1, 9⟩⟩,
        .endOfInput ⟨9, 1, 10⟩] := by decide +kernel

theorem parseSource_calledNumber : parseSource "1 + 2(3);" = .error calledNumberReport := by
  rw [parseSource, tokenize_calledNumber]
  rfl

theorem hint_marks_broken_rightSide_calledNumber :
    parseSource "1 + 2(3);" = .error calledNumberReport ∧
    ∃ (before : List Token) (mark : Token) (right : List Token) (x : Token) (after : List Token),
      tokenize "1 + 2(3);" = .ok (before ++ mark :: (right ++ x :: after)) ∧ mark.kind = .mark .plus ∧
      calledNumberReport.span = x.span ∧ BinaryOp.add.BreaksOffAt right x := by
  obtain ⟨before, mark, right, x, after, hok, hmark, hplace, hbreaksOffAt⟩ :=
    @hint_marks_broken_rightSide _ _ .add parseSource_calledNumber rfl (by decide)
  exact ⟨parseSource_calledNumber, before, mark, right, x, after, hok, hmark, hplace.1, hbreaksOffAt⟩

/-- The hint is given although an expression stands on both sides: between the operator and the
token of the fault is a number, which is no operator before an operand. -/
theorem hint_given_behind_rightSide :
    parseSource "1 + 2(3);" = .error calledNumberReport ∧
    calledNumberReport.help = some ("'" ++ BinaryOp.add.symbol ++ "' needs an expression on both sides") ∧
    ¬ ∃ (before : List Token) (mark : Token) (right : List Token) (x : Token) (after : List Token),
      tokenize "1 + 2(3);" = .ok (before ++ mark :: (right ++ x :: after)) ∧
      mark.kind = .mark BinaryOp.add.mark ∧
      calledNumberReport.span = x.span ∧ ∀ token ∈ right, ∃ op : UnaryOp, op.isBehind = false ∧
        token.kind = .mark op.mark := by
  refine ⟨parseSource_calledNumber, by decide, ?_⟩
  rintro ⟨before, mark, right, x, after, hok, hmark, hspan, hright⟩
  rw [tokenize_calledNumber, Except.ok.injEq] at hok
  obtain _ | ⟨first, _ | ⟨second, before⟩⟩ := before
  · obtain ⟨rfl, _⟩ := List.cons.inj hok
    cases hmark
  · obtain ⟨_, hok⟩ := List.cons.inj hok
    obtain ⟨_, hok⟩ := List.cons.inj hok
    obtain _ | ⟨third, right⟩ := right
    · obtain ⟨rfl, _⟩ := List.cons.inj hok
      exact absurd hspan (by decide)
    · obtain ⟨rfl, _⟩ := List.cons.inj hok
      obtain ⟨op, _, hkind⟩ := hright _ List.mem_cons_self
      cases hkind
  · obtain ⟨_, hok⟩ := List.cons.inj hok
    obtain ⟨_, hok⟩ := List.cons.inj hok
    have hnone : ∀ token ∈ [(⟨.intLiteral, "2", ⟨4, 1, 5⟩⟩ : Token),
        ⟨.mark .leftParen, "(", ⟨5, 1, 6⟩⟩, ⟨.intLiteral, "3", ⟨6, 1, 7⟩⟩,
        ⟨.mark .rightParen, ")", ⟨7, 1, 8⟩⟩, ⟨.mark .semicolon, ";", ⟨8, 1, 9⟩⟩,
        .endOfInput ⟨9, 1, 10⟩], token.kind ≠ .mark BinaryOp.add.mark := by decide
    rw [hok] at hnone
    exact hnone mark (List.mem_append_right before List.mem_cons_self) hmark

end

end ObsidianSyntax
