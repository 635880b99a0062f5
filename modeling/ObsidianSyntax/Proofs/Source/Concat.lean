import ObsidianSyntax.Proofs.Fault.Earliest
import ObsidianSyntax.Proofs.Parse.Alike
import ObsidianSyntax.Proofs.Token.LineLocal

/-!
# Programs one behind the other

A program with a second source behind a line end is parsed as the statements of the program and then
as the second source. Lines are read independently, so the tokens are those of both. A statement
takes nothing that stands behind it into account but a possible second branch, so the parser gets to
the second source as if it had started there: with the statements of the first in hand, but with all
levels of nesting left, and no fault shows what was read before.
-/

namespace ObsidianSyntax

open Grammar

theorem Grammar.Stmts.following_ne_else {n : Nat} {ts : List Terminal} {body : List Tree}
    {next : Kind} (hstmts : Stmts n ts body) (hnext : next ≠ .keyword .elseWord) :
    following ts next ≠ .keyword .elseWord := by
  cases hstmts with
  | nil => exact hnext
  | @cons _ _ ts us _ _ hstmt _ =>
    intro helse
    have hends := hstmt.endsStatements_following (following us next)
    rw [← following_append, helse] at hends
    exact absurd hends (by decide)

namespace Parse

/-- The statements up to the end of the input, behind those in `items`. -/
def statements (inner : Nested) (items : Array Tree) : Parse (Array Tree) :=
  repeatWhile (fun token => !token.isEnd) (fun items => return items.push (← inner.stmt)) items

theorem programWith_apply (inner : Nested) (cursor : Cursor) :
    programWith inner cursor =
      match statements inner #[] cursor with
      | .ok items after => .ok (.block items.toList) after
      | .error fault after => .error fault after := by
  show ((statements inner #[] >>= fun items => Pure.pure items.toList) >>= fun body => Pure.pure
    (Tree.block body) : Parse Tree) cursor = _
  simp only [Bind.bind, EStateM.bind]
  cases statements inner #[] cursor <;> rfl

theorem statements_eq {inner : Nested} {n : Nat} (hinner : inner.Follows n) (items : Array Tree)
    (cursor : Cursor) :
    statements inner items cursor =
      if !cursor.current.isEnd then (inner.stmt >>= fun tree => statements inner (items.push tree)) cursor
      else .ok items cursor := by
  have hconsumes (items : Array Tree) := (consumes_stmt hinner).map items.push
  have hend : ∀ token : Token, token.isEnd = true → (!token.isEnd) = false := by simp
  refine (repeatWhile_eq hend hconsumes items cursor).trans ?_
  split
  · simp only [Bind.bind, EStateM.bind]
    cases inner.stmt cursor <;> rfl
  · rfl

theorem statements_of_stmts {inner : Nested} {n : Nat} {ts : List Terminal} {body : List Tree}
    {cursor middle : Cursor} (hinner : inner.Follows n)
    (hnext : middle.current.kind ≠ .keyword .elseWord) (hstmts : Stmts n ts body)
    (items : Array Tree) (hreads : cursor.Reads ts middle) :
    statements inner items cursor = statements inner (items ++ body) middle := by
  match hstmts with
  | .nil =>
    obtain rfl := hreads
    rw [Array.appendList_nil]
  | @Stmts.cons _ _ _ _ tree rest hstmt hrest =>
    obtain ⟨between, hts, hus⟩ := Cursor.reads_append.1 hreads
    have hfollowing : between.current.kind ≠ .keyword .elseWord :=
      hus.following ▸ hrest.following_ne_else hnext
    have hlive : (!cursor.current.isEnd) = true := by
      have hends := hstmt.endsStatements_following between.current.kind
      rw [← hts.following] at hends
      exact congrArg not (Bool.or_eq_false_iff.1 hends).2
    have hok := (hinner.stmt _ cursor rfl tree between).2 ⟨_, hts, _, hstmt, fun _ => hfollowing⟩
    rw [statements_eq hinner, if_pos hlive, bind_of_ok hok, Array.appendList_cons]
    exact statements_of_stmts hinner hnext hrest _ hus

/-- Statements are read the same with others in hand, which stay in front. -/
theorem statements_alike (m : Matching) {inner : Nested} (hinner : inner.Placeless m)
    (front : Array Tree) :
    Alike m (fun items items' => items' = front ++ items) (statements inner #[])
      (statements inner front) := by
  have hconsumes (items : Array Tree) := (hinner.consumes .statement).map items.push
  have hend : ∀ token : Token, token.isEnd = true → (!token.isEnd) = false := by simp
  refine Alike.repeatWhile (.of_kind fun kind => !(kind == .endOfInput)) hend hconsumes hconsumes
    (fun items items' hitems => ?_) (by simp)
  refine hinner.stmt.bind fun tree tree' htree => .pure ?_
  rw [hitems, htree, Array.push_append]

end Parse

section

variable {before front front' : List Token} {body : List Tree} {m : Matching} {place place' : Position}

theorem Cursor.endOf_append {tokens : List Token} (hne : tokens ≠ []) :
    endOf (before ++ tokens) = endOf tokens := by
  rw [endOf, endOf, List.getLast?_append_of_ne_nil _ hne]

/-- Behind the tokens of a program, matching tokens are parsed as by themselves, and its statements
come first. -/
theorem parseTokens_append {tokens tokens' : List Token}
    (hlive : ∀ token ∈ before, token.isEnd = false)
    (hstmts : Stmts maxDepth (before.map Token.terminal) body)
    (htokens : tokens = front ++ [.endOfInput place])
    (htokens' : tokens' = front' ++ [.endOfInput place'])
    (hpairs : List.Forall₂ m.Pairs tokens tokens')
    (helse : ∀ token ∈ tokens.head?, token.kind ≠ .keyword .elseWord) :
    (∃ more, parseTokens tokens = .ok (.block more) ∧ parseTokens (before ++ tokens') = .ok
      (.block (body ++ more))) ∨
    ∃ fault fault' : Fault, fault.Matches m fault' ∧ parseTokens tokens = .error fault.report ∧
      parseTokens (before ++ tokens') = .error fault'.report := by
  have hmatches := Matching.ofTokens_matches htokens htokens' hpairs
  have hreads : (Cursor.ofTokens (before ++ tokens')).Reads (before.map Token.terminal) (.ofTokens tokens') :=
    Cursor.reads_iff_append.2 ⟨before, rfl, Cursor.endOf_append (by simp [htokens']), rfl, hlive⟩
  have hnext : (Cursor.ofTokens tokens').current.kind ≠ .keyword .elseWord := by
    rw [← m.kind_eq hmatches.current]
    cases tokens with
    | nil => simp at htokens
    | cons first rest => exact helse first rfl
  have hfollows := Nested.withRoom_follows maxDepth maxDepth
  have hmatched := Parse.statements_alike m (Nested.withRoom_placeless m maxDepth maxDepth)
    body.toArray _ _ hmatches
  have hsame := Parse.statements_of_stmts hfollows hnext hstmts #[] hreads
  unfold parseTokens
  rw [Parse.program_eq_programWith, Parse.programWith_apply, Parse.programWith_apply, hsame]
  rw [show #[] ++ body = body.toArray by simp]
  generalize Parse.statements _ #[] (.ofTokens tokens) = outcome at hmatched ⊢
  generalize Parse.statements _ body.toArray (.ofTokens tokens') = outcome' at hmatched ⊢
  cases hmatched with
  | ok hitems _ =>
    subst hitems
    exact .inl ⟨_, rfl, by simp⟩
  | error hfault _ => exact .inr ⟨_, _, hfault, rfl, rfl⟩

theorem head_ne_else_of_parseTokens {tokens : List Token} {tree : Tree}
    (hok : parseTokens tokens = .ok tree) :
    ∀ token ∈ tokens.head?, token.kind ≠ .keyword .elseWord := by
  intro token hmem helse
  obtain ⟨rest, rfl⟩ := List.head?_eq_some_iff.1 hmem
  obtain ⟨body, hstmts, _⟩ := parseTokens_eq_ok_iff.1 hok
  have hlive : token.isEnd = false := by
    rw [Token.isEnd, helse]
    rfl
  rw [terminals_cons_of_live hlive] at hstmts
  exact @Stmts.following_ne_else _ _ _ .endOfInput hstmts (by simp) helse

end

/-! ### Sources -/

/-- Tokens and the same tokens further back. -/
def Matching.moved (bytes lines : Nat) : Matching where
  Pairs token token' := token' = token.movedBy bytes lines
  kind_eq hpair := by rw [hpair, Token.kind_movedBy]
  lexeme_eq hpair := by rw [hpair, Token.lexeme_movedBy]

theorem Matching.moved_forall₂ (bytes lines : Nat) (tokens : List Token) :
    List.Forall₂ (moved bytes lines).Pairs tokens (tokens.map fun token => token.movedBy bytes lines) :=
  List.forall₂_map_right_iff.2 (List.forall₂_same.2 fun _ _ => rfl)

theorem Fault.Matches.report_eq {bytes lines : Nat} {fault fault' : Fault}
    (hmatches : fault.Matches (.moved bytes lines) fault') :
    fault'.report = fault.report.movedBy bytes lines := by
  obtain ⟨hcause, hoperator, hpair⟩ := hmatches
  have hmessage := Matching.message_eq hpair fault.cause
  have hhelp : fault'.help = fault.help := by rw [Fault.help, Fault.help, hcause, hoperator]
  rw [Fault.report, ← hcause, ← hmessage, hhelp, hpair, Token.span_movedBy]
  rfl

theorem findSome?_lexicalReport?_movedBy (bytes lines : Nat) (tokens : List Token) :
    (tokens.map fun token => token.movedBy bytes lines).findSome? Token.lexicalReport? =
      (tokens.findSome? Token.lexicalReport?).map fun diagnostic => diagnostic.movedBy bytes lines := by
  induction tokens with
  | nil => rfl
  | cons token tokens ih =>
    rw [List.map_cons, List.findSome?_cons, List.findSome?_cons, Token.lexicalReport?_movedBy, ih]
    cases token.lexicalReport? <;> rfl

/-- Behind a source without lexical errors and a line end, the tokens and the first lexical error
are those of what stands there, further back. -/
theorem exists_tokens_append (a b : String) (hvalid : (scan a).1.findSome? Token.lexicalReport? = none) :
    ∃ before place, (scan a).1 = before ++ [.endOfInput place] ∧ (∀ token ∈ before, token.isEnd = false) ∧
      (scan (a ++ "\n" ++ b)).1 =
        before ++ (scan b).1.map (fun token => token.movedBy (a.utf8ByteSize + 1) (a.toList.count '\n' + 1)) ∧
      (scan (a ++ "\n" ++ b)).1.findSome? Token.lexicalReport? =
        ((scan b).1.findSome? Token.lexicalReport?).map fun diagnostic =>
          diagnostic.movedBy (a.utf8ByteSize + 1) (a.toList.count '\n' + 1) := by
  obtain ⟨before, place, htokens, hbefore⟩ := scan_eq_append a
  have hlive : ∀ token ∈ before, token.isEnd = false := fun token hmem => (hbefore token hmem).1
  have hfilter : (scan a).1.filter (fun token => !token.isEnd) = before := by
    rw [htokens, List.filter_append, List.filter_eq_self.2 fun token hmem => by rw [hlive token hmem]; rfl]
    simp
  have hnone : before.findSome? Token.lexicalReport? = none := by
    rw [htokens, List.findSome?_append, Option.or_eq_none_iff] at hvalid
    exact hvalid.1
  have hboth := tokens_append_newline a b
  rw [hfilter] at hboth
  refine ⟨before, place, htokens, hlive, hboth, ?_⟩
  rw [hboth, List.findSome?_append, hnone, Option.none_or, findSome?_lexicalReport?_movedBy]

/-- A source behind a program and a line end is parsed as by itself. If it is a program, the whole
is one with the statements of both. If it is refused, so is the whole, for the same reason and as
far behind as the program and the line end reach, unless it starts with the word for a second
branch, which the last statement of the program might take. -/
theorem parseSource_append (a b : String) (sa : List Tree) (ha : parseSource a = .ok (.block sa)) :
    (∀ sb, parseSource b = .ok (.block sb) → parseSource (a ++ "\n" ++ b) = .ok (.block (sa ++ sb))) ∧
    ∀ diagnostic, parseSource b = .error diagnostic →
      (∀ token ∈ (scan b).1.head?, token.kind ≠ .keyword .elseWord) →
      parseSource (a ++ "\n" ++ b) =
        .error (diagnostic.movedBy (a.utf8ByteSize + 1) (a.toList.count '\n' + 1)) := by
  obtain ⟨hvalid, hparse⟩ := parseSource_eq_ok_iff.1 ha
  obtain ⟨before, place, htokens, hlive, hboth, hreport⟩ := exists_tokens_append a b hvalid
  generalize a.utf8ByteSize + 1 = bytes at *
  generalize a.toList.count '\n' + 1 = lines at *
  cases hlexical : (scan b).1.findSome? Token.lexicalReport? with
  | some lexical =>
    rw [hlexical] at hreport
    simp [parseSource_of_invalid hlexical, parseSource_of_invalid hreport]
  | none =>
    obtain ⟨_, hstmts, heq⟩ := parseTokens_eq_ok_iff.1 hparse
    cases heq
    rw [htokens, terminals_append hlive, terminals_cons_of_isEnd rfl, List.append_nil] at hstmts
    obtain ⟨front, place', hfront, _⟩ := scan_eq_append b
    have hmoved : (scan b).1.map (fun token => token.movedBy bytes lines) =
        front.map (fun token => token.movedBy bytes lines) ++ [.endOfInput (place'.movedBy bytes lines)] := by
      rw [hfront, List.map_append]
      rfl
    have happend := parseTokens_append hlive hstmts hfront hmoved
      (Matching.moved_forall₂ bytes lines (scan b).1)
    rw [hlexical] at hreport
    have hb := parseSource_of_valid hlexical
    have hab := parseSource_of_valid hreport
    rw [hboth] at hab
    rw [hb, hab]
    refine ⟨fun sb hok => ?_, fun diagnostic herror helse => ?_⟩
    · obtain ⟨more, hmore, hwhole⟩ | ⟨fault, _, _, hfault, _⟩ := happend (head_ne_else_of_parseTokens hok)
      · rw [hmore] at hok
        cases hok
        exact hwhole
      · exact absurd (hok.symm.trans hfault) (by simp)
    · obtain ⟨more, hmore, _⟩ | ⟨fault, fault', hmatches, hfault, hfault'⟩ := happend helse
      · exact absurd (herror.symm.trans hmore) (by simp)
      · rw [hfault] at herror
        cases herror
        rw [hfault', hmatches.report_eq]

theorem parseSource_append_openIf :
    parseSource "if(x)y;" = .ok (.block [.ifElse (.identifier "x") (.identifier "y") none]) ∧
    parseSource "z" =
      .error ⟨.syntactic, ⟨1, 1⟩, 1, 2, "Expected ';' after expression, found end of file",
      some "Statements must end with ';'"⟩ ∧
    parseSource ("if(x)y;" ++ "\n" ++ "z") =
      .error ⟨.syntactic, ⟨9, 9⟩, 2, 2, "Expected ';' after expression, found end of file",
        some "Statements must end with ';'"⟩ := by
  have htokens : (scan "if(x)y;").1 = [⟨.keyword .ifWord, "if", ⟨0, 1, 1⟩⟩,
    ⟨.mark .leftParen, "(", ⟨2, 1, 3⟩⟩, ⟨.identifier, "x", ⟨3, 1, 4⟩⟩,
    ⟨.mark .rightParen, ")", ⟨4, 1, 5⟩⟩, ⟨.identifier, "y", ⟨5, 1, 6⟩⟩,
    ⟨.mark .semicolon, ";", ⟨6, 1, 7⟩⟩, .endOfInput ⟨7, 1, 8⟩] := by decide +kernel
  have htokens' : (scan "z").1 = [⟨.identifier, "z", ⟨0, 1, 1⟩⟩, .endOfInput ⟨1, 1, 2⟩] := by decide +kernel
  have hok : parseSource "if(x)y;" = .ok (.block [.ifElse (.identifier "x") (.identifier "y") none]) := by
    rw [parseSource_of_valid (by rw [htokens]; rfl), htokens]
    rfl
  have herror : parseSource "z" = .error
      ⟨.syntactic, ⟨1, 1⟩, 1, 2, "Expected ';' after expression, found end of file",
        some "Statements must end with ';'"⟩ := by
    rw [parseSource_of_valid (by rw [htokens']; rfl), htokens']
    rfl
  refine ⟨hok, herror, ?_⟩
  exact (parseSource_append "if(x)y;" "z" _ hok).2 _ herror (by rw [htokens']; simp)

end ObsidianSyntax
