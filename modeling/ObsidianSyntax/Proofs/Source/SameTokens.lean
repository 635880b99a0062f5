import ObsidianSyntax.Proofs.Parse.Alike
import ObsidianSyntax.Proofs.Token.Stream

/-!
# Layout does not matter

Two sources with the same tokens, one by one and apart from their places, are parsed to the same
tree or refused for the same reason at the same token, whatever blanks, comments and line ends stand
between the tokens. For a fault of the parser this is so as parsing does not look at places; for a
lexical error, as the text of the invalid token shows it.
-/

namespace ObsidianSyntax

/-- Tokens at the same index of two lists, if they differ in nothing but their places. -/
def Matching.byIndex (tokens tokens' : List Token) : Matching where
  Pairs token token' := (token.kind = token'.kind ∧ token.lexeme = token'.lexeme) ∧
    ∃ index : Nat, tokens[index]? = some token ∧ tokens'[index]? = some token'
  kind_eq hpair := hpair.1.1
  lexeme_eq hpair := hpair.1.2

/-- What the parser sees of a token. -/
def Token.content (token : Token) : Kind × String := (token.kind, token.lexeme)

section

variable {tokens tokens' : List Token}

theorem Matching.byIndex_forall₂ (hsame : tokens.map Token.content = tokens'.map Token.content) :
    List.Forall₂ (byIndex tokens tokens').Pairs tokens tokens' := by
  have hlength : tokens.length = tokens'.length := by simpa using congrArg List.length hsame
  refine List.forall₂_iff_get.2 ⟨hlength, fun index hlt hlt' => ?_⟩
  have hcontent : tokens[index].content = tokens'[index].content := by
    have hget := congrArg (·[index]?) hsame
    simpa [hlt, hlt'] using hget
  exact ⟨⟨congrArg Prod.fst hcontent, congrArg Prod.snd hcontent⟩, index, by simp [hlt], by simp [hlt']⟩

/-- The first invalid tokens of two lists stand for each other and are broken in the same way. -/
theorem Matching.findSome?_lexicalReport? {m : Matching} (hpairs : List.Forall₂ m.Pairs tokens tokens') :
    (tokens.findSome? Token.lexicalReport? = none ∧ tokens'.findSome? Token.lexicalReport? = none) ∨
    ∃ token token' fault, m.Pairs token token' ∧ token.fault? = some fault ∧ token'.fault? = some fault ∧
      tokens.findSome? Token.lexicalReport? = some (fault.report token) ∧
      tokens'.findSome? Token.lexicalReport? = some (fault.report token') := by
  induction hpairs with
  | nil => exact .inl ⟨rfl, rfl⟩
  | @cons token token' tokens tokens' hpair _ ih =>
    have hsame : token'.fault? = token.fault? := by rw [Token.fault?, Token.fault?, m.kind_eq hpair,
      m.lexeme_eq hpair]
    cases hfault : token.fault? with
    | none => simpa [List.findSome?_cons, Token.lexicalReport?, hsame, hfault] using ih
    | some fault =>
      rw [hfault] at hsame
      exact .inr ⟨token, token', fault, hpair, hfault, hsame, by simp [Token.lexicalReport?, hfault],
        by simp [Token.lexicalReport?, hsame]⟩

end

/-- The diagnostic is about the token. It points at all of its text, or at the first character alone
if the token is a literal that is not closed. -/
structure Diagnostic.IsAbout (diagnostic : Diagnostic) (token : Token) : Prop where
  start_eq : diagnostic.span.start = token.span.start
  line_eq : diagnostic.line = token.place.line
  column_eq : diagnostic.column = token.place.column
  stop_eq : diagnostic.span.stop =
    if token.fault?.any LexicalFault.isAtQuote then token.span.start + 1 else token.span.stop

theorem LexicalFault.report_isAbout {fault : LexicalFault} {token : Token}
    (hfault : token.fault? = some fault) :
    (fault.report token).IsAbout token := by
  cases hquote : fault.isAtQuote <;> constructor <;> simp [report, hquote, hfault, Token.span, Span.single]

theorem Fault.report_isAbout {fault : Fault} (hvalid : fault.token.fault? = none) :
    fault.report.IsAbout fault.token := by
  constructor <;> simp [report, hvalid]

/-- The two sources are refused for the same reason, each at its own token of the same index. -/
structure RefusedAlike (source source' : String) (diagnostic diagnostic' : Diagnostic)
    (index : Nat) : Prop where
  error : parseSource source = .error diagnostic
  error' : parseSource source' = .error diagnostic'
  kind_eq : diagnostic.kind = diagnostic'.kind
  message_eq : diagnostic.message = diagnostic'.message
  help_eq : diagnostic.help = diagnostic'.help
  isAbout : ∃ token, (scan source).1[index]? = some token ∧ diagnostic.IsAbout token
  isAbout' : ∃ token, (scan source').1[index]? = some token ∧ diagnostic'.IsAbout token

section

variable {source source' : String}

theorem refusedAlike_of_invalid {token token' : Token} {fault : LexicalFault}
    (hpair : (Matching.byIndex (scan source).1 (scan source').1).Pairs token token')
    (hfault : token.fault? = some fault) (hfault' : token'.fault? = some fault)
    (hreport : (scan source).1.findSome? Token.lexicalReport? = some (fault.report token))
    (hreport' : (scan source').1.findSome? Token.lexicalReport? = some (fault.report token')) :
    ∃ diagnostic diagnostic' index, RefusedAlike source source' diagnostic diagnostic' index := by
  obtain ⟨_, index, hget, hget'⟩ := hpair
  exact ⟨fault.report token, fault.report token', index, parseSource_of_invalid hreport,
    parseSource_of_invalid hreport', rfl, rfl,
    rfl, ⟨token, hget, LexicalFault.report_isAbout hfault⟩,
    ⟨token', hget', LexicalFault.report_isAbout hfault'⟩⟩

theorem refusedAlike_of_fault {fault fault' : Fault}
    (hvalid : (scan source).1.findSome? Token.lexicalReport? = none)
    (hvalid' : (scan source').1.findSome? Token.lexicalReport? = none)
    (hmatches : fault.Matches (.byIndex (scan source).1 (scan source').1) fault')
    (herror : parseTokens (scan source).1 = .error fault.report)
    (herror' : parseTokens (scan source').1 = .error fault'.report) :
    ∃ diagnostic diagnostic' index, RefusedAlike source source' diagnostic diagnostic' index := by
  obtain ⟨hcause, hoperator, hpair⟩ := hmatches
  obtain ⟨_, index, hget, hget'⟩ := id hpair
  have habout := Fault.report_isAbout (fault?_of_valid hvalid _ (List.mem_of_getElem? hget))
  have habout' := Fault.report_isAbout (fault?_of_valid hvalid' _ (List.mem_of_getElem? hget'))
  have hmessage : fault.cause.message fault.token = fault'.cause.message fault'.token := by
    rw [← hcause, Matching.message_eq hpair]
  have hhelp : fault.help = fault'.help := by rw [Fault.help, Fault.help, hcause, hoperator]
  exact ⟨fault.report, fault'.report, index, (parseSource_of_valid hvalid).trans herror,
    (parseSource_of_valid hvalid').trans herror',
    rfl, hmessage, hhelp, ⟨fault.token, hget, habout⟩, ⟨fault'.token, hget', habout'⟩⟩

end

/-- The tokens of a source decide what becomes of it, and their places do not. Sources with the same
kinds and texts of tokens, invalid ones included, are parsed to the same tree, or both refused with
the same kind of error, message and hint, at tokens with the same index. -/
theorem parseSource_ignores_layout (source source' : String)
    (hsame : (scan source).1.map Token.content = (scan source').1.map Token.content) :
    (∃ tree, parseSource source = .ok tree ∧ parseSource source' = .ok tree) ∨
      ∃ diagnostic diagnostic' index, RefusedAlike source source' diagnostic diagnostic' index := by
  have hpairs := Matching.byIndex_forall₂ hsame
  obtain ⟨hvalid, hvalid'⟩ | ⟨token, token', fault, hpair, hfault, hfault', hreport, hreport'⟩ :=
    Matching.findSome?_lexicalReport? hpairs
  · obtain ⟨before, place, htokens, _⟩ := scan_eq_append source
    obtain ⟨before', place', htokens', _⟩ := scan_eq_append source'
    have hmatches := Matching.ofTokens_matches htokens htokens' hpairs
    obtain hsameTree | ⟨fault, fault', hfaults, herror, herror'⟩ := parseTokens_alike hmatches
    · rw [parseSource_of_valid hvalid, parseSource_of_valid hvalid']
      exact .inl hsameTree
    · exact .inr (refusedAlike_of_fault hvalid hvalid' hfaults herror herror')
  · exact .inr (refusedAlike_of_invalid hpair hfault hfault' hreport hreport')

theorem parseSource_ignores_layout_openGroup :
    (scan "(2;").1.map Token.content = (scan "#\n( 2;").1.map Token.content ∧
      ∃ diagnostic diagnostic' index, RefusedAlike "(2;" "#\n( 2;" diagnostic diagnostic' index := by
  have htokens : (scan "(2;").1 = [⟨.mark .leftParen, "(", ⟨0, 1, 1⟩⟩, ⟨.intLiteral, "2", ⟨1, 1, 2⟩⟩,
      ⟨.mark .semicolon, ";", ⟨2, 1, 3⟩⟩, .endOfInput ⟨3, 1, 4⟩] := by decide +kernel
  have htokens' : (scan "#\n( 2;").1 = [⟨.mark .leftParen, "(", ⟨2, 2, 1⟩⟩, ⟨.intLiteral, "2", ⟨4, 2, 3⟩⟩,
      ⟨.mark .semicolon, ";", ⟨5, 2, 4⟩⟩, .endOfInput ⟨6, 2, 5⟩] := by decide +kernel
  have hsame : (scan "(2;").1.map Token.content = (scan "#\n( 2;").1.map Token.content := by
    rw [htokens, htokens']
    rfl
  refine ⟨hsame, ?_⟩
  obtain ⟨tree, hok, _⟩ | hrefused := parseSource_ignores_layout "(2;" "#\n( 2;" hsame
  · have hnone : (scan "(2;").1.findSome? Token.lexicalReport? = none := by
      rw [htokens]
      rfl
    rw [parseSource_of_valid hnone, htokens] at hok
    cases hok
  · exact hrefused

end ObsidianSyntax
