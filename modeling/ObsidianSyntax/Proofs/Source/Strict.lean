import ObsidianSyntax.Proofs.Fault.Earliest
import ObsidianSyntax.Proofs.Token.Stream

/-!
# Strict and lenient reading agree

A source is read strictly, up to the first invalid token, or leniently to its end with all that is
reported on the way. The two readings are about the same tokens, so the strict one fails exactly if
the lenient one reports something, and with what that reports first. A lenient reading can be handed
to the parser as well. No grammar rule has a place for an invalid token, so the parser accepts such
a list exactly if it has no invalid tokens, which is when the strict reading gives the same list.
-/

namespace ObsidianSyntax

open Grammar

/-! ### Derivations without invalid tokens -/

def Terminal.IsValid (terminal : Terminal) : Prop := terminal.kind ≠ .invalid

/-- All terminals are valid. -/
def AllValid (ts : List Terminal) : Prop := ∀ t ∈ ts, t.IsValid

section

variable {t : Terminal} {ts us : List Terminal}

@[simp] theorem allValid_nil : AllValid [] := nofun

@[simp] theorem allValid_cons : AllValid (t :: ts) ↔ t.IsValid ∧ AllValid ts := List.forall_mem_cons

@[simp] theorem allValid_append : AllValid (ts ++ us) ↔ AllValid ts ∧ AllValid us := List.forall_mem_append

@[simp] theorem Terminal.isValid_mark (mark : Mark) : (Terminal.mark mark).IsValid := nofun

@[simp] theorem Terminal.isValid_keyword (word : Keyword) : (Terminal.keyword word).IsValid := nofun

@[simp] theorem Terminal.isValid_name (text : String) : (Terminal.name text).IsValid := nofun

theorem Terminal.NamesType.isValid {type : TypeName} (htype : t.NamesType type) : t.IsValid := by
  intro hkind
  obtain ⟨htype | hname, _⟩ := htype
  · rw [hkind] at htype
    cases htype
  · rw [hkind] at hname
    cases hname

theorem Terminal.Denotes.isValid {value : Literal} (hvalue : t.Denotes value) : t.IsValid := by
  cases hvalue <;> exact nofun

end

namespace Grammar

theorem IsParam.allValid {ts : List Terminal} {param : Param} (hparam : IsParam ts param) : AllValid ts := by
  cases hparam with
  | intro htype => simp [htype.isValid]

theorem Separated.allValid {ts : List Terminal} {params : List Param}
    (hparams : Separated IsParam ts params) : AllValid ts := by
  induction hparams with
  | one hparam => exact hparam.allValid
  | cons hparam _ ih => simp [hparam.allValid, ih]

theorem Params.allValid {ts : List Terminal} {params : List Param} (hparams : Params ts params) :
    AllValid ts := by
  cases hparams with
  | none => exact allValid_nil
  | some hparams => exact hparams.allValid

theorem Returns.allValid {ts : List Terminal} {type : TypeName} (htype : Returns ts type) : AllValid ts := by
  cases htype with
  | nothing => exact allValid_nil
  | type htype => simp [htype.isValid]

mutual

theorem Primary.allValid {n : Nat} {ts : List Terminal} {tree : Tree} : Primary n ts tree → AllValid ts
  | .literal hvalue => by simp [hvalue.isValid]
  | .name => by simp
  | .group hexpr | .builtin hexpr => by simp [hexpr.allValid]
  | .sizeOf htype => by simp [htype.isValid]
  | .unsafeBlock hbody => by simp [hbody.allValid]
  | .cast htype hexpr => by simp [htype.isValid, hexpr.allValid]

theorem Expr.allValid {n : Nat} {ts : List Terminal} {p : Precedence} {tree : Tree} :
    Expr n p ts tree → AllValid ts
  | .primary hprimary => hprimary.allValid
  | .before _ _ hoperand | .behind _ hoperand => by simp [hoperand.allValid]
  | .call hcallee harguments => by simp [hcallee.allValid, harguments.allValid]
  | .binary _ _ hleft hright | .power _ hleft hright => by simp [hleft.allValid, hright.allValid]
  | .assign _ htarget hvalue => by simp [htarget.allValid, hvalue.allValid]
  | .ternary _ hcondition hconsequent halternative => by
    simp [hcondition.allValid, hconsequent.allValid, halternative.allValid]

theorem Args.allValid {n : Nat} {ts : List Terminal} {arguments : List Tree} :
    Args n ts arguments → AllValid ts
  | .none => allValid_nil
  | .some harguments => harguments.allValid

theorem Exprs.allValid {n : Nat} {ts : List Terminal} {arguments : List Tree} :
    Exprs n ts arguments → AllValid ts
  | .one hexpr => hexpr.allValid
  | .cons hexpr hrest => by simp [hexpr.allValid, hrest.allValid]

theorem Clause.allValid {n : Nat} {ts : List Terminal} {value : Option Tree} : Clause n ts value → AllValid ts
  | .none => allValid_nil
  | .some hexpr => hexpr.allValid

theorem Stmt.allValid {n : Nat} {ts : List Terminal} {isOpen : Bool} {tree : Tree} :
    Stmt n isOpen ts tree → AllValid ts
  | .block hbody => by simp [hbody.allValid]
  | .functionDef hparams htype hbody => by simp [hparams.allValid, htype.allValid, hbody.allValid]
  | .declaration htype => by simp [htype.isValid]
  | .initialized htype hvalue => by simp [htype.isValid, hvalue.allValid]
  | .ifThen hcondition hconsequent => by simp [hcondition.allValid, hconsequent.allValid]
  | .ifElse hcondition hconsequent halternative => by
    simp [hcondition.allValid, hconsequent.allValid, halternative.allValid]
  | .whileLoop hcondition hbody => by simp [hcondition.allValid, hbody.allValid]
  | .forLoop hstart hcondition hstep hbody => by
    simp [hstart.allValid, hcondition.allValid, hstep.allValid, hbody.allValid]
  | .returnStmt hvalue => by simp [hvalue.allValid]
  | .println hexpr => by simp [hexpr.allValid]
  | .expression _ hexpr => by simp [hexpr.allValid]

theorem Stmts.allValid {n : Nat} {ts : List Terminal} {body : List Tree} : Stmts n ts body → AllValid ts
  | .nil => allValid_nil
  | .cons hstmt hrest => by simp [hstmt.allValid, hrest.allValid]

end

end Grammar

/-- The parser accepts no list of tokens with an invalid one before the end of the input. -/
theorem kind_ne_invalid_of_parseTokens {tokens : List Token} {tree : Tree}
    (hparse : parseTokens tokens = .ok tree) :
    ∀ token ∈ tokens.takeWhile fun token => !token.isEnd, token.kind ≠ .invalid := by
  obtain ⟨body, hstmts, _⟩ := parseTokens_eq_ok_iff.1 hparse
  intro token hmem
  exact hstmts.allValid token.terminal (List.mem_map_of_mem hmem)

/-! ### What is reported -/

/-- The strict reading stops for what the lenient one reports first. -/
theorem head?_scan (source : String) :
    (scan source).2.head? = (scan source).1.findSome? Token.lexicalReport? := by
  rw [scan_eq, List.head?_filterMap]

theorem scan_reports_nothing_iff {source : String} :
    (scan source).2 = [] ↔ (scan source).1.findSome? Token.lexicalReport? = none := by
  rw [← head?_scan, List.head?_eq_none_iff]

/-- A source whose tokens the parser accepts, the invalid ones among them, has none that are reported. -/
theorem reports_nothing_of_parseTokens {source : String} {tree : Tree}
    (hparse : parseTokens (scan source).1 = .ok tree) :
    (scan source).1.findSome? Token.lexicalReport? = none := by
  obtain ⟨before, place, htokens, hlive⟩ := scan_eq_append source
  have hall := kind_ne_invalid_of_parseTokens hparse
  rw [htokens, List.takeWhile_append_of_pos fun token hmem => by simp [(hlive token hmem).1]] at hall
  rw [htokens, List.findSome?_eq_none_iff]
  intro token hmem
  obtain hmem | hmem := List.mem_append.1 hmem
  · exact Token.lexicalReport?_of_kind_ne (hall token (List.mem_append_left _ hmem))
  · rw [List.mem_singleton.1 hmem]
    exact Token.lexicalReport?_endOfInput place

theorem kind_of_parseTokens_eq_error {tokens : List Token} {diagnostic : Diagnostic}
    (herror : parseTokens tokens = .error diagnostic) : diagnostic.kind = .syntactic := by
  unfold parseTokens at herror
  cases hresult : Parse.program maxDepth (.ofTokens tokens) with
  | ok tree after => simp [hresult] at herror
  | error fault after =>
    obtain rfl : fault.report = diagnostic := by simpa [hresult] using herror
    rfl

/-- What is lexical about a source that is refused was found by the strict reading. -/
theorem parseSource_eq_lexical_iff {source : String} {diagnostic : Diagnostic} :
    (parseSource source = .error diagnostic ∧ diagnostic.kind = .lexical) ↔
      tokenize source = .error diagnostic := by
  refine ⟨fun h => ?_, fun herror => ?_⟩
  · obtain ⟨herror, hkind⟩ := h
    obtain hlexical | ⟨tokens, _, hparse⟩ := parseSource_eq_error herror
    · exact hlexical
    · rw [kind_of_parseTokens_eq_error hparse] at hkind
      cases hkind
  · exact ⟨parseSource_of_invalid (tokenize_eq_error_iff.1 herror), kind_eq_lexical_of_tokenize herror⟩

/-- The strict reading of a source succeeds exactly if the lenient one reports nothing, and then
gives the same tokens; otherwise it fails with what the lenient one reports first. So a source is
refused for something lexical exactly if something is reported at all, and for the first of it. The
parser accepts the tokens of the lenient reading, which may be invalid, exactly if the source is
accepted, and as the same tree. -/
theorem strict_reading_agrees_with_lenient (source : String) :
    (∀ tokens, tokenize source = .ok tokens ↔ (scan source).2 = [] ∧ (scan source).1 = tokens) ∧
    (∀ diagnostic, tokenize source = .error diagnostic ↔ (scan source).2.head? = some diagnostic) ∧
    (∀ diagnostic, (parseSource source = .error diagnostic ∧ diagnostic.kind = .lexical) ↔
      (scan source).2.head? = some diagnostic) ∧
    ∀ tree, parseTokens (scan source).1 = .ok tree ↔ parseSource source = .ok tree := by
  refine ⟨fun tokens => ?_, fun diagnostic => ?_, fun diagnostic => ?_, fun tree => ?_⟩
  · rw [tokenize_eq_ok_iff, scan_reports_nothing_iff]
  · rw [tokenize_eq_error_iff, head?_scan]
  · rw [parseSource_eq_lexical_iff, tokenize_eq_error_iff, head?_scan]
  · rw [parseSource_eq_ok_iff]
    exact ⟨fun hparse => ⟨reports_nothing_of_parseTokens hparse, hparse⟩, fun h => h.2⟩

end ObsidianSyntax
