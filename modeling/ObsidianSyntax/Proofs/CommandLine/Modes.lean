import ObsidianSyntax.CommandLine.Run
import ObsidianSyntax.Proofs.Source.Strict

/-!
# The three modes tell one story

The dump of the tree and the mere check go by the strict reading of a source, the listing of the
tokens by the lenient one. So they could tell different things about the same source. They do not:
the listing finds an error exactly if the other two fail for a lexical one, and shows first what the
other two show.

The modes are compared as runs of the whole program, with arguments that differ in the mode only.
-/

namespace ObsidianSyntax

/-! ### Arguments for each mode -/

/-- The options that ask for a mode. -/
def Mode.options : Mode → List String
  | .tokens => ["--dump-tokens"]
  | .tree => []
  | .check => ["--check"]

/-- The value that asks for a form of errors. -/
def ErrorFormat.name : ErrorFormat → String
  | .plain => "plain"
  | .pretty => "pretty"

/-- Arguments for a mode and a form of errors. The file may have any name, also one that starts with
a hyphen. -/
def Mode.arguments (mode : Mode) (format : ErrorFormat) (filename : String) : List String :=
  mode.options ++ ["--error-format", format.name, "--", filename]

variable (mode : Mode) (format : ErrorFormat) (source filename : String)

theorem Options.ofArguments_arguments :
    Options.ofArguments (mode.arguments format filename) =
      .ok ⟨none, false, mode = .tokens, mode = .check, some format, some filename⟩ := by
  cases mode <;> cases format <;> rfl

theorem Options.mode_arguments :
    (⟨none, false, mode = .tokens, mode = .check, some format, some filename⟩ : Options).mode = mode := by
  cases mode <;> rfl

theorem run_arguments {m : Type → Type} [Monad m] (read : String → m (Except ReadFault String)) :
    run read (mode.arguments format filename) = do
      match ← read filename with
      | .ok source => return .ofReport (mode.report format source filename)
      | .error fault => return .failure ("cannot read '" ++ filename ++ "': " ++ fault.message) := by
  rw [run, Options.ofArguments_arguments]
  simp only [Options.run, Options.mode_arguments, Options.format, Option.getD_some]
  rfl

/-- The run on a file that holds the source. -/
def Mode.outcome : Outcome := Id.run (run (fun _ => pure (.ok source)) (mode.arguments format filename))

theorem Mode.outcome_eq :
    mode.outcome format source filename = .ofReport (mode.report format source filename) := by
  rw [outcome, run_arguments]
  rfl

/-! ### Each mode -/

section

variable {format source filename}

theorem outcome_tree_of_ok {program : Tree} (hparse : parseSource source = .ok program) :
    Mode.tree.outcome format source filename = ⟨0, program.dump, ""⟩ := by
  rw [Mode.outcome_eq, Mode.report, Mode.report.ofParse, hparse]
  rfl

theorem outcome_tree_of_error {diagnostic : Diagnostic} (hparse : parseSource source = .error diagnostic) :
    Mode.tree.outcome format source filename =
      ⟨1, "", diagnostic.render format source filename ++ "obsidian: parsing failed\n"⟩ := by
  rw [Mode.outcome_eq, Mode.report, Mode.report.ofParse, hparse]
  rfl

/-- What is shown first with the listing is what a source is refused for by the strict reading. -/
theorem parseSource_eq_error_of_scan {first : Diagnostic} {rest : List Diagnostic}
    (hscan : (scan source).2 = first :: rest) :
    parseSource source = .error first ∧ first.kind = .lexical := by
  rw [parseSource_eq_lexical_iff, tokenize_eq_error_iff, ← head?_scan, hscan, List.head?_cons]

theorem kind_ne_lexical_of_scan {diagnostic : Diagnostic} (hscan : (scan source).2 = [])
    (hparse : parseSource source = .error diagnostic) : diagnostic.kind ≠ .lexical := by
  intro hkind
  have htokenize := parseSource_eq_lexical_iff.1 ⟨hparse, hkind⟩
  rw [tokenize_eq_error_iff, ← head?_scan, hscan] at htokenize
  cases htokenize

end

theorem outcome_check :
    Mode.check.outcome format source filename =
      { Mode.tree.outcome format source filename with output := "" } := by
  rw [Mode.outcome_eq, Mode.outcome_eq]
  cases hparse : parseSource source with
  | ok program | error diagnostic => simp [Mode.report, Mode.report.ofParse, hparse, Outcome.ofReport]

theorem outcome_tokens :
    Mode.tokens.outcome format source filename =
      ⟨if (scan source).2.isEmpty then 0 else 1,
        String.join (((scan source).1.filter fun token => !token.isEnd).map Token.listingLine),
        String.join ((scan source).2.map fun diagnostic => diagnostic.render format source filename)⟩ := by
  rw [Mode.outcome_eq]
  rfl

/-! ### The three together -/

/-- How the outcomes in the three modes belong together. -/
structure ModesAgree (tokens tree check : Outcome) : Prop where
  check_code : check.code = tree.code
  check_errors : check.errors = tree.errors
  check_output : check.output = ""
  tree_accepted : ∀ program, parseSource source = .ok program → tree = ⟨0, program.dump, ""⟩
  tree_refused : ∀ diagnostic, parseSource source = .error diagnostic →
    tree = ⟨1, "", diagnostic.render format source filename ++ "obsidian: parsing failed\n"⟩
  tokens_code : tokens.code = 0 ∨ tokens.code = 1
  tokens_code_iff : tokens.code = 1 ↔
    ∃ diagnostic, parseSource source = .error diagnostic ∧ diagnostic.kind = .lexical
  tokens_output :
    tokens.output = String.join (((scan source).1.filter fun token => !token.isEnd).map Token.listingLine)
  tokens_silent : tokens.code = 0 → tokens.errors = ""
  /-- The others show the first of what the listing shows, and one line more. -/
  tokens_errors : tokens.code = 1 → ∃ first rest, (scan source).2 = first :: rest ∧
    tokens.errors = first.render format source filename ++
      String.join (rest.map fun diagnostic => diagnostic.render format source filename) ∧
    tree.errors = first.render format source filename ++ "obsidian: parsing failed\n"

/-- For every source, name of its file and form of errors, the three modes agree. The check ends
like the dump, with the same errors, and writes nothing; the dump is the tree's if the source is
accepted and empty otherwise; the listing is always whole, and it ends with an error exactly if the
others fail for a lexical one, which is then the first that the listing shows. -/
theorem modes_agree :
    ModesAgree format source filename (Mode.tokens.outcome format source filename)
      (Mode.tree.outcome format source filename) (Mode.check.outcome format source filename) where
  check_code := by rw [outcome_check]
  check_errors := by rw [outcome_check]
  check_output := by rw [outcome_check]
  tree_accepted := fun _ => outcome_tree_of_ok
  tree_refused := fun _ => outcome_tree_of_error
  tokens_code := by
    rw [outcome_tokens]
    cases (scan source).2 <;> simp
  tokens_code_iff := by
    rw [outcome_tokens]
    cases hscan : (scan source).2 with
    | nil => simpa using fun diagnostic => kind_ne_lexical_of_scan hscan
    | cons first rest => simpa using ⟨first, parseSource_eq_error_of_scan hscan⟩
  tokens_output := by rw [outcome_tokens]
  tokens_silent := by
    rw [outcome_tokens]
    cases (scan source).2 <;> simp
  tokens_errors := by
    intro hcode
    rw [outcome_tokens] at hcode ⊢
    cases hscan : (scan source).2 with
    | nil => simp [hscan] at hcode
    | cons first rest =>
      obtain ⟨hparse, _⟩ := parseSource_eq_error_of_scan hscan
      refine ⟨first, rest, rfl, ?_, ?_⟩
      · simp
      · rw [outcome_tree_of_error hparse]

end ObsidianSyntax
