import ObsidianSyntax.Diagnostic.Plain
import ObsidianSyntax.Diagnostic.Pretty
import ObsidianSyntax.Source
import ObsidianSyntax.Tree.Printer

/-!
# Reports on a source

What is written about a source on either channel, and whether it was found to be free of errors.
There are three modes: the listing of the tokens, the dump of the program's tree, and the mere
check. The listing is written even if some tokens are invalid.
-/

namespace ObsidianSyntax

/-- What is to be reported about a source. -/
inductive Mode where
  | tokens
  | tree
  | check
deriving DecidableEq, Repr

/-- The form in which diagnostics are shown. -/
inductive ErrorFormat where
  | plain
  | pretty
deriving DecidableEq, Repr

/-- The mode that is used unless another is asked for. -/
def Mode.default : Mode := .tree

/-- The form that is used unless another is asked for. -/
def ErrorFormat.default : ErrorFormat := .plain

def Diagnostic.render (diagnostic : Diagnostic) (format : ErrorFormat) (source filename : String) : String :=
  match format with
  | .plain => diagnostic.plain source filename
  | .pretty => diagnostic.pretty source filename

/-- What is written on the two channels, and whether no error was found. -/
structure Report where
  output : String
  errors : String
  succeeded : Bool
deriving DecidableEq, Repr

def Mode.report (mode : Mode) (format : ErrorFormat) (source filename : String) : Report :=
  match mode with
  | .tokens =>
    let (listing, diagnostics) := listTokens source
    ⟨listing, String.join
      (diagnostics.map fun diagnostic => diagnostic.render format source filename), diagnostics.isEmpty⟩
  | .tree => ofParse Tree.dump
  | .check => ofParse fun _ => ""
where
  /-- The report on a source that is parsed, with what is written for its program. -/
  ofParse (write : Tree → String) : Report :=
    match parseSource source with
    | .ok program => ⟨write program, "", true⟩
    | .error diagnostic =>
      ⟨"", diagnostic.render format source filename ++ "obsidian: parsing failed\n", false⟩

end ObsidianSyntax
