import ObsidianSyntax.CommandLine.Folder
import ObsidianSyntax.CommandLine.Options

/-!
# A run of the program

What a run with given arguments writes on either channel, and the code it ends with: 0 if all is
well, 1 if there is an error in the source or in reading it, 2 if the arguments cannot be
understood. Help comes before the version, and the version before any file.
-/

namespace ObsidianSyntax

/-- What a run writes and how it ends. -/
structure Outcome where
  code : Nat
  output : String
  errors : String
deriving DecidableEq, Repr

namespace Outcome

/-- A run that only writes. -/
def success (output : String) : Outcome := ⟨0, output, ""⟩

/-- A run that ends with an error of its own. -/
def failure (message : String) : Outcome := ⟨1, "", "obsidian: error: " ++ message ++ "\n"⟩

/-- A run whose arguments cannot be understood. -/
def misuse (fault : UsageFault) : Outcome := ⟨2, "", "error: " ++ fault.message ++ "\n"⟩

/-- A run that reports on a source. -/
def ofReport (report : Report) : Outcome := ⟨if report.succeeded then 0 else 1, report.output, report.errors⟩

end Outcome

/-- The overview of the options. -/
def usage : String :=
  "Usage: obsidian [options] file...\n"
    ++ "Options:\n"
    ++ "  --help                   Display this information.\n"
    ++ "  --help=\x7boptimizers|warnings|target\x7d\n"
    ++ "                           Display specific types of command line options.\n"
    ++ "  --version                Display compiler version information.\n"
    ++ "  --dump-tokens            Print the token stream instead of the syntax tree.\n"
    ++ "  --check                  Parse the file and print nothing on success.\n"
    ++ "  --error-format=<plain|pretty>\n"
    ++ "                           Choose how diagnostics are rendered.\n"
    ++ "\n"
    ++ "Report bugs at <https://github.com/obsidian-language/obsidian/issues>\n"

def versionLine : String := "obsidian version 0.1.0 (linux 0.1.0)\n"

def helpOn (topic : String) : Outcome :=
  match topic with
  | "" => .success usage
  | "optimizers" =>
    .success ("The following options control optimizations:\n"
      ++ " -O<number>        Set optimization level to <number>\n")
  | "warnings" => .success "The following options control compiler warning messages:\n"
  | "target" => .success "The following options are target specific:\n"
  | other => .failure ("unrecognized argument to '--help=' option: '" ++ other ++ "'")

/-- A run with options, where `read` gives the source in a file. -/
def Options.run {m : Type → Type} [Monad m] (options : Options)
    (read : String → m (Except ReadFault String)) :
    m Outcome :=
  match options.help with
  | some topic => return helpOn topic
  | none =>
    if options.version then return .success versionLine
    else
      match options.file with
      | none => return .failure "no input file"
      | some file => do
        match ← read file with
        | .ok source => return .ofReport (options.mode.report options.format source file)
        | .error fault => return .failure ("cannot read '" ++ file ++ "': " ++ fault.message)

/-- A run with arguments, where `read` gives the source in a file. -/
def run {m : Type → Type} [Monad m] (read : String → m (Except ReadFault String)) (arguments : List String) :
    m Outcome :=
  match Options.ofArguments arguments with
  | .ok options => options.run read
  | .error fault => return .misuse fault

end ObsidianSyntax
