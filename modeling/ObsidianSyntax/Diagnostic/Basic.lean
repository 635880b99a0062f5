import ObsidianSyntax.Text.Position

/-!
# Diagnostics

What is reported about a source: the kind of error, the bytes it concerns, the line and column it
starts at, a message, and sometimes a hint on what to write instead. The forms in which a diagnostic
is shown are in the modules beside this one.
-/

namespace ObsidianSyntax

/-- The stage at which an error is found. Errors of meaning belong to stages behind this library. -/
inductive ErrorKind where
  | lexical
  | syntactic
  | semantic
deriving DecidableEq, Repr

/-- The heading of the errors of a kind. -/
def ErrorKind.title : ErrorKind → String
  | .lexical => "Lexical Error"
  | .syntactic => "Syntax Error"
  | .semantic => "Semantic Error"

/-- One reported error. Nothing says that the span fits the source it is shown with. -/
structure Diagnostic where
  kind : ErrorKind
  span : Span
  line : Nat
  column : Nat
  message : String
  help : Option String
deriving DecidableEq, Repr

/-- The diagnostic in one line, without its place. -/
def Diagnostic.summary (diagnostic : Diagnostic) : String :=
  diagnostic.kind.title ++ ": " ++ diagnostic.message

end ObsidianSyntax
