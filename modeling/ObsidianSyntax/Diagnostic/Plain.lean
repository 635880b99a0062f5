import ObsidianSyntax.Diagnostic.Basic
import ObsidianSyntax.Text.Blank

/-!
# Plain form of a diagnostic

A head with file, line and column, the line of the source, and a caret under the character at which
the span starts. A start that does not fit the source is clamped to it. The caret is moved along by
one character for each character before it, tabs standing for tabs, so that it lines up however wide
a tab is shown.
-/

namespace ObsidianSyntax

/-- The end of the text behind its last line feed. -/
def lastLine (text : List Char) : List Char := (text.reverse.takeWhile (· != '\n')).reverse

/-- The front of the text before its first line feed. -/
def firstLine (text : List Char) : List Char := text.takeWhile (· != '\n')

namespace Diagnostic

/-- The line of the source in which the span starts, as shown: without carriage returns at its end. -/
def shownLine (diagnostic : Diagnostic) (source : String) : List Char :=
  let (before, behind) := cutAtByte diagnostic.span.start source.toList
  dropTrailing (· == '\r') (lastLine before ++ firstLine behind)

/-- What stands before the caret, one character for each character of the line. -/
def caretIndent (diagnostic : Diagnostic) (source : String) : List Char :=
  (lastLine (cutAtByte diagnostic.span.start source.toList).1).map fun c => if c = '\t' then '\t' else ' '

/-- The head of the plain form: the place and the error. -/
def headLine (diagnostic : Diagnostic) (filename : String) : String :=
  filename ++ ":" ++ diagnostic.line.repr ++ ":" ++ diagnostic.column.repr ++ ": " ++ diagnostic.summary

/-- The plain form of a diagnostic on a source. -/
def plain (diagnostic : Diagnostic) (source filename : String) : String :=
  let number := diagnostic.line.repr
  let margin := String.ofList (List.replicate number.length ' ')
  let help :=
    match diagnostic.help with
    | some help => "    " ++ margin ++ " = help: " ++ help ++ "\n"
    | none => ""
  diagnostic.headLine filename ++ "\n"
    ++ "    " ++ number ++ " | " ++ String.ofList (diagnostic.shownLine source) ++ "\n"
    ++ "    " ++ margin ++ " | " ++ String.ofList (diagnostic.caretIndent source) ++ "^\n"
    ++ help

end Diagnostic

end ObsidianSyntax
