import ObsidianSyntax.Diagnostic.Basic
import ObsidianSyntax.Text.Blank
import ObsidianSyntax.Text.Line
import ObsidianSyntax.Text.Width

/-!
# Colored form of a diagnostic

A framed report: the error, the place, the line of the source with the span in the color of the
error, a row that underlines the span and drops a line from its middle, and a row on which that line
runs on to the message. The place is taken from the span, not from the diagnostic's own line and
column, and lines end where a display breaks them. Only the line in which the span starts is shown.
-/

namespace ObsidianSyntax

/-- The code by which a terminal switches to a color. -/
structure Color where
  code : String

namespace Color

def red : Color := ⟨"31"⟩
def yellow : Color := ⟨"33"⟩
def magenta : Color := ⟨"35"⟩
def cyan : Color := ⟨"36"⟩
def frame : Color := ⟨"38;5;246"⟩
/-- The color of the frame beside rows that hold no source. -/
def faintFrame : Color := ⟨"38;5;240"⟩
def source : Color := ⟨"38;5;249"⟩
/-- The color of the word that announces a hint. -/
def note : Color := ⟨"38;5;115"⟩

def paint (color : Color) (text : String) : String := "\x1b[" ++ color.code ++ "m" ++ text ++ "\x1b[0m"

/-- A text in a color, painted over and over. -/
def paintTimes (color : Color) (count : Nat) (text : String) : String :=
  String.join (List.replicate count (color.paint text))

/-- A text in a color, one piece for each column of `width`: `first`, and then `next` in all others. -/
def paintAcross (color : Color) (first next : String) : Nat → String
  | 0 => ""
  | width + 1 => color.paint first ++ color.paintTimes width next

end Color

def ErrorKind.color : ErrorKind → Color
  | .lexical => .red
  | .syntactic => .yellow
  | .semantic => .magenta

/-- The span on its line: the line, the columns from `first` to before `last`, and the column from
which a line leads to the message. -/
structure Label where
  line : DisplayLine
  first : Nat
  last : Nat
  middle : Nat

namespace Label

def text (label : Label) : List Char := dropTrailing isBlank label.line.text

/-- How many columns of the screen the character `c` of a line fills at `column`. Tabs reach to the
next multiple of four, and other blanks are shown as one. -/
def charWidth (column : Nat) (c : Char) : Nat :=
  if c = '\t' then 4 - column % 4 else if isBlank c then 1 else displayWidth c

def covers (label : Label) (column : Nat) : Bool := label.first ≤ column && column < label.last

/-- The columns of the rows below the source, each behind its width on the screen. Columns behind
the line's text have width one. -/
def columns (label : Label) : List (Nat × Nat) :=
  let widths := label.text.mapIdx charWidth
  ((widths ++ List.replicate (label.last + 2 - widths.length) 1).take (label.last + 2)).zipIdx

/-- The source, each character in the color of the span or of what is outside. -/
def sourceRow (label : Label) (color : Color) : String :=
  String.join <| label.text.mapIdx fun column c =>
    let color := if label.covers column then color else Color.source
    if isBlank c then color.paintTimes (charWidth column c) " "
    else color.paint (String.singleton c)

def underline (label : Label) (color : Color) : String :=
  String.join <| label.columns.map fun (width, column) =>
    if column = label.middle then
      if label.covers column then color.paintAcross "┬" "─" width else color.paintAcross "│" " " width
    else if label.covers column then color.paintTimes width "─"
    else String.ofList (List.replicate width ' ')

/-- The row from under the middle of the span to the message. -/
def leader (label : Label) (color : Color) : String :=
  String.join <| label.columns.map fun (width, column) =>
    if column < label.middle then String.ofList (List.replicate width ' ')
    else if column = label.middle then color.paintAcross "╰" "─" width
    else color.paintTimes width "─"

end Label

namespace Diagnostic

/-- Where the span stands on the line in which it starts. There is no line in an empty source. -/
def label? (diagnostic : Diagnostic) (source : String) : Option Label :=
  let text := source.toList
  let first := charsBefore diagnostic.span.start text
  let last := max first (charsBefore diagnostic.span.stop text)
  (findLine first 1 0 (displayLines text [])).map fun line =>
    ⟨line, first - line.start, last - line.start, (first + last) / 2 - line.start⟩

/-- The head of the colored form: the error without its place. -/
def paintedSummary (diagnostic : Diagnostic) : String :=
  Color.red.paint "Error:" ++ " " ++ diagnostic.kind.color.paint diagnostic.kind.title ++ ": " ++
    diagnostic.message ++ "\n"

/-- The report below the head: the place, the line with the span, the message and the hint. -/
def frame (diagnostic : Diagnostic) (label : Label) (filename : String) : String :=
  let color := diagnostic.kind.color
  let number := label.line.number.repr
  let blanks (count : Nat) := String.ofList (List.replicate count ' ')
  let place := filename ++ ":" ++ number ++ ":" ++ (label.first + 1).repr
  let gutter := " " ++ Color.faintFrame.paint (blanks (number.length + 1) ++ "│") ++ " "
  let help :=
    match diagnostic.help with
    | some help =>
      gutter ++ "\n" ++ gutter ++ Color.note.paint "Note" ++ ": " ++ Color.cyan.paint "help" ++
        ": " ++ help ++ "\n"
    | none => ""
  blanks (number.length + 2) ++ Color.frame.paint "╭" ++ Color.frame.paint "─" ++ Color.frame.paint "["
    ++ place ++ Color.frame.paint "]" ++ "\n"
    ++ blanks (number.length + 2) ++ Color.frame.paint "│" ++ "\n"
    ++ " " ++ Color.frame.paint (number ++ " │") ++ " " ++ label.sourceRow color ++ "\n"
    ++ gutter ++ label.underline color ++ "\n"
    ++ gutter ++ label.leader color ++ " " ++ diagnostic.message ++ "\n"
    ++ help
    ++ Color.frame.paint (String.ofList (List.replicate (number.length + 2) '─') ++ "╯") ++ "\n"

/-- The colored form of a diagnostic on a source. -/
def pretty (diagnostic : Diagnostic) (source filename : String) : String :=
  match diagnostic.label? source with
  | some label => diagnostic.paintedSummary ++ diagnostic.frame label filename
  | none => diagnostic.paintedSummary

end Diagnostic

end ObsidianSyntax
