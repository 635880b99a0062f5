import ObsidianSyntax.Text.Ranges

/-!
# Lines of a text

The lines into which a text is broken for display. Besides the line feed, six more characters end a
line, and a carriage return with a line feed behind it ends one line only. Each line keeps the
character that ends it, and a break at the very end starts no further line.
-/

namespace ObsidianSyntax

/-- The characters that end a line: line feed, vertical tab, form feed, carriage return, next line,
and the two separators. -/
def lineBreaks : CharRanges := [(0xA, 0xD), (0x85, 0x85), (0x2028, 0x2029)]

/-- The lines of `current` reversed and then `text`. -/
def displayLines : List Char → List Char → List (List Char)
  | [], current => if current.isEmpty then [] else [current.reverse]
  | c :: rest, current =>
    if lineBreaks.contains c && !(c == '\r' && rest.head? == some '\n') then
      (c :: current).reverse :: displayLines rest []
    else displayLines rest (c :: current)

/-- A line of a text: its number counted from one, how many characters stand before it, and its characters. -/
structure DisplayLine where
  number : Nat
  start : Nat
  text : List Char

/-- The line that holds character `index`, the last line when none does. The first line given starts
at character `start` and has number `number`. -/
def findLine (index number start : Nat) : List (List Char) → Option DisplayLine
  | [] => none
  | line :: rest =>
    if start + line.length ≤ index then
      (findLine index (number + 1) (start + line.length) rest).or (some ⟨number, start, line⟩)
    else some ⟨number, start, line⟩

end ObsidianSyntax
