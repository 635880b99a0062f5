/-!
# Places in a source text

A place is counted three ways at once: bytes of the UTF-8 form from the start of the text, lines,
and characters of the line. Only a line feed ends a line. A span is a range of bytes and carries no
promise that it fits a text, so looking a byte up in a text clamps it to the text and moves it back
to the front of the character it falls into.
-/

namespace ObsidianSyntax

/-- Where a character stands: bytes before it, and its line and column counted from one. -/
structure Position where
  offset : Nat
  line : Nat
  column : Nat
deriving DecidableEq, Repr

namespace Position

def start : Position := ⟨0, 1, 1⟩

/-- The place just behind the character `c` that stands at `place`. -/
def after (place : Position) (c : Char) : Position :=
  if c = '\n' then ⟨place.offset + c.utf8Size, place.line + 1, 1⟩
  else ⟨place.offset + c.utf8Size, place.line, place.column + 1⟩

/-- The place just behind a text that begins at `place`. -/
def afterText (place : Position) (text : List Char) : Position := text.foldl after place

@[simp] theorem afterText_nil (place : Position) : place.afterText [] = place := rfl

@[simp] theorem afterText_cons (place : Position) (c : Char) (text : List Char) :
    place.afterText (c :: text) = (place.after c).afterText text := rfl

@[simp] theorem afterText_append (place : Position) (first second : List Char) :
    place.afterText (first ++ second) = (place.afterText first).afterText second := by
  simp [afterText]

end Position

/-- A range of bytes, the end excluded. Nothing says that it fits a text, or that the end is not
before the start. -/
structure Span where
  start : Nat
  stop : Nat
deriving DecidableEq, Repr

namespace Span

/-- The single byte at `offset`. -/
def single (offset : Nat) : Span := ⟨offset, offset + 1⟩

/-- How many bytes the span covers: none when it ends before it starts. -/
def length (span : Span) : Nat := span.stop - span.start

def isEmpty (span : Span) : Bool := span.length == 0

end Span

/-- How many of the characters of `text` lie wholly before its byte `offset`. Past the end these are
all of them. -/
def charsBefore (offset : Nat) (text : List Char) : Nat := count offset text 0
where
  /-- Adds to `found` the characters that end within `room` bytes. -/
  count (room : Nat) : List Char → Nat → Nat
    | [], found => found
    | c :: rest, found => if c.utf8Size ≤ room then count (room - c.utf8Size) rest (found + 1) else found

/-- The text cut at byte `offset`, or at the front of the character that the byte falls into. -/
def cutAtByte (offset : Nat) (text : List Char) : List Char × List Char :=
  text.splitAt (charsBefore offset text)

end ObsidianSyntax
