import ObsidianSyntax.Text.Ranges

/-!
# Blank characters

The characters with the Unicode property `White_Space`. They separate tokens, and they are what is
trimmed from the end of a line.
-/

namespace ObsidianSyntax

/-- The characters with the property `White_Space`. -/
def blankRanges : CharRanges :=
  [(0x9, 0xD), (0x20, 0x20), (0x85, 0x85), (0xA0, 0xA0), (0x1680, 0x1680), (0x2000, 0x200A),
   (0x2028, 0x2029), (0x202F, 0x202F), (0x205F, 0x205F), (0x3000, 0x3000)]

def isBlank (c : Char) : Bool := blankRanges.contains c

/-- The text without the characters of the class at its end. -/
def dropTrailing (inClass : Char → Bool) (text : List Char) : List Char :=
  (text.reverse.dropWhile inClass).reverse

/-- The text without the blanks at its end. -/
def trimEnd (text : String) : String := String.ofList (dropTrailing isBlank text.toList)

end ObsidianSyntax
