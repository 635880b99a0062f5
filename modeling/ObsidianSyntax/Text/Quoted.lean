import ObsidianSyntax.Text.Unprintable

/-!
# Quoted texts

The written form of a character or a text in a dump: between quotes, with short escapes for the null
character, tab, line breaks, the backslash and the quote itself, and the number in braces for what
has no glyph of its own. The other kind of quote needs no escape.
-/

namespace ObsidianSyntax

/-- The letter that, behind a backslash, stands for `c`. -/
def escapeLetter? (c : Char) : Option Char :=
  if c = '\x00' then some '0'
  else if c = '\t' then some 't'
  else if c = '\r' then some 'r'
  else if c = '\n' then some 'n'
  else if c = '\\' then some '\\'
  else none

/-- The character `c` as written between the quotes `quote`. -/
def quotedChar (quote c : Char) : List Char :=
  match escapeLetter? c with
  | some letter => ['\\', letter]
  | none =>
    if c = quote then ['\\', quote]
    else if isUnprintable c then "\\u\x7b".toList ++ Nat.toDigits 16 c.toNat ++ ['\x7d']
    else [c]

/-- The text between two quotes, each character in its written form. -/
def quoted (quote : Char) (text : List Char) : String :=
  String.ofList (quote :: text.flatMap (quotedChar quote) ++ [quote])

end ObsidianSyntax
