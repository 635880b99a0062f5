import ObsidianSyntax.Text.Blank
import ObsidianSyntax.Text.Position
import ObsidianSyntax.Token.Kind

/-!
# The token at the front of a text

Reading a token takes as much of the text as its class allows and says what the piece is: a kind, or
why it is no token. A string ends at its closing quote and never goes over a line end; a backslash
takes the character behind it along, so that an escaped quote does not close the literal. A piece
that is no token still takes the characters that were looked at, and reading goes on behind them.
-/

namespace ObsidianSyntax

/-- Why a piece of the source is no token. -/
inductive LexicalFault where
  | unexpected (c : Char)
  | unterminatedString
  | unterminatedChar
  | emptyChar
deriving DecidableEq, Repr

namespace LexicalFault

def message : LexicalFault → String
  | .unexpected c => "Unexpected character '" ++ String.singleton c ++ "'"
  | .unterminatedString => "Unterminated string literal"
  | .unterminatedChar => "Unterminated character literal"
  | .emptyChar => "Empty character literal"

/-- A literal that is not closed is reported at its opening quote alone. -/
def isAtQuote : LexicalFault → Bool
  | .unterminatedString | .unterminatedChar => true
  | .unexpected _ | .emptyChar => false

end LexicalFault

/-- How many characters of a text a piece takes, and what the piece is. -/
structure Lexeme where
  length : Nat
  verdict : Except LexicalFault Kind

namespace Lexeme

def startsWord (c : Char) : Bool := c.isAlpha || c == '_'

def continuesWord (c : Char) : Bool := c.isAlphanum || c == '_'

/-- How far a string goes behind its opening quote, and whether its closing quote is found there. -/
def stringEnd : List Char → Nat → Nat × Bool
  | [], taken => (taken, false)
  | c :: rest, taken =>
    if c = '"' then (taken + 1, true)
    else if c = '\n' then (taken, false)
    else if c = '\\' then
      match rest with
      | [] => (taken + 1, false)
      | d :: rest => if d = '\n' then (taken + 1, false) else stringEnd rest (taken + 2)
    else stringEnd rest (taken + 1)

/-- The string whose opening quote stands before `rest`. -/
def ofString (rest : List Char) : Lexeme :=
  let (taken, closed) := stringEnd rest 1
  ⟨taken, if closed then .ok .stringLiteral else .error .unterminatedString⟩

/-- The character literal of which `taken` characters stand before `rest`: all but the closing quote. -/
def closeChar (taken : Nat) : List Char → Lexeme
  | c :: _ => if c = '\'' then ⟨taken + 1, .ok .charLiteral⟩ else ⟨taken, .error .unterminatedChar⟩
  | [] => ⟨taken, .error .unterminatedChar⟩

/-- The character literal whose opening quote stands before `rest`. -/
def ofChar : List Char → Lexeme
  | [] => ⟨1, .error .unterminatedChar⟩
  | c :: rest =>
    if c = '\n' then ⟨1, .error .unterminatedChar⟩
    else if c = '\'' then ⟨2, .error .emptyChar⟩
    else if c = '\\' then
      match rest with
      | [] => ⟨2, .error .unterminatedChar⟩
      | d :: rest => if d = '\n' then ⟨2, .error .unterminatedChar⟩ else closeChar 3 rest
    else closeChar 2 rest

/-- The number at the front of `text`. A point belongs to it only with a digit behind. -/
def ofNumber (text : List Char) : Lexeme :=
  let whole := (text.takeWhile Char.isDigit).length
  match text.drop whole with
  | '.' :: c :: rest =>
    if c.isDigit then ⟨whole + 2 + (rest.takeWhile Char.isDigit).length, .ok .floatLiteral⟩
    else ⟨whole, .ok .intLiteral⟩
  | _ => ⟨whole, .ok .intLiteral⟩

/-- The word at the front of `text`. It is reserved only as a whole. -/
def ofWord (text : List Char) : Lexeme :=
  let word := text.takeWhile continuesWord
  ⟨word.length, .ok ((Kind.ofReserved? (String.ofList word)).getD .identifier)⟩

/-- The mark at the front of `text`, two characters long where there is such a mark. -/
def ofMark? (text : List Char) : Option Lexeme :=
  match Mark.ofSpelling? (text.take 2), Mark.ofSpelling? (text.take 1) with
  | some mark, _ => some ⟨(text.take 2).length, .ok mark⟩
  | none, some mark => some ⟨1, .ok mark⟩
  | none, none => none

/-- The piece at the front of the text `first :: rest`. -/
def read (first : Char) (rest : List Char) : Lexeme :=
  if first = '"' then ofString rest
  else if first = '\'' then ofChar rest
  else if first.isDigit then ofNumber (first :: rest)
  else if startsWord first then ofWord (first :: rest)
  else (ofMark? (first :: rest)).getD ⟨1, .error (.unexpected first)⟩

end Lexeme

/-- The text behind the blanks and comments at its front, and its place. A comment starts at a
number sign and ends before the next line end. -/
def skipTrivia (inComment : Bool) (place : Position) : List Char → Position × List Char
  | [] => (place, [])
  | c :: rest =>
    if inComment then skipTrivia (c != '\n') (place.after c) rest
    else if c = '#' then skipTrivia true (place.after c) rest
    else if isBlank c then skipTrivia false (place.after c) rest
    else (place, c :: rest)

end ObsidianSyntax
