import ObsidianSyntax.Text.Position
import ObsidianSyntax.Token.Kind

/-!
# Tokens

A token is a piece of the source with the kind it was read as and the place where it starts. The
bytes it covers follow from its text. No token goes over a line end.
-/

namespace ObsidianSyntax

/-- A piece of the source, the kind it was read as, and where it starts. -/
structure Token where
  kind : Kind
  lexeme : String
  place : Position
deriving DecidableEq, Repr

namespace Token

/-- The end of the input, at `place`. -/
def endOfInput (place : Position) : Token := ⟨.endOfInput, "", place⟩

/-- The bytes that the token covers. -/
def span (token : Token) : Span := ⟨token.place.offset, token.place.offset + token.lexeme.utf8ByteSize⟩

/-- The place just behind the token, on its line. -/
def endPlace (token : Token) : Position :=
  ⟨token.place.offset + token.lexeme.utf8ByteSize, token.place.line, token.place.column + token.lexeme.length⟩

def isEnd (token : Token) : Bool := token.kind == .endOfInput

/-- What messages call the token. -/
def describe (token : Token) : String :=
  match token.kind with
  | .endOfInput => "end of file"
  | .identifier => "identifier '" ++ token.lexeme ++ "'"
  | .intLiteral | .floatLiteral => "number " ++ token.lexeme
  | .stringLiteral => "string " ++ token.lexeme
  | .charLiteral => "character " ++ token.lexeme
  | .invalid => "invalid token '" ++ token.lexeme ++ "'"
  | .primitive _ | .keyword _ => "keyword '" ++ token.lexeme ++ "'"
  | .mark _ => "'" ++ token.lexeme ++ "'"

@[simp] theorem kind_endOfInput (place : Position) : (endOfInput place).kind = .endOfInput := rfl

@[simp] theorem isEnd_endOfInput (place : Position) : (endOfInput place).isEnd = true := rfl

end Token

end ObsidianSyntax
