import ObsidianSyntax.Parse.Program
import ObsidianSyntax.Token.Lexer

/-!
# What becomes of a source

A source is read strictly into the tree of its program, where the first lexical error stops
everything and comes before any fault of the parser, or leniently into a listing of its tokens,
where invalid ones are listed too.
-/

namespace ObsidianSyntax

/-- The program that a source holds, or the diagnostic of its first error. -/
def parseSource (source : String) : Except Diagnostic Tree := do parseTokens (← tokenize source)

/-- A token in a listing: its place, its kind and its text. -/
def Token.listingLine (token : Token) : String :=
  token.place.line.repr ++ ":" ++ token.place.column.repr ++ " " ++ token.kind.name ++ " '" ++
    token.lexeme ++ "'\n"

/-- The tokens of a source, one in a line and without the end of the input, and the diagnostics for
the invalid ones. -/
def listTokens (source : String) : String × List Diagnostic :=
  let (tokens, diagnostics) := scan source
  (String.join ((tokens.filter fun token => !token.isEnd).map Token.listingLine), diagnostics)

end ObsidianSyntax
