import ObsidianSyntax.Parse.Statement

/-!
# Parsing programs

The parsers for expressions and statements, put together by the number of levels that they may still
nest. With no level left, an expression or statement is refused at its first token. A program is a
list of statements up to the end of the input.
-/

namespace ObsidianSyntax

/-- How deep expressions and statements may nest. -/
def maxDepth : Nat := 128

namespace Nested

/-- The parsers that may nest as many levels as are left of `limit`. -/
def withRoom (limit : Nat) : Nat → Nested
  | 0 => ⟨fun _ => Parse.failHere (.tooDeep .expression limit), Parse.failHere (.tooDeep .statement limit)⟩
  | room + 1 =>
    let inner := withRoom limit room
    ⟨Parse.expression inner, Parse.statement inner⟩

end Nested

namespace Parse

/-- The parsers from the outside, with all levels of `limit` left. -/
def outermost (limit : Nat) : Nested := .withRoom limit limit

/-- The statements up to the end of the input, as one block. -/
def program (limit : Nat) : Parse Tree :=
  return .block (← many (fun token => !token.isEnd) (outermost limit).stmt)

end Parse

/-- The program that the tokens make up, or the diagnostic of the first fault. -/
def parseTokens (tokens : List Token) : Except Diagnostic Tree :=
  match Parse.program maxDepth (.ofTokens tokens) with
  | .ok tree _ => .ok tree
  | .error fault _ => .error fault.report

end ObsidianSyntax
