/-!
# Escapes in literals

In the body of a string or character literal a backslash and the character behind it form a pair.
Seven pairs stand for one character; any other pair stands for itself, backslash included, and so
does a backslash with nothing behind it.
-/

namespace ObsidianSyntax

/-- The character that a backslash and `c` stand for, where the pair is an escape. -/
def escapeValue? (c : Char) : Option Char :=
  if c = 'n' then some '\n'
  else if c = 'r' then some '\r'
  else if c = 't' then some '\t'
  else if c = '0' then some '\x00'
  else if c = '\\' ∨ c = '"' ∨ c = '\'' then some c
  else none

/-- What a backslash and `c` stand for. -/
def pairValue (c : Char) : List Char :=
  match escapeValue? c with
  | some value => [value]
  | none => ['\\', c]

/-- The text that a literal's body stands for. -/
def unescape : List Char → List Char
  | [] => []
  | c :: rest =>
    if c = '\\' then
      match rest with
      | [] => ['\\']
      | d :: rest => pairValue d ++ unescape rest
    else c :: unescape rest

@[simp] theorem unescape_nil : unescape [] = [] := by simp [unescape]

@[simp] theorem unescape_pair (c : Char) (rest : List Char) :
    unescape ('\\' :: c :: rest) = pairValue c ++ unescape rest := by
  simp [unescape]

theorem unescape_cons_of_ne {c : Char} (h : c ≠ '\\') (rest : List Char) :
    unescape (c :: rest) = c :: unescape rest := by
  cases rest <;> simp [unescape, h]

/-- The text between a literal's quotes. A text that is not wrapped in two of them is its own body. -/
def quotedBody (quote : Char) (lexeme : List Char) : List Char :=
  match lexeme with
  | [] => []
  | first :: rest => if first = quote ∧ rest.getLast? = some quote then rest.dropLast else lexeme

theorem quotedBody_wrapped (quote : Char) (body : List Char) :
    quotedBody quote (quote :: body ++ [quote]) = body := by
  simp [quotedBody]

end ObsidianSyntax
