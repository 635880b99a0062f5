/-!
# Kinds of tokens

The kinds a token can have: marks (operators and punctuation), words with a fixed meaning,
identifiers, the four literals, text that is no token, and the end of the input. The words are the
names of the primitive types and the keywords. Each mark and word has one spelling, and each kind a
name by which listings call it.
-/

namespace ObsidianSyntax

/-- Operators and punctuation. -/
inductive Mark where
  | leftParen | rightParen | leftBrace | rightBrace | leftBracket | rightBracket | dot | colon | semicolon
  | comma | question | percent | tilde | plus | increment | plusEqual | minus | decrement | minusEqual | arrow
  | star | power | starEqual | slash | slashEqual | bang | bangEqual | equal | equalEqual | ampersand | ampAmp
  | pipe | pipePipe | caret | caretCaret | greater | greaterEqual | rightShift | less | lessEqual | leftShift
deriving DecidableEq, Repr

inductive Primitive where
  | i8 | i16 | i32 | i64 | u8 | u16 | u32 | u64 | f32 | f64 | bool | char | string | void
deriving DecidableEq, Repr

/-- The words with a fixed meaning that name no type. Some of them are reserved only. -/
inductive Keyword where
  | allocWord | breakWord | caseWord | castWord | constWord | deallocWord | defaultWord | elseWord | enumWord
  | exportWord | falseWord | fnWord | forWord | ifWord | importWord | lengthWord | newWord | nullWord
  | privateWord | printlnWord | returnWord | sizeofWord | structWord | switchWord | trueWord | typeofWord
  | unsafeWord | whileWord
deriving DecidableEq, Repr

namespace Mark

def all : List Mark :=
  [.leftParen, .rightParen, .leftBrace, .rightBrace, .leftBracket, .rightBracket, .dot, .colon, .semicolon,
  .comma, .question, .percent, .tilde, .plus, .increment, .plusEqual, .minus, .decrement, .minusEqual, .arrow,
  .star, .power, .starEqual, .slash, .slashEqual, .bang, .bangEqual, .equal, .equalEqual, .ampersand, .ampAmp,
  .pipe, .pipePipe, .caret, .caretCaret, .greater, .greaterEqual, .rightShift, .less, .lessEqual, .leftShift]

def spelling : Mark → String
  | .leftParen => "("
  | .rightParen => ")"
  | .leftBrace => "\x7b"
  | .rightBrace => "\x7d"
  | .leftBracket => "["
  | .rightBracket => "]"
  | .dot => "."
  | .colon => ":"
  | .semicolon => ";"
  | .comma => ","
  | .question => "?"
  | .percent => "%"
  | .tilde => "~"
  | .plus => "+"
  | .increment => "++"
  | .plusEqual => "+="
  | .minus => "-"
  | .decrement => "--"
  | .minusEqual => "-="
  | .arrow => "->"
  | .star => "*"
  | .power => "**"
  | .starEqual => "*="
  | .slash => "/"
  | .slashEqual => "/="
  | .bang => "!"
  | .bangEqual => "!="
  | .equal => "="
  | .equalEqual => "=="
  | .ampersand => "&"
  | .ampAmp => "&&"
  | .pipe => "|"
  | .pipePipe => "||"
  | .caret => "^"
  | .caretCaret => "^^"
  | .greater => ">"
  | .greaterEqual => ">="
  | .rightShift => ">>"
  | .less => "<"
  | .lessEqual => "<="
  | .leftShift => "<<"

/-- The name of a mark in listings. -/
def name : Mark → String
  | .leftParen => "LeftParen"
  | .rightParen => "RightParen"
  | .leftBrace => "LeftBrace"
  | .rightBrace => "RightBrace"
  | .leftBracket => "LeftBracket"
  | .rightBracket => "RightBracket"
  | .dot => "Dot"
  | .colon => "Colon"
  | .semicolon => "Semicolon"
  | .comma => "Comma"
  | .question => "Question"
  | .percent => "Percent"
  | .tilde => "Tilde"
  | .plus => "Plus"
  | .increment => "Increment"
  | .plusEqual => "PlusEqual"
  | .minus => "Minus"
  | .decrement => "Decrement"
  | .minusEqual => "MinusEqual"
  | .arrow => "Arrow"
  | .star => "Star"
  | .power => "Power"
  | .starEqual => "StarEqual"
  | .slash => "Slash"
  | .slashEqual => "SlashEqual"
  | .bang => "Bang"
  | .bangEqual => "BangEqual"
  | .equal => "Equal"
  | .equalEqual => "EqualEqual"
  | .ampersand => "Ampersand"
  | .ampAmp => "AmpAmp"
  | .pipe => "Pipe"
  | .pipePipe => "PipePipe"
  | .caret => "Caret"
  | .caretCaret => "CaretCaret"
  | .greater => "Greater"
  | .greaterEqual => "GreaterEqual"
  | .rightShift => "RightShift"
  | .less => "Less"
  | .lessEqual => "LessEqual"
  | .leftShift => "LeftShift"

def ofSpelling? (text : List Char) : Option Mark := all.find? fun mark => mark.spelling.toList == text

end Mark

namespace Primitive

def all : List Primitive :=
  [.i8, .i16, .i32, .i64, .u8, .u16, .u32, .u64, .f32, .f64, .bool, .char, .string, .void]

def spelling : Primitive → String
  | .i8 => "i8"
  | .i16 => "i16"
  | .i32 => "i32"
  | .i64 => "i64"
  | .u8 => "u8"
  | .u16 => "u16"
  | .u32 => "u32"
  | .u64 => "u64"
  | .f32 => "f32"
  | .f64 => "f64"
  | .bool => "bool"
  | .char => "char"
  | .string => "string"
  | .void => "void"

end Primitive

namespace Keyword

def all : List Keyword :=
  [.allocWord, .breakWord, .caseWord, .castWord, .constWord, .deallocWord, .defaultWord, .elseWord, .enumWord,
  .exportWord, .falseWord, .fnWord, .forWord, .ifWord, .importWord, .lengthWord, .newWord, .nullWord,
  .privateWord, .printlnWord, .returnWord, .sizeofWord, .structWord, .switchWord, .trueWord, .typeofWord,
  .unsafeWord, .whileWord]

def spelling : Keyword → String
  | .allocWord => "alloc"
  | .breakWord => "break"
  | .caseWord => "case"
  | .castWord => "cast"
  | .constWord => "const"
  | .deallocWord => "dealloc"
  | .defaultWord => "default"
  | .elseWord => "else"
  | .enumWord => "enum"
  | .exportWord => "export"
  | .falseWord => "false"
  | .fnWord => "fn"
  | .forWord => "for"
  | .ifWord => "if"
  | .importWord => "import"
  | .lengthWord => "length"
  | .newWord => "new"
  | .nullWord => "null"
  | .privateWord => "private"
  | .printlnWord => "println"
  | .returnWord => "return"
  | .sizeofWord => "sizeof"
  | .structWord => "struct"
  | .switchWord => "switch"
  | .trueWord => "true"
  | .typeofWord => "typeof"
  | .unsafeWord => "unsafe"
  | .whileWord => "while"

end Keyword

inductive Kind where
  | mark (mark : Mark)
  | primitive (type : Primitive)
  | keyword (word : Keyword)
  | identifier
  | intLiteral
  | floatLiteral
  | stringLiteral
  | charLiteral
  /-- Text that is no token. -/
  | invalid
  | endOfInput
deriving DecidableEq, Repr

instance : Coe Mark Kind := ⟨.mark⟩
instance : Coe Primitive Kind := ⟨.primitive⟩
instance : Coe Keyword Kind := ⟨.keyword⟩

namespace Kind

def all : List Kind :=
  Mark.all.map .mark ++ [.identifier, .intLiteral, .floatLiteral, .stringLiteral, .charLiteral]
    ++ Primitive.all.map .primitive ++ Keyword.all.map .keyword ++ [.invalid, .endOfInput]

/-- The name of a kind in listings. A word goes by its spelling with a capital. -/
def name : Kind → String
  | .mark m => m.name
  | .primitive p => p.spelling.capitalize
  | .keyword w => w.spelling.capitalize
  | .identifier => "Identifier"
  | .intLiteral => "IntLiteral"
  | .floatLiteral => "FloatLiteral"
  | .stringLiteral => "StringLiteral"
  | .charLiteral => "CharLiteral"
  | .invalid => "Error"
  | .endOfInput => "Eof"

def ofName? (name : String) : Option Kind := all.find? fun kind => kind.name == name

def isType : Kind → Bool
  | .primitive _ => true
  | _ => false

def isReserved : Kind → Bool
  | .primitive _ | .keyword _ => true
  | _ => false

/-- The words with a fixed meaning, each with its kind. -/
def reservedWords : List (String × Kind) :=
  Primitive.all.map (fun type => (type.spelling, .primitive type))
    ++ Keyword.all.map (fun word => (word.spelling, .keyword word))

/-- The kind of the word `text`, if the word as a whole has a fixed meaning. -/
def ofReserved? (text : String) : Option Kind := reservedWords.lookup text

end Kind

end ObsidianSyntax
