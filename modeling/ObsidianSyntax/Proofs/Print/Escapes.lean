import ObsidianSyntax.Proofs.Print.RoundTrip
import ObsidianSyntax.Proofs.Source.Strict

/-!
# All ways to write a literal

A text can be written as a string literal in many ways: most characters stand for themselves, and
seven have an escape, which three of them need and the others may have wherever they stand. However
it is written, three readers have to agree on it that know nothing of each other. The lexer takes a
backslash and what is behind it along without a look at what they stand for, the quotes are then
stripped from the text of the token, and only after that the escapes are resolved. It is the same
with characters, one between two apostrophes.
-/

namespace ObsidianSyntax

open Grammar

/-! ### Ways to write a text -/

/-- The characters that have an escape, each with what stands behind its backslash. -/
def escapeLetters : List (Char × Char) :=
  [('\\', '\\'), ('"', '"'), ('\n', 'n'), ('\r', 'r'), ('\t', 't'), ('\x00', '0'), ('\'', '\'')]

/-- The ways to write a text between quotes. A character that has an escape may be written as that,
and one that is not the quote, the backslash or the line end may stand for itself; each character is
written in either way whatever was done with the others. -/
inductive WrittenAs (quote : Char) : List Char → List Char → Prop where
  | nil : WrittenAs quote [] []
  | raw {c : Char} {text written : List Char} (hquote : c ≠ quote) (hescape : c ≠ '\\') (hline : c ≠ '\n')
      (hrest : WrittenAs quote text written) : WrittenAs quote (c :: text) (c :: written)
  | escape {c letter : Char} {text written : List Char} (hletter : (c, letter) ∈ escapeLetters)
      (hrest : WrittenAs quote text written) : WrittenAs quote (c :: text) ('\\' :: letter :: written)

/-- What stands behind a backslash is on the same line, and both stand for the character. -/
theorem of_mem_escapeLetters {c letter : Char} (hletter : (c, letter) ∈ escapeLetters) :
    letter ≠ '\n' ∧ pairValue letter = [c] := by
  have hall : ∀ pair ∈ escapeLetters, pair.2 ≠ '\n' ∧ pairValue pair.2 = [pair.1] := by decide
  exact hall _ hletter

theorem exists_writtenAs {quote : Char} (hquote : quote = '"' ∨ quote = '\'') (text : List Char) :
    ∃ written, WrittenAs quote text written := by
  induction text with
  | nil => exact ⟨[], .nil⟩
  | cons c text ih =>
    obtain ⟨written, hwritten⟩ := ih
    by_cases hescape : ∃ letter, (c, letter) ∈ escapeLetters
    · obtain ⟨letter, hletter⟩ := hescape
      exact ⟨_, .escape hletter hwritten⟩
    · have hne : ∀ other letter, (other, letter) ∈ escapeLetters → c ≠ other := by
        rintro other letter hletter rfl
        exact hescape ⟨letter, hletter⟩
      have hquote : c ≠ quote := by
        obtain rfl | rfl := hquote
        · exact hne _ '"' (by decide)
        · exact hne _ '\'' (by decide)
      exact ⟨_, .raw hquote (hne _ '\\' (by decide)) (hne _ 'n' (by decide)) hwritten⟩

namespace WrittenAs

variable {quote : Char} {text written : List Char}

theorem items (hwritten : WrittenAs quote text written) : Items quote written := by
  induction hwritten with
  | nil => exact .nil
  | raw hquote hescape hline _ ih => exact .cons (.plain hquote hescape hline) ih
  | escape hletter _ ih => exact .cons (.pair (of_mem_escapeLetters hletter).1) ih

theorem item {c : Char} (hwritten : WrittenAs quote [c] written) : Item quote written := by
  cases hwritten with
  | raw hquote hescape hline hrest =>
    cases hrest
    exact .plain hquote hescape hline
  | escape hletter hrest =>
    cases hrest
    exact .pair (of_mem_escapeLetters hletter).1

theorem unescape_eq (hwritten : WrittenAs quote text written) : unescape written = text := by
  induction hwritten with
  | nil => exact unescape_nil
  | raw _ hescape _ _ ih => rw [unescape_cons_of_ne hescape, ih]
  | escape hletter _ ih => rw [unescape_pair, (of_mem_escapeLetters hletter).2, ih, List.singleton_append]

end WrittenAs

/-! ### Reading a literal -/

section

variable {quote : Char} {body : List Char} {kind : Kind}

/-- The source of a statement that is nothing but a literal. -/
def literalSource (quote : Char) (body : List Char) : String := String.ofList (quote :: body ++ [quote, ';'])

/-- The token of the literal in that source. -/
def literalToken (kind : Kind) (quote : Char) (body : List Char) : Token :=
  ⟨kind, String.ofList (quote :: body ++ [quote]), .start⟩

theorem read_string (hbody : Items '"' body) (rest : List Char) :
    Lexeme.read '"' (body ++ '"' :: rest) = ⟨('"' :: body ++ ['"']).length, .ok .stringLiteral⟩ := by
  rw [Lexeme.read, if_pos rfl, Lexeme.ofString, hbody.stringEnd]
  simp
  omega

theorem read_char (hitem : Item '\'' body) (rest : List Char) :
    Lexeme.read '\'' (body ++ '\'' :: rest) = ⟨('\'' :: body ++ ['\'']).length, .ok .charLiteral⟩ := by
  rw [Lexeme.read, if_neg (by decide), if_pos rfl, hitem.ofChar]
  simp [Lexeme.closeChar]
  omega

theorem tokensOf_semicolon (place : Position) :
    tokensOf place [';'] = [⟨.mark .semicolon, ";", place⟩, .endOfInput (place.after ';')] := by
  have hread : Lexeme.read ';' [] = ⟨1, .ok (.mark .semicolon)⟩ := by rfl
  rw [tokensOf_of_cons (skipTrivia_of_first_ne (by decide)), hread]
  exact congrArg _ (tokensOf_of_nil rfl)

theorem scan_literalSource (hquote : isBlank quote = false ∧ quote ≠ '#') (hkind : kind ≠ .invalid)
    (hread : Lexeme.read quote (body ++ [quote, ';']) = ⟨(quote :: body ++ [quote]).length, .ok kind⟩) :
    let behind := Position.start.afterText (quote :: body ++ [quote])
    scan (literalSource quote body) =
      ([literalToken kind quote body, ⟨.mark .semicolon, ";", behind⟩, .endOfInput
        (behind.after ';')], []) := by
  have hsplit : quote :: (body ++ [quote, ';']) = (quote :: body ++ [quote]) ++ [';'] := by simp
  have htokens : tokensOf .start (literalSource quote body).toList =
      literalToken kind quote body :: tokensOf (Position.start.afterText (quote :: body ++ [quote]))
        [';'] := by
    rw [literalSource, String.toList_ofList, List.cons_append,
      tokensOf_of_cons (skipTrivia_of_first_ne hquote), hread, hsplit,
      List.take_left, List.drop_left]
    rfl
  rw [tokensOf_semicolon] at htokens
  rw [scan_eq, htokens]
  simp [Token.lexicalReport?_of_kind_ne, hkind, literalToken]

end

theorem unescape_literalToken {kind : Kind} {quote : Char} {text written : List Char}
    (hwritten : WrittenAs quote text written) :
    unescape (quotedBody quote (literalToken kind quote written).lexeme.toList) = text := by
  rw [literalToken, String.toList_ofList, quotedBody_wrapped, hwritten.unescape_eq]

theorem parseTokens_literal {token semicolon : Token} {value : Literal}
    (hvalue : token.terminal.Denotes value) (hsemicolon : semicolon.kind = .mark .semicolon)
    (place : Position) :
    parseTokens [token, semicolon, .endOfInput place] = .ok (.block [.literal value]) := by
  have hlive : token.isEnd = false := beq_eq_false_iff_ne.2 hvalue.kind_ne_endOfInput
  have hlive' : semicolon.isEnd = false := by simp [Token.isEnd, hsemicolon]
  have hmark : semicolon.terminal = .mark .semicolon := (Token.terminal_eq_iff rfl).2 hsemicolon
  have hterminals : terminals [token, semicolon, .endOfInput place] =
      ([token.terminal] ++ [.mark .semicolon]) ++ [] := by
    rw [terminals_cons_of_live hlive, terminals_cons_of_live hlive', terminals_cons_of_isEnd rfl, hmark]
    rfl
  have hexpr : Expr 127 .comma [token.terminal] (.literal value) := .primary (.literal hvalue)
  have hstmt : Stmt maxDepth false ([token.terminal] ++ [.mark .semicolon]) (.literal value) :=
    .expression (head?_ne_println hvalue.kind_ne_println) hexpr
  apply parseTokens_eq_ok_iff.2
  rw [hterminals]
  exact ⟨_, .cons hstmt .nil, rfl⟩

theorem parseSource_literalSource {quote : Char} {body : List Char} {kind : Kind} {value : Literal}
    (hquote : isBlank quote = false ∧ quote ≠ '#')
    (hread : Lexeme.read quote (body ++ [quote, ';']) = ⟨(quote :: body ++ [quote]).length, .ok kind⟩)
    (hvalue : (literalToken kind quote body).terminal.Denotes value) :
    parseSource (literalSource quote body) = .ok (.block [.literal value]) := by
  have hscan := scan_literalSource hquote hvalue.isValid hread
  apply parseSource_eq_ok_iff.2
  rw [← scan_reports_nothing_iff, hscan]
  exact ⟨rfl, parseTokens_literal hvalue rfl _⟩

/-! ### All ways are read back -/

/-- There is a way to write the text, and in each it is read as one token of the kind and parsed as
the literal of that value. -/
structure ReadsBack (quote : Char) (kind : Kind) (text : List Char) (value : Literal) : Prop where
  exists_written : ∃ written, WrittenAs quote text written
  scan_eq : ∀ written, WrittenAs quote text written →
    let behind := Position.start.afterText (quote :: written ++ [quote])
    scan (literalSource quote written) =
      ([literalToken kind quote written, ⟨.mark .semicolon, ";", behind⟩, .endOfInput (behind.after ';')], [])
  parse_eq : ∀ written, WrittenAs quote text written →
    parseSource (literalSource quote written) = .ok (.block [.literal value])

theorem isBlank_quote {quote : Char} (hquote : quote = '"' ∨ quote = '\'') :
    isBlank quote = false ∧ quote ≠ '#' := by
  obtain rfl | rfl := hquote <;> decide

theorem readsBack {quote : Char} {kind : Kind} {text : List Char} {value : Literal}
    (hquote : quote = '"' ∨ quote = '\'')
    (hread : ∀ written, WrittenAs quote text written →
      Lexeme.read quote (written ++ [quote, ';']) = ⟨(quote :: written ++ [quote]).length, .ok kind⟩)
    (hvalue : ∀ written, WrittenAs quote text written →
      (literalToken kind quote written).terminal.Denotes value) :
    ReadsBack quote kind text value where
  exists_written := exists_writtenAs hquote text
  scan_eq := by
    intro written hwritten
    exact scan_literalSource (isBlank_quote hquote) (hvalue written hwritten).isValid (hread written hwritten)
  parse_eq := by
    intro written hwritten
    exact parseSource_literalSource (isBlank_quote hquote) (hread written hwritten) (hvalue written hwritten)

/-- Every text can be written as a string literal and every character as a character literal, and
however that is done, it is read back: with a semicolon behind it the literal is one token, and the
program is the text or the character that was written. -/
theorem written_literals_readBack :
    (∀ text : String, ReadsBack '"' .stringLiteral text.toList (.string text)) ∧
    ∀ c : Char, ReadsBack '\'' .charLiteral [c] (.char c) := by
  constructor
  · intro text
    apply readsBack (.inl rfl)
    · intro written hwritten
      exact read_string hwritten.items [';']
    · intro written hwritten
      have hdenotes := @Terminal.Denotes.string (literalToken .stringLiteral '"' written).lexeme
      rw [unescape_literalToken hwritten, String.ofList_toList] at hdenotes
      exact hdenotes
  · intro c
    apply readsBack (.inr rfl)
    · intro written hwritten
      exact read_char hwritten.item [';']
    · intro written hwritten
      exact .char (unescape_literalToken hwritten)

/-- A backslash before the closing quote, and two tabs and two apostrophes that are written differently. -/
theorem written_literals_readBack_lastBackslash :
    parseSource "\"\t\\t'\\'\\\\\";" = .ok (.block [.literal (.string "\t\t''\\")]) := by
  have hwritten : WrittenAs '"' "\t\t''\\".toList "\t\\t'\\'\\\\".toList :=
    .raw (by decide) (by decide) (by decide) (.escape (by decide) (.raw (by decide) (by decide) (by decide)
      (.escape (by decide) (.escape (by decide) .nil))))
  have hparse := (written_literals_readBack.1 "\t\t''\\").parse_eq _ hwritten
  have hsource : literalSource '"' "\t\\t'\\'\\\\".toList = "\"\t\\t'\\'\\\\\";" := by decide
  rwa [hsource] at hparse

end ObsidianSyntax
