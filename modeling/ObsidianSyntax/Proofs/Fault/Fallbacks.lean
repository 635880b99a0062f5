import ObsidianSyntax.Proofs.Fault.Stopping
import ObsidianSyntax.Proofs.Parse.CutShort
import ObsidianSyntax.Proofs.Parse.Same
import ObsidianSyntax.Proofs.Token.BodyItems

/-!
# Branches that no run takes

In a few places the parser has a branch for what cannot happen there: that a token continues an
expression and is no operator, that an operand is neither a name nor a value, that a literal is not
wrapped in its quotes, ends in a lone backslash, stands for no character or for no number, and that
the name of a type is empty. Each is ruled out by something far away: by the table of precedences,
by what the lexer makes of a text, by which tokens are taken for operands.

So the parser is written down once more with these branches left open, to be filled with parsers
that may do anything. Filled with what the parser itself does it is the parser. And on the tokens of
a source it makes no difference what they are filled with: a run that got to one of them would show
what is done there.
-/

namespace ObsidianSyntax

/-- The text between two quotes, if there are two. -/
def wrappedBody? (quote : Char) (lexeme : List Char) : Option (List Char) :=
  match lexeme with
  | [] => none
  | first :: rest => if first = quote ∧ rest.getLast? = some quote then some rest.dropLast else none

/-- The text that a body stands for, if no backslash is left over at its end. -/
def unescapeWhole? : List Char → Option (List Char)
  | [] => some []
  | c :: rest =>
    if c = '\\' then
      match rest with
      | [] => none
      | d :: rest => (unescapeWhole? rest).map (pairValue d ++ ·)
    else (unescapeWhole? rest).map (c :: ·)

theorem unescapeWhole?_pair (letter : Char) (rest : List Char) :
    unescapeWhole? ('\\' :: letter :: rest) = (unescapeWhole? rest).map (pairValue letter ++ ·) := by
  simp [unescapeWhole?]

theorem unescapeWhole?_cons_of_ne {c : Char} (hescape : c ≠ '\\') (rest : List Char) :
    unescapeWhole? (c :: rest) = (unescapeWhole? rest).map (c :: ·) := by
  cases rest <;> simp [unescapeWhole?, hescape]

theorem quotedBody_eq_getD (quote : Char) (lexeme : List Char) :
    quotedBody quote lexeme = (wrappedBody? quote lexeme).getD lexeme := by
  cases lexeme with
  | nil => rfl
  | cons first rest =>
    simp only [quotedBody, wrappedBody?]
    split <;> rfl

theorem wrappedBody?_wrapped (quote : Char) (body : List Char) :
    wrappedBody? quote (quote :: body ++ [quote]) = some body := by
  simp [wrappedBody?]

theorem unescape_of_unescapeWhole? {body text : List Char}
    (hwhole : unescapeWhole? body = some text) : unescape body = text := by
  fun_induction unescapeWhole? body generalizing text with
  | case1 => simpa using hwhole
  | case2 => cases hwhole
  | case3 d rest ih =>
    obtain ⟨more, hmore, rfl⟩ := Option.map_eq_some_iff.1 hwhole
    rw [unescape_pair, ih hmore]
  | case4 c rest hescape ih =>
    obtain ⟨more, hmore, rfl⟩ := Option.map_eq_some_iff.1 hwhole
    rw [unescape_cons_of_ne hescape, ih hmore]

/-- An item stands for something. -/
theorem BodyItem.value_ne_nil (item : BodyItem) : item.value ≠ [] := by
  cases item with
  | plain c hescape => simp [value]
  | pair letter =>
    obtain ⟨c, _, hvalue⟩ | ⟨_, hvalue⟩ := value_pair_cases letter <;> simp [hvalue]

/-- What is cut into items has no backslash left over. -/
theorem unescapeWhole?_flatMap (items : List BodyItem) :
    unescapeWhole? (items.flatMap BodyItem.text) = some (items.flatMap BodyItem.value) := by
  induction items with
  | nil => simp [unescapeWhole?]
  | cons item items ih =>
    cases item with
    | plain c hescape =>
      have htext : (BodyItem.plain c hescape :: items).flatMap BodyItem.text =
          c :: items.flatMap BodyItem.text := rfl
      rw [htext, unescapeWhole?_cons_of_ne hescape, ih]
      rfl
    | pair letter =>
      have htext : (BodyItem.pair letter :: items).flatMap BodyItem.text = '\\' :: letter ::
          items.flatMap BodyItem.text := rfl
      rw [htext, unescapeWhole?_pair, ih, BodyItem.pairValue_eq]
      rfl

/-! ### The parser with its branches left open -/

/-- What is done in the branches that are only there for what cannot happen. -/
structure Fallbacks where
  /-- What has been read is continued by a token that is no operator. -/
  noOperator : Tree → Token → Parse Tree
  /-- A token that was taken for an operand is neither a name nor a value. -/
  noValue : Token → Parse Tree
  /-- A floating-point literal is not written as a number. -/
  noNumber : Token → Parse Tree
  /-- A literal is not wrapped in its quotes. -/
  noQuotes : Token → Parse Tree
  /-- A backslash is left over at the end of a literal's body. -/
  loneBackslash : Token → Parse Tree
  /-- A character literal stands for no character. -/
  noCharacter : Token → Parse Tree
  /-- A type has an empty name. -/
  emptyName : Token → Parse TypeName

/-- The value of a token as a parser behind it gives it. -/
def Parse.valueOf (token : Token) : Parse Tree :=
  match token.literal with
  | .ok value => return .literal value
  | .error cause => fail cause token

/-- The type that a token names, for a parser behind it. -/
def Parse.typeOf (token : Token) : Parse TypeName :=
  match TypeName.ofString? token.lexeme with
  | some type => return type
  | none => fail .noType token

namespace Fallbacks

open Parse

/-- What the parser itself does in these branches. -/
def own : Fallbacks where
  noOperator _ := fail .notAnOperator
  noValue := fail .noExpression
  noNumber := fail .malformedFloat
  noQuotes := valueOf
  loneBackslash := valueOf
  noCharacter := fail .malformedChar
  emptyName := fail .noType

variable (fallbacks : Fallbacks) (inner : Nested)

def typeOf (token : Token) : Parse TypeName :=
  match TypeName.ofString? token.lexeme with
  | some type => return type
  | none => fallbacks.emptyName token

def typeName : Parse TypeName := do
  let token ← current
  if token.kind.isType || token.kind == .identifier then
    let _ ← advance
    fallbacks.typeOf token
  else fail .noType token

/-- What is made of the text between the quotes of a literal, its escapes resolved. -/
def quoted (quote : Char) (token : Token) (value : List Char → Parse Tree) : Parse Tree :=
  match wrappedBody? quote token.lexeme.toList with
  | none => fallbacks.noQuotes token
  | some body =>
    match unescapeWhole? body with
    | none => fallbacks.loneBackslash token
    | some text => value text

def valueOf (token : Token) : Parse Tree :=
  match token.kind with
  | .intLiteral =>
    match integerValue? token.lexeme.toList with
    | some value => return .literal (.int value)
    | none => fail .integerTooLarge token
  | .floatLiteral =>
    match Binary64.ofLiteral? token.lexeme.toList with
    | some value => return .literal (.float value)
    | none => fallbacks.noNumber token
  | .charLiteral =>
    fallbacks.quoted '\'' token fun
      | [c] => return .literal (.char c)
      | [] => fallbacks.noCharacter token
      | _ => fail .malformedChar token
  | .stringLiteral => fallbacks.quoted '"' token fun text => return .literal (.string (String.ofList text))
  | .keyword .trueWord => return .literal (.bool true)
  | .keyword .falseWord => return .literal (.bool false)
  | _ => fallbacks.noValue token

def atom : Parse Tree := do
  let token ← advance
  if token.kind = .identifier then return .identifier token.lexeme else fallbacks.valueOf token

def sizeOf : Parse Tree := do
  let _ ← advance
  expect (.openAfter .sizeofWord)
  let type ← fallbacks.typeName
  expect .closeType
  return .sizeOf type

def cast : Parse Tree := do
  let _ ← advance
  expect .openCastType
  let type ← fallbacks.typeName
  expect .closeCastType
  expect .openCastOperand
  let operand ← inner.expr .lowest
  expect .closeCastOperand
  return .cast type operand

/-- The other operands have no branches of this kind. -/
def operand : Parse Tree := fun cursor =>
  match cursor.current.kind with
  | .intLiteral | .floatLiteral | .stringLiteral | .charLiteral | .identifier
  | .keyword .trueWord | .keyword .falseWord => fallbacks.atom cursor
  | .keyword .sizeofWord => fallbacks.sizeOf cursor
  | .keyword .castWord => fallbacks.cast inner cursor
  | _ => Parse.operand inner cursor

def continuation (left : Tree) : Parse Tree := fun cursor =>
  match cursor.current.kind with
  | .mark .question | .mark .leftParen => Parse.continuation inner left cursor
  | .mark mark =>
    match AssignOp.ofMark? mark, UnaryOp.behind? mark, BinaryOp.ofMark? mark with
    | none, none, none => fallbacks.noOperator left cursor.current cursor
    | _, _, _ => Parse.continuation inner left cursor
  | _ => fallbacks.noOperator left cursor.current cursor

def expression (precedence : Precedence) : Parse Tree := do
  repeatWhile (fun token => precedence < token.kind.precedence) (fallbacks.continuation inner)
    (← fallbacks.operand inner)

def param : Parse Param := do
  let type ← fallbacks.typeName
  return ⟨type, ← expectName .paramName⟩

def functionDef : Parse Tree := do
  let _ ← advance
  let name ← expectName .functionName
  expect .openParams
  let params ← listItems fallbacks.param
  expect .closeParams
  let returnType ← ifNext (.mark .arrow) fallbacks.typeName
  return .functionDef name (returnType.getD .void) params (← blockBody inner)

def varDecl : Parse Tree := do
  let type ← fallbacks.typeName
  let name ← expectName .variableName
  let value ← ifNext (.mark .equal) (inner.expr .comma)
  expect .endDeclaration
  return .varDecl type name value

/-- The other statements name no types. -/
def statement : Parse Tree := fun cursor =>
  match cursor.current.kind with
  | .keyword .fnWord => fallbacks.functionDef inner cursor
  | .primitive _ => fallbacks.varDecl inner cursor
  | .identifier =>
    if (cursor.peek 1).kind = .identifier then fallbacks.varDecl inner cursor else expressionStmt inner cursor
  | _ => Parse.statement inner cursor

/-- The parsers that may nest as many levels as are left of `limit`. -/
def withRoom (limit : Nat) : Nat → Nested
  | 0 => .withRoom limit 0
  | room + 1 =>
    let inner := withRoom limit room
    ⟨fallbacks.expression inner, fallbacks.statement inner⟩

def parse (limit : Nat) : Entry → Parse Tree
  | .nested request => (fallbacks.withRoom limit limit).answer request
  | .program => programWith (fallbacks.withRoom limit limit)

/-- What a use of the parser is answered, and the cursor to go on from. -/
def run (cursor : Cursor) : Use → Reply × Cursor
  | .parse entry =>
    (.of (fallbacks.parse maxDepth entry cursor), cursorOf (fallbacks.parse maxDepth entry cursor))
  | use => use.run cursor

/-- The answers of the parser used several times, each with the token at the cursor afterwards. -/
def answers (cursor : Cursor) : List Use → List (Reply × Token)
  | [] => []
  | use :: uses =>
    ((fallbacks.run cursor use).1, (fallbacks.run cursor use).2.current) :: answers
      (fallbacks.run cursor use).2 uses

end Fallbacks

/-! ### Where the branches make no difference -/

namespace Fallbacks

open Parse

variable {allowed : Token → Prop} {fallbacks : Fallbacks} {inner inner' : Nested}

/-- On the tokens that are allowed, values and types are read as the parser itself reads them. -/
structure SameOn (allowed : Token → Prop) (fallbacks : Fallbacks) : Prop where
  valueOf : ∀ token, allowed token →
    token.kind ∈ [.intLiteral, .floatLiteral, .stringLiteral, .charLiteral, .keyword .trueWord,
      .keyword .falseWord] →
    fallbacks.valueOf token = Parse.valueOf token
  typeOf : ∀ token, allowed token → (token.kind.isType || token.kind == .identifier) = true →
    fallbacks.typeOf token = Parse.typeOf token

namespace SameOn

theorem typeName (hsame : SameOn allowed fallbacks) : Same allowed Parse.typeName fallbacks.typeName := by
  refine .current fun token hallowed => .ite (fun hkind => .advance fun _ _ => ?_) fun _ => .fail _ token
  rw [hsame.typeOf token (hallowed (Token.live_of_namesType hkind)) hkind]
  exact (Planned.typeOr _ token).same_self

theorem atom (hsame : SameOn allowed fallbacks) {cursor : Cursor} (hahead : cursor.Ahead allowed)
    (hkind : cursor.current.kind ∈ [.intLiteral, .floatLiteral, .stringLiteral, .charLiteral,
      .identifier, .keyword .trueWord, .keyword .falseWord]) :
    fallbacks.atom cursor = Parse.atom cursor := by
  have hlive := Planned.live_of_atom hkind
  rw [atom_apply]
  show (if cursor.current.kind = .identifier then _ else _ : Parse Tree) cursor.advance = _
  split
  · rfl
  · next hname =>
    rw [hsame.valueOf _ (hahead.current hlive) (by simpa [hname] using hkind)]
    rfl

theorem sizeOf (hsame : SameOn allowed fallbacks) : Same allowed Parse.sizeOf fallbacks.sizeOf :=
  .advance fun _ _ => (Planned.expect _).same_self.bind fun _ => hsame.typeName.bind fun _ =>
    (Planned.close _ _).same_self

theorem cast (hsame : SameOn allowed fallbacks) (hinner : inner.Same allowed inner') :
    Same allowed (Parse.cast inner) (fallbacks.cast inner') :=
  .advance fun _ _ => (Planned.expect _).same_self.bind fun _ => hsame.typeName.bind fun _ =>
    (Planned.expect _).same_self.bind fun _ => (Planned.expect _).same_self.bind fun _ =>
      (hinner (.expression _)).bind fun _ => (Planned.close _ _).same_self

theorem operand (hsame : SameOn allowed fallbacks) (hinner : inner.Same allowed inner') :
    Same allowed (Parse.operand inner) (fallbacks.operand inner') := by
  intro cursor hahead
  obtain ⟨hplain, hafter⟩ := Planned.operand.same hinner cursor hahead
  refine ⟨?_, hafter⟩
  unfold Fallbacks.operand
  split
  iterate 7
    · next hkind =>
      rw [hsame.atom hahead (by simp [hkind]), Graded.operand_eq, hkind]
  · next hkind =>
    rw [(hsame.sizeOf cursor hahead).1, Graded.operand_eq, hkind]
  · next hkind =>
    rw [(hsame.cast hinner cursor hahead).1, Graded.operand_eq, hkind]
  · exact hplain

/-- A token that binds what stands before it is an operator. -/
theorem continuation (fallbacks : Fallbacks) (hinner : inner.Same allowed inner') (left : Tree)
    {cursor : Cursor} (hahead : cursor.Ahead allowed)
    (hbinds : .lowest < cursor.current.kind.precedence) :
    SameFrom allowed cursor (Parse.continuation inner left) (fallbacks.continuation inner' left) := by
  obtain ⟨hplain, hafter⟩ := (Planned.continuation left).same hinner cursor hahead
  refine ⟨?_, hafter⟩
  unfold Fallbacks.continuation
  split
  · exact hplain
  · exact hplain
  · next mark hquestion hparen hkind =>
    split
    · next hassign hbehind hbinary =>
      rw [hkind, Kind.precedence, Mark.precedence_of_none hquestion hparen hassign hbehind hbinary] at hbinds
      exact absurd hbinds (by decide)
    · exact hplain
  · next hmark =>
    obtain ⟨mark, hkind⟩ := Kind.exists_mark_of_binds hbinds
    exact absurd hkind (hmark mark)

theorem expression (hsame : SameOn allowed fallbacks) (hinner : inner.Same allowed inner')
    (precedence : Precedence) :
    Same allowed (Parse.expression inner precedence) (fallbacks.expression inner' precedence) :=
  (hsame.operand hinner).bind fun left => .repeatWhile (fun left _ hahead hmore =>
    continuation fallbacks hinner left hahead
    (Nat.lt_of_le_of_lt (Nat.zero_le _) (of_decide_eq_true hmore))) left

theorem param (hsame : SameOn allowed fallbacks) : Same allowed Parse.param fallbacks.param :=
  hsame.typeName.bind fun type => (Planned.expectName _).same_self.map (Param.mk type)

theorem functionDef (hsame : SameOn allowed fallbacks) (hinner : inner.Same allowed inner') :
    Same allowed (Parse.functionDef inner) (fallbacks.functionDef inner') :=
  .advance fun _ _ => (Planned.expectName _).same_self.bind fun _ =>
    (Planned.expect _).same_self.bind fun _ =>
    hsame.param.listItems.bind fun _ => (Planned.expect _).same_self.bind fun _ =>
      (hsame.typeName.ifNext _).bind fun _ =>
      (Planned.blockBody.same hinner).map _

theorem varDecl (hsame : SameOn allowed fallbacks) (hinner : inner.Same allowed inner') :
    Same allowed (Parse.varDecl inner) (fallbacks.varDecl inner') :=
  hsame.typeName.bind fun _ => (Planned.expectName _).same_self.bind fun _ =>
    (Same.ifNext _ (hinner (.expression _))).bind fun _ => (Planned.close _ _).same_self

theorem statement (hsame : SameOn allowed fallbacks) (hinner : inner.Same allowed inner') :
    Same allowed (Parse.statement inner) (fallbacks.statement inner') := by
  intro cursor hahead
  obtain ⟨hplain, hafter⟩ := Planned.statement.same hinner cursor hahead
  refine ⟨?_, hafter⟩
  unfold Fallbacks.statement
  split
  · next hkind => rw [(hsame.functionDef hinner cursor hahead).1, statement_eq, hkind]
  · next hkind => rw [(hsame.varDecl hinner cursor hahead).1, statement_eq, hkind]
  · next hkind =>
    rw [statement_eq, hkind]
    split
    · exact (hsame.varDecl hinner cursor hahead).1
    · exact (Planned.expressionStmt.same hinner cursor hahead).1
  · exact hplain

/-- However many levels may nest, the same is read. -/
theorem withRoom (hsame : SameOn allowed fallbacks) (limit room : Nat) :
    (Nested.withRoom limit room).Same allowed (fallbacks.withRoom limit room) := by
  induction room with
  | zero => exact Nested.same_withRoom_zero allowed limit
  | succ room ih =>
    intro request
    cases request with
    | expression precedence => exact hsame.expression ih precedence
    | statement => exact hsame.statement ih

theorem parse (hsame : SameOn allowed fallbacks) (limit : Nat) (entry : Entry) :
    Same allowed (entry.parse limit) (fallbacks.parse limit entry) := by
  cases entry with
  | nested request => exact hsame.withRoom limit limit request
  | program => exact Planned.program.same (hsame.withRoom limit limit)

theorem run (hsame : SameOn allowed fallbacks) {cursor : Cursor} (hahead : cursor.Ahead allowed) (use : Use) :
    fallbacks.run cursor use = use.run cursor ∧ (use.run cursor).2.Ahead allowed := by
  cases use with
  | parse entry =>
    obtain ⟨heq, hafter⟩ := hsame.parse maxDepth entry cursor hahead
    exact ⟨by rw [Fallbacks.run, heq, Use.run], hafter⟩
  | advance => exact ⟨rfl, hahead.advance⟩
  | _ => exact ⟨rfl, hahead⟩

/-- As long as all tokens ahead are allowed, every use is answered the same. -/
theorem answers (hsame : SameOn allowed fallbacks) (uses : List Use) {cursor : Cursor}
    (hahead : cursor.Ahead allowed) :
    fallbacks.answers cursor uses = Kept.answers cursor uses := by
  induction uses generalizing cursor with
  | nil => rfl
  | cons use uses ih =>
    obtain ⟨heq, hafter⟩ := hsame.run hahead use
    rw [Fallbacks.answers, Kept.answers, heq, ih hafter]

end SameOn

/-! ### Filled with the parser's own branches -/

theorem quoted_own {quote : Char} {token : Token} {value : List Char → Parse Tree}
    (hvalue : value (unescape (quotedBody quote token.lexeme.toList)) = Parse.valueOf token) :
    own.quoted quote token value = Parse.valueOf token := by
  rw [quotedBody_eq_getD] at hvalue
  unfold quoted
  cases hbody : wrappedBody? quote token.lexeme.toList with
  | none => rfl
  | some body =>
    rw [hbody, Option.getD_some] at hvalue
    dsimp only
    cases htext : unescapeWhole? body with
    | none => rfl
    | some text =>
      rw [unescape_of_unescapeWhole? htext] at hvalue
      exact hvalue

theorem valueOf_own (token : Token) : own.valueOf token = Parse.valueOf token := by
  unfold Fallbacks.valueOf
  split
  · next hkind =>
    simp only [Parse.valueOf, Token.literal, hkind]
    cases integerValue? token.lexeme.toList <;> rfl
  · next hkind =>
    simp only [Parse.valueOf, Token.literal, hkind]
    cases Binary64.ofLiteral? token.lexeme.toList <;> rfl
  · next hkind =>
    refine quoted_own ?_
    rcases htext : unescape (quotedBody '\'' token.lexeme.toList) with _ | ⟨c, _ | ⟨d, rest⟩⟩
    · simp only [Parse.valueOf, Token.literal, hkind, htext]
      rfl
    · simp only [Parse.valueOf, Token.literal, hkind, htext]
    · simp only [Parse.valueOf, Token.literal, hkind, htext]
  · next hkind =>
    refine quoted_own ?_
    simp only [Parse.valueOf, Token.literal, hkind]
  · next hkind => simp only [Parse.valueOf, Token.literal, hkind]
  · next hkind => simp only [Parse.valueOf, Token.literal, hkind]
  · next hint hfloat hchar hstring htrue hfalse =>
    have hliteral : token.literal = .error .noExpression := by
      unfold Token.literal
      split <;> first | rfl | contradiction
    rw [Parse.valueOf, hliteral]
    rfl

theorem sameOn_own : SameOn (fun _ => True) own := ⟨fun token _ _ => valueOf_own token, fun _ _ _ => rfl⟩

/-- Filled with its own branches the parser is the parser. -/
theorem answers_own (cursor : Cursor) (uses : List Use) :
    own.answers cursor uses = Kept.answers cursor uses :=
  sameOn_own.answers uses fun _ _ => trivial

/-! ### On the tokens of a source -/

theorem quoted_of_hasItems {quote : Char} {token : Token} {items : List BodyItem}
    (hitems : token.HasItems quote items) (value : List Char → Parse Tree) :
    fallbacks.quoted quote token value = value (items.flatMap BodyItem.value) := by
  have hbody : wrappedBody? quote token.lexeme.toList = some (items.flatMap BodyItem.text) := by
    rw [hitems.lexeme_eq, hitems.body_eq, wrappedBody?_wrapped]
  unfold quoted
  rw [hbody]
  simp only [unescapeWhole?_flatMap]

/-- A value that is spelled as what it was read as is read without any of these branches. -/
theorem valueOf_of_spells {token : Token} (hspells : Spells token.lexeme.toList token.kind)
    (hkind : token.kind ∈ [.intLiteral, .floatLiteral, .stringLiteral, .charLiteral,
      .keyword .trueWord, .keyword .falseWord]) :
    fallbacks.valueOf token = Parse.valueOf token := by
  unfold Fallbacks.valueOf
  split
  · next hint =>
    simp only [Parse.valueOf, Token.literal, hint]
    cases integerValue? token.lexeme.toList <;> rfl
  · next hfloat =>
    rw [hfloat] at hspells
    obtain ⟨value, hvalue⟩ := Option.ne_none_iff_exists'.1 hspells.ofLiteral?_ne_none
    simp only [Parse.valueOf, Token.literal, hfloat, hvalue]
  · next hchar =>
    obtain ⟨item, hitem, hliteral⟩ := token.exists_hasItems_of_char hspells hchar
    rw [quoted_of_hasItems hitem, List.flatMap_singleton, Parse.valueOf, hliteral]
    match hvalue : item.value with
    | [] => exact absurd hvalue item.value_ne_nil
    | [c] => rfl
    | _ :: _ :: _ => rfl
  · next hstring =>
    obtain ⟨items, hitems, hliteral⟩ := token.exists_hasItems_of_string hspells hstring
    rw [quoted_of_hasItems hitems, Parse.valueOf, hliteral]
  · next htrue => simp only [Parse.valueOf, Token.literal, htrue]
  · next hfalse => simp only [Parse.valueOf, Token.literal, hfalse]
  · simp_all

/-- On tokens that are spelled as what they were read as, it makes no difference what the branches do. -/
theorem sameOn_isFaithful (fallbacks : Fallbacks) : fallbacks.SameOn Token.IsFaithful := by
  refine ⟨fun token hfaithful hkind => ?_, fun token hfaithful hkind => ?_⟩
  · exact valueOf_of_spells (hfaithful.spells (by rintro hother; simp [hother] at hkind)
      (by rintro hother; simp [hother] at hkind)) hkind
  · obtain ⟨type, htype⟩ := hfaithful.exists_typeName hkind
    rw [typeOf, Parse.typeOf, htype]

end Fallbacks

/-! ### Messages -/

/-- Only causes that are never found have messages of these two kinds. -/
theorem Cause.message_ne_of_arises {cause : Cause} (harises : cause.arises = true) (token : Token)
    (rest : String) :
    cause.message token ≠ "Unexpected " ++ rest ∧ cause.message token ≠ "Invalid float literal " ++ rest := by
  have hunexpected : opening "Unexpected " = "Unexpecte".toList := by decide
  have hinvalid : opening "Invalid float literal " = "Invalid f".toList := by decide
  have hopens := cause.opening_message token
  refine ⟨fun heq => ?_, fun heq => ?_⟩
  · rw [heq, opening_append hunexpected rfl] at hopens
    cases cause with
    | notAnOperator => cases harises
    | tooDeep construct limit => cases construct <;> simp [opens] at hopens
    | _ => simp [opens] at hopens
  · rw [heq, opening_append hinvalid rfl] at hopens
    cases cause with
    | malformedFloat => cases harises
    | tooDeep construct limit => cases construct <;> simp [opens] at hopens
    | _ => simp [opens] at hopens

theorem Use.arises_of_fault {cursor : Cursor} (hfaithful : cursor.IsFaithful) {use : Use} {fault : Fault}
    (hreply : (use.run cursor).1 = .fault fault) : fault.cause.arises = true := by
  cases use with
  | parse entry =>
    have hleaves := entry.leaves hfaithful maxDepth
    rw [Use.run] at hreply
    cases hresult : entry.parse maxDepth cursor with
    | ok tree after =>
      rw [hresult] at hreply
      cases hreply
    | error found after =>
      rw [hresult] at hreply hleaves
      cases hreply
      exact hleaves.arises
  | _ => cases hreply

namespace Kept

/-- Whatever a parser over tokens of a source is used for, the causes of its faults are among those
that are found. -/
theorem arises_of_mem_answers (uses : List Use) {cursor : Cursor} (hfaithful : cursor.IsFaithful) :
    ∀ fault token, (.fault fault, token) ∈ answers cursor uses → fault.cause.arises = true := by
  induction uses generalizing cursor with
  | nil => exact fun _ _ hmem => absurd hmem List.not_mem_nil
  | cons use uses ih =>
    intro fault token hmem
    obtain hfirst | hlater := List.mem_cons.1 hmem
    · exact use.arises_of_fault hfaithful (congrArg Prod.fst hfirst).symm
    · have hafter := ((Fallbacks.sameOn_isFaithful .own).run hfaithful use).2
      exact ih hafter fault token hlater

/-- Filled with its own branches the open parser is the parser. Over any part of a source's tokens,
and however it is used, it gives the same answers whatever its branches are filled with. And no
fault is ever reported as a token that is unexpected in an expression, or as a floating-point
literal that is invalid. -/
theorem branches_are_never_taken :
    (∀ cursor uses, Fallbacks.own.answers cursor uses = answers cursor uses) ∧
    ∀ (source : String) (tokens : List Token), tokens <:+: (scan source).1 → ∀ uses : List Use,
      ∃ log, (∀ log', Answers (.fresh tokens) uses log' ↔ log' = log) ∧
        (∀ fallbacks : Fallbacks, fallbacks.answers (.ofTokens tokens) uses = log) ∧
        ∀ fault token, (.fault fault, token) ∈ log → ∀ rest,
          fault.report.message ≠ "Unexpected " ++ rest ∧
            fault.report.message ≠ "Invalid float literal " ++ rest := by
  refine ⟨Fallbacks.answers_own, fun source tokens htokens uses => ?_⟩
  have hfaithful : (Cursor.ofTokens tokens).IsFaithful := fun token hmem =>
    isFaithful_of_mem_scan token (htokens.subset hmem)
  refine ⟨answers (.ofTokens tokens) uses, fun _ => answers_iff, fun fallbacks =>
    ?_, fun fault token hmem rest => ?_⟩
  · exact fallbacks.sameOn_isFaithful.answers uses hfaithful
  · exact Cause.message_ne_of_arises (arises_of_mem_answers uses hfaithful fault token hmem) fault.token rest

/-- Two literals that are compared, without the end of the source, by a parser that takes every such
branch for an empty group. -/
theorem branches_are_never_taken_comparison :
    let branches : Fallbacks :=
      ⟨fun _ => Parse.fail .emptyGroup, Parse.fail .emptyGroup, Parse.fail .emptyGroup,
        Parse.fail .emptyGroup,
        Parse.fail .emptyGroup, Parse.fail .emptyGroup, Parse.fail .emptyGroup⟩
    (scan "'a' < \"b\";").1.take 3 <:+: (scan "'a' < \"b\";").1 ∧
      branches.answers (.ofTokens ((scan "'a' < \"b\";").1.take 3))
        [.parse (.nested (.expression .lowest)), .parse .program] =
        [(.tree (.binary .less (.literal (.char 'a')) (.literal (.string "b"))), .endOfInput ⟨9, 1, 10⟩),
          (.tree (.block []), .endOfInput ⟨9, 1, 10⟩)] := by
  intro branches
  have htokens : (scan "'a' < \"b\";").1.take 3 =
      [⟨.charLiteral, "'a'", ⟨0, 1, 1⟩⟩, ⟨.mark .less, "<", ⟨4, 1, 5⟩⟩,
        ⟨.stringLiteral, "\"b\"", ⟨6, 1, 7⟩⟩] := by decide +kernel
  have hpart : (scan "'a' < \"b\";").1.take 3 <:+: (scan "'a' < \"b\";").1 := (List.take_prefix 3 _).isInfix
  obtain ⟨log, hlog, hbranches, _⟩ :=
    branches_are_never_taken.2 _ _ hpart [.parse (.nested (.expression .lowest)), .parse .program]
  refine ⟨hpart, ?_⟩
  rw [hbranches branches, ← (hlog _).1 (answers_iff.2 rfl), htokens]
  rfl

end Kept

end ObsidianSyntax
