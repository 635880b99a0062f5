import ObsidianSyntax.Proofs.Parse.Combinators

/-!
# The operands that the parser reads

An operand is what an expression starts with: a name or a literal, something between brackets, or an
operator before an operand of its own. The parsers of operands are given the parsers for what is
nested in them. If those follow the grammar (`Nested.Follows`), so do these, one level deeper.
-/

namespace ObsidianSyntax

open Grammar

/-- The parsers for what is nested read the expressions and statements that nest at most `n` levels.
An expression read at a precedence ends before a token that does not bind tighter, and a statement
that a second branch could go on with ends before another word. -/
structure Nested.Follows (inner : Nested) (n : Nat) : Prop where
  expr : ∀ p : Precedence, p ≤ .prefixOp →
    (inner.expr p).Accepts fun ts tree next => Expr n p.tighter ts tree ∧ next.precedence ≤ p
  stmt : inner.stmt.Accepts fun ts tree next =>
    ∃ isOpen, Stmt n isOpen ts tree ∧ (isOpen = true → next ≠ .keyword .elseWord)

/-! ### Names and literals -/

theorem isDigits_iff {text : List Char} :
    IsDigits text ↔ (!text.isEmpty && text.all Char.isDigit) = true := by
  simp [IsDigits]

theorem integerValue?_eq_some_iff {digits : List Char} {value : Nat} :
    integerValue? digits = some value ↔
      IsDigits digits ∧ Nat.ofDigitChars 10 digits 0 < 2 ^ 63 ∧ Nat.ofDigitChars 10 digits 0 = value := by
  simp only [integerValue?, isDigits_iff, Bool.and_eq_true, decide_eq_true_eq, Option.ite_none_right_eq_some,
    Option.some.injEq, and_assoc]
  rfl

theorem Binary64.ofLiteral?_eq_some_iff {text : List Char} {value : Binary64} :
    ofLiteral? text = some value ↔
      ∃ whole places, IsDigits whole ∧ IsDigits places ∧ text = whole ++ '.' :: places ∧
        ofRatio (Nat.ofDigitChars 10 (whole ++ places) 0) (10 ^ places.length) = value := by
  refine ⟨fun hliteral => ?_, fun h => ?_⟩
  · have hsplit := text.takeWhile_append_dropWhile (p := Char.isDigit)
    unfold ofLiteral? at hliteral
    simp only at hliteral
    split at hliteral
    · next places hrest =>
      split at hliteral
      · next hdigits =>
        simp only [Bool.and_eq_true] at hdigits
        refine ⟨text.takeWhile Char.isDigit, places, ⟨by simpa using hdigits.1.1, ?_⟩,
          ⟨by simpa using hdigits.1.2, ?_⟩, ?_, ?_⟩
        · exact fun c hc => List.mem_takeWhile_imp hc
        · simpa using hdigits.2
        · rw [← hrest, hsplit]
        · exact Option.some.inj hliteral
      · cases hliteral
    · cases hliteral
  · obtain ⟨whole, places, hwhole, hplaces, rfl, rfl⟩ := h
    have htake : (whole ++ '.' :: places).takeWhile Char.isDigit = whole := by
      rw [List.takeWhile_append_of_pos hwhole.2]
      simp
    have hdrop : (whole ++ '.' :: places).dropWhile Char.isDigit = '.' :: places := by
      rw [List.dropWhile_append_of_pos hwhole.2]
      simp
    have hboth : (!whole.isEmpty && !places.isEmpty && places.all Char.isDigit) = true := by
      simpa [hwhole.1, hplaces.1] using hplaces.2
    simp only [ofLiteral?, htake, hdrop, hboth, if_true]
    rfl

theorem Terminal.Denotes.kind_ne_identifier {terminal : Terminal} {value : Literal}
    (hdenotes : terminal.Denotes value) :
    terminal.kind ≠ .identifier := by
  cases hdenotes <;> simp [keyword]

/-- The value of a token is the one that its terminal denotes. -/
theorem Token.literal_eq_ok_iff {token : Token} {value : Literal} :
    token.literal = .ok value ↔ token.terminal.Denotes value := by
  constructor
  · intro hvalue
    unfold literal at hvalue
    split at hvalue
    · next hkind =>
      rw [(Token.terminal_eq_iff_of_hasText rfl).2 ⟨hkind, rfl⟩]
      split at hvalue
      · next value' hsome =>
        obtain ⟨hdigits, hfits, rfl⟩ := integerValue?_eq_some_iff.1 hsome
        cases hvalue
        have hdenotes := Terminal.Denotes.int hdigits hfits
        rwa [String.ofList_toList] at hdenotes
      · cases hvalue
    · next hkind =>
      rw [(Token.terminal_eq_iff_of_hasText rfl).2 ⟨hkind, rfl⟩]
      split at hvalue
      · next value' hsome =>
        obtain ⟨whole, places, hwhole, hplaces, htext, rfl⟩ := Binary64.ofLiteral?_eq_some_iff.1 hsome
        cases hvalue
        have hdenotes := Terminal.Denotes.float hwhole hplaces
        rwa [← htext, String.ofList_toList] at hdenotes
      · cases hvalue
    · next hkind =>
      rw [(Token.terminal_eq_iff_of_hasText rfl).2 ⟨hkind, rfl⟩]
      split at hvalue
      · next c hone =>
        cases hvalue
        exact .char hone
      · cases hvalue
    · next hkind =>
      rw [(Token.terminal_eq_iff_of_hasText rfl).2 ⟨hkind, rfl⟩]
      cases hvalue
      exact .string
    · next hkind =>
      rw [(Token.terminal_eq_iff rfl).2 hkind]
      cases hvalue
      exact .true
    · next hkind =>
      rw [(Token.terminal_eq_iff rfl).2 hkind]
      cases hvalue
      exact .false
    · cases hvalue
  · intro hdenotes
    generalize hterminal : token.terminal = terminal at hdenotes
    cases hdenotes with
    | int hdigits hfits =>
      obtain ⟨hkind, hlexeme⟩ := (Token.terminal_eq_iff_of_hasText rfl).1 hterminal
      simp [literal, hkind, hlexeme, integerValue?_eq_some_iff.2 ⟨hdigits, hfits, rfl⟩]
    | float hwhole hplaces =>
      obtain ⟨hkind, hlexeme⟩ := (Token.terminal_eq_iff_of_hasText rfl).1 hterminal
      simp [literal, hkind, hlexeme, Binary64.ofLiteral?_eq_some_iff.2 ⟨_, _, hwhole, hplaces, rfl, rfl⟩]
    | char hone =>
      obtain ⟨hkind, hlexeme⟩ := (Token.terminal_eq_iff_of_hasText rfl).1 hterminal
      simp [literal, hkind, hlexeme, hone]
    | string =>
      obtain ⟨hkind, hlexeme⟩ := (Token.terminal_eq_iff_of_hasText rfl).1 hterminal
      simp [literal, hkind, hlexeme]
    | true | false =>
      have hkind := (Token.terminal_eq_iff rfl).1 hterminal
      simp [literal, hkind]

theorem TypeName.ofString?_eq_some_iff {text : String} {type : TypeName} :
    ofString? text = some type ↔ text = type.text := by
  obtain ⟨name, hname⟩ := type
  by_cases htext : text = ""
  · simp only [ofString?, htext, dif_pos, reduceCtorEq, false_iff]
    exact Ne.symm hname
  · simp [ofString?, htext]

theorem Kind.hasText_of_namesType {kind : Kind} (htype : kind.isType = true ∨ kind = .identifier) :
    kind.hasText = true := by
  revert htype
  cases kind <;> simp [isType, hasText]

namespace Parse

variable {inner : Nested} {n : Nat}

theorem typeName_apply (cursor : Cursor) : typeName cursor =
    (if (cursor.current.kind.isType || cursor.current.kind == .identifier) = true then do
      let _ ← advance
      match TypeName.ofString? cursor.current.lexeme with
      | some type => return type
      | none => fail .noType cursor.current
    else fail .noType cursor.current : Parse TypeName) cursor := rfl

theorem typeName_eq_ok {cursor after : Cursor} {type : TypeName} :
    typeName cursor = .ok type after ↔
      (cursor.current.kind.isType = true ∨ cursor.current.kind = .identifier) ∧
      cursor.current.lexeme = type.text ∧ after = cursor.advance := by
  have htype : (cursor.current.kind.isType = true ∨ cursor.current.kind = .identifier) ↔
      (cursor.current.kind.isType || cursor.current.kind == .identifier) = true := by simp
  rw [typeName_apply, ← TypeName.ofString?_eq_some_iff, htype]
  by_cases hkind : (cursor.current.kind.isType || cursor.current.kind == .identifier) = true
  · rw [if_pos hkind, bind_eq_ok]
    cases TypeName.ofString? cursor.current.lexeme with
    | none => simp
    | some type' =>
      refine ⟨fun h => ?_, fun h => ?_⟩
      · obtain ⟨_, _, hadvance, hpure⟩ := h
        cases hadvance
        cases hpure
        exact ⟨hkind, rfl, rfl⟩
      · obtain ⟨_, hsome, rfl⟩ := h
        cases hsome
        exact ⟨cursor.current, _, rfl, rfl⟩
  · simp [hkind]

theorem Accepts.typeName :
    typeName.Accepts fun ts type _ => ∃ terminal, ts = [terminal] ∧ terminal.NamesType type := by
  intro kind cursor _ type after
  rw [typeName_eq_ok]
  refine ⟨fun h => ?_, fun h => ?_⟩
  · obtain ⟨hkind, hlexeme, rfl⟩ := h
    have htext := Kind.hasText_of_namesType hkind
    have hlive : cursor.current.isEnd = false := by
      refine isEnd_eq_false_of_kind rfl fun hend => ?_
      simp [hend, Kind.hasText] at htext
    have hterminal := (Token.terminal_eq_iff_of_hasText htext).2 ⟨rfl, hlexeme⟩
    exact ⟨[⟨cursor.current.kind, type.text⟩], ⟨hlive, hterminal, rfl⟩, _, rfl, hkind, rfl⟩
  · obtain ⟨_, hreads, terminal, rfl, hkind, htype⟩ := h
    obtain ⟨_, rfl, rfl⟩ := hreads
    have htext := Kind.hasText_of_namesType hkind
    exact ⟨hkind, ((Token.terminal_eq_iff_of_hasText htext).1 rfl).2.trans htype, rfl⟩

theorem atom_apply (cursor : Cursor) : atom cursor =
    (if cursor.current.kind = .identifier then return .identifier cursor.current.lexeme
    else
      match cursor.current.literal with
      | .ok value => return .literal value
      | .error cause => fail cause cursor.current : Parse Tree) cursor.advance := rfl

theorem atom_eq_ok {cursor after : Cursor} {tree : Tree} :
    atom cursor = .ok tree after ↔
      (cursor.current.kind = .identifier ∧ .identifier cursor.current.lexeme = tree ∨
        cursor.current.kind ≠ .identifier ∧ ∃ value, cursor.current.literal = .ok value ∧
          .literal value = tree) ∧
      cursor.advance = after := by
  rw [atom_apply]
  by_cases hname : cursor.current.kind = .identifier
  · simp [hname, pure_eq_ok]
  · cases cursor.current.literal <;> simp [hname, pure_eq_ok]

theorem atom_accepts {kind : Kind} (hend : kind ≠ .endOfInput) :
    atom.AcceptsAt kind fun ts tree _ =>
      (∃ name, ts = [.name name] ∧ tree = .identifier name) ∨
        ∃ terminal value, ts = [terminal] ∧ terminal.Denotes value ∧ tree = .literal value := by
  intro cursor hkind tree after
  have hlive := isEnd_eq_false_of_kind hkind hend
  rw [atom_eq_ok]
  refine ⟨fun h => ?_, fun h => ?_⟩
  · obtain ⟨⟨hname, rfl⟩ | ⟨hname, value, hvalue, rfl⟩, rfl⟩ := h
    · have hterminal := (Token.terminal_eq_iff_of_hasText rfl).2 ⟨hname, rfl⟩
      exact ⟨[.name cursor.current.lexeme], ⟨hlive, hterminal, rfl⟩, .inl ⟨_, rfl, rfl⟩⟩
    · exact ⟨[cursor.current.terminal], ⟨hlive, rfl, rfl⟩,
        .inr ⟨_, value, rfl, Token.literal_eq_ok_iff.1 hvalue, rfl⟩⟩
  · obtain ⟨_, hreads, ⟨name, rfl, rfl⟩ | ⟨terminal, value, rfl, hvalue, rfl⟩⟩ := h
    · obtain ⟨_, hterminal, rfl⟩ := hreads
      obtain ⟨hname, rfl⟩ := (Token.terminal_eq_iff_of_hasText rfl).1 hterminal
      exact ⟨.inl ⟨hname, rfl⟩, rfl⟩
    · obtain ⟨_, rfl, rfl⟩ := hreads
      exact ⟨.inr ⟨hvalue.kind_ne_identifier, value, Token.literal_eq_ok_iff.2 hvalue, rfl⟩, rfl⟩

/-! ### Statements between braces -/

/-- Repeated statements are statements one after the other. An open one is not followed by the word
that would go on with it, as no statement starts with that word. -/
theorem repeats_stmt_iff {more : Kind → Bool}
    (hmore : ∀ kind, endsStatements kind = false → more kind = true)
    (helse : more (.keyword .elseWord) = true) {ts : List Terminal} {body : List Tree} {next : Kind} :
    Repeats more (fun ts tree next => ∃ isOpen, Stmt n isOpen ts tree ∧
      (isOpen = true → next ≠ .keyword .elseWord))
      ts body next ↔ Stmts n ts body ∧ more next = false := by
  refine ⟨fun hrepeats => ?_, fun h => ?_⟩
  · induction hrepeats with
    | nil hstop => exact ⟨.nil, hstop⟩
    | cons _ hitem _ ih =>
      obtain ⟨isOpen, hstmt, _⟩ := hitem
      exact ⟨.cons hstmt ih.1, ih.2⟩
  · obtain ⟨hstmts, hstop⟩ := h
    induction body generalizing ts with
    | nil =>
      cases hstmts
      exact .nil hstop
    | cons tree rest ih =>
      cases hstmts with
      | @cons _ isOpen us vs _ _ hstmt hrest =>
        have hnext : following vs next ≠ .keyword .elseWord := by
          cases hrest with
          | nil =>
            rintro rfl
            simp [helse] at hstop
          | @cons _ _ _ ws _ _ hstmt' _ =>
            intro hfollowing
            have hends := hstmt'.endsStatements_following (following ws next)
            rw [← following_append, hfollowing] at hends
            exact absurd hends (by decide)
        refine .cons (hmore _ ?_) ⟨isOpen, hstmt, fun _ => hnext⟩ (ih hrest)
        rw [following_append]
        exact hstmt.endsStatements_following _

theorem consumes_stmt (hinner : inner.Follows n) : inner.stmt.Consumes := by
  refine hinner.stmt.consumes fun ts tree next hstmt => ?_
  obtain ⟨isOpen, hstmt, _⟩ := hstmt
  rintro rfl
  exact absurd (hstmt.endsStatements_following .endOfInput) (by decide)

theorem blockBody_accepts (hinner : inner.Follows n) :
    (blockBody inner).Accepts fun ts body _ =>
      ∃ us, ts = .mark .leftBrace :: (us ++ [.mark .rightBrace]) ∧ Stmts n us body := by
  let more (kind : Kind) : Bool := !(kind == .mark .rightBrace || kind == .endOfInput)
  have hmore : ∀ kind, endsStatements kind = false → more kind = true := by
    intro kind hkind
    simp only [endsStatements, Bool.or_eq_false_iff] at hkind
    simp [more, hkind.1.2, hkind.2]
  have hmany : (many (fun token => more token.kind) inner.stmt).Accepts _ :=
    Accepts.many (by decide) (consumes_stmt hinner) fun kind _ => hinner.stmt kind
  have hbody := (@Accepts.expect .openBlock rfl (by decide)).bind fun _ => hmany.bind fun body =>
    (@Accepts.expect .closeBlock rfl (by decide)).bind fun _ => Accepts.pure body
  refine Accepts.congr hbody fun ts body next => ?_
  simp only [Language.andThen_expected, Language.behind, Language.andThen_behind,
    repeats_stmt_iff hmore (by decide)]
  refine ⟨fun h => ?_, fun h => ?_⟩
  · obtain ⟨_, rfl, us, _, _, rfl, ⟨hstmts, _⟩, rfl, rfl⟩ := h
    exact ⟨us, rfl, hstmts⟩
  · obtain ⟨us, rfl, hstmts⟩ := h
    exact ⟨_, rfl, us, body, [], rfl, ⟨hstmts, by decide⟩, rfl, rfl⟩

/-! ### Operands between brackets -/

theorem group_accepts (hinner : inner.Follows n) :
    (group inner).AcceptsAt (.mark .leftParen) fun ts tree _ =>
      ∃ us, ts = .mark .leftParen :: (us ++ [.mark .rightParen]) ∧ Expr n .comma us tree := by
  have hbody := (Accepts.refuse (.mark .rightParen) .emptyGroup).bind fun _ =>
    (hinner.expr .lowest (by decide)).bind fun tree =>
    (@Accepts.expect .closeGroup rfl (by decide)).bind fun _ => Accepts.pure tree
  refine (AcceptsAt.skip hbody rfl (by decide)).congr fun ts tree next _ => ?_
  simp only [Language.behind, Language.andThen_refused, Language.andThen_expected, Language.andThen_behind]
  refine ⟨fun h => ?_, fun h => ?_⟩
  · obtain ⟨_, rfl, _, us, _, _, rfl, ⟨hexpr, _⟩, rfl, rfl⟩ := h
    exact ⟨us, rfl, hexpr⟩
  · obtain ⟨us, rfl, hexpr⟩ := h
    refine ⟨_, rfl, ?_, us, tree, [], rfl, ⟨hexpr, by decide⟩, rfl, rfl⟩
    rw [following_append]
    exact hexpr.starts.following_ne rfl

theorem builtin_accepts (hinner : inner.Follows n) (function : Builtin) :
    (builtin inner function).AcceptsAt (.keyword function.word) fun ts tree _ =>
      ∃ us argument, ts = .keyword function.word :: .mark .leftParen :: (us ++ [.mark .rightParen]) ∧
        Expr n .comma us argument ∧ tree = .builtin function argument := by
  have hbody := (@Accepts.expect (.openAfter function.word) rfl (by simp [Expectation.kind])).bind fun _ =>
    (hinner.expr .lowest (by decide)).bind fun argument =>
    (@Accepts.expect (.closeBuiltin function.word) rfl (by simp [Expectation.kind])).bind fun _ =>
      Accepts.pure (Tree.builtin function argument)
  refine (AcceptsAt.skip hbody rfl (by simp)).congr fun ts tree next _ => ?_
  simp only [Language.behind, Language.andThen_expected, Language.andThen_behind]
  refine ⟨fun h => ?_, fun h => ?_⟩
  · obtain ⟨_, rfl, _, rfl, us, argument, _, rfl, ⟨hexpr, _⟩, rfl, rfl⟩ := h
    exact ⟨us, argument, rfl, hexpr, rfl⟩
  · obtain ⟨us, argument, rfl, hexpr, rfl⟩ := h
    exact ⟨_, rfl, _, rfl, us, argument, [], rfl, ⟨hexpr, Nat.le_refl 0⟩, rfl, rfl⟩

theorem sizeOf_accepts :
    sizeOf.AcceptsAt (.keyword .sizeofWord) fun ts tree _ =>
      ∃ terminal type, ts = [.keyword .sizeofWord, .mark .leftParen, terminal, .mark .rightParen] ∧
        terminal.NamesType type ∧ tree = .sizeOf type := by
  have hbody := (@Accepts.expect (.openAfter .sizeofWord) rfl (by decide)).bind fun _ =>
    Accepts.typeName.bind fun type =>
    (@Accepts.expect .closeType rfl (by decide)).bind fun _ => Accepts.pure (Tree.sizeOf type)
  refine (AcceptsAt.skip hbody rfl (by decide)).congr fun ts tree next _ => ?_
  simp only [Language.behind, Language.andThen_expected, Language.andThen_behind]
  refine ⟨fun h => ?_, fun h => ?_⟩
  · obtain ⟨_, rfl, _, rfl, _, type, _, rfl, ⟨terminal, rfl, htype⟩, rfl, rfl⟩ := h
    exact ⟨terminal, type, rfl, htype, rfl⟩
  · obtain ⟨terminal, type, rfl, htype, rfl⟩ := h
    exact ⟨_, rfl, _, rfl, [terminal], type, [], rfl, ⟨terminal, rfl, htype⟩, rfl, rfl⟩

theorem cast_accepts (hinner : inner.Follows n) :
    (cast inner).AcceptsAt (.keyword .castWord) fun ts tree _ =>
      ∃ terminal type us operand, ts = .keyword .castWord :: .mark .less :: terminal :: .mark .greater ::
          .mark .leftParen :: (us ++ [.mark .rightParen]) ∧
        terminal.NamesType type ∧ Expr n .comma us operand ∧ tree = .cast type operand := by
  have hbody := (@Accepts.expect .openCastType rfl (by decide)).bind fun _ =>
    Accepts.typeName.bind fun type =>
    (@Accepts.expect .closeCastType rfl (by decide)).bind fun _ =>
    (@Accepts.expect .openCastOperand rfl (by decide)).bind fun _ =>
    (hinner.expr .lowest (by decide)).bind fun operand =>
    (@Accepts.expect .closeCastOperand rfl (by decide)).bind fun _ => Accepts.pure (Tree.cast type operand)
  refine (AcceptsAt.skip hbody rfl (by decide)).congr fun ts tree next _ => ?_
  simp only [Language.behind, Language.andThen_expected, Language.andThen_behind]
  refine ⟨fun h => ?_, fun h => ?_⟩
  · obtain ⟨_, rfl, _, rfl, _, type, _, rfl, ⟨terminal, rfl, htype⟩, _, rfl, us, operand, _, rfl,
        ⟨hexpr, _⟩, rfl, rfl⟩ := h
    exact ⟨terminal, type, us, operand, rfl, htype, hexpr, rfl⟩
  · obtain ⟨terminal, type, us, operand, rfl, htype, hexpr, rfl⟩ := h
    exact ⟨_, rfl, _, rfl, [terminal], type, _, rfl, ⟨terminal, rfl, htype⟩, _, rfl, us, operand, [], rfl,
      ⟨hexpr, by decide⟩, rfl, rfl⟩

/-- An operator before its operand, which takes what binds tighter than such operators. -/
theorem prefixed_accepts (hinner : inner.Follows n) (op : UnaryOp) :
    (prefixed inner op).AcceptsAt (.mark op.mark) fun ts tree next =>
      ∃ us operand, ts = .mark op.mark :: us ∧ Expr n .prefixOp us operand ∧ tree = .unary op operand ∧
        next.precedence ≤ .prefixOp := by
  have hbody := (hinner.expr .prefixOp (by decide)).bind fun operand => Accepts.pure (Tree.unary op operand)
  refine (AcceptsAt.skip hbody rfl (by simp)).congr fun ts tree next _ => ?_
  simp only [Language.behind, Language.andThen_pure]
  refine ⟨fun h => ?_, fun h => ?_⟩
  · obtain ⟨us, rfl, operand, ⟨hexpr, hnext⟩, rfl⟩ := h
    exact ⟨us, operand, rfl, hexpr, rfl, hnext⟩
  · obtain ⟨us, operand, rfl, hexpr, rfl, hnext⟩ := h
    exact ⟨us, rfl, operand, ⟨hexpr, hnext⟩, rfl⟩

theorem unsafeBlock_accepts (hinner : inner.Follows n) :
    (unsafeBlock inner).AcceptsAt (.keyword .unsafeWord) fun ts tree _ =>
      ∃ us body, ts = .keyword .unsafeWord :: .mark .leftBrace :: (us ++ [.mark .rightBrace]) ∧
        Stmts n us body ∧ tree = .unsafeBlock body := by
  have hbody := (blockBody_accepts hinner).bind fun body => Accepts.pure (Tree.unsafeBlock body)
  refine (AcceptsAt.skip hbody rfl (by decide)).congr fun ts tree next _ => ?_
  simp only [Language.behind, Language.andThen_pure]
  refine ⟨fun h => ?_, fun h => ?_⟩
  · obtain ⟨_, rfl, body, ⟨us, rfl, hstmts⟩, rfl⟩ := h
    exact ⟨us, body, rfl, hstmts, rfl⟩
  · obtain ⟨us, body, rfl, hstmts, rfl⟩ := h
    exact ⟨_, rfl, body, ⟨us, rfl, hstmts⟩, rfl⟩

/-- What an expression starts with. Behind an operator and its operand comes nothing that the
operand could go on with. -/
def Operand (n : Nat) : Language Tree := fun ts tree next =>
  Primary (n + 1) ts tree ∨ ∃ op us operand, op.isBehind = false ∧ ts = .mark op.mark :: us ∧
    Expr n .prefixOp us operand ∧ tree = .unary op operand ∧ next.precedence ≤ .prefixOp

theorem before?_eq_some {mark : Mark} {op : UnaryOp} (hop : UnaryOp.before? mark = some op) :
    op.isBehind = false ∧ op.mark = mark := by
  unfold UnaryOp.before? at hop
  have hfound := List.find?_some hop
  simpa using hfound

theorem ofWord?_eq_some {word : Keyword} {function : Builtin}
    (hfunction : Builtin.ofWord? word = some function) :
    function.word = word := by
  unfold Builtin.ofWord? at hfunction
  have hfound := List.find?_some hfunction
  simpa using hfound

theorem operand_accepts (hinner : inner.Follows n) : (operand inner).Accepts (Operand n) := by
  intro kind
  refine AcceptsAt.current fun token htoken cursor hcursor tree after => ?_
  have hkind : token.kind = cursor.current.kind := htoken.trans hcursor.symm
  refine ⟨fun hok => ?_, fun h => ?_⟩
  · have hatom : kind ≠ .endOfInput → atom cursor = .ok tree after →
        ∃ ts, cursor.Reads ts after ∧ Operand n ts tree after.current.kind := by
      intro hend hatom
      obtain ⟨ts, hreads, ⟨name, rfl, rfl⟩ | ⟨terminal, value, rfl, hvalue, rfl⟩⟩ :=
        (atom_accepts hend cursor hcursor tree after).1 hatom
      · exact ⟨_, hreads, .inl .name⟩
      · exact ⟨_, hreads, .inl (.literal hvalue)⟩
    generalize hk : token.kind = k at hok hkind
    split at hok
    iterate 7
      · exact hatom (by rw [← htoken, hk]; simp) hok
    · obtain ⟨_, hreads, us, rfl, hexpr⟩ := (group_accepts hinner cursor hkind.symm tree after).1 hok
      exact ⟨_, hreads, .inl (.group hexpr)⟩
    · obtain ⟨_, hreads, terminal, type, rfl, htype, rfl⟩ :=
        (sizeOf_accepts cursor hkind.symm tree after).1 hok
      exact ⟨_, hreads, .inl (.sizeOf htype)⟩
    · obtain ⟨_, hreads, us, body, rfl, hbody, rfl⟩ :=
        (unsafeBlock_accepts hinner cursor hkind.symm tree after).1 hok
      exact ⟨_, hreads, .inl (.unsafeBlock hbody)⟩
    · obtain ⟨_, hreads, terminal, type, us, operand, rfl, htype, hexpr, rfl⟩ :=
        (cast_accepts hinner cursor hkind.symm tree after).1 hok
      exact ⟨_, hreads, .inl (.cast htype hexpr)⟩
    · next mark _ =>
      cases hop : UnaryOp.before? mark with
      | none =>
        rw [hop] at hok
        exact absurd hok fail_ne_ok
      | some op =>
        rw [hop] at hok
        obtain ⟨hbefore, rfl⟩ := before?_eq_some hop
        obtain ⟨_, hreads, us, operand, rfl, hexpr, rfl, hnext⟩ :=
          (prefixed_accepts hinner op cursor hkind.symm tree after).1 hok
        exact ⟨_, hreads, .inr ⟨op, us, operand, hbefore, rfl, hexpr, rfl, hnext⟩⟩
    · next word _ _ _ _ _ =>
      cases hfunction : Builtin.ofWord? word with
      | none =>
        rw [hfunction] at hok
        exact absurd hok fail_ne_ok
      | some function =>
        rw [hfunction] at hok
        obtain rfl := ofWord?_eq_some hfunction
        obtain ⟨_, hreads, us, argument, rfl, hexpr, rfl⟩ :=
          (builtin_accepts hinner function cursor hkind.symm tree after).1 hok
        exact ⟨_, hreads, .inl (.builtin hexpr)⟩
    · exact absurd hok fail_ne_ok
  · obtain ⟨ts, hreads, hprimary | ⟨op, us, operand, hop, rfl, hexpr, rfl, hnext⟩⟩ := h
    · have hfollowing := hreads.following
      cases hprimary with
      | literal hvalue =>
        have hatom := (atom_accepts (by cases hvalue <;> simp [Terminal.keyword]) cursor hfollowing _ after).2
          ⟨_, hreads, .inr ⟨_, _, rfl, hvalue, rfl⟩⟩
        cases hvalue <;> (rw [hkind, hfollowing]; exact hatom)
      | name =>
        rw [hkind, hfollowing]
        exact (atom_accepts (by simp [Terminal.name]) cursor hfollowing _ after).2 ⟨_, hreads,
          .inl ⟨_, rfl, rfl⟩⟩
      | group hexpr =>
        rw [hkind, hfollowing]
        exact (group_accepts hinner cursor hfollowing _ after).2 ⟨_, hreads, _, rfl, hexpr⟩
      | @builtin _ _ function _ hexpr =>
        have hbuiltin := (builtin_accepts hinner function cursor hfollowing _ after).2 ⟨_, hreads,
          _, _, rfl, hexpr, rfl⟩
        rw [hkind, hfollowing]
        cases function <;> exact hbuiltin
      | sizeOf htype =>
        rw [hkind, hfollowing]
        exact (sizeOf_accepts cursor hfollowing _ after).2 ⟨_, hreads, _, _, rfl, htype, rfl⟩
      | unsafeBlock hbody =>
        rw [hkind, hfollowing]
        exact (unsafeBlock_accepts hinner cursor hfollowing _ after).2 ⟨_, hreads, _, _, rfl, hbody, rfl⟩
      | cast htype hexpr =>
        rw [hkind, hfollowing]
        exact (cast_accepts hinner cursor hfollowing _ after).2 ⟨_, hreads, _, _, _, _, rfl, htype,
          hexpr, rfl⟩
    · have hprefixed := (prefixed_accepts hinner op cursor hreads.following _ after).2
        ⟨_, hreads, us, operand, rfl, hexpr, rfl, hnext⟩
      rw [hkind, hreads.following]
      cases op <;> first | exact hprefixed | exact absurd hop (by decide)

end Parse

end ObsidianSyntax
