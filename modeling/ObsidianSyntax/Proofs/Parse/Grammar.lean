import Mathlib.Algebra.Group.Nat.Defs
import ObsidianSyntax.Parse.Program
import ObsidianSyntax.Proofs.Token.Spelling

/-!
# The grammar of programs

Which lists of tokens are expressions, statements and programs, and of which trees, said without
reading them. Of a token the grammar sees its kind, and its text where that matters (`Terminal`).
Expressions come in levels, one for each precedence: an expression of a level has no operator
outside of parentheses that is looser than the level. What one construct holds in its right sides,
in parentheses and in braces is nested one level deeper in it, and every relation has a bound on the
depth of nesting as its first argument.

A statement is open when it ends in a choice without a second branch. The first branch of a choice
with two is not open, so that every `else` belongs to the nearest choice that can take it.
-/

namespace ObsidianSyntax

/-- What the grammar sees of a token: its kind, and its text if tokens of that kind differ by their text. -/
structure Terminal where
  kind : Kind
  text : String
deriving DecidableEq

/-- Whether tokens of the kind differ by their text. -/
def Kind.hasText : Kind → Bool
  | .primitive _ | .identifier | .intLiteral | .floatLiteral | .stringLiteral | .charLiteral => true
  | .mark _ | .keyword _ | .invalid | .endOfInput => false

namespace Terminal

def mark (mark : Mark) : Terminal := ⟨.mark mark, ""⟩

def keyword (word : Keyword) : Terminal := ⟨.keyword word, ""⟩

def name (text : String) : Terminal := ⟨.identifier, text⟩

/-- The terminal is the name of a type, primitive or not. -/
def NamesType (terminal : Terminal) (type : TypeName) : Prop :=
  (terminal.kind.isType = true ∨ terminal.kind = .identifier) ∧ terminal.text = type.text

/-- The terminal is a literal of that value. An integer has to fit 64 bits with a sign, and a
character literal holds one character. -/
inductive Denotes : Terminal → Literal → Prop where
  | int {digits : List Char} (hdigits : IsDigits digits) (hfits : Nat.ofDigitChars 10 digits 0 < 2 ^ 63) :
      Denotes ⟨.intLiteral, String.ofList digits⟩ (.int (Nat.ofDigitChars 10 digits 0))
  | float {whole places : List Char} (hwhole : IsDigits whole) (hplaces : IsDigits places) :
      Denotes ⟨.floatLiteral, String.ofList (whole ++ '.' :: places)⟩
        (.float (.ofRatio (Nat.ofDigitChars 10 (whole ++ places) 0) (10 ^ places.length)))
  | char {text : String} {c : Char} (hone : unescape (quotedBody '\'' text.toList) = [c]) :
      Denotes ⟨.charLiteral, text⟩ (.char c)
  | string {text : String} :
      Denotes ⟨.stringLiteral, text⟩ (.string (String.ofList (unescape (quotedBody '"' text.toList))))
  | true : Denotes (.keyword .trueWord) (.bool true)
  | false : Denotes (.keyword .falseWord) (.bool false)

end Terminal

def Token.terminal (token : Token) : Terminal := ⟨token.kind, if token.kind.hasText then token.lexeme else ""⟩

/-- The level of the expressions whose operators all bind tighter than `p`. Prefix operators bind
nothing before them, so no level is without them. -/
def Precedence.tighter (p : Precedence) : Precedence := all.getD (min (p.rank + 1) 15) .prefixOp

theorem Precedence.rank_tighter (p : Precedence) : p.tighter.rank = min (p.rank + 1) 15 := by
  cases p <;> rfl

/-- The kind of the token at the front of the terminals, or of what comes behind them if there are none. -/
def following (ts : List Terminal) (next : Kind) : Kind := (ts.head?.map Terminal.kind).getD next

@[simp] theorem following_nil (next : Kind) : following [] next = next := rfl

@[simp] theorem following_cons (t : Terminal) (ts : List Terminal) (next : Kind) :
    following (t :: ts) next = t.kind :=
  rfl

@[simp] theorem following_append (ts us : List Terminal) (next : Kind) :
    following (ts ++ us) next = following ts (following us next) := by
  cases ts <;> rfl

namespace Grammar

open Terminal (NamesType Denotes)

/-- Items with commas between them, at least one. -/
inductive Separated {α : Type} (item : List Terminal → α → Prop) : List Terminal → List α → Prop where
  | one {ts : List Terminal} {a : α} (hitem : item ts a) : Separated item ts [a]
  | cons {ts us : List Terminal} {a : α} {rest : List α} (hitem : item ts a)
      (hrest : Separated item us rest) :
      Separated item (ts ++ .mark .comma :: us) (a :: rest)

inductive IsParam : List Terminal → Param → Prop where
  | intro {terminal : Terminal} {type : TypeName} {name : String} (htype : NamesType terminal type) :
      IsParam [terminal, .name name] ⟨type, name⟩

inductive Params : List Terminal → List Param → Prop where
  | none : Params [] []
  | some {ts : List Terminal} {params : List Param} (hparams : Separated IsParam ts params) : Params ts params

/-- What a function returns: nothing if it does not say so. -/
inductive Returns : List Terminal → TypeName → Prop where
  | nothing : Returns [] .void
  | type {terminal : Terminal} {type : TypeName} (htype : NamesType terminal type) :
      Returns [.mark .arrow, terminal] type

mutual

/-- Operands: what stands by itself or between brackets of its own. -/
inductive Primary : Nat → List Terminal → Tree → Prop where
  | literal {n : Nat} {terminal : Terminal} {value : Literal} (hvalue : Denotes terminal value) :
      Primary (n + 1) [terminal] (.literal value)
  | name {n : Nat} {text : String} : Primary (n + 1) [.name text] (.identifier text)
  | group {n : Nat} {ts : List Terminal} {tree : Tree} (hexpr : Expr n .comma ts tree) :
      Primary (n + 1) (.mark .leftParen :: (ts ++ [.mark .rightParen])) tree
  | builtin {n : Nat} {ts : List Terminal} {function : Builtin} {tree : Tree}
      (hexpr : Expr n .comma ts tree) :
      Primary (n + 1) (.keyword function.word :: .mark .leftParen :: (ts ++ [.mark .rightParen]))
        (.builtin function tree)
  | sizeOf {n : Nat} {terminal : Terminal} {type : TypeName} (htype : NamesType terminal type) :
      Primary (n + 1) [.keyword .sizeofWord, .mark .leftParen, terminal, .mark .rightParen] (.sizeOf type)
  | unsafeBlock {n : Nat} {ts : List Terminal} {body : List Tree} (hbody : Stmts n ts body) :
      Primary (n + 1) (.keyword .unsafeWord :: .mark .leftBrace :: (ts ++ [.mark .rightBrace]))
        (.unsafeBlock body)
  | cast {n : Nat} {terminal : Terminal} {type : TypeName} {ts : List Terminal} {tree : Tree}
      (htype : NamesType terminal type) (hexpr : Expr n .comma ts tree) :
      Primary (n + 1)
        (.keyword .castWord :: .mark .less :: terminal :: .mark .greater :: .mark .leftParen ::
          (ts ++ [.mark .rightParen]))
        (.cast type tree)

/-- Expressions whose operators all bind as tightly as a precedence, or tighter. -/
inductive Expr : Nat → Precedence → List Terminal → Tree → Prop where
  | primary {n : Nat} {p : Precedence} {ts : List Terminal} {tree : Tree}
      (hprimary : Primary (n + 1) ts tree) :
      Expr (n + 1) p ts tree
  | before {n : Nat} {p : Precedence} {op : UnaryOp} {ts : List Terminal} {operand : Tree}
      (hlevel : p ≤ .prefixOp)
      (hop : op.isBehind = false) (hoperand : Expr n .prefixOp ts operand) :
      Expr (n + 1) p (.mark op.mark :: ts) (.unary op operand)
  | behind {n : Nat} {p : Precedence} {op : UnaryOp} {ts : List Terminal} {operand : Tree}
      (hop : op.isBehind = true) (hoperand : Expr (n + 1) .postfixOp ts operand) :
      Expr (n + 1) p (ts ++ [.mark op.mark]) (.unary op operand)
  | call {n : Nat} {p : Precedence} {ts us : List Terminal} {callee : String} {arguments : List Tree}
      (hcallee : Primary (n + 1) ts (.identifier callee)) (harguments : Args n us arguments) :
      Expr (n + 1) p (ts ++ .mark .leftParen :: (us ++ [.mark .rightParen])) (.call callee arguments)
  /-- All binary operators but powers group to the left. -/
  | binary {n : Nat} {p : Precedence} {op : BinaryOp} {ts us : List Terminal} {left right : Tree}
      (hlevel : p ≤ op.mark.precedence) (hop : op ≠ .power) (hleft : Expr (n + 1) op.mark.precedence ts left)
      (hright : Expr n op.mark.precedence.tighter us right) :
      Expr (n + 1) p (ts ++ .mark op.mark :: us) (.binary op left right)
  | power {n : Nat} {p : Precedence} {ts us : List Terminal} {left right : Tree} (hlevel : p ≤ .exponent)
      (hleft : Expr (n + 1) .prefixOp ts left) (hright : Expr n .exponent us right) :
      Expr (n + 1) p (ts ++ .mark .power :: us) (.binary .power left right)
  | assign {n : Nat} {p : Precedence} {op : AssignOp} {ts us : List Terminal} {target : String} {value : Tree}
      (hlevel : p ≤ .assignment) (htarget : Primary (n + 1) ts (.identifier target))
      (hvalue : Expr n .assignment us value) :
      Expr (n + 1) p (ts ++ .mark op.mark :: us) (.assign op target value)
  | ternary {n : Nat} {p : Precedence} {ts us vs : List Terminal} {condition consequent alternative : Tree}
      (hlevel : p ≤ .ternary) (hcondition : Expr (n + 1) .logicalOr ts condition)
        (hconsequent : Expr n .comma us consequent)
      (halternative : Expr n .ternary vs alternative) :
      Expr (n + 1) p (ts ++ .mark .question :: (us ++ .mark .colon :: vs))
        (.ternary condition consequent alternative)

inductive Args : Nat → List Terminal → List Tree → Prop where
  | none {n : Nat} : Args n [] []
  | some {n : Nat} {ts : List Terminal} {arguments : List Tree}
      (harguments : Exprs n ts arguments) : Args n ts arguments

/-- Expressions with commas between them, which are therefore tighter than a comma. -/
inductive Exprs : Nat → List Terminal → List Tree → Prop where
  | one {n : Nat} {ts : List Terminal} {tree : Tree} (hexpr : Expr n .assignment ts tree) : Exprs n ts [tree]
  | cons {n : Nat} {ts us : List Terminal} {tree : Tree} {rest : List Tree}
      (hexpr : Expr n .assignment ts tree)
      (hrest : Exprs n us rest) : Exprs n (ts ++ .mark .comma :: us) (tree :: rest)

inductive Clause : Nat → List Terminal → Option Tree → Prop where
  | none {n : Nat} : Clause n [] none
  | some {n : Nat} {ts : List Terminal} {tree : Tree} (hexpr : Expr n .comma ts tree) :
      Clause n ts (some tree)

/-- Statements, each with whether it is open. -/
inductive Stmt : Nat → Bool → List Terminal → Tree → Prop where
  | block {n : Nat} {ts : List Terminal} {body : List Tree} (hbody : Stmts n ts body) :
      Stmt (n + 1) false (.mark .leftBrace :: (ts ++ [.mark .rightBrace])) (.block body)
  | functionDef {n : Nat} {ps rs ts : List Terminal} {name : String} {params : List Param} {type : TypeName}
      {body : List Tree} (hparams : Params ps params) (htype : Returns rs type) (hbody : Stmts n ts body) :
      Stmt (n + 1) false
        (.keyword .fnWord :: .name name :: .mark .leftParen :: (ps ++ .mark .rightParen :: (rs ++
          .mark .leftBrace :: (ts ++ [.mark .rightBrace])))) (.functionDef name type params body)
  | declaration {n : Nat} {terminal : Terminal} {type : TypeName} {name : String}
      (htype : NamesType terminal type) :
      Stmt (n + 1) false [terminal, .name name, .mark .semicolon] (.varDecl type name none)
  | initialized {n : Nat} {terminal : Terminal} {type : TypeName} {name : String}
      {ts : List Terminal} {value : Tree}
      (htype : NamesType terminal type) (hvalue : Expr n .assignment ts value) :
      Stmt (n + 1) false (terminal :: .name name :: .mark .equal :: (ts ++ [.mark .semicolon]))
        (.varDecl type name (some value))
  | ifThen {n : Nat} {isOpen : Bool} {ts us : List Terminal} {condition consequent : Tree}
      (hcondition : Expr n .comma ts condition) (hconsequent : Stmt n isOpen us consequent) :
      Stmt (n + 1) true (.keyword .ifWord :: .mark .leftParen :: (ts ++ .mark .rightParen :: us))
        (.ifElse condition consequent none)
  | ifElse {n : Nat} {isOpen : Bool} {ts us vs : List Terminal} {condition consequent alternative : Tree}
      (hcondition : Expr n .comma ts condition) (hconsequent : Stmt n false us consequent)
      (halternative : Stmt n isOpen vs alternative) :
      Stmt (n + 1) isOpen
        (.keyword .ifWord :: .mark .leftParen ::
          (ts ++ .mark .rightParen :: (us ++ .keyword .elseWord :: vs)))
        (.ifElse condition consequent (some alternative))
  | whileLoop {n : Nat} {isOpen : Bool} {ts us : List Terminal} {condition body : Tree}
      (hcondition : Expr n .comma ts condition) (hbody : Stmt n isOpen us body) :
      Stmt (n + 1) isOpen (.keyword .whileWord :: .mark .leftParen :: (ts ++ .mark .rightParen :: us))
        (.whileLoop condition body)
  | forLoop {n : Nat} {isOpen : Bool} {ts us vs ws : List Terminal}
      {start condition step : Option Tree} {body : Tree}
      (hstart : Clause n ts start) (hcondition : Clause n us condition) (hstep : Clause n vs step)
      (hbody : Stmt n isOpen ws body) :
      Stmt (n + 1) isOpen
        (.keyword .forWord :: .mark .leftParen :: (ts ++ .mark .semicolon :: (us ++ .mark .semicolon :: (vs ++
          .mark .rightParen :: ws)))) (.forLoop start condition step body)
  | returnStmt {n : Nat} {ts : List Terminal} {value : Option Tree} (hvalue : Clause n ts value) :
      Stmt (n + 1) false (.keyword .returnWord :: (ts ++ [.mark .semicolon])) (.returnStmt value)
  | println {n : Nat} {ts : List Terminal} {tree : Tree} (hexpr : Expr n .comma ts tree) :
      Stmt (n + 1) false
        (.keyword .printlnWord :: .mark .leftParen :: (ts ++ [.mark .rightParen, .mark .semicolon]))
        (.builtin .println tree)
  /-- An expression as a statement starts with any other word. -/
  | expression {n : Nat} {ts : List Terminal} {tree : Tree} (hfirst : ts.head? ≠ some (.keyword .printlnWord))
      (hexpr : Expr n .comma ts tree) : Stmt (n + 1) false (ts ++ [.mark .semicolon]) tree

inductive Stmts : Nat → List Terminal → List Tree → Prop where
  | nil {n : Nat} : Stmts n [] []
  | cons {n : Nat} {isOpen : Bool} {ts us : List Terminal} {tree : Tree} {rest : List Tree}
      (hstmt : Stmt n isOpen ts tree) (hrest : Stmts n us rest) : Stmts n (ts ++ us) (tree :: rest)

end

/-! ### Levels -/

variable {n : Nat} {ts : List Terminal} {tree : Tree}

/-- An expression of a level is one of every looser level. -/
theorem Expr.looser {p q : Precedence} (hexpr : Expr n q ts tree) (hle : p ≤ q) : Expr n p ts tree := by
  have htrans : ∀ {r : Precedence}, q ≤ r → p ≤ r := fun hr => Nat.le_trans hle hr
  cases hexpr with
  | primary hprimary => exact .primary hprimary
  | before hlevel hop hoperand => exact .before (htrans hlevel) hop hoperand
  | behind hop hoperand => exact .behind hop hoperand
  | call hcallee harguments => exact .call hcallee harguments
  | binary hlevel hop hleft hright => exact .binary (htrans hlevel) hop hleft hright
  | power hlevel hleft hright => exact .power (htrans hlevel) hleft hright
  | assign hlevel htarget hvalue => exact .assign (htrans hlevel) htarget hvalue
  | ternary hlevel hcondition hconsequent halternative =>
    exact .ternary (htrans hlevel) hcondition hconsequent halternative

/-- Only an operand has a name for its tree. -/
theorem Expr.primary_of_identifier {p : Precedence} {name : String} (hexpr : Expr n p ts (.identifier name)) :
    Primary n ts (.identifier name) := by
  cases hexpr with
  | primary hprimary => exact hprimary

theorem not_expr_zero {p : Precedence} : ¬ Expr 0 p ts tree := by
  intro hexpr
  cases hexpr

theorem not_stmt_zero {isOpen : Bool} : ¬ Stmt 0 isOpen ts tree := by
  intro hstmt
  cases hstmt

/-! ### First terminals -/

/-- The kinds that expressions start with. -/
def startsExpression : Kind → Bool
  | .identifier | .intLiteral | .floatLiteral | .stringLiteral | .charLiteral => true
  | .keyword word =>
    word ∈ [.trueWord, .falseWord, .sizeofWord, .unsafeWord, .castWord] ||
      Builtin.all.any fun function => function.word == word
  | .mark mark => mark == .leftParen || UnaryOp.all.any fun op => !op.isBehind && op.mark == mark
  | .primitive _ | .invalid | .endOfInput => false

/-- The list starts as an expression does, and not with two names. -/
def Starts (ts : List Terminal) : Prop :=
  ∃ first rest, ts = first :: rest ∧ startsExpression first.kind = true ∧
    (first.kind = .identifier → ∀ second ∈ rest.head?, second.kind ≠ .identifier)

theorem Starts.append {t : Terminal} {us : List Terminal} (hstarts : Starts ts) (ht : t.kind ≠ .identifier) :
    Starts (ts ++ t :: us) := by
  obtain ⟨first, rest, rfl, hfirst, hsecond⟩ := hstarts
  refine ⟨first, rest ++ t :: us, rfl, hfirst, fun hname second hmem => ?_⟩
  cases rest with
  | nil =>
    obtain rfl : t = second := by simpa using hmem
    exact ht
  | cons u rest => exact hsecond hname second (by simpa using hmem)

theorem startsExpression_word (function : Builtin) : startsExpression (.keyword function.word) = true := by
  cases function <;> rfl

theorem startsExpression_mark (op : UnaryOp) : startsExpression (.mark op.mark) = true := by
  cases op <;> rfl

theorem Primary.starts (hprimary : Primary n ts tree) : Starts ts := by
  cases hprimary with
  | @literal _ terminal _ hvalue =>
    refine ⟨terminal, [], rfl, ?_, by simp⟩
    cases hvalue <;> rfl
  | name => exact ⟨_, [], rfl, rfl, by simp⟩
  | @builtin _ _ function _ _ =>
    exact ⟨_, _, rfl, startsExpression_word function, by simp [Terminal.keyword]⟩
  | group | sizeOf | unsafeBlock | cast => exact ⟨_, _, rfl, rfl, by simp [Terminal.keyword, Terminal.mark]⟩

theorem Expr.starts {n : Nat} {p : Precedence} {ts : List Terminal} {tree : Tree} :
    Expr n p ts tree → Starts ts
  | .primary hprimary => hprimary.starts
  | .before _ _ _ => ⟨_, _, rfl, startsExpression_mark _, by simp [Terminal.mark]⟩
  | .behind _ hoperand => hoperand.starts.append (by simp [Terminal.mark])
  | .call hcallee _ => hcallee.starts.append (by simp [Terminal.mark])
  | .binary _ _ hleft _ => hleft.starts.append (by simp [Terminal.mark])
  | .power _ hleft _ => hleft.starts.append (by simp [Terminal.mark])
  | .assign _ htarget _ => htarget.starts.append (by simp [Terminal.mark])
  | .ternary _ hcondition _ _ => hcondition.starts.append (by simp [Terminal.mark])

theorem Starts.following_ne {kind next : Kind} (hstarts : Starts ts) (hkind : startsExpression kind = false) :
    following ts next ≠ kind := by
  obtain ⟨first, rest, rfl, hfirst, _⟩ := hstarts
  rintro rfl
  simp [hfirst] at hkind

/-- The kinds that no statement starts with: the word for a second branch, a closing brace and the end. -/
def endsStatements (kind : Kind) : Bool :=
  kind == .keyword .elseWord || kind == .mark .rightBrace || kind == .endOfInput

theorem endsStatements_of_startsExpression {kind : Kind} (hkind : startsExpression kind = true) :
    endsStatements kind = false := by
  by_contra hends
  simp only [endsStatements, Bool.not_eq_false, Bool.or_eq_true, beq_iff_eq] at hends
  rcases hends with (rfl | rfl) | rfl <;> exact absurd hkind (by decide)

theorem NamesType.endsStatements {terminal : Terminal} {type : TypeName} (htype : terminal.NamesType type) :
    endsStatements terminal.kind = false := by
  obtain ⟨htype | hname, _⟩ := htype
  · revert htype
    cases terminal.kind <;> simp [Kind.isType, Grammar.endsStatements]
  · rw [hname]
    rfl

theorem Stmt.endsStatements_following {isOpen : Bool} (hstmt : Stmt n isOpen ts tree) (next : Kind) :
    endsStatements (following ts next) = false := by
  cases hstmt with
  | expression _ hexpr =>
    obtain ⟨first, rest, rfl, hfirst, _⟩ := hexpr.starts
    exact endsStatements_of_startsExpression hfirst
  | declaration htype | initialized htype _ => exact NamesType.endsStatements htype
  | _ => rfl

end Grammar

end ObsidianSyntax
