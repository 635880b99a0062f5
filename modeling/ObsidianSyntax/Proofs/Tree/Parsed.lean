import ObsidianSyntax.Proofs.Fault.Earliest
import ObsidianSyntax.Proofs.Token.Stream
import ObsidianSyntax.Proofs.Tree.WellFormed

/-!
# Parsed trees are well formed

Every tree that the parser returns for tokens of a source is well formed. The lexer gives a token
the kind that its text spells, so that names are identifiers and the words for types are told from
other names by their text alone. The rest follows from the grammar, by induction over how a tree is
derived: a statement is open in the grammar exactly if its tree ends in a choice without a second
branch, which is why no such statement is the first branch of two, and the values of literals have
no sign.
-/

namespace ObsidianSyntax

open Grammar

variable {tokens : List Token}

/-! ### Words -/

theorem Spells.isName {text : List Char} (hspells : Spells text .identifier) :
    IsName (String.ofList text) := by
  cases hspells with
  | identifier hword htable => exact ⟨by simpa using hword, Kind.not_mem_reservedWords_iff.1 htable⟩
  | reserved hword htable =>
    have hall : ∀ word ∈ Kind.reservedWords, word.2 ≠ .identifier := by decide
    exact absurd rfl (hall _ htable)

/-- The words for types are reserved. -/
theorem Spells.ofReserved?_of_isType {text : List Char} {kind : Kind} (hspells : Spells text kind)
    (htype : kind.isType = true) :
    Kind.ofReserved? (String.ofList text) = some kind := by
  cases hspells with
  | reserved hword htable => exact Kind.mem_reservedWords_iff.1 htable
  | _ => cases htype

/-- The primitive types go by the words for types. -/
theorem TypeName.isPrimitive_iff {type : TypeName} :
    type.isPrimitive = true ↔ ∃ kind, kind.isType = true ∧ Kind.ofReserved? type.text = some kind := by
  have hall : ∀ primitive ∈ Primitive.all,
      (primitive.spelling, Kind.primitive primitive) ∈ Kind.reservedWords := by decide
  have htable : ∀ word ∈ Kind.reservedWords, word.2.isType = true →
      ∃ primitive ∈ Primitive.all, primitive.spelling = word.1 := by
    decide
  simp only [isPrimitive, List.any_eq_true, beq_iff_eq, ← Kind.mem_reservedWords_iff]
  refine ⟨fun h => ?_, fun h => ?_⟩
  · obtain ⟨primitive, hmem, htext⟩ := h
    exact ⟨.primitive primitive, rfl, htext ▸ hall primitive hmem⟩
  · obtain ⟨kind, htype, hmem⟩ := h
    exact htable _ hmem htype

/-- A text for a type names a primitive one exactly if its kind is that of a word for a type. -/
theorem Spells.isPrimitive_iff {type : TypeName} {kind : Kind} (hspells : Spells type.text.toList kind)
    (hkind : kind.isType = true ∨ kind = .identifier) : type.isPrimitive = true ↔ kind.isType = true := by
  rw [TypeName.isPrimitive_iff]
  refine ⟨fun h => ?_, fun htype => ⟨kind, htype, by simpa using hspells.ofReserved?_of_isType htype⟩⟩
  obtain ⟨reserved, _, hreserved⟩ := h
  obtain htype | rfl := hkind
  · exact htype
  · have hname := hspells.isName.unreserved
    rw [String.ofList_toList, hreserved] at hname
    cases hname

/-! ### Terminals -/

/-- A name is an identifier that is not reserved, and a type is one of the tokens'. -/
structure Terminal.IsSound (tokens : List Token) (terminal : Terminal) : Prop where
  isName : terminal.kind = .identifier → IsName terminal.text
  isReadFrom : ∀ {type : TypeName}, terminal.NamesType type → type.IsReadFrom tokens

theorem Token.isReadFrom {token : Token} {type : TypeName}
    (hfaithful : ∀ token ∈ tokens, token.IsFaithful) (hmem : token ∈ tokens)
    (hkind : token.kind.isType = true ∨ token.kind = .identifier) (htext : token.lexeme = type.text) :
    type.IsReadFrom tokens := by
  have hspells : Spells type.text.toList token.kind := by
    rw [← htext]
    apply (hfaithful token hmem).spells <;> intro hkind' <;> simp [hkind', Kind.isType] at hkind
  refine ⟨type.text_ne_empty, ⟨token, hmem, htext, hkind⟩, fun other hother htext' =>
    ?_, fun hprimitive => ?_⟩
  · rw [(hfaithful other hother).kind_eq (htext' ▸ hspells)]
    exact hspells.isPrimitive_iff hkind
  · obtain htype | hname := hkind
    · rw [(hspells.isPrimitive_iff (.inl htype)).2 htype] at hprimitive
      cases hprimitive
    · rw [hname] at hspells
      simpa using hspells.isName

theorem Token.isSound_terminal {token : Token} (hfaithful : ∀ token ∈ tokens, token.IsFaithful)
    (hmem : token ∈ tokens) :
    token.terminal.IsSound tokens := by
  have htext : ∀ {kind : Kind}, token.kind = kind → kind.hasText = true →
      token.terminal.text = token.lexeme := by
    rintro _ rfl htext
    simp [terminal, htext]
  refine ⟨fun hname => ?_, fun {type} htype => ?_⟩
  · have hspells := (hfaithful token hmem).spells
    rw [kind_terminal] at hname
    rw [hname] at hspells
    rw [htext hname rfl]
    simpa using (hspells (by decide) (by decide)).isName
  · obtain ⟨hkind, htype⟩ := htype
    rw [htext rfl (Kind.hasText_of_namesType hkind)] at htype
    exact isReadFrom hfaithful hmem hkind htype

/-! ### Literals -/

theorem Binary64.ofRatio_isSound (num den : Nat) :
    (ofRatio num den).isNaN = false ∧ (ofRatio num den).isNegative = false := by
  generalize hword : min (spacing num den * twoTo 52 +
    divToNearest (num * twoTo 1074) (den * twoTo (spacing num den))) infiniteMagnitude = word
  have hle : word ≤ 2047 * 2 ^ 52 := hword ▸ Nat.min_le_right _ _
  have hbits : (ofRatio num den).bits.toNat = word := by
    rw [ofRatio, hword]
    exact UInt64.toNat_ofNat_of_lt' (Nat.lt_of_le_of_lt hle (by decide))
  have htwo : twoTo 63 = 2 ^ 63 := rfl
  have hinfinite : infiniteMagnitude = 2047 * 2 ^ 52 := rfl
  simp only [isNaN, isNegative, magnitude, hbits, htwo, hinfinite, decide_eq_false_iff_not]
  omega

theorem Terminal.Denotes.isSound {terminal : Terminal} {value : Literal}
    (hdenotes : terminal.Denotes value) : value.IsSound := by
  cases hdenotes with
  | int _ hfits => exact ⟨by omega, by omega⟩
  | float => exact Binary64.ofRatio_isSound _ _
  | _ => trivial

/-! ### Derivations -/

theorem Terminal.IsSound.isName_name {text : String} (hsound : (Terminal.name text).IsSound tokens) :
    IsName text :=
  hsound.isName rfl

theorem Tree.IsWellFormed.isName {name : String}
    (hwell : (Tree.identifier name).IsWellFormed tokens) : IsName name :=
  hwell.isSound.name name (by simp)

/-- All terminals are sound. -/
def AllSound (tokens : List Token) (ts : List Terminal) : Prop := ∀ t ∈ ts, t.IsSound tokens

section

variable {t : Terminal} {ts us : List Terminal}

@[simp] theorem allSound_cons : AllSound tokens (t :: ts) ↔ t.IsSound tokens ∧ AllSound tokens ts :=
  List.forall_mem_cons

@[simp] theorem allSound_append :
    AllSound tokens (ts ++ us) ↔ AllSound tokens ts ∧ AllSound tokens us :=
  List.forall_mem_append

end

namespace Tree

/-- The tree may stand where an expression belongs. -/
structure IsOperand (tokens : List Token) (tree : Tree) : Prop where
  isExpression : tree.isExpression = true
  isWellFormed : tree.IsWellFormed tokens

theorem endsOpen_of_isExpression {tree : Tree} (hexpr : tree.isExpression = true) :
    tree.endsOpen = false := by
  cases tree <;> simp_all [isExpression, isStatement, endsOpen]

end Tree

section

variable {ts : List Terminal}

theorem Grammar.IsParam.isSound {param : Param} (hparam : IsParam ts param) (hts : AllSound tokens ts) :
    param.type.IsReadFrom tokens ∧ IsName param.name := by
  cases hparam with
  | intro htype =>
    simp only [allSound_cons] at hts
    exact ⟨hts.1.isReadFrom htype, hts.2.1.isName_name⟩

theorem Grammar.Separated.isSound {params : List Param} (hparams : Separated IsParam ts params)
    (hts : AllSound tokens ts) :
    ∀ param ∈ params, param.type.IsReadFrom tokens ∧ IsName param.name := by
  induction hparams with
  | one hparam => simpa using hparam.isSound hts
  | cons hparam _ ih =>
    simp only [allSound_append, allSound_cons] at hts
    exact List.forall_mem_cons.2 ⟨hparam.isSound hts.1, ih hts.2.2⟩

theorem Grammar.Params.isSound {params : List Param} (hparams : Params ts params) (hts : AllSound tokens ts) :
    ∀ param ∈ params, param.type.IsReadFrom tokens ∧ IsName param.name := by
  cases hparams with
  | none => simp
  | some hparams => exact hparams.isSound hts

theorem Grammar.Returns.isSound {type : TypeName} (htype : Returns ts type) (hts : AllSound tokens ts) :
    type = .void ∨ type.IsReadFrom tokens := by
  cases htype with
  | nothing => exact .inl rfl
  | type htype =>
    simp only [allSound_cons] at hts
    exact .inr (hts.2.1.isReadFrom htype)

end

open ObsidianSyntax.Tree (isWellFormed_iff isWellFormed_block isSound_iff children)

namespace Grammar

mutual

theorem Primary.isOperand {n : Nat} {ts : List Terminal} {tree : Tree} (hts : AllSound tokens ts) :
    Primary n ts tree → tree.IsOperand tokens
  | .literal hvalue => ⟨rfl, isWellFormed_iff.2 (by simp [isSound_iff, children, hvalue.isSound])⟩
  | .name => by
    simp only [allSound_cons] at hts
    have hname := hts.1.isName_name
    exact ⟨rfl, isWellFormed_iff.2 (by simp [isSound_iff, children, hname])⟩
  | .group hexpr => by
    simp only [allSound_cons, allSound_append] at hts
    exact hexpr.isOperand hts.2.1
  | .builtin hexpr => by
    simp only [allSound_cons, allSound_append] at hts
    obtain ⟨hexpr, hwell⟩ := hexpr.isOperand hts.2.2.1
    exact ⟨rfl, isWellFormed_iff.2 (by simp [isSound_iff, children, hexpr, hwell])⟩
  | .sizeOf htype => by
    simp only [allSound_cons] at hts
    have htype := hts.2.2.1.isReadFrom htype
    exact ⟨rfl, isWellFormed_iff.2 (by simp [isSound_iff, children, htype])⟩
  | .unsafeBlock hbody => by
    simp only [allSound_cons, allSound_append] at hts
    have hwell := isWellFormed_block.2 (hbody.isWellFormed hts.2.2.1)
    exact ⟨rfl, isWellFormed_iff.2 (by simp [isSound_iff, children, hwell])⟩
  | .cast htype hexpr => by
    simp only [allSound_cons, allSound_append] at hts
    have htype := hts.2.2.1.isReadFrom htype
    obtain ⟨hexpr, hwell⟩ := hexpr.isOperand hts.2.2.2.2.2.1
    exact ⟨rfl, isWellFormed_iff.2 (by simp [isSound_iff, children, htype, hexpr, hwell])⟩

/-- Expressions may stand where expressions belong. -/
theorem Expr.isOperand {n : Nat} {p : Precedence} {ts : List Terminal} {tree : Tree}
    (hts : AllSound tokens ts) :
    Expr n p ts tree → tree.IsOperand tokens
  | .primary hprimary => hprimary.isOperand hts
  | .before _ _ hoperand => by
    simp only [allSound_cons] at hts
    obtain ⟨hexpr, hwell⟩ := hoperand.isOperand hts.2
    exact ⟨rfl, isWellFormed_iff.2 (by simp [isSound_iff, children, hexpr, hwell])⟩
  | .behind _ hoperand => by
    simp only [allSound_append] at hts
    obtain ⟨hexpr, hwell⟩ := hoperand.isOperand hts.1
    exact ⟨rfl, isWellFormed_iff.2 (by simp [isSound_iff, children, hexpr, hwell])⟩
  | .call hcallee harguments => by
    simp only [allSound_cons, allSound_append] at hts
    have hname := (hcallee.isOperand hts.1).isWellFormed.isName
    have hall := harguments.areOperands hts.2.2.1
    have hexpr := fun part hpart => (hall part hpart).isExpression
    have hwell := fun part hpart => (hall part hpart).isWellFormed
    exact ⟨rfl, isWellFormed_iff.2 (by simpa [isSound_iff, children, hname] using ⟨hexpr, hwell⟩)⟩
  | .binary _ _ hleft hright | .power _ hleft hright => by
    simp only [allSound_cons, allSound_append] at hts
    obtain ⟨hexpr, hwell⟩ := hleft.isOperand hts.1
    obtain ⟨hexpr', hwell'⟩ := hright.isOperand hts.2.2
    exact ⟨rfl, isWellFormed_iff.2 (by simp [isSound_iff, children, hexpr, hwell, hexpr', hwell'])⟩
  | .assign _ htarget hvalue => by
    simp only [allSound_cons, allSound_append] at hts
    have hname := (htarget.isOperand hts.1).isWellFormed.isName
    obtain ⟨hexpr, hwell⟩ := hvalue.isOperand hts.2.2
    exact ⟨rfl, isWellFormed_iff.2 (by simp [isSound_iff, children, hname, hexpr, hwell])⟩
  | .ternary _ hcondition hconsequent halternative => by
    simp only [allSound_cons, allSound_append] at hts
    have hcondition := hcondition.isOperand hts.1
    have hconsequent := hconsequent.isOperand hts.2.2.1
    have halternative := halternative.isOperand hts.2.2.2.2
    exact ⟨rfl, isWellFormed_iff.2
      (by simp [isSound_iff, children, hcondition.isExpression, hcondition.isWellFormed,
      hconsequent.isExpression, hconsequent.isWellFormed, halternative.isExpression,
      halternative.isWellFormed])⟩

theorem Args.areOperands {n : Nat} {ts : List Terminal} {arguments : List Tree} (hts : AllSound tokens ts) :
    Args n ts arguments → ∀ tree ∈ arguments, tree.IsOperand tokens
  | .none => nofun
  | .some harguments => harguments.areOperands hts

theorem Exprs.areOperands {n : Nat} {ts : List Terminal} {arguments : List Tree} (hts : AllSound tokens ts) :
    Exprs n ts arguments → ∀ tree ∈ arguments, tree.IsOperand tokens
  | .one hexpr => List.forall_mem_singleton.2 (hexpr.isOperand hts)
  | .cons hexpr hrest => by
    simp only [allSound_cons, allSound_append] at hts
    exact List.forall_mem_cons.2 ⟨hexpr.isOperand hts.1, hrest.areOperands hts.2.2⟩

theorem Clause.areOperands {n : Nat} {ts : List Terminal} {value : Option Tree} (hts : AllSound tokens ts) :
    Clause n ts value → ∀ tree ∈ value, tree.IsOperand tokens
  | .none => nofun
  | .some hexpr => by
    rintro _ ⟨⟩
    exact hexpr.isOperand hts

/-- A statement is open exactly if its tree ends in a choice without a second branch, so that the
first branch of two does not. -/
theorem Stmt.isWellFormed {n : Nat} {isOpen : Bool} {ts : List Terminal} {tree : Tree}
    (hts : AllSound tokens ts) :
    Stmt n isOpen ts tree → tree.endsOpen = isOpen ∧ tree.IsWellFormed tokens
  | .block hbody => by
    simp only [allSound_cons, allSound_append] at hts
    exact ⟨rfl, isWellFormed_block.2 (hbody.isWellFormed hts.2.1)⟩
  | .functionDef hparams htype hbody => by
    simp only [allSound_cons, allSound_append] at hts
    obtain ⟨_, hname, _, hps, _, hrs, _, hbs, _⟩ := hts
    have hname := hname.isName_name
    have htypes := fun param hmem => (hparams.isSound hps param hmem).1
    have hnames := fun param hmem => (hparams.isSound hps param hmem).2
    have htype := htype.isSound hrs
    have hwell := isWellFormed_block.2 (hbody.isWellFormed hbs)
    exact ⟨rfl, isWellFormed_iff.2
      (by simpa [isSound_iff, children, hname, hwell, htype] using ⟨hnames, htypes⟩)⟩
  | .declaration htype => by
    simp only [allSound_cons] at hts
    have htype := hts.1.isReadFrom htype
    have hname := hts.2.1.isName_name
    exact ⟨rfl, isWellFormed_iff.2 (by simp [isSound_iff, children, htype, hname])⟩
  | .initialized htype hvalue => by
    simp only [allSound_cons, allSound_append] at hts
    have htype := hts.1.isReadFrom htype
    have hname := hts.2.1.isName_name
    obtain ⟨hexpr, hwell⟩ := hvalue.isOperand hts.2.2.2.1
    exact ⟨rfl, isWellFormed_iff.2 (by simp [isSound_iff, children, htype, hname, hexpr, hwell])⟩
  | .ifThen hcondition hconsequent => by
    simp only [allSound_cons, allSound_append] at hts
    obtain ⟨hexpr, hwell⟩ := hcondition.isOperand hts.2.2.1
    obtain ⟨_, hwell'⟩ := hconsequent.isWellFormed hts.2.2.2.2
    exact ⟨rfl, isWellFormed_iff.2 (by simp [isSound_iff, children, hexpr, hwell, hwell'])⟩
  | .ifElse hcondition hconsequent halternative => by
    simp only [allSound_cons, allSound_append] at hts
    obtain ⟨hexpr, hwell⟩ := hcondition.isOperand hts.2.2.1
    obtain ⟨hclosed, hwell'⟩ := hconsequent.isWellFormed hts.2.2.2.2.1
    obtain ⟨hopen, hwell''⟩ := halternative.isWellFormed hts.2.2.2.2.2.2
    exact ⟨hopen, isWellFormed_iff.2
      (by simp [isSound_iff, children, hexpr, hwell, hclosed, hwell', hwell''])⟩
  | .whileLoop hcondition hbody => by
    simp only [allSound_cons, allSound_append] at hts
    obtain ⟨hexpr, hwell⟩ := hcondition.isOperand hts.2.2.1
    obtain ⟨hopen, hwell'⟩ := hbody.isWellFormed hts.2.2.2.2
    exact ⟨hopen, isWellFormed_iff.2 (by simp [isSound_iff, children, hexpr, hwell, hwell'])⟩
  | @Stmt.forLoop _ _ _ _ _ _ start condition step body hstart hcondition hstep hbody => by
    simp only [allSound_cons, allSound_append] at hts
    obtain ⟨_, _, hts, _, hus, _, hvs, _, hws⟩ := hts
    have hstart := hstart.areOperands hts
    have hcondition := hcondition.areOperands hus
    have hstep := hstep.areOperands hvs
    obtain ⟨hopen, hwell⟩ := hbody.isWellFormed hws
    have hall : ∀ part, start = some part ∨ condition = some part ∨ step = some part →
        part.IsOperand tokens := by
      rintro part (hpart | hpart | hpart)
      · exact hstart part hpart
      · exact hcondition part hpart
      · exact hstep part hpart
    have hexpr := fun part hpart => (hall part hpart).isExpression
    refine ⟨hopen, isWellFormed_iff.2 ⟨by simpa [isSound_iff] using hexpr, fun part hpart => ?_⟩⟩
    have hcases : (start = some part ∨ condition = some part ∨ step = some part) ∨ part = body := by
      simpa [children, or_assoc] using hpart
    obtain hclause | rfl := hcases
    · exact (hall part hclause).isWellFormed
    · exact hwell
  | .returnStmt hvalue => by
    simp only [allSound_cons, allSound_append] at hts
    have hall := hvalue.areOperands hts.2.1
    have hexpr := fun part hpart => (hall part hpart).isExpression
    have hwell := fun part hpart => (hall part hpart).isWellFormed
    exact ⟨rfl, isWellFormed_iff.2 (by simpa [isSound_iff, children] using ⟨hexpr, hwell⟩)⟩
  | .println hexpr => by
    simp only [allSound_cons, allSound_append] at hts
    obtain ⟨hexpr, hwell⟩ := hexpr.isOperand hts.2.2.1
    exact ⟨rfl, isWellFormed_iff.2 (by simp [isSound_iff, children, hexpr, hwell])⟩
  | .expression _ hexpr => by
    simp only [allSound_append] at hts
    obtain ⟨hexpr, hwell⟩ := hexpr.isOperand hts.1
    exact ⟨Tree.endsOpen_of_isExpression hexpr, hwell⟩

theorem Stmts.isWellFormed {n : Nat} {ts : List Terminal} {body : List Tree} (hts : AllSound tokens ts) :
    Stmts n ts body → ∀ tree ∈ body, tree.IsWellFormed tokens
  | .nil => nofun
  | .cons hstmt hrest => by
    simp only [allSound_append] at hts
    exact List.forall_mem_cons.2 ⟨(hstmt.isWellFormed hts.1).2, hrest.isWellFormed hts.2⟩

end

end Grammar

/-! ### Parsers -/

/-- The tree is one that the parser returns for the source, for its tokens, or at any place among
tokens of it. -/
inductive Tree.ParsedFrom (source : String) : Tree → Prop where
  | source {tree : Tree} (hok : parseSource source = .ok tree) : ParsedFrom source tree
  | tokens {tree : Tree} (hok : parseTokens (scan source).1 = .ok tree) : ParsedFrom source tree
  | program {tree : Tree} {cursor after : Cursor} (hrest : ∀ token ∈ cursor.rest, token ∈ (scan source).1)
      (hok : Parse.program maxDepth cursor = .ok tree after) : ParsedFrom source tree

theorem Parse.isWellFormed_of_program {limit : Nat} {cursor after : Cursor} {tree : Tree}
    (hfaithful : ∀ token ∈ tokens, token.IsFaithful) (hrest : ∀ token ∈ cursor.rest, token ∈ tokens)
    (hok : Parse.program limit cursor = .ok tree after) : tree.IsWellFormed tokens := by
  have haccepts := programWith_accepts (Nested.withRoom_follows limit limit) _ cursor rfl tree after
  obtain ⟨ts, hreads, body, ⟨hstmts, _⟩, rfl⟩ := haccepts.1 hok
  obtain ⟨before, hsplit, _, rfl, _⟩ := Cursor.reads_iff_append.1 hreads
  refine isWellFormed_block.2 (hstmts.isWellFormed fun t hmem => ?_)
  obtain ⟨token, htoken, rfl⟩ := List.mem_map.1 hmem
  exact Token.isSound_terminal hfaithful (hrest token (hsplit ▸ List.mem_append_left _ htoken))

theorem isWellFormed_of_parseTokens {tree : Tree} (hfaithful : ∀ token ∈ tokens, token.IsFaithful)
    (hok : parseTokens tokens = .ok tree) : tree.IsWellFormed tokens := by
  unfold parseTokens at hok
  split at hok
  · next tree' after hprogram =>
    cases hok
    exact Parse.isWellFormed_of_program hfaithful (fun _ => id) hprogram
  · cases hok

theorem Tree.ParsedFrom.isWellFormed {source : String} {tree : Tree} (hparsed : tree.ParsedFrom source) :
    tree.IsWellFormed (scan source).1 := by
  cases hparsed with
  | source hok => exact isWellFormed_of_parseTokens isFaithful_of_mem_scan (parseSource_eq_ok_iff.1 hok).2
  | tokens hok => exact isWellFormed_of_parseTokens isFaithful_of_mem_scan hok
  | program hrest hok => exact Parse.isWellFormed_of_program isFaithful_of_mem_scan hrest hok

/-- Every tree that the parser returns is well formed, and no two of them compare as the same that
are not identical. -/
theorem parsed_isWellFormed {source : String} {tree : Tree} (hparsed : tree.ParsedFrom source) :
    tree.IsWellFormed (scan source).1 ∧
    ∀ source' tree', Tree.ParsedFrom source' tree' → (tree.same tree' = true ↔ tree = tree') :=
  ⟨hparsed.isWellFormed, fun _ tree' hparsed' =>
    tree.same_iff tree' hparsed.isWellFormed hparsed'.isWellFormed⟩

theorem parsed_isWellFormed_closedBranch :
    parseSource "if(a)b;else i8 c;" = .ok (.block [.ifElse (.identifier "a") (.identifier "b")
      (some (.varDecl ⟨"i8", by decide⟩ "c" none))]) ∧
    (Tree.block [.ifElse (.identifier "a") (.identifier "b")
      (some (.varDecl ⟨"i8", by decide⟩ "c" none))]).IsWellFormed
      (scan "if(a)b;else i8 c;").1 := by
  have htokens : (scan "if(a)b;else i8 c;").1 = [⟨.keyword .ifWord, "if", ⟨0, 1, 1⟩⟩,
    ⟨.mark .leftParen, "(", ⟨2, 1, 3⟩⟩, ⟨.identifier, "a", ⟨3, 1, 4⟩⟩,
    ⟨.mark .rightParen, ")", ⟨4, 1, 5⟩⟩, ⟨.identifier, "b", ⟨5, 1, 6⟩⟩,
    ⟨.mark .semicolon, ";", ⟨6, 1, 7⟩⟩, ⟨.keyword .elseWord, "else", ⟨7, 1, 8⟩⟩,
    ⟨.primitive .i8, "i8", ⟨12, 1, 13⟩⟩, ⟨.identifier, "c", ⟨15, 1, 16⟩⟩,
    ⟨.mark .semicolon, ";", ⟨16, 1, 17⟩⟩, .endOfInput ⟨17, 1, 18⟩] := by decide +kernel
  have hok : parseSource "if(a)b;else i8 c;" = .ok (.block [.ifElse (.identifier "a") (.identifier "b")
      (some (.varDecl ⟨"i8", by decide⟩ "c" none))]) := by
    rw [parseSource_of_valid (by rw [htokens]; rfl), htokens]
    rfl
  exact ⟨hok, (parsed_isWellFormed (.source hok)).1⟩

end ObsidianSyntax
