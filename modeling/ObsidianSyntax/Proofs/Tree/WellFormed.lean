import ObsidianSyntax.Proofs.Print.Source
import ObsidianSyntax.Proofs.Token.Spelling

/-!
# Well-formed trees

The type of trees allows any tree anywhere. What later stages rely on is said node by node: what
stands where an expression belongs is one, what is used as a name is one and no reserved word, types
are names of types in the source, literals have values that a source can hold, and no choice with
two branches has a first branch that a second branch could also belong to. A tree is well formed if
all nodes in it are sound in this way.

Trees are compared with their floating-point numbers as numbers, of which two may be the same
without being identical, and one may differ from itself. Well-formed trees hold no such numbers, so
that there the comparison is identity.
-/

namespace ObsidianSyntax

/-- The text is an identifier, and none that has a fixed meaning. -/
structure IsName (text : String) : Prop where
  isWord : IsWord text.toList
  unreserved : Kind.ofReserved? text = none

/-- The value is one that a literal can have: integers fit 64 bits with a sign and have none, and
floating-point numbers are numbers and have no sign either. -/
def Literal.IsSound : Literal → Prop
  | .int value => 0 ≤ value ∧ value < 2 ^ 63
  | .float value => value.isNaN = false ∧ value.isNegative = false
  | .bool _ | .char _ | .string _ => True

/-- The type is named by one of the tokens. It is primitive exactly if that token, as any other of
the same text, is the word for a primitive type. -/
structure TypeName.IsReadFrom (tokens : List Token) (type : TypeName) : Prop where
  ne_empty : type.text ≠ ""
  source : ∃ token ∈ tokens, token.lexeme = type.text ∧ (token.kind.isType = true ∨ token.kind = .identifier)
  isPrimitive_iff : ∀ token ∈ tokens, token.lexeme = type.text →
    (type.isPrimitive = true ↔ token.kind.isType = true)
  isName : type.isPrimitive = false → IsName type.text

namespace Tree

/-! ### What a node holds -/

/-- Whether the node has statements of its own that are no node by themselves. -/
@[simp] def ownsBody : Tree → Bool
  | .unsafeBlock _ | .functionDef .. => true
  | _ => false

/-- The parts that stand where an expression belongs. -/
@[simp] def operands : Tree → List Tree
  | .binary _ left right => [left, right]
  | .unary _ operand | .assign _ _ operand | .builtin _ operand | .cast _ operand => [operand]
  | .ternary condition consequent alternative => [condition, consequent, alternative]
  | .call _ arguments => arguments
  | .returnStmt value | .varDecl _ _ value => value.toList
  | .ifElse condition _ _ | .whileLoop condition _ => [condition]
  | .forLoop start condition step _ => start.toList ++ condition.toList ++ step.toList
  | _ => []

/-- The names of what the node uses or declares. -/
@[simp] def names : Tree → List String
  | .identifier name | .assign _ name _ | .call name _ | .varDecl _ name _ => [name]
  | .functionDef name _ params _ => name :: params.map Param.name
  | _ => []

/-- The types that the node states, but for what a function returns. -/
@[simp] def types : Tree → List TypeName
  | .sizeOf type | .cast type _ | .varDecl type _ _ => [type]
  | .functionDef _ _ params _ => params.map Param.type
  | _ => []

@[simp] def returnType? : Tree → Option TypeName
  | .functionDef _ type _ _ => some type
  | _ => none

@[simp] def literal? : Tree → Option Literal
  | .literal value => some value
  | _ => none

/-- The branch of a choice that has another branch behind it. -/
@[simp] def firstOfTwo? : Tree → Option Tree
  | .ifElse _ consequent (some _) => some consequent
  | _ => none

/-! ### Sound nodes -/

/-- The node by itself is as later stages expect it. What stands below its parts is left out. -/
@[mk_iff]
structure IsSound (tokens : List Token) (node : Tree) : Prop where
  body : node.ownsBody = true → ∃ statements, node.children = [.block statements]
  operand : ∀ part ∈ node.operands, part.isExpression = true
  name : ∀ name ∈ node.names, IsName name
  type : ∀ type ∈ node.types, type.IsReadFrom tokens
  /-- A function that does not say what it returns, returns nothing. -/
  returnType : ∀ type ∈ node.returnType?, type = .void ∨ type.IsReadFrom tokens
  literal : ∀ value ∈ node.literal?, value.IsSound
  /-- Nothing that follows the first branch of two could have been a second branch of something in it. -/
  closed : ∀ branch ∈ node.firstOfTwo?, branch.endsOpen = false

/-- The trees that stand in a tree: itself, and those in its parts. -/
inductive Holds : Tree → Tree → Prop where
  | self {tree : Tree} : Holds tree tree
  | inside {tree part node : Tree} (hpart : part ∈ tree.children) (hnode : Holds part node) : Holds tree node

/-- What holds of all nodes of a tree holds of the tree itself and of all nodes of its parts. -/
theorem forall_holds_iff {property : Tree → Prop} {tree : Tree} :
    (∀ node, tree.Holds node → property node) ↔
      property tree ∧ ∀ part ∈ tree.children, ∀ node, part.Holds node → property node := by
  refine ⟨fun h => ⟨h tree .self, fun part hpart node hnode => h node (.inside hpart hnode)⟩,
    fun h node hnode => ?_⟩
  cases hnode with
  | self => exact h.1
  | inside hpart hnode => exact h.2 _ hpart _ hnode

/-- All nodes of the tree are sound. -/
def IsWellFormed (tokens : List Token) (tree : Tree) : Prop := ∀ node, tree.Holds node → node.IsSound tokens

variable {tokens tokens' : List Token}

theorem isWellFormed_iff {tree : Tree} :
    tree.IsWellFormed tokens ↔ tree.IsSound tokens ∧ ∀ part ∈ tree.children, part.IsWellFormed tokens :=
  forall_holds_iff

theorem IsWellFormed.isSound {tree : Tree} (h : tree.IsWellFormed tokens) : tree.IsSound tokens :=
  h tree .self

theorem IsWellFormed.of_mem_children {tree part : Tree} (h : tree.IsWellFormed tokens)
    (hpart : part ∈ tree.children) :
    part.IsWellFormed tokens :=
  (isWellFormed_iff.1 h).2 part hpart

/-- Nothing is asked of a block itself. -/
theorem isWellFormed_block {statements : List Tree} :
    (block statements).IsWellFormed tokens ↔ ∀ statement ∈ statements, statement.IsWellFormed tokens := by
  have hsound : (block statements).IsSound tokens := by constructor <;> simp
  rw [isWellFormed_iff, and_iff_right hsound]
  rfl

end Tree

/-! ### Comparison -/

namespace Binary64

theorem magnitude_eq_toNat {x : Binary64} (hsign : x.isNegative = false) : x.magnitude = x.bits.toNat :=
  Nat.mod_eq_of_lt (by simpa [isNegative] using hsign)

/-- Numbers without a sign are the same only if they are identical: there is but one zero among them. -/
theorem sameNumber_iff {x y : Binary64} (hx : x.isNaN = false ∧ x.isNegative = false)
    (hy : y.isNaN = false ∧ y.isNegative = false) : x.sameNumber y = true ↔ x = y := by
  have hbits : x = y ↔ x.bits = y.bits := ⟨congrArg bits, fun h => by cases x; cases y; exact congrArg mk h⟩
  simp only [sameNumber, hx.1, hy.1, magnitude_eq_toNat hx.2, magnitude_eq_toNat hy.2,
    Bool.not_false, Bool.true_and, Bool.or_eq_true, Bool.and_eq_true, beq_iff_eq, hbits]
  refine ⟨?_, Or.inl⟩
  rintro (h | ⟨hzero, hzero'⟩)
  · exact h
  · exact UInt64.toNat_inj.1 (hzero.trans hzero'.symm)

end Binary64

theorem Literal.same_iff {a b : Literal} (ha : a.IsSound) (hb : b.IsSound) : a.same b = true ↔ a = b := by
  cases a with
  | float x =>
    cases b with
    | float y => simpa [Literal.same] using Binary64.sameNumber_iff ha hb
    | _ => simp [Literal.same]
  | _ => cases b <;> simp [Literal.same]

namespace Tree

variable {tokens tokens' : List Token}

mutual

/-- Well-formed trees compare as the same only if they are identical. -/
theorem same_iff (tree tree' : Tree) (h : tree.IsWellFormed tokens) (h' : tree'.IsWellFormed tokens') :
    tree.same tree' = true ↔ tree = tree' := by
  have hpart : ∀ part ∈ tree.children, part.IsWellFormed tokens := fun part => h.of_mem_children
  have hpart' : ∀ part ∈ tree'.children, part.IsWellFormed tokens' := fun part => h'.of_mem_children
  cases tree <;> cases tree' <;> try exact iff_of_false Bool.false_ne_true nofun
  all_goals simp only [children, List.forall_mem_append, List.forall_mem_cons] at hpart hpart'
  case literal.literal a b =>
    simp [same, Literal.same_iff (h.isSound.literal a rfl) (h'.isSound.literal b rfl)]
  case identifier.identifier | sizeOf.sizeOf => simp [same]
  case unary.unary part _ part' | builtin.builtin part _ part' | cast.cast part _ part' =>
    simp [same, same_iff part part' hpart.1 hpart'.1]
  case assign.assign part _ _ part' => simp [same, same_iff part part' hpart.1 hpart'.1, and_assoc]
  case binary.binary left right _ left' right' =>
    simp [same, same_iff left left' hpart.1 hpart'.1, same_iff right right' hpart.2.1 hpart'.2.1, and_assoc]
  case ternary.ternary first second third first' second' third' =>
    simp [same, same_iff first first' hpart.1 hpart'.1, same_iff second second' hpart.2.1 hpart'.2.1,
      same_iff third third' hpart.2.2.1 hpart'.2.2.1, and_assoc]
  case call.call parts _ parts' | block.block parts parts' =>
    simp [same, sameAll_iff parts parts' hpart hpart']
  case unsafeBlock.unsafeBlock body body' | functionDef.functionDef body _ _ _ body' =>
    have hbody := isWellFormed_block.1 hpart.1
    have hbody' := isWellFormed_block.1 hpart'.1
    simp [same, sameAll_iff body body' hbody hbody', and_assoc]
  case returnStmt.returnStmt value value' | varDecl.varDecl value _ _ value' =>
    simp [same, sameOption_iff value value' hpart hpart', and_assoc]
  case ifElse.ifElse condition consequent alternative condition' consequent' alternative' =>
    simp [same, same_iff condition condition' hpart.1 hpart'.1,
      same_iff consequent consequent' hpart.2.1 hpart'.2.1,
      sameOption_iff alternative alternative' hpart.2.2 hpart'.2.2, and_assoc]
  case whileLoop.whileLoop condition body condition' body' =>
    simp [same, same_iff condition condition' hpart.1 hpart'.1, same_iff body body' hpart.2.1 hpart'.2.1]
  case forLoop.forLoop start condition step body start' condition' step' body' =>
    obtain ⟨⟨⟨hstart, hcondition⟩, hstep⟩, hbody, _⟩ := hpart
    obtain ⟨⟨⟨hstart', hcondition'⟩, hstep'⟩, hbody', _⟩ := hpart'
    simp [same, sameOption_iff start start' hstart hstart',
      sameOption_iff condition condition' hcondition hcondition',
      sameOption_iff step step' hstep hstep', same_iff body body' hbody hbody', and_assoc]

theorem sameAll_iff (trees trees' : List Tree) (h : ∀ tree ∈ trees, tree.IsWellFormed tokens)
    (h' : ∀ tree ∈ trees', tree.IsWellFormed tokens') : sameAll trees trees' = true ↔ trees = trees' := by
  match trees with
  | [] => cases trees' <;> simp [sameAll]
  | tree :: rest =>
    cases trees' with
    | nil => simp [sameAll]
    | cons tree' rest' =>
      rw [List.forall_mem_cons] at h h'
      simp [sameAll, same_iff tree tree' h.1 h'.1, sameAll_iff rest rest' h.2 h'.2]

theorem sameOption_iff (part part' : Option Tree)
    (h : ∀ tree ∈ part.toList, tree.IsWellFormed tokens)
    (h' : ∀ tree ∈ part'.toList, tree.IsWellFormed tokens') :
    sameOption part part' = true ↔ part = part' := by
  match part with
  | none => cases part' <;> simp [sameOption]
  | some tree =>
    cases part' with
    | none => simp [sameOption]
    | some tree' => simp [sameOption, same_iff tree tree' (h tree (by simp)) (h' tree' (by simp))]

end

end Tree

end ObsidianSyntax
