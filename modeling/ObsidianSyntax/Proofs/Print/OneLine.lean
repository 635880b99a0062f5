import ObsidianSyntax.Proofs.Print.Decimals
import ObsidianSyntax.Proofs.Print.Spacing
import ObsidianSyntax.Tree.Printer

/-!
# Expressions on one line

An expression on one line starts with the name of its kind, and what follows is fixed by the kind:
names and literals that end where they must, operators between quotes, and parts, each with a comma
or a parenthesis behind it. So the expression is found again in front of anything that a part may be
followed by. An unsafe block is the one expression of which this form leaves something out.
-/

namespace ObsidianSyntax

/-! ### Words that end at a delimiter -/

/-- What may follow a part on one line. -/
def isDelimiter (c : Char) : Bool := c == ',' || c == ')' || c == ';'

/-- The text is what follows a part: nothing, or a delimiter and more. -/
def EndsPart (text : List Char) : Prop := ∀ c ∈ text.head?, isDelimiter c = true

theorem endsPart_nil : EndsPart [] := by simp [EndsPart]

theorem endsPart_cons {c : Char} (hc : isDelimiter c = true) (text : List Char) : EndsPart (c :: text) := by
  simpa [EndsPart] using hc

/-- A class without the delimiters has none in it. -/
theorem isDelimiter_eq_false {inClass : Char → Bool}
    (hclass : inClass ',' = false ∧ inClass ')' = false ∧ inClass ';' = false) {c : Char}
    (hc : inClass c = true) : isDelimiter c = false := by
  by_contra hdelimiter
  simp only [isDelimiter, Bool.not_eq_false, Bool.or_eq_true, beq_iff_eq] at hdelimiter
  obtain (rfl | rfl) | rfl := hdelimiter
  · exact absurd hc (by simp [hclass.1])
  · exact absurd hc (by simp [hclass.2.1])
  · exact absurd hc (by simp [hclass.2.2])

theorem IsWord.isDelimiter_eq_false {word : List Char} (hword : IsWord word) :
    ∀ c ∈ word, isDelimiter c = false := fun c hmem =>
  ObsidianSyntax.isDelimiter_eq_false (by decide) (hword.continuesWord c hmem)

/-- A word without delimiters is found again in front of what follows a part. -/
theorem part_append_inj {word word' rest rest' : List Char} (hword : ∀ c ∈ word, isDelimiter c = false)
    (hword' : ∀ c ∈ word', isDelimiter c = false) (hrest : EndsPart rest) (hrest' : EndsPart rest')
    (heq : word ++ rest = word' ++ rest') : word = word' ∧ rest = rest' :=
  @run_append_inj (!isDelimiter ·) word word' rest rest' (by simpa using hword)
    (by simpa using hword') (by simpa [EndsPart] using hrest) (by simpa [EndsPart] using hrest') heq

theorem IsWord.comma_inj {word word' rest rest' : List Char} (hword : IsWord word) (hword' : IsWord word')
    (heq : word ++ ',' :: ' ' :: rest = word' ++ ',' :: ' ' :: rest') : word = word' ∧ rest = rest' := by
  simpa using part_append_inj hword.isDelimiter_eq_false hword'.isDelimiter_eq_false
    (endsPart_cons rfl _) (endsPart_cons rfl _) heq

theorem IsWord.close_inj {word word' rest rest' : List Char} (hword : IsWord word) (hword' : IsWord word')
    (heq : word ++ ')' :: rest = word' ++ ')' :: rest') : word = word' ∧ rest = rest' := by
  simpa using part_append_inj hword.isDelimiter_eq_false hword'.isDelimiter_eq_false
    (endsPart_cons rfl _) (endsPart_cons rfl _) heq

namespace Literal

/-- The value of a literal as it is written behind the name of its kind. -/
def word : Literal → List Char
  | .int value => value.repr.toList
  | .float value => value.text.toList
  | .bool value => (if value then "true" else "false").toList
  | .char value => (quoted '\'' [value]).toList
  | .string value => (quoted '"' value.toList).toList

theorem toList_line (value : Literal) :
    value.line.toList = value.kindName.toList ++ ':' :: ' ' :: value.word := by
  cases value <;> simp [line, word]

theorem isDelimiter_int {value : Int} : ∀ c ∈ (int value).word, isDelimiter c = false := by
  intro c hmem
  obtain hdigit | rfl := mem_repr_int hmem
  · exact isDelimiter_eq_false (by decide) hdigit
  · rfl

theorem mem_word_float {value : Binary64} (hvalue : (float value).IsSound) {c : Char}
    (hmem : c ∈ (float value).word) :
    c.isAlphanum = true ∨ c = '.' ∨ c = '-' := by
  rw [word, Binary64.text_eq hvalue.1 hvalue.2] at hmem
  split at hmem
  · have hall : ['i', 'n', 'f'].all Char.isAlphanum = true := rfl
    exact .inl (List.all_eq_true.1 hall c hmem)
  · obtain hdigit | rfl | rfl | rfl := Binary64.mem_magnitudeText hmem
    · exact .inl (by simp [Char.isAlphanum, hdigit])
    · exact .inr (.inl rfl)
    · exact .inl rfl
    · exact .inr (.inr rfl)

theorem isDelimiter_float {value : Binary64} (hvalue : (float value).IsSound) :
    ∀ c ∈ (float value).word, isDelimiter c = false := by
  intro c hmem
  obtain hc | rfl | rfl := mem_word_float hvalue hmem
  · exact isDelimiter_eq_false (by decide) hc
  · rfl
  · rfl

theorem isAlpha_of_mem_bool {value : Bool} {c : Char} (hmem : c ∈ (bool value).word) : c.isAlpha = true := by
  have hall : (bool value).word.all Char.isAlpha = true := by
    cases value <;> rfl
  exact List.all_eq_true.1 hall c hmem

theorem isDelimiter_bool {value : Bool} : ∀ c ∈ (bool value).word, isDelimiter c = false := fun _ hmem =>
  isDelimiter_eq_false (by decide) (isAlpha_of_mem_bool hmem)

/-- A literal is found again in front of what follows a part. -/
theorem word_append_inj {value value' : Literal} (hvalue : value.IsSound) (hvalue' : value'.IsSound)
    (hkind : value.kindName = value'.kindName) {rest rest' : List Char} (hrest : EndsPart rest)
    (hrest' : EndsPart rest') (heq : value.word ++ rest = value'.word ++ rest') :
    value = value' ∧ rest = rest' := by
  cases value with
  | int n =>
    cases value' with
    | int n' =>
      obtain ⟨hword, rfl⟩ := part_append_inj isDelimiter_int isDelimiter_int hrest hrest' heq
      exact ⟨congrArg int (repr_int_inj hword), rfl⟩
    | _ => simp [kindName] at hkind
  | float x =>
    cases value' with
    | float y =>
      obtain ⟨hword, rfl⟩ := part_append_inj (isDelimiter_float hvalue) (isDelimiter_float hvalue')
        hrest hrest' heq
      exact ⟨congrArg float (Binary64.text_inj hvalue hvalue' hword), rfl⟩
    | _ => simp [kindName] at hkind
  | bool b =>
    cases value' with
    | bool b' =>
      obtain ⟨hword, rfl⟩ := part_append_inj isDelimiter_bool isDelimiter_bool hrest hrest' heq
      cases b <;> cases b' <;> first | exact ⟨rfl, rfl⟩ | simp [word] at hword
    | _ => simp [kindName] at hkind
  | char c =>
    cases value' with
    | char c' =>
      obtain ⟨htext, rfl⟩ := quoted_append_inj (.inr rfl) heq
      exact ⟨congrArg char (List.singleton_inj.1 htext), rfl⟩
    | _ => simp [kindName] at hkind
  | string text =>
    cases value' with
    | string text' =>
      obtain ⟨htext, rfl⟩ := quoted_append_inj (.inl rfl) heq
      exact ⟨congrArg string (String.toList_injective htext), rfl⟩
    | _ => simp [kindName] at hkind

end Literal

/-! ### Operators -/

theorem Mark.spelling_append_inj {mark mark' : Mark} {rest rest' : List Char}
    (heq : mark.spelling.toList ++ '\'' :: rest = mark'.spelling.toList ++ '\'' :: rest') :
    mark = mark' ∧ rest = rest' := by
  have hquote : ∀ mark : Mark, ∀ c ∈ mark.spelling.toList, (c != '\'') = true := fun mark c hmem => by
    simpa using (of_mem_spelling hmem).2.2.2.2.1
  obtain ⟨hspelling, hrest⟩ := append_inj_of_class (hquote mark) (hquote mark') rfl rfl heq
  have hmark : ∀ mark : Mark, Mark.ofSpelling? mark.spelling.toList = some mark := fun mark =>
    Mark.ofSpelling?_eq_some_iff.2 rfl
  exact ⟨Option.some.inj ((hmark mark).symm.trans (hspelling ▸ hmark mark')), (List.cons.inj hrest).2⟩

theorem Mark.spelling_comma_inj {mark mark' : Mark} {rest rest' : List Char}
    (heq : mark.spelling.toList ++ '\'' :: ',' :: ' ' :: rest = mark'.spelling.toList ++
      '\'' :: ',' :: ' ' :: rest') :
    mark = mark' ∧ rest = rest' := by
  simpa using spelling_append_inj heq

theorem BinaryOp.mark_injective {op op' : BinaryOp} (hmark : op.mark = op'.mark) : op = op' :=
  Option.some.inj ((ofMark?_mark op).symm.trans (hmark ▸ ofMark?_mark op'))

theorem UnaryOp.mark_injective {op op' : UnaryOp} (hbehind : op.isBehind = op'.isBehind)
    (hmark : op.mark = op'.mark) : op = op' := by
  cases op <;> cases op' <;> first | rfl | exact absurd hmark (by decide) | exact absurd hbehind (by decide)

theorem AssignOp.mark_injective {op op' : AssignOp} (hmark : op.mark = op'.mark) : op = op' := by
  cases op <;> cases op' <;> first | rfl | exact absurd hmark (by decide)

theorem Builtin.name_injective {function function' : Builtin}
    (hname : function.name = function'.name) : function = function' := by
  cases function <;> cases function' <;> first | rfl | exact absurd hname (by decide)

/-! ### Lists -/

section

variable {α : Type} {write : α → List Char} {items items' : List α} {rest rest' : List Char}

/-- Items with a comma and a blank between them. -/
def listed (write : α → List Char) (items : List α) : List Char := [',', ' '].intercalate (items.map write)

/-- Items with a comma and a blank before each. -/
def listedMore (write : α → List Char) (items : List α) : List Char :=
  items.flatMap fun item => ',' :: ' ' :: write item

theorem listed_cons (item : α) (items : List α) :
    listed write (item :: items) = write item ++ listedMore write items := by
  induction items generalizing item with
  | nil => simp [listed, listedMore]
  | cons next items ih =>
    have hnext := ih next
    simp only [listed, List.map_cons, listedMore, List.flatMap_cons] at hnext ⊢
    simp [List.intercalate_cons_cons, hnext]

/-- The items are found again, among each other, in front of what follows a part. -/
def AreFoundAgain (write : α → List Char) (items items' : List α) : Prop :=
  ∀ item ∈ items, ∀ item' ∈ items', ∀ rest rest', EndsPart rest → EndsPart rest' →
    write item ++ rest = write item' ++ rest' → item = item' ∧ rest = rest'

theorem endsPart_listedMore (items : List α) (rest : List Char) :
    EndsPart (listedMore write items ++ ')' :: rest) := by
  cases items with
  | nil => exact endsPart_cons rfl rest
  | cons item items => exact endsPart_cons rfl _

theorem listedMore_append_inj (hfound : AreFoundAgain write items items')
    (heq : listedMore write items ++ ')' :: rest = listedMore write items' ++ ')' :: rest') :
    items = items' ∧ rest = rest' := by
  induction items generalizing items' with
  | nil =>
    cases items' with
    | nil => exact ⟨rfl, (List.cons.inj heq).2⟩
    | cons item' items' => cases (List.cons.inj heq).1
  | cons item items ih =>
    cases items' with
    | nil => cases (List.cons.inj heq).1
    | cons item' items' =>
      simp only [listedMore, List.flatMap_cons, List.append_assoc, List.cons_append,
        List.cons.injEq, true_and] at heq
      obtain ⟨rfl, hrest⟩ := hfound item List.mem_cons_self item' List.mem_cons_self _ _
        (endsPart_listedMore items rest) (endsPart_listedMore items' rest') heq
      have hfound' : AreFoundAgain write items items' := fun first hfirst second hsecond =>
        hfound first (List.mem_cons_of_mem item hfirst) second (List.mem_cons_of_mem item hsecond)
      exact (ih hfound' hrest).imp_left (congrArg (item :: ·))

/-- A list of items is found again in front of the parenthesis that closes it. -/
theorem listed_append_inj
    (hopen : ∀ item, item ∈ items ∨ item ∈ items' → ∃ c tail, c ≠ ')' ∧ write item = c :: tail)
    (hfound : AreFoundAgain write items items')
    (heq : listed write items ++ ')' :: rest = listed write items' ++ ')' :: rest') :
    items = items' ∧ rest = rest' := by
  have hclose : ∀ item items (rest rest' : List Char), (∃ c tail, c ≠ ')' ∧ write item = c :: tail) →
      listed write (item :: items) ++ rest ≠ ')' :: rest' := by
    rintro item items rest rest' ⟨c, tail, hc, hitem⟩ heq
    rw [listed_cons, hitem] at heq
    exact hc (List.cons.inj heq).1
  cases items with
  | nil =>
    cases items' with
    | nil => exact ⟨rfl, (List.cons.inj heq).2⟩
    | cons item' items' =>
      exact absurd heq.symm (hclose item' items' _ _ (hopen item' (.inr List.mem_cons_self)))
  | cons item items =>
    cases items' with
    | nil => exact absurd heq (hclose item items _ _ (hopen item (.inl List.mem_cons_self)))
    | cons item' items' =>
      rw [listed_cons, listed_cons] at heq
      exact listedMore_append_inj hfound (congrArg (',' :: ' ' :: ·) heq)

theorem newline_not_mem_listed (hitems : ∀ item ∈ items, '\n' ∉ write item) : '\n' ∉ listed write items := by
  cases items with
  | nil => exact List.not_mem_nil
  | cons item items =>
    rw [List.forall_mem_cons] at hitems
    simpa [listed_cons, listedMore, hitems.1] using hitems.2

end

theorem TypeName.ext_toList {type type' : TypeName} (htext : type.text.toList = type'.text.toList) :
    type = type' := by
  cases type
  cases type'
  simpa using String.toList_injective htext

namespace Tree

/-! ### Kinds -/

/-- The names of kinds, each with the number of the form that trees of the kind have. -/
def kindNumbers : List (String × Nat) :=
  [("IntLiteral", 0), ("FloatLiteral", 0), ("BoolLiteral", 0), ("CharLiteral", 0),
    ("StringLiteral", 0), ("Identifier", 1),
   ("BinaryOp", 2), ("UnaryOp", 3), ("PostfixOp", 3), ("Assign", 4), ("Ternary", 5), ("Println", 6),
   ("Length", 6), ("TypeOf", 6),
   ("Alloc", 6), ("Dealloc", 6), ("SizeOf", 7), ("Unsafe", 8), ("Cast", 9), ("FunctionCall", 10),
   ("Block", 11), ("FunctionDef", 12),
   ("Return", 13), ("VarDecl", 14), ("If", 15), ("While", 16), ("For", 17)]

theorem lookup_kindName (tree : Tree) : kindNumbers.lookup tree.kindName = some tree.ctorIdx := by
  cases tree with
  | literal value => cases value <;> rfl
  | unary op operand =>
    rw [kindName]
    split <;> rfl
  | builtin function argument => cases function <;> rfl
  | _ => rfl

/-- Trees of one kind have one form. -/
theorem ctorIdx_eq_of_kindName {tree tree' : Tree} (hkind : tree.kindName = tree'.kindName) :
    tree.ctorIdx = tree'.ctorIdx :=
  Option.some.inj ((lookup_kindName tree).symm.trans (hkind ▸ lookup_kindName tree'))

theorem mem_kindNumbers (tree : Tree) : (tree.kindName, tree.ctorIdx) ∈ kindNumbers := by
  obtain ⟨front, back, hnumbers, -⟩ := List.lookup_eq_some_iff.1 (lookup_kindName tree)
  simp [hnumbers]

theorem isAlpha_of_mem_kindName {tree : Tree} : ∀ c ∈ tree.kindName.toList, c.isAlpha = true := by
  have hall : ∀ kind ∈ kindNumbers, kind.1.toList.all Char.isAlpha = true := by decide
  exact List.all_eq_true.1 (hall _ tree.mem_kindNumbers)

theorem exists_kindName (tree : Tree) : ∃ c word, c.isAlpha = true ∧ tree.kindName.toList = c :: word := by
  have hall : ∀ kind ∈ kindNumbers, kind.1.toList ≠ [] := by decide
  obtain ⟨c, word, hword⟩ := List.exists_cons_of_ne_nil (hall _ tree.mem_kindNumbers)
  exact ⟨c, word, isAlpha_of_mem_kindName c (hword ▸ List.mem_cons_self), hword⟩

/-- The kinds of unary operators say where they stand. -/
theorem isBehind_eq_of_kindName {op op' : UnaryOp} {operand operand' : Tree}
    (hkind : (unary op operand).kindName = (unary op' operand').kindName) : op.isBehind = op'.isBehind := by
  simp only [kindName] at hkind
  cases hop : op.isBehind <;> cases hop' : op'.isBehind <;> simp [hop, hop'] at hkind ⊢

/-! ### The form piece by piece -/

/-- The characters of a tree on one line. -/
def chars (tree : Tree) : List Char := tree.inline.toList

theorem flatMap_inlineOnto (tree : Tree) (after : List String) :
    (tree.inlineOnto after).flatMap String.toList = tree.chars ++ after.flatMap String.toList := by
  rw [inlineOnto_eq_append, List.flatMap_append, chars, inline, String.toList_join]

theorem flatMap_inlineMore (trees : List Tree) (after : List String) :
    (inlineMore trees after).flatMap String.toList =
      listedMore chars trees ++ after.flatMap String.toList := by
  induction trees with
  | nil => rfl
  | cons tree trees ih => simp [inlineMore, flatMap_inlineOnto, ih, listedMore]

theorem flatMap_inlineArguments (trees : List Tree) (after : List String) :
    (inlineArguments trees after).flatMap String.toList =
      listed chars trees ++ after.flatMap String.toList := by
  cases trees with
  | nil => rfl
  | cons tree trees => simp [inlineArguments, flatMap_inlineOnto, flatMap_inlineMore, listed_cons]

/-- What stands in the form of an expression on one line behind the name of its kind. -/
def formTail : Tree → List Char
  | .literal value => ':' :: ' ' :: value.word
  | .identifier name => ':' :: ' ' :: name.toList
  | .binary op left right =>
    '(' :: '\'' :: (op.mark.spelling.toList ++ '\'' :: ',' :: ' ' ::
      (left.chars ++ ',' :: ' ' :: (right.chars ++ [')'])))
  | .unary op operand =>
    '(' :: '\'' :: (op.mark.spelling.toList ++ '\'' :: ',' :: ' ' :: (operand.chars ++ [')']))
  | .assign op target value =>
    '(' :: '\'' :: (op.mark.spelling.toList ++ '\'' :: ',' :: ' ' ::
      (target.toList ++ ',' :: ' ' :: (value.chars ++ [')'])))
  | .ternary condition consequent alternative =>
    '(' :: (condition.chars ++ ',' :: ' ' :: (consequent.chars ++ ',' :: ' ' :: (alternative.chars ++ [')'])))
  | .builtin _ argument => '(' :: (argument.chars ++ [')'])
  | .sizeOf type => '(' :: (type.text.toList ++ [')'])
  | .unsafeBlock body => '(' :: ("Block[".toList ++ (body.length.repr.toList ++ [']', ')']))
  | .cast type operand => '(' :: (type.text.toList ++ ',' :: ' ' :: (operand.chars ++ [')']))
  | .call callee arguments => ':' :: ' ' :: (callee.toList ++ '(' :: (listed chars arguments ++ [')']))
  | _ => []

/-- An expression starts with the name of its kind. -/
theorem chars_eq {tree : Tree} (h : tree.isExpression = true) :
    tree.chars = tree.kindName.toList ++ tree.formTail := by
  rw [chars, inline]
  cases tree with
  | literal value => simp [inlineOnto, value.toList_line, kindName, formTail]
  | unary op operand =>
    cases hbehind : op.isBehind <;> simp [inlineOnto, flatMap_inlineOnto, kindName, formTail,
      UnaryOp.symbol, hbehind]
  | call callee arguments => simp [inlineOnto, flatMap_inlineArguments, kindName, formTail]
  | functionDef | returnStmt | varDecl | ifElse | whileLoop | forLoop | block => cases h
  | _ => simp [inlineOnto, flatMap_inlineOnto, kindName, formTail, BinaryOp.symbol, AssignOp.symbol]

theorem exists_formTail {tree : Tree} (h : tree.isExpression = true) :
    ∃ c tail, c.isAlpha = false ∧ tree.formTail = c :: tail := by
  cases tree with
  | functionDef | returnStmt | varDecl | ifElse | whileLoop | forLoop | block => cases h
  | _ => exact ⟨_, _, rfl, rfl⟩

/-- The name of the kind ends where it must. -/
theorem formTail_append_inj {tree tree' : Tree} (h : tree.isExpression = true)
    (h' : tree'.isExpression = true) {rest rest' : List Char}
    (heq : tree.chars ++ rest = tree'.chars ++ rest') :
    tree.kindName = tree'.kindName ∧ tree.formTail ++ rest = tree'.formTail ++ rest' := by
  obtain ⟨c, tail, hc, htail⟩ := exists_formTail h
  obtain ⟨c', tail', hc', htail'⟩ := exists_formTail h'
  rw [chars_eq h, chars_eq h', htail, htail', List.append_assoc, List.append_assoc] at heq
  obtain ⟨hkind, hrest⟩ := append_inj_of_class isAlpha_of_mem_kindName isAlpha_of_mem_kindName hc hc' heq
  rw [htail, htail']
  exact ⟨String.toList_injective hkind, hrest⟩

/-! ### Legible expressions -/

/-- An expression of which the form on one line leaves nothing out. -/
inductive IsLegible : Tree → Prop where
  | literal {value : Literal} (hvalue : value.IsSound) : IsLegible (.literal value)
  | identifier {name : String} (hname : IsWord name.toList) : IsLegible (.identifier name)
  | binary {op : BinaryOp} {left right : Tree} (hleft : IsLegible left) (hright : IsLegible right) :
      IsLegible (.binary op left right)
  | unary {op : UnaryOp} {operand : Tree} (hoperand : IsLegible operand) : IsLegible (.unary op operand)
  | assign {op : AssignOp} {target : String} {value : Tree} (htarget : IsWord target.toList)
      (hvalue : IsLegible value) :
    IsLegible (.assign op target value)
  | ternary {condition consequent alternative : Tree} (hcondition : IsLegible condition)
      (hconsequent : IsLegible consequent)
    (halternative : IsLegible alternative) : IsLegible (.ternary condition consequent alternative)
  | builtin {function : Builtin} {argument : Tree} (hargument : IsLegible argument) :
      IsLegible (.builtin function argument)
  | sizeOf {type : TypeName} (htype : IsWord type.text.toList) : IsLegible (.sizeOf type)
  | cast {type : TypeName} {operand : Tree} (htype : IsWord type.text.toList) (hoperand : IsLegible operand) :
    IsLegible (.cast type operand)
  | call {callee : String} {arguments : List Tree} (hcallee : IsWord callee.toList)
    (harguments : ∀ argument ∈ arguments, IsLegible argument) : IsLegible (.call callee arguments)

theorem IsLegible.isExpression {tree : Tree} (h : tree.IsLegible) : tree.isExpression = true := by
  cases h <;> rfl

/-- The form starts with a letter. -/
theorem IsLegible.exists_first {tree : Tree} (h : tree.IsLegible) :
    ∃ c tail, c.isAlpha = true ∧ tree.chars = c :: tail := by
  obtain ⟨c, word, hc, hword⟩ := tree.exists_kindName
  exact ⟨c, word ++ tree.formTail, hc, by rw [chars_eq h.isExpression, hword, List.cons_append]⟩

/-- The tree is found again, among legible ones, in front of what follows a part. -/
def IsFoundAgain (tree : Tree) : Prop :=
  ∀ tree' : Tree, tree'.IsLegible → ∀ rest rest', EndsPart rest → EndsPart rest' →
    tree.chars ++ rest = tree'.chars ++ rest' → tree = tree' ∧ rest = rest'

/-- Only trees of the same form have to be told apart, behind the name of their kind. -/
theorem isFoundAgain_of_formTail {tree : Tree} (h : tree.isExpression = true)
    (hfound : ∀ tree' : Tree, tree'.IsLegible → tree.kindName = tree'.kindName →
      tree.ctorIdx = tree'.ctorIdx → ∀ rest rest', EndsPart rest → EndsPart rest' →
      tree.formTail ++ rest = tree'.formTail ++ rest' → tree = tree' ∧ rest = rest') :
    tree.IsFoundAgain := by
  intro tree' h' rest rest' hrest hrest' heq
  obtain ⟨hkind, htail⟩ := formTail_append_inj h h'.isExpression heq
  exact hfound tree' h' hkind (ctorIdx_eq_of_kindName hkind) rest rest' hrest hrest' htail

namespace IsFoundAgain

section

variable {tree tree' : Tree} {rest rest' : List Char}

theorem comma_inj (h : tree.IsFoundAgain) (h' : tree'.IsLegible)
    (heq : tree.chars ++ ',' :: ' ' :: rest = tree'.chars ++ ',' :: ' ' :: rest') :
    tree = tree' ∧ rest = rest' := by
  simpa using h tree' h' _ _ (endsPart_cons rfl _) (endsPart_cons rfl _) heq

theorem close_inj (h : tree.IsFoundAgain) (h' : tree'.IsLegible)
    (heq : tree.chars ++ ')' :: rest = tree'.chars ++ ')' :: rest') : tree = tree' ∧ rest = rest' := by
  simpa using h tree' h' _ _ (endsPart_cons rfl _) (endsPart_cons rfl _) heq

end

theorem literal {value : Literal} (hvalue : value.IsSound) : (Tree.literal value).IsFoundAgain := by
  refine isFoundAgain_of_formTail rfl fun tree' h' hkind hform rest rest' hrest hrest' htail => ?_
  cases h' with
  | literal hvalue' =>
    simp only [formTail, List.cons_append, List.cons.injEq, true_and] at htail
    exact (Literal.word_append_inj hvalue hvalue' hkind hrest hrest' htail).imp_left (congrArg Tree.literal)
  | _ => cases hform

theorem identifier {name : String} (hname : IsWord name.toList) : (Tree.identifier name).IsFoundAgain := by
  refine isFoundAgain_of_formTail rfl fun tree' h' _ hform rest rest' hrest hrest' htail => ?_
  cases h' with
  | identifier hname' =>
    simp only [formTail, List.cons_append, List.cons.injEq, true_and] at htail
    obtain ⟨htext, rfl⟩ := part_append_inj hname.isDelimiter_eq_false hname'.isDelimiter_eq_false
      hrest hrest' htail
    exact ⟨congrArg Tree.identifier (String.toList_injective htext), rfl⟩
  | _ => cases hform

theorem binary {op : BinaryOp} {left right : Tree} (hleft : left.IsFoundAgain) (hright : right.IsFoundAgain) :
    (Tree.binary op left right).IsFoundAgain := by
  refine isFoundAgain_of_formTail rfl fun tree' h' _ hform rest rest' _ _ htail => ?_
  cases h' with
  | binary hleft' hright' =>
    simp only [formTail, List.cons_append, List.append_assoc, List.nil_append, List.cons.injEq,
      true_and] at htail
    obtain ⟨hmark, hparts⟩ := Mark.spelling_comma_inj htail
    obtain ⟨rfl, hlast⟩ := hleft.comma_inj hleft' hparts
    obtain ⟨rfl, rfl⟩ := hright.close_inj hright' hlast
    exact ⟨BinaryOp.mark_injective hmark ▸ rfl, rfl⟩
  | _ => cases hform

theorem unary {op : UnaryOp} {operand : Tree} (hoperand : operand.IsFoundAgain) :
    (Tree.unary op operand).IsFoundAgain := by
  refine isFoundAgain_of_formTail rfl fun tree' h' hkind hform rest rest' _ _ htail => ?_
  cases h' with
  | unary hoperand' =>
    simp only [formTail, List.cons_append, List.append_assoc, List.nil_append, List.cons.injEq,
      true_and] at htail
    obtain ⟨hmark, hpart⟩ := Mark.spelling_comma_inj htail
    obtain ⟨rfl, rfl⟩ := hoperand.close_inj hoperand' hpart
    exact ⟨UnaryOp.mark_injective (isBehind_eq_of_kindName hkind) hmark ▸ rfl, rfl⟩
  | _ => cases hform

theorem assign {op : AssignOp} {target : String} {value : Tree} (htarget : IsWord target.toList)
    (hvalue : value.IsFoundAgain) :
    (Tree.assign op target value).IsFoundAgain := by
  refine isFoundAgain_of_formTail rfl fun tree' h' _ hform rest rest' _ _ htail => ?_
  cases h' with
  | assign htarget' hvalue' =>
    simp only [formTail, List.cons_append, List.append_assoc, List.nil_append, List.cons.injEq,
      true_and] at htail
    obtain ⟨hmark, hparts⟩ := Mark.spelling_comma_inj htail
    obtain ⟨htext, hpart⟩ := htarget.comma_inj htarget' hparts
    obtain ⟨rfl, rfl⟩ := hvalue.close_inj hvalue' hpart
    exact ⟨AssignOp.mark_injective hmark ▸ String.toList_injective htext ▸ rfl, rfl⟩
  | _ => cases hform

theorem ternary {condition consequent alternative : Tree} (hcondition : condition.IsFoundAgain)
    (hconsequent : consequent.IsFoundAgain) (halternative : alternative.IsFoundAgain) :
    (Tree.ternary condition consequent alternative).IsFoundAgain := by
  refine isFoundAgain_of_formTail rfl fun tree' h' _ hform rest rest' _ _ htail => ?_
  cases h' with
  | ternary hcondition' hconsequent' halternative' =>
    simp only [formTail, List.cons_append, List.append_assoc, List.nil_append, List.cons.injEq,
      true_and] at htail
    obtain ⟨rfl, hparts⟩ := hcondition.comma_inj hcondition' htail
    obtain ⟨rfl, hlast⟩ := hconsequent.comma_inj hconsequent' hparts
    obtain ⟨rfl, rfl⟩ := halternative.close_inj halternative' hlast
    exact ⟨rfl, rfl⟩
  | _ => cases hform

theorem builtin {function : Builtin} {argument : Tree} (hargument : argument.IsFoundAgain) :
    (Tree.builtin function argument).IsFoundAgain := by
  refine isFoundAgain_of_formTail rfl fun tree' h' hkind hform rest rest' _ _ htail => ?_
  cases h' with
  | builtin hargument' =>
    obtain rfl := Builtin.name_injective hkind
    simp only [formTail, List.cons_append, List.append_assoc, List.nil_append, List.cons.injEq,
      true_and] at htail
    obtain ⟨rfl, rfl⟩ := hargument.close_inj hargument' htail
    exact ⟨rfl, rfl⟩
  | _ => cases hform

theorem sizeOf {type : TypeName} (htype : IsWord type.text.toList) : (Tree.sizeOf type).IsFoundAgain := by
  refine isFoundAgain_of_formTail rfl fun tree' h' _ hform rest rest' _ _ htail => ?_
  cases h' with
  | sizeOf htype' =>
    simp only [formTail, List.cons_append, List.append_assoc, List.nil_append, List.cons.injEq,
      true_and] at htail
    obtain ⟨htext, rfl⟩ := htype.close_inj htype' htail
    exact ⟨congrArg Tree.sizeOf (TypeName.ext_toList htext), rfl⟩
  | _ => cases hform

theorem cast {type : TypeName} {operand : Tree} (htype : IsWord type.text.toList)
    (hoperand : operand.IsFoundAgain) :
    (Tree.cast type operand).IsFoundAgain := by
  refine isFoundAgain_of_formTail rfl fun tree' h' _ hform rest rest' _ _ htail => ?_
  cases h' with
  | cast htype' hoperand' =>
    simp only [formTail, List.cons_append, List.append_assoc, List.nil_append, List.cons.injEq,
      true_and] at htail
    obtain ⟨htext, hpart⟩ := htype.comma_inj htype' htail
    obtain ⟨rfl, rfl⟩ := hoperand.close_inj hoperand' hpart
    exact ⟨TypeName.ext_toList htext ▸ rfl, rfl⟩
  | _ => cases hform

theorem call {callee : String} {arguments : List Tree} (hcallee : IsWord callee.toList)
    (hlegible : ∀ argument ∈ arguments, argument.IsLegible)
    (harguments : ∀ argument ∈ arguments, argument.IsFoundAgain) :
    (Tree.call callee arguments).IsFoundAgain := by
  refine isFoundAgain_of_formTail rfl fun tree' h' _ hform rest rest' _ _ htail => ?_
  cases h' with
  | @call callee' arguments' hcallee' hlegible' =>
    simp only [formTail, List.cons_append, List.append_assoc, List.nil_append, List.cons.injEq,
      true_and] at htail
    obtain ⟨htext, hparts⟩ := append_inj_of_class hcallee.continuesWord hcallee'.continuesWord rfl rfl htail
    have hopen : ∀ argument, argument ∈ arguments ∨ argument ∈ arguments' →
        ∃ c tail, c ≠ ')' ∧ argument.chars = c :: tail := by
      intro argument hmem
      obtain ⟨c, tail, hc, hchars⟩ := (hmem.elim (hlegible argument) (hlegible' argument)).exists_first
      refine ⟨c, tail, ?_, hchars⟩
      rintro rfl
      exact absurd hc (by decide)
    have hfound : AreFoundAgain chars arguments arguments' := fun argument hmem argument' hmem' =>
      harguments argument hmem argument' (hlegible' argument' hmem')
    obtain ⟨rfl, rfl⟩ := listed_append_inj hopen hfound (List.cons.inj hparts).2
    exact ⟨String.toList_injective htext ▸ rfl, rfl⟩
  | _ => cases hform

end IsFoundAgain

/-- Legible trees are found again. -/
theorem IsLegible.isFoundAgain {tree : Tree} (h : tree.IsLegible) : tree.IsFoundAgain := by
  induction h with
  | literal hvalue => exact .literal hvalue
  | identifier hname => exact .identifier hname
  | binary _ _ ihleft ihright => exact .binary ihleft ihright
  | unary _ ih => exact .unary ih
  | assign htarget _ ih => exact .assign htarget ih
  | ternary _ _ _ ihcondition ihconsequent ihalternative =>
    exact .ternary ihcondition ihconsequent ihalternative
  | builtin _ ih => exact .builtin ih
  | sizeOf htype => exact .sizeOf htype
  | cast htype _ ih => exact .cast htype ih
  | call hcallee harguments ih => exact .call hcallee harguments ih

/-- A legible expression by itself. -/
theorem IsLegible.chars_inj {tree tree' : Tree} (h : tree.IsLegible) (h' : tree'.IsLegible)
    (heq : tree.chars = tree'.chars) :
    tree = tree' :=
  (h.isFoundAgain tree' h' [] [] endsPart_nil endsPart_nil (congrArg (· ++ []) heq)).1

end Tree

/-! ### Line ends and blanks -/

/-- No character of the text is blank, and there is one. -/
def IsSolid (text : List Char) : Prop := text ≠ [] ∧ ∀ c ∈ text, isBlank c = false

/-- The text is on one line, and does not end with a blank. -/
structure FillsLine (text : List Char) : Prop where
  newline_not_mem : '\n' ∉ text
  last : ∃ c, text.getLast? = some c ∧ isBlank c = false

theorem IsSolid.fillsLine {text : List Char} (h : IsSolid text) : FillsLine text :=
  ⟨fun hmem => absurd (h.2 _ hmem) (by decide), text.getLast h.1, List.getLast?_eq_some_getLast h.1,
    h.2 _ (List.getLast_mem h.1)⟩

theorem IsWord.isSolid {word : List Char} (hword : IsWord word) : IsSolid word := by
  obtain ⟨first, rest, rfl, hfirst, hrest⟩ := hword
  have hsolid : ∀ c, c.isAlphanum = true ∨ c = '_' → isBlank c = false := by
    rintro c (hc | rfl)
    · exact not_isBlank_of_isAlphanum hc
    · rfl
  refine ⟨List.cons_ne_nil first rest, List.forall_mem_cons.2 ⟨hsolid first ?_, fun c hmem =>
    hsolid c (hrest c hmem)⟩⟩
  exact hfirst.imp_left fun halpha => by simp [Char.isAlphanum, halpha]

theorem IsWord.newline_not_mem {word : List Char} (hword : IsWord word) : '\n' ∉ word :=
  hword.isSolid.fillsLine.newline_not_mem

theorem Mark.newline_not_mem_spelling (mark : Mark) : '\n' ∉ mark.spelling.toList := fun hmem =>
  absurd (of_mem_spelling hmem).2.2.2.2.2.1 (by decide)

theorem fillsLine_quoted {quote : Char} (hquote : quote = '"' ∨ quote = '\'') (text : List Char) :
    FillsLine (quoted quote text).toList := by
  have hblank : isBlank quote = false := by
    obtain rfl | rfl := hquote <;> rfl
  exact ⟨newline_not_mem_quoted hquote text,
    quote, by rw [quoted, String.toList_ofList, List.getLast?_concat], hblank⟩

theorem Literal.fillsLine_word {value : Literal} (hvalue : value.IsSound) : FillsLine value.word := by
  have hdigit : ∀ {c : Char}, c.isDigit = true → isBlank c = false := fun hc =>
    not_isBlank_of_isAlphanum (by simp [Char.isAlphanum, hc])
  cases value with
  | int n =>
    refine IsSolid.fillsLine ⟨?_, fun c hmem => ?_⟩
    · cases n <;> simp [word, Int.repr]
    · obtain hc | rfl := mem_repr_int hmem
      · exact hdigit hc
      · rfl
  | float x =>
    refine IsSolid.fillsLine ⟨?_, fun c hmem => ?_⟩
    · rw [word, Binary64.text_eq hvalue.1 hvalue.2]
      split
      · exact List.cons_ne_nil _ _
      · exact x.magnitudeText_ne_nil
    · obtain hc | rfl | rfl := mem_word_float hvalue hmem
      · exact not_isBlank_of_isAlphanum hc
      · rfl
      · rfl
  | bool b =>
    refine IsSolid.fillsLine ⟨?_, fun c hmem => ?_⟩
    · cases b <;> simp [word]
    · exact not_isBlank_of_isAlphanum (by simp [Char.isAlphanum, isAlpha_of_mem_bool hmem])
  | char c => exact fillsLine_quoted (.inr rfl) [c]
  | string text => exact fillsLine_quoted (.inl rfl) text.toList

/-- No line ends inside a literal, not even inside one that no source holds. -/
theorem Literal.newline_not_mem_word (value : Literal) : '\n' ∉ value.word := by
  cases value with
  | int n => exact fun hmem => absurd (mem_repr_int hmem) (by decide)
  | float x =>
    have hmagnitude : '\n' ∉ x.magnitudeText := fun hmem =>
      absurd (Binary64.mem_magnitudeText hmem) (by decide)
    rw [word, Binary64.text]
    split
    · simp
    · cases x.isInfinite <;> cases x.isNegative <;> simp [hmagnitude]
  | bool b => exact fun hmem => absurd (isAlpha_of_mem_bool hmem) (by decide)
  | char c => exact newline_not_mem_quoted (.inr rfl) [c]
  | string text => exact newline_not_mem_quoted (.inl rfl) text.toList

namespace Tree

theorem newline_not_mem_kindName (tree : Tree) : '\n' ∉ tree.kindName.toList := fun hmem =>
  absurd (isAlpha_of_mem_kindName _ hmem) (by decide)

/-- There is no blank at the end of a legible expression. -/
theorem IsLegible.exists_last {tree : Tree} (h : tree.IsLegible) :
    ∃ c, tree.chars.getLast? = some c ∧ isBlank c = false := by
  have hform : ∃ c, tree.formTail.getLast? = some c ∧ isBlank c = false := by
    cases h with
    | literal hvalue =>
      obtain ⟨c, hlast, hc⟩ := (Literal.fillsLine_word hvalue).last
      exact ⟨c, by simp [formTail, List.getLast?_cons, hlast], hc⟩
    | identifier hname =>
      obtain ⟨c, hlast, hc⟩ := hname.isSolid.fillsLine.last
      exact ⟨c, by simp [formTail, List.getLast?_cons, hlast], hc⟩
    | _ => exact ⟨')', by simp [formTail, List.getLast?_cons], rfl⟩
  obtain ⟨c, hlast, hc⟩ := hform
  exact ⟨c, by rw [chars_eq h.isExpression, List.getLast?_append, hlast, Option.some_or], hc⟩

/-! ### Safe trees -/

/-- No unsafe block stands in the tree. -/
def IsSafe (tree : Tree) : Prop := ∀ body, ¬ tree.Holds (.unsafeBlock body)

theorem IsSafe.of_mem_children {tree part : Tree} (h : tree.IsSafe) (hpart : part ∈ tree.children) :
    part.IsSafe := fun body hholds =>
  h body (.inside hpart hholds)

theorem isSafe_iff {tree : Tree} :
    tree.IsSafe ↔ (∀ body, tree ≠ .unsafeBlock body) ∧ ∀ part ∈ tree.children, part.IsSafe := by
  refine ⟨fun h => ⟨?_, fun part => h.of_mem_children⟩, fun ⟨hnode, hparts⟩ body hholds => ?_⟩
  · rintro body rfl
    exact h body .self
  · cases hholds with
    | self => exact hnode body rfl
    | inside hpart hpartHolds => exact hparts _ hpart body hpartHolds

end Tree

variable {tokens : List Token}

theorem TypeName.IsReadFrom.isWord {type : TypeName} (h : type.IsReadFrom tokens) :
    IsWord type.text.toList := by
  cases hprimitive : type.isPrimitive with
  | false => exact (h.isName hprimitive).isWord
  | true =>
    obtain ⟨primitive, hmem, hspelling⟩ := List.any_eq_true.1 hprimitive
    have hall : ∀ primitive ∈ Primitive.all, ObsidianSyntax.isWord primitive.spelling.toList =
        true := by decide
    rw [← beq_iff_eq.1 hspelling]
    exact isWord_spec (hall primitive hmem)

namespace Tree

theorem mem_children_of_mem_operands {tree part : Tree} (hpart : part ∈ tree.operands) :
    part ∈ tree.children := by
  cases tree with
  | forLoop start condition step body =>
    rw [children]
    exact List.mem_append_left _ hpart
  | _ => simp_all [children]

mutual

/-- A well-formed expression without unsafe blocks is legible. -/
theorem isLegible_of_isSafe (tree : Tree) (h : tree.IsWellFormed tokens)
    (hexpr : tree.isExpression = true) (hsafe : tree.IsSafe) :
    tree.IsLegible := by
  have hsound := h.isSound
  have hwell : ∀ part ∈ tree.operands, part.IsWellFormed tokens := fun part hpart =>
    h.of_mem_children (mem_children_of_mem_operands hpart)
  have hsafe' : ∀ part ∈ tree.operands, part.IsSafe := fun part hpart =>
    hsafe.of_mem_children (mem_children_of_mem_operands hpart)
  have hoperand := hsound.operand
  cases tree with
  | literal value => exact .literal (hsound.literal value rfl)
  | identifier name => exact .identifier (hsound.name name (by simp)).isWord
  | binary op left right =>
    simp only [operands, List.forall_mem_cons] at hwell hsafe' hoperand
    exact .binary (left.isLegible_of_isSafe hwell.1 hoperand.1 hsafe'.1)
      (right.isLegible_of_isSafe hwell.2.1 hoperand.2.1 hsafe'.2.1)
  | unary op operand =>
    simp only [operands, List.forall_mem_singleton] at hwell hsafe' hoperand
    exact .unary (operand.isLegible_of_isSafe hwell hoperand hsafe')
  | assign op target value =>
    simp only [operands, List.forall_mem_singleton] at hwell hsafe' hoperand
    exact .assign (hsound.name target (by simp)).isWord (value.isLegible_of_isSafe hwell hoperand hsafe')
  | ternary condition consequent alternative =>
    simp only [operands, List.forall_mem_cons] at hwell hsafe' hoperand
    exact .ternary (condition.isLegible_of_isSafe hwell.1 hoperand.1 hsafe'.1)
      (consequent.isLegible_of_isSafe hwell.2.1 hoperand.2.1 hsafe'.2.1)
      (alternative.isLegible_of_isSafe hwell.2.2.1 hoperand.2.2.1 hsafe'.2.2.1)
  | builtin function argument =>
    simp only [operands, List.forall_mem_singleton] at hwell hsafe' hoperand
    exact .builtin (argument.isLegible_of_isSafe hwell hoperand hsafe')
  | sizeOf type => exact .sizeOf (hsound.type type (by simp)).isWord
  | cast type operand =>
    simp only [operands, List.forall_mem_singleton] at hwell hsafe' hoperand
    exact .cast (hsound.type type (by simp)).isWord (operand.isLegible_of_isSafe hwell hoperand hsafe')
  | call callee arguments =>
    exact .call (hsound.name callee (by simp)).isWord (areLegible_of_isSafe arguments hwell hoperand hsafe')
  | unsafeBlock body => exact absurd .self (hsafe body)
  | _ => cases hexpr

theorem areLegible_of_isSafe (trees : List Tree) (h : ∀ tree ∈ trees, tree.IsWellFormed tokens)
    (hexpr : ∀ tree ∈ trees, tree.isExpression = true) (hsafe : ∀ tree ∈ trees, tree.IsSafe) :
    ∀ tree ∈ trees, tree.IsLegible := by
  cases trees with
  | nil => exact nofun
  | cons tree trees =>
    rw [List.forall_mem_cons] at h hexpr hsafe ⊢
    exact ⟨tree.isLegible_of_isSafe h.1 hexpr.1 hsafe.1, areLegible_of_isSafe trees h.2 hexpr.2 hsafe.2⟩

end

end Tree

end ObsidianSyntax
