import ObsidianSyntax.Proofs.Print.RoundTrip
import ObsidianSyntax.Proofs.Token.Stream

/-!
# How high parsed trees are

The height of a tree is the number of nodes on the longest way down, which is how deep a recursion
over the tree goes. Every level of nesting adds at most two nodes to a way down. But what an
operator continues is read at the operator's own level: the left operand of a binary operator, the
operand before an operator behind it and the condition of a choice. So a limit on nesting bounds the
ways down only if the steps into these operands are left out (`parsed_height_le`), and no number
bounds the height itself (`exists_parsed_height_gt`): sums of any length are accepted, and each
further summand adds a node.
-/

namespace ObsidianSyntax

open Grammar

namespace Tree

mutual

/-- The greatest weight of a way down from the root. A node on it weighs `node`, but `left` if the
way goes on to what the node continues. The block of a body is a node of its own. -/
def weight (node left : Nat) : Tree → Nat
  | .literal _ | .identifier _ | .sizeOf _ => node
  | .binary _ first second => max (left + first.weight node left) (node + second.weight node left)
  | .unary op operand => (if op.isBehind then left else node) + operand.weight node left
  | .assign _ _ value => node + value.weight node left
  | .ternary condition consequent alternative =>
    max (left + condition.weight node left)
      (node + max (consequent.weight node left) (alternative.weight node left))
  | .builtin _ argument => node + argument.weight node left
  | .unsafeBlock body | .functionDef _ _ _ body => node + (node + weightAll node left body)
  | .cast _ operand => node + operand.weight node left
  | .call _ arguments => node + weightAll node left arguments
  | .block statements => node + weightAll node left statements
  | .returnStmt value | .varDecl _ _ value => node + weightOption node left value
  | .ifElse condition consequent alternative =>
    node + max (condition.weight node left)
      (max (consequent.weight node left) (weightOption node left alternative))
  | .whileLoop condition body => node + max (condition.weight node left) (body.weight node left)
  | .forLoop start condition step body =>
    node + max (weightOption node left start)
      (max (weightOption node left condition) (max (weightOption node left step) (body.weight node left)))

def weightAll (node left : Nat) : List Tree → Nat
  | [] => 0
  | tree :: rest => max (tree.weight node left) (weightAll node left rest)

def weightOption (node left : Nat) : Option Tree → Nat
  | none => 0
  | some tree => tree.weight node left

end

/-- The number of nodes on the longest way down. -/
def height (tree : Tree) : Nat := tree.weight 1 1

/-- The number of nodes on a way down, without those from which it goes on to what they continue. -/
def levels (tree : Tree) : Nat := tree.weight 1 0

/-- The number of nodes on a way down from which it goes on to what they continue. -/
def continued (tree : Tree) : Nat := tree.weight 0 1

section

variable {node left : Nat}

theorem weightAll_append (trees trees' : List Tree) :
    weightAll node left (trees ++ trees') = max (weightAll node left trees) (weightAll node left trees') := by
  induction trees with
  | nil => simp [weightAll]
  | cons tree rest ih => simp [weightAll, ih, Nat.max_assoc]

theorem weightAll_toList (tree : Option Tree) :
    weightAll node left tree.toList = weightOption node left tree := by
  cases tree <;> simp [weightAll, weightOption]

theorem weightAll_eq (trees : List Tree) :
    weightAll node left trees = (trees.map (weight node left)).foldr max 0 := by
  induction trees with
  | nil => rfl
  | cons tree rest ih => simp [weightAll, ih]

end

/-- A tree is one node higher than the highest of its parts. -/
theorem height_eq (tree : Tree) : tree.height = 1 + (tree.children.map height).foldr max 0 := by
  have hparts : (tree.children.map height).foldr max 0 = weightAll 1 1 tree.children := (weightAll_eq _).symm
  rw [hparts, height]
  cases tree with
  | binary | ternary => simp [weight, children, weightAll]
  | forLoop => simp [weight, children, weightAll_append, weightAll_toList, weightAll]
  | _ => simp [weight, children, weightAll_toList, weightAll]

mutual

/-- The weight of a way in two parts is the weight in the one and in the other. -/
theorem weight_add_le (node node' left left' : Nat) (tree : Tree) :
    tree.weight (node + node') (left + left') ≤ tree.weight node left + tree.weight node' left' := by
  cases tree with
  | literal | identifier | sizeOf => simp [weight]
  | binary op first second =>
    have hfirst := weight_add_le node node' left left' first
    have hsecond := weight_add_le node node' left left' second
    simp only [weight]
    omega
  | unary op operand =>
    have hoperand := weight_add_le node node' left left' operand
    simp only [weight]
    split <;> omega
  | assign _ _ part | builtin _ part | cast _ part =>
    have hpart := weight_add_le node node' left left' part
    simp only [weight]
    omega
  | ternary condition consequent alternative =>
    have hcondition := weight_add_le node node' left left' condition
    have hconsequent := weight_add_le node node' left left' consequent
    have halternative := weight_add_le node node' left left' alternative
    simp only [weight]
    omega
  | unsafeBlock body | functionDef _ _ _ body | block body | call _ body =>
    have hbody := weightAll_add_le node node' left left' body
    simp only [weight]
    omega
  | returnStmt value | varDecl _ _ value =>
    have hvalue := weightOption_add_le node node' left left' value
    simp only [weight]
    omega
  | ifElse condition consequent alternative =>
    have hcondition := weight_add_le node node' left left' condition
    have hconsequent := weight_add_le node node' left left' consequent
    have halternative := weightOption_add_le node node' left left' alternative
    simp only [weight]
    omega
  | whileLoop condition body =>
    have hcondition := weight_add_le node node' left left' condition
    have hbody := weight_add_le node node' left left' body
    simp only [weight]
    omega
  | forLoop start condition step body =>
    have hstart := weightOption_add_le node node' left left' start
    have hcondition := weightOption_add_le node node' left left' condition
    have hstep := weightOption_add_le node node' left left' step
    have hbody := weight_add_le node node' left left' body
    simp only [weight]
    omega

theorem weightAll_add_le (node node' left left' : Nat) (trees : List Tree) :
    weightAll (node + node') (left + left') trees ≤
      weightAll node left trees + weightAll node' left' trees := by
  cases trees with
  | nil => simp [weightAll]
  | cons tree rest =>
    have htree := weight_add_le node node' left left' tree
    have hrest := weightAll_add_le node node' left left' rest
    simp only [weightAll]
    omega

theorem weightOption_add_le (node node' left left' : Nat) (tree : Option Tree) :
    weightOption (node + node') (left + left') tree ≤
      weightOption node left tree + weightOption node' left' tree := by
  cases tree with
  | none => simp [weightOption]
  | some tree => exact weight_add_le node node' left left' tree

end

/-- A way down goes through levels and through what is continued. -/
theorem height_le (tree : Tree) : tree.height ≤ tree.levels + tree.continued := weight_add_le 1 0 0 1 tree

@[simp] theorem levels_literal (value : Literal) : (Tree.literal value).levels = 1 := by simp [levels, weight]

@[simp] theorem levels_identifier (name : String) : (Tree.identifier name).levels = 1 :=
  by simp [levels, weight]

@[simp] theorem levels_binary (op : BinaryOp) (left right : Tree) :
    (Tree.binary op left right).levels = max left.levels (1 + right.levels) := by simp [levels, weight]

theorem levels_before {op : UnaryOp} (hop : op.isBehind = false) (operand : Tree) :
    (Tree.unary op operand).levels = 1 + operand.levels := by simp [levels, weight, hop]

theorem levels_behind {op : UnaryOp} (hop : op.isBehind = true) (operand : Tree) :
    (Tree.unary op operand).levels = operand.levels := by simp [levels, weight, hop]

theorem weightAll_le_iff {node left bound : Nat} {trees : List Tree} :
    weightAll node left trees ≤ bound ↔ ∀ tree ∈ trees, tree.weight node left ≤ bound := by
  induction trees with
  | nil => simp [weightAll]
  | cons tree rest ih => simp [weightAll, ih]

end Tree

/-! ### Levels of derivations -/

namespace Grammar

open ObsidianSyntax.Tree (levels weight weightAll weightOption weightAll_le_iff)

mutual

theorem Primary.levels_le {n : Nat} {ts : List Terminal} {tree : Tree} :
    Primary n ts tree → tree.levels ≤ 2 * n
  | .literal _ | .name | .sizeOf _ => by
    simp only [levels, weight]
    omega
  | .group hexpr => Nat.le_trans hexpr.levels_le (by omega)
  | .builtin hexpr | .cast _ hexpr => by
    have hpart := hexpr.levels_le
    simp only [levels, weight] at hpart ⊢
    omega
  | .unsafeBlock hbody => by
    have hbody := weightAll_le_iff.2 hbody.levels_le
    simp only [levels, weight]
    omega

/-- A level of nesting adds two nodes at most: what an operator continues is at the level of the
operator, and the step into it does not count. -/
theorem Expr.levels_le {n : Nat} {p : Precedence} {ts : List Terminal} {tree : Tree} :
    Expr n p ts tree → tree.levels ≤ 2 * n
  | .primary hprimary => hprimary.levels_le
  | .before _ hop hoperand | .behind hop hoperand => by
    have hoperand := hoperand.levels_le
    simp only [levels, weight, hop] at hoperand ⊢
    simp
    omega
  | .call _ harguments => by
    have harguments := weightAll_le_iff.2 harguments.levels_le
    simp only [levels, weight]
    omega
  | .binary _ _ hleft hright | .power _ hleft hright => by
    have hleft := hleft.levels_le
    have hright := hright.levels_le
    simp only [levels, weight] at hleft hright ⊢
    omega
  | .assign _ _ hvalue => by
    have hvalue := hvalue.levels_le
    simp only [levels, weight] at hvalue ⊢
    omega
  | .ternary _ hcondition hconsequent halternative => by
    have hcondition := hcondition.levels_le
    have hconsequent := hconsequent.levels_le
    have halternative := halternative.levels_le
    simp only [levels, weight] at hcondition hconsequent halternative ⊢
    omega

theorem Args.levels_le {n : Nat} {ts : List Terminal} {arguments : List Tree} :
    Args n ts arguments → ∀ tree ∈ arguments, tree.levels ≤ 2 * n
  | .none => nofun
  | .some harguments => harguments.levels_le

theorem Exprs.levels_le {n : Nat} {ts : List Terminal} {arguments : List Tree} :
    Exprs n ts arguments → ∀ tree ∈ arguments, tree.levels ≤ 2 * n
  | .one hexpr => List.forall_mem_singleton.2 hexpr.levels_le
  | .cons hexpr hrest => List.forall_mem_cons.2 ⟨hexpr.levels_le, hrest.levels_le⟩

theorem Clause.levels_le {n : Nat} {ts : List Terminal} {value : Option Tree} :
    Clause n ts value → weightOption 1 0 value ≤ 2 * n
  | .none => Nat.zero_le _
  | .some hexpr => hexpr.levels_le

theorem Stmt.levels_le {n : Nat} {isOpen : Bool} {ts : List Terminal} {tree : Tree} :
    Stmt n isOpen ts tree → tree.levels ≤ 2 * n
  | .block hbody | .functionDef _ _ hbody => by
    have hbody := weightAll_le_iff.2 hbody.levels_le
    simp only [levels, weight]
    omega
  | .declaration _ => by
    simp only [levels, weight, weightOption]
    omega
  | .initialized _ hvalue => by
    have hvalue := hvalue.levels_le
    simp only [levels, weight, weightOption] at hvalue ⊢
    omega
  | .ifThen hcondition hconsequent => by
    have hcondition := hcondition.levels_le
    have hconsequent := hconsequent.levels_le
    simp only [levels, weight, weightOption] at hcondition hconsequent ⊢
    omega
  | .ifElse hcondition hconsequent halternative => by
    have hcondition := hcondition.levels_le
    have hconsequent := hconsequent.levels_le
    have halternative := halternative.levels_le
    simp only [levels, weight, weightOption] at hcondition hconsequent halternative ⊢
    omega
  | .whileLoop hcondition hbody => by
    have hcondition := hcondition.levels_le
    have hbody := hbody.levels_le
    simp only [levels, weight] at hcondition hbody ⊢
    omega
  | .forLoop hstart hcondition hstep hbody => by
    have hstart := hstart.levels_le
    have hcondition := hcondition.levels_le
    have hstep := hstep.levels_le
    have hbody := hbody.levels_le
    simp only [levels, weight] at hbody ⊢
    omega
  | .returnStmt hvalue => by
    have hvalue := hvalue.levels_le
    simp only [levels, weight]
    omega
  | .println hexpr => by
    have hexpr := hexpr.levels_le
    simp only [levels, weight] at hexpr ⊢
    omega
  | .expression _ hexpr => Nat.le_trans hexpr.levels_le (by omega)

theorem Stmts.levels_le {n : Nat} {ts : List Terminal} {body : List Tree} :
    Stmts n ts body → ∀ tree ∈ body, tree.levels ≤ 2 * n
  | .nil => nofun
  | .cons hstmt hrest => List.forall_mem_cons.2 ⟨hstmt.levels_le, hrest.levels_le⟩

end

end Grammar

/-- A program that is accepted has two levels for each that may nest, and its own. -/
theorem levels_le_of_parseTokens {tokens : List Token} {tree : Tree} (hok : parseTokens tokens = .ok tree) :
    tree.levels ≤ 2 * maxDepth + 1 := by
  obtain ⟨body, hstmts, rfl⟩ := parseTokens_eq_ok_iff.1 hok
  have hbody := Tree.weightAll_le_iff.2 hstmts.levels_le
  simp only [Tree.levels, Tree.weight]
  omega

/-! ### Sums -/

/-- The text of a sum, without what ends the statement. -/
def sumText : Nat → String
  | 0 => "x"
  | n + 1 => sumText n ++ " + x"

def sumTerminals : Nat → List Terminal
  | 0 => [.name "x"]
  | n + 1 => sumTerminals n ++ [.mark .plus, .name "x"]

def sumTree : Nat → Tree
  | 0 => .identifier "x"
  | n + 1 => .binary .add (sumTree n) (.identifier "x")

theorem height_sumTree (n : Nat) : (sumTree n).height = n + 1 := by
  induction n with
  | zero => rfl
  | succ n ih =>
    have hname : (Tree.identifier "x").height = 1 := rfl
    simp only [sumTree, Tree.height_eq (.binary ..), Tree.children, List.map_cons, List.map_nil,
      List.foldr_cons, List.foldr_nil, ih, hname]
    omega

theorem height_block_sumTree (n : Nat) : (Tree.block [sumTree n]).height = n + 2 := by
  simp only [Tree.height_eq (.block _), Tree.children, List.map_cons, List.map_nil, List.foldr_cons,
    List.foldr_nil, height_sumTree]
  omega

theorem sumTerminals_ne_nil (n : Nat) : sumTerminals n ≠ [] := by
  cases n <;> simp [sumTerminals]

theorem head?_sumTerminals (n : Nat) : (sumTerminals n).head? = some (.name "x") := by
  induction n with
  | zero => rfl
  | succ n ih => rw [sumTerminals, List.head?_append_of_ne_nil _ (sumTerminals_ne_nil n), ih]

theorem spelled_sumTerminals (n : Nat) : AllSpelled (sumTerminals n) := by
  have hname : (Terminal.name "x").Spelled := Terminal.spelled_name (by decide)
  induction n with
  | zero => simpa [sumTerminals] using hname
  | succ n ih => simpa [sumTerminals, ih] using hname

/-- One terminal more is one text more, behind a blank. -/
theorem spaced_concat {ts : List Terminal} (hts : ts ≠ []) (t : Terminal) :
    spaced (ts ++ [t]) = spaced ts ++ " " ++ t.spelling := by
  have htexts : ts.map Terminal.spelling ≠ [] := by simpa using hts
  rw [spaced, List.map_append, String.intercalate_append_of_ne_nil htexts (by simp)]
  simp [spaced]

theorem spaced_sumTerminals (n : Nat) : spaced (sumTerminals n) = sumText n := by
  induction n with
  | zero => simp [sumTerminals, spaced, sumText, Terminal.spelling, Terminal.name]
  | succ n ih =>
    have hsplit : sumTerminals (n + 1) = (sumTerminals n ++ [.mark .plus]) ++ [.name "x"] := by
      simp [sumTerminals]
    rw [hsplit, spaced_concat (by simp), spaced_concat (sumTerminals_ne_nil n), ih]
    simp only [sumText, String.append_assoc]
    rfl

/-- A summand more needs no more room: it is read at the level of those before it. -/
theorem sum_expr (room n : Nat) : Expr (room + 2) .additive (sumTerminals n) (sumTree n) := by
  induction n with
  | zero => exact .primary .name
  | succ n ih =>
    have hright : Expr (room + 1) BinaryOp.add.mark.precedence.tighter [.name "x"]
        (.identifier "x") := .primary .name
    exact .binary (Nat.le_refl _) (by decide) ih hright

/-- Sums of all lengths are accepted. -/
theorem parseSource_sumText (n : Nat) : parseSource (sumText n ++ " ;") = .ok (.block [sumTree n]) := by
  have htext : spaced (sumTerminals n ++ [.mark .semicolon]) = sumText n ++ " ;" := by
    rw [spaced_concat (sumTerminals_ne_nil n), spaced_sumTerminals, String.append_assoc]
    rfl
  have hspelled : AllSpelled (sumTerminals n ++ [.mark .semicolon]) := by
    simpa using spelled_sumTerminals n
  obtain ⟨tokens, htokens, hterminals⟩ := tokenize_spaced hspelled
  have hexpr : Expr 127 .comma (sumTerminals n) (sumTree n) := (sum_expr 125 n).looser (by decide)
  have hfirst : (sumTerminals n).head? ≠ some (.keyword .printlnWord) := by
    simp [head?_sumTerminals, Terminal.name, Terminal.keyword]
  have hstmt : Stmt maxDepth false (sumTerminals n ++ [.mark .semicolon]) (sumTree n) :=
    .expression hfirst hexpr
  have hstmts : Stmts maxDepth (terminals tokens) [sumTree n] := by
    rw [hterminals, ← List.append_nil (sumTerminals n ++ _)]
    exact .cons hstmt .nil
  have hparse := parseTokens_eq_ok_iff.2 ⟨_, hstmts, rfl⟩
  rw [← htext, parseSource, htokens]
  exact hparse

/-- No number bounds the height of accepted programs. -/
theorem exists_parsed_height_gt (bound : Nat) :
    ∃ source tree, parseSource source = .ok tree ∧ bound < tree.height := by
  refine ⟨_, _, parseSource_sumText bound, ?_⟩
  rw [height_block_sumTree]
  omega

/-! ### Accepted programs -/

/-- An accepted program has two levels for each that may nest, and one. It is at most as many nodes
higher as a way down goes on to what its nodes continue. -/
theorem parsed_height_le {source : String} {tree : Tree} (hok : parseSource source = .ok tree) :
    tree.levels ≤ 2 * maxDepth + 1 ∧ tree.height ≤ 2 * maxDepth + 1 + tree.continued := by
  have hlevels := levels_le_of_parseTokens (parseSource_eq_ok_iff.1 hok).2
  have hheight := tree.height_le
  exact ⟨hlevels, by omega⟩

theorem parsed_height_le_sum :
    parseSource (sumText 256 ++ " ;") = .ok (.block [sumTree 256]) ∧
    (Tree.block [sumTree 256]).levels ≤ 2 * maxDepth + 1 ∧
    (Tree.block [sumTree 256]).height ≤ 2 * maxDepth + 1 + (Tree.block [sumTree 256]).continued := by
  have hok := parseSource_sumText 256
  exact ⟨hok, parsed_height_le hok⟩

/-- The number of levels does not bound the height of an accepted program. -/
theorem sum_exceeds_levels :
    parseSource (sumText 256 ++ " ;") = .ok (.block [sumTree 256]) ∧
    ¬ (Tree.block [sumTree 256]).height ≤ 2 * maxDepth + 1 := by
  refine ⟨parseSource_sumText 256, ?_⟩
  rw [height_block_sumTree]
  decide

end ObsidianSyntax
