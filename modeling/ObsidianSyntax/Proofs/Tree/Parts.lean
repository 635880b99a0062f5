import Mathlib.Algebra.GroupWithZero.Nat
import Mathlib.Algebra.Order.BigOperators.Group.List
import Mathlib.Algebra.Order.Group.Nat
import ObsidianSyntax.Tree.Basic

/-!
# Parts of trees

What is said of a tree through its direct parts, whatever its form is: its size is one more than
theirs together, so that they are smaller, and what holds of a tree once it holds of its parts holds
of every tree.
-/

namespace ObsidianSyntax

namespace Tree

theorem countAll_eq (trees : List Tree) : countAll trees = (trees.map nodeCount).sum := by
  induction trees with
  | nil => rfl
  | cons tree rest ih => simp [countAll, ih]

theorem countOption_eq (tree : Option Tree) : countOption tree = (tree.toList.map nodeCount).sum := by
  cases tree <;> simp [countOption]

/-- Every part of a tree is counted once. -/
theorem nodeCount_eq (tree : Tree) : tree.nodeCount = 1 + (tree.children.map nodeCount).sum := by
  cases tree with
  | forLoop => simp [nodeCount, children, countOption_eq, Nat.add_assoc]
  | unsafeBlock | functionDef =>
    simp only [nodeCount, children, List.map_cons, List.map_nil, List.sum_cons, List.sum_nil]; omega
  | _ => simp [nodeCount, children, countAll_eq, countOption_eq, Nat.add_assoc]

theorem nodeCount_lt_of_mem_children {tree part : Tree} (hpart : part ∈ tree.children) :
    part.nodeCount < tree.nodeCount := by
  have hle : part.nodeCount ≤ (tree.children.map nodeCount).sum :=
    List.le_sum_of_mem (List.mem_map_of_mem hpart)
  rw [nodeCount_eq tree]
  omega

/-- What holds of a tree once it holds of its parts holds of every tree. The block of a body is a
part of its owner without being written in it, so that the induction is on the size and not on the
form. -/
@[elab_as_elim]
theorem induction_on_parts {motive : Tree → Prop} (tree : Tree)
    (node : ∀ tree : Tree, (∀ part ∈ tree.children, motive part) → motive tree) : motive tree := by
  induction hsize : tree.nodeCount using Nat.strong_induction_on generalizing tree with
  | _ size ih =>
    subst hsize
    exact node tree fun part hpart => ih part.nodeCount (nodeCount_lt_of_mem_children hpart) part rfl

end Tree

end ObsidianSyntax
