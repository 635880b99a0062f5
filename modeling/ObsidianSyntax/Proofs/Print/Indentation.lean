import ObsidianSyntax.Proofs.Print.Lines

/-!
# Layout of dumps

A tree that stands deeper is dumped with the same lines, each moved to the right by two blanks for
every step. There is one line for each node that is not written in the line of another, and one more
for each second branch. As no line is broken or empty, all of this can be read off the text itself,
where only line feeds tell the lines apart.
-/

namespace ObsidianSyntax

/-- The line, `steps` deeper. -/
def DumpLine.deeper (steps : Nat) (line : DumpLine) : DumpLine := ⟨line.depth + steps, line.text⟩

theorem DumpLine.chars_deeper (steps : Nat) (line : DumpLine) :
    (line.deeper steps).chars = List.replicate (2 * steps) ' ' ++ line.chars := by
  rw [chars, deeper, Nat.add_comm, Nat.mul_add, List.replicate_add, List.append_assoc, chars]

namespace Tree

/-! ### Depth -/

/-- The lines of a tree that stands deeper are the same lines, deeper. -/
theorem lines_add (tree : Tree) (depth steps : Nat) :
    tree.lines (depth + steps) = (tree.lines depth).map (DumpLine.deeper steps) := by
  induction tree using induction_on_parts generalizing depth with
  | node tree ih =>
    have hpart : ∀ part ∈ tree.children, part.lines (depth + steps + 1) =
        (part.lines (depth + 1)).map (DumpLine.deeper steps) := by
      intro part hmem
      rw [Nat.add_right_comm]
      exact ih part hmem (depth + 1)
    have hbelow : tree.linesBelow (depth + steps) = (tree.linesBelow depth).map (DumpLine.deeper steps) := by
      obtain ⟨condition, consequent, alternative, rfl⟩ | ⟨-, hlines⟩ := tree.linesBelow_cases
      · have hconsequent := hpart consequent (by simp [children])
        have halternative := hpart alternative (by simp [children])
        simp [linesBelow, hconsequent, halternative, DumpLine.deeper]
      · rw [hlines, hlines, List.map_flatMap]
        exact List.flatMap_congr fun part hmem => hpart part (mem_children_of_mem_belowParts hmem)
    rw [lines_eq_cons, lines_eq_cons, hbelow, List.map_cons]
    rfl

/-! ### Number of lines -/

/-- The nodes that are not written in the line of another, in the order of their lines. -/
def shownNodes (tree : Tree) : List Tree :=
  tree :: tree.belowParts.attach.flatMap fun part => part.val.shownNodes
termination_by tree.nodeCount
decreasing_by exact nodeCount_lt_of_mem_children (mem_children_of_mem_belowParts part.property)

theorem shownNodes_eq (tree : Tree) : tree.shownNodes = tree :: tree.belowParts.flatMap shownNodes := by
  rw [shownNodes]
  simp

/-- How many of the nodes with lines have a second branch. -/
def secondBranches (tree : Tree) : Nat := tree.shownNodes.countP fun node => node.firstOfTwo?.isSome

theorem length_shownNodes (tree : Tree) :
    tree.shownNodes.length = 1 + (tree.belowParts.map fun part => part.shownNodes.length).sum := by
  rw [shownNodes_eq, List.length_cons, List.length_flatMap, Nat.add_comm]

theorem secondBranches_eq (tree : Tree) :
    tree.secondBranches =
      (if tree.firstOfTwo?.isSome then 1 else 0) + (tree.belowParts.map secondBranches).sum := by
  rw [secondBranches, shownNodes_eq, List.countP_cons, List.countP_flatMap, Nat.add_comm]
  rfl

/-- There is a line for each of these nodes, and one before each second branch. -/
theorem length_lines (tree : Tree) (depth : Nat) :
    (tree.lines depth).length = tree.shownNodes.length + tree.secondBranches := by
  induction tree using induction_on_parts generalizing depth with
  | node tree ih =>
    rw [lines_eq_cons, List.length_cons, length_shownNodes, secondBranches_eq]
    obtain ⟨condition, consequent, alternative, rfl⟩ | ⟨hsingle, hlines⟩ := tree.linesBelow_cases
    · have hconsequent := ih consequent (by simp [children]) (depth + 1)
      have halternative := ih alternative (by simp [children]) (depth + 1)
      have hparts : (ifElse condition consequent (some alternative)).belowParts =
          [consequent, alternative] := rfl
      rw [linesBelow, List.length_append, List.length_cons, hconsequent, halternative, hparts]
      simp only [firstOfTwo?, Option.isSome_some, if_true, List.map_cons, List.map_nil,
        List.sum_cons, List.sum_nil]
      omega
    · have hparts : (tree.belowParts.map fun part => (part.lines (depth + 1)).length) =
          tree.belowParts.map fun part => part.shownNodes.length + part.secondBranches :=
        List.map_congr_left fun part hmem => ih part (mem_children_of_mem_belowParts hmem) (depth + 1)
      rw [hlines, List.length_flatMap, hparts, List.sum_map_add, hsingle, Option.isSome_none,
        if_neg Bool.false_ne_true]
      omega

end Tree

/-! ### The text -/

/-- The lines of a text that has a line feed behind each of them. -/
def closedLines (text : String) : List String := (text.toList.splitOn '\n').dropLast.map String.ofList

namespace Tree

theorem closedLines_dumpAt {tree : Tree} (h : tree.IsUnbroken) (depth : Nat) :
    closedLines (tree.dumpAt depth) = (tree.lines depth).map fun line => String.ofList line.chars := by
  rw [closedLines, splitOn_dumpAt h, List.dropLast_concat, List.map_map]
  rfl

theorem dumpAt_eq_join (tree : Tree) (depth : Nat) :
    tree.dumpAt depth =
      String.join ((tree.lines 0).map fun line => String.ofList (List.replicate (2 * depth) ' ') ++
        String.ofList line.chars ++ "\n") := by
  have hlines := tree.lines_add 0 depth
  rw [Nat.zero_add] at hlines
  apply String.toList_injective
  rw [toList_dumpAt, hlines]
  simp [String.toList_join, List.flatMap_map, DumpLine.chars_deeper]

/-- The dump of a tree that stands at some depth is its dump with two blanks for each step of depth
put before every line. It ends with a line feed, no line is empty, and there are as many lines as
nodes that are not written in the line of another, and one more for each of these with a second
branch. -/
theorem dumpAt_isIndented {tree : Tree} (h : tree.IsUnbroken) (depth : Nat) :
    tree.dumpAt depth =
        String.join ((closedLines tree.dump).map fun line => String.ofList
          (List.replicate (2 * depth) ' ') ++ line ++ "\n") ∧
      (tree.dumpAt depth).toList.getLast? = some '\n' ∧
      (∀ line ∈ closedLines (tree.dumpAt depth), line ≠ "") ∧
      (closedLines (tree.dumpAt depth)).length = tree.shownNodes.length + tree.secondBranches := by
  refine ⟨?_, ?_, ?_, ?_⟩
  · rw [← dumpAt_zero, closedLines_dumpAt h, List.map_map, dumpAt_eq_join]
    rfl
  · have hne : tree.lines depth ≠ [] := by
      rw [lines_eq_cons]
      exact List.cons_ne_nil _ _
    obtain ⟨front, last, hlines⟩ := (List.eq_nil_or_concat (tree.lines depth)).resolve_left hne
    rw [toList_dumpAt, hlines]
    simp
  · rw [closedLines_dumpAt h, List.forall_mem_map]
    intro line hline hempty
    obtain ⟨c, rest, -, htext⟩ := exists_of_mem_lines hline
    simp [DumpLine.chars, htext] at hempty
  · rw [closedLines_dumpAt h, List.length_map, length_lines]

/-- The line end in the text of a literal is written as an escape, and only the first choice has a
second branch. -/
theorem dumpAt_isIndented_choice :
    let tree : Tree := .ifElse (.identifier "ok") (.block [.returnStmt (some (.literal (.string "a\nb")))])
      (some (.block [.ifElse (.identifier "ok") (.block []) none]))
    tree.IsUnbroken ∧
      tree.dumpAt 1 = String.join
        ((closedLines tree.dump).map fun line => String.ofList (List.replicate (2 * 1) ' ') ++ line ++ "\n") ∧
      (tree.dumpAt 1).toList.getLast? = some '\n' ∧ (∀ line ∈ closedLines (tree.dumpAt 1), line ≠ "") ∧
      (closedLines (tree.dumpAt 1)).length = 7 := by
  intro tree
  have hname : (identifier "ok").IsUnbroken := isUnbroken_iff.2 (by simp [hasUnbrokenNames_iff, children])
  have htext : (literal (.string "a\nb")).IsUnbroken :=
    isUnbroken_iff.2 (by simp [hasUnbrokenNames_iff, children])
  have hreturn : (returnStmt (some (literal (.string "a\nb")))).IsUnbroken :=
    isUnbroken_iff.2 (by simp [hasUnbrokenNames_iff, children, htext])
  have hfirst : (block [returnStmt (some (literal (.string "a\nb")))]).IsUnbroken :=
    isUnbroken_iff.2 (by simp [hasUnbrokenNames_iff, children, hreturn])
  have hempty : (block []).IsUnbroken := isUnbroken_iff.2 (by simp [hasUnbrokenNames_iff, children])
  have hchoice : (ifElse (identifier "ok") (block []) none).IsUnbroken :=
    isUnbroken_iff.2 (by simp [hasUnbrokenNames_iff, children, hname, hempty])
  have hsecond : (block [ifElse (identifier "ok") (block []) none]).IsUnbroken :=
    isUnbroken_iff.2 (by simp [hasUnbrokenNames_iff, children, hchoice])
  have htree : tree.IsUnbroken :=
    isUnbroken_iff.2 (by simp [tree, hasUnbrokenNames_iff, children, hname, hfirst, hsecond])
  obtain ⟨hjoin, hlast, hline, hlength⟩ := dumpAt_isIndented htree 1
  have hcount : tree.shownNodes.length + tree.secondBranches = 7 := by
    simp [tree, secondBranches, shownNodes_eq, belowParts, children]
  exact ⟨htree, hjoin, hlast, hline, hlength.trans hcount⟩

/-- The line before a second branch is as deep as the choice. -/
example : (ifElse (identifier "ok") (block [returnStmt none]) (some (block []))).dumpAt 1 =
    "  If: Identifier: ok\n    Block\n      Return\n  Else\n    Block\n" := by decide +kernel

end Tree

end ObsidianSyntax
