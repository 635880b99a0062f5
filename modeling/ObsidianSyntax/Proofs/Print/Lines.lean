import ObsidianSyntax.Proofs.Print.NodeLine

/-!
# Lines of dumps

The lines of a tree are the line of its root and, one step deeper, those of the parts that are not
written in that line; between two branches there is a line that is no node's. All that later proofs
say of the lines follows from this one equation by induction on the parts. As no name is broken by a
line end, no line is, and the lines of a dump are found again at its line feeds.
-/

namespace ObsidianSyntax

namespace Tree

/-! ### Lines of parts -/

/-- The lines of a tree at `depth` but for the first. -/
def linesBelow : Tree → Nat → List DumpLine
  | .ifElse _ consequent (some alternative), depth =>
    consequent.lines (depth + 1) ++ ⟨depth, "Else"⟩ :: alternative.lines (depth + 1)
  | tree, depth => tree.belowParts.flatMap fun part => part.lines (depth + 1)

/-- Only a second branch has a line of its own before it. -/
theorem linesBelow_cases (tree : Tree) :
    (∃ condition consequent alternative, tree = .ifElse condition consequent (some alternative)) ∨
      tree.firstOfTwo? = none ∧ ∀ depth, tree.linesBelow depth = tree.belowParts.flatMap fun part =>
        part.lines (depth + 1) := by
  cases tree with
  | ifElse condition consequent alternative =>
    cases alternative with
    | none => exact .inr ⟨rfl, fun _ => rfl⟩
    | some alternative => exact .inl ⟨condition, consequent, alternative, rfl⟩
  | _ => exact .inr ⟨rfl, fun _ => rfl⟩

theorem linesOnto_eq (tree : Tree) (depth : Nat) (after : List DumpLine) :
    tree.linesOnto depth after = tree.lines depth ++ after :=
  tree.linesOnto_eq_append depth after

theorem linesOfAll_eq (trees : List Tree) (depth : Nat) (after : List DumpLine) :
    linesOfAll trees depth after = (trees.flatMap fun tree => tree.lines depth) ++ after := by
  induction trees with
  | nil => rfl
  | cons tree trees ih => rw [linesOfAll, linesOnto_eq, ih, List.flatMap_cons, List.append_assoc]

theorem lines_block (statements : List Tree) (depth : Nat) :
    (block statements).lines depth = ⟨depth, "Block"⟩ :: statements.flatMap fun statement =>
      statement.lines (depth + 1) := by
  rw [lines, linesOnto, linesOfAll_eq, List.append_nil]

/-- A tree is dumped as the line of its root and the lines below it. -/
theorem lines_eq_cons (tree : Tree) (depth : Nat) :
    tree.lines depth = ⟨depth, tree.lineText⟩ :: tree.linesBelow depth := by
  have hbelow : (tree.lines depth).tail = tree.linesBelow depth := by
    rw [lines]
    cases tree with
    | ifElse condition consequent alternative =>
      rw [linesOnto]
      cases alternative <;> simp [linesOfElse, linesOnto_eq, linesBelow, belowParts, children]
    | _ =>
      rw [linesOnto]
      simp [linesOnto_eq, linesOfAll_eq, lines_block, linesBelow, belowParts, children]
  rw [← hbelow]
  exact List.eq_cons_of_mem_head? (tree.head?_linesOnto_written depth [])

/-- Every line is that of a node in the tree, or the one before a second branch. -/
theorem text_of_mem_lines {tree : Tree} {depth : Nat} {line : DumpLine} (hline : line ∈ tree.lines depth) :
    (∃ node, tree.Holds node ∧ line.text = node.lineText) ∨ line.text = "Else" := by
  induction tree using induction_on_parts generalizing depth with
  | node tree ih =>
    have hpart : ∀ part ∈ tree.children, line ∈ part.lines (depth + 1) →
        (∃ node, tree.Holds node ∧ line.text = node.lineText) ∨ line.text = "Else" := by
      intro part hmem hline
      exact (ih part hmem hline).imp_left fun ⟨node, hnode, htext⟩ => ⟨node, .inside hmem hnode, htext⟩
    rw [lines_eq_cons, List.mem_cons] at hline
    obtain rfl | hline := hline
    · exact .inl ⟨tree, .self, rfl⟩
    · obtain ⟨condition, consequent, alternative, rfl⟩ | ⟨-, hbelow⟩ := tree.linesBelow_cases
      · obtain hline | hline := List.mem_append.1 hline
        · exact hpart consequent (by simp [children]) hline
        · obtain rfl | hline := List.mem_cons.1 hline
          · exact .inr rfl
          · exact hpart alternative (by simp [children]) hline
      · rw [hbelow] at hline
        obtain ⟨part, hmem, hline⟩ := List.mem_flatMap.1 hline
        exact hpart part (mem_children_of_mem_belowParts hmem) hline

end Tree

/-! ### Lines as written -/

namespace DumpLine

variable {line : DumpLine}

/-- The characters of a line, without the line feed. -/
def chars (line : DumpLine) : List Char := List.replicate (2 * line.depth) ' ' ++ line.text.toList

/-- The line that is written so. It is as deep as there are pairs of blanks in front. -/
def ofChars (text : List Char) : DumpLine :=
  ⟨(text.takeWhile (· == ' ')).length / 2, String.ofList (text.dropWhile (· == ' '))⟩

/-- The text of the line is on one line, with no blank in front. -/
structure IsPlain (line : DumpLine) : Prop where
  newline_not_mem : '\n' ∉ line.text.toList
  first : ∀ c ∈ line.text.toList.head?, (c == ' ') = false

theorem ofChars_chars (h : line.IsPlain) : ofChars line.chars = line := by
  have hblank : ∀ c ∈ List.replicate (2 * line.depth) ' ', (c == ' ') = true := fun c hmem => by
    simp [List.eq_of_mem_replicate hmem]
  simp [ofChars, chars, takeWhile_run hblank h.first, dropWhile_run hblank h.first]

theorem newline_not_mem_chars (h : line.IsPlain) : '\n' ∉ line.chars := by
  simp [chars, h.newline_not_mem]

theorem toList_render (line : DumpLine) : line.render.toList = line.chars ++ ['\n'] := by
  simp [render, chars]

end DumpLine

namespace Tree

/-- The line of a node starts with a letter, that of the name of its kind. -/
theorem exists_lineText (tree : Tree) : ∃ c rest, c.isAlpha = true ∧ tree.lineText.toList = c :: rest := by
  obtain ⟨c, word, hc, hword⟩ := tree.exists_kindName
  exact ⟨c, word ++ tree.writtenTail, hc, by rw [toList_lineText, hword, List.cons_append]⟩

/-- No line is empty. -/
theorem exists_of_mem_lines {tree : Tree} {depth : Nat} {line : DumpLine} (hline : line ∈ tree.lines depth) :
    ∃ c rest, c.isAlpha = true ∧ line.text.toList = c :: rest := by
  obtain ⟨node, -, htext⟩ | htext := text_of_mem_lines hline
  · rw [htext]
    exact node.exists_lineText
  · rw [htext]
    exact ⟨'E', ['l', 's', 'e'], rfl, rfl⟩

theorem isPlain_lines {tree : Tree} (h : tree.IsUnbroken) (depth : Nat) :
    ∀ line ∈ tree.lines depth, line.IsPlain := by
  intro line hline
  refine ⟨?_, ?_⟩
  · obtain ⟨node, hnode, htext⟩ | htext := text_of_mem_lines hline
    · rw [htext]
      exact newline_not_mem_lineText (hnode.isUnbroken h)
    · simp [htext]
  · obtain ⟨c, rest, hc, htext⟩ := exists_of_mem_lines hline
    rw [htext]
    rintro d ⟨⟩
    exact beq_eq_false_iff_ne.2 fun hblank => absurd hc (by rw [hblank]; decide)

/-! ### Dumps at a depth -/

/-- The dump of a tree that stands at `depth`. -/
def dumpAt (tree : Tree) (depth : Nat) : String := String.join ((tree.lines depth).map DumpLine.render)

theorem dumpAt_zero (tree : Tree) : tree.dumpAt 0 = tree.dump := rfl

theorem toList_dumpAt (tree : Tree) (depth : Nat) :
    (tree.dumpAt depth).toList = ((tree.lines depth).map DumpLine.chars).flatMap (· ++ ['\n']) := by
  simp [dumpAt, String.toList_join, List.flatMap_map, DumpLine.toList_render]

/-- The lines of a dump are found at its line feeds. -/
theorem splitOn_dumpAt {tree : Tree} (h : tree.IsUnbroken) (depth : Nat) :
    (tree.dumpAt depth).toList.splitOn '\n' = (tree.lines depth).map DumpLine.chars ++ [[]] := by
  have hnewline : ∀ text ∈ (tree.lines depth).map DumpLine.chars, '\n' ∉ text :=
    List.forall_mem_map.2 fun line hline => DumpLine.newline_not_mem_chars (isPlain_lines h depth line hline)
  rw [toList_dumpAt, splitOn_newline_flatMap hnewline]

end Tree

end ObsidianSyntax
