import ObsidianSyntax.Proofs.Print.Lines
import ObsidianSyntax.Proofs.Tree.Parsed

/-!
# Dumps tell trees apart

A dump is its lines, each as deep as its node stands in the tree. The lines of a node's parts are
deeper than its own and those behind it are not, which tells where the parts end. The only line that
is no node's is the one before a second branch, and it is as deep as the choice. So no two trees
have one dump, as long as each line says all about its node.
-/

namespace ObsidianSyntax

namespace Tree

/-! ### What follows a tree -/

/-- The lines are what follows a tree at that depth: none of a part of it, and no second branch. -/
def Follows (depth : Nat) (lines : List DumpLine) : Prop :=
  ∀ line ∈ lines.head?, line.depth ≤ depth ∧ line ≠ ⟨depth, "Else"⟩

/-- The lines are what follows the last of some trees at that depth. -/
def FollowsAll (depth : Nat) (lines : List DumpLine) : Prop := ∀ line ∈ lines.head?, line.depth < depth

section

variable {depth : Nat} {after : List DumpLine}

theorem FollowsAll.follows (h : FollowsAll depth after) : Follows depth after := by
  intro line hline
  have hless := h line hline
  exact ⟨Nat.le_of_lt hless, fun heq => Nat.lt_irrefl depth (by rwa [heq] at hless)⟩

theorem Follows.followsAll_succ (h : Follows depth after) : FollowsAll (depth + 1) after := fun line hline =>
  Nat.lt_succ_of_le (h line hline).1

theorem FollowsAll.succ (h : FollowsAll depth after) : FollowsAll (depth + 1) after :=
  fun line hline => Nat.lt_succ_of_lt (h line hline)

theorem follows_linesOnto {tree : Tree} (h : tree.HasClearLine) :
    Follows depth (tree.linesOnto depth after) := by
  intro line hline
  rw [head?_linesOnto h, Option.mem_def, Option.some.injEq] at hline
  subst hline
  refine ⟨Nat.le_refl depth, fun heq => ?_⟩
  have hchars : tree.kindName.toList ++ tree.lineTail = "Else".toList ++ [] := by
    simpa using congrArg (fun line => line.text.toList) heq
  have helse : "Else".toList.all Char.isAlpha = true := rfl
  have hkind := (run_append_inj isAlpha_of_mem_kindName (List.all_eq_true.1 helse)
    tree.isAlpha_head?_lineTail (by simp) hchars).1
  have hall : ∀ kind ∈ kindNumbers, kind.1 ≠ "Else" := by decide
  exact hall _ tree.mem_kindNumbers (String.toList_injective hkind)

/-- Trees do not end before another tree of their depth. -/
theorem not_followsAll_linesOnto {tree : Tree} (h : tree.HasClearLine) :
    ¬ FollowsAll depth (tree.linesOnto depth after) := fun hfollows =>
  absurd (hfollows _ (head?_linesOnto h depth after)) (Nat.lt_irrefl depth)

theorem follows_linesOfAll {trees : List Tree} (h : ∀ tree ∈ trees, tree.HasClearLine)
    (hafter : FollowsAll depth after) :
    Follows depth (linesOfAll trees depth after) := by
  cases trees with
  | nil => exact hafter.follows
  | cons tree trees => exact follows_linesOnto (h tree List.mem_cons_self)

/-- A choice does not end before its second branch. -/
theorem not_follows_linesOfElse {tree : Tree} :
    ¬ Follows depth (linesOfElse (some tree) depth after) := fun hfollows =>
  (hfollows ⟨depth, "Else"⟩ (by rw [linesOfElse, List.head?_cons, Option.mem_def])).2 rfl

theorem followsAll_linesOfElse {part : Option Tree} (hafter : Follows depth after) :
    FollowsAll (depth + 1) (linesOfElse part depth after) := by
  cases part with
  | none => exact hafter.followsAll_succ
  | some tree =>
    intro line hline
    obtain rfl : ⟨depth, "Else"⟩ = line := by simpa [linesOfElse] using hline
    exact Nat.lt_succ_self depth

end

/-! ### Trees of one dump -/

mutual

/-- A tree is found again in front of what follows it. -/
theorem linesOnto_inj (tree tree' : Tree) (h : tree.IsClear) (h' : tree'.IsClear) {depth : Nat}
    {after after' : List DumpLine} (hafter : Follows depth after) (hafter' : Follows depth after')
    (heq : tree.linesOnto depth after = tree'.linesOnto depth after') :
    tree = tree' ∧ after = after' := by
  obtain ⟨hkind, htail⟩ := lineTail_eq_of_linesOnto h.hasClearLine h'.hasClearLine heq
  have hsame := sameLine_of_lineTail h.hasClearLine h'.hasClearLine hkind htail
  have hparts : ∀ part ∈ tree.children, part.IsClear := fun part => h.of_mem_children
  have hparts' : ∀ part ∈ tree'.children, part.IsClear := fun part => h'.of_mem_children
  cases tree with
  | literal | identifier | sizeOf | returnStmt | varDecl =>
    cases hsame
    exact ⟨rfl, (List.cons.inj heq).2⟩
  | unary op part | assign op target part | builtin function part | cast type part | whileLoop condition part
  | forLoop start condition step part =>
    cases hsame
    rename_i part'
    obtain ⟨rfl, rfl⟩ := linesOnto_inj part part' (hparts part (by simp [children]))
      (hparts' part' (by simp [children]))
      hafter.followsAll_succ.follows hafter'.followsAll_succ.follows (List.cons.inj heq).2
    exact ⟨rfl, rfl⟩
  | binary op left right =>
    cases hsame with
    | @binary _ _ _ left' right' =>
      simp only [children, List.forall_mem_cons] at hparts hparts'
      obtain ⟨rfl, hright⟩ :=
        linesOnto_inj left left' hparts.1 hparts'.1 (follows_linesOnto hparts.2.1.hasClearLine)
        (follows_linesOnto hparts'.2.1.hasClearLine) (List.cons.inj heq).2
      obtain ⟨rfl, rfl⟩ := linesOnto_inj right right' hparts.2.1 hparts'.2.1 hafter.followsAll_succ.follows
        hafter'.followsAll_succ.follows hright
      exact ⟨rfl, rfl⟩
  | ternary condition consequent alternative =>
    cases hsame with
    | @ternary _ _ _ condition' consequent' alternative' =>
      simp only [children, List.forall_mem_cons] at hparts hparts'
      obtain ⟨rfl, hbranches⟩ := linesOnto_inj condition condition' hparts.1 hparts'.1
        (follows_linesOnto hparts.2.1.hasClearLine)
        (follows_linesOnto hparts'.2.1.hasClearLine) (List.cons.inj heq).2
      obtain ⟨rfl, hlast⟩ := linesOnto_inj consequent consequent' hparts.2.1 hparts'.2.1
        (follows_linesOnto hparts.2.2.1.hasClearLine) (follows_linesOnto hparts'.2.2.1.hasClearLine) hbranches
      obtain ⟨rfl, rfl⟩ :=
        linesOnto_inj alternative alternative' hparts.2.2.1 hparts'.2.2.1 hafter.followsAll_succ.follows
        hafter'.followsAll_succ.follows hlast
      exact ⟨rfl, rfl⟩
  | ifElse condition consequent alternative =>
    cases hsame with
    | @ifElse _ _ consequent' _ alternative' =>
      simp only [children, List.forall_mem_cons, Option.mem_toList] at hparts hparts'
      obtain ⟨rfl, hbranch⟩ := linesOnto_inj consequent consequent' hparts.2.1 hparts'.2.1
        (followsAll_linesOfElse hafter).follows
        (followsAll_linesOfElse hafter').follows (List.cons.inj heq).2
      obtain ⟨rfl, rfl⟩ := linesOfElse_inj alternative alternative' hparts.2.2 hparts'.2.2 hafter
        hafter' hbranch
      exact ⟨rfl, rfl⟩
  | call callee parts | block parts =>
    cases hsame
    rename_i parts'
    obtain ⟨rfl, rfl⟩ :=
      linesOfAll_inj parts parts' hparts hparts' hafter.followsAll_succ hafter'.followsAll_succ
      (List.cons.inj heq).2
    exact ⟨rfl, rfl⟩
  | unsafeBlock parts | functionDef name returnType params parts =>
    cases hsame
    rename_i parts'
    simp only [children, List.forall_mem_singleton] at hparts hparts'
    obtain ⟨rfl, rfl⟩ := linesOfAll_inj parts parts' (fun _ => hparts.of_mem_children)
      (fun _ => hparts'.of_mem_children)
      hafter.followsAll_succ.succ hafter'.followsAll_succ.succ (List.cons.inj (List.cons.inj heq).2).2
    exact ⟨rfl, rfl⟩

theorem linesOfElse_inj (part part' : Option Tree) (h : ∀ tree ∈ part, tree.IsClear)
    (h' : ∀ tree ∈ part', tree.IsClear) {depth : Nat} {after after' : List DumpLine}
    (hafter : Follows depth after) (hafter' : Follows depth after')
    (heq : linesOfElse part depth after = linesOfElse part' depth after') :
    part = part' ∧ after = after' := by
  cases part with
  | none =>
    cases part' with
    | none => exact ⟨rfl, heq⟩
    | some tree' =>
      obtain rfl : after = linesOfElse (some tree') depth after' := heq
      exact absurd hafter not_follows_linesOfElse
  | some tree =>
    cases part' with
    | none =>
      obtain rfl : linesOfElse (some tree) depth after = after' := heq
      exact absurd hafter' not_follows_linesOfElse
    | some tree' =>
      obtain ⟨rfl, rfl⟩ := linesOnto_inj tree tree' (h tree rfl) (h' tree' rfl) hafter.followsAll_succ.follows
        hafter'.followsAll_succ.follows (List.cons.inj heq).2
      exact ⟨rfl, rfl⟩

theorem linesOfAll_inj (trees trees' : List Tree) (h : ∀ tree ∈ trees, tree.IsClear)
    (h' : ∀ tree ∈ trees', tree.IsClear) {depth : Nat} {after after' : List DumpLine}
    (hafter : FollowsAll depth after) (hafter' : FollowsAll depth after')
    (heq : linesOfAll trees depth after = linesOfAll trees' depth after') :
    trees = trees' ∧ after = after' := by
  cases trees with
  | nil =>
    cases trees' with
    | nil => exact ⟨rfl, heq⟩
    | cons tree' trees' =>
      obtain rfl : after = tree'.linesOnto depth (linesOfAll trees' depth after') := heq
      exact absurd hafter (not_followsAll_linesOnto (h' tree' List.mem_cons_self).hasClearLine)
  | cons tree trees =>
    cases trees' with
    | nil =>
      obtain rfl : tree.linesOnto depth (linesOfAll trees depth after) = after' := heq
      exact absurd hafter' (not_followsAll_linesOnto (h tree List.mem_cons_self).hasClearLine)
    | cons tree' trees' =>
      rw [List.forall_mem_cons] at h h'
      obtain ⟨rfl, hrest⟩ :=
        linesOnto_inj tree tree' h.1 h'.1
        (follows_linesOfAll (fun part hmem => (h.2 part hmem).hasClearLine) hafter)
        (follows_linesOfAll (fun part hmem => (h'.2 part hmem).hasClearLine) hafter') heq
      obtain ⟨rfl, rfl⟩ := linesOfAll_inj trees trees' h.2 h'.2 hafter hafter' hrest
      exact ⟨rfl, rfl⟩

end

/-! ### Dumps -/

theorem map_ofChars_splitOn_dump {tree : Tree} (h : tree.IsClear) :
    (tree.dump.toList.splitOn '\n').dropLast.map DumpLine.ofChars = tree.lines 0 := by
  have hread : (tree.lines 0).map (DumpLine.ofChars ∘ DumpLine.chars) = (tree.lines 0).map id :=
    List.map_congr_left fun line hline => DumpLine.ofChars_chars (isPlain_lines h.isUnbroken 0 line hline)
  rw [← dumpAt_zero, splitOn_dumpAt h.isUnbroken, List.dropLast_concat, List.map_map, hread, List.map_id]

theorem dump_inj {tree tree' : Tree} (h : tree.IsClear) (h' : tree'.IsClear)
    (hdump : tree.dump = tree'.dump) : tree = tree' := by
  have hlines : tree.lines 0 = tree'.lines 0 := by
    rw [← map_ofChars_splitOn_dump h, hdump, map_ofChars_splitOn_dump h']
  have hend : Follows 0 [] := nofun
  exact (linesOnto_inj tree tree' h h' hend hend hlines).1

end Tree

/-- Programs with one dump have the same tree, where no unsafe block stands in a part that is
written in the line of a statement. -/
theorem dump_isFaithful {source source' : String} {tree tree' : Tree}
    (hok : parseSource source = .ok tree) (hok' : parseSource source' = .ok tree')
    (hshows : tree.ShowsBlocks) (hshows' : tree'.ShowsBlocks) (hdump : tree.dump = tree'.dump) :
    tree = tree' :=
  Tree.dump_inj ((Tree.ParsedFrom.source hok).isWellFormed.isClear hshows)
    ((Tree.ParsedFrom.source hok').isWellFormed.isClear hshows') hdump

theorem dump_isFaithful_spaced :
    parseSource "return a;" = .ok (.block [.returnStmt (some (.identifier "a"))]) ∧
    parseSource "return\na ;" = .ok (.block [.returnStmt (some (.identifier "a"))]) ∧
    (Tree.block [.returnStmt (some (.identifier "a"))]).ShowsBlocks ∧
    Tree.block [.returnStmt (some (.identifier "a"))] = .block [.returnStmt (some (.identifier "a"))] := by
  have htokens : (scan "return a;").1 = [⟨.keyword .returnWord, "return", ⟨0, 1, 1⟩⟩,
    ⟨.identifier, "a", ⟨7, 1, 8⟩⟩, ⟨.mark .semicolon, ";", ⟨8, 1, 9⟩⟩, .endOfInput ⟨9, 1, 10⟩] := by decide +kernel
  have htokens' : (scan "return\na ;").1 = [⟨.keyword .returnWord, "return", ⟨0, 1, 1⟩⟩,
    ⟨.identifier, "a", ⟨7, 2, 1⟩⟩, ⟨.mark .semicolon, ";", ⟨9, 2, 3⟩⟩, .endOfInput ⟨10, 2, 4⟩] := by decide +kernel
  have hok : parseSource "return a;" = .ok (.block [.returnStmt (some (.identifier "a"))]) := by
    rw [parseSource_of_valid (by rw [htokens]; rfl), htokens]
    rfl
  have hok' : parseSource "return\na ;" = .ok (.block [.returnStmt (some (.identifier "a"))]) := by
    rw [parseSource_of_valid (by rw [htokens']; rfl), htokens']
    rfl
  have hpart : (Tree.identifier "a").IsSafe := Tree.isSafe_iff.2 ⟨by simp, by simp [Tree.children]⟩
  have hreturn : (Tree.returnStmt (some (.identifier "a"))).IsSafe :=
    Tree.isSafe_iff.2 ⟨by simp, by simpa [Tree.children] using hpart⟩
  have hshows : (Tree.block [.returnStmt (some (.identifier "a"))]).ShowsBlocks :=
    Tree.IsSafe.showsBlocks (Tree.isSafe_iff.2 ⟨by simp, by simpa [Tree.children] using hreturn⟩)
  exact ⟨hok, hok', hshows, dump_isFaithful hok hok' hshows hshows rfl⟩

/-- An unsafe block in the line of a statement is written as the number of its statements only. -/
example : (Tree.block [.returnStmt (some (.unsafeBlock [.identifier "a"]))]).dump =
    (Tree.block [.returnStmt (some (.unsafeBlock [.identifier "b"]))]).dump := rfl

end ObsidianSyntax
