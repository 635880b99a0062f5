import ObsidianSyntax.Proofs.Fault.Earliest
import ObsidianSyntax.Proofs.Tree.Height

/-!
# Chains of operators

A chain is operands with binary operators between them, each operand a name or a literal with
operators before and behind it. What tree a chain stands for can be said by looking at the whole of
it: it is split at its loosest operator, at the last one of those, but at the first one of powers,
and so are the parts. The parser never looks at the whole. It reads on from left to right, with a
precedence that tells it when to stop, and still arrives at the same tree.

The parser follows the grammar, so it is enough to derive the tree. The only other thing that can
happen is that the chain nests too deep, and the levels of its tree say when.
-/

namespace ObsidianSyntax

open Grammar

/-! ### Operands -/

/-- A name or a literal. -/
inductive Atom where
  | name (text : String)
  | literal (terminal : Terminal) (value : Literal) (hvalue : terminal.Denotes value)

namespace Atom

def terminal : Atom → Terminal
  | .name text => .name text
  | .literal terminal _ _ => terminal

def tree : Atom → Tree
  | .name text => .identifier text
  | .literal _ value _ => .literal value

end Atom

/-- A name or a literal with the operators before and behind it, as they stand. -/
structure Operand where
  before : List { op : UnaryOp // op.isBehind = false }
  atom : Atom
  behind : List { op : UnaryOp // op.isBehind = true }

namespace Operand

/-- The name or literal with the operators behind it. -/
def coreTerminals (operand : Operand) : List Terminal :=
  operand.atom.terminal :: operand.behind.map fun op => .mark op.1.mark

def coreTree (operand : Operand) : Tree :=
  operand.behind.foldl (fun tree op => .unary op.1 tree) operand.atom.tree

def terminals (operand : Operand) : List Terminal :=
  operand.before.map (fun op => .mark op.1.mark) ++ operand.coreTerminals

/-- The operators before an operand cover it with those behind it. -/
def tree (operand : Operand) : Tree := operand.before.foldr (fun op tree => .unary op.1 tree) operand.coreTree

end Operand

/-! ### Chains -/

/-- A binary operator and the operand behind it. -/
structure Link where
  op : BinaryOp
  operand : Operand

namespace Link

def precedence (link : Link) : Precedence := link.op.mark.precedence

def terminals (link : Link) : List Terminal := .mark link.op.mark :: link.operand.terminals

/-- Of a link and one further on, the first is the place to split: it is looser, or both are powers. -/
def ComesFirst (link later : Link) : Prop :=
  link.precedence < later.precedence ∨ link.precedence = later.precedence ∧ link.precedence = .exponent

instance (link later : Link) : Decidable (link.ComesFirst later) := inferInstanceAs (Decidable (_ ∨ _))

theorem comesFirst_iff {link later : Link} :
    link.ComesFirst later ↔ link.precedence.rank < later.precedence.rank ∨
      link.precedence.rank = later.precedence.rank ∧ link.precedence.rank = 14 := by
  simp only [ComesFirst, Precedence.lt_def, Precedence.eq_iff_rank, Precedence.ranks]

theorem precedence_eq_exponent_iff {link : Link} : link.precedence = .exponent ↔ link.op = .power := by
  rw [precedence]
  cases link.op <;> decide

theorem precedence_le (link : Link) : link.precedence ≤ .exponent := by
  rw [precedence]
  cases link.op <;> decide

end Link

structure Chain where
  first : Operand
  links : List Link

/-- A place to split links at: the loosest operator of all, the last one if there are more, but the
first one of powers. -/
structure Split (links : List Link) where
  before : List Link
  chosen : Link
  after : List Link
  links_eq : links = before ++ chosen :: after
  before_le : ∀ link ∈ before, chosen.precedence ≤ link.precedence
  after_le : ∀ link ∈ after, chosen.precedence ≤ link.precedence
  isLast : chosen.precedence ≠ .exponent → ∀ link ∈ after, chosen.precedence < link.precedence
  isFirst : chosen.precedence = .exponent → ∀ link ∈ before, chosen.precedence < link.precedence

namespace Split

variable {link : Link} {links : List Link}

theorem mem_iff (place : Split links) :
    link ∈ links ↔ link ∈ place.before ∨ link = place.chosen ∨ link ∈ place.after := by
  rw [← List.mem_cons, ← List.mem_append, ← place.links_eq]

theorem chosen_le (place : Split links) : ∀ link ∈ links, place.chosen.precedence ≤ link.precedence := by
  intro link hmem
  obtain hmem | rfl | hmem := place.mem_iff.1 hmem
  · exact place.before_le link hmem
  · exact Nat.le_refl _
  · exact place.after_le link hmem

/-- The links are split at their only one. -/
def only (link : Link) : Split [link] := ⟨[], link, [], rfl, by simp, by simp, by simp, by simp⟩

/-- The links are split at the first, as it comes before the place for those behind it. -/
def atFirst (link : Link) (later : Split links) (hfirst : link.ComesFirst later.chosen) :
    Split (link :: links) where
  before := []
  chosen := link
  after := links
  links_eq := rfl
  before_le := by simp
  after_le := by
    intro other hmem
    have hle := later.chosen_le other hmem
    rw [Link.comesFirst_iff] at hfirst
    simp only [Precedence.le_def] at hle ⊢
    omega
  isLast := by
    intro hlevel other hmem
    have hle := later.chosen_le other hmem
    rw [Link.comesFirst_iff] at hfirst
    simp only [Precedence.lt_def, Precedence.le_def, Precedence.eq_iff_rank, Precedence.ranks,
      ne_eq] at hle hlevel ⊢
    omega
  isFirst := by simp

/-- The links are split at the place for those behind the first. -/
def behindFirst (link : Link) (later : Split links) (hlater : ¬ link.ComesFirst later.chosen) :
    Split (link :: links) where
  before := link :: later.before
  chosen := later.chosen
  after := later.after
  links_eq := congrArg (link :: ·) later.links_eq
  before_le := by
    apply List.forall_mem_cons.2 ⟨_, later.before_le⟩
    rw [Link.comesFirst_iff] at hlater
    rw [Precedence.le_def]
    omega
  after_le := later.after_le
  isLast := later.isLast
  isFirst := by
    intro hlevel
    apply List.forall_mem_cons.2 ⟨_, later.isFirst hlevel⟩
    rw [Link.comesFirst_iff] at hlater
    simp only [Precedence.lt_def, Precedence.eq_iff_rank, Precedence.ranks] at hlevel ⊢
    omega

theorem length_lt (place : Split links) :
    place.before.length < links.length ∧ place.after.length < links.length := by
  have hlength := congrArg List.length place.links_eq
  simp only [List.length_append, List.length_cons] at hlength
  omega

/-- The place to split links at. -/
def find (link : Link) : (rest : List Link) → Split (link :: rest)
  | [] => only link
  | second :: rest =>
    let later := find second rest
    if hfirst : link.ComesFirst later.chosen then atFirst link later hfirst else behindFirst link later hfirst

end Split

namespace Chain

def terminals (chain : Chain) : List Terminal := chain.first.terminals ++ chain.links.flatMap Link.terminals

/-- The tree of a chain: it is split as long as there are operators left. -/
def tree (chain : Chain) : Tree :=
  match chain with
  | ⟨first, []⟩ => first.tree
  | ⟨first, link :: rest⟩ =>
    .binary (Split.find link rest).chosen.op (tree ⟨first, (Split.find link rest).before⟩)
      (tree ⟨(Split.find link rest).chosen.operand, (Split.find link rest).after⟩)
termination_by chain.links.length
decreasing_by
  · exact (Split.find link rest).length_lt.1
  · exact (Split.find link rest).length_lt.2

/-- What is before the split is a chain, and so is what is behind it. -/
theorem terminals_of_split {links : List Link} (first : Operand) (place : Split links) :
    terminals ⟨first, links⟩ = terminals ⟨first, place.before⟩ ++
      .mark place.chosen.op.mark :: terminals ⟨place.chosen.operand, place.after⟩ := by
  have hlinks := congrArg (List.flatMap Link.terminals) place.links_eq
  simp [terminals, hlinks, Link.terminals]

end Chain

/-! ### Derivations -/

theorem Atom.primary (atom : Atom) (n : Nat) : Primary (n + 1) [atom.terminal] atom.tree := by
  cases atom with
  | name text => exact .name
  | literal terminal value hvalue => exact .literal hvalue

theorem Atom.levels_tree (atom : Atom) : atom.tree.levels = 1 := by
  cases atom <;> simp [tree]

/-- Operators behind an operand need no room and change no level. -/
theorem expr_foldl_behind {n : Nat} {ts : List Terminal} {tree : Tree}
    (behind : List { op : UnaryOp // op.isBehind = true }) (hexpr : ∀ p, Expr (n + 1) p ts tree)
    (p : Precedence) :
    Expr (n + 1) p (ts ++ behind.map fun op => .mark op.1.mark)
      (behind.foldl (fun tree op => .unary op.1 tree) tree) := by
  induction behind generalizing ts tree with
  | nil => simpa using hexpr p
  | cons op behind ih =>
    have hnext : ∀ p, Expr (n + 1) p (ts ++ [.mark op.1.mark]) (.unary op.1 tree) := fun p =>
      .behind op.2 (hexpr .postfixOp)
    simpa using ih hnext

theorem levels_foldl_behind (behind : List { op : UnaryOp // op.isBehind = true }) (tree : Tree) :
    (behind.foldl (fun tree op => Tree.unary op.1 tree) tree).levels = tree.levels := by
  induction behind generalizing tree with
  | nil => rfl
  | cons op behind ih => rw [List.foldl_cons, ih, Tree.levels_behind op.2]

/-- Each operator before an operand needs a level of its own. -/
theorem expr_foldr_before {n : Nat} {p : Precedence} {ts : List Terminal} {tree : Tree}
    (before : List { op : UnaryOp // op.isBehind = false })
    (hexpr : ∀ n p, tree.levels ≤ n → Expr n p ts tree) (hp : p ≤ .prefixOp)
    (hroom : (before.foldr (fun op tree => Tree.unary op.1 tree) tree).levels ≤ n) :
    Expr n p (before.map (fun op => .mark op.1.mark) ++ ts)
      (before.foldr (fun op tree => .unary op.1 tree) tree) := by
  induction before generalizing n p with
  | nil => exact hexpr n p hroom
  | cons op before ih =>
    rw [List.foldr_cons, Tree.levels_before op.2, Nat.add_comm] at hroom
    obtain ⟨m, rfl, hless⟩ := exists_room hroom
    exact .before hp op.2 (ih (Nat.le_refl _) hless)

namespace Operand

theorem expr_core {n : Nat} {p : Precedence} (operand : Operand) (hroom : operand.coreTree.levels ≤ n) :
    Expr n p operand.coreTerminals operand.coreTree := by
  rw [coreTree, levels_foldl_behind, Atom.levels_tree] at hroom
  obtain ⟨m, rfl, _⟩ := exists_room hroom
  exact expr_foldl_behind operand.behind (fun p => .primary (operand.atom.primary m)) p

theorem expr {n : Nat} {p : Precedence} (operand : Operand) (hp : p ≤ .prefixOp)
    (hroom : operand.tree.levels ≤ n) :
    Expr n p operand.terminals operand.tree :=
  expr_foldr_before operand.before (fun _ _ hroom => operand.expr_core hroom) hp hroom

end Operand

/-- A chain of operators that are no looser than the level is derived as its tree, wherever there is
room for the levels of that. -/
theorem Chain.expr {n : Nat} {p : Precedence} (chain : Chain) (hp : p ≤ .prefixOp)
    (hlinks : ∀ link ∈ chain.links, p ≤ link.precedence) (hroom : chain.tree.levels ≤ n) :
    Expr n p chain.terminals chain.tree := by
  fun_induction tree chain generalizing n p with
  | case1 first => simpa [terminals] using first.expr hp hroom
  | case2 first link rest ihleft ihright =>
    generalize Split.find link rest = place at ihleft ihright hroom ⊢
    rw [Tree.levels_binary, Nat.max_le, Nat.add_comm] at hroom
    obtain ⟨hleft, hdeeper⟩ := hroom
    obtain ⟨m, rfl, hright⟩ := exists_room hdeeper
    have hchosen : p ≤ place.chosen.precedence := hlinks _ (place.mem_iff.2 (.inr (.inl rfl)))
    have hexponent := place.chosen.precedence_le
    rw [terminals_of_split first place]
    by_cases hpower : place.chosen.precedence = .exponent
    · have hop := Link.precedence_eq_exponent_iff.1 hpower
      rw [hpower] at hchosen
      have hbefore : ∀ link ∈ place.before, .prefixOp ≤ link.precedence := by
        intro link hmem
        have hless := place.isFirst hpower link hmem
        rw [hpower] at hless
        exact hless
      have hafter : ∀ link ∈ place.after, .exponent ≤ link.precedence := hpower ▸ place.after_le
      rw [hop]
      exact .power hchosen (ihleft (Nat.le_refl _) hbefore hleft) (ihright (by decide) hafter hright)
    · have hop : place.chosen.op ≠ .power := fun hop => hpower (Link.precedence_eq_exponent_iff.2 hop)
      have htighter := place.chosen.precedence.rank_tighter
      have hafter : ∀ link ∈ place.after, place.chosen.precedence.tighter ≤ link.precedence := by
        intro link hmem
        have hless := place.isLast hpower link hmem
        simp only [Precedence.lt_def, Precedence.le_def] at hless ⊢
        omega
      have hlevel : place.chosen.precedence ≤ .prefixOp := Nat.le_trans hexponent (by decide)
      have hlevel' : place.chosen.precedence.tighter ≤ .prefixOp := by
        simp only [Precedence.le_def, Precedence.ranks]
        omega
      exact .binary hchosen hop (ihleft hlevel place.before_le hleft) (ihright hlevel' hafter hright)

/-! ### Room -/

/-- The tree has nothing but operators, names and literals. -/
def Tree.isPlain : Tree → Bool
  | .literal _ | .identifier _ => true
  | .binary _ left right => left.isPlain && right.isPlain
  | .unary _ operand => operand.isPlain
  | _ => false

theorem Operand.isPlain_tree (operand : Operand) : operand.tree.isPlain = true := by
  have hbehind : ∀ (behind : List { op : UnaryOp // op.isBehind = true }) (tree : Tree), tree.isPlain = true →
      (behind.foldl (fun tree op => Tree.unary op.1 tree) tree).isPlain = true := by
    intro behind
    induction behind with
    | nil => exact fun _ hplain => hplain
    | cons op behind ih => exact fun tree hplain => ih (.unary op.1 tree) hplain
  have hatom : operand.atom.tree.isPlain = true := by
    cases operand.atom <;> rfl
  rw [tree]
  induction operand.before with
  | nil => exact hbehind operand.behind operand.atom.tree hatom
  | cons op before ih => exact ih

theorem Chain.isPlain_tree (chain : Chain) : chain.tree.isPlain = true := by
  fun_induction tree chain with
  | case1 first => exact first.isPlain_tree
  | case2 first link rest ihleft ihright => simp [Tree.isPlain, ihleft, ihright]

mutual

theorem Grammar.Primary.levels_le_of_isPlain {n : Nat} {ts : List Terminal} {tree : Tree} :
    Primary n ts tree → tree.isPlain = true → tree.levels ≤ n
  | .literal _, _ | .name, _ => by simp
  | .group hexpr, hplain => Nat.le_succ_of_le (hexpr.levels_le_of_isPlain hplain)
  | .builtin _, hplain | .sizeOf _, hplain | .unsafeBlock _, hplain | .cast _ _, hplain =>
    by simp [Tree.isPlain] at hplain

/-- Without calls and blocks there are as many levels in the tree as nest, or fewer. -/
theorem Grammar.Expr.levels_le_of_isPlain {n : Nat} {p : Precedence} {ts : List Terminal} {tree : Tree} :
    Expr n p ts tree → tree.isPlain = true → tree.levels ≤ n
  | .primary hprimary, hplain => hprimary.levels_le_of_isPlain hplain
  | .before _ hop hoperand, hplain => by
    have hoperand := hoperand.levels_le_of_isPlain hplain
    rw [Tree.levels_before hop]
    omega
  | .behind hop hoperand, hplain => by
    have hoperand := hoperand.levels_le_of_isPlain hplain
    rwa [Tree.levels_behind hop]
  | .binary _ _ hleft hright, hplain | .power _ hleft hright, hplain => by
    simp only [Tree.isPlain, Bool.and_eq_true] at hplain
    have hleft := hleft.levels_le_of_isPlain hplain.1
    have hright := hright.levels_le_of_isPlain hplain.2
    rw [Tree.levels_binary]
    omega
  | .call _ _, hplain | .assign _ _ _, hplain | .ternary _ _ _ _, hplain => by simp [Tree.isPlain] at hplain

end

/-! ### The parser on a chain -/

theorem Cursor.reads_map_terminal {tokens : List Token} (rest : List Token) (endToken : Token)
    (hend : endToken.isEnd = true) (hlive : ∀ token ∈ tokens, token.isEnd = false) :
    (Cursor.mk (tokens ++ rest) endToken hend).Reads (tokens.map Token.terminal) ⟨rest, endToken, hend⟩ :=
  reads_iff_append.2 ⟨tokens, rfl, rfl, rfl, hlive⟩

namespace Chain

variable (chain : Chain)

theorem live_terminals : ∀ t ∈ chain.terminals, t.kind ≠ .endOfInput := by
  have hatom : ∀ atom : Atom, atom.terminal.kind ≠ .endOfInput := by
    intro atom
    cases atom with
    | name text => exact nofun
    | literal terminal value hvalue => exact hvalue.kind_ne_endOfInput
  have hoperand : ∀ operand : Operand, ∀ t ∈ operand.terminals, t.kind ≠ .endOfInput := by
    intro operand t hmem
    simp only [Operand.terminals, Operand.coreTerminals, List.mem_append, List.mem_cons, List.mem_map] at hmem
    obtain ⟨_, _, rfl⟩ | rfl | ⟨_, _, rfl⟩ := hmem
    · exact nofun
    · exact hatom operand.atom
    · exact nofun
  intro t hmem
  simp only [terminals, List.mem_append, List.mem_flatMap, Link.terminals, List.mem_cons] at hmem
  obtain hmem | ⟨link, _, rfl | hmem⟩ := hmem
  · exact hoperand chain.first t hmem
  · exact nofun
  · exact hoperand link.operand t hmem

/-- With room for the levels of the tree, the parser gives the tree and stops behind the chain. -/
theorem expr_eq_ok {limit room : Nat} {cursor after : Cursor} (hreads : cursor.Reads chain.terminals after)
    (hnext : after.current.kind.precedence = .lowest) (hroom : chain.tree.levels ≤ room) :
    (Nested.withRoom limit room).expr .lowest cursor = .ok chain.tree after := by
  have haccepts := (Nested.withRoom_follows limit room).expr .lowest (by decide) _ cursor rfl
  have hlinks : ∀ link ∈ chain.links, Precedence.lowest.tighter ≤ link.precedence :=
    fun link _ => comma_le_binary link.op
  have hstop : after.current.kind.precedence ≤ .lowest := by
    rw [hnext]
    exact Nat.le_refl _
  exact (haccepts _ _).2 ⟨_, hreads, chain.expr (by decide) hlinks hroom, hstop⟩

/-- Without that room it refuses the chain for its depth. -/
theorem expr_eq_tooDeep {limit room : Nat} {cursor after : Cursor}
    (hreads : cursor.Reads chain.terminals after) (hnext : after.current.kind.precedence = .lowest)
    (hroom : room < chain.tree.levels) :
    ∃ fault stop, (Nested.withRoom limit room).expr .lowest cursor = .error fault stop ∧
      fault.IsTooDeep limit := by
  have hwithin := Nested.withRoom_within (Nat.le_of_lt hroom) limit limit
  obtain hsame | hdeep := hwithin.expr .lowest cursor
  · rw [chain.expr_eq_ok hreads hnext (Nat.le_refl _)] at hsame
    obtain ⟨ts, _, hexpr, _⟩ :=
      ((Nested.withRoom_follows limit room).expr .lowest (by decide) _ cursor rfl _ _).1 hsame
    have hlevels := hexpr.levels_le_of_isPlain chain.isPlain_tree
    omega
  · exact hdeep

/-- The parser of expressions gives a chain of any length the tree that comes from splitting it, and
stops right behind it, if a token follows that cannot go on with an expression and there is room for
the levels of the tree. Otherwise the chain is refused for its depth. -/
theorem parses_as_split (limit room : Nat) {tokens rest : List Token} {endToken : Token}
    {hend : endToken.isEnd = true} (htokens : tokens.map Token.terminal = chain.terminals)
    (hnext : (Cursor.mk rest endToken hend).current.kind.precedence = .lowest) :
    if chain.tree.levels ≤ room then
      (Nested.withRoom limit room).expr .lowest ⟨tokens ++ rest, endToken, hend⟩ = .ok chain.tree
        ⟨rest, endToken, hend⟩
    else ∃ fault stop, (Nested.withRoom limit room).expr .lowest ⟨tokens ++ rest, endToken, hend⟩ =
      .error fault stop ∧
      fault.IsTooDeep limit := by
  have hlive : ∀ token ∈ tokens, token.isEnd = false := by
    intro token hmem
    have hterminal : token.terminal ∈ chain.terminals := htokens ▸ List.mem_map_of_mem hmem
    exact beq_eq_false_iff_ne.2 (chain.live_terminals _ hterminal)
  have hreads := Cursor.reads_map_terminal rest endToken hend hlive
  rw [htokens] at hreads
  split
  · next hroom => exact chain.expr_eq_ok hreads hnext hroom
  · next hroom => exact chain.expr_eq_tooDeep hreads hnext (Nat.lt_of_not_le hroom)

/-- The chain `-a++**b**c-d-true`. -/
def sample : Chain :=
  ⟨⟨[⟨.negate, rfl⟩], .name "a", [⟨.postIncrement, rfl⟩]⟩,
    [⟨.power, ⟨[], .name "b", []⟩⟩, ⟨.power, ⟨[], .name "c", []⟩⟩, ⟨.subtract, ⟨[], .name "d", []⟩⟩,
      ⟨.subtract, ⟨[], .literal _ _ .true, []⟩⟩]⟩

theorem tree_sample : sample.tree =
    .binary .subtract
      (.binary .subtract
        (.binary .power (.unary .negate (.unary .postIncrement (.identifier "a")))
          (.binary .power (.identifier "b") (.identifier "c")))
        (.identifier "d"))
      (.literal (.bool true)) := by
  cbv

def sampleTokens : List Token :=
  [⟨.mark .minus, "-", ⟨0, 1, 1⟩⟩, ⟨.identifier, "a", ⟨1, 1, 2⟩⟩, ⟨.mark .increment, "++", ⟨2, 1, 3⟩⟩,
    ⟨.mark .power, "**", ⟨4, 1, 5⟩⟩, ⟨.identifier, "b", ⟨6, 1, 7⟩⟩, ⟨.mark .power, "**", ⟨7, 1, 8⟩⟩,
    ⟨.identifier, "c", ⟨9, 1, 10⟩⟩, ⟨.mark .minus, "-", ⟨10, 1, 11⟩⟩, ⟨.identifier, "d", ⟨11, 1, 12⟩⟩,
    ⟨.mark .minus, "-", ⟨12, 1, 13⟩⟩, ⟨.keyword .trueWord, "true", ⟨13, 1, 14⟩⟩]

/-- What stands behind the chain. -/
def sampleStop : Cursor := .ofTokens [⟨.mark .semicolon, ";", ⟨17, 1, 18⟩⟩, .endOfInput ⟨18, 1, 19⟩]

theorem parses_as_split_sample :
    sampleTokens.map Token.terminal = sample.terminals ∧ sampleStop.current.kind.precedence = .lowest ∧
      (Nested.withRoom maxDepth maxDepth).expr .lowest
          { sampleStop with rest := sampleTokens ++ sampleStop.rest } =
        .ok sample.tree sampleStop := by
  have htokens : sampleTokens.map Token.terminal = sample.terminals := rfl
  have hnext : sampleStop.current.kind.precedence = .lowest := rfl
  have hroom : sample.tree.levels ≤ maxDepth := by
    rw [tree_sample]
    decide
  have hparses := sample.parses_as_split maxDepth maxDepth htokens hnext
  rw [if_pos hroom] at hparses
  exact ⟨htokens, hnext, hparses⟩

end Chain

end ObsidianSyntax
