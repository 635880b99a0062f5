import ObsidianSyntax.Proofs.Depth.Planned
import ObsidianSyntax.Proofs.Fault.Earliest
import ObsidianSyntax.Proofs.Tree.Parts

/-!
# How large parsed trees are

A tree has as many nodes as its parts and one more. None of them is free: every node is made where
at least one token is read that no other node is made for, and where two are made at once, as for a
function and the block of its body, there are tokens for both. So a parsed tree has at most as many
nodes as tokens were read for it, and a program one more, for the block around its statements.
-/

namespace ObsidianSyntax

open Grammar

/-! ### Sizes of derivations -/

namespace Grammar

open ObsidianSyntax.Tree (nodeCount countAll countOption)

mutual

theorem Primary.nodeCount_le {n : Nat} {ts : List Terminal} {tree : Tree} :
    Primary n ts tree → tree.nodeCount ≤ ts.length
  | .literal _ | .name | .sizeOf _ => by simp [nodeCount]
  | .group hexpr | .builtin hexpr | .cast _ hexpr => by
    have hpart := hexpr.nodeCount_le
    simp only [nodeCount, List.length_cons, List.length_append]
    omega
  | .unsafeBlock hbody => by
    have hbody := hbody.countAll_le
    simp only [nodeCount, List.length_cons, List.length_append]
    omega

/-- An operator is a token, and so are the parentheses of a call. -/
theorem Expr.nodeCount_le {n : Nat} {p : Precedence} {ts : List Terminal} {tree : Tree} :
    Expr n p ts tree → tree.nodeCount ≤ ts.length
  | .primary hprimary => hprimary.nodeCount_le
  | .before _ _ hoperand | .behind _ hoperand => by
    have hoperand := hoperand.nodeCount_le
    simp only [nodeCount, List.length_cons, List.length_append]
    omega
  | .call _ harguments => by
    have harguments := harguments.countAll_le
    simp only [nodeCount, List.length_cons, List.length_append]
    omega
  | .binary _ _ hleft hright | .power _ hleft hright => by
    have hleft := hleft.nodeCount_le
    have hright := hright.nodeCount_le
    simp only [nodeCount, List.length_cons, List.length_append]
    omega
  | .assign _ _ hvalue => by
    have hvalue := hvalue.nodeCount_le
    simp only [nodeCount, List.length_cons, List.length_append]
    omega
  | .ternary _ hcondition hconsequent halternative => by
    have hcondition := hcondition.nodeCount_le
    have hconsequent := hconsequent.nodeCount_le
    have halternative := halternative.nodeCount_le
    simp only [nodeCount, List.length_cons, List.length_append]
    omega

theorem Args.countAll_le {n : Nat} {ts : List Terminal} {arguments : List Tree} :
    Args n ts arguments → countAll arguments ≤ ts.length
  | .none => Nat.le_refl _
  | .some harguments => harguments.countAll_le

theorem Exprs.countAll_le {n : Nat} {ts : List Terminal} {arguments : List Tree} :
    Exprs n ts arguments → countAll arguments ≤ ts.length
  | .one hexpr => hexpr.nodeCount_le
  | .cons hexpr hrest => by
    have hexpr := hexpr.nodeCount_le
    have hrest := hrest.countAll_le
    simp only [countAll, List.length_cons, List.length_append]
    omega

theorem Clause.countOption_le {n : Nat} {ts : List Terminal} {value : Option Tree} :
    Clause n ts value → countOption value ≤ ts.length
  | .none => Nat.le_refl _
  | .some hexpr => hexpr.nodeCount_le

/-- The word of a statement, or the semicolon behind it, is a token for the node, and the braces of
a function are two for its block. -/
theorem Stmt.nodeCount_le {n : Nat} {isOpen : Bool} {ts : List Terminal} {tree : Tree} :
    Stmt n isOpen ts tree → tree.nodeCount ≤ ts.length
  | .block hbody | .functionDef _ _ hbody => by
    have hbody := hbody.countAll_le
    simp only [nodeCount, List.length_cons, List.length_append]
    omega
  | .declaration _ => by simp [nodeCount, countOption]
  | .initialized _ hvalue => by
    have hvalue := hvalue.nodeCount_le
    simp only [nodeCount, countOption, List.length_cons, List.length_append]
    omega
  | .ifThen hcondition hconsequent => by
    have hcondition := hcondition.nodeCount_le
    have hconsequent := hconsequent.nodeCount_le
    simp only [nodeCount, countOption, List.length_cons, List.length_append]
    omega
  | .ifElse hcondition hconsequent halternative => by
    have hcondition := hcondition.nodeCount_le
    have hconsequent := hconsequent.nodeCount_le
    have halternative := halternative.nodeCount_le
    simp only [nodeCount, countOption, List.length_cons, List.length_append]
    omega
  | .whileLoop hcondition hbody => by
    have hcondition := hcondition.nodeCount_le
    have hbody := hbody.nodeCount_le
    simp only [nodeCount, List.length_cons, List.length_append]
    omega
  | .forLoop hstart hcondition hstep hbody => by
    have hstart := hstart.countOption_le
    have hcondition := hcondition.countOption_le
    have hstep := hstep.countOption_le
    have hbody := hbody.nodeCount_le
    simp only [nodeCount, List.length_cons, List.length_append]
    omega
  | .returnStmt hvalue => by
    have hvalue := hvalue.countOption_le
    simp only [nodeCount, List.length_cons, List.length_append]
    omega
  | .println hexpr | .expression _ hexpr => by
    have hexpr := hexpr.nodeCount_le
    simp only [nodeCount, List.length_cons, List.length_append]
    omega

theorem Stmts.countAll_le {n : Nat} {ts : List Terminal} {body : List Tree} :
    Stmts n ts body → countAll body ≤ ts.length
  | .nil => Nat.le_refl _
  | .cons hstmt hrest => by
    have hstmt := hstmt.nodeCount_le
    have hrest := hrest.countAll_le
    simp only [countAll, List.length_append]
    omega

end

end Grammar

/-! ### Sizes of what is read -/

variable {cursor after : Cursor} {tree : Tree}

namespace Nested

/-- However many levels may nest, an expression or a statement has no more nodes than terminals are
read for it. -/
theorem exists_reads_of_answer {limit room : Nat} {request : Request}
    (hok : (withRoom limit room).answer request cursor = .ok tree after) :
    ∃ ts, cursor.Reads ts after ∧ tree.nodeCount ≤ ts.length := by
  cases room with
  | zero =>
    rw [answer_withRoom_zero] at hok
    exact absurd hok Parse.failHere_ne_ok
  | succ room =>
    have hfollows := withRoom_follows limit
    cases request with
    | expression precedence =>
      obtain ⟨ts, hreads, hexpr, _⟩ := Parse.expr_of_expression (hfollows room) hok
      exact ⟨ts, hreads, hexpr.nodeCount_le⟩
    | statement =>
      obtain ⟨ts, hreads, isOpen, hstmt, _⟩ := ((hfollows (room + 1)).stmt _ cursor rfl tree after).1 hok
      exact ⟨ts, hreads, hstmt.nodeCount_le⟩

end Nested

namespace Parse

/-- Wherever a program is parsed from, its tree has at most one node more than there are tokens left
that are not the end of the input. And wherever an expression or a statement is, and however many
levels may nest, its tree has at most as many nodes as tokens are read for it. -/
theorem parsed_nodeCount_le :
    (∀ limit cursor tree after, program limit cursor = .ok tree after →
      tree.nodeCount ≤ cursor.rest.countP (fun token => !token.isEnd) + 1) ∧
    ∀ limit room request cursor tree after, (Nested.withRoom limit room).answer request cursor =
      .ok tree after →
      ∃ read, cursor.rest = read ++ after.rest ∧ tree.nodeCount ≤ read.length := by
  refine ⟨fun limit cursor tree after hok => ?_, fun limit room request cursor tree after hok => ?_⟩
  · have haccepts := programWith_accepts (Nested.withRoom_follows limit limit)
    obtain ⟨ts, hreads, body, ⟨hstmts, _⟩, rfl⟩ := (haccepts _ cursor rfl tree after).1 hok
    obtain ⟨read, hrest, _, rfl, hlive⟩ := Cursor.reads_iff_append.1 hreads
    have hbody := hstmts.countAll_le
    have hread : read.countP (fun token => !token.isEnd) = read.length :=
      List.countP_eq_length.2 (by simpa using hlive)
    rw [hrest, List.countP_append, hread]
    rw [List.length_map] at hbody
    simp only [Tree.nodeCount]
    omega
  · obtain ⟨ts, hreads, hle⟩ := Nested.exists_reads_of_answer hok
    obtain ⟨read, hrest, _, rfl, _⟩ := Cursor.reads_iff_append.1 hreads
    exact ⟨read, hrest, by simpa using hle⟩

theorem parsed_nodeCount_le_sum :
    let cursor := Cursor.ofTokens [⟨.identifier, "x", ⟨0, 1, 1⟩⟩, ⟨.mark .plus, "+", ⟨2, 1, 3⟩⟩,
      ⟨.identifier, "y", ⟨4, 1, 5⟩⟩, ⟨.mark .semicolon, ";", ⟨5, 1, 6⟩⟩]
    let sum : Tree := .binary .add (.identifier "x") (.identifier "y")
    (∃ after, program maxDepth cursor = .ok (.block [sum]) after ∧
      (Tree.block [sum]).nodeCount ≤ cursor.rest.countP (fun token => !token.isEnd) + 1) ∧
    ∃ after, (Nested.withRoom maxDepth maxDepth).answer (.expression .lowest) cursor = .ok sum after ∧
      ∃ read, cursor.rest = read ++ after.rest ∧ sum.nodeCount ≤ read.length := by
  intro cursor sum
  have hprogram : program maxDepth cursor = .ok (.block [sum]) ⟨[], .endOfInput ⟨6, 1, 7⟩, rfl⟩ := by rfl
  have hsum : (Nested.withRoom maxDepth maxDepth).answer (.expression .lowest) cursor =
      .ok sum ⟨[⟨.mark .semicolon, ";", ⟨5, 1, 6⟩⟩], .endOfInput ⟨6, 1, 7⟩, rfl⟩ := by rfl
  exact ⟨⟨_, hprogram, parsed_nodeCount_le.1 _ _ _ _ hprogram⟩, _, hsum,
    parsed_nodeCount_le.2 _ _ _ _ _ _ hsum⟩

end Parse

end ObsidianSyntax
