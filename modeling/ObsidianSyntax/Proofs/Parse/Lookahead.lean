import ObsidianSyntax.Proofs.Depth.Kept
import ObsidianSyntax.Proofs.Fault.Earliest

/-!
# How far ahead the parser looks

What an expression or a statement is read as depends on its tokens and on the kind of the one token
behind them. Where two names in a row start a declaration both belong to it, and a second branch is
looked for at the token behind the first one. So behind the token that follows, the tokens can be
exchanged for any others, and the same is read.

The reason is that a parser accepts a language, and a language is told the kind of the next token
and nothing more.
-/

namespace ObsidianSyntax

namespace Cursor

variable {before rest : List Token} {after : Cursor} {ts : List Terminal}

theorem Reads.eq_of_rest_eq (hreads : (ofTokens (before ++ rest)).Reads ts after)
    (hrest : after.rest = rest) :
    before.map Token.terminal = ts ∧ ∀ token ∈ before, token.isEnd = false := by
  obtain ⟨read, hsplit, _, hterminals, hlive⟩ := reads_iff_append.1 hreads
  obtain rfl : before = read := List.append_cancel_right (hsplit.trans (by rw [hrest]))
  exact ⟨hterminals, hlive⟩

theorem reads_ofTokens_append (hlive : ∀ token ∈ before, token.isEnd = false) (rest : List Token) :
    ∃ after, (ofTokens (before ++ rest)).Reads (before.map Token.terminal) after ∧ after.rest = rest ∧
      after.StandsAt (before ++ rest) before.length := by
  let after : Cursor := ⟨rest, _, isEnd_endOf (before ++ rest)⟩
  have hreads : (ofTokens (before ++ rest)).Reads (before.map Token.terminal) after :=
    reads_iff_append.2 ⟨before, rfl, rfl, rfl, hlive⟩
  exact ⟨after, hreads, rfl, by rw [List.drop_left], rfl, by simp, by simpa using hlive⟩

end Cursor

/-- Of what a parser accepts nothing is known but the terminals and the kind of the next token. -/
theorem Parse.Accepts.eq_ok_of_reads {α : Type} {parse : Parse α} {language : Language α}
    (haccepts : parse.Accepts language) {cursor after : Cursor} {value : α}
    (hok : parse cursor = .ok value after) :
    ∃ ts, cursor.Reads ts after ∧ ∀ cursor' after' : Cursor, cursor'.Reads ts after' →
      after'.current.kind = after.current.kind → parse cursor' = .ok value after' := by
  obtain ⟨ts, hreads, hlanguage⟩ := (haccepts _ cursor rfl value after).1 hok
  refine ⟨ts, hreads, fun cursor' after' hreads' hkind => ?_⟩
  exact (haccepts _ cursor' rfl value after').2 ⟨ts, hreads', hkind ▸ hlanguage⟩

namespace Nested

theorem exists_accepts_answer (limit room : Nat) (request : Request) :
    ∃ language, ((withRoom limit room).answer request).Accepts language := by
  cases room with
  | zero =>
    rw [answer_withRoom_zero]
    exact ⟨_, fun kind => .none fun _ _ _ _ => Parse.failHere_ne_ok⟩
  | succ room =>
    have hfollows := withRoom_follows limit room
    cases request with
    | expression precedence => exact ⟨_, Parse.expression_accepts_climbs hfollows precedence⟩
    | statement => exact ⟨_, Parse.statement_accepts hfollows⟩

/-- If an expression or a statement is read from the start of a list up to a token, whatever levels
are left, then in front of that token the same is read from every list that goes on differently
behind it. -/
theorem next_token_decides (limit room : Nat) (request : Request) {before rest : List Token}
    {next : Token} {tree : Tree} {after : Cursor}
    (hok : (withRoom limit room).answer request (.ofTokens (before ++ next :: rest)) = .ok tree after)
    (hrest : after.rest = next :: rest) (rest' : List Token) :
    ∃ after', (withRoom limit room).answer request (.ofTokens (before ++ next :: rest')) = .ok tree after' ∧
      after'.StandsAt (before ++ next :: rest') before.length := by
  obtain ⟨language, haccepts⟩ := exists_accepts_answer limit room request
  obtain ⟨ts, hreads, hsame⟩ := haccepts.eq_ok_of_reads hok
  obtain ⟨rfl, hlive⟩ := hreads.eq_of_rest_eq hrest
  obtain ⟨after', hreads', hrest', hstands'⟩ := Cursor.reads_ofTokens_append hlive (next :: rest')
  have hnext : after'.current.kind = after.current.kind := by simp [Cursor.current, Cursor.peek,
    hrest, hrest']
  exact ⟨after', hsame _ after' hreads' hnext, hstands'⟩

theorem next_token_decides_choice :
    let choice : List Token := [⟨.keyword .ifWord, "if", ⟨0, 1, 1⟩⟩,
      ⟨.mark .leftParen, "(", ⟨3, 1, 4⟩⟩, ⟨.identifier, "x", ⟨4, 1, 5⟩⟩,
      ⟨.mark .rightParen, ")", ⟨5, 1, 6⟩⟩, ⟨.keyword .returnWord, "return", ⟨7, 1, 8⟩⟩,
      ⟨.mark .semicolon, ";", ⟨13, 1, 14⟩⟩]
    let next : Token := ⟨.mark .semicolon, ";", ⟨14, 1, 15⟩⟩
    let tree : Tree := .ifElse (.identifier "x") (.returnStmt none) none
    ∀ rest ∈ [[], [⟨.keyword .elseWord, "else", ⟨16, 1, 17⟩⟩]],
      ∃ after, (withRoom maxDepth 2).answer .statement (.ofTokens (choice ++ next :: rest)) = .ok tree after ∧
        after.StandsAt (choice ++ next :: rest) choice.length := by
  intro choice next tree rest _
  let start : Cursor := .ofTokens (choice ++ next :: [])
  let behind : Cursor := .ofTokens (choice.drop 4 ++ [next])
  have hcondition : Parse.condition (withRoom maxDepth 1) .ifWord start = .ok (.identifier "x") behind := rfl
  have hbranch : (withRoom maxDepth 1).stmt behind = .ok (.returnStmt none) (.ofTokens [next]) := rfl
  have hok : Parse.statement (withRoom maxDepth 1) start = .ok tree (.ofTokens [next]) := by
    have hword : start.current.kind = .keyword .ifWord := rfl
    rw [Parse.statement_eq, hword]
    show Parse.ifElse (withRoom maxDepth 1) start = _
    rw [Parse.ifElse, Parse.bind_of_ok hcondition, Parse.bind_of_ok hbranch]
    rfl
  exact next_token_decides maxDepth 2 .statement hok rfl rest

end Nested

end ObsidianSyntax
