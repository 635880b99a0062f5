import ObsidianSyntax.Proofs.Place.Lines

/-!
# The plain form points at the place

The plain form finds the line of the source by its bytes and takes the number of that line and the
caret's column from the diagnostic. For every diagnostic that a source gives rise to the two agree:
the line shown is the one with that number, and the caret stands under the character at which the
span starts. Messages and hints are one line each, so the form has as many lines as it has parts.
-/

namespace ObsidianSyntax

open Lexer (Reports)

/-! ### Texts of one line -/

/-- The text has no line feed. -/
def IsOneLine (text : String) : Prop := '\n' ∉ text.toList

theorem IsOneLine.append {text other : String} (htext : IsOneLine text) (hother : IsOneLine other) :
    IsOneLine (text ++ other) := by
  simpa [IsOneLine] using ⟨htext, hother⟩

theorem IsOneLine.of_chars {text : List Char} (htext : '\n' ∉ text) : IsOneLine (String.ofList text) := by
  simpa [IsOneLine]

theorem isDigit_of_mem_repr {n : Nat} {c : Char} (hmem : c ∈ n.repr.toList) : c.isDigit = true := by
  rw [Nat.toList_repr] at hmem
  exact Nat.isDigit_of_mem_toDigits (by decide) (by decide) hmem

theorem isOneLine_repr (n : Nat) : IsOneLine n.repr :=
  fun hmem => absurd (isDigit_of_mem_repr hmem) (by decide)

theorem Expectation.isOneLine_wording (expectation : Expectation) : IsOneLine expectation.wording := by
  have hword : ∀ word : Keyword, IsOneLine word.spelling := by
    intro word
    cases word <;> exact .of_chars (by decide)
  cases expectation with
  | openAfter word | closeBuiltin word | closeCondition word =>
    exact .append (.append (.of_chars (by decide)) (hword word)) (.of_chars (by decide))
  | _ => exact .of_chars (by decide)

theorem Token.isOneLine_describe {token : Token} (hlexeme : IsOneLine token.lexeme) :
    IsOneLine token.describe := by
  obtain ⟨kind, lexeme, place⟩ := token
  cases kind with
  | endOfInput => exact .of_chars (by decide)
  | intLiteral | floatLiteral | stringLiteral | charLiteral => exact .append (.of_chars (by decide)) hlexeme
  | _ => exact .append (.append (.of_chars (by decide)) hlexeme) (.of_chars (by decide))

theorem Cause.isOneLine_message (cause : Cause) {token : Token} (hlexeme : IsOneLine token.lexeme) :
    IsOneLine (cause.message token) := by
  have hdescribe := Token.isOneLine_describe hlexeme
  cases cause with
  | missing expectation =>
    exact .append (.append expectation.isOneLine_wording (.of_chars (by decide))) hdescribe
  | noExpression | noType => exact .append (.of_chars (by decide)) hdescribe
  | emptyGroup | notAssignable | notCallable => exact .of_chars (by decide)
  | integerTooLarge | malformedFloat =>
    exact .append (.append (.of_chars (by decide)) hlexeme) (.of_chars (by decide))
  | malformedChar => exact .append (.of_chars (by decide)) hlexeme
  | notAnOperator => exact .append (.append (.of_chars (by decide)) hdescribe) (.of_chars (by decide))
  | tooDeep construct limit =>
    have htitle : IsOneLine construct.title := by cases construct <;> exact .of_chars (by decide)
    exact .append htitle (.of_chars (by decide))

theorem Cause.isOneLine_help (cause : Cause) : ∀ hint, cause.help = some hint → IsOneLine hint := by
  cases cause with
  | missing expectation => cases expectation <;> rintro _ ⟨⟩ <;> exact .of_chars (by decide)
  | tooDeep construct limit =>
    rintro _ ⟨⟩
    exact .append (.append (.of_chars (by decide)) (isOneLine_repr limit)) (.of_chars (by decide))
  | _ => rintro _ ⟨⟩ <;> exact .of_chars (by decide)

theorem Fault.isOneLine_help (fault : Fault) : ∀ hint, fault.help = some hint → IsOneLine hint := by
  intro hint hhelp
  unfold help at hhelp
  cases hcause : fault.cause.help with
  | some hint' =>
    rw [hcause] at hhelp
    cases hhelp
    exact fault.cause.isOneLine_help _ hcause
  | none =>
    rw [hcause] at hhelp
    cases hop : fault.operator with
    | none => simp [hop] at hhelp
    | some op =>
      obtain rfl : _ = hint := by simpa [hop] using hhelp
      have hsymbol : IsOneLine op.symbol := by cases op <;> exact .of_chars (by decide)
      exact .append (.append (.of_chars (by decide)) hsymbol) (.of_chars (by decide))

theorem Broken.isOneLine_message {text piece : List Char} {fault : LexicalFault}
    (hbroken : Broken text piece fault) (hpiece : '\n' ∉ piece) : IsOneLine fault.message := by
  cases hbroken with
  | unexpected =>
    exact .append (.append (.of_chars (by decide)) (by simpa [IsOneLine] using hpiece))
      (.of_chars (by decide))
  | _ => exact .of_chars (by decide)

/-! ### Diagnostics of a source -/

/-- The diagnostic is one of those that a source gives rise to, when its tokens are listed or it is parsed. -/
def Diagnostic.IsOf (source : String) (diagnostic : Diagnostic) : Prop :=
  diagnostic ∈ (listTokens source).2 ∨ parseSource source = .error diagnostic

variable {source : String} {diagnostic : Diagnostic}

theorem Diagnostic.IsOf.standsIn (hof : diagnostic.IsOf source) : diagnostic.StandsIn source := by
  obtain hmem | herror := hof
  · exact (reports_of_mem_scan diagnostic hmem).standsIn
  · exact parseSource_standsIn herror

theorem Diagnostic.IsOf.isOneLine (hof : diagnostic.IsOf source) :
    IsOneLine diagnostic.message ∧ ∀ hint, diagnostic.help = some hint → IsOneLine hint := by
  have hreports : Reports source diagnostic →
      IsOneLine diagnostic.message ∧ ∀ hint, diagnostic.help = some hint → IsOneLine hint := by
    rintro ⟨_, _, _, fault, _, htakes, hbroken, rfl⟩
    exact ⟨hbroken.isOneLine_message htakes.newline_not_mem, fun hint hhelp => by cases hhelp⟩
  obtain hmem | herror := hof
  · exact hreports (reports_of_mem_scan diagnostic hmem)
  · obtain hlexical | ⟨fault, rfl, hhands⟩ := exists_fault_of_parseSource herror
    · exact hreports hlexical
    · obtain ⟨_, _, hcovers, _⟩ := hhands.standsIn
      exact ⟨fault.cause.isOneLine_message hcovers.newline_not_mem, fault.isOneLine_help⟩

/-! ### The line and the caret -/

/-- What stands before the line of the source. -/
def Diagnostic.gutter (diagnostic : Diagnostic) : String := "    " ++ diagnostic.line.repr ++ " | "

/-- What stands before the indent of the caret. -/
def Diagnostic.margin (diagnostic : Diagnostic) : String :=
  "    " ++ String.ofList (List.replicate diagnostic.line.repr.length ' ') ++ " | "

/-- `shown` is the line of the source that the diagnostic names by its number, and the caret of
`pointer` stands in the diagnostic's column, under the character at which the span starts. -/
structure PointsAt (source : String) (diagnostic : Diagnostic) (shown pointer : String)
    (content indent : List Char) : Prop where
  /-- Only a line feed ends a line. -/
  line_eq : 1 ≤ diagnostic.line ∧ (source.toList.splitOn '\n')[diagnostic.line - 1]? = some content
  /-- All of the line is shown but the carriage returns at its end. -/
  shown_eq : ∃ text returns, content = text ++ List.replicate returns '\r' ∧ text.getLast? ≠ some '\r' ∧
    shown = diagnostic.gutter ++ String.ofList text
  pointer_eq : ∃ margin, margin.length = diagnostic.gutter.length ∧
    pointer = margin ++ String.ofList indent ++ "^"
  length_indent : 1 ≤ diagnostic.column ∧ indent.length = diagnostic.column - 1
  tab_iff : ∀ i < diagnostic.column - 1, indent[i]? = some '\t' ↔ content[i]? = some '\t'
  /-- The character at the start of the span, if there is one, stands as far from the front as the caret. -/
  under : ∀ before c after, source.toList = before ++ c :: after →
    (String.ofList before).utf8ByteSize = diagnostic.span.start →
    shown.toList[diagnostic.gutter.length + (diagnostic.column - 1)]? = some c
  caret : pointer.toList[diagnostic.gutter.length + (diagnostic.column - 1)]? = some '^'

theorem newline_not_mem_lastLine (text : List Char) : '\n' ∉ lastLine text := by
  intro hmem
  rw [lastLine, List.mem_reverse] at hmem
  exact absurd (List.mem_takeWhile_imp hmem) (by decide)

theorem newline_not_mem_firstLine (text : List Char) : '\n' ∉ firstLine text := by
  intro hmem
  rw [firstLine] at hmem
  exact absurd (List.mem_takeWhile_imp hmem) (by decide)

/-- Trimming a character takes a run of it off the end, and all of that run. -/
theorem dropTrailing_spec (c : Char) (text : List Char) :
    ∃ count, text = dropTrailing (· == c) text ++ List.replicate count c ∧
      (dropTrailing (· == c) text).getLast? ≠ some c := by
  have hsplit : text.reverse.takeWhile (· == c) ++ text.reverse.dropWhile (· == c) = text.reverse :=
    List.takeWhile_append_dropWhile
  refine ⟨(text.reverse.takeWhile (· == c)).length, ?_, ?_⟩
  · have hall : text.reverse.takeWhile (· == c) = List.replicate (text.reverse.takeWhile (· == c)).length c :=
      List.eq_replicate_iff.2 ⟨rfl, fun d hd => by simpa using List.mem_takeWhile_imp hd⟩
    rw [dropTrailing, ← List.reverse_replicate, ← hall, ← List.reverse_append, hsplit, List.reverse_reverse]
  · rw [dropTrailing, List.getLast?_reverse]
    intro hhead
    have hnot := List.head?_dropWhile_not (· == c) text.reverse
    rw [hhead] at hnot
    simp at hnot

/-- A character that is not blank ends no line and is not trimmed away. -/
theorem dropTrailing_line_cons {c : Char} (hc : isBlank c = false) (front rest : List Char) :
    dropTrailing (· == '\r') (front ++ firstLine (c :: rest)) = front ++ c :: dropTrailing
      (· == '\r') (firstLine rest) := by
  have hfirst : firstLine (c :: rest) = c :: firstLine rest := by
    have hne : c ≠ '\n' := fun heq => absurd (heq ▸ hc) (by decide)
    simp [firstLine, hne]
  have hkept : (c == '\r') = false := by
    simpa using fun heq : c = '\r' => absurd (heq ▸ hc) (by decide)
  rw [hfirst, @dropTrailing_append_cons (· == '\r') c hkept]

theorem getElem?_behind (margin : String) (front rest : List Char) (c : Char) :
    (margin ++ String.ofList (front ++ c :: rest)).toList[margin.length + front.length]? = some c := by
  rw [String.toList_append, String.toList_ofList, ← String.length_toList,
    List.getElem?_append_right (Nat.le_add_right _ _),
    Nat.add_sub_cancel_left, List.getElem?_append_right (Nat.le_refl _), Nat.sub_self,
    List.getElem?_cons_zero]

theorem pointsAt_of_standsIn (hstands : diagnostic.StandsIn source) :
    ∃ line, PointsAt source diagnostic (diagnostic.gutter ++ String.ofList (diagnostic.shownLine source))
      (diagnostic.margin ++ String.ofList (diagnostic.caretIndent source) ++ "^") line
        (diagnostic.caretIndent source) := by
  obtain ⟨before, inside, after, hcovers, hblank⟩ := hstands
  have htext : source.toList = before ++ (inside ++ after) := by rw [hcovers.text_eq, List.append_assoc]
  have hstart : diagnostic.span.start = (String.ofList before).utf8ByteSize := by rw [hcovers.span_eq]
  have hcut : cutAtByte diagnostic.span.start source.toList = (before, inside ++ after) := by
    rw [htext, hstart, cutAtByte_of_size]
  have hline := hcovers.line_eq
  have hcolumn := hcovers.column_eq
  have hlength : diagnostic.column - 1 = (lastLine before).length := by omega
  have hshown : diagnostic.shownLine source = dropTrailing (· == '\r')
      (lastLine before ++ firstLine (inside ++ after)) := by
    rw [Diagnostic.shownLine, hcut]
  have hindent : diagnostic.caretIndent source = (lastLine before).map fun c =>
      if c = '\t' then '\t' else ' ' := by
    rw [Diagnostic.caretIndent, hcut]
  have hmargin : diagnostic.margin.length = diagnostic.gutter.length := by
    simp [Diagnostic.gutter, Diagnostic.margin]
  refine ⟨lastLine before ++ firstLine (inside ++ after), ⟨by omega, ?_⟩, ?_, ⟨_, hmargin, rfl⟩,
    ⟨by omega, ?_⟩, ?_, ?_, ?_⟩
  · rw [htext, hline, Nat.add_sub_cancel_left, getElem?_splitOn_newline]
  · obtain ⟨returns, hreturns, hlast⟩ :=
      dropTrailing_spec '\r' (lastLine before ++ firstLine (inside ++ after))
    exact ⟨_, returns, hreturns, hlast, by rw [hshown]⟩
  · rw [hlength, hindent, List.length_map]
  · intro i hi
    rw [hlength] at hi
    rw [hindent, List.getElem?_map, List.getElem?_append_left hi, List.getElem?_eq_getElem hi,
      Option.map_some, Option.some.injEq, Option.some.injEq]
    split <;> simp_all
  · intro before' c rest hsource hsize
    obtain ⟨rfl, hrest⟩ : before' = before ∧ c :: rest = inside ++ after := by
      rw [← hsize, hsource, cutAtByte_of_size] at hcut
      exact Prod.mk.inj hcut
    have hsolid : isBlank c = false := hblank c (by simp [← hrest])
    rw [hshown, ← hrest, dropTrailing_line_cons hsolid, hlength, getElem?_behind]
  · have hcaret : "^" = String.ofList ['^'] := rfl
    rw [hindent, ← hmargin, hlength, String.append_assoc, hcaret, ← String.ofList_append]
    have hlast := getElem?_behind diagnostic.margin
      ((lastLine before).map fun c => if c = '\t' then '\t' else ' ') [] '^'
    rwa [List.length_map] at hlast

/-! ### Rows -/

theorem isOneLine_lastLine_firstLine (before after : List Char) :
    '\n' ∉ dropTrailing (· == '\r') (lastLine before ++ firstLine after) := by
  intro hmem
  obtain ⟨returns, hreturns, _⟩ := dropTrailing_spec '\r' (lastLine before ++ firstLine after)
  have hline : '\n' ∈ lastLine before ++ firstLine after := hreturns ▸ List.mem_append_left _ hmem
  exact (List.mem_append.1 hline).elim (newline_not_mem_lastLine before) (newline_not_mem_firstLine after)

theorem Diagnostic.isOneLine_shown (diagnostic : Diagnostic) (source : String) :
    IsOneLine (diagnostic.gutter ++ String.ofList (diagnostic.shownLine source)) :=
  .append (.append (.append (.of_chars (by decide)) (isOneLine_repr _)) (.of_chars (by decide)))
    (.of_chars (isOneLine_lastLine_firstLine _ _))

theorem Diagnostic.isOneLine_margin (diagnostic : Diagnostic) :
    IsOneLine ("    " ++ String.ofList (List.replicate diagnostic.line.repr.length ' ')) :=
  .append (.of_chars (by decide)) (.of_chars (by simp))

theorem Diagnostic.isOneLine_pointer (diagnostic : Diagnostic) (source : String) :
    IsOneLine (diagnostic.margin ++ String.ofList (diagnostic.caretIndent source) ++ "^") := by
  refine .append (.append (.append diagnostic.isOneLine_margin (.of_chars (by decide)))
    (.of_chars ?_)) (.of_chars (by decide))
  intro hmem
  obtain ⟨c, _, hc⟩ := List.mem_map.1 hmem
  split at hc <;> exact absurd hc (by decide)

theorem Diagnostic.isOneLine_headLine {filename : String} (hfile : IsOneLine filename)
    (hmessage : IsOneLine diagnostic.message) :
    IsOneLine (diagnostic.headLine filename) := by
  have htitle : IsOneLine diagnostic.kind.title := by cases diagnostic.kind <;> exact .of_chars (by decide)
  have hcolon : IsOneLine ":" := .of_chars (by decide)
  have hspaced : IsOneLine ": " := .of_chars (by decide)
  have hline := isOneLine_repr diagnostic.line
  have hcolumn := isOneLine_repr diagnostic.column
  exact .append (.append (.append (.append (.append (.append hfile hcolon) hline) hcolon) hcolumn) hspaced)
    (.append (.append htitle hspaced) hmessage)

/-- The row of the hint, if there is one. -/
def Diagnostic.hintRow? (diagnostic : Diagnostic) : Option String :=
  diagnostic.help.map fun help =>
    "    " ++ String.ofList (List.replicate diagnostic.line.repr.length ' ') ++ " = help: " ++ help

theorem Diagnostic.isOneLine_hintRow (hhelp : ∀ hint, diagnostic.help = some hint → IsOneLine hint) :
    ∀ row ∈ diagnostic.hintRow?, IsOneLine row := by
  intro row hrow
  obtain ⟨hint, hhint, rfl⟩ := Option.map_eq_some_iff.1 hrow
  exact .append (.append diagnostic.isOneLine_margin (.of_chars (by decide))) (hhelp hint hhint)

theorem Diagnostic.plain_eq_rows (diagnostic : Diagnostic) (source filename : String) :
    diagnostic.plain source filename = String.join (([diagnostic.headLine filename,
      diagnostic.gutter ++ String.ofList (diagnostic.shownLine source),
      diagnostic.margin ++ String.ofList (diagnostic.caretIndent source) ++ "^"] ++
        diagnostic.hintRow?.toList).map (· ++ "\n")) := by
  apply String.toList_injective
  cases hhelp : diagnostic.help <;> simp [plain, hintRow?, gutter, margin, hhelp]

/-- For every diagnostic of a source the plain form has three rows, and a fourth if there is a hint.
The second shows the line of the source with the diagnostic's number, and the caret of the third
stands in the diagnostic's column, under the character at which the span starts. -/
theorem plain_points_at_place (source filename : String) (hfile : '\n' ∉ filename.toList)
    (diagnostic : Diagnostic) (hof : diagnostic.IsOf source) :
    ∃ head shown pointer, ∃ hint : Option String, ∃ line indent,
      diagnostic.plain source filename = String.join
        (([head, shown, pointer] ++ hint.toList).map (· ++ "\n")) ∧
      hint.isSome = diagnostic.help.isSome ∧
      (∀ row ∈ [head, shown, pointer] ++ hint.toList, IsOneLine row) ∧
      PointsAt source diagnostic shown pointer line indent := by
  obtain ⟨line, hpoints⟩ := pointsAt_of_standsIn hof.standsIn
  obtain ⟨hmessage, hhelp⟩ := hof.isOneLine
  refine ⟨_, _, _, diagnostic.hintRow?, line, _, diagnostic.plain_eq_rows source filename,
    Option.isSome_map, ?_, hpoints⟩
  intro row hmem
  obtain hmem | hmem := List.mem_append.1 hmem
  · simp only [List.mem_cons, List.not_mem_nil, or_false] at hmem
    obtain rfl | rfl | rfl := hmem
    · exact Diagnostic.isOneLine_headLine hfile hmessage
    · exact diagnostic.isOneLine_shown source
    · exact diagnostic.isOneLine_pointer source
  · exact Diagnostic.isOneLine_hintRow hhelp row (Option.mem_toList.1 hmem)

theorem plain_points_at_place_behindTab :
    let source := "\n\t\"é\"+;\r"
    let diagnostic : Diagnostic :=
      ⟨.syntactic, ⟨7, 8⟩, 2, 6, "Expected expression, found ';'",
        some "'+' needs an expression on both sides"⟩
    '\n' ∉ "a.ob".toList ∧ diagnostic.IsOf source ∧ ∃ head shown pointer, ∃ hint :
      Option String, ∃ line indent,
      diagnostic.plain source "a.ob" = String.join (([head, shown, pointer] ++ hint.toList).map (· ++ "\n")) ∧
      hint.isSome = true ∧ PointsAt source diagnostic shown pointer line indent := by
  intro source diagnostic
  have hfile : '\n' ∉ "a.ob".toList := by decide
  have htokens : tokenize source = .ok
      [⟨.stringLiteral, "\"é\"", ⟨2, 2, 2⟩⟩, ⟨.mark .plus, "+", ⟨6, 2, 5⟩⟩,
        ⟨.mark .semicolon, ";", ⟨7, 2, 6⟩⟩, .endOfInput ⟨9, 2, 8⟩] := by decide +kernel
  have hof : diagnostic.IsOf source := by
    refine .inr ?_
    rw [parseSource, htokens]
    rfl
  obtain ⟨head, shown, pointer, hint, line, indent, hplain, hhint, _, hpoints⟩ :=
    plain_points_at_place source "a.ob" hfile diagnostic hof
  exact ⟨hfile, hof, head, shown, pointer, hint, line, indent, hplain, hhint, hpoints⟩

end ObsidianSyntax
