import ObsidianSyntax.Proofs.Place.Exact
import ObsidianSyntax.Text.Line

/-!
# Lines of a source

What the forms of diagnostics find of a source: the character at a byte, and the line with a number.
Counting bytes through a text and looking the count up leads behind the text, and the line around a
place is the one whose number was counted to it.
-/

namespace ObsidianSyntax

/-! ### Looking bytes up -/

theorem charsBefore_cons (byte : Nat) (c : Char) (text : List Char) :
    charsBefore byte (c :: text) =
      if c.utf8Size ≤ byte then charsBefore (byte - c.utf8Size) text + 1 else 0 := by
  have hfound : ∀ (text : List Char) (room found : Nat), charsBefore.count room text found =
      charsBefore.count room text 0 + found := by
    intro text
    induction text with
    | nil => simp [charsBefore.count]
    | cons d text ih =>
      intro room found
      simp only [charsBefore.count]
      split
      · rw [ih _ (found + 1), ih _ (0 + 1)]
        omega
      · simp
  rw [charsBefore, charsBefore.count, hfound]
  rfl

theorem charsBefore_append (before after : List Char) :
    charsBefore (String.ofList before).utf8ByteSize (before ++ after) = before.length := by
  induction before with
  | nil =>
    cases after with
    | nil => rfl
    | cons c after => simp [charsBefore_cons, Nat.ne_of_gt c.utf8Size_pos]
  | cons c before ih =>
    rw [List.cons_append, charsBefore_cons, utf8ByteSize_cons, if_pos (Nat.le_add_right _ _),
      Nat.add_sub_cancel_left, ih, List.length_cons]

theorem cutAtByte_of_size (before after : List Char) :
    cutAtByte (String.ofList before).utf8ByteSize (before ++ after) = (before, after) := by
  simp [cutAtByte, charsBefore_append]

/-! ### Lines by number -/

theorem lastLine_append_newline (text rest : List Char) :
    lastLine (text ++ '\n' :: rest) = lastLine rest := by
  induction rest using List.reverseRecOn with
  | nil => exact lastLine_newline text
  | append_singleton rest c ih =>
    have hsplit : text ++ '\n' :: (rest ++ [c]) = text ++ '\n' :: rest ++ [c] := by simp
    rw [hsplit]
    by_cases hc : c = '\n'
    · rw [hc, lastLine_newline, lastLine_newline]
    · have hmem : '\n' ∉ [c] := by simpa using Ne.symm hc
      rw [lastLine_append hmem, lastLine_append hmem, ih]

theorem length_splitOn_newline (text : List Char) : (text.splitOn '\n').length = text.count '\n' + 1 := by
  induction text with
  | nil => rfl
  | cons c text ih =>
    rw [List.splitOn_cons_eq_if_modifyHead]
    by_cases hc : c = '\n'
    · simp [hc, ih]
    · simp [hc, ih]

theorem head?_splitOn_newline (text : List Char) : (text.splitOn '\n').head? = some (firstLine text) := by
  induction text with
  | nil => rfl
  | cons c text ih =>
    rw [List.splitOn_cons_eq_if_modifyHead]
    by_cases hc : c = '\n'
    · simp [hc, firstLine]
    · obtain ⟨line, lines, hlines⟩ := List.exists_cons_of_ne_nil (List.splitOn_ne_nil '\n' text)
      rw [hlines, List.head?_cons, Option.some.injEq] at ih
      simp [hc, hlines, ih, firstLine]

/-- The line around a place has as many lines before it as there are line feeds before the place. -/
theorem getElem?_splitOn_newline (before after : List Char) :
    ((before ++ after).splitOn '\n')[before.count '\n']? = some (lastLine before ++ firstLine after) := by
  induction before using List.reverseRecOn generalizing after with
  | nil =>
    rw [List.nil_append, List.count_nil, ← List.head?_eq_getElem?, head?_splitOn_newline]
    rfl
  | append_singleton before c ih =>
    rw [List.append_assoc, List.singleton_append]
    by_cases hc : c = '\n'
    · have hcount : (before ++ ['\n']).count '\n' = (before.splitOn '\n').length := by
        simp [length_splitOn_newline]
      subst hc
      rw [List.splitOn_append_cons_self, hcount, List.getElem?_append_right (Nat.le_refl _), Nat.sub_self,
        ← List.head?_eq_getElem?, head?_splitOn_newline, lastLine_newline, List.nil_append]
    · have hmem : '\n' ∉ [c] := by simpa using Ne.symm hc
      have hcount : (before ++ [c]).count '\n' = before.count '\n' := by
        rw [List.count_append, List.count_eq_zero.2 hmem, Nat.add_zero]
      have hfirst : firstLine (c :: after) = c :: firstLine after := by simp [firstLine, hc]
      rw [hcount, ih, hfirst, lastLine_append hmem, List.append_assoc, List.singleton_append]

theorem splitOn_newline_flatMap {lines : List (List Char)} (hlines : ∀ line ∈ lines, '\n' ∉ line) :
    (lines.flatMap (· ++ ['\n'])).splitOn '\n' = lines ++ [[]] := by
  induction lines with
  | nil => rfl
  | cons line lines ih =>
    have hline := hlines line List.mem_cons_self
    rw [List.flatMap_cons, List.append_assoc, List.singleton_append,
      List.splitOn_append_cons_self_of_not_mem hline,
      ih fun other hmem => hlines other (List.mem_cons_of_mem line hmem)]
    rfl

theorem dropTrailing_append_cons {inClass : Char → Bool} {c : Char} (hc : inClass c = false)
    (before after : List Char) :
    dropTrailing inClass (before ++ c :: after) = before ++ c :: dropTrailing inClass after := by
  have hreverse : (before ++ c :: after).reverse = after.reverse ++ c :: before.reverse := by simp
  have hstop : (c :: before.reverse).dropWhile inClass = c :: before.reverse := by simp [hc]
  rw [dropTrailing, dropTrailing, hreverse]
  rw [List.dropWhile_append]
  split
  · next hempty =>
    rw [List.isEmpty_iff] at hempty
    simp [hstop, hempty]
  · simp

/-! ### Lines of a display -/

/-- Only line feeds end lines of the text, for a display as well. -/
def HasPlainBreaks (text : List Char) : Prop := ∀ c ∈ text, lineBreaks.contains c = true → c = '\n'

instance (text : List Char) : Decidable (HasPlainBreaks text) :=
  decidable_of_iff (text.all fun c => !lineBreaks.contains c || c == '\n') (by
    simp only [HasPlainBreaks, List.all_eq_true, Bool.or_eq_true, Bool.not_eq_true', beq_iff_eq,
    ← Bool.not_eq_true, ← imp_iff_not_or])

theorem displayLines_of_newline_not_mem {line : List Char} (hbreaks : HasPlainBreaks line)
    (hline : '\n' ∉ line) (rest current : List Char) :
    displayLines (line ++ rest) current = displayLines rest (line.reverse ++ current) := by
  induction line generalizing current with
  | nil => rfl
  | cons c line ih =>
    have hc : lineBreaks.contains c = false := by
      by_contra hbreak
      exact hline (hbreaks c List.mem_cons_self (by simpa using hbreak) ▸ List.mem_cons_self)
    have ih := ih (fun d hd => hbreaks d (List.mem_cons_of_mem c hd))
      (fun hmem => hline (List.mem_cons_of_mem c hmem))
    simp [displayLines, hc, ih]

/-- A display takes the lines off one by one, each with its line feed, and the last one only if
there is something on it. -/
theorem displayLines_cases {text : List Char} (hbreaks : HasPlainBreaks text) (hne : text ≠ []) :
    (∃ line rest, '\n' ∉ line ∧ text = line ++ '\n' :: rest ∧
      displayLines text [] = (line ++ ['\n']) :: displayLines rest []) ∨
      '\n' ∉ text ∧ displayLines text [] = [text] := by
  by_cases hmem : '\n' ∈ text
  · obtain ⟨line, rest, rfl, hline⟩ := List.eq_append_cons_of_mem hmem
    refine .inl ⟨line, rest, hline, rfl, ?_⟩
    rw [displayLines_of_newline_not_mem (fun c hc => hbreaks c (List.mem_append_left _ hc)) hline,
      displayLines,
      show (lineBreaks.contains '\n' && !('\n' == '\r' && rest.head? == some '\n')) = true from rfl]
    simp
  · refine .inr ⟨hmem, ?_⟩
    have hlines := displayLines_of_newline_not_mem hbreaks hmem [] []
    rw [List.append_nil, List.append_nil] at hlines
    rw [hlines]
    simp [displayLines, hne]

/-- The line shown for the place behind `before` is the one that holds the place: behind `opening`,
which ends with a line feed if there is any of it. Only behind a line feed at the very end is there
no further line, and the line that it ends is shown. -/
theorem findLine_displayLines {before after : List Char}
    (hbreaks : HasPlainBreaks (before ++ after)) (hne : before ++ after ≠ []) (number start : Nat) :
    ∃ opening inside line, before = opening ++ inside ∧ lastLine opening = [] ∧
      findLine (start + before.length) number start (displayLines (before ++ after) []) = some line ∧
      line.number = number + opening.count '\n' ∧ line.start = start + opening.length ∧
      ('\n' ∉ inside ∧ inside ++ after ≠ [] ∨ after = [] ∧ ∃ last, '\n' ∉ last ∧
        inside = last ++ ['\n']) := by
  obtain ⟨line, rest, hline, htext, hlines⟩ | ⟨hline, hlines⟩ := displayLines_cases hbreaks hne
  · rw [hlines, findLine]
    by_cases hshort : before.length ≤ line.length
    · have hbefore : before <+: line :=
        List.prefix_of_prefix_length_le (List.prefix_append before after)
          (htext ▸ List.prefix_append line _) hshort
      rw [if_neg (by simp; omega)]
      exact ⟨[], before, _, rfl, rfl, rfl, rfl, rfl,
        .inl ⟨fun hmem => hline (List.IsPrefix.subset hbefore hmem), hne⟩⟩
    · obtain ⟨before', rfl⟩ : line ++ ['\n'] <+: before := by
        have hfront : line ++ ['\n'] <+: before ++ after := ⟨rest, by simp [htext]⟩
        exact List.prefix_of_prefix_length_le hfront (List.prefix_append before after) (by simp; omega)
      have hrest : rest = before' ++ after := by simpa using htext.symm
      rw [if_pos (by simp), hrest]
      by_cases hend : before' ++ after = []
      · obtain ⟨rfl, rfl⟩ := List.append_eq_nil_iff.1 hend
        exact ⟨[], line ++ ['\n'], _, by simp, rfl, rfl, rfl, rfl, .inr ⟨rfl, line, hline, rfl⟩⟩
      · have hplace : start + (line ++ ['\n'] ++ before').length =
            start + (line ++ ['\n']).length + before'.length := by
          rw [List.length_append, Nat.add_assoc]
        have hbreaks' : HasPlainBreaks (before' ++ after) := fun c hc => hbreaks c (by
          rw [htext, hrest]
          exact List.mem_append_right _ (List.mem_cons_of_mem _ hc))
        obtain ⟨opening, inside, shown, rfl, hopening, hfound, hnumber, hstart, hinside⟩ :=
          findLine_displayLines hbreaks' hend (number + 1) (start + (line ++ ['\n']).length)
        rw [hplace, hfound]
        refine ⟨line ++ ['\n'] ++ opening, inside, shown, by simp, ?_, rfl, ?_, ?_, hinside⟩
        · rw [List.append_assoc, List.singleton_append, lastLine_append_newline, hopening]
        · rw [hnumber, List.count_append, List.count_append, List.count_eq_zero.2 hline]
          simp
          omega
        · rw [hstart, Nat.add_assoc, ← List.length_append]
  · rw [hlines]
    refine ⟨[], before, ⟨number, start, before ++ after⟩, rfl, rfl, ?_, rfl, rfl,
      .inl ⟨fun hmem => hline (List.mem_append_left _ hmem), hne⟩⟩
    simp [findLine]
termination_by before.length

end ObsidianSyntax
