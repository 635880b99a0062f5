import ObsidianSyntax.Diagnostic.Pretty
import ObsidianSyntax.Proofs.Place.PlainForm
import ObsidianSyntax.Proofs.Token.Layout
import Mathlib.Order.Bounds.Basic

/-!
# Every span can be shown

Nothing says that the span of a diagnostic fits the source it is shown with. Both forms look a byte
up only after they have clamped it to the source and moved it back onto a boundary between two
characters. Here that is done byte by byte, as is the search for the line around the place, and no
slice that is taken on the way can fail: its bytes are boundaries of the source and in order. What
comes out is the plain form, so this shows the line that holds the clamped start, whatever the span
is.
-/

namespace ObsidianSyntax

/-! ### Boundaries -/

/-- The byte is at the front of a character of the source, or behind the last one. -/
def IsBoundary (source : String) (byte : Nat) : Prop := (⟨byte⟩ : String.Pos.Raw).IsValid source

instance (source : String) (byte : Nat) : Decidable (IsBoundary source byte) :=
  inferInstanceAs (Decidable ((⟨byte⟩ : String.Pos.Raw).IsValid source))

theorem isBoundary_iff {source : String} {byte : Nat} :
    IsBoundary source byte ↔
      ∃ before after, source.toList = before ++ after ∧ byte = (String.ofList before).utf8ByteSize := by
  rw [IsBoundary, String.Pos.Raw.isValid_iff_exists_append]
  constructor
  · rintro ⟨before, after, rfl, hbyte⟩
    exact ⟨before.toList, after.toList, String.toList_append, by simpa [String.Pos.Raw.ext_iff] using hbyte⟩
  · rintro ⟨before, after, htext, rfl⟩
    refine ⟨String.ofList before, String.ofList after, ?_, rfl⟩
    rw [← String.ofList_append, ← htext, String.ofList_toList]

theorem isBoundary_of_append {source : String} {before after : List Char}
    (htext : source.toList = before ++ after) :
    IsBoundary source (String.ofList before).utf8ByteSize :=
  isBoundary_iff.2 ⟨before, after, htext, rfl⟩

theorem isBoundary_zero (source : String) : IsBoundary source 0 :=
  isBoundary_of_append (List.nil_append source.toList).symm

/-- The nearest boundary that is not behind `byte`. -/
def stepBack (source : String) : Nat → Nat
  | 0 => 0
  | byte + 1 => if IsBoundary source (byte + 1) then byte + 1 else stepBack source byte

/-- The byte clamped to the source and moved back onto a boundary. -/
def floorBoundary (source : String) (byte : Nat) : Nat := stepBack source (min byte source.utf8ByteSize)

theorem stepBack_isGreatest (source : String) (byte : Nat) :
    IsGreatest {boundary | IsBoundary source boundary ∧ boundary ≤ byte} (stepBack source byte) := by
  induction byte with
  | zero => exact ⟨⟨isBoundary_zero source, Nat.le_refl 0⟩, fun boundary hbelow => hbelow.2⟩
  | succ byte ih =>
    rw [stepBack]
    split
    · next hboundary => exact ⟨⟨hboundary, Nat.le_refl _⟩, fun boundary hbelow => hbelow.2⟩
    · next hinside =>
      refine ⟨⟨ih.1.1, Nat.le_succ_of_le ih.1.2⟩, fun boundary hbelow => ih.2 ⟨hbelow.1, ?_⟩⟩
      have hne : boundary ≠ byte + 1 := fun heq => hinside (heq ▸ hbelow.1)
      have hle := hbelow.2
      omega

theorem floorBoundary_isGreatest (source : String) (byte : Nat) :
    IsGreatest {boundary | IsBoundary source boundary ∧ boundary ≤ min byte source.utf8ByteSize}
      (floorBoundary source byte) :=
  stepBack_isGreatest source _

/-! ### Characters before a byte -/

/-- A later byte has no fewer characters before it. -/
theorem charsBefore_mono (text : List Char) : Monotone fun byte => charsBefore byte text := by
  intro byte byte' hle
  induction text generalizing byte byte' with
  | nil => exact Nat.le_refl _
  | cons c text ih =>
    simp only [charsBefore_cons]
    have htail := ih (Nat.sub_le_sub_right hle c.utf8Size)
    simp only at htail
    split <;> split <;> omega

/-- What is before a byte fits in, and the next character does not fit in as well. -/
theorem exists_charsBefore (byte : Nat) (text : List Char) :
    ∃ before after, text = before ++ after ∧ charsBefore byte text = before.length ∧
      (String.ofList before).utf8ByteSize ≤ byte ∧
      ∀ c rest, after = c :: rest → byte < (String.ofList before).utf8ByteSize + c.utf8Size := by
  induction text generalizing byte with
  | nil => exact ⟨[], [], rfl, rfl, Nat.zero_le byte, fun c rest heq => by cases heq⟩
  | cons c text ih =>
    by_cases hfits : c.utf8Size ≤ byte
    · obtain ⟨before, after, rfl, hcount, hsize, hnext⟩ := ih (byte - c.utf8Size)
      have hcons := utf8ByteSize_cons c before
      refine ⟨c :: before, after, rfl, ?_, by omega, fun d rest hafter => ?_⟩
      · rw [charsBefore_cons, if_pos hfits, hcount, List.length_cons]
      · have hbelow := hnext d rest hafter
        omega
    · refine ⟨[], c :: text, rfl, ?_, Nat.zero_le byte, fun d rest hafter => ?_⟩
      · rw [charsBefore_cons, if_neg hfits, List.length_nil]
      · obtain ⟨rfl, rfl⟩ := List.cons.inj hafter
        simpa using hfits

/-- The text is cut at the boundary: one further back has the next character before it, which does
not fit in. -/
theorem exists_cut (source : String) (byte : Nat) :
    ∃ before after, source.toList = before ++ after ∧ cutAtByte byte source.toList = (before, after) ∧
      charsBefore byte source.toList = before.length ∧ floorBoundary source byte =
        (String.ofList before).utf8ByteSize := by
  obtain ⟨before, after, htext, hcount, hsize, hnext⟩ := exists_charsBefore byte source.toList
  refine ⟨before, after,
    htext, by rw [cutAtByte, hcount, htext, List.splitAt_eq, List.take_left, List.drop_left], hcount, ?_⟩
  refine (floorBoundary_isGreatest source byte).unique
    ⟨⟨isBoundary_of_append htext, Nat.le_min.2 ⟨hsize, ?_⟩⟩, ?_⟩
  · have hwhole := utf8ByteSize_append before after
    rw [← htext, String.ofList_toList] at hwhole
    omega
  · rintro boundary ⟨hboundary, hbelow⟩
    obtain ⟨before', after', htext', rfl⟩ := isBoundary_iff.1 hboundary
    have hbyte := Nat.le_trans hbelow (Nat.min_le_left _ _)
    rw [htext] at htext'
    obtain ⟨middle, rfl, -⟩ | ⟨middle, rfl, hafter⟩ := List.append_eq_append_iff.1 htext'.symm
    · rw [utf8ByteSize_append]
      exact Nat.le_add_right _ _
    · cases middle with
      | nil => rw [List.append_nil]
      | cons c middle =>
        have hpast := hnext c _ hafter
        rw [utf8ByteSize_append, utf8ByteSize_cons] at hbyte
        omega

/-! ### Slices -/

/-- The characters between two bytes of a source. There is nothing between bytes that are out of
order or inside a character. -/
def slice? (source : String) (start stop : Nat) : Option (List Char) :=
  if start ≤ stop ∧ IsBoundary source start ∧ IsBoundary source stop then
    some (cutAtByte (stop - start) (cutAtByte start source.toList).2).1
  else none

theorem slice?_append {source : String} (before piece after : List Char)
    (htext : source.toList = before ++ piece ++ after) :
    slice? source (String.ofList before).utf8ByteSize
      (String.ofList (before ++ piece)).utf8ByteSize = some piece := by
  have hstart : IsBoundary source (String.ofList before).utf8ByteSize :=
    isBoundary_of_append (htext.trans (List.append_assoc ..))
  have hsize := utf8ByteSize_append before piece
  rw [slice?, if_pos ⟨by omega, hstart, isBoundary_of_append htext⟩, hsize, Nat.add_sub_cancel_left,
    htext, List.append_assoc, cutAtByte_of_size, cutAtByte_of_size]

/-- How many characters stand before the boundary at or before a byte. -/
def charOffset? (source : String) (byte : Nat) : Option Nat :=
  (slice? source 0 (floorBoundary source byte)).map List.length

theorem charOffset?_eq (source : String) (byte : Nat) :
    charOffset? source byte = some (charsBefore byte source.toList) := by
  obtain ⟨before, after, htext, -, hcount, hfloor⟩ := exists_cut source byte
  have hslice := @slice?_append source [] before after htext
  rw [charOffset?, hfloor, hcount]
  exact congrArg (Option.map List.length) hslice

example : ([0, 1, 2, 99].map fun byte => charsBefore byte ['é', '$']) = [0, 0, 1, 2] := by decide

/-- The label of the colored form from the characters that are counted before the two ends of the span. -/
def Diagnostic.labelFromSlices? (diagnostic : Diagnostic) (source : String) : Option (Option Label) := do
  let first ← charOffset? source diagnostic.span.start
  let last := max first (← charOffset? source diagnostic.span.stop)
  return (findLine first 1 0 (displayLines source.toList [])).map fun line =>
    ⟨line, first - line.start, last - line.start, (first + last) / 2 - line.start⟩

theorem Diagnostic.labelFromSlices?_eq (diagnostic : Diagnostic) (source : String) :
    diagnostic.labelFromSlices? source = some (diagnostic.label? source) := by
  rw [labelFromSlices?, charOffset?_eq, charOffset?_eq]
  rfl

/-! ### The line around a byte -/

/-- The byte of the first `c` in a text. -/
def firstByte? (c : Char) : List Char → Option Nat
  | [] => none
  | d :: rest => if d = c then some 0 else (firstByte? c rest).map (d.utf8Size + ·)

/-- The byte of the last `c` in a text. -/
def lastByte? (c : Char) : List Char → Option Nat
  | [] => none
  | d :: rest => ((lastByte? c rest).map (d.utf8Size + ·)).or (if d = c then some 0 else none)

theorem firstByte?_of_not_mem {c : Char} {text : List Char} (hmem : c ∉ text) : firstByte? c text = none := by
  induction text with
  | nil => rfl
  | cons d text ih =>
    obtain ⟨hne, hrest⟩ := List.ne_and_not_mem_of_not_mem_cons hmem
    rw [firstByte?, if_neg (Ne.symm hne), ih hrest, Option.map_none]

theorem firstByte?_append_cons {c : Char} {front : List Char} (hmem : c ∉ front) (rest : List Char) :
    firstByte? c (front ++ c :: rest) = some (String.ofList front).utf8ByteSize := by
  induction front with
  | nil => simp [firstByte?]
  | cons d front ih =>
    obtain ⟨hne, hfront⟩ := List.ne_and_not_mem_of_not_mem_cons hmem
    rw [List.cons_append, firstByte?, if_neg (Ne.symm hne), ih hfront, Option.map_some, utf8ByteSize_cons]

theorem lastByte?_of_not_mem {c : Char} {text : List Char} (hmem : c ∉ text) : lastByte? c text = none := by
  induction text with
  | nil => rfl
  | cons d text ih =>
    obtain ⟨hne, hrest⟩ := List.ne_and_not_mem_of_not_mem_cons hmem
    rw [lastByte?, ih hrest, if_neg (Ne.symm hne), Option.map_none, Option.none_or]

theorem lastByte?_append_cons {c : Char} {rest : List Char} (hmem : c ∉ rest) (front : List Char) :
    lastByte? c (front ++ c :: rest) = some (String.ofList front).utf8ByteSize := by
  induction front with
  | nil => simp [lastByte?, lastByte?_of_not_mem hmem]
  | cons d front ih =>
    rw [List.cons_append, lastByte?, ih, Option.map_some, Option.some_or, utf8ByteSize_cons]

/-- The lines before the last one, each with its line feed, stand before the last one. -/
theorem exists_lastLine (text : List Char) :
    ∃ opening, text = opening ++ lastLine text ∧ (opening = [] ∨ ∃ lines, opening = lines ++ ['\n']) := by
  have hsplit : text.reverse.takeWhile (· != '\n') ++ text.reverse.dropWhile (· != '\n') = text.reverse :=
    List.takeWhile_append_dropWhile
  refine ⟨(text.reverse.dropWhile (· != '\n')).reverse, ?_, ?_⟩
  · rw [lastLine, ← List.reverse_append, hsplit, List.reverse_reverse]
  · cases hrest : text.reverse.dropWhile (· != '\n') with
    | nil => exact .inl rfl
    | cons c lines =>
      have hstop := List.head?_dropWhile_not (· != '\n') text.reverse
      rw [hrest] at hstop
      exact .inr ⟨lines.reverse, by simpa using hstop⟩

/-- Behind the first line are the other lines, with the line feed that ends it. -/
theorem exists_firstLine (text : List Char) :
    ∃ rest, text = firstLine text ++ rest ∧ (rest = [] ∨ ∃ lines, rest = '\n' :: lines) := by
  refine ⟨text.dropWhile (· != '\n'), List.takeWhile_append_dropWhile.symm, ?_⟩
  cases hrest : text.dropWhile (· != '\n') with
  | nil => exact .inl rfl
  | cons c lines =>
    have hstop := List.head?_dropWhile_not (· != '\n') text
    rw [hrest] at hstop
    exact .inr ⟨lines, by simpa using hstop⟩

/-- Where the line begins: behind the last line feed before it. -/
theorem lastByte?_newline {opening inside : List Char}
    (hopening : opening = [] ∨ ∃ lines, opening = lines ++ ['\n']) (hinside : '\n' ∉ inside) :
    (lastByte? '\n' (opening ++ inside)).elim 0 (· + 1) = (String.ofList opening).utf8ByteSize := by
  obtain rfl | ⟨lines, rfl⟩ := hopening
  · rw [List.nil_append, lastByte?_of_not_mem hinside]
    rfl
  · rw [List.append_assoc, List.singleton_append, lastByte?_append_cons hinside, utf8ByteSize_append]
    rfl

/-- Where the line ends: before the next line feed, or with the text. -/
theorem firstByte?_newline (start : Nat) (text : List Char) :
    (firstByte? '\n' text).elim (start + (String.ofList text).utf8ByteSize) (start + ·) =
      start + (String.ofList (firstLine text)).utf8ByteSize := by
  obtain ⟨rest, htext, rfl | ⟨lines, rfl⟩⟩ := exists_firstLine text
  · rw [List.append_nil] at htext
    rw [firstByte?_of_not_mem (htext ▸ newline_not_mem_firstLine text), Option.elim_none, ← htext]
  · have hbyte := firstByte?_append_cons (newline_not_mem_firstLine text) lines
    rw [← htext] at hbyte
    rw [hbyte, Option.elim_some]

/-! ### The plain form -/

namespace Diagnostic

/-- The plain form with `shown` as the line of the source and `indent` before the caret. -/
def form (diagnostic : Diagnostic) (filename : String) (shown indent : List Char) : String :=
  String.join (([diagnostic.headLine filename, diagnostic.gutter ++ String.ofList shown,
    diagnostic.margin ++ String.ofList indent ++ "^"] ++ diagnostic.hintRow?.toList).map (· ++ "\n"))

/-- The plain form with what it shows of the source taken out between bytes, after a search for the
line feeds around the start of the span. -/
def plainFromSlices? (diagnostic : Diagnostic) (source filename : String) : Option String := do
  let start := floorBoundary source diagnostic.span.start
  let before ← slice? source 0 start
  let behind ← slice? source start source.utf8ByteSize
  let lineStart := (lastByte? '\n' before).elim 0 (· + 1)
  let lineStop := (firstByte? '\n' behind).elim source.utf8ByteSize (start + ·)
  let line ← slice? source lineStart lineStop
  let front ← slice? source lineStart start
  return diagnostic.form filename (dropTrailing (· == '\r') line) (front.map fun c =>
    if c = '\t' then '\t' else ' ')

/-- `shown` is what the plain form shows for the line behind `opening`, and the caret is moved along
by one character for each of `inside`. -/
structure ShowsLine (diagnostic : Diagnostic) (source filename : String)
    (opening inside behind shown : List Char) : Prop where
  text_eq : source.toList = opening ++ inside ++ behind
  start_eq : floorBoundary source diagnostic.span.start = (String.ofList (opening ++ inside)).utf8ByteSize
  /-- Only a line feed ends a line. -/
  line_eq : (source.toList.splitOn '\n')[opening.count '\n']? = some (inside ++ firstLine behind)
  plain_eq : diagnostic.plain source filename = diagnostic.form filename shown (inside.map fun c =>
    if c = '\t' then '\t' else ' ')

/-- The place at which the source is cut, with the lines before it apart from the one that it is on. -/
theorem exists_line (source : String) (byte : Nat) :
    ∃ opening inside behind, source.toList = opening ++ inside ++ behind ∧
      (opening = [] ∨ ∃ lines, opening = lines ++ ['\n']) ∧ lastLine (opening ++ inside) = inside ∧
      cutAtByte byte source.toList = (opening ++ inside, behind) ∧
      floorBoundary source byte = (String.ofList (opening ++ inside)).utf8ByteSize := by
  obtain ⟨before, behind, htext, hcut, -, hfloor⟩ := exists_cut source byte
  obtain ⟨opening, hbefore, hopening⟩ := exists_lastLine before
  exact ⟨opening, lastLine before, behind, by rw [← hbefore, htext], hopening, by rw [← hbefore], by
    rw [← hbefore, hcut], by rw [← hbefore, hfloor]⟩

theorem plain_of_cut (diagnostic : Diagnostic) {source : String} (filename : String)
    {before behind : List Char}
    (hcut : cutAtByte diagnostic.span.start source.toList = (before, behind)) :
    diagnostic.plain source filename = diagnostic.form filename
      (dropTrailing (· == '\r') (lastLine before ++ firstLine behind))
      ((lastLine before).map fun c => if c = '\t' then '\t' else ' ') := by
  have hshown : diagnostic.shownLine source = dropTrailing (· == '\r')
      (lastLine before ++ firstLine behind) := by
    rw [shownLine, hcut]
  have hindent : diagnostic.caretIndent source = (lastLine before).map fun c =>
      if c = '\t' then '\t' else ' ' := by
    rw [caretIndent, hcut]
  rw [plain_eq_rows, hshown, hindent, form]

theorem plainFromSlices?_eq (diagnostic : Diagnostic) (source filename : String) :
    diagnostic.plainFromSlices? source filename = some (diagnostic.plain source filename) := by
  obtain ⟨opening, inside, behind, htext, hopening, hlast, hcut, hfloor⟩ :=
    exists_line source diagnostic.span.start
  obtain ⟨rest, hbehind, -⟩ := exists_firstLine behind
  have hinside : '\n' ∉ inside := hlast ▸ newline_not_mem_lastLine (opening ++ inside)
  have hsize : source.utf8ByteSize =
      (String.ofList (opening ++ inside)).utf8ByteSize + (String.ofList behind).utf8ByteSize := by
    rw [← utf8ByteSize_append, ← htext, String.ofList_toList]
  have hbefore : slice? source 0 (String.ofList (opening ++ inside)).utf8ByteSize =
      some (opening ++ inside) :=
    slice?_append [] _ _ htext
  have hafter : slice? source (String.ofList (opening ++ inside)).utf8ByteSize source.utf8ByteSize =
      some behind := by
    have hslice := @slice?_append source (opening ++ inside) behind [] (by simp [htext])
    rwa [← htext, String.ofList_toList] at hslice
  have hline : slice? source (String.ofList opening).utf8ByteSize
      ((String.ofList (opening ++ inside)).utf8ByteSize + (String.ofList (firstLine behind)).utf8ByteSize) =
      some (inside ++ firstLine behind) := by
    have hslice := @slice?_append source opening (inside ++ firstLine behind) rest (by
      rw [htext, List.append_assoc, List.append_assoc, List.append_assoc, ← hbehind])
    rwa [← List.append_assoc, utf8ByteSize_append] at hslice
  have hfront : slice? source (String.ofList opening).utf8ByteSize
      (String.ofList (opening ++ inside)).utf8ByteSize = some inside :=
    slice?_append _ _ _ htext
  have hstop := firstByte?_newline (String.ofList (opening ++ inside)).utf8ByteSize behind
  rw [← hsize] at hstop
  simp only [plainFromSlices?, hfloor, hbefore, hafter, lastByte?_newline hopening hinside, hstop,
    hline, hfront, Option.bind_eq_bind, Option.bind_some]
  rw [diagnostic.plain_of_cut filename hcut, hlast]
  rfl

theorem exists_showsLine (diagnostic : Diagnostic) (source filename : String) :
    ∃ opening inside behind shown returns, diagnostic.ShowsLine source filename opening inside behind shown ∧
      inside ++ firstLine behind = shown ++ List.replicate returns '\r' ∧ shown.getLast? ≠ some '\r' := by
  obtain ⟨opening, inside, behind, htext, hopening, hlast, hcut, hfloor⟩ :=
    exists_line source diagnostic.span.start
  have hinside : '\n' ∉ inside := hlast ▸ newline_not_mem_lastLine (opening ++ inside)
  obtain ⟨returns, hreturns, hend⟩ := dropTrailing_spec '\r' (inside ++ firstLine behind)
  refine ⟨opening, inside, behind, _, returns, ⟨htext, hfloor, ?_, ?_⟩, hreturns, hend⟩
  · have hline := getElem?_splitOn_newline (opening ++ inside) behind
    rwa [← htext, List.count_append, List.count_eq_zero.2 hinside, Nat.add_zero, hlast] at hline
  · rw [diagnostic.plain_of_cut filename hcut, hlast]

end Diagnostic

/-- Any span can be shown with any source. The byte from which the source is read is the nearest
boundary not behind the byte given and not behind the end, a byte has as many characters before it
as there are before that boundary, and no fewer if it is a later one. No slice fails in either form,
and the plain form shows the line around the boundary but for carriage returns at its end, with the
caret behind as many characters as there are between the front of that line and the boundary. -/
theorem every_span_is_shown (source filename : String) (diagnostic : Diagnostic) :
    (∀ byte, IsGreatest {boundary | IsBoundary source boundary ∧
      boundary ≤ min byte source.utf8ByteSize} (floorBoundary source byte)) ∧
    (∀ byte, ∃ before after, source.toList = before ++ after ∧
      floorBoundary source byte = (String.ofList before).utf8ByteSize ∧
      charOffset? source byte = some before.length ∧ charsBefore byte source.toList = before.length) ∧
    (Monotone fun byte => charsBefore byte source.toList) ∧
    diagnostic.plainFromSlices? source filename = some (diagnostic.plain source filename) ∧
    diagnostic.labelFromSlices? source = some (diagnostic.label? source) ∧
    ∃ opening inside behind shown returns, diagnostic.ShowsLine source filename opening inside behind shown ∧
      inside ++ firstLine behind = shown ++ List.replicate returns '\r' ∧ shown.getLast? ≠ some '\r' := by
  refine ⟨floorBoundary_isGreatest source, fun byte => ?_, charsBefore_mono source.toList,
    diagnostic.plainFromSlices?_eq source filename,
    diagnostic.labelFromSlices?_eq source, diagnostic.exists_showsLine source filename⟩
  obtain ⟨before, after, htext, -, hcount, hfloor⟩ := exists_cut source byte
  exact ⟨before, after, htext, hfloor, by rw [charOffset?_eq, hcount], hcount⟩

/-- A carriage return before the line feed is on the line and is not shown. -/
theorem line_is_shown_without_return :
    let diagnostic : Diagnostic := ⟨.lexical, ⟨0, 1⟩, 1, 1, "m", none⟩
    ¬ ∃ opening inside behind, diagnostic.ShowsLine "a\r\nb" "a.ob" opening inside behind
      (inside ++ firstLine behind) := by
  rintro diagnostic ⟨opening, inside, behind, hshows⟩
  have hstart : floorBoundary "a\r\nb" 0 = 0 := rfl
  have hsize := hshows.start_eq.symm.trans hstart
  obtain ⟨rfl, rfl⟩ : opening = [] ∧ inside = [] := by
    simpa [String.utf8ByteSize_eq_zero_iff] using hsize
  have hbehind : behind = ['a', '\r', '\n', 'b'] := hshows.text_eq.symm
  have hplain := hshows.plain_eq
  rw [hbehind] at hplain
  exact absurd (congrArg String.toList hplain) (by decide +kernel)

end ObsidianSyntax
