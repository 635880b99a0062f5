import ObsidianSyntax.Diagnostic.Pretty
import ObsidianSyntax.Proofs.Place.PlainForm

/-!
# The places that the two forms name

Both forms of a diagnostic name a file, a line and a column. The plain form takes line and column
from the diagnostic. The colored form counts them anew, in characters before the span and in the
lines of a display, so that the two can differ. For sources in which only line feeds end lines they
agree, with one exception: the end of the input behind a final line feed. There the diagnostic is on
a line of its own, of which a display knows nothing, and the colored form names a column behind the
end of the line before.
-/

namespace ObsidianSyntax

/-- File, line and column, as both forms write them. -/
def placeText (filename : String) (line column : Nat) : String :=
  filename ++ ":" ++ line.repr ++ ":" ++ column.repr

/-- The place at the head of the plain form. -/
def Diagnostic.PlainNames (diagnostic : Diagnostic) (source filename : String) (line column : Nat) : Prop :=
  ∃ rest, diagnostic.plain source filename = placeText filename line column ++ ": " ++ rest

/-- The place at the head of the frame of the colored form. -/
def Diagnostic.PrettyNames (diagnostic : Diagnostic) (source filename : String) (line column : Nat) : Prop :=
  ∃ margin rest, diagnostic.pretty source filename = diagnostic.paintedSummary ++ String.ofList
    (List.replicate margin ' ') ++
    Color.frame.paint "╭" ++ Color.frame.paint "─" ++ Color.frame.paint "[" ++
      placeText filename line column ++
    Color.frame.paint "]" ++ "\n" ++ rest

/-! ### Places are read back from a form -/

theorem repr_append_inj {m n : Nat} {c d : Char} {rest rest' : List Char} (hc : c.isDigit = false)
    (hd : d.isDigit = false) (heq : m.repr.toList ++ c :: rest = n.repr.toList ++ d :: rest') :
    m = n ∧ c :: rest = d :: rest' := by
  obtain ⟨hrepr, hrest⟩ := append_inj_of_class (fun _ => isDigit_of_mem_repr)
    (fun _ => isDigit_of_mem_repr) hc hd heq
  rw [Nat.toList_repr, Nat.toList_repr] at hrepr
  have hvalue := congrArg (fun digits => Nat.ofDigitChars 10 digits 0) hrepr
  exact ⟨by simpa [Nat.ofDigitChars_toDigits] using hvalue, hrest⟩

/-- A place ends where something behind it is no digit. -/
theorem placeText_append_inj {filename : String} {line column line' column' : Nat} {c d : Char}
    {rest rest' : List Char} (hc : c.isDigit = false) (hd : d.isDigit = false)
    (heq : (placeText filename line column).toList ++
      c :: rest = (placeText filename line' column').toList ++ d :: rest') :
    line = line' ∧ column = column' := by
  simp only [placeText, String.toList_append, List.append_assoc, List.append_cancel_left_eq] at heq
  obtain ⟨hline, hrest⟩ := repr_append_inj (by decide) (by decide) heq
  exact ⟨hline, (repr_append_inj hc hd (List.cons.inj hrest).2).1⟩

theorem Diagnostic.plainNames_iff (diagnostic : Diagnostic) (source filename : String)
    (line column : Nat) :
    diagnostic.PlainNames source filename line column ↔
      line = diagnostic.line ∧ column = diagnostic.column := by
  have hself : ∃ rest, diagnostic.plain source filename = placeText filename diagnostic.line
      diagnostic.column ++ ": " ++ rest := by
    simp only [plain, headLine, placeText, String.append_assoc]
    exact ⟨_, rfl⟩
  constructor
  · rintro ⟨rest, hnames⟩
    obtain ⟨rest', hself⟩ := hself
    have htext := congrArg String.toList (hnames.symm.trans hself)
    simp only [String.append_assoc, String.toList_append] at htext
    exact placeText_append_inj (by decide) (by decide) htext
  · rintro ⟨rfl, rfl⟩
    exact hself

theorem Diagnostic.pretty_of_label {diagnostic : Diagnostic} {source : String} {label : Label}
    (hlabel : diagnostic.label? source = some label) (filename : String) :
    diagnostic.pretty source filename = diagnostic.paintedSummary ++ diagnostic.frame label filename := by
  rw [pretty, hlabel]

theorem Diagnostic.prettyNames_iff {diagnostic : Diagnostic} {source : String} {label : Label}
    (hlabel : diagnostic.label? source = some label) (filename : String) (line column : Nat) :
    diagnostic.PrettyNames source filename line column ↔
      line = label.line.number ∧ column = label.first + 1 := by
  have hself : diagnostic.PrettyNames source filename label.line.number (label.first + 1) := by
    refine ⟨label.line.number.repr.length + 2, ?_⟩
    rw [pretty_of_label hlabel]
    unfold frame
    simp only [placeText, String.append_assoc]
    exact ⟨_, rfl⟩
  constructor
  · rintro ⟨margin, rest, hnames⟩
    obtain ⟨margin', rest', hself⟩ := hself
    have htext := congrArg String.toList (hnames.symm.trans hself)
    simp only [String.append_assoc, String.toList_append, String.toList_ofList,
      List.append_cancel_left_eq] at htext
    have hblanks : ∀ count, ∀ c ∈ List.replicate count ' ', (c == ' ') = true := by
      intro count c hmem
      simpa using (List.mem_replicate.1 hmem).2
    obtain ⟨corner, hcorner⟩ : ∃ corner, (Color.frame.paint "╭").toList = '\x1b' :: corner := ⟨_, rfl⟩
    obtain ⟨close, hclose⟩ : ∃ close, (Color.frame.paint "]").toList = '\x1b' :: close := ⟨_, rfl⟩
    rw [hcorner, List.cons_append, List.cons_append] at htext
    obtain ⟨_, hframe⟩ := append_inj_of_class (hblanks margin) (hblanks margin') (by decide) (by decide) htext
    simp only [List.cons.injEq, true_and, List.append_cancel_left_eq, hclose, List.cons_append] at hframe
    exact placeText_append_inj (by decide) (by decide) hframe
  · rintro ⟨rfl, rfl⟩
    exact hself

/-! ### Where the label stands -/

/-- The diagnostic stands at the end of `text` and a line feed, which are the whole source. -/
def Diagnostic.IsBehind (diagnostic : Diagnostic) (source : String) (text : List Char) : Prop :=
  source.toList = text ++ ['\n'] ∧ diagnostic.span.start = source.utf8ByteSize

variable {source : String} {diagnostic : Diagnostic}

theorem eq_nil_of_utf8ByteSize {before after : List Char} (htext : source.toList = before ++ after)
    (hsize : (String.ofList before).utf8ByteSize = source.utf8ByteSize) : after = [] := by
  have hsource : source = String.ofList before ++ String.ofList after := by
    rw [← String.ofList_append, ← htext, String.ofList_toList]
  rw [hsource, String.utf8ByteSize_append] at hsize
  have hempty : String.ofList after = "" := String.utf8ByteSize_eq_zero_iff.1 (by omega)
  simpa using congrArg String.toList hempty

/-- The label is on the line behind `opening`, as many columns from its front as `inside` has characters. -/
theorem exists_label {before covered behind : List Char}
    (hcovers : Covers source diagnostic.span diagnostic.line diagnostic.column before covered behind)
    (hsource : source ≠ "") (hbreaks : HasPlainBreaks source.toList) :
    ∃ opening inside label, before = opening ++ inside ∧ lastLine opening = [] ∧
      diagnostic.label? source = some label ∧
      label.line.number = 1 + opening.count '\n' ∧ label.first = inside.length ∧
      ('\n' ∉ inside ∧ inside ++ (covered ++ behind) ≠ [] ∨
        covered ++ behind = [] ∧ ∃ last, '\n' ∉ last ∧ inside = last ++ ['\n']) := by
  have htext : source.toList = before ++ (covered ++ behind) := by rw [hcovers.text_eq, List.append_assoc]
  have hspan : diagnostic.span.start = (String.ofList before).utf8ByteSize := by rw [hcovers.span_eq]
  have hfirst : charsBefore diagnostic.span.start source.toList = before.length := by
    rw [htext, hspan, charsBefore_append]
  have hne : before ++ (covered ++ behind) ≠ [] := by
    rw [← htext]
    simpa using hsource
  rw [htext] at hbreaks
  obtain ⟨opening, inside, line, rfl, hopening, hfound, hnumber, hstart, hinside⟩ :=
    findLine_displayLines hbreaks hne 1 0
  rw [Nat.zero_add, ← htext, ← hfirst] at hfound
  have hinline : charsBefore diagnostic.span.start source.toList - line.start = inside.length := by
    rw [hfirst, hstart, List.length_append]
    omega
  have hlabel : ∃ label, diagnostic.label? source = some label ∧ label.line = line ∧
      label.first = inside.length := by
    simp only [Diagnostic.label?, hfound, Option.map_some]
    exact ⟨_, rfl, rfl, hinline⟩
  obtain ⟨label, hlabel, rfl, hlabelFirst⟩ := hlabel
  exact ⟨opening, inside, label, rfl, hopening, hlabel, hnumber, hlabelFirst, hinside⟩

/-- The label is where the diagnostic is, unless this is behind the last line: then it is on that
line, behind the line feed. -/
theorem label_place (hstands : diagnostic.StandsIn source) (hsource : source ≠ "")
    (hbreaks : HasPlainBreaks source.toList) :
    ∃ label, diagnostic.label? source = some label ∧
      ((∀ text, ¬ diagnostic.IsBehind source text) → label.line.number = diagnostic.line ∧
        label.first + 1 = diagnostic.column) ∧
      ∀ text, diagnostic.IsBehind source text →
        label.line.number + 1 = diagnostic.line ∧ label.first + 1 = (lastLine text).length + 2 ∧
          diagnostic.column = 1 := by
  obtain ⟨before, covered, behind, hcovers, _⟩ := hstands
  have htext : source.toList = before ++ (covered ++ behind) := by rw [hcovers.text_eq, List.append_assoc]
  have hspan : diagnostic.span.start = (String.ofList before).utf8ByteSize := by rw [hcovers.span_eq]
  have hline := hcovers.line_eq
  have hcolumn := hcovers.column_eq
  obtain ⟨opening, inside, label, rfl, hopening, hlabel, hnumber, hfirst, hinside⟩ :=
    exists_label hcovers hsource hbreaks
  refine ⟨label, hlabel, fun hlive => ?_, fun text hbehind => ?_⟩
  · obtain ⟨hinside, _⟩ | ⟨hend, last, _, rfl⟩ := hinside
    · rw [List.count_append, List.count_eq_zero.2 hinside] at hline
      rw [lastLine_append hinside, hopening, List.nil_append] at hcolumn
      omega
    · refine absurd ⟨?_, ?_⟩ (hlive (opening ++ last))
      · rw [htext, hend, List.append_nil, List.append_assoc]
      · rw [hspan, ← @String.ofList_toList source, htext, hend, List.append_nil]
  · obtain ⟨hsplit, hstop⟩ := hbehind
    have hend := eq_nil_of_utf8ByteSize htext (hspan ▸ hstop)
    rw [htext, hend, List.append_nil] at hsplit
    obtain ⟨hinside, hshown⟩ | ⟨_, last, hlast, rfl⟩ := hinside
    · rw [hend, List.append_nil] at hshown
      have hlast : inside.getLast? = some '\n' := by
        rw [← List.getLast?_append_of_ne_nil opening hshown, hsplit, List.getLast?_concat]
      exact absurd (List.mem_of_getLast? hlast) hinside
    · rw [← List.append_assoc] at hsplit hline hcolumn
      obtain rfl : opening ++ last = text := List.append_cancel_right hsplit
      rw [List.count_append, List.count_append, List.count_eq_zero.2 hlast,
        List.count_singleton_self] at hline
      rw [lastLine_newline, List.length_nil] at hcolumn
      refine ⟨by omega, ?_, by omega⟩
      rw [hfirst, lastLine_append hlast, hopening, List.nil_append, List.length_append, List.length_singleton]

/-- For every diagnostic of a source in which only line feeds end lines, the plain form names the
diagnostic's own line and column, and the colored form names the same, except at the end of the
input behind a final line feed: there it names the line that this ends, and the second column behind
its end. -/
theorem forms_name_place (source filename : String) (hsource : source ≠ "")
    (hbreaks : HasPlainBreaks source.toList) (diagnostic : Diagnostic)
    (hof : diagnostic.IsOf source) :
    (∀ line column, diagnostic.PlainNames source filename line column ↔
      line = diagnostic.line ∧ column = diagnostic.column) ∧
    ((∀ text, ¬ diagnostic.IsBehind source text) →
      ∀ line column, diagnostic.PrettyNames source filename line column ↔
        line = diagnostic.line ∧ column = diagnostic.column) ∧
    ∀ text, diagnostic.IsBehind source text →
      diagnostic.column = 1 ∧ ∀ line column, diagnostic.PrettyNames source filename line column ↔
        line + 1 = diagnostic.line ∧ column = (lastLine text).length + 2 := by
  obtain ⟨label, hlabel, hlive, hend⟩ := label_place hof.standsIn hsource hbreaks
  refine ⟨diagnostic.plainNames_iff source filename, ?_, ?_⟩
  · intro hnotBehind line column
    rw [Diagnostic.prettyNames_iff hlabel, (hlive hnotBehind).1, (hlive hnotBehind).2]
  · intro text hbehind
    obtain ⟨hline, hfirst, hcolumn⟩ := hend text hbehind
    refine ⟨hcolumn, fun line column => ?_⟩
    rw [Diagnostic.prettyNames_iff hlabel, hfirst, ← hline, Nat.add_right_cancel_iff]

theorem forms_name_place_behindTab :
    let source := "\"é\"\n\t=;\n"
    let diagnostic : Diagnostic :=
      ⟨.syntactic, ⟨6, 7⟩, 2, 2, "Invalid assignment target",
        some "Only variables can be assigned to, e.g. 'x = 10'"⟩
    source ≠ "" ∧ HasPlainBreaks source.toList ∧ diagnostic.IsOf source ∧
      (∀ text, ¬ diagnostic.IsBehind source text) ∧
      diagnostic.PlainNames source "a.ob" 2 2 ∧ diagnostic.PrettyNames source "a.ob" 2 2 := by
  intro source diagnostic
  have hne : source ≠ "" := by decide
  have hbreaks : HasPlainBreaks source.toList := by decide
  have htokens : tokenize source = .ok [⟨.stringLiteral, "\"é\"", ⟨0, 1, 1⟩⟩, ⟨.mark .equal, "=", ⟨6, 2, 2⟩⟩,
      ⟨.mark .semicolon, ";", ⟨7, 2, 3⟩⟩, .endOfInput ⟨9, 3, 1⟩] := by decide +kernel
  have hof : diagnostic.IsOf source := by
    refine .inr ?_
    rw [parseSource, htokens]
    rfl
  have hlive : ∀ text, ¬ diagnostic.IsBehind source text := fun text hbehind => absurd hbehind.2 (by decide)
  obtain ⟨hplain, hpretty, _⟩ := forms_name_place source "a.ob" hne hbreaks diagnostic hof
  exact ⟨hne, hbreaks, hof, hlive, (hplain 2 2).2 ⟨rfl, rfl⟩, (hpretty hlive 2 2).2 ⟨rfl, rfl⟩⟩

/-- Behind a final line feed the two forms name two places. -/
theorem forms_differ_behind_newline :
    let diagnostic : Diagnostic :=
      ⟨.syntactic, ⟨2, 2⟩, 2, 1, "Expected ';' after expression, found end of file",
        some "Statements must end with ';'"⟩
    parseSource "x\n" = .error diagnostic ∧ HasPlainBreaks "x\n".toList ∧
      diagnostic.PlainNames "x\n" "a.ob" 2 1 ∧
      diagnostic.PrettyNames "x\n" "a.ob" 1 3 ∧ ¬ diagnostic.PrettyNames "x\n" "a.ob" 2 1 := by
  intro diagnostic
  have htokens : tokenize "x\n" = .ok [⟨.identifier, "x", ⟨0, 1, 1⟩⟩, .endOfInput ⟨2, 2, 1⟩] := by
    decide +kernel
  have herror : parseSource "x\n" = .error diagnostic := by
    rw [parseSource, htokens]
    rfl
  have hbreaks : HasPlainBreaks "x\n".toList := by decide
  have hlabel : diagnostic.label? "x\n" = some ⟨⟨1, 0, ['x', '\n']⟩, 2, 2, 2⟩ := by with_unfolding_all rfl
  refine ⟨herror, hbreaks, (diagnostic.plainNames_iff _ _ 2 1).2 ⟨rfl, rfl⟩, ?_, ?_⟩
  · exact (Diagnostic.prettyNames_iff hlabel "a.ob" 1 3).2 ⟨rfl, rfl⟩
  · exact fun hnames => absurd ((Diagnostic.prettyNames_iff hlabel "a.ob" 2 1).1 hnames).1 (by decide)

end ObsidianSyntax
