import ObsidianSyntax.Proofs.Place.Lines
import ObsidianSyntax.Source

/-!
# Listings can be read back

A listing has one line for each token but the end of the input, and the line says where the token
starts, its kind and its text. Texts are listed as they are, with whatever quotes, blanks and colons
they hold. No token goes over a line end, so the lines of a listing are found at its line feeds; and
in each line the numbers and the kind end at the first colon and blanks, and the text is between the
first quote and the last. So a listing gives away all that it lists, and two sources have the same
one just when they have the same to list.
-/

namespace ObsidianSyntax

/-- What a listing says of a token. -/
structure ListingEntry where
  line : Nat
  column : Nat
  kind : Kind
  lexeme : String
deriving DecidableEq

/-- The text up to a character, and what is behind that. -/
def cutAtFirst (mark : Char) (text : List Char) : List Char × List Char :=
  (text.takeWhile (· != mark), (text.dropWhile (· != mark)).drop 1)

/-- The text up to the last place at which a character stands in it. -/
def upToLast (mark : Char) (text : List Char) : List Char := (cutAtFirst mark text.reverse).2.reverse

theorem cutAtFirst_append {mark : Char} {front : List Char} (hfront : mark ∉ front) (rest : List Char) :
    cutAtFirst mark (front ++ mark :: rest) = (front, rest) := by
  have hne : ∀ c ∈ front, (c != mark) = true :=
    fun c hc => by simpa using fun heq : c = mark => hfront (heq ▸ hc)
  simp [cutAtFirst, List.takeWhile_append_of_pos hne, List.dropWhile_append_of_pos hne]

theorem upToLast_concat (mark : Char) (text : List Char) : upToLast mark (text ++ [mark]) = text := by
  simp [upToLast, cutAtFirst]

/-- A line read back: the line number up to the first colon, the column up to the first blank, the
kind up to the next one, and the text between the first quote and the last. -/
def ListingEntry.ofLine? (text : List Char) : Option ListingEntry := do
  let (number, rest) := cutAtFirst ':' text
  let (column, rest) := cutAtFirst ' ' rest
  let (name, _) := cutAtFirst ' ' rest
  let (_, quoted) := cutAtFirst '\'' text
  let kind ← Kind.ofName? (String.ofList name)
  return ⟨Nat.ofDigitChars 10 number 0, Nat.ofDigitChars 10 column 0, kind,
    String.ofList (upToLast '\'' quoted)⟩

/-- The entry of a token. -/
def Token.listingEntry (token : Token) : ListingEntry :=
  ⟨token.place.line, token.place.column, token.kind, token.lexeme⟩

/-- What there is to list of a source: the entries of its tokens, the end of the input left out. -/
def listingEntries (source : String) : List ListingEntry :=
  ((scan source).1.filter fun token => !token.isEnd).map Token.listingEntry

/-! ### Lines -/

theorem Kind.mem_all (kind : Kind) : kind ∈ all := by
  cases kind with
  | mark mark => cases mark <;> decide
  | primitive type => cases type <;> decide
  | keyword word => cases word <;> decide
  | _ => decide

theorem Kind.ofName?_name (kind : Kind) : ofName? kind.name = some kind := by
  have hall : ∀ kind ∈ all, ofName? kind.name = some kind := by decide +kernel
  exact hall kind kind.mem_all

theorem Kind.isAlphanum_of_mem_name {kind : Kind} {c : Char} (hmem : c ∈ kind.name.toList) :
    c.isAlphanum = true := by
  have hall : ∀ kind ∈ all, (kind.name.toList.all Char.isAlphanum) = true := by decide +kernel
  exact List.all_eq_true.1 (hall kind kind.mem_all) c hmem

/-- The line of an entry, without the line feed. -/
def ListingEntry.text (entry : ListingEntry) : List Char :=
  Nat.toDigits 10 entry.line ++ ':' :: (Nat.toDigits 10 entry.column ++ ' ' ::
    (entry.kind.name.toList ++ ' ' :: '\'' :: (entry.lexeme.toList ++ ['\''])))

namespace ListingEntry

theorem not_mem_toDigits {c : Char} (hc : c.isDigit = false) (n : Nat) : c ∉ Nat.toDigits 10 n := by
  intro hmem
  rw [Nat.isDigit_of_mem_toDigits (by decide) (by decide) hmem] at hc
  cases hc

theorem not_mem_name {c : Char} (hc : c.isAlphanum = false) (kind : Kind) : c ∉ kind.name.toList := by
  intro hmem
  rw [Kind.isAlphanum_of_mem_name hmem] at hc
  cases hc

/-- The line of an entry is read back as the entry, whatever its text holds. -/
theorem ofLine?_text (entry : ListingEntry) : ofLine? entry.text = some entry := by
  obtain ⟨line, column, kind, lexeme⟩ := entry
  have hfront : '\'' ∉ Nat.toDigits 10 line ++
      ':' :: (Nat.toDigits 10 column ++ ' ' :: (kind.name.toList ++ [' '])) := by
    simp [not_mem_toDigits, not_mem_name]
  have hquoted : cutAtFirst '\'' (text ⟨line, column, kind, lexeme⟩) =
      (Nat.toDigits 10 line ++
        ':' :: (Nat.toDigits 10 column ++ ' ' :: (kind.name.toList ++ [' '])), lexeme.toList ++ ['\'']) := by
    rw [← cutAtFirst_append hfront]
    simp [text]
  rw [ofLine?, hquoted]
  simp only [text, cutAtFirst_append (not_mem_toDigits (c := ':') rfl line),
    cutAtFirst_append (not_mem_toDigits (c := ' ') rfl column),
    cutAtFirst_append (not_mem_name (c := ' ') rfl kind), upToLast_concat,
    Nat.ofDigitChars_ten_toDigits, String.ofList_toList, Kind.ofName?_name]
  rfl

theorem newline_not_mem_text {entry : ListingEntry} (hline : '\n' ∉ entry.lexeme.toList) :
    '\n' ∉ entry.text := by
  simp [text, not_mem_toDigits, not_mem_name, hline]

end ListingEntry

theorem Token.toList_listingLine (token : Token) :
    token.listingLine.toList = token.listingEntry.text ++ ['\n'] := by
  simp [listingLine, ListingEntry.text, listingEntry]

/-- A listing is the lines of the entries, with a line feed behind each. -/
theorem toList_listTokens (source : String) :
    (listTokens source).1.toList = ((listingEntries source).map ListingEntry.text).flatMap (· ++ ['\n']) := by
  have hlines : ∀ tokens : List Token, (String.join (tokens.map Token.listingLine)).toList =
      ((tokens.map Token.listingEntry).map ListingEntry.text).flatMap (· ++ ['\n']) := by
    intro tokens
    simp [String.toList_join, List.flatMap_map, Token.toList_listingLine]
  exact hlines _

theorem newline_not_mem_listingEntries {source : String} :
    ∀ line ∈ (listingEntries source).map ListingEntry.text, '\n' ∉ line := by
  intro line hline
  obtain ⟨entry, hentry, rfl⟩ := List.mem_map.1 hline
  obtain ⟨token, htoken, rfl⟩ := List.mem_map.1 hentry
  obtain ⟨_, _, hcovers, _⟩ := (hands_of_mem_scan token (List.mem_of_mem_filter htoken)).standsIn
  exact ListingEntry.newline_not_mem_text hcovers.newline_not_mem

/-- The lines of a listing. -/
theorem splitOn_listTokens (source : String) :
    (listTokens source).1.toList.splitOn '\n' = (listingEntries source).map ListingEntry.text ++ [[]] := by
  rw [toList_listTokens, splitOn_newline_flatMap newline_not_mem_listingEntries]

/-- A listing has a line for each token but the end of the input, each with a line feed behind it,
and the lines are read back as the places, kinds and texts of these tokens. So sources have the same
listing just when these are the same. -/
theorem listing_isFaithful (source : String) :
    (∃ lines, (listTokens source).1.toList.splitOn '\n' = lines ++ [[]] ∧
      lines.map ListingEntry.ofLine? = (listingEntries source).map some) ∧
    ∀ other, (listTokens source).1 = (listTokens other).1 ↔ listingEntries source = listingEntries other := by
  refine ⟨⟨_, splitOn_listTokens source, ?_⟩, fun other => ⟨fun hsame => ?_, fun hsame => ?_⟩⟩
  · rw [List.map_map]
    exact List.map_congr_left fun entry _ => entry.ofLine?_text
  · have htexts : (listingEntries source).map ListingEntry.text =
        (listingEntries other).map ListingEntry.text := by
      have hsplit := congrArg (fun listing : String => listing.toList.splitOn '\n') hsame
      rw [splitOn_listTokens, splitOn_listTokens] at hsplit
      exact List.append_cancel_right hsplit
    have hread := congrArg (List.map ListingEntry.ofLine?) htexts
    simp only [List.map_map, Function.comp_def, ListingEntry.ofLine?_text] at hread
    exact List.map_injective_iff.2 (fun _ _ => Option.some.inj) hread
  · apply String.toList_injective
    rw [toList_listTokens, toList_listTokens, hsame]

end ObsidianSyntax
