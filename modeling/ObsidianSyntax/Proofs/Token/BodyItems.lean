import ObsidianSyntax.Proofs.Fault.Expressions
import ObsidianSyntax.Proofs.Print.Escapes

/-!
# The items of a literal's body

Two readers decide which backslash escapes what. The lexer does so to find the closing quote, and
later the escapes of the body are resolved on their own. Both cut a text into items from its front,
a backslash always taking the character behind it along. A text can be cut into items in at most one
way, and in one exactly if it ends in an even number of backslashes (`exists_items_iff`), so the two
readers cannot disagree: the body of every literal that is read is cut without a rest, and stands
for what its items stand for.
-/

namespace ObsidianSyntax

/-- An item of a text: a character that is no backslash, or a backslash and the character behind it. -/
inductive BodyItem where
  | plain (c : Char) (hescape : c ≠ '\\')
  | pair (letter : Char)

namespace BodyItem

def text : BodyItem → List Char
  | plain c _ => [c]
  | pair letter => ['\\', letter]

/-- Whether the item is a character that stands for itself or one of the seven escapes. -/
def IsKnown : BodyItem → Prop
  | plain .. => True
  | pair letter => ∃ c, (c, letter) ∈ escapeLetters

/-- What the item stands for: an escape that is known for its character, and any other pair for both
of its characters. -/
def value : BodyItem → List Char
  | plain c _ => [c]
  | pair letter =>
    match escapeLetters.find? fun entry => entry.2 == letter with
    | some (c, _) => [c]
    | none => ['\\', letter]

theorem value_pair_cases (letter : Char) :
    (∃ c, (c, letter) ∈ escapeLetters ∧ (pair letter).value = [c]) ∨
    (∀ c, (c, letter) ∉ escapeLetters) ∧ (pair letter).value = ['\\', letter] := by
  cases hfound : escapeLetters.find? fun entry => entry.2 == letter with
  | some entry =>
    obtain ⟨c, letter'⟩ := entry
    obtain rfl : letter' = letter := by simpa using List.find?_some hfound
    exact .inl ⟨c, List.mem_of_find?_eq_some hfound, by simp only [value, hfound]⟩
  | none =>
    refine .inr ⟨fun c hmem => ?_, by simp only [value, hfound]⟩
    simpa using List.find?_eq_none.1 hfound _ hmem

theorem isKnown_iff {item : BodyItem} : item.IsKnown ↔ ∃ c, item.value = [c] := by
  cases item with
  | plain c hescape => exact ⟨fun _ => ⟨c, rfl⟩, fun _ => trivial⟩
  | pair letter =>
    obtain ⟨c, hletter, hvalue⟩ | ⟨hunknown, hvalue⟩ := value_pair_cases letter
    · exact ⟨fun _ => ⟨c, hvalue⟩, fun _ => ⟨c, hletter⟩⟩
    · refine ⟨fun ⟨c, hletter⟩ => absurd hletter (hunknown c), fun ⟨c, hone⟩ => ?_⟩
      rw [hvalue] at hone
      cases hone

theorem pairValue_eq (letter : Char) : pairValue letter = (pair letter).value := by
  obtain ⟨c, hletter, hvalue⟩ | ⟨hunknown, hvalue⟩ := value_pair_cases letter
  · rw [hvalue, (of_mem_escapeLetters hletter).2]
  · have hne : ∀ entry ∈ escapeLetters, letter ≠ entry.2 := by
      rintro ⟨c, other⟩ hmem rfl
      exact hunknown c hmem
    simp only [escapeLetters, List.forall_mem_cons] at hne
    simp [hvalue, pairValue, escapeValue?, hne]

/-! ### Cutting a text -/

/-- The first item of a text and what is left behind it are the only ones. -/
theorem text_append_inj {item item' : BodyItem} {rest rest' : List Char}
    (heq : item.text ++ rest = item'.text ++ rest') :
    item = item' ∧ rest = rest' := by
  cases item with
  | plain c hescape =>
    cases item' with
    | plain c' _ =>
      obtain ⟨rfl, rfl⟩ : c = c' ∧ rest = rest' := by simpa [text] using heq
      exact ⟨rfl, rfl⟩
    | pair letter' => exact absurd (List.cons.inj heq).1 hescape
  | pair letter =>
    cases item' with
    | plain c' hescape => exact absurd (List.cons.inj heq).1.symm hescape
    | pair letter' =>
      obtain ⟨rfl, rfl⟩ : letter = letter' ∧ rest = rest' := by simpa [text] using heq
      exact ⟨rfl, rfl⟩

theorem text_ne_nil (item : BodyItem) : item.text ≠ [] := by
  cases item <;> simp [text]

theorem flatMap_text_injective {items items' : List BodyItem}
    (heq : items.flatMap text = items'.flatMap text) : items = items' := by
  induction items generalizing items' with
  | nil =>
    cases items' with
    | nil => rfl
    | cons item' items' =>
      rw [List.flatMap_nil, List.flatMap_cons] at heq
      exact absurd (List.append_eq_nil_iff.1 heq.symm).1 item'.text_ne_nil
  | cons item items ih =>
    cases items' with
    | nil =>
      rw [List.flatMap_nil, List.flatMap_cons] at heq
      exact absurd (List.append_eq_nil_iff.1 heq).1 item.text_ne_nil
    | cons item' items' =>
      rw [List.flatMap_cons, List.flatMap_cons] at heq
      obtain ⟨rfl, hrest⟩ := text_append_inj heq
      rw [ih hrest]

theorem unescape_append (items : List BodyItem) (rest : List Char) :
    unescape (items.flatMap text ++ rest) = items.flatMap value ++ unescape rest := by
  induction items with
  | nil => rfl
  | cons item items ih =>
    rw [List.flatMap_cons, List.flatMap_cons, List.append_assoc, List.append_assoc, ← ih]
    cases item with
    | plain c hescape => exact unescape_cons_of_ne hescape _
    | pair letter =>
      rw [← pairValue_eq]
      exact unescape_pair letter _

end BodyItem

/-- How many backslashes there are at the end of a text. -/
def trailingBackslashes (text : List Char) : Nat := (text.reverse.takeWhile (· == '\\')).length

theorem trailingBackslashes_le (text : List Char) : trailingBackslashes text ≤ text.length := by
  have hle := (List.takeWhile_sublist (· == '\\') (l := text.reverse)).length_le
  rwa [List.length_reverse] at hle

/-- Only behind backslashes alone does one more in front of them count. -/
theorem trailingBackslashes_cons (c : Char) (text : List Char) :
    trailingBackslashes (c :: text) =
      if c = '\\' ∧ trailingBackslashes text = text.length then text.length + 1
        else trailingBackslashes text := by
  unfold trailingBackslashes
  rw [List.reverse_cons, List.takeWhile_append, List.length_reverse]
  split
  · next hall =>
    by_cases hescape : c = '\\'
    · simp [hescape, hall]
    · simp [hescape, hall]
  · next hsome => simp [hsome]

theorem even_trailingBackslashes_pair (letter : Char) (text : List Char) :
    Even (trailingBackslashes ('\\' :: letter :: text)) ↔ Even (trailingBackslashes text) := by
  have hle := trailingBackslashes_le text
  rw [trailingBackslashes_cons, trailingBackslashes_cons, List.length_cons]
  by_cases hall : letter = '\\' ∧ trailingBackslashes text = text.length
  · rw [if_pos hall, if_pos ⟨rfl, rfl⟩, hall.2, Nat.even_add_one, Nat.even_add_one, not_not]
  · rw [if_neg hall, if_neg (by omega)]

theorem trailingBackslashes_cons_of_ne {c : Char} (hescape : c ≠ '\\') (text : List Char) :
    trailingBackslashes (c :: text) = trailingBackslashes text := by
  rw [trailingBackslashes_cons, if_neg (by simp [hescape])]

/-- A text is cut into items exactly if it ends in an even number of backslashes. -/
theorem exists_items_iff {text : List Char} :
    (∃ items : List BodyItem, items.flatMap BodyItem.text = text) ↔ Even (trailingBackslashes text) := by
  constructor
  · rintro ⟨items, rfl⟩
    induction items with
    | nil => exact ⟨0, rfl⟩
    | cons item items ih =>
      rw [List.flatMap_cons]
      cases item with
      | plain c hescape => rwa [← trailingBackslashes_cons_of_ne hescape] at ih
      | pair letter => rwa [← even_trailingBackslashes_pair letter] at ih
  · intro heven
    induction hlength : text.length using Nat.strong_induction_on generalizing text with
    | _ length ih =>
      match text with
      | [] => exact ⟨[], rfl⟩
      | c :: rest =>
        by_cases hescape : c = '\\'
        · subst hescape
          match rest with
          | [] => exact absurd heven (by decide)
          | letter :: rest =>
            have hless : rest.length < length := by
              simp only [← hlength, List.length_cons]
              omega
            obtain ⟨items, rfl⟩ :=
              ih rest.length hless ((even_trailingBackslashes_pair letter rest).1 heven) rfl
            exact ⟨.pair letter :: items, rfl⟩
        · rw [trailingBackslashes_cons_of_ne hescape] at heven
          obtain ⟨items, rfl⟩ := ih rest.length (by simp [← hlength]) heven rfl
          exact ⟨.plain c hescape :: items, rfl⟩

/-- Behind an even number of backslashes escapes are resolved anew. -/
theorem unescape_append_of_even {x : List Char} (heven : Even (trailingBackslashes x)) (y : List Char) :
    unescape (x ++ y) = unescape x ++ unescape y := by
  obtain ⟨items, rfl⟩ := exists_items_iff.2 heven
  have halone := BodyItem.unescape_append items []
  rw [List.append_nil, unescape_nil, List.append_nil] at halone
  rw [BodyItem.unescape_append, halone]

/-! ### Literals of a source -/

theorem Item.exists_bodyItem {quote : Char} {item : List Char} (hitem : Item quote item) :
    ∃ bodyItem : BodyItem, bodyItem.text = item := by
  cases hitem with
  | @plain c _ hescape _ => exact ⟨.plain c hescape, rfl⟩
  | @pair letter _ => exact ⟨.pair letter, rfl⟩

theorem Items.exists_bodyItems {quote : Char} {body : List Char} (hbody : Items quote body) :
    ∃ items : List BodyItem, items.flatMap BodyItem.text = body := by
  induction hbody with
  | nil => exact ⟨[], rfl⟩
  | cons hitem _ ih =>
    obtain ⟨item, rfl⟩ := hitem.exists_bodyItem
    obtain ⟨items, rfl⟩ := ih
    exact ⟨item :: items, rfl⟩

namespace Token

/-- The text of a literal is its body between two quotes. The body is cut into the items and in no
other way, without a rest, and stands for what they stand for. -/
structure HasItems (token : Token) (quote : Char) (items : List BodyItem) : Prop where
  lexeme_eq : token.lexeme.toList = quote :: quotedBody quote token.lexeme.toList ++ [quote]
  body_eq : quotedBody quote token.lexeme.toList = items.flatMap BodyItem.text
  unique : ∀ items' : List BodyItem, quotedBody quote token.lexeme.toList =
    items'.flatMap BodyItem.text → items' = items
  unescape_eq : unescape (quotedBody quote token.lexeme.toList) = items.flatMap BodyItem.value

theorem hasItems_of_lexeme {token : Token} {quote : Char} {items : List BodyItem}
    (hlexeme : token.lexeme.toList = quote :: items.flatMap BodyItem.text ++ [quote]) :
    token.HasItems quote items := by
  have hbody : quotedBody quote token.lexeme.toList = items.flatMap BodyItem.text := by
    rw [hlexeme, quotedBody_wrapped]
  refine ⟨by rw [hbody, hlexeme], hbody, fun items' hitems' => ?_, ?_⟩
  · exact BodyItem.flatMap_text_injective (hitems'.symm.trans hbody)
  · have hvalue := BodyItem.unescape_append items []
    rwa [List.append_nil, unescape_nil, List.append_nil, ← hbody] at hvalue

/-- What is read where the token of a literal starts an operand: the value, or the fault that there
is none. -/
theorem operand_of_literal {token : Token} {inner : Nested} {cursor : Cursor}
    (hkind : token.kind = .stringLiteral ∨ token.kind = .charLiteral) (hcurrent : cursor.current = token) :
    Parse.operand inner cursor = (match token.literal with
      | .ok value => return .literal value
      | .error cause => Parse.fail cause token : Parse Tree) cursor.advance := by
  subst hcurrent
  have hname : cursor.current.kind ≠ .identifier := by
    obtain hkind | hkind := hkind <;> simp [hkind]
  have hatom : Parse.operand inner cursor = Parse.atom cursor := by
    rw [Parse.Graded.operand_eq]
    obtain hkind | hkind := hkind <;> rw [hkind]
  rw [hatom, Parse.atom_apply]
  exact congrFun (if_neg hname) cursor.advance

end Token

theorem Spells.body_of_stringLiteral {text : List Char} (hspells : Spells text .stringLiteral) :
    ∃ body, Items '"' body ∧ text = '"' :: body ++ ['"'] := by
  cases hspells with
  | reserved _ htable => exact absurd htable (by simp [Kind.reservedWords])
  | string hbody => exact ⟨_, hbody, rfl⟩

theorem Spells.item_of_charLiteral {text : List Char} (hspells : Spells text .charLiteral) :
    ∃ item, Item '\'' item ∧ text = '\'' :: item ++ ['\''] := by
  cases hspells with
  | reserved _ htable => exact absurd htable (by simp [Kind.reservedWords])
  | char hitem => exact ⟨_, hitem, rfl⟩

section

variable {token : Token}

theorem Token.exists_hasItems_of_string (hspells : Spells token.lexeme.toList token.kind)
    (hkind : token.kind = .stringLiteral) :
    ∃ items, token.HasItems '"' items ∧
      token.literal = .ok (.string (String.ofList (items.flatMap BodyItem.value))) := by
  rw [hkind] at hspells
  obtain ⟨body, hbody, hlexeme⟩ := hspells.body_of_stringLiteral
  obtain ⟨items, rfl⟩ := hbody.exists_bodyItems
  have hitems := hasItems_of_lexeme hlexeme
  refine ⟨items, hitems, ?_⟩
  simp only [literal, hkind, hitems.unescape_eq]

/-- A character literal is one item between quotes. It has a value if the item stands for one character. -/
theorem Token.exists_hasItems_of_char (hspells : Spells token.lexeme.toList token.kind)
    (hkind : token.kind = .charLiteral) :
    ∃ item, token.HasItems '\'' [item] ∧
      token.literal = match item.value with
        | [c] => .ok (.char c)
        | _ => .error .malformedChar := by
  rw [hkind] at hspells
  obtain ⟨_, hitem, hlexeme⟩ := hspells.item_of_charLiteral
  obtain ⟨item, rfl⟩ := hitem.exists_bodyItem
  have hitems : token.HasItems '\'' [item] := hasItems_of_lexeme (by rw [hlexeme, List.flatMap_singleton])
  have hvalue := hitems.unescape_eq
  rw [List.flatMap_singleton] at hvalue
  refine ⟨item, hitems, ?_⟩
  unfold literal
  rw [hkind]
  exact congrArg (fun value : List Char => match value with
    | [c] => Except.ok (Literal.char c)
    | _ => Except.error Cause.malformedChar) hvalue

end

/-- The quotes of a literal and its escapes are found in the same items. Every literal of a source
is its body between two quotes, and the body is cut into items in one way, without a backslash left
over, and stands for what they stand for. Escapes are resolved anew behind every even number of
backslashes. So a string literal always becomes a node, and a character literal exactly if its one
item is a character for itself or a known escape. -/
theorem literals_haveItems :
    (∀ source : String, ∀ token ∈ (scan source).1,
      (token.kind = .stringLiteral → ∃ items, token.HasItems '"' items ∧
        ∀ (inner : Nested) (cursor : Cursor), cursor.current = token → Parse.operand inner cursor =
          .ok (.literal (.string (String.ofList (items.flatMap BodyItem.value)))) cursor.advance) ∧
      (token.kind = .charLiteral → ∃ item, token.HasItems '\'' [item] ∧
        ∀ (inner : Nested) (cursor : Cursor), cursor.current = token →
          ((∃ c after, Parse.operand inner cursor = .ok (.literal (.char c)) after) ↔ item.IsKnown))) ∧
    ∀ x y : List Char, Even (trailingBackslashes x) → unescape (x ++ y) = unescape x ++ unescape y := by
  refine ⟨fun source token hmem => ⟨fun hkind => ?_, fun hkind => ?_⟩, fun x y heven =>
    unescape_append_of_even heven y⟩
  · have hspells := (isFaithful_of_mem_scan token hmem).spells (by simp [hkind]) (by simp [hkind])
    obtain ⟨items, hitems, hvalue⟩ := token.exists_hasItems_of_string hspells hkind
    refine ⟨items, hitems, fun inner cursor hcurrent => ?_⟩
    rw [token.operand_of_literal (.inl hkind) hcurrent, hvalue]
    rfl
  · have hspells := (isFaithful_of_mem_scan token hmem).spells (by simp [hkind]) (by simp [hkind])
    obtain ⟨item, hitem, hvalue⟩ := token.exists_hasItems_of_char hspells hkind
    refine ⟨item, hitem, fun inner cursor hcurrent => ?_⟩
    rw [token.operand_of_literal (.inr hkind) hcurrent, hvalue, BodyItem.isKnown_iff]
    match item.value with
    | [] => exact ⟨nofun, nofun⟩
    | [c] => exact ⟨fun _ => ⟨c, rfl⟩, fun _ => ⟨c, cursor.advance, rfl⟩⟩
    | _ :: _ :: _ => exact ⟨nofun, nofun⟩

theorem literals_haveItems_lastBackslashes :
    ((scan "\"a\\\\\"'\\q'").1.map Token.kind = [.stringLiteral, .charLiteral, .endOfInput] ∧
      ∀ token ∈ (scan "\"a\\\\\"'\\q'").1, token.kind = .charLiteral → ∃ item, token.HasItems '\'' [item]) ∧
    unescape ("a\\\\".toList ++ "n".toList) = unescape "a\\\\".toList ++ unescape "n".toList := by
  refine ⟨⟨by decide +kernel, fun token hmem hkind => ?_⟩, literals_haveItems.2 _ _ (by decide)⟩
  obtain ⟨item, hitem, _⟩ := (literals_haveItems.1 _ token hmem).2 hkind
  exact ⟨item, hitem⟩

end ObsidianSyntax
