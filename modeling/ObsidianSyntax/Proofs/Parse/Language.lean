import ObsidianSyntax.Proofs.Parse.Grammar

/-!
# The language of a parser

What a parser accepts is said as a language: which terminals stand for which value, given the kind
of the token behind them. A parser accepts a language if it succeeds exactly on the lists of the
language, with their values, and stops behind them (`AcceptsAt`). The languages of larger parsers
are put together from those of their parts, lookahead included, so that nothing has to be said about
cursors once the parts are known.
-/

namespace ObsidianSyntax

theorem Token.terminal_eq_iff {token : Token} {kind : Kind} (htext : kind.hasText = false) :
    token.terminal = ⟨kind, ""⟩ ↔ token.kind = kind := by
  refine ⟨fun hterminal => ?_, fun h => ?_⟩
  · exact congrArg Terminal.kind hterminal
  · obtain rfl := h
    simp [terminal, htext]

theorem Token.terminal_eq_iff_of_hasText {token : Token} {kind : Kind} {text : String}
    (htext : kind.hasText = true) :
    token.terminal = ⟨kind, text⟩ ↔ token.kind = kind ∧ token.lexeme = text := by
  rw [terminal, Terminal.mk.injEq]
  refine ⟨fun h => ?_, fun h => ?_⟩
  · obtain ⟨rfl, hlexeme⟩ := h
    exact ⟨rfl, by simpa [htext] using hlexeme⟩
  · obtain ⟨rfl, rfl⟩ := h
    simp [htext]

@[simp] theorem Token.kind_terminal (token : Token) : token.terminal.kind = token.kind := rfl

namespace Cursor

/-- Stepping over the terminals, none of them the end of the input, leads from one cursor to the other. -/
def Reads : Cursor → List Terminal → Cursor → Prop
  | cursor, [], after => cursor = after
  | cursor, t :: ts, after =>
    cursor.current.isEnd = false ∧ cursor.current.terminal = t ∧ cursor.advance.Reads ts after

@[simp] theorem reads_nil {cursor after : Cursor} : cursor.Reads [] after ↔ cursor = after := .rfl

@[simp] theorem reads_cons {cursor after : Cursor} {t : Terminal} {ts : List Terminal} :
    cursor.Reads (t :: ts) after ↔
      cursor.current.isEnd = false ∧ cursor.current.terminal = t ∧ cursor.advance.Reads ts after := .rfl

theorem reads_append {cursor after : Cursor} {ts us : List Terminal} :
    cursor.Reads (ts ++ us) after ↔ ∃ middle, cursor.Reads ts middle ∧ middle.Reads us after := by
  induction ts generalizing cursor with
  | nil => simp
  | cons t ts ih => simp [ih, and_assoc]

/-- The token at the cursor is the first that is read, or the one behind if none is. -/
theorem Reads.following {cursor after : Cursor} {ts : List Terminal} (hreads : cursor.Reads ts after) :
    cursor.current.kind = following ts after.current.kind := by
  cases ts with
  | nil =>
    obtain rfl := hreads
    rfl
  | cons t ts =>
    obtain ⟨_, rfl, _⟩ := hreads
    rfl

theorem length_advance {cursor : Cursor} (hlive : cursor.current.isEnd = false) :
    cursor.advance.rest.length + 1 = cursor.rest.length := by
  have hne : cursor.rest ≠ [] := by
    intro hrest
    simp [isEnd_current_of_rest_eq_nil hrest] at hlive
  have hpos := List.length_pos_iff.2 hne
  simp only [advance, hlive, Bool.false_eq_true, if_false, List.length_drop]
  omega

theorem Reads.length {cursor after : Cursor} {ts : List Terminal} (hreads : cursor.Reads ts after) :
    after.rest.length + ts.length = cursor.rest.length := by
  induction ts generalizing cursor with
  | nil =>
    obtain rfl := hreads
    rfl
  | cons t ts ih =>
    obtain ⟨hlive, _, hrest⟩ := hreads
    have hlength := ih hrest
    have hadvance := length_advance hlive
    rw [List.length_cons]
    omega

/-- The second token that is read is the one that a look ahead sees. -/
theorem Reads.peek_one {cursor after : Cursor} {t u : Terminal} {ts : List Terminal}
    (hreads : cursor.Reads (t :: u :: ts) after) : (cursor.peek 1).kind = u.kind := by
  obtain ⟨hlive, _, _, hsecond, _⟩ := hreads
  have hadvance : cursor.advance = { cursor with rest := cursor.rest.drop 1 } := by
    simp only [advance, hlive]; rfl
  rw [← hsecond, Token.kind_terminal, hadvance]
  simp [current, peek]

end Cursor

namespace Parse

/-- Which terminals stand for which value, given the kind of the token behind them. -/
abbrev Language (α : Type) := List Terminal → α → Kind → Prop

/-- With a token of the kind at the cursor, the parser accepts the lists of the language, and nothing else. -/
def AcceptsAt {α : Type} (kind : Kind) (parse : Parse α) (language : Language α) : Prop :=
  ∀ cursor : Cursor, cursor.current.kind = kind → ∀ value after,
    parse cursor = .ok value after ↔ ∃ ts, cursor.Reads ts after ∧ language ts value after.current.kind

/-- The parser accepts the language whatever the token at the cursor is. -/
def Accepts {α : Type} (parse : Parse α) (language : Language α) : Prop :=
  ∀ kind, parse.AcceptsAt kind language

variable {α β : Type} {kind : Kind} {parse : Parse α} {language language' : Language α}

theorem bind_eq_ok {next : α → Parse β} {cursor after : Cursor} {value : β} :
    (parse >>= next) cursor = .ok value after ↔
      ∃ a middle, parse cursor = .ok a middle ∧ next a middle = .ok value after := by
  simp only [bind, EStateM.bind]
  cases parse cursor <;> simp [and_assoc]

theorem pure_eq_ok {a value : α} {cursor after : Cursor} :
    (pure a : Parse α) cursor = .ok value after ↔ a = value ∧ cursor = after := by
  simp only [pure, EStateM.pure, EStateM.Result.ok.injEq]

@[simp] theorem fail_ne_ok {cause : Cause} {token : Token} {cursor after : Cursor} {value : α} :
    (fail cause token : Parse α) cursor ≠ .ok value after := by
  intro hfail
  cases hfail

@[simp] theorem failHere_ne_ok {cause : Cause} {cursor after : Cursor} {value : α} :
    (failHere cause : Parse α) cursor ≠ .ok value after := by
  intro hfail
  cases hfail

/-- Two languages that agree on the lists that start with the kind are accepted alike. -/
theorem AcceptsAt.congr (haccepts : parse.AcceptsAt kind language)
    (hiff : ∀ ts value next, following ts next = kind → (language ts value next ↔ language' ts value next)) :
    parse.AcceptsAt kind language' := by
  intro cursor hkind value after
  rw [haccepts cursor hkind]
  refine ⟨fun h => ?_, fun h => ?_⟩
  · obtain ⟨ts, hreads, hlanguage⟩ := h
    exact ⟨ts, hreads, (hiff ts value _ (hreads.following ▸ hkind)).1 hlanguage⟩
  · obtain ⟨ts, hreads, hlanguage⟩ := h
    exact ⟨ts, hreads, (hiff ts value _ (hreads.following ▸ hkind)).2 hlanguage⟩

theorem Accepts.congr (haccepts : parse.Accepts language)
    (hiff : ∀ ts value next, language ts value next ↔ language' ts value next) : parse.Accepts language' :=
  fun kind => (haccepts kind).congr fun ts value next _ => hiff ts value next

/-- One list behind the other. What comes behind the first is the front of the second. -/
def Language.andThen (first : Language α) (second : α → Language β) : Language β := fun ts value next =>
  ∃ us a vs, ts = us ++ vs ∧ first us a (following vs next) ∧ second a vs value next

theorem AcceptsAt.bind {next : α → Parse β} {second : α → Language β}
    (haccepts : parse.AcceptsAt kind language) (hnext : ∀ a, (next a).Accepts (second a)) :
    (parse >>= next).AcceptsAt kind (language.andThen second) := by
  intro cursor hkind value after
  rw [bind_eq_ok]
  refine ⟨fun h => ?_, fun h => ?_⟩
  · obtain ⟨a, middle, hparse, hrest⟩ := h
    obtain ⟨us, hus, hfirst⟩ := (haccepts cursor hkind a middle).1 hparse
    obtain ⟨vs, hvs, hsecond⟩ := (hnext a _ middle rfl value after).1 hrest
    rw [hvs.following] at hfirst
    exact ⟨us ++ vs, Cursor.reads_append.2 ⟨middle, hus, hvs⟩, us, a, vs, rfl, hfirst, hsecond⟩
  · obtain ⟨ts, hts, us, a, vs, rfl, hfirst, hsecond⟩ := h
    obtain ⟨middle, hus, hvs⟩ := Cursor.reads_append.1 hts
    rw [← hvs.following] at hfirst
    exact ⟨a, middle, (haccepts cursor hkind a middle).2 ⟨us, hus, hfirst⟩,
      (hnext a _ middle rfl value after).2 ⟨vs, hvs, hsecond⟩⟩

theorem Accepts.bind {next : α → Parse β} {second : α → Language β} (haccepts : parse.Accepts language)
    (hnext : ∀ a, (next a).Accepts (second a)) : (parse >>= next).Accepts (language.andThen second) :=
  fun kind => (haccepts kind).bind hnext

theorem Accepts.pure (value : α) : (pure value : Parse α).Accepts fun ts a _ => ts = [] ∧ a = value := by
  intro kind cursor _ a after
  show EStateM.Result.ok value cursor = .ok a after ↔ _
  refine ⟨fun h => ?_, fun h => ?_⟩
  · cases h
    exact ⟨[], rfl, rfl, rfl⟩
  · obtain ⟨_, hreads, rfl, rfl⟩ := h
    obtain rfl := hreads
    rfl

theorem AcceptsAt.none
    (hfail : ∀ cursor, cursor.current.kind = kind → ∀ value after, parse cursor ≠ .ok value after) :
    parse.AcceptsAt kind fun _ _ _ => False := by
  intro cursor hkind value after
  simp [hfail cursor hkind value after]

end Parse

end ObsidianSyntax
