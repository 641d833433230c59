import LetLang.Proofs.Outcome
import LetLang.Token.Scanner

/-!
# What a scanner reads

A scanner that is drained reads tokens and then, once, the end of the source or
a diagnostic. Tokens that later stages rely on are of the right make: a name is
a word, and a character token holds a character. Diagnostics are lexical.
-/

namespace LetLang

/-- What later stages rely on in a token. -/
structure Token.Lexed (t : Token) : Prop where
  name : t.kind = .identifier → ∃ c rest, t.value.toList = c :: rest ∧ isWordStart c = true
  char : t.kind = .literal .char → t.value.toList.length = 1

inductive Drained : List Reading → Prop where
  | failed : d.stage = .lexical → Drained [.error d]
  | ended : t.Lexed → t.kind = .eof → Drained [.ok t]
  | more : t.Lexed → t.kind ≠ .eof → Drained readings → Drained (.ok t :: readings)

-- ---------------------------------------------------------------------------
-- One token
-- ---------------------------------------------------------------------------

theorem decodeBody_failsAs (start : Position) (body : List Char) :
    FailsAs .lexical (decodeBody start body) := by
  fun_induction decodeBody start body with
  | case1 => exact .ok
  | case2 start letter rest c hc ih => exact ih.bind fun _ _ => .ok
  | case3 => exact .reject rfl
  | case4 => exact .reject rfl
  | case5 start c rest _ hc ih => exact ih.bind fun _ _ => .ok

theorem mem_reservedWords (h : (word, kind) ∈ Kind.reservedWords) :
    (∃ keyword, kind = .keyword keyword) ∨ ∃ name, kind = .typeName name := by
  rcases List.mem_append.mp h with h | h
  · obtain ⟨keyword, -, he⟩ := List.mem_map.mp h
    cases he
    exact .inl ⟨keyword, rfl⟩
  · obtain ⟨name, -, he⟩ := List.mem_map.mp h
    cases he
    exact .inr ⟨name, rfl⟩

theorem ofWord_cases (word : String) : Kind.ofWord word = .identifier ∨
    (∃ keyword, Kind.ofWord word = .keyword keyword) ∨
      ∃ name, Kind.ofWord word = .typeName name := by
  unfold Kind.ofWord
  cases hr : Kind.reserved? word with
  | none => exact .inl rfl
  | some kind =>
    obtain ⟨front, back, hl, -⟩ := List.lookup_eq_some_iff.mp hr
    exact .inr (mem_reservedWords (hl ▸ List.mem_append_right front List.mem_cons_self))

theorem split?_word (h : Form.word.split? text = some (lexeme, rest)) :
    ∃ c tail, lexeme = c :: tail ∧ isWordStart c = true := by
  simp only [Form.split?] at h
  split at h
  · next c tail =>
    split at h
    · next hc =>
      cases h
      exact ⟨c, tail.takeWhile isWordChar, by simp [isWordChar, hc], hc⟩
    · cases h
  · cases h

theorem token?_ok {f : Front} (hs : f.form.split? text = some (f.lexeme, f.rest))
    (h : f.token? position = .ok (some t)) : t.Lexed ∧ t.kind ≠ .eof := by
  obtain ⟨form, lexeme, rest⟩ := f
  cases form with
  | blank | comment => cases h
  | word =>
    cases h
    obtain ⟨c, tail, hl, hc⟩ := split?_word hs
    rcases ofWord_cases (String.ofList lexeme) with hw | ⟨_, hw⟩ | ⟨_, hw⟩
    · refine ⟨⟨fun _ => ⟨c, tail, ?_, hc⟩, ?_⟩, ?_⟩
      · simpa using hl
      · simp [hw]
      · simp [hw]
    · exact ⟨⟨by simp [hw], by simp [hw]⟩, by simp [hw]⟩
    · exact ⟨⟨by simp [hw], by simp [hw]⟩, by simp [hw]⟩
  | float | int | punct =>
    cases h
    exact ⟨⟨nofun, nofun⟩, nofun⟩
  | quoted quote =>
    cases quote with
    | double =>
      obtain ⟨content, -, h⟩ := bind_eq_ok.mp h
      cases h
      exact ⟨⟨nofun, nofun⟩, nofun⟩
    | single =>
      obtain ⟨content, -, h⟩ := bind_eq_ok.mp h
      split at h
      · next hl =>
        cases h
        exact ⟨⟨nofun, fun _ => by simpa using hl⟩, nofun⟩
      · cases h
  | openQuote quote =>
    cases quote with
    | double => cases h
    | single => cases h

theorem token?_failsAs (f : Front) (position : Position) :
    FailsAs .lexical (f.token? position) := by
  obtain ⟨form, lexeme, rest⟩ := f
  cases form with
  | quoted quote =>
    cases quote with
    | double => exact (decodeBody_failsAs _ _).bind fun _ _ => .ok
    | single =>
      refine (decodeBody_failsAs _ _).bind fun content _ => ?_
      split
      · exact .ok
      · exact .reject rfl
  | openQuote quote =>
    cases quote with
    | double => exact .reject rfl
    | single => exact .reject rfl
  | _ => exact .ok

-- ---------------------------------------------------------------------------
-- All tokens
-- ---------------------------------------------------------------------------

theorem Token.Lexed.endAt (position : Position) : (Token.endAt position).Lexed := by
  constructor
  · rintro ⟨⟩
  · rintro ⟨⟩

/-- What a scanner reads: the end and nothing behind it, a diagnostic, or a
token that something follows. -/
theorem read_cases {s : Scanner} (hs : s.done = false) :
    (∃ d, s.read.1 = .error d ∧ d.stage = .lexical) ∨
      (∃ t, s.read.1 = .ok t ∧ t.Lexed ∧ t.kind = .eof ∧ s.read.2.done = true) ∨
      ∃ t, s.read.1 = .ok t ∧ t.Lexed ∧ t.kind ≠ .eof ∧ s.read.2.done = false := by
  fun_induction Scanner.read s with
  | case1 s => exact .inr (.inl ⟨_, rfl, .endAt s.position, rfl, rfl⟩)
  | case2 => exact .inl ⟨_, rfl, rfl⟩
  | case3 s c tail hr f hf d ht => exact .inl ⟨d, rfl, token?_failsAs f _ d ht⟩
  | case4 s c tail hr f hf t ht =>
    obtain ⟨hl, hk⟩ := token?_ok (front?_eq_some hf).2 ht
    exact .inr (.inr ⟨t, rfl, hl, hk, hs⟩)
  | case5 s c tail hr f hf ht ih => exact ih hs

theorem drain_drained {s : Scanner} (hs : s.done = false) : Drained s.drain.1 := by
  fun_induction Scanner.drain s with
  | case1 s h => cases hs.symm.trans h
  | case2 s h d last hr =>
    have hc := read_cases hs
    simp only [hr] at hc
    rcases hc with ⟨_, ⟨⟩, hd⟩ | ⟨_, ⟨⟩, -⟩ | ⟨_, ⟨⟩, -⟩
    exact .failed hd
  | case3 s h t next hr hn =>
    have hc := read_cases hs
    simp only [hr] at hc
    rcases hc with ⟨_, ⟨⟩, -⟩ | ⟨_, ⟨⟩, hl, hk, -⟩ | ⟨_, ⟨⟩, -, -, hd⟩
    · exact .ended hl hk
    · cases hd.symm.trans hn
  | case4 s h t next hr hn readings last hrest ih =>
    have hc := read_cases hs
    simp only [hr] at hc
    rcases hc with ⟨_, ⟨⟩, -⟩ | ⟨_, ⟨⟩, -, -, hd⟩ | ⟨_, ⟨⟩, hl, hk, hd⟩
    · exact absurd hd hn
    · rw [hrest] at ih
      exact .more hl hk (ih hd)

/-- The tokens of a source: they end with the end mark, and only there. -/
inductive SourceTokens : List Token → Prop where
  | ended : t.Lexed → t.kind = .eof → SourceTokens [t]
  | more : t.Lexed → t.kind ≠ .eof → SourceTokens ts → SourceTokens (t :: ts)

theorem Drained.failsAs (h : Drained readings) : FailsAs .lexical (readings.mapM id) := by
  induction h with
  | failed hd =>
    rintro _ ⟨⟩
    exact hd
  | ended => exact .ok
  | more _ _ _ ih =>
    rw [List.mapM_cons]
    exact ih.bind fun _ _ => .ok

theorem Drained.tokens (h : Drained readings) (ht : readings.mapM id = .ok ts) :
    SourceTokens ts := by
  induction h generalizing ts with
  | failed => cases ht
  | ended hl hk =>
    cases ht
    exact .ended hl hk
  | more hl hk _ ih =>
    rw [List.mapM_cons] at ht
    obtain ⟨_, ht, hr⟩ := bind_eq_ok.mp ht
    cases ht
    obtain ⟨rest, hrest, hr⟩ := bind_eq_ok.mp hr
    cases hr
    exact .more hl hk (ih hrest)

theorem tokenize_failsAs (source : String) : FailsAs .lexical (tokenize source) :=
  (drain_drained rfl).failsAs

theorem tokenize_tokens (h : tokenize source = .ok tokens) : SourceTokens tokens :=
  (drain_drained rfl).tokens h

end LetLang
