import LetLang.Syntax.Cursor

/-!
# What rules do

A rule takes tokens from a cursor and never the end of the program, whether it
yields a value or a diagnostic, and a diagnostic names a token of the program.
`Yields` says this of a rule at a cursor, together with what holds of the value
and of the cursor behind it, and the lemmas follow the ways in which rules are
put together.
-/

namespace LetLang

namespace Cursor

/-- Whether a cursor is reached by taking tokens, none of which ends the program. -/
def Reaches (c c' : Cursor) : Prop :=
  ∃ taken, c.ahead = taken ++ c'.ahead ∧ c'.stop = c.stop ∧ ∀ t ∈ taken, t.kind ≠ .eof

def All (p : Token → Prop) (c : Cursor) : Prop := (∀ t ∈ c.ahead, p t) ∧ p c.stop.token

theorem Reaches.refl (c : Cursor) : c.Reaches c := ⟨[], rfl, rfl, nofun⟩

theorem Reaches.trans {c c' c'' : Cursor} (h : c.Reaches c') (h' : c'.Reaches c'') :
    c.Reaches c'' := by
  obtain ⟨taken, ha, hs, ht⟩ := h
  obtain ⟨more, ha', hs', ht'⟩ := h'
  refine ⟨taken ++ more, by rw [ha, ha', List.append_assoc], hs'.trans hs, ?_⟩
  intro t hm
  exact (List.mem_append.mp hm).elim (ht t) (ht' t)

theorem Reaches.length_le {c c' : Cursor} (h : c.Reaches c') :
    c'.ahead.length ≤ c.ahead.length := by
  obtain ⟨taken, ha, -, -⟩ := h
  simp [ha]

theorem Reaches.all {c c' : Cursor} (h : c.Reaches c') (hc : c.All p) : c'.All p := by
  obtain ⟨taken, ha, hs, -⟩ := h
  refine ⟨fun t ht => hc.1 t ?_, hs ▸ hc.2⟩
  rw [ha]
  exact List.mem_append_right taken ht

theorem All.current {c : Cursor} (hc : c.All p) : p c.current := by
  unfold Cursor.current
  cases ha : c.ahead with
  | nil => exact hc.2
  | cons t rest => exact hc.1 t (ha ▸ List.mem_cons_self)

theorem reaches_advance {c : Cursor} (h : c.current.kind ≠ .eof) :
    c.Reaches c.advance ∧ c.advance.ahead.length < c.ahead.length := by
  obtain ⟨ahead, stop⟩ := c
  cases ahead with
  | nil => exact absurd rfl h
  | cons t rest =>
    refine ⟨⟨[t], rfl, rfl, ?_⟩, Nat.lt_succ_self _⟩
    intro t' ht
    rwa [List.mem_singleton.mp ht]

end Cursor

/-- Whether a diagnostic names a token of the program and is one of the grammar.
Only a character token without a character can make it another. -/
def Diagnostic.Blames (p : Token → Prop) (d : Diagnostic) : Prop :=
  ∃ t, p t ∧ d.position = t.position ∧
    (d.stage = .grammatical ∨ t.kind = .literal .char ∧ t.value.toList = [] ∧
      d.cause = .fault "char token without a character")

/-- Whether a rule at a cursor takes tokens and gives a value that is good, or
gives a diagnostic that blames a token. -/
def Rule.Yields (p : Token → Prop) (rule : Rule α) (c : Cursor) (good : α → Cursor → Prop) :
    Prop :=
  c.All p → match rule.run c with
    | .ok a c' => c.Reaches c' ∧ good a c'
    | .error d c' => c.Reaches c' ∧ d.Blames p

namespace Rule.Yields

variable {α β : Type} {p : Token → Prop} {c : Cursor} {good : α → Cursor → Prop}
  {best : β → Cursor → Prop}

theorem pure (h : c.All p → good a c) : (Pure.pure a : Rule α).Yields p c good :=
  fun hc => ⟨.refl c, h hc⟩

theorem bind {rule : Rule α} {next : α → Rule β} (h : rule.Yields p c good)
    (hn : ∀ a c', c'.ahead.length ≤ c.ahead.length → good a c' → (next a).Yields p c' best) :
    (rule >>= next).Yields p c best := by
  intro hc
  have h := h hc
  rw [EStateM.run_bind]
  cases hr : rule.run c with
  | error d c' =>
    rw [hr] at h
    exact h
  | ok a c' =>
    rw [hr] at h
    obtain ⟨hreach, hgood⟩ := h
    have hn := hn a c' hreach.length_le hgood (hreach.all hc)
    simp only
    split at hn
    · exact ⟨hreach.trans hn.1, hn.2⟩
    · exact ⟨hreach.trans hn.1, hn.2⟩

theorem imp {rule : Rule α} {other : α → Cursor → Prop} (h : rule.Yields p c good)
    (hi : ∀ a c', c'.ahead.length ≤ c.ahead.length → good a c' → other a c') :
    rule.Yields p c other := by
  intro hc
  have h := h hc
  split at h
  · exact ⟨h.1, hi _ _ h.1.length_le h.2⟩
  · exact h

theorem throw (h : c.All p → d.Blames p) : (MonadExcept.throw d : Rule α).Yields p c good :=
  fun hc => ⟨.refl c, h hc⟩

theorem kind {next : Kind → Rule α} (h : (next c.current.kind).Yields p c good) :
    (Rule.kind >>= next).Yields p c good := h

theorem current {next : Token → Rule α} (h : (next c.current).Yields p c good) :
    (Rule.current >>= next).Yields p c good := h

theorem unexpected : (Rule.unexpected expected : Rule α).Yields p c good :=
  fun hc => ⟨.refl c, c.current, hc.current, rfl, .inl rfl⟩

theorem advance (hk : c.current.kind ≠ .eof) : Rule.advance.Yields p c fun t c' =>
    t = c.current ∧ p t ∧ c'.ahead.length < c.ahead.length := by
  intro hc
  obtain ⟨hr, hl⟩ := Cursor.reaches_advance hk
  exact ⟨hr, rfl, hc.current, hl⟩

theorem expect {expected : Kind} (hk : expected ≠ .eof) :
    (Rule.expect expected).Yields p c fun t c' =>
      t.kind = expected ∧ p t ∧ c'.ahead.length < c.ahead.length := by
  unfold Rule.expect
  refine .kind ?_
  split
  · next h =>
    refine (Yields.advance (h ▸ hk)).imp ?_
    rintro _ c' - ⟨rfl, ht⟩
    exact ⟨h, ht⟩
  · exact .unexpected

theorem expectKeyword (word : Keyword) : (Rule.expect (.keyword word)).Yields p c fun t c' =>
    t.kind = .keyword word ∧ p t ∧ c'.ahead.length < c.ahead.length :=
  .expect nofun

theorem expectName : (Rule.expect .identifier).Yields p c fun t c' =>
    t.kind = .identifier ∧ p t ∧ c'.ahead.length < c.ahead.length :=
  .expect nofun

theorem expectPunct (mark : Punct) : (Rule.expectPunct mark).Yields p c fun t c' =>
    t.kind = .punct mark ∧ p t ∧ c'.ahead.length < c.ahead.length :=
  .expect nofun

end Rule.Yields

end LetLang
