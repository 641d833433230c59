import LetLang.Syntax.Cursor

/-!
# What rules read

A rule that gives a value has read the tokens between two cursors. `Reads` says
so of one run, and its lemmas put a run together from the runs of its steps.
`Takes` says of every run what holds of the tokens that it read, and its lemmas
take a rule apart.
-/

namespace LetLang

@[simp] theorem Cursor.current_cons {stop : EndMark} :
    (Cursor.mk (t :: rest) stop).current = t := rfl

/-- Whether a rule gives a value on the way from one cursor to another. -/
def Rule.Reads (rule : Rule α) (c : Cursor) (a : α) (c' : Cursor) : Prop := rule.run c = .ok a c'

/-- Whether the tokens that a rule reads are good whenever it gives a value. -/
def Rule.Takes (rule : Rule α) (c : Cursor) (good : List Token → α → Cursor → Prop) : Prop :=
  ∀ a c', rule.Reads c a c' → ∃ taken, c.ahead = taken ++ c'.ahead ∧ good taken a c'

/-- Whether a rule reads just the token that it gives. -/
abbrev Rule.TakesToken (rule : Rule Token) (c : Cursor) (p : Token → Prop) : Prop :=
  rule.Takes c fun taken t _ => p t ∧ taken = [t]

-- ---------------------------------------------------------------------------
-- Putting runs together
-- ---------------------------------------------------------------------------

namespace Rule.Reads

variable {α β : Type} {c c' c'' : Cursor}

theorem pure : (Pure.pure a : Rule α).Reads c a c := rfl

theorem bind {rule : Rule α} {next : α → Rule β} (h : rule.Reads c a c')
    (hn : (next a).Reads c' b c'') : (rule >>= next).Reads c b c'' := by
  unfold Reads at *
  rw [EStateM.run_bind, h]
  exact hn

theorem last {rule : Rule α} {f : α → β} (h : rule.Reads c a c') :
    (rule >>= fun a => Pure.pure (f a)).Reads c (f a) c' := h.bind .pure

theorem kind {next : Kind → Rule α} (h : (next c.current.kind).Reads c a c') :
    (Rule.kind >>= next).Reads c a c' := h

theorem current {next : Token → Rule α} (h : (next c.current).Reads c a c') :
    (Rule.current >>= next).Reads c a c' := h

theorem advance : Rule.advance.Reads ⟨t :: rest, stop⟩ t ⟨rest, stop⟩ := rfl

theorem expect (hk : t.kind = expected) :
    (Rule.expect expected).Reads ⟨t :: rest, stop⟩ t ⟨rest, stop⟩ := by
  unfold Rule.expect
  refine .kind ?_
  rw [Cursor.current_cons, if_pos hk]
  exact .advance

theorem expectPunct (hk : t.kind = .punct mark) :
    (Rule.expectPunct mark).Reads ⟨t :: rest, stop⟩ t ⟨rest, stop⟩ := .expect hk

end Rule.Reads

-- ---------------------------------------------------------------------------
-- Taking runs apart
-- ---------------------------------------------------------------------------

namespace Rule.Takes

variable {α β : Type} {c : Cursor} {good : List Token → α → Cursor → Prop}
  {best : List Token → β → Cursor → Prop}

theorem pure (h : good [] a c) : (Pure.pure a : Rule α).Takes c good := by
  rintro _ _ ⟨⟩
  exact ⟨[], rfl, h⟩

theorem bind {rule : Rule α} {next : α → Rule β} (h : rule.Takes c good)
    (hn : ∀ taken a c', good taken a c' →
      (next a).Takes c' fun more b c'' => best (taken ++ more) b c'') :
    (rule >>= next).Takes c best := by
  intro b c'' hr
  unfold Reads at hr
  rw [EStateM.run_bind] at hr
  cases ha : rule.run c with
  | error d c' =>
    rw [ha] at hr
    cases hr
  | ok a c' =>
    rw [ha] at hr
    obtain ⟨taken, ht, hg⟩ := h a c' ha
    obtain ⟨more, hm, hb⟩ := hn taken a c' hg b c'' hr
    exact ⟨taken ++ more, by rw [ht, hm, List.append_assoc], hb⟩

theorem imp {rule : Rule α} {other : List Token → α → Cursor → Prop} (h : rule.Takes c good)
    (hi : ∀ taken a c', good taken a c' → other taken a c') : rule.Takes c other := by
  intro a c' hr
  obtain ⟨taken, ht, hg⟩ := h a c' hr
  exact ⟨taken, ht, hi taken a c' hg⟩

theorem last {rule : Rule α} {f : α → β} (h : rule.Takes c good)
    (hn : ∀ taken a c', good taken a c' → best taken (f a) c') :
    (rule >>= fun a => Pure.pure (f a)).Takes c best := by
  refine h.bind ?_
  intro taken a c' hg
  exact .pure (by simpa using hn taken a c' hg)

theorem kind {next : Kind → Rule α} (h : (next c.current.kind).Takes c good) :
    (Rule.kind >>= next).Takes c good := h

theorem current {next : Token → Rule α} (h : (next c.current).Takes c good) :
    (Rule.current >>= next).Takes c good := h

theorem throw : (MonadExcept.throw d : Rule α).Takes c good := fun _ _ h => nomatch h

theorem unexpected : (Rule.unexpected expected : Rule α).Takes c good := fun _ _ h => nomatch h

theorem tooDeep : (Rule.tooDeep : Rule α).Takes c good := fun _ _ h => nomatch h

theorem advance (hk : c.current.kind ≠ .eof) : Rule.advance.TakesToken c (· = c.current) := by
  rintro _ _ ⟨⟩
  obtain ⟨ahead, stop⟩ := c
  cases ahead with
  | nil => exact absurd rfl hk
  | cons t rest => exact ⟨[t], rfl, rfl, rfl⟩

theorem expect {expected : Kind} (hk : expected ≠ .eof) :
    (Rule.expect expected).TakesToken c (·.kind = expected) := by
  unfold Rule.expect
  refine .kind ?_
  split
  · next h =>
    refine (Takes.advance (h ▸ hk)).imp ?_
    rintro _ _ _ ⟨rfl, rfl⟩
    exact ⟨h, rfl⟩
  · exact .unexpected

theorem expectKeyword (word : Keyword) :
    (Rule.expect (.keyword word)).TakesToken c (·.kind = .keyword word) := .expect nofun

theorem expectName : (Rule.expect .identifier).TakesToken c (·.kind = .identifier) :=
  .expect nofun

theorem expectPunct (mark : Punct) :
    (Rule.expectPunct mark).TakesToken c (·.kind = .punct mark) := .expect nofun

theorem first {rule : Rule Token} {next : Token → Rule β} {p : Token → Prop}
    (h : rule.TakesToken c p)
    (hn : ∀ t c', p t → (next t).Takes c' fun more b c'' => best (t :: more) b c'') :
    (rule >>= next).Takes c best := by
  refine h.bind ?_
  rintro _ t c' ⟨ht, rfl⟩
  exact hn t c' ht

end Rule.Takes

end LetLang
