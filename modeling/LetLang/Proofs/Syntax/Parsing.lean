import LetLang.Proofs.Syntax.Rules
import LetLang.Proofs.Token.Readings
import LetLang.Syntax.Packing

/-!
# Parsing the tokens of a source

The tokens of a source parse to a module that is made from them, or to a
diagnostic of the grammar at one of them. No source can write the name of the
pack, so the modules of sources avoid it.
-/

namespace LetLang

theorem Rule.ofGrammar_yields {rule : Grammar → Rule α} {good : α → Cursor → Prop}
    (h : ∀ g, Grammar.Sound p g c.ahead.length → (rule g).Yields p c good) :
    (Rule.ofGrammar rule).Yields p c good :=
  h _ (Grammar.deep_sound p _)

theorem Rule.decls_yields : Rule.decls.Yields p c fun ds _ =>
    ∀ d ∈ ds, Decl.Every (Node.From p) d :=
  Rule.ofGrammar_yields fun _ hg => Grammar.declsRule_yields hg (Nat.le_refl _)

theorem Rule.Yields.onTokens {rule : Rule α} (h : rule.Yields p (.ofTokens tokens) good)
    (hp : (Cursor.ofTokens tokens).All p) :
    (∃ a c, rule.onTokens tokens = .ok a ∧ good a c) ∨
      ∃ d, rule.onTokens tokens = .error d ∧ d.Blames p := by
  have h := h hp
  unfold Rule.onTokens
  cases hr : rule.run (.ofTokens tokens) with
  | ok a c =>
    rw [hr] at h
    exact .inl ⟨a, c, rfl, h.2⟩
  | error d c =>
    rw [hr] at h
    exact .inr ⟨d, rfl, h.2⟩

theorem parse_cases (hp : (Cursor.ofTokens tokens).All p) :
    (∃ m, parse tokens = .ok m ∧ m.Every (Node.From p)) ∨
      ∃ d, parse tokens = .error d ∧ d.Blames p := by
  unfold parse
  rcases Rule.decls_yields.onTokens hp with ⟨ds, -, hr, hd⟩ | ⟨d, hr, hb⟩
  · rw [hr]
    exact .inl ⟨⟨ds⟩, rfl, hd⟩
  · rw [hr]
    exact .inr ⟨d, rfl, hb⟩

/-- What is parsed can be written, whatever the tokens are. -/
theorem parse_shaped (h : parse tokens = .ok m) : m.Every Node.Shaped := by
  rcases parse_cases (p := fun _ => True) ⟨fun _ _ => trivial, trivial⟩ with
    ⟨m', hm, he⟩ | ⟨d, hd, -⟩
  · cases h.symm.trans hm
    exact he.imp fun _ hn => hn.shaped
  · cases h.symm.trans hd

-- ---------------------------------------------------------------------------
-- Tokens of a source
-- ---------------------------------------------------------------------------

theorem SourceTokens.lexed (h : SourceTokens tokens) : ∀ t ∈ tokens, t.Lexed := by
  induction h with
  | ended hl hk => exact List.forall_mem_singleton.mpr hl
  | more hl hk _ ih => exact List.forall_mem_cons.mpr ⟨hl, ih⟩

theorem SourceTokens.eq_append (h : SourceTokens tokens) :
    ∃ front last, tokens = front ++ [last] ∧ last.kind = .eof ∧ ∀ t ∈ front, t.kind ≠ .eof := by
  induction h with
  | ended hl hk => exact ⟨[], _, rfl, hk, nofun⟩
  | more hl hk _ ih =>
    obtain ⟨front, last, rfl, hlast, hf⟩ := ih
    exact ⟨_ :: front, last, rfl, hlast, List.forall_mem_cons.mpr ⟨hk, hf⟩⟩

theorem SourceTokens.all (h : SourceTokens tokens) : (Cursor.ofTokens tokens).All (· ∈ tokens) := by
  obtain ⟨front, ⟨kind, value, position⟩, rfl, hk, -⟩ := h.eq_append
  obtain rfl : kind = .eof := hk
  have hc : Cursor.ofTokens (front ++ [⟨.eof, value, position⟩]) = ⟨front, ⟨value, position⟩⟩ := by
    simp [Cursor.ofTokens]
  rw [hc]
  exact ⟨fun t ht => List.mem_append_left _ ht, List.mem_append_right _ List.mem_cons_self⟩

theorem parse_from (ht : SourceTokens tokens) (h : parse tokens = .ok m) :
    m.Every (Node.From (· ∈ tokens)) := by
  rcases parse_cases ht.all with ⟨m', hm, he⟩ | ⟨d, hd, -⟩
  · cases h.symm.trans hm
    exact he
  · cases h.symm.trans hd

theorem parse_failsAs (ht : SourceTokens tokens) : FailsAs .grammatical (parse tokens) := by
  intro d h
  rcases parse_cases ht.all with ⟨m, hm, -⟩ | ⟨d', hd, t, hmem, -, hs | ⟨hk, hv, -⟩⟩
  · cases h.symm.trans hm
  · cases h.symm.trans hd
    exact hs
  · have hc := (ht.lexed t hmem).char hk
    rw [hv] at hc
    cases hc

theorem packName_ne_word (hn : name.toList = c :: rest) (hc : isWordStart c = true) :
    name ≠ packName := by
  rintro rfl
  have hd : packName.toList = '$' :: ['a', 'r', 'g', 's'] := by decide
  cases hd.symm.trans hn
  revert hc
  decide

/-- A node made from the tokens of a source does not hold the name of the pack. -/
theorem Node.From.avoids_packName (hn : Node.From (· ∈ tokens) n) (ht : SourceTokens tokens) :
    n.Avoids packName := by
  intro hm
  obtain ⟨t, hmem, hk, hv⟩ := hn.names _ hm
  obtain ⟨c, rest, hw, hc⟩ := (ht.lexed t hmem).name hk
  exact packName_ne_word hw hc hv

theorem parse_avoids (ht : SourceTokens tokens) (h : parse tokens = .ok m) : m.Avoids packName :=
  (parse_from ht h).imp fun _ hn => hn.avoids_packName ht

end LetLang
