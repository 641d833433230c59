import LetLang.Proofs.Syntax.Nodes
import LetLang.Proofs.Syntax.Yields
import LetLang.Syntax.TypeGrammar

/-!
# The rules of types

Every rule of types yields types that are made from the tokens it takes. A rule
refers to others only behind a token, so the rules of a grammar that is sound
for fewer tokens make one that is sound for one token more, and the grammar of
as many steps as there are tokens never runs out of them.
-/

namespace LetLang

/-- Whether the rules of a grammar are sound at cursors with fewer tokens ahead. -/
structure TypeGrammar.Sound (p : Token → Prop) (g : TypeGrammar) (count : Nat) : Prop where
  type : ∀ bp c, c.ahead.length < count →
    (g.type bp).Yields p c fun a c' => c'.ahead.length < c.ahead.length ∧ a.From p
  arrows : ∀ bp left c, c.ahead.length < count → left.From p →
    (g.arrows bp left).Yields p c fun a _ => a.From p
  moreItems : ∀ c, c.ahead.length < count →
    g.moreItems.Yields p c fun items _ => Ty.AllPlain items ∧
      (c.current.kind = .punct .comma → items ≠ [])
  moreReturns : ∀ c, c.ahead.length < count →
    g.moreReturns.Yields p c fun returns _ => ∀ a ∈ returns, a.From p

namespace TypeGrammar

variable {p : Token → Prop} {g : TypeGrammar} {count : Nat} {c : Cursor}

theorem namedRule_yields : namedRule.Yields p c fun a c' =>
    c'.ahead.length < c.ahead.length ∧ a.From p := by
  unfold namedRule
  refine .kind ?_
  split
  · next name hk =>
    refine (Rule.Yields.advance (by simp [hk])).bind ?_
    rintro t c' - ⟨-, ht, hl⟩
    exact .pure fun _ => ⟨hl, ⟨t, ht, rfl⟩, trivial⟩
  · exact .unexpected

theorem listRule_yields (hg : g.Sound p count) (hc : c.ahead.length ≤ count) :
    g.listRule.Yields p c fun a c' => c'.ahead.length < c.ahead.length ∧ a.From p := by
  unfold listRule
  refine (Rule.Yields.expectPunct _).bind ?_
  rintro start c₁ - ⟨-, hs, h₁⟩
  refine (hg.type _ _ (by omega)).bind ?_
  rintro item c₂ - ⟨h₂, hi⟩
  refine (Rule.Yields.expectPunct _).bind ?_
  rintro _ c₃ h₃ -
  exact .pure fun _ => ⟨by omega, ⟨start, hs, rfl⟩, hi.plain⟩

theorem parensRule_yields (hg : g.Sound p count) (hc : c.ahead.length ≤ count) :
    g.parensRule.Yields p c fun a c' => c'.ahead.length < c.ahead.length ∧ a.From p := by
  unfold parensRule
  refine (Rule.Yields.expectPunct _).bind ?_
  rintro start c₁ - ⟨-, hs, h₁⟩
  refine .kind ?_
  split
  · next hk =>
    refine (Rule.Yields.advance (by simp [hk])).bind ?_
    rintro _ c₂ h₂ -
    exact .pure fun _ => ⟨by omega, ⟨start, hs, rfl⟩, nofun, trivial⟩
  · refine (hg.type _ _ (by omega)).bind ?_
    rintro first c₂ - ⟨h₂, hf⟩
    refine .kind ?_
    split
    · next hk =>
      refine (hg.moreItems _ (by omega)).bind ?_
      rintro items c₃ h₃ ⟨hi, hne⟩
      refine (Rule.Yields.expectPunct _).bind ?_
      rintro _ c₄ h₄ -
      refine .pure fun _ => ⟨by omega, ⟨start, hs, rfl⟩, ?_, hf.plain, hi⟩
      simpa using hne hk
    · refine (Rule.Yields.expectPunct _).bind ?_
      rintro _ c₃ h₃ -
      exact .pure fun _ => ⟨by omega, ⟨start, hs, rfl⟩, hf.plain⟩

theorem arrowRule_yields (hg : g.Sound p count) (hc : c.ahead.length ≤ count) (hl : left.From p) :
    (g.arrowRule left).Yields p c fun a c' => c'.ahead.length < c.ahead.length ∧ a.From p := by
  unfold arrowRule
  refine (Rule.Yields.expectPunct _).bind ?_
  rintro _ c₁ - ⟨-, -, h₁⟩
  refine (hg.type _ _ (by omega)).bind ?_
  rintro right c₂ - ⟨h₂, hr⟩
  exact .pure fun _ => ⟨by omega, hl.position, hl.plain, hr.plain⟩

theorem frontRule_yields (hg : g.Sound p count) (hc : c.ahead.length ≤ count) :
    g.frontRule.Yields p c fun a c' => c'.ahead.length < c.ahead.length ∧ a.From p := by
  unfold frontRule
  refine .kind ?_
  split
  · exact namedRule_yields
  · exact listRule_yields hg hc
  · exact parensRule_yields hg hc
  · exact .unexpected

theorem typeRule_yields (bp : BindingPower) (hg : g.Sound p count) (hc : c.ahead.length ≤ count) :
    (g.typeRule bp).Yields p c fun a c' => c'.ahead.length < c.ahead.length ∧ a.From p := by
  unfold typeRule
  refine (frontRule_yields hg hc).bind ?_
  rintro left c₁ - ⟨h₁, hl⟩
  refine (hg.arrows _ _ _ (by omega) hl).imp ?_
  intro a c₂ h₂ ha
  exact ⟨by omega, ha⟩

theorem arrowsRule_yields (bp : BindingPower) (hg : g.Sound p count) (hc : c.ahead.length ≤ count)
    (hl : left.From p) : (g.arrowsRule bp left).Yields p c fun a _ => a.From p := by
  unfold arrowsRule
  refine .kind ?_
  split
  · split
    · refine (arrowRule_yields hg hc hl).bind ?_
      rintro arrow c₁ - ⟨h₁, ha⟩
      exact hg.arrows _ _ _ (by omega) ha
    · exact .pure fun _ => hl
  · exact .pure fun _ => hl

theorem moreItemsRule_yields (hg : g.Sound p count) (hc : c.ahead.length ≤ count) :
    g.moreItemsRule.Yields p c fun items _ => Ty.AllPlain items ∧
      (c.current.kind = .punct .comma → items ≠ []) := by
  unfold moreItemsRule
  refine .kind ?_
  split
  · next hk =>
    refine (Rule.Yields.advance (by simp [hk])).bind ?_
    rintro _ c₁ - ⟨-, -, h₁⟩
    refine (hg.type _ _ (by omega)).bind ?_
    rintro item c₂ - ⟨h₂, hi⟩
    refine (hg.moreItems _ (by omega)).bind ?_
    rintro items c₃ - ⟨hs, -⟩
    exact .pure fun _ => ⟨⟨hi.plain, hs⟩, fun _ => List.cons_ne_nil _ _⟩
  · next hk => exact .pure fun _ => ⟨trivial, fun h => absurd h hk⟩

theorem moreReturnsRule_yields (hg : g.Sound p count) (hc : c.ahead.length ≤ count) :
    g.moreReturnsRule.Yields p c fun returns _ => ∀ a ∈ returns, a.From p := by
  unfold moreReturnsRule
  refine .kind ?_
  split
  · next hk =>
    refine (Rule.Yields.advance (by simp [hk])).bind ?_
    rintro _ c₁ - ⟨-, -, h₁⟩
    refine (hg.type _ _ (by omega)).bind ?_
    rintro item c₂ - ⟨h₂, hi⟩
    refine (hg.moreReturns _ (by omega)).bind ?_
    rintro returns c₃ - hs
    exact .pure fun _ => List.forall_mem_cons.mpr ⟨hi, hs⟩
  · exact .pure fun _ => nofun

theorem returnsRule_yields (hg : g.Sound p count) (hc : c.ahead.length ≤ count) :
    g.returnsRule.Yields p c fun returns c' => c'.ahead.length < c.ahead.length ∧
      returns ≠ [] ∧ ∀ a ∈ returns, a.From p := by
  unfold returnsRule
  refine (typeRule_yields _ hg hc).bind ?_
  rintro first c₁ - ⟨h₁, hf⟩
  refine (moreReturnsRule_yields hg (by omega)).bind ?_
  rintro more c₂ h₂ hs
  exact .pure fun _ => ⟨by omega, List.cons_ne_nil _ _, List.forall_mem_cons.mpr ⟨hf, hs⟩⟩

-- ---------------------------------------------------------------------------
-- Enough steps
-- ---------------------------------------------------------------------------

theorem Sound.unfold (hg : g.Sound p count) : g.unfold.Sound p (count + 1) where
  type bp _ hc := typeRule_yields bp hg (Nat.le_of_lt_succ hc)
  arrows bp _ _ hc hl := arrowsRule_yields bp hg (Nat.le_of_lt_succ hc) hl
  moreItems _ hc := moreItemsRule_yields hg (Nat.le_of_lt_succ hc)
  moreReturns _ hc := moreReturnsRule_yields hg (Nat.le_of_lt_succ hc)

/-- A grammar with a step for each token ahead is sound. -/
theorem deep_sound (p : Token → Prop) (count : Nat) : (deep count).Sound p count := by
  induction count with
  | zero => exact ⟨nofun, nofun, nofun, nofun⟩
  | succ count ih => exact ih.unfold

end TypeGrammar

namespace Rule

variable {p : Token → Prop} {c : Cursor}

theorem ofTypes_yields {rule : TypeGrammar → Rule α} {good : α → Cursor → Prop}
    (h : ∀ g, TypeGrammar.Sound p g c.ahead.length → (rule g).Yields p c good) :
    (Rule.ofTypes rule).Yields p c good :=
  h _ (TypeGrammar.deep_sound p _)

theorem type_yields (bp : BindingPower) : (Rule.type bp).Yields p c fun a c' =>
    c'.ahead.length < c.ahead.length ∧ a.From p :=
  ofTypes_yields fun _ hg => TypeGrammar.typeRule_yields bp hg (Nat.le_refl _)

theorem returns_yields : Rule.returns.Yields p c fun returns c' =>
    c'.ahead.length < c.ahead.length ∧ returns ≠ [] ∧ ∀ a ∈ returns, a.From p :=
  ofTypes_yields fun _ hg => TypeGrammar.returnsRule_yields hg (Nat.le_refl _)

end Rule

end LetLang
