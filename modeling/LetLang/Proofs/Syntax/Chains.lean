import LetLang.Proofs.Syntax.Lookahead
import LetLang.Proofs.Syntax.ReadableTypes
import LetLang.Syntax.Packing

/-!
# Chains of returned types

Types with arrows between them are read in two ways: as one type, whose arrows
nest to the right, and as the chain of types that a function returns. The first
way refers to itself behind each arrow and the second way goes on in a loop, but
both take the same tokens, fail alike, and say the same: the type is the chain,
curried.

With a step for each token ahead the rules of types do not depend on how many
steps there are, so they are compared here without counting steps.
-/

namespace LetLang

-- ---------------------------------------------------------------------------
-- Runs side by side
-- ---------------------------------------------------------------------------

namespace Rule

variable {α β γ δ : Type} {c : Cursor} {rule : Rule α} {other : Rule β}
  {same : α → β → Cursor → Prop} {good : α → Cursor → Prop}

/-- Whether two rules stop at the same cursor, with values that match or with
the same diagnostic. -/
def Agrees (rule : Rule α) (other : Rule β) (c : Cursor) (same : α → β → Cursor → Prop) : Prop :=
  match rule.run c with
  | .ok a c' => ∃ b, other.run c = .ok b c' ∧ same a b c'
  | .error d c' => other.run c = .error d c'

theorem Agrees.congr {rule' : Rule α} {other' : Rule β} (h : rule'.Agrees other' c same)
    (hr : rule.run c = rule'.run c) (ho : other.run c = other'.run c) :
    rule.Agrees other c same := by
  unfold Agrees at *
  rw [hr, ho]
  exact h

theorem Agrees.pure (h : same a b c) : (Pure.pure a : Rule α).Agrees (Pure.pure b) c same :=
  ⟨b, rfl, h⟩

theorem Agrees.bind {next : α → Rule γ} {next' : β → Rule δ} {best : γ → δ → Cursor → Prop}
    (h : rule.Agrees other c same)
    (hn : ∀ a b c', same a b c' → (next a).Agrees (next' b) c' best) :
    (rule >>= next).Agrees (other >>= next') c best := by
  unfold Agrees at *
  rw [EStateM.run_bind, EStateM.run_bind]
  cases hr : rule.run c with
  | error d c' =>
    rw [hr] at h
    simp only [h]
  | ok a c' =>
    rw [hr] at h
    obtain ⟨b, ho, hs⟩ := h
    simp only [ho]
    exact hn a b c' hs

theorem Yields.agrees (h : rule.Yields (fun _ => True) c good) :
    rule.Agrees rule c fun a b c' => a = b ∧ c'.ahead.length ≤ c.ahead.length ∧ good a c' := by
  have h := h ⟨fun _ _ => trivial, trivial⟩
  unfold Agrees
  cases hr : rule.run c with
  | error d c' => rfl
  | ok a c' =>
    rw [hr] at h
    exact ⟨a, rfl, rfl, h.1.length_le, h.2⟩

/-- What a rule does depends on its next step only where its value is good. -/
theorem Yields.bind_congr {next next' : α → Rule γ} (h : rule.Yields (fun _ => True) c good)
    (hn : ∀ a c', c'.ahead.length ≤ c.ahead.length → good a c' →
      (next a).run c' = (next' a).run c') :
    (rule >>= next).run c = (rule >>= next').run c := by
  have h := h ⟨fun _ _ => trivial, trivial⟩
  rw [EStateM.run_bind, EStateM.run_bind]
  cases hr : rule.run c with
  | error d c' => rfl
  | ok a c' =>
    rw [hr] at h
    exact hn a c' h.1.length_le h.2

-- ---------------------------------------------------------------------------
-- Rules without steps
-- ---------------------------------------------------------------------------

def frontType : Rule Ascription := ofTypes (·.frontRule)

def arrows (bp : BindingPower) (left : Ascription) : Rule Ascription :=
  ofTypes (·.arrowsRule bp left)

def moreReturns : Rule (List Ascription) := ofTypes (·.moreReturnsRule)

theorem frontType_yields : frontType.Yields p c fun a c' =>
    c'.ahead.length < c.ahead.length ∧ a.From p :=
  ofTypes_yields fun _ hg => TypeGrammar.frontRule_yields hg (Nat.le_refl _)

end Rule

theorem Ascription.From.of_plain {a : Ascription} (h : a.ty.Plain) : a.From fun _ => True :=
  ⟨⟨⟨.eof, "", a.position⟩, trivial, rfl⟩, h⟩

namespace TypeGrammar

variable {c : Cursor} {left : Ascription} {good : α → Cursor → Prop}

theorem run_inner (rule : TypeGrammar → Rule α)
    (hy : ∀ g : TypeGrammar, g.Sound (fun _ => True) c.ahead.length →
      (rule g.unfold).Yields (fun _ => True) c good)
    (he : ∀ g other : TypeGrammar, g.Echoes other → (rule g.unfold).Echoes (rule other.unfold) c)
    (h : c.ahead.length < steps) :
    (rule (deep steps)).run c = (Rule.ofTypes fun g => rule g.unfold).run c := by
  cases steps with
  | zero => exact absurd h (Nat.not_lt_zero _)
  | succ steps =>
    have hy := hy _ (deep_sound _ _)
    have he := he _ _ (deep_echoes (Nat.le_of_lt_succ h))
    exact he.run_eq fun _ _ hr => hy.not_tooDeep hr

theorem type_inner (h : c.ahead.length < steps) :
    ((deep steps).type bp).run c = (Rule.type bp).run c :=
  run_inner (·.type bp) (fun _ hg => typeRule_yields bp hg (Nat.le_refl _))
    (fun _ _ hg => typeRule_echoes hg bp) h

theorem arrows_inner (hl : left.ty.Plain) (h : c.ahead.length < steps) :
    ((deep steps).arrows bp left).run c = (Rule.arrows bp left).run c :=
  run_inner (·.arrows bp left)
    (fun _ hg => arrowsRule_yields bp hg (Nat.le_refl _) (.of_plain hl))
    (fun _ _ hg => arrowsRule_echoes hg bp left) h

theorem moreReturns_inner (h : c.ahead.length < steps) :
    ((deep steps).moreReturns).run c = Rule.moreReturns.run c :=
  run_inner (·.moreReturns) (fun _ hg => moreReturnsRule_yields hg (Nat.le_refl _))
    (fun _ _ hg => moreReturnsRule_echoes hg) h

end TypeGrammar

namespace Rule

variable {c : Cursor} {left : Ascription}

theorem type_run : (type bp).run c = (frontType >>= arrows bp).run c :=
  frontType_yields.bind_congr fun _ _ _ ⟨hl, ha⟩ => TypeGrammar.arrows_inner ha.plain hl

theorem arrows_end (hk : c.current.kind ≠ .punct .arrow) : (arrows bp left).run c = .ok left c :=
  (TypeGrammar.arrowsRule_stops fun h => absurd h hk).run

theorem arrows_arrow : (arrows .arrow left).run c = .ok left c :=
  (TypeGrammar.arrowsRule_stops fun _ => by decide).run

theorem type_arrow_run : (type .arrow).run c = frontType.run c := by
  rw [type_run, EStateM.run_bind]
  cases frontType.run c with
  | error d c' => rfl
  | ok a c' => exact arrows_arrow

theorem kind_run {next : Kind → Rule α} :
    (kind >>= next).run c = (next c.current.kind).run c := rfl

theorem expectPunct_run (hk : c.current.kind = .punct mark) :
    (expectPunct mark).run c = advance.run c := by
  rw [expectPunct, expect, kind_run, if_pos hk]

theorem arrows_run (hl : left.ty.Plain) (hk : c.current.kind = .punct .arrow) :
    (arrows .whole left).run c =
      (do
        let _ ← advance
        let right ← type .whole
        arrows .whole ⟨.func left.ty right.ty, left.position⟩ : Rule Ascription).run c := by
  let g := TypeGrammar.deep c.ahead.length
  calc (arrows .whole left).run c
    _ = (g.arrowsRule .whole left).run c := rfl
    _ = (g.arrowRule left >>= g.arrows .whole).run c := by
      rw [TypeGrammar.arrowsRule, kind_run, hk]
      rfl
    _ = (do
        let _ ← expectPunct .arrow
        let right ← g.type .whole
        g.arrows .whole ⟨.func left.ty right.ty, left.position⟩ : Rule Ascription).run c := by
      simp only [TypeGrammar.arrowRule, bind_assoc, pure_bind]
    _ = _ := by
      rw [EStateM.run_bind, expectPunct_run hk, ← EStateM.run_bind]
      refine (Yields.advance (by simp [hk])).bind_congr fun _ c₁ _ ⟨_, _, h₁⟩ => ?_
      rw [EStateM.run_bind, TypeGrammar.type_inner h₁, ← EStateM.run_bind]
      refine (type_yields _).bind_congr fun right c₂ h₂ ⟨_, hr⟩ => ?_
      exact TypeGrammar.arrows_inner ⟨hl, hr.plain⟩ (Nat.lt_of_le_of_lt h₂ h₁)

theorem returns_run :
    returns.run c =
      (do
        let first ← frontType
        return first :: (← moreReturns) : Rule (List Ascription)).run c := by
  let g := TypeGrammar.deep c.ahead.length
  calc returns.run c
    _ = (do
        let first ← type .arrow
        return first :: (← g.moreReturnsRule) : Rule (List Ascription)).run c := rfl
    _ = _ := by
      rw [EStateM.run_bind, type_arrow_run, ← EStateM.run_bind]
      refine frontType_yields.bind_congr fun first c₁ h₁ _ => ?_
      -- these rules are the rules of the grammar with one step more
      have hm := TypeGrammar.moreReturns_inner (Nat.lt_succ_of_le h₁)
      change g.moreReturnsRule.run c₁ = moreReturns.run c₁ at hm
      rw [EStateM.run_bind, hm, ← EStateM.run_bind]

theorem moreReturns_end (hk : c.current.kind ≠ .punct .arrow) : moreReturns.run c = .ok [] c := by
  let g := TypeGrammar.deep c.ahead.length
  change g.moreReturnsRule.run c = _
  rw [TypeGrammar.moreReturnsRule, kind_run, if_neg hk]
  rfl

theorem moreReturns_run (hk : c.current.kind = .punct .arrow) :
    moreReturns.run c = (advance >>= fun _ => returns).run c := by
  let g := TypeGrammar.deep c.ahead.length
  calc moreReturns.run c
    _ = g.moreReturnsRule.run c := rfl
    _ = (do
        let _ ← advance
        let item ← g.type .arrow
        return item :: (← g.moreReturns) : Rule (List Ascription)).run c := by
      rw [TypeGrammar.moreReturnsRule, kind_run, if_pos hk]
    _ = _ := by
      refine (Yields.advance (by simp [hk])).bind_congr fun _ c₁ _ ⟨_, _, h₁⟩ => ?_
      rw [returns_run, EStateM.run_bind, TypeGrammar.type_inner h₁, type_arrow_run,
        ← EStateM.run_bind]
      refine frontType_yields.bind_congr fun item c₂ h₂ _ => ?_
      rw [EStateM.run_bind, TypeGrammar.moreReturns_inner (Nat.lt_of_le_of_lt h₂ h₁),
        ← EStateM.run_bind]

end Rule

-- ---------------------------------------------------------------------------
-- Chains and types
-- ---------------------------------------------------------------------------

/-- Whether a type is a chain of types, curried, in the place where the chain begins. -/
def Ascription.Curries (a : Ascription) (chain : List Ascription) : Prop :=
  Ty.curried? (chain.map (·.ty)) = some a.ty ∧ chain.head?.map (·.position) = some a.position

theorem Ascription.Curries.one (a : Ascription) : a.Curries [a] := ⟨rfl, rfl⟩

theorem Ascription.Curries.cons {a : Ascription} (h : a.Curries chain) (left : Ascription) :
    Ascription.Curries ⟨.func left.ty a.ty, left.position⟩ (left :: chain) := by
  obtain ⟨hc, -⟩ := h
  refine ⟨?_, rfl⟩
  cases chain with
  | nil => cases hc
  | cons first more =>
    change (Ty.curried? ((first :: more).map (·.ty))).map (Ty.func left.ty) = _
    rw [hc]
    rfl

theorem Ascription.Curries.packReturns {a : Ascription} (h : a.Curries chain) :
    LetLang.packReturns chain = [a] := by
  obtain ⟨hc, hp⟩ := h
  cases chain with
  | nil => cases hp
  | cons first more =>
    unfold LetLang.packReturns
    have hp : first.position = a.position := Option.some.inj hp
    simp only [hc, List.head?_cons, hp]

namespace Rule

variable {c : Cursor} {left : Ascription}

/-- A type goes on like a chain if behind the arrow a type is read like a chain. -/
theorem arrows_agrees (hl : left.ty.Plain)
    (hc : ∀ c' : Cursor, c'.ahead.length < c.ahead.length →
      (type .whole).Agrees returns c' fun a chain c' =>
        a.Curries chain ∧ c'.current.kind ≠ .punct .arrow) :
    (arrows .whole left).Agrees (do return left :: (← moreReturns)) c fun a chain c' =>
      a.Curries chain ∧ c'.current.kind ≠ .punct .arrow := by
  by_cases hk : c.current.kind = .punct .arrow
  · have hm : (do return left :: (← moreReturns) : Rule (List Ascription)).run c =
        (do
          let _ ← advance
          let chain ← returns
          return left :: chain : Rule (List Ascription)).run c := by
      rw [EStateM.run_bind, moreReturns_run hk, ← EStateM.run_bind, bind_assoc]
    refine .congr ?_ (arrows_run hl hk) hm
    refine (Yields.advance (by simp [hk])).agrees.bind ?_
    rintro _ _ c₁ ⟨rfl, -, -, -, h₁⟩
    refine (hc c₁ h₁).bind ?_
    rintro right chain c₂ ⟨hr, hn⟩
    exact .congr (.pure ⟨hr.cons left, hn⟩) (arrows_end hn) rfl
  · refine .congr (.pure ⟨.one left, hk⟩) (arrows_end hk) ?_
    rw [EStateM.run_bind, moreReturns_end hk]

theorem type_agrees : (type .whole).Agrees returns c fun a chain c' =>
    a.Curries chain ∧ c'.current.kind ≠ .punct .arrow := by
  -- Behind each arrow there are fewer tokens ahead.
  induction hn : c.ahead.length using Nat.strongRecOn generalizing c with
  | ind n ih =>
  subst hn
  refine .congr ?_ type_run returns_run
  refine frontType_yields.agrees.bind ?_
  rintro left _ c₁ ⟨rfl, -, h₁, hl⟩
  exact arrows_agrees hl.plain fun c₂ h₂ => ih _ (Nat.lt_trans h₂ h₁) rfl

/-- One type and a chain of types are read from the same tokens, and the type is
the chain, curried, in the place where the chain begins, as packing makes it.
Where there is no type there is no chain, and the diagnostic is the same. -/
theorem type_curries_returns (c : Cursor) :
    (∀ a c', (type .whole).run c = .ok a c' ↔ ∃ chain, returns.run c = .ok chain c' ∧
      Ty.curried? (chain.map (·.ty)) = some a.ty ∧
        chain.head?.map (·.position) = some a.position ∧ packReturns chain = [a]) ∧
      ∀ d c', (type .whole).run c = .error d c' ↔ returns.run c = .error d c' := by
  have h := type_agrees (c := c)
  unfold Agrees at h
  cases hr : (type .whole).run c with
  | ok a c' =>
    rw [hr] at h
    obtain ⟨chain, ho, hc, -⟩ := h
    rw [ho]
    refine ⟨fun b c₂ => ⟨?_, ?_⟩, fun d c₂ => ⟨nofun, nofun⟩⟩
    · rintro ⟨⟩
      exact ⟨chain, rfl, hc.1, hc.2, hc.packReturns⟩
    · rintro ⟨_, ⟨⟩, -, -, hb⟩
      rw [List.singleton_inj.mp (hc.packReturns.symm.trans hb)]
  | error d c' =>
    rw [hr] at h
    rw [h]
    refine ⟨fun a c₂ => ⟨nofun, nofun⟩, fun d c₂ => ⟨?_, ?_⟩⟩
    · rintro ⟨⟩
      rfl
    · rintro ⟨⟩
      rfl

end Rule

end LetLang
