import LetLang.Diagnostic

/-!
# Outcomes

A stage answers with a value or with one diagnostic. These lemmas read such an
answer back: what a sequence of steps that succeeded says of each step, and
which stage a sequence of steps that failed blames.
-/

namespace LetLang

-- ---------------------------------------------------------------------------
-- Success
-- ---------------------------------------------------------------------------

theorem bind_eq_ok {x : Except ε α} {next : α → Except ε β} :
    (x >>= next) = .ok b ↔ ∃ a, x = .ok a ∧ next a = .ok b := by
  constructor
  · intro h
    cases x with
    | error d => cases h
    | ok a => exact ⟨a, rfl, h⟩
  · rintro ⟨a, rfl, h⟩
    exact h

theorem ok_bind {next : α → Except ε β} : (Except.ok a >>= next) = next a := rfl

theorem pure_eq_ok : (pure a : Except ε α) = .ok b ↔ b = a :=
  ⟨fun h => (Except.ok.inj h).symm, fun h => h ▸ rfl⟩

theorem bind_congr_ok {x : Except ε α} {next other : α → Except ε β}
    (h : ∀ a, x = .ok a → next a = other a) : (x >>= next) = (x >>= other) := by
  cases x with
  | error d => rfl
  | ok a => exact h a rfl

theorem isOk_iff {x : Except ε α} : x.isOk = true ↔ ∃ a, x = .ok a := by
  cases x with
  | error d => exact ⟨fun h => (nomatch h), fun ⟨_, h⟩ => (nomatch h)⟩
  | ok a => exact ⟨fun _ => ⟨a, rfl⟩, fun _ => rfl⟩

theorem isOk_eq_false_iff {x : Except ε α} : x.isOk = false ↔ ∃ d, x = .error d := by
  cases x with
  | error d => exact ⟨fun _ => ⟨d, rfl⟩, fun _ => rfl⟩
  | ok a => exact ⟨fun h => (nomatch h), fun ⟨_, h⟩ => (nomatch h)⟩

theorem exists_error_iff {x : Except ε α} : (∃ d, x = .error d) ↔ ∀ a, x ≠ .ok a := by
  cases x with
  | error d => exact ⟨fun _ _ h => (nomatch h), fun _ => ⟨d, rfl⟩⟩
  | ok a => exact ⟨fun ⟨_, h⟩ => (nomatch h), fun h => absurd rfl (h a)⟩

theorem reject_ne_ok : (reject cause position : Except Diagnostic α) ≠ .ok a :=
  fun h => nomatch h

theorem ensure_eq_ok : ensure condition cause position = .ok u ↔ condition = true := by
  unfold ensure
  split
  · next h => simp [h]
  · next h => simp [h, reject]

/-- Whether every value that a run may give is good. -/
def Gives (good : α → Prop) (x : Except ε α) : Prop := ∀ a, x = .ok a → good a

theorem Gives.ok {good : α → Prop} (h : good a) : Gives good (.ok a : Except ε α) := by
  rintro _ ⟨⟩
  exact h

theorem Gives.error {good : α → Prop} : Gives good (.error d : Except ε α) := nofun

theorem Gives.bind {good : α → Prop} {best : β → Prop} {x : Except ε α} {next : α → Except ε β}
    (h : Gives good x) (hn : ∀ a, good a → Gives best (next a)) : Gives best (x >>= next) := by
  cases x with
  | error d => exact .error
  | ok a => exact hn a (h a rfl)

theorem Gives.after {best : β → Prop} {x : Except ε α} {next : α → Except ε β}
    (hn : ∀ a, Gives best (next a)) : Gives best (x >>= next) := by
  have h : Gives (fun _ => True) x := fun _ _ => trivial
  exact h.bind fun a _ => hn a

-- ---------------------------------------------------------------------------
-- Failure
-- ---------------------------------------------------------------------------

theorem bind_pure_eq_error {x : Except ε α} {f : α → β} :
    (do return f (← x)) = .error d ↔ x = .error d := by
  cases x with
  | error e =>
    constructor
    · rintro ⟨⟩
      rfl
    · rintro ⟨⟩
      rfl
  | ok a => exact iff_of_false nofun nofun

/-- Whether every diagnostic of a run belongs to a stage. -/
def FailsAs (stage : Stage) (x : Except Diagnostic α) : Prop := ∀ d, x = .error d → d.stage = stage

theorem FailsAs.ok : FailsAs stage (.ok a) := nofun

theorem FailsAs.reject (h : cause.stage = stage) :
    FailsAs stage (reject cause position : Except Diagnostic α) := by
  rintro _ ⟨⟩
  exact h

theorem FailsAs.ensure (h : cause.stage = stage) :
    FailsAs stage (ensure condition cause position) := by
  unfold LetLang.ensure
  split
  · exact .ok
  · exact .reject h

theorem FailsAs.bind {x : Except Diagnostic α} {next : α → Except Diagnostic β}
    (h : FailsAs stage x) (hn : ∀ a, x = .ok a → FailsAs stage (next a)) :
    FailsAs stage (x >>= next) := by
  cases x with
  | error d =>
    rintro _ ⟨⟩
    exact h d rfl
  | ok a => exact hn a rfl

/-- Whether a run gives a value exactly under a condition, and is a fault otherwise. -/
def FaultsUnless (p : Prop) (x : Except Diagnostic α) : Prop :=
  ((∃ a, x = .ok a) ↔ p) ∧ FailsAs .internal x

theorem FaultsUnless.ok (h : p) : FaultsUnless p (.ok a) := ⟨iff_of_true ⟨a, rfl⟩ h, .ok⟩

theorem FaultsUnless.ensure : FaultsUnless (condition = true)
    (ensure condition (.fault detail) position) := by
  refine ⟨?_, .ensure rfl⟩
  simp only [ensure_eq_ok, exists_const]

theorem FaultsUnless.congr {x : Except Diagnostic α} (h : FaultsUnless p x) (hpq : p ↔ q) :
    FaultsUnless q x := ⟨h.1.trans hpq, h.2⟩

theorem FaultsUnless.bind {x : Except Diagnostic α} {next : α → Except Diagnostic β}
    (h : FaultsUnless p x) (hn : ∀ a, x = .ok a → FaultsUnless q (next a)) :
    FaultsUnless (p ∧ q) (x >>= next) := by
  refine ⟨?_, h.2.bind fun a ha => (hn a ha).2⟩
  constructor
  · rintro ⟨b, hb⟩
    obtain ⟨a, ha, hb⟩ := bind_eq_ok.mp hb
    exact ⟨h.1.mp ⟨a, ha⟩, (hn a ha).1.mp ⟨b, hb⟩⟩
  · rintro ⟨hp, hq⟩
    obtain ⟨a, ha⟩ := h.1.mpr hp
    obtain ⟨b, hb⟩ := (hn a ha).1.mpr hq
    exact ⟨b, bind_eq_ok.mpr ⟨a, ha, hb⟩⟩

theorem FaultsUnless.map {x : Except Diagnostic α} {f : α → β} (h : FaultsUnless p x) :
    FaultsUnless p (do return f (← x)) :=
  (h.bind fun _ _ => .ok trivial).congr (iff_of_eq (and_true p))

-- ---------------------------------------------------------------------------
-- Two runs side by side
-- ---------------------------------------------------------------------------

/-- Whether two runs give related values, or fail with the same diagnostic. -/
inductive Agree (R : α → β → Prop) : Except ε α → Except ε β → Prop where
  | ok : R a b → Agree R (.ok a) (.ok b)
  | error : Agree R (.error d) (.error d)

theorem Agree.bind {x : Except ε α} {y : Except ε β} {f : α → Except ε γ} {g : β → Except ε δ}
    (h : Agree R x y) (hf : ∀ a b, R a b → Agree S (f a) (g b)) : Agree S (x >>= f) (y >>= g) := by
  cases h with
  | ok hr => exact hf _ _ hr
  | error => exact .error

theorem Agree.after {x : Except ε α} {f : α → Except ε β} {g : α → Except ε γ}
    (h : ∀ a, Agree R (f a) (g a)) : Agree R (x >>= f) (x >>= g) := by
  cases x with
  | error => exact .error
  | ok a => exact h a

theorem Agree.bind_eq {x : Except ε α} {y : Except ε β} {f : α → Except ε γ}
    {g : β → Except ε γ} (h : Agree R x y) (hf : ∀ a b, R a b → f a = g b) :
    (x >>= f) = (y >>= g) := by
  cases h with
  | ok hr => exact hf _ _ hr
  | error => rfl

theorem Agree.ensure {x : Except Diagnostic α} {y : Except Diagnostic β}
    (h : condition = true → Agree R x y) :
    Agree R (ensure condition cause position >>= fun _ => x)
      (ensure condition cause position >>= fun _ => y) := by
  cases condition with
  | true => exact h rfl
  | false => exact .error

theorem agree_iff_map {x : Except ε α} {y : Except ε β} {f : β → α} :
    Agree (fun a b => a = f b) x y ↔ x = y.map f := by
  constructor
  · rintro (rfl | _)
    · rfl
    · rfl
  · rintro rfl
    cases y with
    | error d => exact .error
    | ok b => exact .ok rfl

end LetLang
