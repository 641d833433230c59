import LetLang.Proofs.Scope.Heap
import Mathlib.Logic.Function.Basic

/-!
# Sharing is not seen

Scopes that share frames behave as the plain ones, which share nothing. Where a
table of shared scopes has been, the plain scope of a slot is told by the steps
alone, and the shared one has its frames and its depth. A step makes a scope
through the references of one slot, so the scopes of all others keep what they see.
-/

namespace LetLang

def Scope.Means (s : Scope) (name : String) (ty : Ty) : Prop :=
  ∃ inner frame outer, s.frames = inner ++ frame :: outer ∧
    (∀ f ∈ inner, ∀ b ∈ f, b.1 ≠ name) ∧
    ∃ later earlier, frame = later ++ (name, ty) :: earlier ∧ ∀ b ∈ later, b.1 ≠ name

theorem Scope.lookup_eq_some_iff (s : Scope) (name : String) (ty : Ty) :
    s.lookup name = some ty ↔ s.Means name ty := by
  have hnone : ∀ f : Frame, f.lookup name = none ↔ ∀ b ∈ f, b.1 ≠ name := fun f => by
    simp [List.lookup_eq_none_iff, ne_comm]
  have hsome : ∀ f : Frame, f.lookup name = some ty ↔
      ∃ later earlier, f = later ++ (name, ty) :: earlier ∧ ∀ b ∈ later, b.1 ≠ name :=
    fun f => by simp [List.lookup_eq_some_iff, ne_comm]
  simp only [Scope.lookup, List.findSome?_eq_some_iff, hnone, hsome, Scope.Means]
  constructor
  · rintro ⟨inner, frame, outer, hs, hf, hi⟩
    exact ⟨inner, frame, outer, hs, hi, hf⟩
  · rintro ⟨inner, frame, outer, hs, hi, hf⟩
    exact ⟨inner, frame, outer, hs, hf, hi⟩

namespace ScopeStep

def slot : ScopeStep → String
  | .new slot | .ofBindings slot _ | .copy slot _ | .push slot _ | .pop slot _ | .bind slot _ _ =>
    slot

/-- The plain scope that a step makes of those there are, if any. -/
def made? (scopes : String → Option Scope) : ScopeStep → Option Scope
  | .new _ => some .empty
  | .ofBindings _ bindings => some (.ofBindings bindings)
  | .copy _ source => scopes source
  | .push _ source => (scopes source).map .push
  | .pop _ source => (scopes source).bind Scope.pop?
  | .bind slot name ty => (scopes slot).map fun s => s.bind name ty

def extend (scopes : String → Option Scope) (step : ScopeStep) : String → Option Scope :=
  match step.made? scopes with
  | none => scopes
  | some s => Function.update scopes step.slot (some s)

end ScopeStep

/-- The plain scopes of all slots after some steps. -/
def lineage (steps : List ScopeStep) : String → Option Scope :=
  steps.foldl ScopeStep.extend fun _ => none

/-- A shared scope has the frames of a plain one, and knows how many they are. -/
structure SharedScope.Shows (s : SharedScope) (h : Heap) (plain : Scope) : Prop where
  frames : h.chain s.address = plain.frames
  depth : s.depth = plain.depth

/-- A scope is made beside references that are held, which see what they saw. -/
structure Heap.Makes (h : Heap) (held : Multiset Nat) (made : SharedScope × Heap) (plain : Scope) :
    Prop where
  balanced : made.2.Balanced (made.1.address ::ₘ held)
  shows : made.1.Shows made.2 plain
  kept : ∀ b ∈ held, made.2.chain b = h.chain b

def ScopeTable.addresses (slots : List (String × SharedScope)) : Multiset Nat :=
  slots.map fun b => b.2.address

/-- Slot by slot a table has scopes that show the plain ones, and its heap counts
the references of all of them. -/
structure ScopeTable.Shows (t : ScopeTable) (scopes : String → Option Scope) : Prop where
  balanced : t.heap.Balanced (addresses t.slots)
  slots : ∀ slot, Option.Rel (fun s plain => s.Shows t.heap plain) (t.scope? slot) (scopes slot)

-- ---------------------------------------------------------------------------
-- One scope
-- ---------------------------------------------------------------------------

namespace SharedScope

variable {s : SharedScope} {h : Heap} {held : Multiset Nat} {plain : Scope}

theorem Shows.lookup (hs : s.Shows h plain) (name : String) :
    s.lookup h name = plain.lookup name := by
  rw [SharedScope.lookup, Heap.lookup_eq_findSome?, hs.frames]
  rfl

theorem new_makes (hb : h.Balanced held) : h.Makes held (new h) .empty := by
  obtain ⟨hmade, hseen, hkept⟩ := Heap.Balanced.alloc [] none
    (by simpa using hb)
  exact ⟨hmade, ⟨hseen, rfl⟩, hkept⟩

theorem copy_makes (hb : h.Balanced held) (hm : s.address ∈ held) (hs : s.Shows h plain) :
    h.Makes held (s.copy h) plain :=
  ⟨hb.retain (hb.isSome_cell? hm), ⟨(h.chain_retain _ _).trans hs.frames, hs.depth⟩,
    fun b _ => h.chain_retain _ b⟩

theorem push_makes (hb : h.Balanced held) (hm : s.address ∈ held) (hs : s.Shows h plain) :
    h.Makes held (s.push h) plain.push := by
  obtain ⟨hmade, hseen, hkept⟩ := Heap.Balanced.alloc [] (some s.address)
    (by simpa using hb.retain (hb.isSome_cell? hm))
  refine ⟨hmade, ⟨hseen.trans ?_, ?_⟩, fun b hb => (hkept b hb).trans (h.chain_retain _ b)⟩
  · simp [hs.frames, Scope.push, Scope.frames]
  · simp [push, hs.depth]

theorem pop?_makes (hb : h.Balanced held) (hm : s.address ∈ held) (hs : s.Shows h plain) :
    Option.Rel (h.Makes held) (s.pop? h) plain.pop? := by
  obtain ⟨cell, hc⟩ := Option.isSome_iff_exists.mp (hb.isSome_cell? hm)
  obtain ⟨inner, outer⟩ := plain
  have hseen : cell.frame :: cell.parent.elim [] h.chain = inner :: outer :=
    (hb.chain_cell hc).symm.trans hs.frames
  obtain ⟨-, houter⟩ := List.cons.inj hseen
  obtain ⟨frame, parent, count⟩ := cell
  cases parent with
  | none =>
    obtain rfl : [] = outer := houter
    simp [pop?, hc, Scope.pop?]
  | some p =>
    have hp := hb.isSome_parent hc rfl
    obtain ⟨around, ha⟩ := Option.isSome_iff_exists.mp hp
    have houter : h.chain p = outer := houter
    have hcons := hb.chain_cell ha
    rw [houter] at hcons
    subst hcons
    simp only [pop?, hc, Scope.pop?]
    refine .some ⟨hb.retain hp, ⟨(h.chain_retain _ _).trans houter, ?_⟩,
      fun b _ => h.chain_retain _ b⟩
    simp [hs.depth, Scope.depth, Scope.frames]

theorem pop?_eq_none_iff (hb : h.Balanced held) (hm : s.address ∈ held)
    (hs : s.Shows h plain) : s.pop? h = none ↔ s.depth = 1 := by
  have hp := pop?_makes hb hm hs
  have hn : s.pop? h = none ↔ plain.pop? = none := by
    generalize s.pop? h = x, plain.pop? = y at hp
    cases hp <;> simp
  rw [hn, hs.depth]
  obtain ⟨inner, outer⟩ := plain
  cases outer <;> simp [Scope.pop?, Scope.depth, Scope.frames]

theorem bind_makes (name : String) (ty : Ty) (hb : h.Balanced (s.address ::ₘ held))
    (hs : s.Shows h plain) : h.Makes held (s.bind h name ty) (plain.bind name ty) := by
  obtain ⟨hsole, ⟨cell, hc, h1⟩, hseen, hkept⟩ := hb.unshare
  obtain ⟨hmade, hbound, hkept'⟩ := hsole.modify_frame ((name, ty) :: ·) hc h1
  refine ⟨hmade, ⟨hbound.trans ?_, hs.depth⟩, fun b hm => (hkept' b hm).trans (hkept b hm)⟩
  simp [hseen, hs.frames, Scope.frames, Scope.bind]

end SharedScope

variable {t : ScopeTable} {h : Heap} {held : Multiset Nat} {made : SharedScope × Heap}
  {plain : Scope} {scopes : String → Option Scope} {slots : List (String × SharedScope)}
  {s : SharedScope} {slot other source name : String}

theorem Heap.Makes.bind (hm : h.Makes held made plain) (name : String) (ty : Ty) :
    h.Makes held (made.1.bind made.2 name ty) (plain.bind name ty) := by
  have hb := SharedScope.bind_makes name ty hm.balanced hm.shows
  exact ⟨hb.balanced, hb.shows, fun b hb' => (hb.kept b hb').trans (hm.kept b hb')⟩

theorem Heap.Makes.bindAll (hm : h.Makes held made plain) (bindings : List (String × Ty)) :
    h.Makes held (bindings.foldl (fun (s, h) (name, ty) => s.bind h name ty) made)
      (plain.bindAll bindings) := by
  induction bindings generalizing made plain with
  | nil => exact hm
  | cons b bindings ih => exact ih (hm.bind b.1 b.2)

theorem SharedScope.ofBindings_makes (hb : h.Balanced held) (bindings : List (String × Ty)) :
    h.Makes held (ofBindings h bindings) (.ofBindings bindings) :=
  (new_makes hb).bindAll bindings

-- ---------------------------------------------------------------------------
-- Slots
-- ---------------------------------------------------------------------------

namespace ScopeTable

theorem mem_addresses (hs : slots.lookup slot = some s) : s.address ∈ addresses slots := by
  obtain ⟨front, back, rfl, -⟩ := List.lookup_eq_some_iff.mp hs
  simp [addresses]

theorem lookup_of_scope? (hs : t.scope? slot = some s) :
    t.lookup slot name = s.lookup t.heap name := by
  simp [ScopeTable.lookup, hs]

theorem others_of_none (hs : t.scope? slot = none) : t.others slot = t.slots := by
  refine List.eraseP_of_forall_not fun b hb => ?_
  simpa [ne_comm] using List.lookup_eq_none_iff.mp hs b hb

theorem addresses_eq (hs : t.scope? slot = some s) :
    addresses t.slots = s.address ::ₘ addresses (t.others slot) := by
  obtain ⟨front, back, hf, hne⟩ := List.lookup_eq_some_iff.mp hs
  have hfront : ∀ b ∈ front, ¬ (b.1 = slot) := fun b hb => by simpa [ne_comm] using hne b hb
  have ho : t.others slot = front ++ back := by
    rw [others, hf, List.eraseP_append_right _ fun b hb => by simpa using hfront b hb]
    simp
  rw [hf, ho]
  simp [addresses]

theorem lookup_others (hne : other ≠ slot) :
    (t.others slot).lookup other = t.scope? other := by
  have hn : (other == slot) = false := by simpa using hne
  unfold others scope?
  induction t.slots with
  | nil => rfl
  | cons b slots ih =>
    obtain ⟨name, s⟩ := b
    by_cases hname : name = slot
    · simp [hname, List.lookup_cons, hn]
    · simp [hname, List.lookup_cons, ih]

@[simp] theorem scope?_put_self : (t.put slot made).scope? slot = some made.1 := by
  simp [put, scope?]

theorem scope?_put_of_ne (hne : other ≠ slot) :
    (t.put slot made).scope? other = t.scope? other := by
  have hn : (other == slot) = false := by simpa using hne
  simpa only [put, scope?, List.lookup_cons, hn] using lookup_others hne

theorem Shows.put (ht : t.Shows scopes)
    (hm : t.heap.Makes (addresses (t.others slot)) made plain) :
    (t.put slot made).Shows (Function.update scopes slot (some plain)) := by
  refine ⟨hm.balanced, fun name => ?_⟩
  by_cases hn : name = slot
  · subst hn
    rw [scope?_put_self, Function.update_self]
    exact .some hm.shows
  · have hkept : ∀ s, t.scope? name = some s →
        made.2.chain s.address = t.heap.chain s.address := fun s hs =>
      hm.kept _ (mem_addresses ((lookup_others hn).trans hs))
    have hs := ht.slots name
    rw [scope?_put_of_ne hn, Function.update_of_ne hn]
    generalize t.scope? name = x, scopes name = y at hs hkept
    cases hs with
    | none => exact .none
    | some hs => exact .some ⟨(hkept _ rfl).trans hs.frames, hs.depth⟩

theorem Shows.assign (ht : t.Shows scopes) (hm : t.heap.Makes (addresses t.slots) made plain) :
    (t.assign slot made).Shows (Function.update scopes slot (some plain)) := by
  unfold ScopeTable.assign
  cases hs : t.scope? slot with
  | none => exact ht.put (others_of_none hs ▸ hm)
  | some old =>
    have ho := addresses_eq hs
    have hb := hm.balanced
    rw [ho, Multiset.cons_swap] at hb
    obtain ⟨hb, hk⟩ := hb.release
    refine ht.put ⟨hb, ⟨?_, hm.shows.depth⟩, fun b hb' => ?_⟩
    · exact (hk _ (Multiset.mem_cons_self _ _)).trans hm.shows.frames
    · have hmem : b ∈ addresses t.slots := ho ▸ Multiset.mem_cons_of_mem hb'
      exact (hk b (Multiset.mem_cons_of_mem hb')).trans (hm.kept b hmem)

theorem Shows.slot_cases (ht : t.Shows scopes) (slot : String) :
    (t.scope? slot = none ∧ scopes slot = none) ∨
      ∃ s plain, t.scope? slot = some s ∧ scopes slot = some plain ∧
        s.address ∈ addresses t.slots ∧ s.Shows t.heap plain := by
  have hs := ht.slots slot
  generalize hx : t.scope? slot = x, scopes slot = y at hs
  cases hs with
  | none => exact .inl ⟨rfl, rfl⟩
  | some hs => exact .inr ⟨_, _, rfl, rfl, mem_addresses hx, hs⟩

theorem Shows.exists_plain (ht : t.Shows scopes) (hx : t.scope? slot = some s) :
    ∃ plain, scopes slot = some plain ∧ s.address ∈ addresses t.slots ∧
      s.Shows t.heap plain := by
  obtain ⟨hn, -⟩ | ⟨u, plain, hu, hy, hm, hs⟩ := ht.slot_cases slot
  · rw [hn] at hx
    cases hx
  · obtain rfl : u = s := Option.some.inj (hu.symm.trans hx)
    exact ⟨plain, hy, hm, hs⟩

theorem Shows.exists_shared (ht : t.Shows scopes) (hy : scopes slot = some plain) :
    ∃ s, t.scope? slot = some s ∧ s.Shows t.heap plain := by
  obtain ⟨-, hn⟩ | ⟨s, p, hx, hp, -, hs⟩ := ht.slot_cases slot
  · rw [hn] at hy
    cases hy
  · obtain rfl : p = plain := Option.some.inj (hp.symm.trans hy)
    exact ⟨s, hx, hs⟩

-- ---------------------------------------------------------------------------
-- Steps
-- ---------------------------------------------------------------------------

theorem Shows.empty : ScopeTable.empty.Shows fun _ => none := ⟨.empty, fun _ => .none⟩

theorem Shows.step (ht : t.Shows scopes) (step : ScopeStep) :
    (t.step step).Shows (step.extend scopes) := by
  cases step with
  | new slot => exact ht.assign (SharedScope.new_makes ht.balanced)
  | ofBindings slot bindings =>
    exact ht.assign (SharedScope.ofBindings_makes ht.balanced bindings)
  | copy slot source =>
    obtain ⟨hx, hy⟩ | ⟨s, plain, hx, hy, hm, hs⟩ := ht.slot_cases source
    · simpa [ScopeTable.step, ScopeStep.extend, ScopeStep.made?, hx, hy] using ht
    · simpa [ScopeTable.step, ScopeStep.extend, ScopeStep.made?, ScopeStep.slot, hx, hy] using
        ht.assign (SharedScope.copy_makes ht.balanced hm hs)
  | push slot source =>
    obtain ⟨hx, hy⟩ | ⟨s, plain, hx, hy, hm, hs⟩ := ht.slot_cases source
    · simpa [ScopeTable.step, ScopeStep.extend, ScopeStep.made?, hx, hy] using ht
    · simpa [ScopeTable.step, ScopeStep.extend, ScopeStep.made?, ScopeStep.slot, hx, hy] using
        ht.assign (SharedScope.push_makes ht.balanced hm hs)
  | pop slot source =>
    obtain ⟨hx, hy⟩ | ⟨s, plain, hx, hy, hm, hs⟩ := ht.slot_cases source
    · simpa [ScopeTable.step, ScopeStep.extend, ScopeStep.made?, hx, hy] using ht
    · have hp := SharedScope.pop?_makes ht.balanced hm hs
      simp only [ScopeTable.step, ScopeStep.extend, ScopeStep.made?, hx, hy, Option.bind_some]
      -- Both scopes have one around them, or neither has.
      generalize s.pop? t.heap = made, plain.pop? = around at hp
      cases hp with
      | none => exact ht
      | some hp => exact ht.assign hp
  | bind slot name ty =>
    obtain ⟨hx, hy⟩ | ⟨s, plain, hx, hy, -, hs⟩ := ht.slot_cases slot
    · simpa [ScopeTable.step, ScopeStep.extend, ScopeStep.made?, hx, hy] using ht
    · have hb := ht.balanced
      rw [addresses_eq hx] at hb
      simpa [ScopeTable.step, ScopeStep.extend, ScopeStep.made?, ScopeStep.slot, hx, hy] using
        ht.put (SharedScope.bind_makes name ty hb hs)

theorem Shows.steps (ht : t.Shows scopes) (steps : List ScopeStep) :
    (steps.foldl ScopeTable.step t).Shows (steps.foldl ScopeStep.extend scopes) := by
  induction steps generalizing t scopes with
  | nil => exact ht
  | cons step steps ih => exact ih (ht.step step)

theorem run_shows (steps : List ScopeStep) : (run steps).Shows (lineage steps) :=
  Shows.empty.steps steps

theorem scope?_bind_of_ne (ty : Ty) (hne : other ≠ slot) :
    (t.step (.bind slot name ty)).scope? other = t.scope? other := by
  cases hs : t.scope? slot with
  | none => simp [ScopeTable.step, hs]
  | some s => simp [ScopeTable.step, hs, scope?_put_of_ne hne]

end ScopeTable

namespace ScopeStep

variable {step : ScopeStep} {inside steps : List ScopeStep}

theorem extend_of_made (hm : step.made? scopes = some plain) :
    step.extend scopes step.slot = some plain := by
  simp [extend, hm]

theorem extend_of_ne (hne : other ≠ step.slot) : step.extend scopes other = scopes other := by
  cases hm : step.made? scopes with
  | none => simp [extend, hm]
  | some s => simp [extend, hm, hne]

theorem outer_extend_all (hp : scopes slot = some plain)
    (hi : ∀ step ∈ inside, step.slot = slot → ∃ name ty, step = .bind slot name ty) :
    ∃ bound, inside.foldl extend scopes slot = some bound ∧ bound.outer = plain.outer := by
  induction inside generalizing scopes plain with
  | nil => exact ⟨plain, hp, rfl⟩
  | cons step inside ih =>
    have hi' := fun x hx => hi x (List.mem_cons_of_mem step hx)
    by_cases hs : step.slot = slot
    · obtain ⟨name, ty, rfl⟩ := hi step List.mem_cons_self hs
      have hb : extend scopes (.bind slot name ty) slot = some (plain.bind name ty) :=
        extend_of_made (by simp [made?, hp])
      simpa [Scope.bind] using ih hb hi'
    · exact ih ((extend_of_ne (Ne.symm hs)).trans hp) hi'

theorem lineage_closed (hp : lineage steps source = some plain)
    (hi : ∀ step ∈ inside, step.slot = slot → ∃ name ty, step = .bind slot name ty) :
    lineage (steps ++ .push slot source :: inside ++ [.pop other slot]) other = some plain := by
  have hpush : extend (lineage steps) (.push slot source) slot = some plain.push :=
    extend_of_made (by simp [made?, hp])
  obtain ⟨bound, hb, ho⟩ := outer_extend_all hpush hi
  have hpop : bound.pop? = some plain := by simp [Scope.pop?, ho, Scope.push]
  have hl : lineage (steps ++ .push slot source :: inside ++ [.pop other slot]) =
      extend (inside.foldl extend (extend (lineage steps) (.push slot source)))
        (.pop other slot) := by
    simp [lineage]
  rw [hl]
  exact extend_of_made (by simp [made?, hb, hpop])

end ScopeStep

/-- Whatever is done with scopes that share frames, each has the meanings that the
frames of its own lineage give to names, and a depth that is the number of its
frames. It has no scope around it just if that is one. A scope that is opened, bound
in and closed again, whatever else is done meanwhile, is back to what it was when it
was opened; and what is bound in one slot is not seen from another. -/
theorem sharing_unseen (steps : List ScopeStep) :
    let t := ScopeTable.run steps
    (∀ slot, (t.scope? slot).isSome = (lineage steps slot).isSome) ∧
      (∀ slot s, t.scope? slot = some s → ∃ plain, lineage steps slot = some plain ∧
        (∀ name ty, s.lookup t.heap name = some ty ↔ plain.Means name ty) ∧
        s.depth = (t.heap.chain s.address).length ∧ 1 ≤ s.depth ∧
        (s.pop? t.heap = none ↔ s.depth = 1)) ∧
      (∀ source s slot other inside, t.scope? source = some s →
        (∀ step ∈ inside, step.slot = slot → ∃ name ty, step = .bind slot name ty) →
        let closed := ScopeTable.run
          (steps ++ .push slot source :: inside ++ [.pop other slot])
        ∃ r, closed.scope? other = some r ∧ r.depth = s.depth ∧
          ∀ name, r.lookup closed.heap name = s.lookup t.heap name) ∧
      ∀ slot name ty other s, other ≠ slot → t.scope? other = some s →
        let bound := t.step (.bind slot name ty)
        bound.scope? other = some s ∧ ∀ n, s.lookup bound.heap n = s.lookup t.heap n := by
  intro t
  have ht : t.Shows (lineage steps) := ScopeTable.run_shows steps
  refine ⟨fun slot => ?_, fun slot s hx => ?_, ?_, ?_⟩
  · obtain ⟨hx, hy⟩ | ⟨s, plain, hx, hy, -, -⟩ := ht.slot_cases slot <;> simp [hx, hy]
  · obtain ⟨plain, hy, hm, hs⟩ := ht.exists_plain hx
    have hd : s.depth = plain.frames.length := hs.depth
    refine ⟨plain, hy, fun name ty => ?_, ?_, ?_, ?_⟩
    · rw [hs.lookup, plain.lookup_eq_some_iff]
    · rw [hs.frames, hd]
    · simp [hd, Scope.frames]
    · exact SharedScope.pop?_eq_none_iff ht.balanced hm hs
  · intro source s slot other inside hx hi closed
    obtain ⟨plain, hy, -, hs⟩ := ht.exists_plain hx
    -- The plain scope is opened and closed in the lineage, whatever the heap does meanwhile.
    have hc : closed.Shows _ := ScopeTable.run_shows _
    obtain ⟨r, hr, hshows⟩ := hc.exists_shared (ScopeStep.lineage_closed hy hi)
    exact ⟨r, hr, hshows.depth.trans hs.depth.symm,
      fun name => (hshows.lookup name).trans (hs.lookup name).symm⟩
  · intro slot name ty other s hne hx bound
    have hr : bound.scope? other = some s := (ScopeTable.scope?_bind_of_ne ty hne).trans hx
    obtain ⟨plain, hy, -, hs⟩ := ht.exists_plain hx
    obtain ⟨after, ha, -, hshows⟩ := (ht.step (.bind slot name ty)).exists_plain hr
    rw [ScopeStep.extend_of_ne hne, hy] at ha
    cases ha
    exact ⟨hr, fun n => (hshows.lookup n).trans (hs.lookup n).symm⟩

/-- A name is bound in a copy of a scope, and in a scope that is opened in it and
closed again behind a change to it: each keeps the meaning that it had. -/
theorem copied_and_opened_unseen :
    let steps : List ScopeStep := [.new "root", .bind "root" "a" .int, .copy "copy" "root"]
    let t := ScopeTable.run steps
    let bound := t.step (.bind "copy" "a" .str)
    let closed := ScopeTable.run (steps ++ .push "leaf" "root" ::
      [.bind "leaf" "a" .str, .bind "root" "a" .bool] ++ [.pop "back" "leaf"])
    bound.lookup "copy" "a" = some .str ∧ bound.lookup "root" "a" = some .int ∧
      closed.lookup "root" "a" = some .bool ∧ closed.lookup "back" "a" = some .int := by
  intro steps t bound closed
  obtain ⟨-, -, hclosed, hbound⟩ := sharing_unseen steps
  have hroot : t.scope? "root" = some ⟨0, 1⟩ := rfl
  obtain ⟨hr, hkept⟩ := hbound "copy" "a" .str "root" _ (by decide) hroot
  obtain ⟨r, hback, -, hrestored⟩ := hclosed "root" _ "leaf" "back"
    [.bind "leaf" "a" .str, .bind "root" "a" .bool] hroot (by simp [ScopeStep.slot])
  have hint : SharedScope.lookup ⟨0, 1⟩ t.heap "a" = some .int := rfl
  refine ⟨rfl, ?_, rfl, ?_⟩
  · exact (ScopeTable.lookup_of_scope? hr).trans ((hkept "a").trans hint)
  · exact (ScopeTable.lookup_of_scope? hback).trans ((hrestored "a").trans hint)

end LetLang
