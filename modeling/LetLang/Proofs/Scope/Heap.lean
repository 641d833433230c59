import LetLang.Scope.Shared
import Mathlib.Data.Multiset.Filter

/-!
# Counted references

The frames that are seen from a cell are those on its way outwards. In a balanced
heap every cell counts the references to it exactly, so a reference to a cell that
counts one is the only one. Whatever is done through one reference, the cells that
are referred to elsewhere see the same frames as before, and the heap stays balanced.
-/

namespace LetLang

/-- The references that go on to older cells, where some are held outside of the
heap and the latest cell has a given address. -/
def Cell.onward (cell : Cell) (address : Nat) (held : Multiset Nat) : Multiset Nat :=
  cell.parent.toList + held.filter (· ≠ address)

namespace Heap

/-- The frames from a cell outwards. -/
def chain : Heap → Nat → List Frame
  | .empty, _ => []
  | .live cell older, a =>
    if a = older.size then cell.frame :: cell.parent.elim [] fun p => older.chain p
    else older.chain a
  | .freed older, a => older.chain a

/-- Every cell counts the references to it, those that are held outside of the heap
and those of cells inside of it, and has at least one. References are to cells only. -/
inductive Balanced : Heap → Multiset Nat → Prop where
  | empty : Balanced .empty 0
  | live {cell : Cell} {older : Heap} {held : Multiset Nat} : 0 < cell.count →
      cell.count = held.count older.size → Balanced older (cell.onward older.size held) →
      Balanced (.live cell older) held
  | freed {older : Heap} {held : Multiset Nat} : Balanced older held →
      Balanced (.freed older) held

end Heap

variable {h older changed : Heap} {held : Multiset Nat} {a b p : Nat} {cell latest : Cell}

-- ---------------------------------------------------------------------------
-- The latest cell and the older ones
-- ---------------------------------------------------------------------------

namespace Cell

theorem mem_onward_of_parent (hp : cell.parent = some p) : p ∈ cell.onward a held := by
  simp [onward, hp]

theorem mem_onward_of_ne (hm : b ∈ held) (hn : b ≠ a) : b ∈ cell.onward a held :=
  Multiset.mem_add.mpr (.inr (Multiset.mem_filter.mpr ⟨hm, hn⟩))

@[simp] theorem onward_cons_self : cell.onward a (a ::ₘ held) = cell.onward a held := by
  simp [onward, Multiset.filter_cons_of_neg]

theorem onward_cons_of_ne (hn : b ≠ a) :
    cell.onward a (b ::ₘ held) = b ::ₘ cell.onward a held := by
  simp [onward, Multiset.filter_cons_of_pos, hn]

theorem onward_of_notMem (hm : a ∉ held) : cell.onward a held = cell.parent.toList + held := by
  have hkept : held.filter (· ≠ a) = held :=
    Multiset.filter_eq_self.mpr fun b hb (he : b = a) => hm (he ▸ hb)
  rw [onward, hkept]

end Cell

namespace Heap

@[simp] theorem cell?_latest : (live cell older).cell? older.size = some cell := if_pos rfl

theorem cell?_older (hn : a ≠ older.size) : (live cell older).cell? a = older.cell? a := if_neg hn

@[simp] theorem chain_latest :
    (live cell older).chain older.size = cell.frame :: cell.parent.elim [] older.chain := if_pos rfl

theorem chain_older (hn : a ≠ older.size) : (live cell older).chain a = older.chain a := if_neg hn

theorem modify_latest (f : Cell → Cell) :
    (live cell older).modify f older.size = live (f cell) older := if_pos rfl

theorem modify_older (f : Cell → Cell) (hn : a ≠ older.size) :
    (live cell older).modify f a = live cell (older.modify f a) := if_neg hn

theorem release_older (hn : a ≠ older.size) :
    (live cell older).release a = live cell (older.release a) := if_neg hn

@[simp] theorem size_modify (f : Cell → Cell) (h : Heap) (a : Nat) :
    (h.modify f a).size = h.size := by
  induction h with
  | empty => rfl
  | live cell older ih =>
    simp only [modify]
    split
    · rfl
    · simp [size, ih]
  | freed older ih => simp [modify, size, ih]

@[simp] theorem size_retain (h : Heap) (a : Nat) : (h.retain a).size = h.size :=
  size_modify _ h a

@[simp] theorem size_retainParent (h : Heap) (cell : Cell) :
    (h.retainParent cell).size = h.size := by
  unfold retainParent
  split
  · rfl
  · exact size_retain h _

@[simp] theorem size_release (h : Heap) (a : Nat) : (h.release a).size = h.size := by
  induction h generalizing a with
  | empty => rfl
  | live cell older ih =>
    simp only [release]
    split
    · split
      · split <;> simp [size, ih]
      · rfl
    · simp [size, ih]
  | freed older ih => simp [release, size, ih]

theorem lookup_eq_findSome? (h : Heap) (a : Nat) (name : String) :
    h.lookup a name = (h.chain a).findSome? (·.lookup name) := by
  induction h generalizing a with
  | empty => rfl
  | live cell older ih =>
    by_cases hn : a = older.size
    · cases hl : cell.frame.lookup name with
      | some ty => simp [lookup, hn, hl]
      | none => cases hp : cell.parent <;> simp [lookup, hn, hl, hp, ih]
    · simp [lookup, chain_older, hn, ih]
  | freed older ih => exact ih a

-- ---------------------------------------------------------------------------
-- Cells that are referred to
-- ---------------------------------------------------------------------------

theorem lt_size_of_cell? (hc : (h.cell? a).isSome) : a < h.size := by
  induction h with
  | empty => cases hc
  | live cell older ih =>
    by_cases hn : a = older.size
    · exact hn ▸ Nat.lt_succ_self _
    · rw [cell?_older hn] at hc
      exact Nat.lt_succ_of_lt (ih hc)
  | freed older ih => exact Nat.lt_succ_of_lt (ih hc)

theorem isSome_cell?_older (hc : (older.cell? a).isSome) : ((live cell older).cell? a).isSome := by
  rwa [cell?_older (Nat.ne_of_lt (lt_size_of_cell? hc))]

namespace Balanced

theorem isSome_cell? (hb : h.Balanced held) (hm : a ∈ held) : (h.cell? a).isSome := by
  induction hb with
  | empty => exact absurd hm (Multiset.notMem_zero a)
  | @live cell older held _ _ _ ih =>
    by_cases hn : a = older.size
    · simp [hn]
    · exact isSome_cell?_older (ih (Cell.mem_onward_of_ne hm hn))
  | freed _ ih => exact ih hm

theorem lt_size (hb : h.Balanced held) (hm : a ∈ held) : a < h.size :=
  lt_size_of_cell? (hb.isSome_cell? hm)

theorem isSome_parent (hb : h.Balanced held) (hc : h.cell? a = some cell)
    (hp : cell.parent = some p) : (h.cell? p).isSome := by
  induction hb with
  | empty => cases hc
  | @live latest older held _ _ hr ih =>
    by_cases hn : a = older.size
    · subst hn
      obtain rfl : latest = cell := Option.some.inj (cell?_latest.symm.trans hc)
      exact isSome_cell?_older (hr.isSome_cell? (Cell.mem_onward_of_parent hp))
    · rw [cell?_older hn] at hc
      exact isSome_cell?_older (ih hc)
  | freed _ ih => exact ih hc

theorem chain_cell (hb : h.Balanced held) (hc : h.cell? a = some cell) :
    h.chain a = cell.frame :: cell.parent.elim [] h.chain := by
  induction hb with
  | empty => cases hc
  | @live latest older held _ _ hr ih =>
    by_cases hn : a = older.size
    · subst hn
      obtain rfl : latest = cell := Option.some.inj (cell?_latest.symm.trans hc)
      cases hp : latest.parent with
      | none => simp [hp]
      | some p =>
        have hlt := hr.lt_size (Cell.mem_onward_of_parent hp)
        simp [hp, chain_older (Nat.ne_of_lt hlt)]
    · rw [cell?_older hn] at hc
      rw [chain_older hn, ih hc]
      cases hp : cell.parent with
      | none => rfl
      | some p =>
        have hlt := lt_size_of_cell? (hr.isSome_parent hc hp)
        simp [chain_older (Nat.ne_of_lt hlt)]
  | freed _ ih => exact ih hc

end Balanced

/-- A change to older cells is not seen where the cells that the references go on to
do not see it. -/
theorem chain_live_congr (hs : changed.size = older.size) (hf : latest.frame = cell.frame)
    (hp : latest.parent = cell.parent)
    (hk : ∀ b ∈ cell.onward older.size held, changed.chain b = older.chain b) :
    ∀ b ∈ held, (live latest changed).chain b = (live cell older).chain b := by
  intro b hm
  by_cases hn : b = older.size
  · subst hn
    have hl : (live latest changed).chain older.size =
        latest.frame :: latest.parent.elim [] changed.chain := hs ▸ chain_latest
    rw [hl, chain_latest, hf, hp]
    cases hq : cell.parent with
    | none => rfl
    | some p => exact congrArg _ (hk p (Cell.mem_onward_of_parent hq))
  · rw [chain_older hn, chain_older (hs ▸ hn), hk b (Cell.mem_onward_of_ne hm hn)]

-- ---------------------------------------------------------------------------
-- References taken and given up
-- ---------------------------------------------------------------------------

@[simp] theorem chain_retain (h : Heap) (a b : Nat) : (h.retain a).chain b = h.chain b := by
  induction h generalizing b with
  | empty => rfl
  | live cell older ih =>
    have hm := Multiset.mem_singleton_self b
    by_cases hn : a = older.size
    · subst hn
      rw [retain, modify_latest]
      exact chain_live_congr rfl rfl rfl (fun _ _ => rfl) b hm
    · rw [retain, modify_older _ hn]
      exact chain_live_congr (size_modify _ older a) rfl rfl (fun b _ => ih b) b hm
  | freed older ih => exact ih b

@[simp] theorem chain_retainParent (h : Heap) (cell : Cell) :
    (h.retainParent cell).chain = h.chain := by
  unfold retainParent
  split
  · rfl
  · exact funext (chain_retain h _)

namespace Balanced

theorem retain (hb : h.Balanced held) (hc : (h.cell? a).isSome) :
    (h.retain a).Balanced (a ::ₘ held) := by
  induction hb with
  | empty => cases hc
  | @live cell older held hpos hcount hr ih =>
    by_cases hn : a = older.size
    · subst hn
      rw [Heap.retain, modify_latest]
      refine .live (Nat.succ_pos _) ?_ ?_
      · rw [Multiset.count_cons_self, ← hcount]
      · rw [Cell.onward_cons_self]
        exact hr
    · rw [Heap.retain, modify_older _ hn]
      rw [cell?_older hn] at hc
      refine .live hpos ?_ ?_
      · rw [size_modify, Multiset.count_cons_of_ne (Ne.symm hn), hcount]
      · rw [size_modify, Cell.onward_cons_of_ne hn]
        exact ih hc
  | freed _ ih => exact .freed (ih hc)

theorem retainParent (hb : h.Balanced held) (hc : h.cell? a = some cell) :
    (h.retainParent cell).Balanced (cell.parent.toList + held) := by
  unfold Heap.retainParent
  cases hp : cell.parent with
  | none => simpa using hb
  | some p => simpa using hb.retain (hb.isSome_parent hc hp)

theorem alloc (frame : Frame) (parent : Option Nat) (hb : h.Balanced (parent.toList + held)) :
    (h.alloc frame parent).2.Balanced ((h.alloc frame parent).1 ::ₘ held) ∧
      (h.alloc frame parent).2.chain (h.alloc frame parent).1 =
        frame :: parent.elim [] h.chain ∧
      ∀ b ∈ held, (h.alloc frame parent).2.chain b = h.chain b := by
  have hlt : ∀ b ∈ held, b < h.size :=
    fun b hm => hb.lt_size (Multiset.mem_add.mpr (.inr hm))
  have hfresh : h.size ∉ held := fun hm => Nat.lt_irrefl _ (hlt _ hm)
  refine ⟨.live Nat.one_pos ?_ ?_, chain_latest, fun b hm => ?_⟩
  · exact (by simpa using hfresh : 1 = (h.size ::ₘ held).count h.size)
  · exact (Cell.onward_cons_self.trans (Cell.onward_of_notMem hfresh)) ▸ hb
  · exact chain_older (Nat.ne_of_lt (hlt b hm))

theorem release (hb : h.Balanced (a ::ₘ held)) :
    (h.release a).Balanced held ∧ ∀ b ∈ held, (h.release a).chain b = h.chain b := by
  -- From the latest cell on: what it refers to is older, and counts among what is held there.
  induction h generalizing a held with
  | empty => nomatch hb.lt_size (Multiset.mem_cons_self a held)
  | live cell older ih =>
    obtain _ | ⟨hpos, hcount, hr⟩ := hb
    by_cases hn : a = older.size
    · subst hn
      rw [Multiset.count_cons_self] at hcount
      rw [Cell.onward_cons_self] at hr
      by_cases h1 : cell.count = 1
      · -- The cell goes, and the reference that it held is given up in turn.
        have hlast : older.size ∉ held := Multiset.count_eq_zero.mp (by omega)
        have seen : ∀ b ∈ held, older.chain b = (Heap.live cell older).chain b := fun b hm =>
          (chain_older fun he => hlast (he ▸ hm)).symm
        rw [Cell.onward_of_notMem hlast] at hr
        cases hp : cell.parent with
        | none =>
          have hl : (Heap.live cell older).release older.size = .freed older := by
            simp [Heap.release, h1, hp]
          rw [hl]
          exact ⟨.freed (by simpa [hp] using hr), seen⟩
        | some p =>
          have hl : (Heap.live cell older).release older.size = .freed (older.release p) := by
            simp [Heap.release, h1, hp]
          rw [hl]
          obtain ⟨hb, hk⟩ := ih (a := p) (by simpa [hp] using hr)
          exact ⟨.freed hb, fun b hm => (hk b hm).trans (seen b hm)⟩
      · have hl : (Heap.live cell older).release older.size =
            .live { cell with count := cell.count - 1 } older := by simp [Heap.release, h1]
        rw [hl]
        refine ⟨.live ?_ ?_ hr, chain_live_congr rfl rfl rfl fun _ _ => rfl⟩
        · exact Nat.sub_pos_of_lt (Nat.lt_of_le_of_ne hpos (Ne.symm h1))
        · exact Nat.sub_eq_of_eq_add hcount
    · rw [release_older hn]
      rw [Multiset.count_cons_of_ne (Ne.symm hn)] at hcount
      rw [Cell.onward_cons_of_ne hn] at hr
      obtain ⟨hb, hk⟩ := ih hr
      refine ⟨.live hpos ?_ ?_, chain_live_congr (size_release older a) rfl rfl hk⟩
      · rwa [size_release]
      · rwa [size_release]
  | freed older ih =>
    obtain _ | _ | hr := hb
    obtain ⟨hb, hk⟩ := ih hr
    exact ⟨.freed hb, hk⟩

-- ---------------------------------------------------------------------------
-- Frames that are changed
-- ---------------------------------------------------------------------------

theorem modify_frame (f : Frame → Frame) (hb : h.Balanced (a ::ₘ held))
    (hc : h.cell? a = some cell) (h1 : cell.count = 1) :
    let changed := h.modify (fun cell => { cell with frame := f cell.frame }) a
    changed.Balanced (a ::ₘ held) ∧ changed.chain a = (h.chain a).modifyHead f ∧
      ∀ b ∈ held, changed.chain b = h.chain b := by
  induction h generalizing held with
  | empty => cases hc
  | live latest older ih =>
    obtain _ | ⟨hpos, hcount, hr⟩ := hb
    by_cases hn : a = older.size
    · subst hn
      obtain rfl : latest = cell := Option.some.inj (cell?_latest.symm.trans hc)
      have hlast : older.size ∉ held :=
        Multiset.count_eq_zero.mp (by simpa [h1] using hcount)
      rw [modify_latest]
      refine ⟨.live hpos hcount hr, by simp, fun b hm => ?_⟩
      have hne : b ≠ older.size := fun he => hlast (he ▸ hm)
      rw [chain_older hne, chain_older hne]
    · rw [Cell.onward_cons_of_ne hn] at hr
      rw [cell?_older hn] at hc
      obtain ⟨hb, hs, hk⟩ := ih hr hc
      rw [modify_older _ hn]
      refine ⟨.live hpos ?_ ?_, ?_, chain_live_congr (size_modify _ older a) rfl rfl hk⟩
      · rwa [size_modify]
      · rwa [size_modify, Cell.onward_cons_of_ne hn]
      · rw [chain_older hn, chain_older (by rwa [size_modify]), hs]
  | freed older ih =>
    obtain _ | _ | hr := hb
    obtain ⟨hb, hs, hk⟩ := ih hr hc
    exact ⟨.freed hb, hs, hk⟩

/-- What is seen from a reference stays the same when it becomes the only one to
its cell. -/
theorem unshare (hb : h.Balanced (a ::ₘ held)) :
    (h.unshare a).2.Balanced ((h.unshare a).1 ::ₘ held) ∧
      (∃ cell, (h.unshare a).2.cell? (h.unshare a).1 = some cell ∧ cell.count = 1) ∧
      (h.unshare a).2.chain (h.unshare a).1 = h.chain a ∧
      ∀ b ∈ held, (h.unshare a).2.chain b = h.chain b := by
  have hm := Multiset.mem_cons_self a held
  obtain ⟨cell, hc⟩ := Option.isSome_iff_exists.mp (hb.isSome_cell? hm)
  by_cases h1 : cell.count = 1
  · have hu : h.unshare a = (a, h) := by simp [Heap.unshare, hc, h1]
    rw [hu]
    exact ⟨hb, ⟨cell, hc, h1⟩, rfl, fun _ _ => rfl⟩
  · have hu : h.unshare a =
        (h.size, (Heap.live ⟨cell.frame, cell.parent, 1⟩ (h.retainParent cell)).release a) := by
      simp [Heap.unshare, hc, h1, Heap.alloc]
    have hne : a ≠ (h.retainParent cell).size := by
      simpa using Nat.ne_of_lt (hb.lt_size hm)
    obtain ⟨hmade, hseen, hkept⟩ := (hb.retainParent hc).alloc cell.frame _
    simp only [Heap.alloc, size_retainParent, chain_retainParent] at hmade hseen hkept
    -- The reference to the original is given up when the copy is there.
    rw [Multiset.cons_swap] at hmade
    obtain ⟨hb', hkept'⟩ := hmade.release
    rw [hu]
    refine ⟨hb', ⟨⟨cell.frame, cell.parent, 1⟩, ?_, rfl⟩, ?_, fun b hb => ?_⟩
    · rw [release_older hne]
      simp [cell?]
    · rw [hkept' _ (Multiset.mem_cons_self _ _), hseen, hb.chain_cell hc]
    · rw [hkept' _ (Multiset.mem_cons_of_mem hb), hkept _ (Multiset.mem_cons_of_mem hb)]

end Balanced

end Heap

end LetLang
