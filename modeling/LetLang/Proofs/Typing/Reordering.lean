import LetLang.Proofs.Typing.Exchange
import Mathlib.Data.List.OfFn
import Mathlib.Logic.Equiv.Defs

/-!
# Reordering the items of a list

The items of a list can be put in any order: the checker types the reordered
list exactly if it types the other, to the same type and with the same typed
items, reordered alike.

The checker looks for the item that fixes the type in the order in which the
items stand, but what it finds does not depend on that order. A typed list has
items that all fit one type, and a list of such items is typed under that type
as its hint. Without a hint it is typed if one of the items needs none, wherever
that item stands.
-/

namespace LetLang

theorem checkItems_of_infer {items : List Expr}
    (h : (Expr.list items position).infer scope hint = .ok t) :
    ∃ item ts, Expr.checkItems items scope item = .ok ts ∧
      t = ⟨.list ts, .list item, position⟩ := by
  cases items with
  | nil =>
    obtain ⟨item, -, rfl⟩ := infer_nil_ok.mp h
    exact ⟨item, [], rfl, rfl⟩
  | cons first rest =>
    rcases infer_list_ok.mp h with ⟨item, ts, -, -, -, hc, rfl⟩ | ⟨-, head, tail, hh, hc, rfl⟩
    · exact ⟨item, ts, hc, rfl⟩
    · have hfirst : first.infer scope (some head.ty) = .ok head := infer_stable first hh
      exact ⟨head.ty, head :: tail,
        checkItems_cons_ok.mpr ⟨head, tail, hfirst, rfl, hc, rfl⟩, rfl⟩

theorem infer_of_checkItems {items : List Expr} (h : Expr.checkItems items scope item = .ok ts) :
    (Expr.list items position).infer scope (some (.list item)) =
      .ok ⟨.list ts, .list item, position⟩ := by
  cases items with
  | nil =>
    cases h
    exact infer_nil_ok.mpr ⟨item, rfl, rfl⟩
  | cons first rest =>
    obtain ⟨head, tail, hh, rfl, ht, rfl⟩ := checkItems_cons_ok.mp h
    exact infer_list_ok.mpr (.inr ⟨nofun, head, tail, hh, ht, rfl⟩)

theorem infer_list_iff {items : List Expr} : (Expr.list items position).infer scope none = .ok t ↔
    Expr.allNeedHint items = false ∧ ∃ item ts, Expr.checkItems items scope item = .ok ts ∧
      t = ⟨.list ts, .list item, position⟩ := by
  constructor
  · intro h
    exact ⟨needsHint_of_infer h, checkItems_of_infer h⟩
  · rintro ⟨hn, item, ts, hc, rfl⟩
    exact infer_drop (.list items position) hn (infer_of_checkItems hc)

theorem check_list_iff {items : List Expr} :
    (Expr.list items position).check scope expected = .ok t ↔
      ∃ item ts, expected = .list item ∧ Expr.checkItems items scope item = .ok ts ∧
        t = ⟨.list ts, expected, position⟩ := by
  constructor
  · intro h
    obtain ⟨hi, rfl⟩ := check_ok.mp h
    obtain ⟨item, ts, hc, rfl⟩ := checkItems_of_infer hi
    exact ⟨item, ts, rfl, hc, rfl⟩
  · rintro ⟨item, ts, rfl, hc, rfl⟩
    exact check_ok.mpr ⟨infer_of_checkItems hc, rfl⟩

-- ---------------------------------------------------------------------------
-- Items by their place
-- ---------------------------------------------------------------------------

theorem allNeedHint_eq_false {es : List Expr} :
    Expr.allNeedHint es = false ↔ ∃ e ∈ es, e.needsHint = false := by
  induction es with
  | nil => simp [Expr.allNeedHint]
  | cons e es ih =>
    rw [Expr.allNeedHint, Bool.and_eq_false_iff, ih]
    simp

theorem checkItems_ofFn {items : Fin n → Expr} :
    Expr.checkItems (.ofFn items) scope item = .ok ts ↔
      ∃ typed : Fin n → Typed.Expr, ts = .ofFn typed ∧
        ∀ i, (items i).infer scope (some item) = .ok (typed i) ∧ (typed i).ty = item := by
  induction n generalizing ts with
  | zero =>
    simp only [List.ofFn_zero, Expr.checkItems, Except.ok.injEq]
    constructor
    · rintro rfl
      exact ⟨Fin.elim0, rfl, nofun⟩
    · rintro ⟨_, rfl, -⟩
      rfl
  | succ n ih =>
    rw [List.ofFn_succ, checkItems_cons_ok]
    constructor
    · rintro ⟨t, rest, ht, hty, hr, rfl⟩
      obtain ⟨typed, rfl, ha⟩ := ih.mp hr
      refine ⟨Fin.cases t typed, by simp [List.ofFn_succ], ?_⟩
      exact Fin.cases ⟨ht, hty⟩ ha
    · rintro ⟨typed, rfl, ha⟩
      obtain ⟨ht, hty⟩ := ha 0
      exact ⟨typed 0, _, ht, hty, ih.mpr ⟨_, rfl, fun i => ha i.succ⟩, List.ofFn_succ⟩

theorem checkItems_reordered {items : Fin n → Expr} (order : Equiv.Perm (Fin n)) :
    Expr.checkItems (.ofFn (items ∘ order)) scope item = .ok ts ↔
      ∃ typed : Fin n → Typed.Expr, ts = .ofFn (typed ∘ order) ∧
        Expr.checkItems (.ofFn items) scope item = .ok (.ofFn typed) := by
  simp only [checkItems_ofFn]
  constructor
  · rintro ⟨typed, rfl, h⟩
    refine ⟨typed ∘ order.symm, ?_, _, rfl, fun i => ?_⟩
    · simp [Function.comp_assoc]
    · simpa using h (order.symm i)
  · rintro ⟨typed, rfl, typed', he, h⟩
    rw [List.ofFn_injective he]
    exact ⟨_, rfl, fun i => h (order i)⟩

theorem allNeedHint_reordered (items : Fin n → Expr) (order : Equiv.Perm (Fin n)) :
    Expr.allNeedHint (.ofFn (items ∘ order)) = false ↔
      Expr.allNeedHint (.ofFn items) = false := by
  simp only [allNeedHint_eq_false, List.mem_ofFn, Function.comp_apply, exists_exists_eq_and]
  exact ⟨fun ⟨i, h⟩ => ⟨order i, h⟩, fun ⟨i, h⟩ => ⟨order.symm i, by simpa using h⟩⟩

-- ---------------------------------------------------------------------------
-- Any order
-- ---------------------------------------------------------------------------

/-- The items of every list can be put in any order, alone and against an
expected type. One list is accepted exactly if the other is, and then the two
typed forms have the same type and the same typed items, in that order. -/
theorem items_reordered (items : Fin n → Expr) (order : Equiv.Perm (Fin n)) (scope : Scope)
    (position place : Position) :
    (∀ t, (Expr.list (.ofFn (items ∘ order)) place).infer scope none = .ok t ↔
      ∃ (typed : Fin n → Typed.Expr) (item : Ty),
        t = ⟨.list (.ofFn (typed ∘ order)), .list item, place⟩ ∧
        (Expr.list (.ofFn items) position).infer scope none =
          .ok ⟨.list (.ofFn typed), .list item, position⟩) ∧
    (∀ expected t, (Expr.list (.ofFn (items ∘ order)) place).check scope expected = .ok t ↔
      ∃ typed : Fin n → Typed.Expr, t = ⟨.list (.ofFn (typed ∘ order)), expected, place⟩ ∧
        (Expr.list (.ofFn items) position).check scope expected =
          .ok ⟨.list (.ofFn typed), expected, position⟩) := by
  constructor
  · intro t
    simp only [infer_list_iff, allNeedHint_reordered, checkItems_reordered]
    constructor
    · rintro ⟨hn, item, _, ⟨typed, rfl, hc⟩, rfl⟩
      exact ⟨typed, item, rfl, hn, item, _, hc, rfl⟩
    · rintro ⟨typed, item, rfl, hn, _, _, hc, ⟨⟩⟩
      exact ⟨hn, item, _, ⟨typed, rfl, hc⟩, rfl⟩
  · intro expected t
    simp only [check_list_iff, checkItems_reordered]
    constructor
    · rintro ⟨item, _, rfl, ⟨typed, rfl, hc⟩, rfl⟩
      exact ⟨typed, rfl, item, _, rfl, hc, rfl⟩
    · rintro ⟨typed, rfl, item, _, rfl, hc, ⟨⟩⟩
      exact ⟨item, _, rfl, ⟨typed, rfl, hc⟩, rfl⟩

end LetLang
