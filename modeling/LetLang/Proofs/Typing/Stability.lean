import LetLang.Proofs.Typing.Hints

/-!
# Stability under the own type

What was typed once is typed alike with its own type as the hint. So the checker
can type an expression a second time without harm, and it does so in one place:
the item of a list that fixes the type of the others is typed first, and again
where it stands. That second time gives what the first gave, and a list is typed
as if there were only the first. For the same reason the type of an accepted
declaration can be written down.
-/

namespace LetLang

-- ---------------------------------------------------------------------------
-- The item that fixes the type
-- ---------------------------------------------------------------------------

theorem checkItems_append (before after : List Expr) (scope : Scope) (item : Ty) :
    Expr.checkItems (before ++ after) scope item = (do
      let heads ← Expr.checkItems before scope item
      return heads ++ (← Expr.checkItems after scope item)) := by
  induction before with
  | nil => simp [Expr.checkItems, ok_bind]
  | cons e es ih => simp [Expr.checkItems, ih]

theorem checkItems_typed_cons {e : Expr} (h : e.infer scope none = .ok t) :
    Expr.checkItems (e :: es) scope t.ty = (do
      return t :: (← Expr.checkItems es scope t.ty)) := by
  simp only [Expr.checkItems, infer_stable e h, ok_bind]
  rfl

theorem anchorTy_append {e : Expr} (hb : ∀ first ∈ before, first.needsHint = true)
    (he : e.needsHint = false) :
    Expr.anchorTy (before ++ e :: after) scope = (do return some (← e.infer scope none).ty) := by
  induction before with
  | nil => simp [Expr.anchorTy, he]
  | cons first before ih =>
    obtain ⟨hf, hb⟩ := List.forall_mem_cons.mp hb
    simp only [List.cons_append, Expr.anchorTy, hf, if_true, ih hb]

theorem infer_list_anchored {e : Expr} (hh : listHint hint = none)
    (hb : ∀ first ∈ before, first.needsHint = true) (he : e.needsHint = false) :
    (Expr.list (before ++ e :: after) position).infer scope hint = (do
      let t ← e.infer scope none
      let heads ← Expr.checkItems before scope t.ty
      let tails ← Expr.checkItems after scope t.ty
      return ⟨.list (heads ++ t :: tails), .list t.ty, position⟩) := by
  cases before with
  | nil => simp [Expr.infer, Expr.checkItems, hh, he, ok_bind]
  | cons first before =>
    obtain ⟨hf, hb⟩ := List.forall_mem_cons.mp hb
    simp only [List.cons_append, Expr.infer, hh, hf, Option.isNone_none, Bool.and_self, if_true,
      anchorTy_append hb he, bind_assoc, pure_bind]
    refine bind_congr_ok fun t ht => ?_
    rw [← List.cons_append, checkItems_append, checkItems_typed_cons ht]
    simp only [bind_assoc, pure_bind]

-- ---------------------------------------------------------------------------
-- Declarations
-- ---------------------------------------------------------------------------

theorem inferDecl_declared (h : (Decl.mk name declared value position).infer scope =
    .ok (typed, behind)) :
    (Decl.mk name (some ⟨typed.ty, place⟩) value position).infer scope =
      .ok ({ typed with declared := some typed.ty }, behind) := by
  obtain ⟨inner, t, ty, hs, hi, rfl, -, hv, hr⟩ := infer_decl_ok.mp h
  cases hr
  have hwritten : ∀ written ∈ some (⟨t.ty, place⟩ : Ascription), t.ty = written.ty := by
    rintro _ ⟨⟩
    rfl
  exact infer_decl_ok.mpr ⟨inner, t, t.ty, hs, infer_stable value hi, rfl, hwritten, hv, rfl⟩

-- ---------------------------------------------------------------------------
-- Stability
-- ---------------------------------------------------------------------------

/-- What an expression or a block was typed to, with or without a hint, right or
wrong, it is typed to with its own type as the hint. So typing the item that fixes
the type of a list again where it stands neither fails nor changes anything, and
writing down the type that a declaration binds changes nothing else in it. -/
theorem hints_stable (scope : Scope) :
    (∀ (e : Expr) hint t, e.infer scope hint = .ok t → e.infer scope (some t.ty) = .ok t) ∧
    (∀ (b : Block) hint t, b.infer scope hint = .ok t → b.infer scope (some t.ty) = .ok t) ∧
    (∀ (before : List Expr) (anchor : Expr) (after : List Expr) position hint,
      listHint hint = none → (∀ e ∈ before, e.needsHint = true) → anchor.needsHint = false →
      (∀ t, anchor.infer scope none = .ok t →
        Expr.checkItems [anchor] scope t.ty = .ok [t]) ∧
      (Expr.list (before ++ anchor :: after) position).infer scope hint = (do
        let t ← anchor.infer scope none
        let heads ← Expr.checkItems before scope t.ty
        let tails ← Expr.checkItems after scope t.ty
        return ⟨.list (heads ++ t :: tails), .list t.ty, position⟩)) ∧
    (∀ name declared value position typed behind,
      (Decl.mk name declared value position).infer scope = .ok (typed, behind) →
      ∀ place, (Decl.mk name (some ⟨typed.ty, place⟩) value position).infer scope =
        .ok ({ typed with declared := some typed.ty }, behind)) := by
  refine ⟨fun e _ _ h => infer_stable e h, fun b _ _ h => inferBlock_stable b h, ?_,
    fun _ _ _ _ _ _ h _ => inferDecl_declared h⟩
  intro before anchor after position hint hh hb ha
  refine ⟨fun t ht => ?_, infer_list_anchored hh hb ha⟩
  rw [checkItems_typed_cons ht]
  rfl

/-- The list `[[], [1]]`, alone and in a block, where a string is expected; its
second item; and a declaration of the list. -/
theorem nestedList_stable :
    (∃ t, nestedList.infer .empty (some .str) = .ok t ∧
      nestedList.infer .empty (some t.ty) = .ok t) ∧
    (∃ t, (Block.mk [.expr nestedList] false .start).infer .empty (some .str) = .ok t ∧
      (Block.mk [.expr nestedList] false .start).infer .empty (some t.ty) = .ok t) ∧
    (∃ t, (Expr.list [.literal (.int 1) .start] .start).infer .empty none = .ok t ∧
      Expr.checkItems [.list [.literal (.int 1) .start] .start] .empty t.ty = .ok [t]) ∧
    ∃ typed behind, (Decl.mk "xs" none nestedList .start).infer .empty = .ok (typed, behind) ∧
      (Decl.mk "xs" (some ⟨typed.ty, .start⟩) nestedList .start).infer .empty =
        .ok ({ typed with declared := some typed.ty }, behind) := by
  obtain ⟨hexpr, hblock, hanchor, hdecl⟩ := hints_stable .empty
  obtain ⟨t, ht⟩ := isOk_iff.mp
    (by decide +kernel : (nestedList.infer .empty (some .str)).isOk = true)
  obtain ⟨b, hb⟩ := isOk_iff.mp (by decide +kernel :
    ((Block.mk [.expr nestedList] false .start).infer .empty (some .str)).isOk = true)
  obtain ⟨one, hone⟩ := isOk_iff.mp (by decide +kernel :
    ((Expr.list [.literal (.int 1) .start] .start).infer .empty none).isOk = true)
  obtain ⟨⟨typed, behind⟩, hd⟩ := isOk_iff.mp
    (by decide +kernel : ((Decl.mk "xs" none nestedList .start).infer .empty).isOk = true)
  have hbefore : ∀ e ∈ [Expr.list [] .start], e.needsHint = true :=
    List.forall_mem_singleton.mpr rfl
  have hsecond : (Expr.list [.literal (.int 1) .start] .start).needsHint = false := by decide
  exact ⟨⟨t, ht, hexpr _ _ _ ht⟩, ⟨b, hb, hblock _ _ _ hb⟩,
    ⟨one, hone, (hanchor _ _ [] .start none rfl hbefore hsecond).1 one hone⟩,
    ⟨typed, behind, hd, hdecl _ _ _ _ _ _ hd .start⟩⟩

end LetLang
