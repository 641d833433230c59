import LetLang.Proofs.Outcome
import LetLang.Typing.Infer

/-!
# Typing step by step

What a successful run of the checker says, form by form: which parts were typed,
in which scope and under which hint, which comparisons held, and what the typed
node holds. Later proofs read the checker through these lemmas.
-/

namespace LetLang

theorem requireType_ok : requireType expected found position = .ok u ↔ found = expected := by
  simp only [requireType, ensure_eq_ok, decide_eq_true_eq]

theorem signature_ok : signature params returns position = .ok r ↔
    ∃ param ret, params = [param] ∧ returns = [ret] ∧ r = (param, ret.ty) := by
  constructor
  · intro h
    unfold signature at h
    split at h
    · cases h
      exact ⟨_, _, rfl, rfl, rfl⟩
    · cases h
  · rintro ⟨param, ret, rfl, rfl, rfl⟩
    rfl

theorem Decl.requireValue_ok {d : Decl} :
    d.requireValue ty = .ok u ↔ ty.containsVoid = false ∨ d.unpacks = true := by
  simp [Decl.requireValue, ensure_eq_ok]

theorem BinaryOp.requireLeft_ok {op : BinaryOp} :
    op.requireLeft left = .ok u ↔ op.opClass.accepts left.ty = true := by
  simp only [BinaryOp.requireLeft, ensure_eq_ok]

theorem BinaryOp.requireRight_ok {op : BinaryOp} :
    op.requireRight left right = .ok u ↔ right.ty = left.ty := by
  simp only [BinaryOp.requireRight, ensure_eq_ok, decide_eq_true_eq]

-- ---------------------------------------------------------------------------
-- Hints
-- ---------------------------------------------------------------------------

theorem tupleHints_tuple (h : items.length = count) :
    tupleHints (some (.tuple items)) count = items := by
  simp [tupleHints, h]

theorem Ty.element?_eq_some {ty : Ty} :
    ty.element? = some item ↔ ty = .list item ∨ ty = .str ∧ item = .char := by
  constructor
  · intro h
    unfold Ty.element? at h
    split at h
    · cases h
      exact .inl rfl
    · cases h
      exact .inr ⟨rfl, rfl⟩
    · cases h
  · rintro (rfl | ⟨rfl, rfl⟩)
    · rfl
    · rfl

theorem Ty.item?_eq_some {items : List Ty} {index : Int} :
    Ty.item? items index = some item ↔
      ∃ place : Nat, index = place ∧ items[place]? = some item := by
  constructor
  · intro h
    unfold Ty.item? at h
    split at h
    · next hp => exact ⟨index.toNat, (Int.toNat_of_nonneg hp).symm, h⟩
    · cases h
  · rintro ⟨place, rfl, h⟩
    simpa [Ty.item?] using h

-- ---------------------------------------------------------------------------
-- Expressions
-- ---------------------------------------------------------------------------

theorem infer_ident_ok : (Expr.ident name position).infer scope hint = .ok t ↔
    ∃ ty, scope.lookup name = some ty ∧ t = ⟨.ident name, ty, position⟩ := by
  rw [Expr.infer]
  cases scope.lookup name with
  | none => simp [reject_ne_ok]
  | some ty => simp [eq_comm]

theorem infer_tuple_ok : (Expr.tuple items position).infer scope hint = .ok t ↔
    ∃ typed, Expr.inferItems items scope (tupleHints hint items.length) = .ok typed ∧
      t = ⟨.tuple typed, .tuple (typed.map (·.ty)), position⟩ := by
  simp only [Expr.infer, bind_eq_ok, pure_eq_ok]

theorem infer_nil_ok : (Expr.list [] position).infer scope hint = .ok t ↔
    ∃ item, hint = some (.list item) ∧ t = ⟨.list [], .list item, position⟩ := by
  constructor
  · intro h
    simp only [Expr.infer] at h
    split at h
    · cases h
      exact ⟨_, rfl, rfl⟩
    · cases h
    · cases h
  · rintro ⟨item, rfl, rfl⟩
    rfl

/-- The items of a list are typed against one item type: that of the first item
that needs no hint where the list itself has none and its first item needs one,
and that of the first item otherwise. -/
theorem infer_list_ok : (Expr.list (first :: rest) position).infer scope hint = .ok t ↔
    (∃ item typed, listHint hint = none ∧ first.needsHint = true ∧
        Expr.anchorTy rest scope = .ok (some item) ∧
        Expr.checkItems (first :: rest) scope item = .ok typed ∧
        t = ⟨.list typed, .list item, position⟩) ∨
      ((listHint hint = none → first.needsHint = true → Expr.anchorTy rest scope = .ok none) ∧
        ∃ head tail, first.infer scope (listHint hint) = .ok head ∧
          Expr.checkItems rest scope head.ty = .ok tail ∧
          t = ⟨.list (head :: tail), .list head.ty, position⟩) := by
  simp only [Expr.infer]
  split
  · next h =>
    simp only [Bool.and_eq_true, Option.isNone_iff_eq_none] at h
    simp only [bind_eq_ok]
    constructor
    · rintro ⟨anchor, ha, h'⟩
      cases anchor with
      | none =>
        simp only [bind_eq_ok, pure_eq_ok] at h'
        obtain ⟨head, hh, tail, ht, rfl⟩ := h'
        exact .inr ⟨fun _ _ => ha, head, tail, hh, ht, rfl⟩
      | some item =>
        simp only [bind_eq_ok, pure_eq_ok] at h'
        obtain ⟨typed, ht, rfl⟩ := h'
        exact .inl ⟨item, typed, h.1, h.2, ha, ht, rfl⟩
    · rintro (⟨item, typed, -, -, ha, ht, rfl⟩ | ⟨ha, head, tail, hh, ht, rfl⟩)
      · refine ⟨some item, ha, ?_⟩
        simp only [bind_eq_ok, pure_eq_ok]
        exact ⟨typed, ht, rfl⟩
      · refine ⟨none, ha h.1 h.2, ?_⟩
        simp only [bind_eq_ok, pure_eq_ok]
        exact ⟨head, hh, tail, ht, rfl⟩
  · next h =>
    simp only [Bool.and_eq_true, Option.isNone_iff_eq_none] at h
    simp only [pure_bind, bind_eq_ok, pure_eq_ok]
    constructor
    · rintro ⟨head, hh, tail, ht, rfl⟩
      exact .inr ⟨fun h1 h2 => absurd ⟨h1, h2⟩ h, head, tail, hh, ht, rfl⟩
    · rintro (⟨item, typed, h1, h2, -⟩ | ⟨-, head, tail, hh, ht, rfl⟩)
      · exact absurd ⟨h1, h2⟩ h
      · exact ⟨head, hh, tail, ht, rfl⟩

theorem infer_func_ok : (Expr.func params returns body position).infer scope hint = .ok t ↔
    ∃ param ret typed, signature params returns position = .ok (param, ret) ∧
      body.infer (scope.push.bind param.name param.type.ty) (some ret) = .ok typed ∧
      typed.ty = ret ∧
      t = ⟨.func param.name param.type.ty ret typed, .func param.type.ty ret, position⟩ := by
  simp only [Expr.infer, bind_eq_ok, pure_eq_ok, ensure_eq_ok, decide_eq_true_eq]
  constructor
  · rintro ⟨⟨param, ret⟩, hs, typed, hb, _, ht, rfl⟩
    exact ⟨param, ret, typed, hs, hb, ht, rfl⟩
  · rintro ⟨param, ret, typed, hs, hb, ht, rfl⟩
    exact ⟨(param, ret), hs, typed, hb, (), ht, rfl⟩

theorem infer_call_ok : (Expr.call callee args argsPosition position).infer scope hint = .ok t ↔
    ∃ arg f a param ret, args = [arg] ∧ callee.infer scope none = .ok f ∧
      f.ty = .func param ret ∧ arg.infer scope (some param) = .ok a ∧ a.ty = param ∧
      t = ⟨.call f a, ret, position⟩ := by
  simp only [Expr.infer, bind_eq_ok]
  constructor
  · rintro ⟨f, hf, h⟩
    split at h
    · next param ret hty =>
      split at h
      · next arg =>
        simp only [bind_eq_ok, pure_eq_ok, ensure_eq_ok, decide_eq_true_eq] at h
        obtain ⟨a, ha, _, hp, rfl⟩ := h
        exact ⟨arg, f, a, param, ret, rfl, hf, hty, ha, hp, rfl⟩
      · cases h
    · cases h
  · rintro ⟨arg, f, a, param, ret, rfl, hf, hty, ha, hp, rfl⟩
    refine ⟨f, hf, ?_⟩
    simp only [hty, bind_eq_ok, pure_eq_ok, ensure_eq_ok, decide_eq_true_eq]
    exact ⟨a, ha, (), hp, rfl⟩

theorem infer_block_ok : (Expr.block body).infer scope hint = .ok t ↔
    ∃ typed, body.infer scope hint = .ok typed ∧ t = ⟨.block typed, typed.ty, body.position⟩ := by
  simp only [Expr.infer, bind_eq_ok, pure_eq_ok]

theorem infer_index_ok : (Expr.index target index position).infer scope hint = .ok t ↔
    ∃ typed, target.infer scope none = .ok typed ∧
      ((∃ items place indexPosition item, typed.ty = .tuple items ∧
          index = .literal (.int place) indexPosition ∧ Ty.item? items place = some item ∧
          t = ⟨.index typed ⟨.literal (.int place), .int, indexPosition⟩, item, position⟩) ∨
        ∃ item i, typed.ty.element? = some item ∧ index.infer scope none = .ok i ∧ i.ty = .int ∧
          t = ⟨.index typed i, item, position⟩) := by
  simp only [Expr.infer, bind_eq_ok]
  refine exists_congr fun typed => and_congr_right fun _ => ?_
  constructor
  · intro h
    split at h
    · next items hty =>
      split at h
      · next place indexPosition =>
        split at h
        · next item hi =>
          cases h
          exact .inl ⟨items, place, indexPosition, item, hty, rfl, hi, rfl⟩
        · cases h
      · cases h
    · next hn =>
      split at h
      · next item he =>
        simp only [bind_eq_ok, pure_eq_ok, ensure_eq_ok, decide_eq_true_eq] at h
        obtain ⟨i, hi, _, hint, rfl⟩ := h
        exact .inr ⟨item, i, he, hi, hint, rfl⟩
      · cases h
  · rintro (⟨items, place, indexPosition, item, hty, rfl, hi, rfl⟩ | ⟨item, i, he, hi, hint, rfl⟩)
    · simp only [hty, hi]
      rfl
    · have hs : ∀ items, typed.ty ≠ .tuple items := by
        intro items hs
        rw [hs] at he
        cases he
      split
      · next items hty => exact absurd hty (hs items)
      · simp only [he, bind_eq_ok, pure_eq_ok, ensure_eq_ok, decide_eq_true_eq]
        exact ⟨i, hi, (), hint, rfl⟩

/-- The second branch of a conditional is typed first where it alone can say
what the first one yields. -/
def typesElseFirst (hint : Option Ty) (thenBlock elseBlock : Block) : Prop :=
  hint = none ∧ thenBlock.needsHint = true ∧ elseBlock.needsHint = false

theorem infer_cond_ok : (Expr.cond test thenBlock elseBlock position).infer scope hint = .ok t ↔
    ∃ c yes no, test.infer scope (some .bool) = .ok c ∧ c.ty = .bool ∧
      (typesElseFirst hint thenBlock elseBlock ∧ elseBlock.infer scope none = .ok no ∧
          thenBlock.infer scope (some no.ty) = .ok yes ∨
        ¬typesElseFirst hint thenBlock elseBlock ∧ thenBlock.infer scope hint = .ok yes ∧
          elseBlock.infer scope (some yes.ty) = .ok no) ∧
      no.ty = yes.ty ∧ t = ⟨.cond c yes no, yes.ty, position⟩ := by
  simp only [Expr.infer, bind_eq_ok, ensure_eq_ok, decide_eq_true_eq]
  constructor
  · rintro ⟨c, hc, _, hb, h⟩
    split at h
    · next hf =>
      simp only [Bool.and_eq_true, Option.isNone_iff_eq_none, Bool.not_eq_true', and_assoc] at hf
      simp only [bind_eq_ok, pure_eq_ok, ensure_eq_ok, decide_eq_true_eq] at h
      obtain ⟨no, hn, yes, hy, _, rfl, _, ht, rfl⟩ := h
      exact ⟨c, yes, no, hc, hb, .inl ⟨hf, hn, hy⟩, ht, rfl⟩
    · next hf =>
      simp only [Bool.and_eq_true, Option.isNone_iff_eq_none, Bool.not_eq_true', and_assoc] at hf
      simp only [bind_eq_ok, pure_eq_ok, ensure_eq_ok, decide_eq_true_eq] at h
      obtain ⟨yes, hy, no, hn, _, rfl, _, ht, rfl⟩ := h
      exact ⟨c, yes, no, hc, hb, .inr ⟨hf, hy, hn⟩, ht, rfl⟩
  · rintro ⟨c, yes, no, hc, hb, h, ht, rfl⟩
    refine ⟨c, hc, (), hb, ?_⟩
    rcases h with ⟨hf, hn, hy⟩ | ⟨hf, hy, hn⟩
    · obtain ⟨rfl, h1, h2⟩ := hf
      simp only [h1, h2, Option.isNone_none, Bool.not_false, Bool.and_self, if_true, bind_eq_ok,
        pure_eq_ok, ensure_eq_ok, decide_eq_true_eq]
      exact ⟨no, hn, yes, hy, _, rfl, (), ht, rfl⟩
    · have hn' : ¬(hint.isNone && thenBlock.needsHint && !elseBlock.needsHint) = true := by
        simpa only [typesElseFirst, Bool.and_eq_true, Option.isNone_iff_eq_none,
          Bool.not_eq_true', and_assoc] using hf
      rw [if_neg hn']
      simp only [bind_eq_ok, pure_eq_ok, ensure_eq_ok, decide_eq_true_eq]
      exact ⟨yes, hy, no, hn, _, rfl, (), ht, rfl⟩

theorem infer_loop_ok : (Expr.loop binder iterable body position).infer scope hint = .ok t ↔
    ∃ items item typed, iterable.infer scope none = .ok items ∧ items.ty = .list item ∧
      body.infer (scope.push.bind binder item) (listHint hint) = .ok typed ∧
      t = ⟨.loop binder items typed, .list typed.ty, position⟩ := by
  simp only [Expr.infer, bind_eq_ok]
  constructor
  · rintro ⟨items, hi, h⟩
    split at h
    · next item hty =>
      simp only [bind_eq_ok, pure_eq_ok] at h
      obtain ⟨typed, hb, rfl⟩ := h
      exact ⟨items, item, typed, hi, hty, hb, rfl⟩
    · cases h
  · rintro ⟨items, item, typed, hi, hty, hb, rfl⟩
    refine ⟨items, hi, ?_⟩
    simp only [hty, bind_eq_ok, pure_eq_ok]
    exact ⟨typed, hb, rfl⟩

theorem infer_unary_ok : (Expr.unary op operand position).infer scope hint = .ok t ↔
    ∃ typed, operand.infer scope none = .ok typed ∧ op.accepts typed.ty = true ∧
      t = ⟨.unary op typed, typed.ty, position⟩ := by
  simp only [Expr.infer, bind_eq_ok, pure_eq_ok, ensure_eq_ok]
  constructor
  · rintro ⟨typed, ho, _, ha, rfl⟩
    exact ⟨typed, ho, ha, rfl⟩
  · rintro ⟨typed, ho, ha, rfl⟩
    exact ⟨typed, ho, (), ha, rfl⟩

/-- The right operand is typed first where it alone can say what the left one is. -/
def typesRightFirst (left right : Expr) : Prop :=
  left.needsHint = true ∧ right.needsHint = false

theorem infer_binary_ok : (Expr.binary op left right position).infer scope hint = .ok t ↔
    ∃ l r, (typesRightFirst left right ∧ right.infer scope none = .ok r ∧
          left.infer scope (some r.ty) = .ok l ∨
        ¬typesRightFirst left right ∧ left.infer scope none = .ok l ∧
          right.infer scope (some l.ty) = .ok r) ∧
      op.opClass.accepts l.ty = true ∧ r.ty = l.ty ∧
      t = ⟨.binary op l r, op.opClass.result l.ty, position⟩ := by
  simp only [Expr.infer]
  split
  · next hf =>
    simp only [Bool.and_eq_true, Bool.not_eq_true'] at hf
    simp only [bind_eq_ok, pure_eq_ok, BinaryOp.requireLeft_ok, BinaryOp.requireRight_ok]
    constructor
    · rintro ⟨r, hr, l, hl, _, ha, _, rfl, _, ht, rfl⟩
      exact ⟨l, r, .inl ⟨hf, hr, hl⟩, ha, ht, rfl⟩
    · rintro ⟨l, r, ⟨-, hr, hl⟩ | ⟨hn, -⟩, ha, ht, rfl⟩
      · exact ⟨r, hr, l, hl, (), ha, _, rfl, (), ht, rfl⟩
      · exact absurd hf hn
  · next hf =>
    simp only [Bool.and_eq_true, Bool.not_eq_true'] at hf
    simp only [bind_eq_ok, pure_eq_ok, BinaryOp.requireLeft_ok, BinaryOp.requireRight_ok]
    constructor
    · rintro ⟨l, hl, _, ha, r, hr, _, rfl, _, ht, rfl⟩
      exact ⟨l, r, .inr ⟨hf, hl, hr⟩, ha, ht, rfl⟩
    · rintro ⟨l, r, ⟨hn, -⟩ | ⟨-, hl, hr⟩, ha, ht, rfl⟩
      · exact absurd hn hf
      · exact ⟨l, hl, (), ha, r, hr, _, rfl, (), ht, rfl⟩

-- ---------------------------------------------------------------------------
-- Lists of expressions
-- ---------------------------------------------------------------------------

theorem inferItems_cons_ok : Expr.inferItems (e :: es) scope hints = .ok ts ↔
    ∃ t rest, e.infer scope hints.head? = .ok t ∧
      Expr.inferItems es scope hints.tail = .ok rest ∧ ts = t :: rest := by
  simp only [Expr.inferItems, bind_eq_ok, pure_eq_ok]
  constructor
  · rintro ⟨t, ht, rest, hr, rfl⟩
    exact ⟨t, rest, ht, hr, rfl⟩
  · rintro ⟨t, rest, ht, hr, rfl⟩
    exact ⟨t, ht, rest, hr, rfl⟩

theorem checkItems_cons_ok : Expr.checkItems (e :: es) scope item = .ok ts ↔
    ∃ t rest, e.infer scope (some item) = .ok t ∧ t.ty = item ∧
      Expr.checkItems es scope item = .ok rest ∧ ts = t :: rest := by
  simp only [Expr.checkItems, bind_eq_ok, pure_eq_ok, ensure_eq_ok, decide_eq_true_eq]
  constructor
  · rintro ⟨t, ht, _, hty, rest, hr, rfl⟩
    exact ⟨t, rest, ht, hty, hr, rfl⟩
  · rintro ⟨t, rest, ht, hty, hr, rfl⟩
    exact ⟨t, ht, (), hty, rest, hr, rfl⟩

-- ---------------------------------------------------------------------------
-- Declarations, statements and blocks
-- ---------------------------------------------------------------------------

theorem infer_decl_ok : (Decl.mk name declared value position).infer scope = .ok r ↔
    ∃ inner typed ty, (Decl.mk name declared value position).valueScope scope = .ok inner ∧
      value.infer inner (declared.map (·.ty)) = .ok typed ∧ typed.ty = ty ∧
      (∀ written ∈ declared, ty = written.ty) ∧
      (Decl.mk name declared value position).requireValue ty = .ok () ∧
      r = (⟨name, declared.map (·.ty), ty, typed, position⟩, inner.bind name ty) := by
  cases declared with
  | none =>
    simp only [Decl.infer, bind_eq_ok, pure_eq_ok]
    constructor
    · rintro ⟨inner, hs, typed, hi, _, hv, rfl⟩
      refine ⟨inner, typed, _, hs, hi, rfl, ?_, hv, rfl⟩
      rintro _ ⟨⟩
    · rintro ⟨inner, typed, ty, hs, hi, rfl, -, hv, rfl⟩
      exact ⟨inner, hs, typed, hi, (), hv, rfl⟩
  | some written =>
    simp only [Decl.infer, bind_eq_ok, pure_eq_ok, requireType_ok]
    constructor
    · rintro ⟨inner, hs, _, hv, typed, hi, _, ht, rfl⟩
      refine ⟨inner, typed, written.ty, hs, hi, ht, ?_, hv, rfl⟩
      rintro _ ⟨⟩
      rfl
    · rintro ⟨inner, typed, ty, hs, hi, ht, hw, hv, rfl⟩
      obtain rfl := hw written rfl
      exact ⟨inner, hs, (), hv, typed, hi, (), ht, rfl⟩

/-- The value of a function sees the function, and any other value sees what
was bound before. -/
theorem valueScope_ok {d : Decl} {inner : Scope} : d.valueScope scope = .ok inner ↔
    (∃ params returns body position param ret, d.value = .func params returns body position ∧
        signature params returns position = .ok (param, ret) ∧
        inner = scope.bind d.name (.func param.type.ty ret)) ∨
      (∀ params returns body position, d.value ≠ .func params returns body position) ∧
        inner = scope := by
  unfold Decl.valueScope
  split
  · next params returns body position hd =>
    simp only [bind_eq_ok, pure_eq_ok]
    constructor
    · rintro ⟨⟨param, ret⟩, hs, rfl⟩
      exact .inl ⟨params, returns, body, position, param, ret, hd, hs, rfl⟩
    · rintro (⟨_, _, _, _, param, ret, he, hs, rfl⟩ | ⟨hn, -⟩)
      · cases hd.symm.trans he
        exact ⟨(param, ret), hs, rfl⟩
      · exact absurd hd (hn params returns body position)
  · next hn =>
    constructor
    · rintro ⟨⟩
      exact .inr ⟨fun params returns body position h => hn _ _ _ _ h, rfl⟩
    · rintro (⟨params, returns, body, position, _, _, he, -⟩ | ⟨-, rfl⟩)
      · exact absurd he (hn params returns body position)
      · rfl

theorem infer_declStmt_ok : (Stmt.decl d).infer scope hint = .ok r ↔
    ∃ typed behind, d.infer scope = .ok (typed, behind) ∧ r = (.decl typed, behind) := by
  simp only [Stmt.infer, bind_eq_ok, pure_eq_ok]
  constructor
  · rintro ⟨⟨typed, behind⟩, hd, rfl⟩
    exact ⟨typed, behind, hd, rfl⟩
  · rintro ⟨typed, behind, hd, rfl⟩
    exact ⟨(typed, behind), hd, rfl⟩

theorem infer_exprStmt_ok : (Stmt.expr e).infer scope hint = .ok r ↔
    ∃ typed, e.infer scope hint = .ok typed ∧ r = (.expr typed, scope) := by
  simp only [Stmt.infer, bind_eq_ok, pure_eq_ok]

theorem inferAll_cons_ok : Stmt.inferAll (s :: ss) scope hint = .ok ts ↔
    ∃ t behind rest, s.infer scope (if ss.isEmpty then hint else none) = .ok (t, behind) ∧
      Stmt.inferAll ss behind hint = .ok rest ∧ ts = t :: rest := by
  simp only [Stmt.inferAll, bind_eq_ok, pure_eq_ok]
  constructor
  · rintro ⟨⟨t, behind⟩, hs, rest, hr, rfl⟩
    exact ⟨t, behind, rest, hs, hr, rfl⟩
  · rintro ⟨t, behind, rest, hs, hr, rfl⟩
    exact ⟨(t, behind), hs, rest, hr, rfl⟩

theorem inferBlock_ok : (Block.mk stmts returnsVoid position).infer scope hint = .ok t ↔
    ∃ typed, Stmt.inferAll stmts scope.push (if returnsVoid then none else hint) = .ok typed ∧
      t = ⟨typed, returnsVoid, Typed.valueTy returnsVoid typed, position⟩ := by
  simp only [Block.infer, bind_eq_ok, pure_eq_ok]

-- ---------------------------------------------------------------------------
-- Modules
-- ---------------------------------------------------------------------------

theorem declsInferAll_cons_ok : Decl.inferAll (d :: ds) scope = .ok ts ↔
    ∃ t behind rest, d.infer scope = .ok (t, behind) ∧ Decl.inferAll ds behind = .ok rest ∧
      ts = t :: rest := by
  simp only [Decl.inferAll, bind_eq_ok, pure_eq_ok]
  constructor
  · rintro ⟨⟨t, behind⟩, hd, rest, hr, rfl⟩
    exact ⟨t, behind, rest, hd, hr, rfl⟩
  · rintro ⟨t, behind, rest, hd, hr, rfl⟩
    exact ⟨(t, behind), hd, rest, hr, rfl⟩

theorem inferModule_ok {m : Module} : m.infer scope = .ok t ↔
    ∃ ds, Decl.inferAll m.decls scope.push = .ok ds ∧ t = ⟨ds⟩ := by
  simp only [Module.infer, bind_eq_ok, pure_eq_ok]

end LetLang
