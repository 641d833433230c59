import LetLang.Proofs.Typing.Steps

/-!
# Hints

A hint decides nothing but the types of empty lists. What was typed under some
hint is typed alike under its own type, an expression that needs a hint is
refused without one, and any other has one typed form, with or without hints.

The last two meet in lists and conditionals, where the checker takes a part that
needs no hint first: that part fixes the type, and the others are stable under it.
-/

namespace LetLang

theorem inferItems_length (h : Expr.inferItems es scope hints = .ok ts) :
    ts.length = es.length := by
  induction es generalizing hints ts with
  | nil =>
    cases h
    rfl
  | cons e es ih =>
    obtain ⟨t, rest, -, hr, rfl⟩ := inferItems_cons_ok.mp h
    simp [ih hr]

theorem inferAll_length (h : Stmt.inferAll ss scope hint = .ok ts) :
    ts.length = ss.length := by
  induction ss generalizing scope ts with
  | nil =>
    cases h
    rfl
  | cons s ss ih =>
    obtain ⟨t, behind, rest, -, hr, rfl⟩ := inferAll_cons_ok.mp h
    simp [ih hr]

theorem valueTy_cons (h : rest ≠ []) :
    Typed.valueTy returnsVoid (t :: rest) = Typed.valueTy returnsVoid rest := by
  obtain ⟨next, more, rfl⟩ := List.exists_cons_of_ne_nil h
  simp only [Typed.valueTy, List.getLast?_cons_cons]

-- ---------------------------------------------------------------------------
-- Stability
-- ---------------------------------------------------------------------------

mutual
/-- What was typed under some hint is typed alike under its own type. -/
theorem infer_stable : (e : Expr) → e.infer scope hint = .ok t →
    e.infer scope (some t.ty) = .ok t
  | .literal value position, h => by
    cases h
    rfl
  | .ident name position, h => infer_ident_ok.mpr (infer_ident_ok.mp h)
  | .tuple items position, h => by
    obtain ⟨typed, hi, rfl⟩ := infer_tuple_ok.mp h
    refine infer_tuple_ok.mpr ⟨typed, ?_, rfl⟩
    rw [tupleHints_tuple (by simp [inferItems_length hi])]
    exact inferItems_stable items hi
  | .list [] position, h => by
    obtain ⟨item, -, rfl⟩ := infer_nil_ok.mp h
    exact infer_nil_ok.mpr ⟨item, rfl, rfl⟩
  | .list (first :: rest) position, h => by
    rcases infer_list_ok.mp h with ⟨item, typed, -, -, -, hc, rfl⟩ | ⟨-, head, tail, hh, hc, rfl⟩
    · obtain ⟨head, tail, hh, rfl, hr, rfl⟩ := checkItems_cons_ok.mp hc
      exact infer_list_ok.mpr (.inr ⟨nofun, head, tail, hh, hr, rfl⟩)
    · exact infer_list_ok.mpr (.inr ⟨nofun, head, tail, infer_stable first hh, hc, rfl⟩)
  | .func params returns body position, h => infer_func_ok.mpr (infer_func_ok.mp h)
  | .call callee args argsPosition position, h => infer_call_ok.mpr (infer_call_ok.mp h)
  | .block body, h => by
    obtain ⟨typed, hb, rfl⟩ := infer_block_ok.mp h
    exact infer_block_ok.mpr ⟨typed, inferBlock_stable body hb, rfl⟩
  | .index target index position, h => infer_index_ok.mpr (infer_index_ok.mp h)
  | .cond test thenBlock elseBlock position, h => by
    obtain ⟨c, yes, no, hc, hb, ho, hty, rfl⟩ := infer_cond_ok.mp h
    refine infer_cond_ok.mpr ⟨c, yes, no, hc, hb, .inr ⟨nofun, ?_⟩, hty, rfl⟩
    rcases ho with ⟨-, hn, hy⟩ | ⟨-, hy, hn⟩
    · rw [hty] at hy
      exact ⟨hy, hty ▸ inferBlock_stable elseBlock hn⟩
    · exact ⟨inferBlock_stable thenBlock hy, hn⟩
  | .loop binder iterable body position, h => by
    obtain ⟨items, item, typed, hi, hty, hb, rfl⟩ := infer_loop_ok.mp h
    exact infer_loop_ok.mpr ⟨items, item, typed, hi, hty, inferBlock_stable body hb, rfl⟩
  | .unary op operand position, h => infer_unary_ok.mpr (infer_unary_ok.mp h)
  | .binary op left right position, h => infer_binary_ok.mpr (infer_binary_ok.mp h)
termination_by structural e => e

theorem inferItems_stable : (es : List Expr) → Expr.inferItems es scope hints = .ok ts →
    Expr.inferItems es scope (ts.map (·.ty)) = .ok ts
  | [], h => by
    cases h
    rfl
  | e :: es, h => by
    obtain ⟨t, rest, ht, hr, rfl⟩ := inferItems_cons_ok.mp h
    exact inferItems_cons_ok.mpr ⟨t, rest, infer_stable e ht, inferItems_stable es hr, rfl⟩

theorem inferAll_stable : (ss : List Stmt) → Stmt.inferAll ss scope hint = .ok ts →
    Stmt.inferAll ss scope (some (Typed.valueTy false ts)) = .ok ts
  | [], h => by
    cases h
    rfl
  | [.decl d], h => by
    obtain ⟨t, behind, rest, hs, hr, rfl⟩ := inferAll_cons_ok.mp h
    cases hr
    refine inferAll_cons_ok.mpr ⟨t, behind, [], ?_, rfl, rfl⟩
    exact infer_declStmt_ok.mpr (infer_declStmt_ok.mp hs)
  | [.expr e], h => by
    obtain ⟨_, _, rest, hs, hr, rfl⟩ := inferAll_cons_ok.mp h
    obtain ⟨t, ht, he⟩ := infer_exprStmt_ok.mp hs
    cases he
    cases hr
    refine inferAll_cons_ok.mpr ⟨.expr t, scope, [], ?_, rfl, rfl⟩
    exact infer_exprStmt_ok.mpr ⟨t, infer_stable e ht, rfl⟩
  | s :: next :: ss, h => by
    obtain ⟨t, behind, rest, hs, hr, rfl⟩ := inferAll_cons_ok.mp h
    have hne : rest ≠ [] := List.ne_nil_of_length_eq_add_one (inferAll_length hr)
    rw [valueTy_cons hne]
    exact inferAll_cons_ok.mpr ⟨t, behind, rest, hs, inferAll_stable (next :: ss) hr, rfl⟩

theorem inferBlock_stable : (b : Block) → b.infer scope hint = .ok t →
    b.infer scope (some t.ty) = .ok t
  | ⟨stmts, returnsVoid, position⟩, h => by
    obtain ⟨typed, hs, rfl⟩ := inferBlock_ok.mp h
    refine inferBlock_ok.mpr ⟨typed, ?_, rfl⟩
    cases returnsVoid with
    | true => exact hs
    | false => exact inferAll_stable stmts hs
end

-- ---------------------------------------------------------------------------
-- Without a hint
-- ---------------------------------------------------------------------------

theorem anchorTy_of_allNeedHint (h : Expr.allNeedHint es = true) :
    Expr.anchorTy es scope = .ok none := by
  induction es with
  | nil => rfl
  | cons e es ih =>
    obtain ⟨he, hs⟩ := Bool.and_eq_true_iff.mp h
    simp only [Expr.anchorTy, he, if_true]
    exact ih hs

mutual
/-- An expression that needs a hint is refused without one. -/
theorem infer_none_ne_ok : (e : Expr) → e.needsHint = true → e.infer scope none ≠ .ok t
  | .literal .., hn, _ | .ident .., hn, _ | .func .., hn, _ | .call .., hn, _
  | .index .., hn, _ | .unary .., hn, _ | .binary .., hn, _ => nomatch hn
  | .tuple items position, hn, h => by
    obtain ⟨typed, hi, rfl⟩ := infer_tuple_ok.mp h
    exact inferItems_none_ne_ok items hn hi
  | .list [] position, hn, h => by
    obtain ⟨item, he, -⟩ := infer_nil_ok.mp h
    cases he
  | .list (first :: rest) position, hn, h => by
    obtain ⟨hf, hr⟩ := Bool.and_eq_true_iff.mp hn
    rcases infer_list_ok.mp h with ⟨item, typed, -, -, ha, -, -⟩ | ⟨-, head, tail, hh, -, -⟩
    · cases (anchorTy_of_allNeedHint hr).symm.trans ha
    · exact infer_none_ne_ok first hf hh
  | .block body, hn, h => by
    obtain ⟨typed, hb, rfl⟩ := infer_block_ok.mp h
    exact inferBlock_none_ne_ok body hn hb
  | .cond test thenBlock elseBlock position, hn, h => by
    obtain ⟨hy, hn⟩ := Bool.and_eq_true_iff.mp hn
    obtain ⟨c, yes, no, -, -, ho, -, -⟩ := infer_cond_ok.mp h
    rcases ho with ⟨-, ht, -⟩ | ⟨-, ht, -⟩
    · exact inferBlock_none_ne_ok elseBlock hn ht
    · exact inferBlock_none_ne_ok thenBlock hy ht
  | .loop binder iterable body position, hn, h => by
    obtain ⟨items, item, typed, -, -, hb, -⟩ := infer_loop_ok.mp h
    exact inferBlock_none_ne_ok body hn hb
termination_by structural e => e

theorem inferItems_none_ne_ok : (es : List Expr) → Expr.anyNeedsHint es = true →
    Expr.inferItems es scope [] ≠ .ok ts
  | [], hn, _ => nomatch hn
  | e :: es, hn, h => by
    obtain ⟨t, rest, ht, hr, rfl⟩ := inferItems_cons_ok.mp h
    rcases Bool.or_eq_true_iff.mp hn with hn | hn
    · exact infer_none_ne_ok e hn ht
    · exact inferItems_none_ne_ok es hn hr

theorem inferAll_none_ne_ok : (ss : List Stmt) → Stmt.lastNeedsHint ss = true →
    Stmt.inferAll ss scope none ≠ .ok ts
  | [], hn, _ => nomatch hn
  | [.decl d], hn, _ => nomatch hn
  | [.expr e], hn, h => by
    obtain ⟨_, _, _, hs, -, -⟩ := inferAll_cons_ok.mp h
    obtain ⟨t, ht, -⟩ := infer_exprStmt_ok.mp hs
    exact infer_none_ne_ok e hn ht
  | s :: next :: ss, hn, h => by
    obtain ⟨t, behind, rest, -, hr, -⟩ := inferAll_cons_ok.mp h
    exact inferAll_none_ne_ok (next :: ss) hn hr

theorem inferBlock_none_ne_ok : (b : Block) → b.needsHint = true → b.infer scope none ≠ .ok t
  | ⟨stmts, returnsVoid, position⟩, hn, h => by
    obtain ⟨hv, hn⟩ := Bool.and_eq_true_iff.mp hn
    obtain ⟨typed, hs, -⟩ := inferBlock_ok.mp h
    rw [ite_self] at hs
    exact inferAll_none_ne_ok stmts hn hs
end

theorem needsHint_of_infer {e : Expr} (h : e.infer scope none = .ok t) : e.needsHint = false := by
  cases hn : e.needsHint with
  | false => rfl
  | true => exact absurd h (infer_none_ne_ok e hn)

theorem needsHint_of_inferBlock {b : Block} (h : b.infer scope none = .ok t) :
    b.needsHint = false := by
  cases hn : b.needsHint with
  | false => rfl
  | true => exact absurd h (inferBlock_none_ne_ok b hn)

-- ---------------------------------------------------------------------------
-- Dropping a hint
-- ---------------------------------------------------------------------------

mutual
/-- A hint for an expression that needs none changes nothing. -/
theorem infer_drop : (e : Expr) → e.needsHint = false → e.infer scope hint = .ok t →
    e.infer scope none = .ok t
  | .literal value position, _, h => by
    cases h
    rfl
  | .ident name position, _, h => infer_ident_ok.mpr (infer_ident_ok.mp h)
  | .tuple items position, hn, h => by
    obtain ⟨typed, hi, rfl⟩ := infer_tuple_ok.mp h
    exact infer_tuple_ok.mpr ⟨typed, inferItems_drop items hn hi, rfl⟩
  | .list [] position, hn, _ => nomatch hn
  | .list (first :: rest) position, hn, h => by
    rcases infer_list_ok.mp h with ⟨item, typed, -, hf, ha, hc, rfl⟩ | ⟨-, head, tail, hh, hc, rfl⟩
    · exact infer_list_ok.mpr (.inl ⟨item, typed, rfl, hf, ha, hc, rfl⟩)
    · cases hf : first.needsHint with
      | false =>
        refine infer_list_ok.mpr (.inr ⟨?_, head, tail, infer_drop first hf hh, hc, rfl⟩)
        intro _ hf'
        cases hf.symm.trans hf'
      | true =>
        -- The hint is dropped, so another item has to fix the type.
        have hr : Expr.allNeedHint rest = false := by
          simpa only [Expr.needsHint, Expr.allNeedHint, hf, Bool.true_and] using hn
        refine infer_list_ok.mpr (.inl ⟨head.ty, head :: tail, rfl, hf, ?_, ?_, rfl⟩)
        · exact anchorTy_of_checkItems rest hr hc
        · exact checkItems_cons_ok.mpr ⟨head, tail, infer_stable first hh, rfl, hc, rfl⟩
  | .func params returns body position, _, h => infer_func_ok.mpr (infer_func_ok.mp h)
  | .call callee args argsPosition position, _, h => infer_call_ok.mpr (infer_call_ok.mp h)
  | .block body, hn, h => by
    obtain ⟨typed, hb, rfl⟩ := infer_block_ok.mp h
    exact infer_block_ok.mpr ⟨typed, inferBlock_drop body hn hb, rfl⟩
  | .index target index position, _, h => infer_index_ok.mpr (infer_index_ok.mp h)
  | .cond test thenBlock elseBlock position, hn, h => by
    obtain ⟨c, yes, no, hc, hb, ho, hty, rfl⟩ := infer_cond_ok.mp h
    refine infer_cond_ok.mpr ⟨c, yes, no, hc, hb, ?_, hty, rfl⟩
    rcases ho with ⟨⟨rfl, ho⟩, hno, hyes⟩ | ⟨-, hyes, hno⟩
    · exact .inl ⟨⟨rfl, ho⟩, hno, hyes⟩
    · cases hy : thenBlock.needsHint with
      | false =>
        refine .inr ⟨?_, inferBlock_drop thenBlock hy hyes, hno⟩
        rintro ⟨-, hy', -⟩
        cases hy.symm.trans hy'
      | true =>
        have he : elseBlock.needsHint = false := by
          simpa only [Expr.needsHint, hy, Bool.true_and] using hn
        exact .inl ⟨⟨rfl, hy, he⟩, inferBlock_drop elseBlock he hno,
          hty ▸ inferBlock_stable thenBlock hyes⟩
  | .loop binder iterable body position, hn, h => by
    obtain ⟨items, item, typed, hi, hty, hb, rfl⟩ := infer_loop_ok.mp h
    exact infer_loop_ok.mpr ⟨items, item, typed, hi, hty, inferBlock_drop body hn hb, rfl⟩
  | .unary op operand position, _, h => infer_unary_ok.mpr (infer_unary_ok.mp h)
  | .binary op left right position, _, h => infer_binary_ok.mpr (infer_binary_ok.mp h)
termination_by structural e => e

theorem inferItems_drop : (es : List Expr) → Expr.anyNeedsHint es = false →
    Expr.inferItems es scope hints = .ok ts → Expr.inferItems es scope [] = .ok ts
  | [], _, h => by
    cases h
    rfl
  | e :: es, hn, h => by
    obtain ⟨he, hs⟩ := Bool.or_eq_false_iff.mp hn
    obtain ⟨t, rest, ht, hr, rfl⟩ := inferItems_cons_ok.mp h
    exact inferItems_cons_ok.mpr ⟨t, rest, infer_drop e he ht, inferItems_drop es hs hr, rfl⟩

theorem anchorTy_of_checkItems : (es : List Expr) → Expr.allNeedHint es = false →
    Expr.checkItems es scope item = .ok ts → Expr.anchorTy es scope = .ok (some item)
  | [], hn, _ => nomatch hn
  | e :: es, hn, h => by
    obtain ⟨t, rest, ht, rfl, hr, rfl⟩ := checkItems_cons_ok.mp h
    cases he : e.needsHint with
    | false => simp only [Expr.anchorTy, he, infer_drop e he ht]; rfl
    | true =>
      simp only [Expr.allNeedHint, he, Bool.true_and] at hn
      simp only [Expr.anchorTy, he, if_true]
      exact anchorTy_of_checkItems es hn hr

theorem inferAll_drop : (ss : List Stmt) → Stmt.lastNeedsHint ss = false →
    Stmt.inferAll ss scope hint = .ok ts → Stmt.inferAll ss scope none = .ok ts
  | [], _, h => by
    cases h
    rfl
  | [.decl d], _, h => by
    obtain ⟨t, behind, rest, hs, hr, rfl⟩ := inferAll_cons_ok.mp h
    cases hr
    exact inferAll_cons_ok.mpr
      ⟨t, behind, [], infer_declStmt_ok.mpr (infer_declStmt_ok.mp hs), rfl, rfl⟩
  | [.expr e], hn, h => by
    obtain ⟨_, _, rest, hs, hr, rfl⟩ := inferAll_cons_ok.mp h
    obtain ⟨t, ht, he⟩ := infer_exprStmt_ok.mp hs
    cases he
    cases hr
    exact inferAll_cons_ok.mpr
      ⟨.expr t, scope, [], infer_exprStmt_ok.mpr ⟨t, infer_drop e hn ht, rfl⟩, rfl, rfl⟩
  | s :: next :: ss, hn, h => by
    obtain ⟨t, behind, rest, hs, hr, rfl⟩ := inferAll_cons_ok.mp h
    exact inferAll_cons_ok.mpr ⟨t, behind, rest, hs, inferAll_drop (next :: ss) hn hr, rfl⟩

theorem inferBlock_drop : (b : Block) → b.needsHint = false → b.infer scope hint = .ok t →
    b.infer scope none = .ok t
  | ⟨stmts, returnsVoid, position⟩, hn, h => by
    obtain ⟨typed, hs, rfl⟩ := inferBlock_ok.mp h
    refine inferBlock_ok.mpr ⟨typed, ?_, rfl⟩
    cases returnsVoid with
    | true => exact hs
    | false => exact inferAll_drop stmts hn hs
end

theorem inferDecl_undeclared
    (h : (Decl.mk name (some written) value position).infer scope = .ok (typed, behind)) :
    (Decl.mk name none value position).infer scope = .ok r ↔
      value.needsHint = false ∧ r = ({ typed with declared := none }, behind) := by
  obtain ⟨inner, t, ty, hs, hi, hty, -, hv, hr⟩ := infer_decl_ok.mp h
  cases hr
  constructor
  · intro h'
    obtain ⟨inner', t', ty', hs', hi', hty', -, -, hr'⟩ := infer_decl_ok.mp h'
    have hn : value.needsHint = false := needsHint_of_infer hi'
    cases hs.symm.trans hs'
    cases (infer_drop value hn hi).symm.trans hi'
    cases hty.symm.trans hty'
    exact ⟨hn, hr'⟩
  · rintro ⟨hn, rfl⟩
    exact infer_decl_ok.mpr ⟨inner, t, ty, hs, infer_drop value hn hi, hty, nofun, hv, rfl⟩

-- ---------------------------------------------------------------------------
-- Exactness
-- ---------------------------------------------------------------------------

/-- The expressions that need a hint are those that cannot be typed without one.
Any other has the same typed form without a hint and under every hint that fits,
so that hints never change a typed form, and a declaration can do without its
written type exactly if its value can do without a hint. -/
theorem needsHint_exact (scope : Scope) :
    (∀ e : Expr, e.needsHint = true → ∃ d, e.infer scope none = .error d) ∧
    (∀ (e : Expr) (hint : Ty) (t : Typed.Expr), e.needsHint = false →
      e.infer scope (some hint) = .ok t → e.infer scope none = .ok t) ∧
    (∀ b : Block, b.needsHint = true → ∃ d, b.infer scope none = .error d) ∧
    (∀ (b : Block) (hint : Ty) (t : Typed.Block), b.needsHint = false →
      b.infer scope (some hint) = .ok t → b.infer scope none = .ok t) ∧
    (∀ (e : Expr) (hint : Ty) (t t' : Typed.Expr), e.infer scope none = .ok t →
      e.infer scope (some hint) = .ok t' → t' = t) ∧
    (∀ (b : Block) (hint : Ty) (t t' : Typed.Block), b.infer scope none = .ok t →
      b.infer scope (some hint) = .ok t' → t' = t) ∧
    (∀ name written value position typed behind,
      (Decl.mk name (some written) value position).infer scope = .ok (typed, behind) →
      ∀ r, (Decl.mk name none value position).infer scope = .ok r ↔
        value.needsHint = false ∧ r = ({ typed with declared := none }, behind)) := by
  refine ⟨fun e hn => exists_error_iff.mpr fun _ => infer_none_ne_ok e hn,
    fun e _ _ hn h => infer_drop e hn h,
    fun b hn => exists_error_iff.mpr fun _ => inferBlock_none_ne_ok b hn,
    fun b _ _ hn h => inferBlock_drop b hn h, ?_, ?_, fun _ _ _ _ _ _ h _ => inferDecl_undeclared h⟩
  · intro e hint t t' h h'
    exact Except.ok.inj ((infer_drop e (needsHint_of_infer h) h').symm.trans h)
  · intro b hint t t' h h'
    exact Except.ok.inj ((inferBlock_drop b (needsHint_of_inferBlock h) h').symm.trans h)

def nestedList : Expr :=
  .list [.list [] .start, .list [.literal (.int 1) .start] .start] .start

theorem nestedList_exact : nestedList.needsHint = false ∧
    ∃ t, nestedList.infer .empty (some (.list (.list .int))) = .ok t ∧
      nestedList.infer .empty none = .ok t ∧ ∃ r,
      (Decl.mk "xs" none nestedList .start).infer .empty = .ok r := by
  have hn : nestedList.needsHint = false := by decide
  obtain ⟨t, h⟩ := isOk_iff.mp (by decide +kernel :
    (nestedList.infer .empty (some (.list (.list .int)))).isOk = true)
  obtain ⟨⟨typed, behind⟩, hd⟩ := isOk_iff.mp (by decide +kernel :
    ((Decl.mk "xs" (some ⟨.list (.list .int), .start⟩) nestedList .start).infer .empty).isOk = true)
  obtain ⟨-, hdrop, -, -, -, -, hdecl⟩ := needsHint_exact .empty
  exact ⟨hn, t, h, hdrop nestedList _ t hn h, _, (hdecl _ _ _ _ _ _ hd _).mpr ⟨hn, rfl⟩⟩

end LetLang
