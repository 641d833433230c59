import LetLang.Proofs.Syntax.Nodes
import LetLang.Proofs.Typing.Soundness

/-!
# The checker is complete

Without empty lists hints are inert: the checker gives the same typed tree, or
the same diagnostic at the same place, whatever hint it is given. And what the
rules allow it finds: where a typed tree obeys the rules and is an expression
with types added, the checker gives just that tree.
-/

namespace LetLang

/-- Whether a node is no empty list. -/
def Node.Filled : Node → Prop
  | .expr (.list items _) => items ≠ []
  | _ => True

/-- Whether the rules give an expression a type in a scope. -/
def Expr.HasType (scope : Scope) (e : Expr) (ty : Ty) : Prop :=
  ∃ t : Typed.Expr, t.ErasesTo e ∧ t.WellTyped scope ∧ t.ty = ty

-- ---------------------------------------------------------------------------
-- Hints
-- ---------------------------------------------------------------------------

mutual
theorem Expr.needsHint_filled : (e : Expr) → e.Every Node.Filled → e.needsHint = false
  | .literal .., _ | .ident .., _ | .func .., _ | .call .., _ | .index .., _ | .unary .., _
  | .binary .., _ => rfl
  | .tuple items _, he => Expr.anyNeedsHint_filled items he.2
  | .list [] _, he => absurd rfl he.1
  | .list (first :: rest) _, he => by
    simp only [Expr.needsHint, Expr.allNeedHint, first.needsHint_filled he.2.1, Bool.false_and]
  | .block body, he => body.needsHint_filled he.2
  | .cond _ thenBlock _ _, he => by
    simp only [Expr.needsHint, thenBlock.needsHint_filled he.2.2.1, Bool.false_and]
  | .loop _ _ body _, he => body.needsHint_filled he.2.2
theorem Expr.anyNeedsHint_filled : (es : List Expr) → Expr.EveryItem Node.Filled es →
    Expr.anyNeedsHint es = false
  | [], _ => rfl
  | e :: es, he => by
    simp only [Expr.anyNeedsHint, e.needsHint_filled he.1, Expr.anyNeedsHint_filled es he.2,
      Bool.or_false]
theorem Block.needsHint_filled : (b : Block) → b.Every Node.Filled → b.needsHint = false
  | ⟨stmts, returnsVoid, _⟩, hb => by
    simp only [Block.needsHint, Stmt.lastNeedsHint_filled stmts hb.2, Bool.and_false]
theorem Stmt.lastNeedsHint_filled : (ss : List Stmt) → Stmt.EveryStmt Node.Filled ss →
    Stmt.lastNeedsHint ss = false
  | [], _ => rfl
  | [.decl _], _ => rfl
  | [.expr e], hs => e.needsHint_filled hs.1
  | .decl _ :: next :: ss, hs => Stmt.lastNeedsHint_filled (next :: ss) hs.2
  | .expr _ :: next :: ss, hs => Stmt.lastNeedsHint_filled (next :: ss) hs.2
end

mutual
theorem infer_inert : (e : Expr) → e.Every Node.Filled →
    ∀ hint, e.infer scope hint = e.infer scope none
  | .literal .., _, _ | .ident .., _, _ | .func .., _, _ | .call .., _, _ | .index .., _, _
  | .unary .., _, _ | .binary .., _, _ => by simp only [Expr.infer]
  | .tuple items _, he, hint => by
    simp only [Expr.infer]
    rw [inferItems_inert items he.2 (tupleHints hint items.length)]
    rfl
  | .list [] _, he, _ => absurd rfl he.1
  | .list (first :: rest) _, he, hint => by
    -- The first item fixes the type, since it needs no hint.
    simp only [Expr.infer, first.needsHint_filled he.2.1, Bool.and_false, Bool.false_eq_true,
      if_false]
    rw [infer_inert first he.2.1 (listHint hint)]
    rfl
  | .block body, he, hint => by
    simp only [Expr.infer]
    rw [inferBlock_inert body he.2 scope hint]
  | .cond _ thenBlock _ _, he, hint => by
    simp only [Expr.infer, thenBlock.needsHint_filled he.2.2.1, Bool.and_false, Bool.false_and,
      Bool.false_eq_true, if_false]
    rw [inferBlock_inert thenBlock he.2.2.1 scope hint]
  | .loop _ _ body _, he, hint => by
    simp only [Expr.infer, fun scope => inferBlock_inert body he.2.2 scope (listHint hint)]
    rfl
termination_by structural e => e
theorem inferItems_inert : (es : List Expr) → Expr.EveryItem Node.Filled es →
    ∀ hints, Expr.inferItems es scope hints = Expr.inferItems es scope []
  | [], _, _ => rfl
  | e :: es, he, hints => by
    simp only [Expr.inferItems]
    rw [infer_inert e he.1 hints.head?, inferItems_inert es he.2 hints.tail]
    rfl
theorem inferAll_inert : (ss : List Stmt) → Stmt.EveryStmt Node.Filled ss →
    ∀ scope hint, Stmt.inferAll ss scope hint = Stmt.inferAll ss scope none
  | [], _, _, _ => rfl
  | .decl d :: ss, hs, scope, hint => by
    simp only [Stmt.inferAll, Stmt.infer, fun scope => inferAll_inert ss hs.2 scope hint]
  | .expr e :: ss, hs, scope, hint => by
    simp only [Stmt.inferAll, Stmt.infer, ite_self]
    rw [infer_inert e hs.1 (if ss.isEmpty then hint else none)]
    simp only [fun scope => inferAll_inert ss hs.2 scope hint]
theorem inferBlock_inert : (b : Block) → b.Every Node.Filled →
    ∀ scope hint, b.infer scope hint = b.infer scope none
  | ⟨stmts, returnsVoid, _⟩, hb, scope, hint => by
    simp only [Block.infer, ite_self]
    rw [inferAll_inert stmts hb.2 scope.push (if returnsVoid then none else hint)]
end

-- ---------------------------------------------------------------------------
-- Operands
-- ---------------------------------------------------------------------------

theorem UnaryOp.Takes.accepts {op : UnaryOp} (h : op.Takes operand ty) :
    op.accepts operand = true ∧ ty = operand := by
  cases h with
  | sign ho ht =>
    refine ⟨?_, rfl⟩
    simp only [List.mem_cons, List.not_mem_nil, or_false] at ho
    rcases ho with rfl | rfl
    all_goals exact Ty.isNumeric_iff.mpr ht
  | not => exact ⟨rfl, rfl⟩

theorem BinaryOp.Takes.accepts {op : BinaryOp} (h : op.Takes operand ty) :
    op.opClass.accepts operand = true ∧ ty = op.opClass.result operand := by
  cases h with
  | equality ho =>
    simp only [List.mem_cons, List.not_mem_nil, or_false] at ho
    rcases ho with rfl | rfl
    all_goals exact ⟨rfl, rfl⟩
  | comparison ho ht =>
    simp only [List.mem_cons, List.not_mem_nil, or_false] at ho
    rcases ho with rfl | rfl | rfl | rfl
    all_goals exact ⟨Ty.isComparable_iff.mpr ht, rfl⟩
  | arithmetic ho ht =>
    simp only [List.mem_cons, List.not_mem_nil, or_false] at ho
    rcases ho with rfl | rfl | rfl | rfl | rfl | rfl | rfl | rfl
    all_goals exact ⟨Ty.isNumeric_iff.mpr ht, rfl⟩
  | logical ho =>
    simp only [List.mem_cons, List.not_mem_nil, or_false] at ho
    rcases ho with rfl | rfl
    all_goals exact ⟨rfl, rfl⟩

-- ---------------------------------------------------------------------------
-- Declarations and blocks
-- ---------------------------------------------------------------------------

theorem literal_ty_of_wellTyped {value : Literal}
    (h : Typed.Expr.WellTyped s ⟨.literal value, ty, position⟩) : ty = value.ty := by
  cases h with
  | _ => rfl

theorem Typed.Block.WellTyped.stmts {b : Typed.Block} (h : b.WellTyped s) :
    Typed.Stmt.AllWellTyped s.push b.stmts ∧ b.ty = Typed.valueTy b.returnsVoid b.stmts := by
  cases h with
  | value h => exact ⟨h, by simp [Typed.valueTy]⟩
  | @void _ stmts returnsVoid _ h hv =>
    refine ⟨h, ?_⟩
    unfold Typed.valueTy
    split
    · next last hr hl =>
      rcases hv with rfl | hv
      · cases hr
      · exact absurd hl (hv last)
    · rfl

theorem valueScope_typed (he : typed.ErasesTo value)
    (hw : typed.WellTyped ((Typed.Decl.mk name written ty typed position).valueScope scope)) :
    (Decl.mk name declared value place).valueScope scope =
      .ok ((Typed.Decl.mk name written ty typed position).valueScope scope) := by
  cases he with
  | func hb =>
    cases hw
    rfl
  | _ => rfl

theorem unpacks_of_readsPack (he : typed.ErasesTo value)
    (h : (Typed.Decl.mk name written ty typed position).ReadsPack) :
    (Decl.mk name declared value place).unpacks = true := by
  obtain ⟨pack, index, hk, hp⟩ := h
  cases he with
  | index ht hi =>
    cases hk
    cases ht with
    | ident =>
      cases hp
      simp [Decl.unpacks]
    | _ => cases hp
  | _ => cases hk

-- ---------------------------------------------------------------------------
-- Completeness
-- ---------------------------------------------------------------------------

mutual
theorem infer_complete : (e : Expr) → e.Every Node.Filled → t.ErasesTo e → t.WellTyped scope →
    e.infer scope hint = .ok t
  | .literal value position, _, .literal, hw => by
    rw [literal_ty_of_wellTyped hw]
    rfl
  | .ident name position, _, .ident, .ident hl => infer_ident_ok.mpr ⟨_, hl, rfl⟩
  | .tuple items position, hf, .tuple he, .tuple hw =>
    infer_tuple_ok.mpr ⟨_, inferItems_complete items hf.2 he hw, rfl⟩
  | .list [] position, hf, _, _ => absurd rfl hf.1
  | .list (first :: rest) position, hf, .list (.cons he hes), .list (.cons hw hws) hty => by
    obtain ⟨hh, ht⟩ := List.forall_mem_cons.mp hty
    -- No item needs a hint, so the first one gives the type.
    have hn := first.needsHint_filled hf.2.1
    refine infer_list_ok.mpr (.inr ⟨?_, _, _, infer_complete first hf.2.1 he hw,
      checkItems_complete rest hf.2.2 hes hws ?_, by rw [hh]⟩)
    · intro _ hn'
      cases hn.symm.trans hn'
    · rw [hh]
      exact ht
  | .func _ _ body position, hf, .func he, .func hw hr =>
    infer_func_ok.mpr ⟨_, _, _, signature_ok.mpr ⟨_, _, rfl, rfl, rfl⟩,
      inferBlock_complete body hf.2 he hw, hr, rfl⟩
  | .call callee [arg] argsPosition position, hf, .call hef hea, .call hwf hwa hty hp =>
    infer_call_ok.mpr ⟨arg, _, _, _, _, rfl, infer_complete callee hf.2.1 hef hwf, hty,
      infer_complete arg hf.2.2.1 hea hwa, hp, rfl⟩
  | .block body, hf, .block he, .block hw =>
    infer_block_ok.mpr ⟨_, inferBlock_complete body hf.2 he hw, rfl⟩
  | .index target index position, hf, .index het hei, hw => by
    cases hw with
    | index_tuple hwt hty hi =>
      cases hei
      exact infer_index_ok.mpr ⟨_, infer_complete target hf.2.1 het hwt,
        .inl ⟨_, _, _, _, hty, rfl, Ty.item?_eq_some.mpr ⟨_, rfl, hi⟩, rfl⟩⟩
    | index_list hwt hwi hty hk =>
      exact infer_index_ok.mpr ⟨_, infer_complete target hf.2.1 het hwt,
        .inr ⟨_, _, Ty.element?_eq_some.mpr (.inl hty), infer_complete index hf.2.2 hei hwi, hk,
          rfl⟩⟩
    | index_str hwt hwi hty hk =>
      exact infer_index_ok.mpr ⟨_, infer_complete target hf.2.1 het hwt,
        .inr ⟨_, _, Ty.element?_eq_some.mpr (.inr ⟨hty, rfl⟩),
          infer_complete index hf.2.2 hei hwi, hk, rfl⟩⟩
  | .cond test thenBlock elseBlock position, hf, .cond hec hey hen, .cond hwc hb hwy hwn h1 h2 => by
    subst h1
    have hn := thenBlock.needsHint_filled hf.2.2.1
    refine infer_cond_ok.mpr ⟨_, _, _, infer_complete test hf.2.1 hec hwc, hb, .inr ⟨?_,
      inferBlock_complete thenBlock hf.2.2.1 hey hwy,
      inferBlock_complete elseBlock hf.2.2.2 hen hwn⟩, h2, rfl⟩
    rintro ⟨-, hn', -⟩
    cases hn.symm.trans hn'
  | .loop binder iterable body position, hf, .loop hei heb, .loop hwi hty hwb =>
    infer_loop_ok.mpr ⟨_, _, _, infer_complete iterable hf.2.1 hei hwi, hty,
      inferBlock_complete body hf.2.2 heb hwb, rfl⟩
  | .unary op operand position, hf, .unary he, .unary hw ho => by
    obtain ⟨ha, rfl⟩ := ho.accepts
    exact infer_unary_ok.mpr ⟨_, infer_complete operand hf.2 he hw, ha, rfl⟩
  | .binary op left right position, hf, .binary hel her, .binary hwl hwr hty ho => by
    obtain ⟨ha, rfl⟩ := ho.accepts
    have hn := left.needsHint_filled hf.2.1
    refine infer_binary_ok.mpr ⟨_, _, .inr ⟨?_, infer_complete left hf.2.1 hel hwl,
      infer_complete right hf.2.2 her hwr⟩, ha, hty, rfl⟩
    rintro ⟨hn', -⟩
    cases hn.symm.trans hn'
termination_by structural e => e

theorem inferItems_complete : (es : List Expr) → Expr.EveryItem Node.Filled es →
    Typed.Expr.AllEraseTo ts es → Typed.Expr.AllWellTyped scope ts →
    Expr.inferItems es scope hints = .ok ts
  | [], _, .nil, _ => rfl
  | e :: es, hf, .cons he hes, .cons hw hws =>
    inferItems_cons_ok.mpr ⟨_, _, infer_complete e hf.1 he hw,
      inferItems_complete es hf.2 hes hws, rfl⟩

theorem checkItems_complete : (es : List Expr) → Expr.EveryItem Node.Filled es →
    Typed.Expr.AllEraseTo ts es → Typed.Expr.AllWellTyped scope ts → (∀ t ∈ ts, t.ty = item) →
    Expr.checkItems es scope item = .ok ts
  | [], _, .nil, _, _ => rfl
  | e :: es, hf, .cons he hes, .cons hw hws, hty => by
    obtain ⟨hh, ht⟩ := List.forall_mem_cons.mp hty
    exact checkItems_cons_ok.mpr ⟨_, _, infer_complete e hf.1 he hw, hh,
      checkItems_complete es hf.2 hes hws ht, rfl⟩

theorem inferDecl_complete : (d : Decl) → d.Every Node.Filled → t.ErasesTo d →
    t.WellTyped scope →
    ∃ behind, d.infer scope = .ok (t, behind) ∧ (scope.bind t.name t.ty).Alike behind
  | ⟨name, declared, value, position⟩, hf, .mk he, .mk hw hty hd hv => by
    refine ⟨_, infer_decl_ok.mpr ⟨_, _, _, valueScope_typed he hw, infer_complete value hf.2 he hw,
      hty, ?_, Decl.requireValue_ok.mpr (hv.imp_right fun hr => unpacks_of_readsPack he hr), rfl⟩,
      ?_⟩
    · rintro written hm
      exact (hd written.ty (Option.mem_map_of_mem _ hm)).symm
    · exact fun other hp => (bind_valueScope_alike hty other hp).symm

theorem inferAll_complete : (ss : List Stmt) → Stmt.EveryStmt Node.Filled ss →
    Typed.Stmt.AllEraseTo ts ss → Typed.Stmt.AllWellTyped scope ts →
    Stmt.inferAll ss scope hint = .ok ts
  | [], _, .nil, _ => rfl
  | .decl d :: ss, hf, .decl he hes, .decl hw hws => by
    obtain ⟨behind, hd, ha⟩ := inferDecl_complete d hf.1 he hw
    exact inferAll_cons_ok.mpr ⟨_, _, _, infer_declStmt_ok.mpr ⟨_, _, hd, rfl⟩,
      inferAll_complete ss hf.2 hes (hws.alike ha), rfl⟩
  | .expr e :: ss, hf, .expr he hes, .expr hw hws =>
    inferAll_cons_ok.mpr ⟨_, _, _, infer_exprStmt_ok.mpr ⟨_, infer_complete e hf.1 he hw, rfl⟩,
      inferAll_complete ss hf.2 hes hws, rfl⟩

theorem inferBlock_complete : (b : Block) → b.Every Node.Filled → t.ErasesTo b →
    t.WellTyped scope → b.infer scope hint = .ok t
  | ⟨stmts, returnsVoid, position⟩, hf, .mk he, hw => by
    obtain ⟨hs, hty⟩ := hw.stmts
    refine inferBlock_ok.mpr ⟨_, inferAll_complete stmts hf.2 he hs, ?_⟩
    rw [← hty]
end

/-- An expression without empty lists, the bodies of its functions included, has
one answer: no hint changes the typed tree or the diagnostic. It is accepted
exactly if the rules give it a type, with that type, and the typed tree is the
one that obeys the rules. -/
theorem infer_filled (scope : Scope) (e : Expr) (hf : e.Every Node.Filled) :
    (∀ hint hint', e.infer scope hint = e.infer scope hint') ∧
    (∀ hint t, e.infer scope hint = .ok t ↔ t.ErasesTo e ∧ t.WellTyped scope) ∧
    (∀ hint ty, e.HasType scope ty ↔ ∃ t, e.infer scope hint = .ok t ∧ t.ty = ty) := by
  have hiff (hint : Option Ty) (t : Typed.Expr) :
      e.infer scope hint = .ok t ↔ t.ErasesTo e ∧ t.WellTyped scope :=
    ⟨fun h => infer_typed e h, fun ⟨he, hw⟩ => infer_complete e hf he hw⟩
  refine ⟨fun hint hint' => (infer_inert e hf hint).trans (infer_inert e hf hint').symm, hiff, ?_⟩
  intro hint ty
  constructor
  · rintro ⟨t, he, hw, hty⟩
    exact ⟨t, (hiff hint t).mpr ⟨he, hw⟩, hty⟩
  · rintro ⟨t, h, hty⟩
    obtain ⟨he, hw⟩ := (hiff hint t).mp h
    exact ⟨t, he, hw, hty⟩

/-- A loop over a conditional, in the body of a function:
`fn (xs [int]) [(int, [int])] { for x in xs { if x == 1 { (x, [x]) } else { (2, [3, x]) } } }`. -/
def chosen : Expr :=
  let at0 := Position.start
  let int (value : Int) := Expr.literal (.int value) at0
  let x := Expr.ident "x" at0
  let choice := Expr.cond (.binary .equals x (int 1) at0)
    ⟨[.expr (.tuple [x, .list [x] at0] at0)], false, at0⟩
    ⟨[.expr (.tuple [int 2, .list [int 3, x] at0] at0)], false, at0⟩ at0
  let body := Expr.loop "x" (.ident "xs" at0) ⟨[.expr choice], false, at0⟩ at0
  .func [⟨"xs", ⟨.list .int, at0⟩, at0⟩] [⟨.list (.tuple [.int, .list .int]), at0⟩]
    ⟨[.expr body], false, at0⟩ at0

theorem chosen_filled : chosen.Every Node.Filled ∧
    chosen.infer .empty (some .str) = chosen.infer .empty none ∧
    chosen.HasType .empty (.func (.list .int) (.list (.tuple [.int, .list .int]))) := by
  have hf : chosen.Every Node.Filled := by
    simp [chosen, Expr.Every, Expr.EveryItem, Block.Every, Stmt.EveryStmt, Node.Filled]
  have ht : (chosen.infer .empty none).toOption.map (·.ty) =
      some (.func (.list .int) (.list (.tuple [.int, .list .int]))) := by decide +kernel
  obtain ⟨hinert, -, htype⟩ := infer_filled .empty chosen hf
  refine ⟨hf, hinert _ _, (htype none _).mpr ?_⟩
  cases h : chosen.infer .empty none with
  | error d =>
    rw [h] at ht
    cases ht
  | ok t =>
    rw [h] at ht
    exact ⟨t, rfl, Option.some.inj ht⟩

end LetLang
