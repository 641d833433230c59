import LetLang.Proofs.Moving.Trees
import LetLang.Proofs.Typing.Resolution

/-!
# The checker at other places

The checker copies places and never compares them, and of a scope it asks only
what names resolve to. So a moved program in a scope that resolves names alike
has the moved typed tree, or is rejected with the moved diagnostic.
-/

namespace LetLang

variable {f : Position → Position}

-- ---------------------------------------------------------------------------
-- Functions and declarations
-- ---------------------------------------------------------------------------

theorem signature_moved (params : List Param) (returns : List Ascription) (position : Position) :
    Follows f (fun r r' => r' = (r.1.moved f, r.2)) (signature params returns position)
      (signature (params.map (·.moved f)) (returns.map (·.moved f)) (f position)) := by
  match params, returns with
  | [_], [_] => exact .ok rfl
  | [], [] | [], _ :: _ | _ :: _ :: _, [] | _ :: _ :: _, _ :: _ | [_], [] | [_], _ :: _ :: _ =>
    simp only [signature, List.map_cons, List.map_nil, List.length_cons, List.length_map,
      List.length_nil]
    exact .error

theorem valueScope_moved (d : Decl) (h : s.Alike s') :
    Follows f (fun inner inner' => inner.Alike inner') (d.valueScope s)
      ((d.moved f).valueScope s') := by
  obtain ⟨name, declared, value, position⟩ := d
  cases value with
  | func params returns body place =>
    simp only [Decl.moved, Expr.moved, Decl.valueScope]
    refine (signature_moved params returns place).bind ?_
    rintro ⟨param, ret⟩ _ rfl
    exact .ok (h.bind _ _)
  | _ => exact .ok h

theorem unpacks_moved (d : Decl) : (d.moved f).unpacks = d.unpacks := by
  obtain ⟨name, declared, value, position⟩ := d
  cases value with
  | index target index place => cases target <;> rfl
  | _ => rfl

-- ---------------------------------------------------------------------------
-- The checker
-- ---------------------------------------------------------------------------

theorem headed_moved {x : Except Diagnostic Typed.Expr} {y : Except Diagnostic Typed.Expr}
    {g h : Ty → Except Diagnostic (List Typed.Expr)} (hx : FollowsExpr f x y)
    (hg : ∀ ty, FollowsExprs f (g ty) (h ty)) :
    FollowsExpr f
      (do
        let first ← x
        let rest ← g first.ty
        return ⟨.list (first :: rest), .list first.ty, position⟩)
      (do
        let first ← y
        let rest ← h first.ty
        return ⟨.list (first :: rest), .list first.ty, f position⟩) := by
  refine hx.bind ?_
  rintro first _ rfl
  rw [Typed.Expr.ty_moved]
  refine (hg first.ty).bind ?_
  rintro rest _ rfl
  exact .ok rfl

theorem element_moved {x y : Except Diagnostic Typed.Expr} (target : Typed.Expr)
    (hx : FollowsExpr f x y) :
    FollowsExpr f
      (do
        let index ← x
        ensure (index.ty = .int) (.wrongIndex index.ty.text) index.position
        return ⟨.index target index, item, position⟩)
      (do
        let index ← y
        ensure (index.ty = .int) (.wrongIndex index.ty.text) index.position
        return ⟨.index (target.moved f) index, item, f position⟩) := by
  refine hx.bind ?_
  rintro index _ rfl
  rw [Typed.Expr.ty_moved, Typed.Expr.position_moved]
  exact .ensure fun _ => .ok rfl

/-- Whether the checker types an expression in one scope as the moved expression in
another, with the same hint. -/
abbrev Expr.TypedAlike (f : Position → Position) (s s' : Scope) (e : Expr) : Prop :=
  ∀ {hint}, FollowsExpr f (e.infer s hint) ((e.moved f).infer s' hint)

abbrev Block.TypedAlike (f : Position → Position) (s s' : Scope) (b : Block) : Prop :=
  ∀ {hint}, FollowsBlock f (b.infer s hint) ((b.moved f).infer s' hint)

theorem ident_moved (h : s.Alike s') : (Expr.ident name position).TypedAlike f s s' := by
  intro hint
  simp only [Expr.moved, Expr.infer, h name trivial]
  cases s'.lookup name with
  | none => exact .error
  | some ty => exact .ok rfl

theorem nil_moved : (Expr.list [] position).TypedAlike f s s' := by
  intro hint
  simp only [Expr.moved, Expr.allMoved, Expr.infer]
  cases hint with
  | none => exact .error
  | some ty =>
    cases ty with
    | list item => exact .ok rfl
    | _ => exact .error

theorem checkItems_cons_moved (he : e.TypedAlike f s s')
    (hs : FollowsExprs f (Expr.checkItems es s item)
      (Expr.checkItems (Expr.allMoved f es) s' item)) :
    FollowsExprs f (Expr.checkItems (e :: es) s item)
      (Expr.checkItems (Expr.allMoved f (e :: es)) s' item) := by
  simp only [Expr.allMoved, Expr.checkItems]
  refine he.bind ?_
  rintro t _ rfl
  rw [Typed.Expr.ty_moved, Typed.Expr.position_moved]
  refine .ensure fun _ => ?_
  refine hs.bind ?_
  rintro ts _ rfl
  exact .ok rfl

theorem list_moved (hf : first.TypedAlike f s s')
    (ha : Follows f Eq (Expr.anchorTy rest s) (Expr.anchorTy (Expr.allMoved f rest) s'))
    (hr : ∀ {item}, FollowsExprs f (Expr.checkItems rest s item)
      (Expr.checkItems (Expr.allMoved f rest) s' item)) :
    (Expr.list (first :: rest) position).TypedAlike f s s' := by
  intro hint
  simp only [Expr.moved, Expr.allMoved, Expr.infer, first.needsHint_moved]
  split
  · refine ha.bind ?_
    rintro anchor _ rfl
    cases anchor with
    | some item =>
      refine (checkItems_cons_moved hf hr).bind ?_
      rintro _ ts rfl
      exact .ok rfl
    | none => exact headed_moved hf fun _ => hr
  · exact headed_moved hf fun _ => hr

theorem func_moved (h : s.Alike s') (hb : ∀ {s s'}, s.Alike s' → body.TypedAlike f s s') :
    (Expr.func params returns body position).TypedAlike f s s' := by
  intro hint
  simp only [Expr.moved, Expr.infer]
  refine (signature_moved params returns position).bind ?_
  rintro ⟨param, ret⟩ _ rfl
  refine (hb (h.push.bind param.name param.type.ty)).bind ?_
  rintro t _ rfl
  rw [Typed.Block.ty_moved, Block.valuePosition_moved]
  exact .ensure fun _ => .ok rfl

theorem call_moved (hc : callee.TypedAlike f s s') (ha : arg.TypedAlike f s s') :
    (Expr.call callee [arg] argsPosition position).TypedAlike f s s' := by
  intro hint
  simp only [Expr.moved, Expr.allMoved, Expr.infer]
  refine hc.bind ?_
  rintro t _ rfl
  simp only [Typed.Expr.ty_moved, Typed.Expr.position_moved]
  cases t.ty with
  | func param ret =>
    refine ha.bind ?_
    rintro u _ rfl
    rw [Typed.Expr.ty_moved, Typed.Expr.position_moved]
    exact .ensure fun _ => .ok rfl
  | _ => exact .error

theorem unpackedCall_moved (h : args.length ≠ 1) (hc : callee.TypedAlike f s s') :
    (Expr.call callee args argsPosition position).TypedAlike f s s' := by
  intro hint
  have hl : (Expr.allMoved f args).length = args.length := by
    rw [Expr.allMoved_eq_map, List.length_map]
  rw [Expr.moved, infer_call_of_length_ne_one h, infer_call_of_length_ne_one (by rwa [hl]), hl]
  refine hc.bind ?_
  rintro t _ rfl
  simp only [Typed.Expr.ty_moved, Typed.Expr.position_moved]
  cases t.ty with
  | _ => exact .error

theorem index_moved (ht : target.TypedAlike f s s') (hi : index.TypedAlike f s s') :
    (Expr.index target index position).TypedAlike f s s' := by
  intro hint
  simp only [Expr.moved, Expr.infer]
  refine ht.bind ?_
  rintro t _ rfl
  simp only [Typed.Expr.ty_moved, Typed.Expr.position_moved, Expr.position_moved]
  cases t.ty with
  | tuple items =>
    cases index with
    | literal value place =>
      cases value with
      | int n =>
        simp only [Expr.moved]
        cases Ty.item? items n with
        | none => exact .error
        | some item => exact .ok rfl
      | _ => exact .error
    | _ => exact .error
  | list item =>
    simp only [Ty.element?]
    exact element_moved t hi
  | func param ret => exact .error
  | prim name =>
    cases name with
    | str =>
      simp only [Ty.element?]
      exact element_moved t hi
    | _ => exact .error

theorem cond_moved (ht : test.TypedAlike f s s') (hy : thenBlock.TypedAlike f s s')
    (hn : elseBlock.TypedAlike f s s') :
    (Expr.cond test thenBlock elseBlock position).TypedAlike f s s' := by
  intro hint
  simp only [Expr.moved, Expr.infer, Block.needsHint_moved]
  refine ht.bind ?_
  rintro c _ rfl
  rw [Typed.Expr.ty_moved, Typed.Expr.position_moved]
  refine .ensure fun _ => ?_
  split
  · refine hn.bind ?_
    rintro no _ rfl
    rw [Typed.Block.ty_moved]
    refine hy.bind ?_
    rintro yes _ rfl
    simp only [pure_bind, Typed.Block.ty_moved, Block.valuePosition_moved]
    exact .ensure fun _ => .ok rfl
  · refine hy.bind ?_
    rintro yes _ rfl
    rw [Typed.Block.ty_moved]
    refine hn.bind ?_
    rintro no _ rfl
    simp only [pure_bind, Typed.Block.ty_moved, Block.valuePosition_moved]
    exact .ensure fun _ => .ok rfl

theorem loop_moved (h : s.Alike s') (hi : iterable.TypedAlike f s s')
    (hb : ∀ {s s'}, s.Alike s' → body.TypedAlike f s s') :
    (Expr.loop binder iterable body position).TypedAlike f s s' := by
  intro hint
  simp only [Expr.moved, Expr.infer]
  refine hi.bind ?_
  rintro items _ rfl
  simp only [Typed.Expr.ty_moved, Typed.Expr.position_moved]
  cases items.ty with
  | list item =>
    refine (hb (h.push.bind binder item)).bind ?_
    rintro t _ rfl
    rw [Typed.Block.ty_moved]
    exact .ok rfl
  | _ => exact .error

theorem unary_moved (ho : operand.TypedAlike f s s') :
    (Expr.unary op operand position).TypedAlike f s s' := by
  intro hint
  simp only [Expr.moved, Expr.infer]
  refine ho.bind ?_
  rintro t _ rfl
  rw [Typed.Expr.ty_moved, Typed.Expr.position_moved]
  exact .ensure fun _ => .ok rfl

theorem binary_moved (hl : left.TypedAlike f s s') (hr : right.TypedAlike f s s') :
    (Expr.binary op left right position).TypedAlike f s s' := by
  intro hint
  simp only [Expr.moved, Expr.infer, Expr.needsHint_moved, BinaryOp.requireLeft,
    BinaryOp.requireRight]
  split
  · refine hr.bind ?_
    rintro r _ rfl
    rw [Typed.Expr.ty_moved]
    refine hl.bind ?_
    rintro l _ rfl
    simp only [pure_bind, Typed.Expr.ty_moved, Typed.Expr.position_moved]
    exact .ensure fun _ => .ensure fun _ => .ok rfl
  · refine hl.bind ?_
    rintro l _ rfl
    simp only [pure_bind, Typed.Expr.ty_moved, Typed.Expr.position_moved]
    refine .ensure fun _ => ?_
    refine hr.bind ?_
    rintro r _ rfl
    simp only [Typed.Expr.ty_moved, Typed.Expr.position_moved]
    exact .ensure fun _ => .ok rfl

mutual
/-- The checker types a moved expression as the expression itself, in scopes
that resolve names alike. -/
theorem infer_moved : (e : Expr) → s.Alike s' →
    FollowsExpr f (e.infer s hint) ((e.moved f).infer s' hint)
  | .literal value position, _ => .ok rfl
  | .ident name position, ha => ident_moved ha
  | .tuple items position, ha => by
    simp only [Expr.moved, Expr.infer, Expr.allMoved_eq_map, List.length_map]
    rw [← Expr.allMoved_eq_map]
    refine (inferItems_moved items ha).bind ?_
    rintro ts _ rfl
    rw [Typed.Expr.tys_moved]
    exact .ok rfl
  | .list [] position, _ => nil_moved
  | .list (first :: rest) position, ha =>
    list_moved (infer_moved first ha) (anchorTy_moved rest ha) (checkItems_moved rest ha)
  | .func params returns body position, ha => func_moved ha fun h => inferBlock_moved body h
  | .call callee [arg] argsPosition position, ha =>
    call_moved (infer_moved callee ha) (infer_moved arg ha)
  | .call callee [] argsPosition position, ha
  | .call callee (_ :: _ :: _) argsPosition position, ha =>
    unpackedCall_moved (by simp) (infer_moved callee ha)
  | .block body, ha => by
    simp only [Expr.moved, Expr.infer]
    refine (inferBlock_moved body ha).bind ?_
    rintro t _ rfl
    rw [Typed.Block.ty_moved, Block.position_moved]
    exact .ok rfl
  | .index target index position, ha => index_moved (infer_moved target ha) (infer_moved index ha)
  | .cond test thenBlock elseBlock position, ha =>
    cond_moved (infer_moved test ha) (inferBlock_moved thenBlock ha) (inferBlock_moved elseBlock ha)
  | .loop binder iterable body position, ha =>
    loop_moved ha (infer_moved iterable ha) fun h => inferBlock_moved body h
  | .unary op operand position, ha => unary_moved (infer_moved operand ha)
  | .binary op left right position, ha => binary_moved (infer_moved left ha) (infer_moved right ha)
termination_by structural e => e

theorem inferItems_moved : (es : List Expr) → s.Alike s' →
    FollowsExprs f (Expr.inferItems es s hints) (Expr.inferItems (Expr.allMoved f es) s' hints)
  | [], _ => .ok rfl
  | e :: es, ha => by
    simp only [Expr.allMoved, Expr.inferItems]
    refine (infer_moved e ha).bind ?_
    rintro t _ rfl
    refine (inferItems_moved es ha).bind ?_
    rintro ts _ rfl
    exact .ok rfl

theorem checkItems_moved : (es : List Expr) → s.Alike s' →
    FollowsExprs f (Expr.checkItems es s item) (Expr.checkItems (Expr.allMoved f es) s' item)
  | [], _ => .ok rfl
  | e :: es, ha => checkItems_cons_moved (infer_moved e ha) (checkItems_moved es ha)

theorem anchorTy_moved : (es : List Expr) → s.Alike s' →
    Follows f Eq (Expr.anchorTy es s) (Expr.anchorTy (Expr.allMoved f es) s')
  | [], _ => .ok rfl
  | e :: es, ha => by
    simp only [Expr.allMoved, Expr.anchorTy, e.needsHint_moved]
    split
    · exact anchorTy_moved es ha
    · refine (infer_moved e ha).bind ?_
      rintro t _ rfl
      exact .ok (by rw [Typed.Expr.ty_moved])

theorem inferDecl_moved : (d : Decl) → s.Alike s' →
    Follows f (fun r r' => r'.1 = r.1.moved f ∧ r.2.Alike r'.2) (d.infer s) ((d.moved f).infer s')
  | ⟨name, declared, value, position⟩, ha => by
    have hu := unpacks_moved (f := f) ⟨name, declared, value, position⟩
    simp only [Decl.moved] at hu
    simp only [Decl.moved, Decl.infer, Decl.requireValue, hu]
    refine (valueScope_moved ⟨name, declared, value, position⟩ ha).bind ?_
    intro inner inner' hin
    cases declared with
    | some written =>
      refine .ensure fun _ => ?_
      refine (infer_moved value hin).bind ?_
      rintro t _ rfl
      simp only [requireType, Typed.Expr.ty_moved, Expr.position_moved]
      exact .ensure fun _ => .ok ⟨rfl, hin.bind name written.ty⟩
    | none =>
      refine (infer_moved value hin).bind ?_
      rintro t _ rfl
      simp only [Typed.Expr.ty_moved]
      exact .ensure fun _ => .ok ⟨rfl, hin.bind name t.ty⟩

theorem inferAll_moved : (ss : List Stmt) → s.Alike s' →
    FollowsStmts f (Stmt.inferAll ss s hint) (Stmt.inferAll (Stmt.allMoved f ss) s' hint)
  | [], _ => .ok rfl
  | .decl d :: ss, ha => by
    simp only [Stmt.allMoved, Stmt.moved, Stmt.inferAll, Stmt.infer, bind_assoc, pure_bind]
    refine (inferDecl_moved d ha).bind ?_
    rintro ⟨t, b⟩ ⟨_, b'⟩ ⟨rfl, hb⟩
    refine (inferAll_moved ss hb).bind ?_
    rintro ts _ rfl
    exact .ok rfl
  | .expr e :: ss, ha => by
    simp only [Stmt.allMoved, Stmt.moved, Stmt.inferAll, Stmt.infer, bind_assoc, pure_bind,
      Stmt.allMoved_eq_map, List.isEmpty_map]
    refine (infer_moved e ha).bind ?_
    rintro t _ rfl
    rw [← Stmt.allMoved_eq_map]
    refine (inferAll_moved ss ha).bind ?_
    rintro ts _ rfl
    exact .ok rfl

theorem inferBlock_moved : (b : Block) → s.Alike s' →
    FollowsBlock f (b.infer s hint) ((b.moved f).infer s' hint)
  | ⟨stmts, returnsVoid, position⟩, ha => by
    simp only [Block.moved, Block.infer]
    refine (inferAll_moved stmts ha.push).bind ?_
    rintro ts _ rfl
    exact .ok (by simp only [Typed.Block.moved, Typed.Stmt.allMoved_eq_map, Typed.valueTy_moved])
end

theorem declsInferAll_moved (ds : List Decl) (ha : s.Alike s') :
    Follows f (fun ts us => us = ts.map (·.moved f)) (Decl.inferAll ds s)
      (Decl.inferAll (ds.map (·.moved f)) s') := by
  induction ds generalizing s s' with
  | nil => exact .ok rfl
  | cons d ds ih =>
    simp only [List.map_cons, Decl.inferAll]
    refine (inferDecl_moved d ha).bind ?_
    rintro ⟨t, b⟩ ⟨_, b'⟩ ⟨rfl, hb⟩
    refine (ih hb).bind ?_
    rintro ts _ rfl
    exact .ok rfl

end LetLang
