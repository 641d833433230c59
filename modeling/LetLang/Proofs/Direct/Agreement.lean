import LetLang.Proofs.Direct.Checker
import LetLang.Proofs.Syntax.Packed
import LetLang.Proofs.Syntax.Parsing
import LetLang.Proofs.Typing.Resolution
import LetLang.Proofs.Typing.Steps

/-!
# Packing preserves typing

The checker types a packed program just as the direct checker types the program
itself: the same types at every node that was written, and the same diagnostic
where the program is wrong.

The two runs keep scopes that resolve every name but that of the pack alike.
A packed body starts with declarations that bring its scope in step again.
-/

namespace LetLang

-- ---------------------------------------------------------------------------
-- What packing leaves alone
-- ---------------------------------------------------------------------------

@[simp] theorem Expr.position_pack (e : Expr) : e.pack.position = e.position := by
  cases e with
  | block body =>
    cases body
    rfl
  | _ => rfl

@[simp] theorem Decl.position_pack (d : Decl) : d.pack.position = d.position := by
  cases d
  rfl

@[simp] theorem Block.position_pack (b : Block) : b.pack.position = b.position := by
  cases b
  rfl

mutual
theorem Expr.needsHint_pack : (e : Expr) → e.pack.needsHint = e.needsHint
  | .literal .. | .ident .. | .func .. | .call .. | .index .. | .unary .. | .binary .. => rfl
  | .tuple items _ => Expr.anyNeedsHint_pack items
  | .list items _ => Expr.allNeedHint_pack items
  | .block body => body.needsHint_pack
  | .cond _ thenBlock elseBlock _ => by
    simp only [Expr.pack, Expr.needsHint, thenBlock.needsHint_pack, elseBlock.needsHint_pack]
  | .loop _ _ body _ => body.needsHint_pack
theorem Expr.allNeedHint_pack : (es : List Expr) →
    Expr.allNeedHint (Expr.packAll es) = Expr.allNeedHint es
  | [] => rfl
  | e :: es => by
    simp only [Expr.packAll, Expr.allNeedHint, e.needsHint_pack, Expr.allNeedHint_pack es]
theorem Expr.anyNeedsHint_pack : (es : List Expr) →
    Expr.anyNeedsHint (Expr.packAll es) = Expr.anyNeedsHint es
  | [] => rfl
  | e :: es => by
    simp only [Expr.packAll, Expr.anyNeedsHint, e.needsHint_pack, Expr.anyNeedsHint_pack es]
theorem Block.needsHint_pack : (b : Block) → b.pack.needsHint = b.needsHint
  | ⟨stmts, returnsVoid, _⟩ => by
    simp only [Block.pack, Block.needsHint, Stmt.lastNeedsHint_pack stmts]
theorem Stmt.lastNeedsHint_pack : (ss : List Stmt) →
    Stmt.lastNeedsHint (Stmt.packAll ss) = Stmt.lastNeedsHint ss
  | [] => rfl
  | [.decl _] => rfl
  | [.expr e] => e.needsHint_pack
  | _ :: next :: ss => Stmt.lastNeedsHint_pack (next :: ss)
end

theorem trailing_pack (before : List Stmt) (body : Block)
    (hd : ∀ s ∈ before, ∃ d, s = Stmt.decl d) :
    Block.trailing? ⟨before ++ body.pack.stmts, body.returnsVoid, body.position⟩ =
      body.trailing?.map Expr.pack := by
  obtain ⟨stmts, returnsVoid, position⟩ := body
  cases returnsVoid with
  | true => rfl
  | false =>
    rcases List.eq_nil_or_concat stmts with rfl | ⟨init, last, rfl⟩
    · simp only [Block.trailing?, Block.pack, Stmt.packAll, List.append_nil]
      cases hl : before.getLast? with
      | none => rfl
      | some s =>
        obtain ⟨d, rfl⟩ := hd s (List.mem_of_getLast? hl)
        rfl
    · simp only [Block.trailing?, Block.pack, Stmt.packAll_eq_map, List.concat_eq_append,
        List.map_append, List.map_cons, List.map_nil, ← List.append_assoc, List.getLast?_concat]
      cases last with
      | decl d => rfl
      | expr e => rfl

theorem valuePosition_pack (before : List Stmt) (body : Block)
    (hd : ∀ s ∈ before, ∃ d, s = Stmt.decl d) :
    Block.valuePosition ⟨before ++ body.pack.stmts, body.returnsVoid, body.position⟩ =
      body.valuePosition := by
  unfold Block.valuePosition
  rw [trailing_pack before body hd]
  cases body.trailing? with
  | none => rfl
  | some e => exact e.position_pack

@[simp] theorem Block.valuePosition_pack (b : Block) : b.pack.valuePosition = b.valuePosition := by
  obtain ⟨stmts, returnsVoid, position⟩ := b
  exact LetLang.valuePosition_pack [] ⟨stmts, returnsVoid, position⟩ nofun

theorem valueTy_pack (before : List Typed.Stmt) (stmts : List Direct.Stmt)
    (hd : ∀ s ∈ before, ∃ d, s = Typed.Stmt.decl d) :
    Typed.valueTy returnsVoid (before ++ stmts.map Direct.Stmt.pack) =
      Direct.valueTy returnsVoid stmts := by
  cases returnsVoid with
  | true => rfl
  | false =>
    rcases List.eq_nil_or_concat stmts with rfl | ⟨init, last, rfl⟩
    · simp only [Typed.valueTy, Direct.valueTy, List.map_nil, List.append_nil]
      cases hl : before.getLast? with
      | none => rfl
      | some s =>
        obtain ⟨d, rfl⟩ := hd s (List.mem_of_getLast? hl)
        rfl
    · simp only [Typed.valueTy, Direct.valueTy, List.concat_eq_append, List.map_append,
        List.map_cons, List.map_nil, ← List.append_assoc, List.getLast?_concat]
      cases last with
      | decl d => rfl
      | expr e => exact e.pack_ty

-- ---------------------------------------------------------------------------
-- Parameters and returned types
-- ---------------------------------------------------------------------------

theorem packParams_eq (params : List Param) (position : Position) :
    ∃ param, packParams params position = [param] ∧ param.name = Direct.paramName params ∧
      param.type.ty = Direct.paramTy params := by
  match params with
  | [] => exact ⟨_, rfl, rfl, rfl⟩
  | [param] => exact ⟨param, rfl, rfl, rfl⟩
  | first :: second :: more => exact ⟨_, rfl, rfl, rfl⟩

theorem signature_pack (returns : List Ascription) :
    signature [param] (packReturns returns) position =
      (do return (param, ← Direct.returnTy returns position)) := by
  cases returns with
  | nil =>
    have ht : "function with " ++ Nat.repr 1 ++ " parameters and " ++ Nat.repr 0 ++
        " return types reached the type checker" =
          "function with 1 parameters and 0 return types reached the type checker" := by
      decide
    simp [signature, packReturns, Direct.returnTy, Ty.curried?, ht]
    rfl
  | cons first chain =>
    obtain ⟨t, h⟩ := Ty.curried?_cons first.ty (chain.map (·.ty))
    simp only [packReturns, Direct.returnTy, List.head?_cons, List.map_cons, h]
    rfl

theorem unpackAll_decl (h : s ∈ unpackAll place params) : ∃ d, s = .decl d := by
  induction params generalizing place with
  | nil => cases h
  | cons param params ih =>
    rcases List.mem_cons.mp h with rfl | h
    · exact ⟨_, rfl⟩
    · exact ih h

theorem unpacking_decl (h : s ∈ unpacking params) : ∃ d, s = .decl d := by
  match params with
  | [] | [_] => cases h
  | _ :: _ :: _ => exact unpackAll_decl h

theorem direct_unpackAll_decl (h : s ∈ Direct.unpackAll packed place params) :
    ∃ d, s = .decl d := by
  induction params generalizing place with
  | nil => cases h
  | cons param params ih =>
    rcases List.mem_cons.mp h with rfl | h
    · exact ⟨_, rfl⟩
    · exact ih h

theorem direct_unpacking_decl (h : s ∈ Direct.unpacking params) : ∃ d, s = .decl d := by
  match params with
  | [] | [_] => cases h
  | _ :: _ :: _ => exact direct_unpackAll_decl h

-- ---------------------------------------------------------------------------
-- The start of a packed body
-- ---------------------------------------------------------------------------

theorem infer_unpack {param : Param} (hp : scope.lookup packName = some (.tuple items))
    (hi : items[place]? = some param.type.ty) :
    (param.unpack place).infer scope hint =
      .ok (Direct.unpack (.tuple items) param place, scope.bind param.name param.type.ty) := by
  have hi' : Ty.item? items place = some param.type.ty := Ty.item?_eq_some.mpr ⟨place, rfl, hi⟩
  have hv : (Expr.index (.ident packName param.position)
      (.literal (.int place) param.position) param.position).infer scope (some param.type.ty) =
        .ok ⟨.index ⟨.ident packName, .tuple items, param.position⟩
          ⟨.literal (.int place), .int, param.position⟩, param.type.ty, param.position⟩ := by
    refine infer_index_ok.mpr ⟨_, infer_ident_ok.mpr ⟨_, hp, rfl⟩, .inl ?_⟩
    exact ⟨items, place, param.position, param.type.ty, rfl, rfl, hi', rfl⟩
  refine infer_declStmt_ok.mpr ⟨_, _, infer_decl_ok.mpr ?_, rfl⟩
  refine ⟨scope, _, _, rfl, hv, rfl, ?_, ?_, rfl⟩
  · rintro _ ⟨⟩
    rfl
  · exact Decl.requireValue_ok.mpr (.inr (by simp [Decl.unpacks]))

/-- The start of a packed body binds the parameters in order, and the rest of
the body is typed behind it. -/
theorem inferAll_unpackAll (hp : scope.lookup packName = some (.tuple items))
    (hi : items.drop place = params.map (·.type.ty)) (hn : ∀ p ∈ params, p.name ≠ packName) :
    Stmt.inferAll (unpackAll place params ++ rest) scope hint = (do
      return Direct.unpackAll (.tuple items) place params ++
        (← Stmt.inferAll rest (scope.bindAll (Direct.bindings params)) hint)) := by
  induction params generalizing scope place with
  | nil => simp [unpackAll, Direct.unpackAll, Direct.bindings, Scope.bindAll]
  | cons param params ih =>
    have hi' : items[place]? = some param.type.ty := by
      rw [← List.head?_drop, hi]
      rfl
    have hb : (scope.bind param.name param.type.ty).lookup packName = some (.tuple items) := by
      rw [Scope.lookup_bind, if_neg (hn param List.mem_cons_self).symm, hp]
    have ht : items.drop (place + 1) = params.map (·.type.ty) := by
      rw [← List.tail_drop, hi]
      rfl
    simp only [unpackAll, List.cons_append, Stmt.inferAll, infer_unpack hp hi', ok_bind,
      ih hb ht fun p hp => hn p (List.mem_cons_of_mem _ hp), bind_assoc, pure_bind]
    rfl

-- ---------------------------------------------------------------------------
-- Runs that agree
-- ---------------------------------------------------------------------------

/-- Whether two runs give an expression and its packed form, or the same diagnostic. -/
abbrev SameExpr (x : Except Diagnostic Typed.Expr) (y : Except Diagnostic Direct.Expr) : Prop :=
  Agree (fun t d => t = d.pack) x y

abbrev SameExprs (x : Except Diagnostic (List Typed.Expr))
    (y : Except Diagnostic (List Direct.Expr)) : Prop :=
  Agree (fun ts ds => ts = ds.map Direct.Expr.pack) x y

abbrev SameItems (count : Nat) (x : Except Diagnostic (List Typed.Expr))
    (y : Except Diagnostic (List Direct.Expr)) : Prop :=
  Agree (fun ts ds => ts = ds.map Direct.Expr.pack ∧ ds.length = count) x y

abbrev SameStmts (x : Except Diagnostic (List Typed.Stmt))
    (y : Except Diagnostic (List Direct.Stmt)) : Prop :=
  Agree (fun ts ds => ts = ds.map Direct.Stmt.pack) x y

abbrev SameBlock (x : Except Diagnostic Typed.Block) (y : Except Diagnostic Direct.Block) : Prop :=
  Agree (fun t d => t = d.pack) x y

/-- Whether two scopes resolve every name but that of the pack alike. -/
abbrev InStep (s s' : Scope) : Prop := s.AlikeOn (· ≠ packName) s'

theorem InStep.pack (h : InStep s s') (ty : Ty) : InStep (s.push.bind packName ty) s'.push := by
  intro name hn
  rw [Scope.lookup_bind, if_neg hn, Scope.lookup_push, Scope.lookup_push, h name hn]

theorem unpacking_cases (params : List Param) : (∃ param, params = [param]) ∨
    Direct.paramName params = packName ∧
      Direct.paramTy params = .tuple (params.map (·.type.ty)) ∧
      unpacking params = unpackAll 0 params ∧
      Direct.unpacking params = Direct.unpackAll (.tuple (params.map (·.type.ty))) 0 params := by
  match params with
  | [] => exact .inr ⟨rfl, rfl, rfl, rfl⟩
  | [param] => exact .inl ⟨param, rfl⟩
  | _ :: _ :: _ => exact .inr ⟨rfl, rfl, rfl, rfl⟩

/-- Behind the declarations that unpack its parameters, a packed body is in step
with the body of a function that binds them itself. -/
theorem inferAll_unpacking_agree (h : InStep s s') (hn : ∀ p ∈ params, p.name ≠ packName)
    (hs : ∀ {s s'}, InStep s s' → SameStmts
      (Stmt.inferAll (Stmt.packAll stmts) s hint) (Stmt.directAll stmts s' hint)) :
    Agree (fun ts ds => ts = Direct.unpacking params ++ ds.map Direct.Stmt.pack)
      (Stmt.inferAll (unpacking params ++ Stmt.packAll stmts)
        (s.push.bind (Direct.paramName params) (Direct.paramTy params)).push hint)
      (Stmt.directAll stmts (s'.push.bindAll (Direct.bindings params)).push hint) := by
  rcases unpacking_cases params with ⟨param, rfl⟩ | ⟨hname, hty, hu, hd⟩
  · exact hs (h.push.bind param.name param.type.ty).push
  · -- The pack is bound in a frame of its own, outside that of the body.
    have hp := h.pack (.tuple (params.map (·.type.ty)))
    have hb : InStep ((s.push.bind packName (.tuple (params.map (·.type.ty)))).push.bindAll
        (Direct.bindings params)) (s'.push.bindAll (Direct.bindings params)).push := by
      intro name hv
      rw [Scope.lookup_push]
      refine Scope.AlikeOn.bindAll (p := (· ≠ packName)) ?_ _ name hv
      intro other ho
      rw [Scope.lookup_push]
      exact hp other ho
    rw [hname, hty, hu, hd, inferAll_unpackAll (by simp [Scope.lookup_bind]) rfl hn,
      ← bind_pure (Stmt.directAll _ _ _)]
    refine (hs hb).bind ?_
    rintro _ ds rfl
    exact .ok rfl

theorem inferBlock_unpacking_agree (h : InStep s s') (hn : ∀ p ∈ params, p.name ≠ packName)
    (hs : ∀ {s s' hint}, InStep s s' → SameStmts
      (Stmt.inferAll (Stmt.packAll stmts) s hint) (Stmt.directAll stmts s' hint)) :
    Agree (fun t d => t = { d.pack with stmts := Direct.unpacking params ++ d.pack.stmts })
      (Block.infer ⟨unpacking params ++ Stmt.packAll stmts, returnsVoid, position⟩
        (s.push.bind (Direct.paramName params) (Direct.paramTy params)) hint)
      (Block.direct ⟨stmts, returnsVoid, position⟩
        (s'.push.bindAll (Direct.bindings params)) hint) := by
  simp only [Block.infer, Block.direct]
  refine (inferAll_unpacking_agree h hn hs).bind ?_
  rintro _ ds rfl
  refine .ok ?_
  simp only [Direct.Block.pack, Direct.Stmt.packAll_eq_map,
    valueTy_pack _ ds fun s hs => direct_unpacking_decl hs]

-- ---------------------------------------------------------------------------
-- The two checkers
-- ---------------------------------------------------------------------------

theorem ne_packName_of_mem (h : Node.Avoids packName n) (hm : name ∈ n.names) :
    name ≠ packName := by
  rintro rfl
  exact h hm

theorem valueScope_agree (d : Decl) (h : InStep s s') :
    Agree (fun inner inner' => InStep inner inner') (d.pack.valueScope s) (d.directScope s') := by
  obtain ⟨name, declared, value, position⟩ := d
  cases value with
  | func params returns body place =>
    obtain ⟨param, hp, -, hty⟩ := packParams_eq params place
    simp only [Decl.pack, Expr.pack, Decl.valueScope, Decl.directScope, hp, signature_pack,
      bind_assoc, pure_bind]
    cases Direct.returnTy returns place with
    | error d => exact .error
    | ok ret =>
      refine .ok ?_
      rw [hty]
      exact h.bind _ _
  | _ => exact .ok h

theorem unpacks_pack {d : Decl} (h : d.Every (Node.Avoids packName)) : d.pack.unpacks = false := by
  obtain ⟨name, declared, value, position⟩ := d
  cases value with
  | index target index place =>
    cases target with
    | ident target _ =>
      obtain ⟨-, -, ht, -⟩ := h
      simpa [Decl.pack, Expr.pack, Decl.unpacks] using ne_packName_of_mem ht List.mem_cons_self
    | _ => rfl
  | _ => rfl

theorem requireValue_pack {d : Decl} (h : d.Every (Node.Avoids packName)) (ty : Ty) :
    d.pack.requireValue ty = d.requireBound ty := by
  simp only [Decl.requireValue, Decl.requireBound, unpacks_pack h, Bool.or_false,
    Decl.position_pack]

theorem headed_agree {x : Except Diagnostic Typed.Expr} (hf : SameExpr x y)
    (hr : ∀ item, SameExprs (Expr.checkItems rest s item) (Expr.directSame rest' s' item)) :
    SameExpr
      (do
        let head ← x
        let tail ← Expr.checkItems rest s head.ty
        return ⟨.list (head :: tail), .list head.ty, position⟩)
      (do
        let head ← y
        let tail ← Expr.directSame rest' s' head.ty
        return ⟨.list (head :: tail), .list head.ty, position⟩) := by
  refine hf.bind ?_
  rintro _ d rfl
  rw [Direct.Expr.pack_ty]
  refine (hr d.ty).bind ?_
  rintro _ ds rfl
  exact .ok (by simp [Direct.Expr.pack, Direct.ExprKind.pack])

theorem element_agree {x : Except Diagnostic Typed.Expr} (target : Direct.Expr)
    (hi : SameExpr x y) :
    SameExpr
      (do
        let i ← x
        ensure (i.ty = .int) (.wrongIndex i.ty.text) i.position
        return ⟨.index target.pack i, item, position⟩)
      (do
        let i ← y
        ensure (i.ty = .int) (.wrongIndex i.ty.text) i.position
        return ⟨.index target i, item, position⟩) := by
  refine hi.bind ?_
  rintro _ i rfl
  simp only [Direct.Expr.pack_ty, Direct.Expr.pack_position]
  exact .ensure fun _ => .ok rfl

@[simp] theorem packAll_length (es : List Expr) : (Expr.packAll es).length = es.length := by
  simp

theorem packArg_of_length_ne_one (h : args.length ≠ 1) :
    Direct.packArg args position = ⟨.tuple args, .tuple (args.map (·.ty)), position⟩ := by
  match args with
  | [] => rfl
  | [_] => cases h rfl
  | _ :: _ :: _ => rfl

theorem packArgs_of_length_ne_one (h : args.length ≠ 1) :
    packArgs args position = [.tuple args position] := by
  match args with
  | [] => rfl
  | [_] => cases h rfl
  | _ :: _ :: _ => rfl

/-- Whether the checker types a packed expression in one scope as the direct checker
types the expression in another, with the same hint. -/
abbrev Expr.Agrees (s s' : Scope) (e : Expr) : Prop :=
  ∀ {hint}, SameExpr (e.pack.infer s hint) (e.direct s' hint)

abbrev Block.Agrees (s s' : Scope) (b : Block) : Prop :=
  ∀ {hint}, SameBlock (b.pack.infer s hint) (b.direct s' hint)

theorem ident_agree (h : InStep s s') (hn : name ≠ packName) :
    (Expr.ident name position).Agrees s s' := by
  intro hint
  simp only [Expr.pack, Expr.infer, Expr.direct, h name hn]
  cases s'.lookup name with
  | none => exact .error
  | some ty => exact .ok rfl

theorem nil_agree : (Expr.list [] position).Agrees s s' := by
  intro hint
  simp only [Expr.pack, Expr.packAll, Expr.infer, Expr.direct]
  cases hint with
  | none => exact .error
  | some ty =>
    cases ty with
    | list item => exact .ok rfl
    | _ => exact .error

theorem checkItems_cons_agree (he : e.Agrees s s')
    (hs : SameExprs (Expr.checkItems (Expr.packAll es) s item) (Expr.directSame es s' item)) :
    SameExprs (Expr.checkItems (Expr.packAll (e :: es)) s item)
      (Expr.directSame (e :: es) s' item) := by
  simp only [Expr.packAll, Expr.checkItems, Expr.directSame]
  refine he.bind ?_
  rintro _ d rfl
  simp only [Direct.Expr.pack_ty, Direct.Expr.pack_position]
  refine .ensure fun _ => ?_
  refine hs.bind ?_
  rintro _ ds rfl
  exact .ok rfl

theorem list_agree (hf : first.Agrees s s')
    (ha : Agree Eq (Expr.anchorTy (Expr.packAll rest) s) (Expr.directAnchor rest s'))
    (hr : ∀ {item}, SameExprs (Expr.checkItems (Expr.packAll rest) s item)
      (Expr.directSame rest s' item)) :
    (Expr.list (first :: rest) position).Agrees s s' := by
  intro hint
  simp only [Expr.pack, Expr.packAll, Expr.infer, Expr.direct, first.needsHint_pack]
  split
  · refine ha.bind ?_
    rintro anchor _ rfl
    cases anchor with
    | some item =>
      refine (checkItems_cons_agree hf hr).bind ?_
      rintro _ ds rfl
      exact .ok (by simp [Direct.Expr.pack, Direct.ExprKind.pack])
    | none => exact headed_agree hf fun _ => hr
  · exact headed_agree hf fun _ => hr

theorem func_agree (h : InStep s s') (hn : ∀ p ∈ params, p.name ≠ packName)
    (hs : ∀ {s s' hint}, InStep s s' → SameStmts
      (Stmt.inferAll (Stmt.packAll stmts) s hint) (Stmt.directAll stmts s' hint)) :
    (Expr.func params returns ⟨stmts, returnsVoid, place⟩ position).Agrees s s' := by
  intro hint
  obtain ⟨param, hp, hname, hty⟩ := packParams_eq params position
  simp only [Expr.pack, Block.pack, Expr.infer, Expr.direct, hp, signature_pack, bind_assoc,
    pure_bind, hname, hty]
  cases Direct.returnTy returns position with
  | error d => exact .error
  | ok ret =>
    simp only [ok_bind]
    refine (inferBlock_unpacking_agree h hn hs).bind ?_
    rintro _ d rfl
    have hv : Block.valuePosition ⟨unpacking params ++ Stmt.packAll stmts, returnsVoid, place⟩ =
        Block.valuePosition ⟨stmts, returnsVoid, place⟩ :=
      valuePosition_pack _ ⟨stmts, returnsVoid, place⟩ fun s hs => unpacking_decl hs
    simp only [Direct.Block.pack_ty]
    rw [hv]
    exact .ensure fun _ => .ok (by simp [Direct.Expr.pack, Direct.ExprKind.pack])

theorem call_agree (hc : callee.Agrees s s') (ha : arg.Agrees s s') :
    (Expr.call callee [arg] argsPosition position).Agrees s s' := by
  intro hint
  simp only [Expr.pack, Expr.packAll, packArgs, Expr.infer, Expr.direct]
  refine hc.bind ?_
  rintro _ f rfl
  simp only [Direct.Expr.pack_ty, Direct.Expr.pack_position]
  cases f.ty with
  | func param ret =>
    refine ha.bind ?_
    rintro _ d rfl
    simp only [Direct.Expr.pack_ty, Direct.Expr.pack_position]
    exact .ensure fun _ => .ok rfl
  | _ => exact .error

theorem tupleCall_agree (h : args.length ≠ 1) (hc : callee.Agrees s s')
    (hi : ∀ {hints}, SameItems args.length
      (Expr.inferItems (Expr.packAll args) s hints) (Expr.directItems args s' hints)) :
    (Expr.call callee args argsPosition position).Agrees s s' := by
  intro hint
  have hp : (Expr.packAll args).length ≠ 1 := by simpa using h
  rw [direct_call_of_length_ne_one h]
  simp only [Expr.pack, packArgs_of_length_ne_one hp, Expr.infer, bind_assoc, pure_bind,
    packAll_length]
  refine hc.bind ?_
  rintro _ f rfl
  simp only [Direct.Expr.pack_ty, Direct.Expr.pack_position]
  cases f.ty with
  | func param ret =>
    -- The direct checker compares a tuple that is not written.
    refine hi.bind ?_
    rintro _ ds ⟨rfl, hl⟩
    have hd : (ds.map Direct.Expr.pack).length ≠ 1 := by simpa [hl] using h
    simp only [List.map_map, Function.comp_def, Direct.Expr.pack_ty]
    refine .ensure fun _ => .ok ?_
    simp [Direct.Expr.pack, Direct.ExprKind.pack, packArg_of_length_ne_one hd]
  | _ => exact .error

theorem index_agree (ht : target.Agrees s s') (hi : index.Agrees s s') :
    (Expr.index target index position).Agrees s s' := by
  intro hint
  simp only [Expr.pack, Expr.infer, Expr.direct]
  refine ht.bind ?_
  rintro _ d rfl
  simp only [Direct.Expr.pack_ty, Direct.Expr.pack_position, Expr.position_pack]
  cases d.ty with
  | tuple items =>
    cases index with
    | literal value place =>
      cases value with
      | int n =>
        simp only [Expr.pack]
        cases Ty.item? items n with
        | none => exact .error
        | some item => exact .ok rfl
      | _ => exact .error
    | _ => exact .error
  | list item =>
    simp only [Ty.element?]
    exact element_agree d hi
  | func param ret => exact .error
  | prim name =>
    cases name with
    | str =>
      simp only [Ty.element?]
      exact element_agree d hi
    | _ => exact .error

theorem cond_agree (ht : test.Agrees s s') (hy : thenBlock.Agrees s s')
    (hn : elseBlock.Agrees s s') :
    (Expr.cond test thenBlock elseBlock position).Agrees s s' := by
  intro hint
  simp only [Expr.pack, Expr.infer, Expr.direct, Block.needsHint_pack]
  refine ht.bind ?_
  rintro _ c rfl
  simp only [Direct.Expr.pack_ty, Direct.Expr.pack_position]
  refine .ensure fun _ => ?_
  split
  · refine hn.bind ?_
    rintro _ no rfl
    rw [Direct.Block.pack_ty]
    refine hy.bind ?_
    rintro _ yes rfl
    simp only [pure_bind, Direct.Block.pack_ty, Block.valuePosition_pack]
    exact .ensure fun _ => .ok rfl
  · refine hy.bind ?_
    rintro _ yes rfl
    rw [Direct.Block.pack_ty]
    refine hn.bind ?_
    rintro _ no rfl
    simp only [pure_bind, Direct.Block.pack_ty, Block.valuePosition_pack]
    exact .ensure fun _ => .ok rfl

theorem loop_agree (h : InStep s s') (hi : iterable.Agrees s s')
    (hb : ∀ {s s'}, InStep s s' → body.Agrees s s') :
    (Expr.loop binder iterable body position).Agrees s s' := by
  intro hint
  simp only [Expr.pack, Expr.infer, Expr.direct]
  refine hi.bind ?_
  rintro _ items rfl
  simp only [Direct.Expr.pack_ty, Direct.Expr.pack_position]
  cases items.ty with
  | list item =>
    refine (hb (h.push.bind binder item)).bind ?_
    rintro _ d rfl
    exact .ok (by simp [Direct.Expr.pack, Direct.ExprKind.pack])
  | _ => exact .error

theorem unary_agree (ho : operand.Agrees s s') :
    (Expr.unary op operand position).Agrees s s' := by
  intro hint
  simp only [Expr.pack, Expr.infer, Expr.direct]
  refine ho.bind ?_
  rintro _ d rfl
  simp only [Direct.Expr.pack_ty, Direct.Expr.pack_position]
  exact .ensure fun _ => .ok rfl

theorem binary_agree (hl : left.Agrees s s') (hr : right.Agrees s s') :
    (Expr.binary op left right position).Agrees s s' := by
  intro hint
  simp only [Expr.pack, Expr.infer, Expr.direct, Expr.needsHint_pack, BinaryOp.requireLeft,
    BinaryOp.requireRight, BinaryOp.requireDirectLeft, BinaryOp.requireDirectRight]
  split
  · refine hr.bind ?_
    rintro _ r rfl
    rw [Direct.Expr.pack_ty]
    refine hl.bind ?_
    rintro _ l rfl
    simp only [pure_bind, Direct.Expr.pack_ty, Direct.Expr.pack_position]
    exact .ensure fun _ => .ensure fun _ => .ok rfl
  · refine hl.bind ?_
    rintro _ l rfl
    simp only [pure_bind, Direct.Expr.pack_ty, Direct.Expr.pack_position]
    refine .ensure fun _ => ?_
    refine hr.bind ?_
    rintro _ r rfl
    simp only [Direct.Expr.pack_ty, Direct.Expr.pack_position]
    exact .ensure fun _ => .ok rfl

mutual
/-- The checker types a packed expression as the direct checker types the
expression, in scopes that are in step. -/
theorem infer_agree : (e : Expr) → e.Every (Node.Avoids packName) → InStep s s' →
    SameExpr (e.pack.infer s hint) (e.direct s' hint)
  | .literal value position, _, _ => .ok rfl
  | .ident name position, hn, ha => ident_agree ha (ne_packName_of_mem hn List.mem_cons_self)
  | .tuple items position, ⟨_, hn⟩, ha => by
    simp only [Expr.pack, Expr.infer, Expr.direct, packAll_length]
    refine (inferItems_agree items hn ha).bind ?_
    rintro _ ds ⟨rfl, -⟩
    exact .ok (by simp [Direct.Expr.pack, Direct.ExprKind.pack])
  | .list [] position, _, _ => nil_agree
  | .list (first :: rest) position, ⟨_, hn⟩, ha =>
    list_agree (infer_agree first hn.1 ha) (anchorTy_agree rest hn.2 ha)
      (checkItems_agree rest hn.2 ha)
  | .func params returns ⟨stmts, returnsVoid, place⟩ position, ⟨hn, _, hb⟩, ha =>
    func_agree ha (fun p hp => ne_packName_of_mem hn (List.mem_map_of_mem hp))
      fun h => inferAll_agree stmts hb h
  | .call callee [arg] argsPosition position, ⟨_, hc, hn⟩, ha =>
    call_agree (infer_agree callee hc ha) (infer_agree arg hn.1 ha)
  | .call callee [] argsPosition position, ⟨_, hc, hn⟩, ha =>
    tupleCall_agree (by simp) (infer_agree callee hc ha) (inferItems_agree [] hn ha)
  | .call callee (first :: second :: more) argsPosition position, ⟨_, hc, hn⟩, ha =>
    tupleCall_agree (by simp) (infer_agree callee hc ha)
      (inferItems_agree (first :: second :: more) hn ha)
  | .block body, ⟨_, hb⟩, ha => by
    simp only [Expr.pack, Expr.infer, Expr.direct]
    refine (inferBlock_agree body hb ha).bind ?_
    rintro _ d rfl
    exact .ok (by simp [Direct.Expr.pack, Direct.ExprKind.pack])
  | .index target index position, ⟨_, ht, hi⟩, ha =>
    index_agree (infer_agree target ht ha) (infer_agree index hi ha)
  | .cond test thenBlock elseBlock position, ⟨_, hc, hy, hn⟩, ha =>
    cond_agree (infer_agree test hc ha) (inferBlock_agree thenBlock hy ha)
      (inferBlock_agree elseBlock hn ha)
  | .loop binder iterable body position, ⟨_, hi, hb⟩, ha =>
    loop_agree ha (infer_agree iterable hi ha) fun h => inferBlock_agree body hb h
  | .unary op operand position, ⟨_, ho⟩, ha => unary_agree (infer_agree operand ho ha)
  | .binary op left right position, ⟨_, hl, hr⟩, ha =>
    binary_agree (infer_agree left hl ha) (infer_agree right hr ha)
termination_by structural e => e

theorem inferItems_agree : (es : List Expr) → Expr.EveryItem (Node.Avoids packName) es →
    InStep s s' → SameItems es.length
      (Expr.inferItems (Expr.packAll es) s hints) (Expr.directItems es s' hints)
  | [], _, _ => .ok ⟨rfl, rfl⟩
  | e :: es, ⟨he, hs⟩, ha => by
    simp only [Expr.packAll, Expr.inferItems, Expr.directItems]
    refine (infer_agree e he ha).bind ?_
    rintro _ d rfl
    refine (inferItems_agree es hs ha).bind ?_
    rintro _ ds ⟨rfl, hl⟩
    exact .ok ⟨rfl, congrArg (· + 1) hl⟩

theorem checkItems_agree : (es : List Expr) → Expr.EveryItem (Node.Avoids packName) es →
    InStep s s' → SameExprs
      (Expr.checkItems (Expr.packAll es) s item) (Expr.directSame es s' item)
  | [], _, _ => .ok rfl
  | e :: es, ⟨he, hs⟩, ha => checkItems_cons_agree (infer_agree e he ha) (checkItems_agree es hs ha)

theorem anchorTy_agree : (es : List Expr) → Expr.EveryItem (Node.Avoids packName) es →
    InStep s s' → Agree Eq (Expr.anchorTy (Expr.packAll es) s) (Expr.directAnchor es s')
  | [], _, _ => .ok rfl
  | e :: es, ⟨he, hs⟩, ha => by
    simp only [Expr.packAll, Expr.anchorTy, Expr.directAnchor, e.needsHint_pack]
    split
    · exact anchorTy_agree es hs ha
    · refine (infer_agree e he ha).bind ?_
      rintro _ d rfl
      exact .ok (by rw [Direct.Expr.pack_ty])

theorem inferDecl_agree : (d : Decl) → d.Every (Node.Avoids packName) → InStep s s' →
    Agree (fun r r' => r.1 = r'.1.pack ∧ InStep r.2 r'.2) (d.pack.infer s) (d.direct s')
  | ⟨name, declared, value, position⟩, hd, ha => by
    have hv := requireValue_pack hd
    simp only [Decl.pack] at hv
    simp only [Decl.pack, Decl.infer, Decl.direct, hv, Decl.requireBound]
    refine (valueScope_agree ⟨name, declared, value, position⟩ ha).bind ?_
    intro inner inner' hin
    cases declared with
    | some written =>
      refine .ensure fun _ => ?_
      refine (infer_agree value hd.2 hin).bind ?_
      rintro _ t rfl
      simp only [Direct.Expr.pack_ty, Expr.position_pack, requireType]
      exact .ensure fun _ => .ok ⟨rfl, hin.bind name written.ty⟩
    | none =>
      refine (infer_agree value hd.2 hin).bind ?_
      rintro _ t rfl
      simp only [Direct.Expr.pack_ty]
      exact .ensure fun _ => .ok ⟨rfl, hin.bind name t.ty⟩

theorem inferAll_agree : (ss : List Stmt) → Stmt.EveryStmt (Node.Avoids packName) ss →
    InStep s s' → SameStmts
      (Stmt.inferAll (Stmt.packAll ss) s hint) (Stmt.directAll ss s' hint)
  | [], _, _ => .ok rfl
  | .decl d :: ss, ⟨hd, hs⟩, ha => by
    simp only [Stmt.packAll, Stmt.pack, Stmt.inferAll, Stmt.directAll, Stmt.infer, Stmt.direct,
      bind_assoc, pure_bind]
    refine (inferDecl_agree d hd ha).bind ?_
    rintro ⟨_, _⟩ ⟨t, b⟩ ⟨rfl, hb⟩
    refine (inferAll_agree ss hs hb).bind ?_
    rintro _ ds rfl
    exact .ok rfl
  | .expr e :: ss, ⟨he, hs⟩, ha => by
    simp only [Stmt.packAll, Stmt.pack, Stmt.inferAll, Stmt.directAll, Stmt.infer, Stmt.direct,
      bind_assoc, pure_bind, Stmt.packAll_eq_map, List.isEmpty_map]
    refine (infer_agree e he ha).bind ?_
    rintro _ d rfl
    rw [← Stmt.packAll_eq_map]
    refine (inferAll_agree ss hs ha).bind ?_
    rintro _ ds rfl
    exact .ok rfl

theorem inferBlock_agree : (b : Block) → b.Every (Node.Avoids packName) → InStep s s' →
    SameBlock (b.pack.infer s hint) (b.direct s' hint)
  | ⟨stmts, returnsVoid, position⟩, ⟨_, hs⟩, ha => by
    simp only [Block.pack, Block.infer, Block.direct]
    refine (inferAll_agree stmts hs ha.push).bind ?_
    rintro _ ds rfl
    exact .ok (by simp [Direct.Block.pack, ← valueTy_pack [] ds nofun])
end

theorem declsInferAll_agree (hd : ∀ d ∈ ds, Decl.Every (Node.Avoids packName) d)
    (ha : InStep s s') :
    Agree (fun ts us => ts = us.map Direct.Decl.pack)
      (Decl.inferAll (ds.map Decl.pack) s) (Decl.directAll ds s') := by
  induction ds generalizing s s' with
  | nil => exact .ok rfl
  | cons d ds ih =>
    simp only [List.map_cons, Decl.inferAll, Decl.directAll]
    refine (inferDecl_agree d (hd d List.mem_cons_self) ha).bind ?_
    rintro ⟨_, _⟩ ⟨t, b⟩ ⟨rfl, hb⟩
    refine (ih (fun d hm => hd d (List.mem_cons_of_mem _ hm)) hb).bind ?_
    rintro _ us rfl
    exact .ok rfl

theorem inferModule_agree {m : Module} (h : m.Avoids packName) (scope : Scope) :
    m.pack.infer scope = (m.direct scope).map Direct.Module.pack := by
  refine agree_iff_map.mp ?_
  refine (declsInferAll_agree h fun _ _ => rfl).bind ?_
  rintro _ us rfl
  exact .ok rfl

/-- The checker on a packed module and the direct checker on the module itself
accept the same modules, with the same type for every declaration and at every
expression that was written, and reject the others with the same diagnostic. The
module must avoid the name of the pack, as the modules of sources do. -/
theorem pack_preserves_typing (scope : Scope) :
    (∀ m : Module, m.Avoids packName →
      m.pack.infer scope = (m.direct scope).map Direct.Module.pack) ∧
    (∀ source tokens m, tokenize source = .ok tokens → parse tokens = .ok m →
      m.pack.infer scope = (m.direct scope).map Direct.Module.pack) := by
  refine ⟨fun m hm => inferModule_agree hm scope, ?_⟩
  intro source tokens m hl hp
  exact inferModule_agree (parse_avoids (tokenize_tokens hl) hp) scope

/-- Functions of two parameters and of none, and their calls:
`let f = fn (a int, b str) (str, int) { (b, a) }; let p = f(1, "x");` and so on. -/
def flipped : Module :=
  let at0 := Position.start
  let swap := Expr.func [⟨"a", ⟨.int, at0⟩, at0⟩, ⟨"b", ⟨.str, at0⟩, at0⟩]
    [⟨.tuple [.str, .int], at0⟩]
    ⟨[.expr (.tuple [.ident "b" at0, .ident "a" at0] at0)], false, at0⟩ at0
  let swapped := Expr.call (.ident "f" at0)
    [.literal (.int 1) at0, .literal (.str "x") at0] at0 at0
  let again := Expr.func [] [⟨.tuple [.str, .int], at0⟩] ⟨[.expr (.ident "p" at0)], false, at0⟩ at0
  ⟨[⟨"f", none, swap, at0⟩, ⟨"p", none, swapped, at0⟩, ⟨"g", none, again, at0⟩,
    ⟨"q", none, .call (.ident "g" at0) [] at0 at0, at0⟩]⟩

theorem flipped_direct : (flipped.direct .prelude).isOk = true ∧
    flipped.pack.infer .prelude = (flipped.direct .prelude).map Direct.Module.pack := by
  refine ⟨by decide +kernel, (pack_preserves_typing .prelude).1 flipped ?_⟩
  simp [Module.Avoids, Module.Every, flipped, Decl.Every, Expr.Every, Expr.EveryItem, Block.Every,
    Stmt.EveryStmt, Node.Avoids, Node.names, packName]

end LetLang
