import LetLang.Proofs.Compile
import LetLang.Proofs.Typing.TyClass

/-!
# The shape of compiled modules

In a compiled module no declaration holds a written type or binds a type that
contains void. A function of several parameters takes them all from the pack in
its first statement, and the pack occurs nowhere else. No type has a tuple of
one item.

A compiled module is a directly checked one that was gathered, so the proof
follows the direct checker: scopes, hints and written types without a tuple of
one item give types without one.
-/

namespace LetLang

namespace Typed

mutual
/-- Whether an expression has the shape of a compiled one. -/
inductive Expr.Finished : Expr → Prop where
  | literal : ty.Plain → Expr.Finished ⟨.literal value, ty, position⟩
  | ident : name ≠ packName → ty.Plain → Expr.Finished ⟨.ident name, ty, position⟩
  | tuple : Expr.AllFinished items → ty.Plain → Expr.Finished ⟨.tuple items, ty, position⟩
  | list : Expr.AllFinished items → ty.Plain → Expr.Finished ⟨.list items, ty, position⟩
  | func : param ≠ packName → paramTy.Plain → returnTy.Plain → Block.Finished body → ty.Plain →
      Expr.Finished ⟨.func param paramTy returnTy body, ty, position⟩
  | func_none : returnTy.Plain → Block.Finished body → ty.Plain →
      Expr.Finished ⟨.func packName .unit returnTy body, ty, position⟩
  /-- A function of several parameters: each item of the pack is bound, in order. -/
  | func_several : 2 ≤ bindings.length → (∀ b ∈ bindings, b.1 ≠ packName) →
      (Ty.tuple (bindings.map (·.2))).Plain → returnTy.Plain →
      Block.Finished ⟨rest, returnsVoid, blockTy, blockPosition⟩ → ty.Plain →
      Expr.Finished
        ⟨.func packName (.tuple (bindings.map (·.2))) returnTy
          ⟨.destructure ⟨⟨.ident packName, .tuple (bindings.map (·.2)), sourcePosition⟩, bindings,
              bindingsPosition⟩ :: rest,
            returnsVoid, blockTy, blockPosition⟩, ty, position⟩
  | call : Expr.Finished callee → Expr.Finished arg → ty.Plain →
      Expr.Finished ⟨.call callee arg, ty, position⟩
  | block : Block.Finished body → ty.Plain → Expr.Finished ⟨.block body, ty, position⟩
  | index : Expr.Finished target → Expr.Finished index → ty.Plain →
      Expr.Finished ⟨.index target index, ty, position⟩
  | cond : Expr.Finished test → Block.Finished yes → Block.Finished no → ty.Plain →
      Expr.Finished ⟨.cond test yes no, ty, position⟩
  | loop : binder ≠ packName → Expr.Finished iterable → Block.Finished body → ty.Plain →
      Expr.Finished ⟨.loop binder iterable body, ty, position⟩
  | unary : Expr.Finished operand → ty.Plain → Expr.Finished ⟨.unary op operand, ty, position⟩
  | binary : Expr.Finished left → Expr.Finished right → ty.Plain →
      Expr.Finished ⟨.binary op left right, ty, position⟩
inductive Expr.AllFinished : List Expr → Prop where
  | nil : Expr.AllFinished []
  | cons : Expr.Finished e → Expr.AllFinished es → Expr.AllFinished (e :: es)
/-- Whether a declaration has the shape of a compiled one: no written type, and
no void in what it binds. -/
inductive Decl.Finished : Decl → Prop where
  | mk : name ≠ packName → ty.containsVoid = false → ty.Plain → Expr.Finished value →
      Decl.Finished ⟨name, none, ty, value, position⟩
inductive Stmt.AllFinished : List Stmt → Prop where
  | nil : Stmt.AllFinished []
  | decl : Decl.Finished d → Stmt.AllFinished ss → Stmt.AllFinished (.decl d :: ss)
  | expr : Expr.Finished e → Stmt.AllFinished ss → Stmt.AllFinished (.expr e :: ss)
inductive Block.Finished : Block → Prop where
  | mk : Stmt.AllFinished stmts → ty.Plain →
      Block.Finished ⟨stmts, returnsVoid, ty, position⟩
end

def Module.Finished (m : Module) : Prop := ∀ d ∈ m.decls, d.Finished

theorem Expr.Finished.plain (h : Expr.Finished e) : e.ty.Plain := by
  cases h with
  | _ => assumption

theorem Block.Finished.plain (h : Block.Finished b) : b.ty.Plain := by
  cases h
  assumption

end Typed

-- ---------------------------------------------------------------------------
-- Types without a tuple of one item
-- ---------------------------------------------------------------------------

def Scope.Plain (s : Scope) : Prop := ∀ name ty, s.lookup name = some ty → ty.Plain

theorem Scope.Plain.bind {s : Scope} (h : s.Plain) (hty : ty.Plain) : (s.bind name ty).Plain :=
  TyClass.HasScope.bind (k := .plain) h hty

theorem Scope.Plain.push {s : Scope} (h : s.Plain) : s.push.Plain :=
  TyClass.HasScope.push (k := .plain) h

theorem Scope.Plain.bindAll {s : Scope} (hs : s.Plain) (h : ∀ b ∈ bindings, b.2.Plain) :
    (s.bindAll bindings).Plain := by
  induction bindings generalizing s with
  | nil => exact hs
  | cons binding bindings ih =>
    obtain ⟨hb, h⟩ := List.forall_mem_cons.mp h
    exact ih (hs.bind hb) h

theorem Scope.Plain.ofBindings (h : ∀ b ∈ bindings, b.2.Plain) :
    (Scope.ofBindings bindings).Plain := by
  have hs : Scope.empty.Plain := nofun
  exact hs.bindAll h

theorem Ty.Plain.item? {items : List Ty} (h : (Ty.tuple items).Plain)
    (hi : Ty.item? items index = some item) : item.Plain :=
  TyClass.item? (k := .plain) h hi

theorem Ty.Plain.element? {ty : Ty} (h : ty.Plain) (he : ty.element? = some item) : item.Plain :=
  TyClass.element? (k := .plain) h he

theorem Ty.Plain.curried? (h : ∀ ty ∈ chain, ty.Plain) (hc : Ty.curried? chain = some ty) :
    ty.Plain :=
  TyClass.curried? (k := .plain) h hc

def PlainHint (hint : Option Ty) : Prop := ∀ ty ∈ hint, ty.Plain

theorem PlainHint.none : PlainHint none := nofun

theorem PlainHint.some (h : ty.Plain) : PlainHint (some ty) := TyClass.HasHint.some (k := .plain) h

theorem tupleHints_plain (h : PlainHint hint) : ∀ ty ∈ tupleHints hint count, ty.Plain :=
  TyClass.HasHint.tupleHints (k := .plain) h

theorem listHint_plain (h : PlainHint hint) : PlainHint (listHint hint) :=
  TyClass.HasHint.listHint (k := .plain) h

-- ---------------------------------------------------------------------------
-- Parts of functions and calls
-- ---------------------------------------------------------------------------

namespace Direct

theorem returnTy_plain (h : ∀ a ∈ returns, a.ty.Plain) :
    Gives Ty.Plain (returnTy returns position) := by
  unfold returnTy
  split
  · next hc => exact .ok (.curried? (List.forall_mem_map.mpr h) hc)
  · exact .error

theorem paramTy_plain {params : List Param} (h : ∀ p ∈ params, p.type.ty.Plain) :
    (paramTy params).Plain := by
  match params with
  | [] => exact .tuple nofun nofun
  | [param] => exact h param List.mem_cons_self
  | first :: second :: more => exact .tuple (by simp) (List.forall_mem_map.mpr h)

theorem finished_func {body : Block} (hn : ∀ p ∈ params, p.name ≠ packName)
    (hp : ∀ p ∈ params, p.type.ty.Plain) (hr : ret.Plain) (hb : body.gathered.Finished) :
    (Expr.mk (.func params ret body) (.func (paramTy params) ret) position).gathered.Finished := by
  obtain ⟨stmts, returnsVoid, ty, place⟩ := body
  have hty : (Ty.func (paramTy params) ret).Plain := ⟨paramTy_plain hp, hr⟩
  match params with
  | [] => exact .func_none hr hb hty
  | [param] => exact .func (hn param List.mem_cons_self) (hp param List.mem_cons_self) hr hb hty
  | first :: second :: more =>
    have hitems : paramTy (first :: second :: more) =
        .tuple ((bindings (first :: second :: more)).map (·.2)) := by
      simp [paramTy, bindings]
    have hplain := paramTy_plain hp
    simp only [Expr.gathered, ExprKind.gathered, paramName, destructuring, hitems] at hty hplain ⊢
    exact .func_several (by simp [bindings]) (List.forall_mem_map.mpr hn) hplain hr hb hty

theorem length_gatheredAll (es : List Expr) : (Expr.gatheredAll es).length = es.length := by
  have h := congrArg List.length (gatheredAll_ty es)
  simpa using h

theorem Finished.ty_plain {e : Expr} (h : e.gathered.Finished) : e.ty.Plain := by
  have hp := h.plain
  rwa [gathered_ty, Expr.pack_ty] at hp

theorem Finished.blockTy_plain {b : Block} (h : b.gathered.Finished) : b.ty.Plain := by
  cases b
  exact h.plain

theorem AllFinished.tuple_plain (h : Typed.Expr.AllFinished (Expr.gatheredAll es))
    (hl : es.length ≠ 1) : (Ty.tuple (es.map (·.ty))).Plain := by
  refine .tuple (by simpa using hl) (List.forall_mem_map.mpr ?_)
  clear hl
  induction es with
  | nil => nofun
  | cons e es ih =>
    cases h with
    | cons he hs => exact List.forall_mem_cons.mpr ⟨Finished.ty_plain he, ih hs⟩

theorem finished_packArg (h : Typed.Expr.AllFinished (Expr.gatheredAll es)) (hl : es.length ≠ 1) :
    (packArg (Expr.gatheredAll es) position).Finished := by
  have hty := AllFinished.tuple_plain h hl
  have hmap : (Expr.gatheredAll es).map (·.ty) = es.map (·.ty) := by
    simp [gatheredAll_ty]
  rw [packArg_of_length_ne_one (by rwa [length_gatheredAll]), hmap]
  exact .tuple h hty

theorem valueTy_plain (h : Typed.Stmt.AllFinished (Stmt.gatheredAll ss)) :
    (valueTy returnsVoid ss).Plain := by
  unfold valueTy
  split
  · next e _ hl =>
    obtain ⟨init, rfl⟩ := List.getLast?_eq_some_iff.mp hl
    clear hl
    induction init with
    | nil =>
      cases h with
      | expr he => exact Finished.ty_plain he
    | cons s init ih =>
      cases s with
      | decl d =>
        cases h with
        | decl _ hs => exact ih hs
      | expr e =>
        cases h with
        | expr _ hs => exact ih hs
  · trivial

end Direct

-- ---------------------------------------------------------------------------
-- Trees that come from a source
-- ---------------------------------------------------------------------------

/-- What a node of a source tree has to be for its typed form to be finished. -/
structure Node.Clean (n : Node) : Prop where
  avoids : n.Avoids packName
  plain : ∀ a ∈ n.ascriptions, a.ty.Plain
  shaped : n.Shaped

theorem ne_packName_of_clean {n : Node} (h : n.Clean) (hm : name ∈ n.names) : name ≠ packName :=
  ne_packName_of_mem h.avoids hm

theorem requireBound_gives {d : Decl} :
    Gives (fun _ => ty.containsVoid = false) (d.requireBound ty) := by
  intro _ h
  simpa using ensure_eq_ok.mp h

theorem directScope_plain {d : Decl} (hd : d.Every Node.Clean) (hs : scope.Plain) :
    Gives Scope.Plain (d.directScope scope) := by
  obtain ⟨name, declared, value, position⟩ := d
  cases value with
  | func params returns body place =>
    obtain ⟨hp, hr⟩ := List.forall_mem_append.mp hd.2.1.plain
    refine (Direct.returnTy_plain hr).bind fun ret hret => .ok (hs.bind ⟨?_, hret⟩)
    exact Direct.paramTy_plain (List.forall_mem_map (f := Param.type).mp hp)
  | _ => exact .ok hs

abbrev Direct.Expr.Finishes (e : Direct.Expr) : Prop := e.gathered.Finished

abbrev Direct.Expr.AllFinish (es : List Direct.Expr) : Prop :=
  Typed.Expr.AllFinished (Direct.Expr.gatheredAll es)

/-- Whether the direct checker makes a finished expression of an expression in a scope,
with every hint that has no tuple of one item. -/
abbrev Expr.Finishing (scope : Scope) (e : Expr) : Prop :=
  ∀ {hint}, PlainHint hint → Gives Direct.Expr.Finishes (e.direct scope hint)

abbrev Block.Finishing (scope : Scope) (b : Block) : Prop :=
  ∀ {hint}, PlainHint hint → Gives (fun t => t.gathered.Finished) (b.direct scope hint)

-- ---------------------------------------------------------------------------
-- Forms of expressions
-- ---------------------------------------------------------------------------

theorem literal_finishes : (Expr.literal value position).Finishing scope := by
  intro hint _
  refine .ok (.literal ?_)
  cases value with
  | _ => trivial

theorem ident_finishes (hn : name ≠ packName) (hs : scope.Plain) :
    (Expr.ident name position).Finishing scope := by
  intro hint _
  unfold Expr.direct
  split
  · next ty hl => exact .ok (.ident hn (hs name ty hl))
  · exact .error

theorem nil_finishes : (Expr.list [] position).Finishing scope := by
  intro hint hh
  unfold Expr.direct
  split
  · exact .ok (.list .nil (hh _ rfl))
  · exact .error
  · exact .error

theorem directSame_cons_finish (he : e.Finishing scope)
    (hs : Gives Direct.Expr.AllFinish (Expr.directSame es scope item)) (hi : item.Plain) :
    Gives Direct.Expr.AllFinish (Expr.directSame (e :: es) scope item) := by
  unfold Expr.directSame
  refine (he (.some hi)).bind fun _ h => ?_
  refine .after fun _ => ?_
  exact hs.bind fun _ hs => .ok (.cons h hs)

theorem headed_finishes {first : Expr} (hf : first.Finishing scope)
    (hr : ∀ {item}, item.Plain → Gives Direct.Expr.AllFinish (Expr.directSame rest scope item))
    (hh : PlainHint hint) :
    Gives Direct.Expr.Finishes (do
      let head ← first.direct scope hint
      let tail ← Expr.directSame rest scope head.ty
      return (⟨.list (head :: tail), .list head.ty, position⟩ : Direct.Expr)) := by
  refine (hf hh).bind fun _ hf => ?_
  have hty := Direct.Finished.ty_plain hf
  exact (hr hty).bind fun _ hr => .ok (.list (.cons hf hr) hty)

theorem list_finishes (hf : first.Finishing scope)
    (ha : Gives PlainHint (Expr.directAnchor rest scope))
    (hr : ∀ {item}, item.Plain → Gives Direct.Expr.AllFinish (Expr.directSame rest scope item)) :
    (Expr.list (first :: rest) position).Finishing scope := by
  intro hint hh
  simp only [Expr.direct]
  split
  · refine ha.bind fun anchor ha => ?_
    cases anchor with
    | some item =>
      have hty : item.Plain := ha item rfl
      exact (directSame_cons_finish hf (hr hty) hty).bind fun _ h => .ok (.list h hty)
    | none => exact headed_finishes hf hr (listHint_plain hh)
  · exact headed_finishes hf hr (listHint_plain hh)

theorem func_finishes (hn : ∀ p ∈ params, p.name ≠ packName)
    (hp : ∀ p ∈ params, p.type.ty.Plain) (hr : ∀ a ∈ returns, a.ty.Plain) (hs : scope.Plain)
    (hb : ∀ {scope}, scope.Plain → body.Finishing scope) :
    (Expr.func params returns body position).Finishing scope := by
  intro hint _
  unfold Expr.direct
  refine (Direct.returnTy_plain hr).bind fun ret hret => ?_
  have hs' : (scope.push.bindAll (Direct.bindings params)).Plain :=
    hs.push.bindAll (List.forall_mem_map.mpr hp)
  refine (hb hs' (.some hret)).bind fun _ hb => ?_
  exact .after fun _ => .ok (Direct.finished_func hn hp hret hb)

theorem call_finishes (hc : callee.Finishing scope) (ha : arg.Finishing scope) :
    (Expr.call callee [arg] argsPosition position).Finishing scope := by
  intro hint _
  unfold Expr.direct
  refine (hc .none).bind fun f hf => ?_
  have hty := Direct.Finished.ty_plain hf
  split
  · next param ret hf' =>
    rw [hf'] at hty
    refine (ha (.some hty.1)).bind fun _ h => ?_
    exact .after fun _ => .ok (.call hf h hty.2)
  · exact .error

theorem tupleCall_finishes (h : args.length ≠ 1) (hc : callee.Finishing scope)
    (hi : ∀ {hints}, (∀ ty ∈ hints, ty.Plain) →
      Gives (fun ts => Direct.Expr.AllFinish ts ∧ ts.length = args.length)
        (Expr.directItems args scope hints)) :
    (Expr.call callee args argsPosition position).Finishing scope := by
  intro hint _
  rw [direct_call_of_length_ne_one h]
  refine (hc .none).bind fun f hf => ?_
  have hty := Direct.Finished.ty_plain hf
  split
  · next param ret hf' =>
    rw [hf'] at hty
    have hh : PlainHint (some param) := .some hty.1
    refine (hi (tupleHints_plain hh)).bind fun _ hd => .after fun _ => .ok ?_
    exact .call hf (Direct.finished_packArg hd.1 (by rwa [hd.2])) hty.2
  · exact .error

theorem index_finishes (ht : target.Finishing scope) (hi : index.Finishing scope) :
    (Expr.index target index position).Finishing scope := by
  intro hint _
  unfold Expr.direct
  refine (ht .none).bind fun t ht => ?_
  have hty := Direct.Finished.ty_plain ht
  split
  · next items hitems =>
    rw [hitems] at hty
    split
    · split
      · next item hi => exact .ok (.index ht (.literal trivial) (hty.item? hi))
      · exact .error
    · exact .error
  · split
    · next item he =>
      refine (hi .none).bind fun _ h => ?_
      exact .after fun _ => .ok (.index ht h (hty.element? he))
    · exact .error

theorem cond_finishes (ht : test.Finishing scope) (hy : thenBlock.Finishing scope)
    (hn : elseBlock.Finishing scope) :
    (Expr.cond test thenBlock elseBlock position).Finishing scope := by
  intro hint hh
  have hbool : Ty.bool.Plain := trivial
  simp only [Expr.direct, pure_bind]
  refine (ht (.some hbool)).bind fun _ hc => ?_
  refine .after fun _ => ?_
  split
  · refine (hn .none).bind fun _ hn => ?_
    refine (hy (.some (Direct.Finished.blockTy_plain hn))).bind fun _ hy => ?_
    exact .after fun _ => .ok (.cond hc hy hn (Direct.Finished.blockTy_plain hy))
  · refine (hy hh).bind fun _ hy => ?_
    have hyes := Direct.Finished.blockTy_plain hy
    refine (hn (.some hyes)).bind fun _ hn => ?_
    exact .after fun _ => .ok (.cond hc hy hn hyes)

theorem loop_finishes (hn : binder ≠ packName) (hs : scope.Plain)
    (hi : iterable.Finishing scope) (hb : ∀ {scope}, scope.Plain → body.Finishing scope) :
    (Expr.loop binder iterable body position).Finishing scope := by
  intro hint hh
  unfold Expr.direct
  refine (hi .none).bind fun items hi => ?_
  have hty := Direct.Finished.ty_plain hi
  split
  · next item hitem =>
    rw [hitem] at hty
    have hs' : (scope.push.bind binder item).Plain := hs.push.bind hty
    refine (hb hs' (listHint_plain hh)).bind fun _ hb => .ok ?_
    exact .loop hn hi hb (Direct.Finished.blockTy_plain hb)
  · exact .error

theorem OpClass.result_plain {c : OpClass} (h : ty.Plain) : (c.result ty).Plain := by
  unfold OpClass.result
  split
  · exact h
  all_goals trivial

theorem binary_finishes (hl : left.Finishing scope) (hr : right.Finishing scope) :
    (Expr.binary op left right position).Finishing scope := by
  intro hint _
  simp only [Expr.direct, pure_bind]
  split
  · refine (hr .none).bind fun _ hr => ?_
    refine (hl (.some (Direct.Finished.ty_plain hr))).bind fun _ hl => ?_
    have hty := Direct.Finished.ty_plain hl
    exact .after fun _ => .after fun _ => .ok (.binary hl hr (OpClass.result_plain hty))
  · refine (hl .none).bind fun _ hl => ?_
    have hty := Direct.Finished.ty_plain hl
    refine .after fun _ => ?_
    refine (hr (.some hty)).bind fun _ hr => ?_
    exact .after fun _ => .ok (.binary hl hr (OpClass.result_plain hty))

-- ---------------------------------------------------------------------------
-- The direct checker
-- ---------------------------------------------------------------------------

mutual
/-- What the direct checker makes of a clean tree is finished once it is gathered. -/
theorem direct_finishes : (e : Expr) → e.Every Node.Clean → scope.Plain → PlainHint hint →
    Gives Direct.Expr.Finishes (e.direct scope hint)
  | .literal value position, _, _, hh => literal_finishes hh
  | .ident name position, he, hs, hh =>
    ident_finishes (ne_packName_of_clean he List.mem_cons_self) hs hh
  | .tuple items position, he, hs, hh => by
    unfold Expr.direct
    refine (directItems_finish items he.2 hs (tupleHints_plain hh)).bind fun typed ht => ?_
    have hl : 2 ≤ items.length := he.1.shaped
    exact .ok (.tuple ht.1 (Direct.AllFinished.tuple_plain ht.1 (by omega)))
  | .list [] position, _, _, hh => nil_finishes hh
  | .list (first :: rest) position, he, hs, hh =>
    list_finishes (direct_finishes first he.2.1 hs) (directAnchor_plain rest he.2.2 hs)
      (directSame_finish rest he.2.2 hs) hh
  | .func params returns body position, he, hs, hh => by
    obtain ⟨hp, hr⟩ := List.forall_mem_append.mp he.1.plain
    refine func_finishes ?_ ?_ hr hs (fun hs => blockDirect_finishes body he.2 hs) hh
    · exact fun p hm => ne_packName_of_clean he.1 (List.mem_map_of_mem hm)
    · exact List.forall_mem_map (f := Param.type).mp hp
  | .call callee [arg] argsPosition position, he, hs, hh =>
    call_finishes (direct_finishes callee he.2.1 hs) (direct_finishes arg he.2.2.1 hs) hh
  | .call callee [] argsPosition position, he, hs, hh =>
    tupleCall_finishes (by simp) (direct_finishes callee he.2.1 hs)
      (directItems_finish [] he.2.2 hs) hh
  | .call callee (first :: second :: more) argsPosition position, he, hs, hh =>
    tupleCall_finishes (by simp) (direct_finishes callee he.2.1 hs)
      (directItems_finish (first :: second :: more) he.2.2 hs) hh
  | .block body, he, hs, hh => by
    unfold Expr.direct
    refine (blockDirect_finishes body he.2 hs hh).bind ?_
    exact fun _ h => .ok (.block h (Direct.Finished.blockTy_plain h))
  | .index target index position, he, hs, hh =>
    index_finishes (direct_finishes target he.2.1 hs) (direct_finishes index he.2.2 hs) hh
  | .cond test thenBlock elseBlock position, he, hs, hh =>
    cond_finishes (direct_finishes test he.2.1 hs) (blockDirect_finishes thenBlock he.2.2.1 hs)
      (blockDirect_finishes elseBlock he.2.2.2 hs) hh
  | .loop binder iterable body position, he, hs, hh =>
    loop_finishes (ne_packName_of_clean he.1 List.mem_cons_self) hs
      (direct_finishes iterable he.2.1 hs) (fun hs => blockDirect_finishes body he.2.2 hs) hh
  | .unary op operand position, he, hs, _ => by
    unfold Expr.direct
    refine (direct_finishes operand he.2 hs .none).bind fun _ ho => ?_
    exact .after fun _ => .ok (.unary ho (Direct.Finished.ty_plain ho))
  | .binary op left right position, he, hs, hh =>
    binary_finishes (direct_finishes left he.2.1 hs) (direct_finishes right he.2.2 hs) hh
termination_by structural e => e

theorem directItems_finish : (es : List Expr) → Expr.EveryItem Node.Clean es → scope.Plain →
    (∀ ty ∈ hints, ty.Plain) →
    Gives (fun ts => Direct.Expr.AllFinish ts ∧ ts.length = es.length)
      (Expr.directItems es scope hints)
  | [], _, _, _ => .ok ⟨.nil, rfl⟩
  | e :: es, he, hs, hh => by
    unfold Expr.directItems
    refine (direct_finishes e he.1 hs fun ty hm => hh ty (List.mem_of_head? hm)).bind fun _ h => ?_
    refine (directItems_finish es he.2 hs fun ty hm => hh ty (List.mem_of_mem_tail hm)).bind ?_
    exact fun _ hs => .ok ⟨.cons h hs.1, by simp [hs.2]⟩

theorem directSame_finish : (es : List Expr) → Expr.EveryItem Node.Clean es → scope.Plain →
    item.Plain → Gives Direct.Expr.AllFinish (Expr.directSame es scope item)
  | [], _, _, _ => .ok .nil
  | e :: es, he, hs, hi =>
    directSame_cons_finish (direct_finishes e he.1 hs) (directSame_finish es he.2 hs hi) hi

theorem directAnchor_plain : (es : List Expr) → Expr.EveryItem Node.Clean es → scope.Plain →
    Gives PlainHint (Expr.directAnchor es scope)
  | [], _, _ => .ok .none
  | e :: es, he, hs => by
    unfold Expr.directAnchor
    split
    · exact directAnchor_plain es he.2 hs
    · refine (direct_finishes e he.1 hs .none).bind fun _ h => ?_
      exact .ok (.some (Direct.Finished.ty_plain h))

theorem declDirect_finishes : (d : Decl) → d.Every Node.Clean → scope.Plain →
    Gives (fun r => r.1.gathered.Finished ∧ r.2.Plain) (d.direct scope)
  | ⟨name, declared, value, position⟩, hd, hs => by
    have hn : name ≠ packName := ne_packName_of_clean hd.1 List.mem_cons_self
    unfold Decl.direct
    refine (directScope_plain hd hs).bind fun inner hi => ?_
    cases declared with
    | some written =>
      have hw : written.ty.Plain := hd.1.plain written List.mem_cons_self
      refine requireBound_gives.bind fun _ hv => ?_
      refine (direct_finishes value hd.2 hi (.some hw)).bind fun _ h => ?_
      exact .after fun _ => .ok ⟨.mk hn hv hw h, hi.bind hw⟩
    | none =>
      refine (direct_finishes value hd.2 hi .none).bind fun _ h => ?_
      have hty := Direct.Finished.ty_plain h
      exact requireBound_gives.bind fun _ hv => .ok ⟨.mk hn hv hty h, hi.bind hty⟩

theorem directAll_finish : (ss : List Stmt) → Stmt.EveryStmt Node.Clean ss → scope.Plain →
    PlainHint hint →
    Gives (fun ts => Typed.Stmt.AllFinished (Direct.Stmt.gatheredAll ts))
      (Stmt.directAll ss scope hint)
  | [], _, _, _ => .ok .nil
  | .decl d :: ss, hss, hs, hh => by
    simp only [Stmt.directAll, Stmt.direct, bind_assoc, pure_bind]
    refine (declDirect_finishes d hss.1 hs).bind fun _ hd => ?_
    exact (directAll_finish ss hss.2 hd.2 hh).bind fun _ h => .ok (.decl hd.1 h)
  | .expr e :: ss, hss, hs, hh => by
    have hh' : PlainHint (if ss.isEmpty then hint else none) := by
      split
      · exact hh
      · exact .none
    simp only [Stmt.directAll, Stmt.direct, bind_assoc, pure_bind]
    refine (direct_finishes e hss.1 hs hh').bind fun _ he => ?_
    exact (directAll_finish ss hss.2 hs hh).bind fun _ h => .ok (.expr he h)

theorem blockDirect_finishes : (b : Block) → b.Every Node.Clean → scope.Plain →
    PlainHint hint → Gives (fun t => t.gathered.Finished) (b.direct scope hint)
  | ⟨stmts, returnsVoid, position⟩, hb, hs, hh => by
    have hh' : PlainHint (if returnsVoid then none else hint) := by
      split
      · exact .none
      · exact hh
    unfold Block.direct
    refine (directAll_finish stmts hb.2 hs.push hh').bind fun _ h => .ok ?_
    exact .mk h (Direct.valueTy_plain h)
end

theorem declsDirect_finish (h : ∀ d ∈ ds, Decl.Every Node.Clean d) (hs : scope.Plain) :
    Gives (fun us => ∀ u ∈ us, u.gathered.Finished) (Decl.directAll ds scope) := by
  induction ds generalizing scope with
  | nil => exact .ok nofun
  | cons d ds ih =>
    obtain ⟨hd, h⟩ := List.forall_mem_cons.mp h
    unfold Decl.directAll
    refine (declDirect_finishes d hd hs).bind fun _ hf => ?_
    exact (ih h hf.2).bind fun _ hfs => .ok (List.forall_mem_cons.mpr ⟨hf.1, hfs⟩)

theorem moduleDirect_finishes {m : Module} (h : m.Every Node.Clean) (hs : scope.Plain) :
    Gives (fun d => d.gathered.Finished) (m.direct scope) := by
  unfold Module.direct
  exact (declsDirect_finish h hs.push).bind fun _ hf => .ok (List.forall_mem_map.mpr hf)

-- ---------------------------------------------------------------------------
-- The front end
-- ---------------------------------------------------------------------------

theorem parse_clean (ht : SourceTokens tokens) (h : parse tokens = .ok m) : m.Every Node.Clean :=
  (parse_from ht h).imp fun _ hn =>
    ⟨hn.avoids_packName ht, fun a ha => (hn.ascriptions a ha).plain, hn.shaped⟩

/-- What the front end makes of a source is finished, if the names it may use
from outside have types without a tuple of one item. -/
theorem compile_finished (hs : scope.Plain) (h : compile source scope = .ok m) : m.Finished := by
  obtain ⟨tokens, hl, h⟩ := bind_eq_ok.mp h
  obtain ⟨parsed, hp, h⟩ := bind_eq_ok.mp h
  obtain ⟨typed, hi, hg⟩ := bind_eq_ok.mp h
  have ht := tokenize_tokens hl
  obtain ⟨d, hd, -, hg'⟩ := gather_of_infer (parse_avoids ht hp) hi
  cases hg.symm.trans hg'
  exact moduleDirect_finishes (parse_clean ht hp) hs d hd

/-- A function without parameters, and one with several of which one is void. -/
def functions : String := "let f = fn () int { 1 }; let g = fn (a void, b int) int { b };"

theorem functions_finished :
    Scope.prelude.Plain ∧ ∃ m, compile functions .prelude = .ok m ∧ m.Finished := by
  have hs : Scope.prelude.Plain := .ofBindings (by simp [Ty.Plain])
  obtain ⟨m, hm⟩ := isOk_iff.mp (by decide +kernel : (compile functions .prelude).isOk = true)
  exact ⟨hs, m, hm, compile_finished hs hm⟩

end LetLang
