import LetLang.Proofs.Direct.Names
import LetLang.Proofs.Outcome
import LetLang.Typed.Gathering

/-!
# Gathering what was packed

Packing puts the declarations that unpack the parameters at the start of a body,
in order and all of them, and gathering finds just these. So gathering never
fails on the packed form of a directly checked tree that avoids the name of the
pack, and `gathered` says what it makes of it.
-/

namespace LetLang.Direct

/-- The statement that takes all parameters from the pack, if there are several. -/
def destructuring : List Param → List Typed.Stmt
  | [] | [_] => []
  | first :: params =>
    [.destructure ⟨⟨.ident packName, paramTy (first :: params), first.position⟩,
      bindings (first :: params), first.position⟩]

mutual
/-- A typed expression as it is after packing and gathering. -/
def Expr.gathered : Expr → Typed.Expr
  | ⟨kind, ty, position⟩ => ⟨kind.gathered, ty, position⟩
def ExprKind.gathered : ExprKind → Typed.ExprKind
  | .literal value => .literal value
  | .ident name => .ident name
  | .tuple items => .tuple (Expr.gatheredAll items)
  | .list items => .list (Expr.gatheredAll items)
  | .func params ret body =>
    .func (paramName params) (paramTy params) ret
      { body.gathered with stmts := destructuring params ++ body.gathered.stmts }
  | .call callee args argsPosition =>
    .call callee.gathered (packArg (Expr.gatheredAll args) argsPosition)
  | .block body => .block body.gathered
  | .index target index => .index target.gathered index.gathered
  | .cond test thenBlock elseBlock => .cond test.gathered thenBlock.gathered elseBlock.gathered
  | .loop binder iterable body => .loop binder iterable.gathered body.gathered
  | .unary op operand => .unary op operand.gathered
  | .binary op left right => .binary op left.gathered right.gathered
def Expr.gatheredAll : List Expr → List Typed.Expr
  | [] => []
  | e :: es => e.gathered :: Expr.gatheredAll es
def Decl.gathered : Decl → Typed.Decl
  | ⟨name, _, ty, value, position⟩ => ⟨name, none, ty, value.gathered, position⟩
def Stmt.gathered : Stmt → Typed.Stmt
  | .decl d => .decl d.gathered
  | .expr e => .expr e.gathered
def Stmt.gatheredAll : List Stmt → List Typed.Stmt
  | [] => []
  | s :: ss => s.gathered :: Stmt.gatheredAll ss
def Block.gathered : Block → Typed.Block
  | ⟨stmts, returnsVoid, ty, position⟩ => ⟨Stmt.gatheredAll stmts, returnsVoid, ty, position⟩
end

def Module.gathered (m : Module) : Typed.Module := ⟨m.decls.map Decl.gathered⟩

-- ---------------------------------------------------------------------------
-- The run of declarations
-- ---------------------------------------------------------------------------

def taking (packed : Ty) (param : Param) (place : Nat) : Typed.Unpacking :=
  ⟨param.name, param.type.ty, ⟨.ident packName, packed, param.position⟩, place, param.position⟩

def takingAll (packed : Ty) (place : Nat) : List Param → List Typed.Unpacking
  | [] => []
  | param :: params => taking packed param place :: takingAll packed (place + 1) params

def bareAll (packed : Ty) (place : Nat) : List Param → List Typed.Stmt
  | [] => []
  | param :: params =>
    .decl ⟨param.name, none, param.type.ty,
      ⟨.index ⟨.ident packName, packed, param.position⟩
        ⟨.literal (.int place), .int, param.position⟩, param.type.ty, param.position⟩,
      param.position⟩ :: bareAll packed (place + 1) params

theorem gatherAll_append (before after : List Typed.Stmt) :
    Typed.Stmt.gatherAll (before ++ after) = (do
      return (← Typed.Stmt.gatherAll before) ++ (← Typed.Stmt.gatherAll after)) := by
  induction before with
  | nil => simp [Typed.Stmt.gatherAll, ok_bind]
  | cons s ss ih => simp [Typed.Stmt.gatherAll, ih]

theorem gatherAll_unpackAll (packed : Ty) (place : Nat) (params : List Param) :
    Typed.Stmt.gatherAll (unpackAll packed place params) = .ok (bareAll packed place params) := by
  induction params generalizing place with
  | nil => rfl
  | cons param params ih =>
    simp only [unpackAll, Typed.Stmt.gatherAll, ih]
    rfl

theorem splitUnpackings_bareAll (packed : Ty) (place : Nat) (params : List Param)
    (h : Typed.splitUnpackings rest = ([], rest)) :
    Typed.splitUnpackings (bareAll packed place params ++ rest) =
      (takingAll packed place params, rest) := by
  induction params generalizing place with
  | nil => exact h
  | cons param params ih =>
    simp only [bareAll, List.cons_append, Typed.splitUnpackings, ih]
    simp [Typed.Stmt.unpacking?, takingAll, taking]

theorem checkPlaces_takingAll (packed : Ty) (place : Nat) (params : List Param) :
    Typed.checkPlaces place (takingAll packed place params) = .ok () := by
  induction params generalizing place with
  | nil => rfl
  | cons param params ih => simp [takingAll, taking, Typed.checkPlaces, ih]

theorem map_takingAll (packed : Ty) (place : Nat) (params : List Param) :
    (takingAll packed place params).map (fun u => (u.name, u.ty)) = bindings params := by
  induction params generalizing place with
  | nil => rfl
  | cons param params ih => exact congrArg _ (ih (place + 1))

theorem length_takingAll (packed : Ty) (place : Nat) (params : List Param) :
    (takingAll packed place params).length = params.length := by
  have h := congrArg List.length (map_takingAll packed place params)
  simpa [bindings] using h

theorem gatherRun_taking (first second : Param) (more : List Param) :
    Typed.gatherRun (taking (paramTy (first :: second :: more)) first 0)
        (takingAll (paramTy (first :: second :: more)) 1 (second :: more)) =
      .ok ⟨⟨.ident packName, paramTy (first :: second :: more), first.position⟩,
        bindings (first :: second :: more), first.position⟩ := by
  have hrun : taking (paramTy (first :: second :: more)) first 0 ::
      takingAll (paramTy (first :: second :: more)) 1 (second :: more) =
        takingAll (paramTy (first :: second :: more)) 0 (first :: second :: more) := rfl
  have hitems : Typed.hasItems (paramTy (first :: second :: more))
      (first :: second :: more).length = true := by
    simp [Typed.hasItems, paramTy]
  simp only [Typed.gatherRun, hrun, checkPlaces_takingAll, map_takingAll, length_takingAll,
    ok_bind]
  simp only [taking, hitems]
  rfl

/-- Gathering at the start of a body takes the declarations that unpack the
parameters, if no other declaration follows that takes from the pack. -/
theorem gatherPrologue_bareAll (first second : Param) (more : List Param)
    (h : Typed.splitUnpackings rest = ([], rest)) :
    Typed.Block.gatherPrologue
        ⟨bareAll (paramTy (first :: second :: more)) 0 (first :: second :: more) ++ rest,
          returnsVoid, ty, position⟩ =
      .ok ⟨destructuring (first :: second :: more) ++ rest, returnsVoid, ty, position⟩ := by
  have hrun : takingAll (paramTy (first :: second :: more)) 0 (first :: second :: more) =
      taking (paramTy (first :: second :: more)) first 0 ::
        takingAll (paramTy (first :: second :: more)) 1 (second :: more) := rfl
  simp only [Typed.Block.gatherPrologue, splitUnpackings_bareAll _ _ _ h, hrun,
    gatherRun_taking first second more, ok_bind]
  rfl

/-- A packed function is gathered to one that starts with the statement that takes
its parameters. -/
theorem funcGather_pack (hp : ∀ param ∈ params, param.name ≠ packName)
    (hs : Typed.Stmt.gatherAll before = .ok after)
    (h : Typed.splitUnpackings after = ([], after)) :
    Typed.ExprKind.gather (.func (paramName params) (paramTy params) ret
        ⟨unpacking params ++ before, returnsVoid, ty, position⟩) =
      .ok (.func (paramName params) (paramTy params) ret
        ⟨destructuring params ++ after, returnsVoid, ty, position⟩) := by
  match params with
  | [] =>
    simp only [Typed.ExprKind.gather, Typed.Block.gather, unpacking, unpackAll, List.nil_append, hs,
      ok_bind, pure_bind, paramName, if_true, Typed.Block.gatherPrologue, h]
    rfl
  | [param] =>
    simp only [Typed.ExprKind.gather, Typed.Block.gather, unpacking, List.nil_append, hs, ok_bind,
      pure_bind, paramName, hp param List.mem_cons_self, if_false]
    rfl
  | first :: second :: more =>
    simp only [Typed.ExprKind.gather, Typed.Block.gather, unpacking, gatherAll_append,
      gatherAll_unpackAll, hs, ok_bind, pure_bind, paramName, if_true,
      gatherPrologue_bareAll first second more h]
    rfl

-- ---------------------------------------------------------------------------
-- Statements that take nothing from the pack
-- ---------------------------------------------------------------------------

theorem unpacking?_gathered {s : Stmt} (h : s.Avoids packName) : s.gathered.unpacking? = none := by
  cases s with
  | expr e => rfl
  | decl d =>
    obtain ⟨name, declared, ty, ⟨kind, valueTy, valuePosition⟩, position⟩ := d
    cases kind with
    | index target index =>
      obtain ⟨target, targetTy, targetPosition⟩ := target
      cases target with
      | ident other =>
        have hne : other ≠ packName := h.2.1
        simp only [Stmt.gathered, Decl.gathered, Expr.gathered, ExprKind.gathered,
          Typed.Stmt.unpacking?]
        split
        · next heq _ =>
          cases heq
          exact if_neg hne
        · rfl
      | _ => rfl
    | _ => rfl

theorem splitUnpackings_gathered {ss : List Stmt} (h : Stmt.AllAvoid packName ss) :
    Typed.splitUnpackings (Stmt.gatheredAll ss) = ([], Stmt.gatheredAll ss) := by
  cases ss with
  | nil => rfl
  | cons s ss => simp only [Stmt.gatheredAll, Typed.splitUnpackings, unpacking?_gathered h.1]

-- ---------------------------------------------------------------------------
-- Trees
-- ---------------------------------------------------------------------------

theorem gathered_ty (e : Expr) : e.gathered.ty = e.pack.ty := by
  cases e
  rfl

theorem gatheredAll_ty (es : List Expr) :
    (Expr.gatheredAll es).map (·.ty) = (Expr.packAll es).map (·.ty) := by
  induction es with
  | nil => rfl
  | cons e es ih => simp only [Expr.gatheredAll, Expr.packAll, List.map_cons, gathered_ty, ih]

mutual
theorem gather_pack : (e : Expr) → e.Avoids packName → e.pack.gather = .ok e.gathered
  | ⟨kind, ty, position⟩, h => by
    simp only [Expr.pack, Typed.Expr.gather, kindGather_pack kind h, ok_bind]
    rfl
theorem kindGather_pack : (kind : ExprKind) → kind.Avoids packName →
    kind.pack.gather = .ok kind.gathered
  | .literal _, _ | .ident _, _ => rfl
  | .tuple items, h | .list items, h => by
    simp only [ExprKind.pack, Typed.ExprKind.gather, itemsGather_pack items h, ok_bind]
    rfl
  | .func params ret ⟨stmts, returnsVoid, ty, position⟩, h =>
    funcGather_pack h.1 (stmtsGather_pack stmts h.2) (splitUnpackings_gathered h.2)
  | .call callee [arg] argsPosition, h => by
    simp only [ExprKind.pack, Expr.packAll, packArg, Typed.ExprKind.gather,
      gather_pack callee h.1, gather_pack arg h.2.1, ok_bind]
    rfl
  | .call callee [] argsPosition, h => by
    simp only [ExprKind.pack, Expr.packAll, packArg, Typed.ExprKind.gather,
      gather_pack callee h.1, ok_bind]
    rfl
  | .call callee (first :: second :: more) argsPosition, h => by
    have hargs := itemsGather_pack (first :: second :: more) h.2
    have hty := gatheredAll_ty (first :: second :: more)
    simp only [Expr.packAll, Expr.gatheredAll] at hargs hty
    simp only [ExprKind.pack, Expr.packAll, packArg, Typed.ExprKind.gather, Typed.Expr.gather,
      gather_pack callee h.1, hargs, ok_bind, pure_bind, ← hty]
    rfl
  | .block body, h => by
    simp only [ExprKind.pack, Typed.ExprKind.gather, blockGather_pack body h, ok_bind]
    rfl
  | .index target index, h => by
    simp only [ExprKind.pack, Typed.ExprKind.gather, gather_pack target h.1, gather_pack index h.2,
      ok_bind]
    rfl
  | .cond test thenBlock elseBlock, h => by
    simp only [ExprKind.pack, Typed.ExprKind.gather, gather_pack test h.1,
      blockGather_pack thenBlock h.2.1, blockGather_pack elseBlock h.2.2, ok_bind]
    rfl
  | .loop binder iterable body, h => by
    simp only [ExprKind.pack, Typed.ExprKind.gather, gather_pack iterable h.2.1,
      blockGather_pack body h.2.2, ok_bind]
    rfl
  | .unary op operand, h => by
    simp only [ExprKind.pack, Typed.ExprKind.gather, gather_pack operand h, ok_bind]
    rfl
  | .binary op left right, h => by
    simp only [ExprKind.pack, Typed.ExprKind.gather, gather_pack left h.1, gather_pack right h.2,
      ok_bind]
    rfl
theorem itemsGather_pack : (es : List Expr) → Expr.AllAvoid packName es →
    Typed.Expr.gatherAll (Expr.packAll es) = .ok (Expr.gatheredAll es)
  | [], _ => rfl
  | e :: es, h => by
    simp only [Expr.packAll, Typed.Expr.gatherAll, gather_pack e h.1, itemsGather_pack es h.2,
      ok_bind]
    rfl
theorem declGather_pack : (d : Decl) → d.Avoids packName → d.pack.gather = .ok d.gathered
  | ⟨name, declared, ty, value, position⟩, h => by
    simp only [Decl.pack, Typed.Decl.gather, gather_pack value h.2, ok_bind]
    rfl
theorem stmtsGather_pack : (ss : List Stmt) → Stmt.AllAvoid packName ss →
    Typed.Stmt.gatherAll (Stmt.packAll ss) = .ok (Stmt.gatheredAll ss)
  | [], _ => rfl
  | .decl d :: ss, h => by
    simp only [Stmt.packAll, Stmt.pack, Typed.Stmt.gatherAll, Typed.Stmt.gather,
      declGather_pack d h.1, stmtsGather_pack ss h.2, ok_bind, pure_bind]
    rfl
  | .expr e :: ss, h => by
    simp only [Stmt.packAll, Stmt.pack, Typed.Stmt.gatherAll, Typed.Stmt.gather,
      gather_pack e h.1, stmtsGather_pack ss h.2, ok_bind, pure_bind]
    rfl
theorem blockGather_pack : (b : Block) → b.Avoids packName → b.pack.gather = .ok b.gathered
  | ⟨stmts, returnsVoid, ty, position⟩, h => by
    simp only [Block.pack, Typed.Block.gather, stmtsGather_pack stmts h, ok_bind]
    rfl
end

/-- Gathering undoes packing, up to the one statement that takes the parameters. -/
theorem moduleGather_pack {m : Module} (h : m.Avoids packName) :
    m.pack.gather = .ok m.gathered := by
  obtain ⟨ds⟩ := m
  have hds : (ds.map Decl.pack).mapM Typed.Decl.gather = .ok (ds.map Decl.gathered) := by
    induction ds with
    | nil => rfl
    | cons d ds ih =>
      rw [List.map_cons, List.mapM_cons, declGather_pack d (h d List.mem_cons_self),
        ih fun d hm => h d (List.mem_cons_of_mem _ hm)]
      rfl
  simp only [Module.pack, Typed.Module.gather, hds, ok_bind]
  rfl

end LetLang.Direct
