import LetLang.Proofs.Moving.Trees

/-!
# Packing at other places

Packing gives the nodes that it makes the places of nodes that were written, so
it may as well come before a move as after it.
-/

namespace LetLang

variable (f : Position → Position)

theorem map_ty_moved (items : List Ascription) :
    (items.map (·.moved f)).map (·.ty) = items.map (·.ty) := by
  rw [List.map_map]
  rfl

theorem paramTys_moved (params : List Param) :
    (params.map (·.moved f)).map (·.type.ty) = params.map (·.type.ty) := by
  rw [List.map_map]
  rfl

theorem unpackAll_moved (place : Nat) (params : List Param) :
    unpackAll place (params.map (·.moved f)) = (unpackAll place params).map (·.moved f) := by
  induction params generalizing place with
  | nil => rfl
  | cons param params ih =>
    rw [List.map_cons, unpackAll, ih]
    rfl

theorem unpacking_moved (params : List Param) :
    unpacking (params.map (·.moved f)) = (unpacking params).map (·.moved f) := by
  match params with
  | [] | [_] => rfl
  | first :: second :: more => exact unpackAll_moved f 0 (first :: second :: more)

theorem packParams_moved (params : List Param) (position : Position) :
    packParams (params.map (·.moved f)) (f position) =
      (packParams params position).map (·.moved f) := by
  match params with
  | [] | [_] => rfl
  | first :: second :: more =>
    have h := paramTys_moved f (first :: second :: more)
    simp only [List.map_cons] at h ⊢
    simp only [packParams, List.map_cons, h]
    rfl

theorem packReturns_moved (returns : List Ascription) :
    packReturns (returns.map (·.moved f)) = (packReturns returns).map (·.moved f) := by
  unfold packReturns
  rw [map_ty_moved, List.head?_map]
  cases returns with
  | nil => rfl
  | cons first more =>
    cases Ty.curried? ((first :: more).map (·.ty)) with
    | none => rfl
    | some ty => rfl

theorem packArgs_moved (args : List Expr) (position : Position) :
    packArgs (Expr.allMoved f args) (f position) = Expr.allMoved f (packArgs args position) := by
  match args with
  | [] | [_] => rfl
  | _ :: _ :: _ => rfl

mutual
theorem Expr.pack_moved : (e : Expr) → (e.moved f).pack = e.pack.moved f
  | .literal .. | .ident .. => rfl
  | .tuple items _ => by
    simp only [Expr.moved, Expr.pack, Expr.packAll_moved items]
  | .list items _ => by
    simp only [Expr.moved, Expr.pack, Expr.packAll_moved items]
  | .func params returns body position => by
    simp only [Expr.moved, Expr.pack, packParams_moved, packReturns_moved, unpacking_moved,
      body.pack_moved]
    cases body
    simp [Block.pack, Block.moved, Stmt.allMoved_eq_map]
  | .call callee args argsPosition position => by
    simp only [Expr.moved, Expr.pack, callee.pack_moved, Expr.packAll_moved args, packArgs_moved]
  | .block body => by simp only [Expr.moved, Expr.pack, body.pack_moved]
  | .index target index _ => by
    simp only [Expr.moved, Expr.pack, target.pack_moved, index.pack_moved]
  | .cond test thenBlock elseBlock _ => by
    simp only [Expr.moved, Expr.pack, test.pack_moved, thenBlock.pack_moved, elseBlock.pack_moved]
  | .loop _ iterable body _ => by
    simp only [Expr.moved, Expr.pack, iterable.pack_moved, body.pack_moved]
  | .unary _ operand _ => by simp only [Expr.moved, Expr.pack, operand.pack_moved]
  | .binary _ left right _ => by
    simp only [Expr.moved, Expr.pack, left.pack_moved, right.pack_moved]
theorem Expr.packAll_moved : (es : List Expr) →
    Expr.packAll (Expr.allMoved f es) = Expr.allMoved f (Expr.packAll es)
  | [] => rfl
  | e :: es => by
    simp only [Expr.allMoved, Expr.packAll, e.pack_moved, Expr.packAll_moved es]
theorem Decl.pack_moved : (d : Decl) → (d.moved f).pack = d.pack.moved f
  | ⟨name, declared, value, position⟩ => by
    simp only [Decl.moved, Decl.pack, value.pack_moved]
theorem Stmt.pack_moved : (s : Stmt) → (s.moved f).pack = s.pack.moved f
  | .decl d => by simp only [Stmt.moved, Stmt.pack, d.pack_moved]
  | .expr e => by simp only [Stmt.moved, Stmt.pack, e.pack_moved]
theorem Stmt.packAll_moved : (ss : List Stmt) →
    Stmt.packAll (Stmt.allMoved f ss) = Stmt.allMoved f (Stmt.packAll ss)
  | [] => rfl
  | s :: ss => by
    simp only [Stmt.allMoved, Stmt.packAll, s.pack_moved, Stmt.packAll_moved ss]
theorem Block.pack_moved : (b : Block) → (b.moved f).pack = b.pack.moved f
  | ⟨stmts, returnsVoid, position⟩ => by
    simp only [Block.moved, Block.pack, Stmt.packAll_moved stmts]
end

end LetLang
