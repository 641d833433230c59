import LetLang.Token.Basic
import LetLang.Typing.Infer

/-!
# Trees at other places

The same token, tree or diagnostic with every place in it moved by a function.
What a tree is asked about itself, apart from places, is the same for the moved
tree. A run on a moved tree follows the run on the tree: it gives what belongs to
the value of that run, or fails with the moved diagnostic.
-/

namespace LetLang

variable (f : Position → Position)

/-- The same token at another place. -/
def Token.moved (t : Token) : Token := { t with position := f t.position }

def Diagnostic.moved (d : Diagnostic) : Diagnostic := { d with position := f d.position }

-- ---------------------------------------------------------------------------
-- Syntax trees
-- ---------------------------------------------------------------------------

def Ascription.moved (a : Ascription) : Ascription := ⟨a.ty, f a.position⟩

def Param.moved (param : Param) : Param :=
  ⟨param.name, param.type.moved f, f param.position⟩

mutual
/-- The expression with every place in it moved. -/
def Expr.moved : Expr → Expr
  | .literal value position => .literal value (f position)
  | .ident name position => .ident name (f position)
  | .tuple items position => .tuple (Expr.allMoved items) (f position)
  | .list items position => .list (Expr.allMoved items) (f position)
  | .func params returns body position =>
    .func (params.map (·.moved f)) (returns.map (·.moved f)) body.moved (f position)
  | .call callee args argsPosition position =>
    .call callee.moved (Expr.allMoved args) (f argsPosition) (f position)
  | .block body => .block body.moved
  | .index target index position => .index target.moved index.moved (f position)
  | .cond test thenBlock elseBlock position =>
    .cond test.moved thenBlock.moved elseBlock.moved (f position)
  | .loop binder iterable body position => .loop binder iterable.moved body.moved (f position)
  | .unary operator operand position => .unary operator operand.moved (f position)
  | .binary operator left right position => .binary operator left.moved right.moved (f position)
def Expr.allMoved : List Expr → List Expr
  | [] => []
  | e :: es => e.moved :: Expr.allMoved es
def Decl.moved : Decl → Decl
  | ⟨name, declared, value, position⟩ =>
    ⟨name, declared.map (·.moved f), value.moved, f position⟩
def Stmt.moved : Stmt → Stmt
  | .decl d => .decl d.moved
  | .expr e => .expr e.moved
def Stmt.allMoved : List Stmt → List Stmt
  | [] => []
  | s :: ss => s.moved :: Stmt.allMoved ss
def Block.moved : Block → Block
  | ⟨stmts, returnsVoid, position⟩ => ⟨Stmt.allMoved stmts, returnsVoid, f position⟩
end

def Module.moved (m : Module) : Module := ⟨m.decls.map (·.moved f)⟩

theorem Expr.allMoved_eq_map (es : List Expr) : Expr.allMoved f es = es.map (·.moved f) := by
  induction es with
  | nil => rfl
  | cons e es ih => simp only [Expr.allMoved, List.map_cons, ih]

theorem Stmt.allMoved_eq_map (ss : List Stmt) : Stmt.allMoved f ss = ss.map (·.moved f) := by
  induction ss with
  | nil => rfl
  | cons s ss ih => simp only [Stmt.allMoved, List.map_cons, ih]

@[simp] theorem Block.position_moved (b : Block) : (b.moved f).position = f b.position := by
  cases b
  rfl

@[simp] theorem Expr.position_moved (e : Expr) : (e.moved f).position = f e.position := by
  cases e with
  | block body => exact body.position_moved f
  | _ => rfl

mutual
@[simp] theorem Expr.needsHint_moved : (e : Expr) → (e.moved f).needsHint = e.needsHint
  | .literal .. | .ident .. | .func .. | .call .. | .index .. | .unary .. | .binary .. => rfl
  | .tuple items _ => Expr.anyNeedsHint_moved items
  | .list items _ => Expr.allNeedHint_moved items
  | .block body => body.needsHint_moved
  | .cond _ thenBlock elseBlock _ => by
    simp only [Expr.moved, Expr.needsHint, thenBlock.needsHint_moved, elseBlock.needsHint_moved]
  | .loop _ _ body _ => body.needsHint_moved
theorem Expr.allNeedHint_moved : (es : List Expr) →
    Expr.allNeedHint (Expr.allMoved f es) = Expr.allNeedHint es
  | [] => rfl
  | e :: es => by
    simp only [Expr.allMoved, Expr.allNeedHint, e.needsHint_moved, Expr.allNeedHint_moved es]
theorem Expr.anyNeedsHint_moved : (es : List Expr) →
    Expr.anyNeedsHint (Expr.allMoved f es) = Expr.anyNeedsHint es
  | [] => rfl
  | e :: es => by
    simp only [Expr.allMoved, Expr.anyNeedsHint, e.needsHint_moved, Expr.anyNeedsHint_moved es]
@[simp] theorem Block.needsHint_moved : (b : Block) → (b.moved f).needsHint = b.needsHint
  | ⟨stmts, returnsVoid, _⟩ => by
    simp only [Block.moved, Block.needsHint, Stmt.lastNeedsHint_moved stmts]
theorem Stmt.lastNeedsHint_moved : (ss : List Stmt) →
    Stmt.lastNeedsHint (Stmt.allMoved f ss) = Stmt.lastNeedsHint ss
  | [] => rfl
  | [.decl _] => rfl
  | [.expr e] => e.needsHint_moved
  | _ :: next :: ss => Stmt.lastNeedsHint_moved (next :: ss)
end

theorem Block.trailing?_moved (b : Block) :
    (b.moved f).trailing? = b.trailing?.map (·.moved f) := by
  obtain ⟨stmts, returnsVoid, position⟩ := b
  simp only [Block.trailing?, Block.moved, Stmt.allMoved_eq_map, List.getLast?_map]
  cases returnsVoid with
  | true => rfl
  | false =>
    cases stmts.getLast? with
    | none => rfl
    | some s => cases s <;> rfl

@[simp] theorem Block.valuePosition_moved (b : Block) :
    (b.moved f).valuePosition = f b.valuePosition := by
  unfold Block.valuePosition
  rw [Block.trailing?_moved]
  cases b.trailing? with
  | none => exact b.position_moved f
  | some e => exact e.position_moved f

-- ---------------------------------------------------------------------------
-- Typed trees
-- ---------------------------------------------------------------------------

namespace Typed

mutual
/-- The typed expression with every place in it moved. -/
def Expr.moved : Expr → Expr
  | ⟨kind, ty, position⟩ => ⟨kind.moved, ty, f position⟩
def ExprKind.moved : ExprKind → ExprKind
  | .literal value => .literal value
  | .ident name => .ident name
  | .tuple items => .tuple (Expr.allMoved items)
  | .list items => .list (Expr.allMoved items)
  | .func param paramTy returnTy body => .func param paramTy returnTy body.moved
  | .call callee arg => .call callee.moved arg.moved
  | .block body => .block body.moved
  | .index target index => .index target.moved index.moved
  | .cond test thenBlock elseBlock => .cond test.moved thenBlock.moved elseBlock.moved
  | .loop binder iterable body => .loop binder iterable.moved body.moved
  | .unary operator operand => .unary operator operand.moved
  | .binary operator left right => .binary operator left.moved right.moved
def Expr.allMoved : List Expr → List Expr
  | [] => []
  | e :: es => e.moved :: Expr.allMoved es
def Decl.moved : Decl → Decl
  | ⟨name, declared, ty, value, position⟩ => ⟨name, declared, ty, value.moved, f position⟩
def Destructure.moved : Destructure → Destructure
  | ⟨source, bindings, position⟩ => ⟨source.moved, bindings, f position⟩
def Stmt.moved : Stmt → Stmt
  | .decl d => .decl d.moved
  | .expr e => .expr e.moved
  | .destructure d => .destructure d.moved
def Stmt.allMoved : List Stmt → List Stmt
  | [] => []
  | s :: ss => s.moved :: Stmt.allMoved ss
def Block.moved : Block → Block
  | ⟨stmts, returnsVoid, ty, position⟩ => ⟨Stmt.allMoved stmts, returnsVoid, ty, f position⟩
end

def Module.moved (m : Module) : Module := ⟨m.decls.map (·.moved f)⟩

theorem Stmt.allMoved_eq_map (ss : List Stmt) : Stmt.allMoved f ss = ss.map (·.moved f) := by
  induction ss with
  | nil => rfl
  | cons s ss ih => simp only [Stmt.allMoved, List.map_cons, ih]

@[simp] theorem Expr.ty_moved (e : Expr) : (e.moved f).ty = e.ty := by
  cases e
  rfl

@[simp] theorem Expr.position_moved (e : Expr) : (e.moved f).position = f e.position := by
  cases e
  rfl

theorem Expr.tys_moved (es : List Expr) : (Expr.allMoved f es).map (·.ty) = es.map (·.ty) := by
  induction es with
  | nil => rfl
  | cons e es ih => rw [Expr.allMoved, List.map_cons, List.map_cons, ih, e.ty_moved]

@[simp] theorem Block.ty_moved (b : Block) : (b.moved f).ty = b.ty := by
  cases b
  rfl

theorem valueTy_moved (returnsVoid : Bool) (stmts : List Stmt) :
    valueTy returnsVoid (stmts.map (·.moved f)) = valueTy returnsVoid stmts := by
  unfold valueTy
  rw [List.getLast?_map]
  cases returnsVoid with
  | true => rfl
  | false =>
    cases stmts.getLast? with
    | none => rfl
    | some s =>
      cases s with
      | expr e => exact e.ty_moved f
      | _ => rfl

end Typed

-- ---------------------------------------------------------------------------
-- Runs
-- ---------------------------------------------------------------------------

variable {f}

/-- Whether the second of two runs gives what belongs to the value of the first,
or fails with the moved diagnostic. -/
inductive Follows (f : Position → Position) (R : α → β → Prop) :
    Except Diagnostic α → Except Diagnostic β → Prop where
  | ok : R a b → Follows f R (.ok a) (.ok b)
  | error : Follows f R (.error d) (.error (d.moved f))

namespace Follows

theorem bind {x : Except Diagnostic α} {y : Except Diagnostic β}
    {g : α → Except Diagnostic γ} {h : β → Except Diagnostic δ} (hx : Follows f R x y)
    (hg : ∀ a b, R a b → Follows f S (g a) (h b)) : Follows f S (x >>= g) (y >>= h) := by
  cases hx with
  | ok hr => exact hg _ _ hr
  | error => exact .error

/-- The same condition holds in both runs, or both reject alike. -/
theorem ensure {x : Except Diagnostic α} {y : Except Diagnostic β}
    (h : condition = true → Follows f R x y) :
    Follows f R (ensure condition cause position >>= fun _ => x)
      (LetLang.ensure condition cause (f position) >>= fun _ => y) := by
  cases condition with
  | true => exact h rfl
  | false => exact .error

theorem eq_ok {x : Except Diagnostic α} {g : α → β} (h : Follows f (fun a b => b = g a) x y)
    (hx : x = .ok a) : y = .ok (g a) := by
  subst hx
  cases h with
  | ok hr => rw [hr]

theorem eq_error {x : Except Diagnostic α} {y : Except Diagnostic β} (h : Follows f R x y)
    (hx : x = .error d) : y = .error (d.moved f) := by
  subst hx
  cases h
  rfl

end Follows

abbrev FollowsExpr (f : Position → Position) :=
  Follows f fun (t u : Typed.Expr) => u = t.moved f

abbrev FollowsExprs (f : Position → Position) :=
  Follows f fun (ts us : List Typed.Expr) => us = Typed.Expr.allMoved f ts

abbrev FollowsStmts (f : Position → Position) :=
  Follows f fun (ts us : List Typed.Stmt) => us = Typed.Stmt.allMoved f ts

abbrev FollowsBlock (f : Position → Position) :=
  Follows f fun (t u : Typed.Block) => u = t.moved f

end LetLang
