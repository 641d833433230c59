import LetLang.Scope
import LetLang.Syntax.Packing
import LetLang.Typed.Tree

/-!
# The typing rules

The rules of the language as statements about typed trees, with no mention of
how the checker finds the types. `ErasesTo` says that a typed tree is a packed
tree with types added, and `WellTyped` that each of its nodes obeys the rule of
its form, in the scope in which the node stands.

A typed node does not hold the places of written types, of parameters and of
the parenthesis that opens an argument, so erasing leaves these open.
-/

namespace LetLang

-- ---------------------------------------------------------------------------
-- Operators
-- ---------------------------------------------------------------------------

inductive UnaryOp.Takes : UnaryOp → Ty → Ty → Prop where
  | sign : op ∈ [.plus, .minus] → operand ∈ [.int, .float] → UnaryOp.Takes op operand operand
  | not : UnaryOp.Takes .not .bool .bool

inductive BinaryOp.Takes : BinaryOp → Ty → Ty → Prop where
  | equality : op ∈ [.equals, .notEquals] → BinaryOp.Takes op operand .bool
  | comparison : op ∈ [.less, .greater, .lessEquals, .greaterEquals] →
      operand ∈ [.int, .float, .bool, .char, .str] → BinaryOp.Takes op operand .bool
  | arithmetic : op ∈ [.add, .sub, .mul, .div, .mod, .bitOr, .bitAnd, .bitXor] →
      operand ∈ [.int, .float] → BinaryOp.Takes op operand operand
  | logical : op ∈ [.and, .or] → BinaryOp.Takes op .bool .bool

namespace Typed

-- ---------------------------------------------------------------------------
-- Erasure
-- ---------------------------------------------------------------------------

mutual
/-- Whether an expression is a packed expression with types added. -/
inductive Expr.ErasesTo : Expr → LetLang.Expr → Prop where
  | literal : Expr.ErasesTo ⟨.literal value, ty, position⟩ (.literal value position)
  | ident : Expr.ErasesTo ⟨.ident name, ty, position⟩ (.ident name position)
  | tuple : Expr.AllEraseTo typed items →
      Expr.ErasesTo ⟨.tuple typed, ty, position⟩ (.tuple items position)
  | list : Expr.AllEraseTo typed items →
      Expr.ErasesTo ⟨.list typed, ty, position⟩ (.list items position)
  | func : Block.ErasesTo typed body →
      Expr.ErasesTo ⟨.func param.name param.type.ty ret.ty typed, ty, position⟩
        (.func [param] [ret] body position)
  | call : Expr.ErasesTo f callee → Expr.ErasesTo a arg →
      Expr.ErasesTo ⟨.call f a, ty, position⟩ (.call callee [arg] argsPosition position)
  | block : Block.ErasesTo typed body →
      Expr.ErasesTo ⟨.block typed, ty, body.position⟩ (.block body)
  | index : Expr.ErasesTo t target → Expr.ErasesTo i index →
      Expr.ErasesTo ⟨.index t i, ty, position⟩ (.index target index position)
  | cond : Expr.ErasesTo c test → Block.ErasesTo yes thenBlock → Block.ErasesTo no elseBlock →
      Expr.ErasesTo ⟨.cond c yes no, ty, position⟩ (.cond test thenBlock elseBlock position)
  | loop : Expr.ErasesTo items iterable → Block.ErasesTo typed body →
      Expr.ErasesTo ⟨.loop binder items typed, ty, position⟩ (.loop binder iterable body position)
  | unary : Expr.ErasesTo typed operand →
      Expr.ErasesTo ⟨.unary op typed, ty, position⟩ (.unary op operand position)
  | binary : Expr.ErasesTo l left → Expr.ErasesTo r right →
      Expr.ErasesTo ⟨.binary op l r, ty, position⟩ (.binary op left right position)
inductive Expr.AllEraseTo : List Expr → List LetLang.Expr → Prop where
  | nil : Expr.AllEraseTo [] []
  | cons : Expr.ErasesTo t e → Expr.AllEraseTo ts es → Expr.AllEraseTo (t :: ts) (e :: es)
inductive Decl.ErasesTo : Decl → LetLang.Decl → Prop where
  | mk : Expr.ErasesTo typed value →
      Decl.ErasesTo ⟨name, declared.map (·.ty), ty, typed, position⟩
        ⟨name, declared, value, position⟩
inductive Stmt.AllEraseTo : List Stmt → List LetLang.Stmt → Prop where
  | nil : Stmt.AllEraseTo [] []
  | decl : Decl.ErasesTo t d → Stmt.AllEraseTo ts ss →
      Stmt.AllEraseTo (.decl t :: ts) (.decl d :: ss)
  | expr : Expr.ErasesTo t e → Stmt.AllEraseTo ts ss →
      Stmt.AllEraseTo (.expr t :: ts) (.expr e :: ss)
inductive Block.ErasesTo : Block → LetLang.Block → Prop where
  | mk : Stmt.AllEraseTo typed stmts →
      Block.ErasesTo ⟨typed, returnsVoid, ty, position⟩ ⟨stmts, returnsVoid, position⟩
end

def Module.ErasesTo (t : Module) (m : LetLang.Module) : Prop :=
  Stmt.AllEraseTo (t.decls.map .decl) (m.decls.map .decl)

-- ---------------------------------------------------------------------------
-- Rules
-- ---------------------------------------------------------------------------

def Decl.ReadsPack (d : Decl) : Prop :=
  ∃ pack index, d.value.kind = .index pack index ∧ pack.kind = .ident packName

def Decl.valueScope (d : Decl) (s : Scope) : Scope :=
  match d.value.kind with
  | .func .. => s.bind d.name d.value.ty
  | _ => s

mutual
/-- Whether every node of an expression obeys its rule in a scope. -/
inductive Expr.WellTyped : Scope → Expr → Prop where
  | literal_int : Expr.WellTyped s ⟨.literal (.int value), .int, position⟩
  | literal_float : Expr.WellTyped s ⟨.literal (.float value), .float, position⟩
  | literal_char : Expr.WellTyped s ⟨.literal (.char value), .char, position⟩
  | literal_str : Expr.WellTyped s ⟨.literal (.str value), .str, position⟩
  | literal_bool : Expr.WellTyped s ⟨.literal (.bool value), .bool, position⟩
  | ident : s.lookup name = some ty → Expr.WellTyped s ⟨.ident name, ty, position⟩
  | tuple : Expr.AllWellTyped s items →
      Expr.WellTyped s ⟨.tuple items, .tuple (items.map (·.ty)), position⟩
  | list : Expr.AllWellTyped s items → (∀ e ∈ items, e.ty = item) →
      Expr.WellTyped s ⟨.list items, .list item, position⟩
  | func : Block.WellTyped (s.push.bind param paramTy) body → body.ty = ret →
      Expr.WellTyped s ⟨.func param paramTy ret body, .func paramTy ret, position⟩
  | call : Expr.WellTyped s callee → Expr.WellTyped s arg → callee.ty = .func param ret →
      arg.ty = param → Expr.WellTyped s ⟨.call callee arg, ret, position⟩
  | block : Block.WellTyped s body → Expr.WellTyped s ⟨.block body, body.ty, position⟩
  | index_tuple {place : Nat} : Expr.WellTyped s target → target.ty = .tuple items →
      items[place]? = some item →
      Expr.WellTyped s ⟨.index target ⟨.literal (.int place), .int, indexPosition⟩, item, position⟩
  | index_list : Expr.WellTyped s target → Expr.WellTyped s index → target.ty = .list item →
      index.ty = .int → Expr.WellTyped s ⟨.index target index, item, position⟩
  | index_str : Expr.WellTyped s target → Expr.WellTyped s index → target.ty = .str →
      index.ty = .int → Expr.WellTyped s ⟨.index target index, .char, position⟩
  | cond : Expr.WellTyped s test → test.ty = .bool → Block.WellTyped s yes →
      Block.WellTyped s no → yes.ty = ty → no.ty = ty →
      Expr.WellTyped s ⟨.cond test yes no, ty, position⟩
  | loop : Expr.WellTyped s iterable → iterable.ty = .list item →
      Block.WellTyped (s.push.bind binder item) body →
      Expr.WellTyped s ⟨.loop binder iterable body, .list body.ty, position⟩
  | unary : Expr.WellTyped s operand → op.Takes operand.ty ty →
      Expr.WellTyped s ⟨.unary op operand, ty, position⟩
  | binary : Expr.WellTyped s left → Expr.WellTyped s right → right.ty = left.ty →
      op.Takes left.ty ty → Expr.WellTyped s ⟨.binary op left right, ty, position⟩
inductive Expr.AllWellTyped : Scope → List Expr → Prop where
  | nil : Expr.AllWellTyped s []
  | cons : Expr.WellTyped s e → Expr.AllWellTyped s es → Expr.AllWellTyped s (e :: es)
/-- Whether a declaration obeys its rule in a scope. It binds the type of its
value, which is the type it is written with if there is one. -/
inductive Decl.WellTyped : Scope → Decl → Prop where
  | mk : Expr.WellTyped (d.valueScope s) d.value → d.value.ty = d.ty →
      (∀ written ∈ d.declared, written = d.ty) → (d.ty.containsVoid = false ∨ d.ReadsPack) →
      Decl.WellTyped s d
inductive Stmt.AllWellTyped : Scope → List Stmt → Prop where
  | nil : Stmt.AllWellTyped s []
  | decl : Decl.WellTyped s d → Stmt.AllWellTyped (s.bind d.name d.ty) rest →
      Stmt.AllWellTyped s (.decl d :: rest)
  | expr : Expr.WellTyped s e → Stmt.AllWellTyped s rest → Stmt.AllWellTyped s (.expr e :: rest)
/-- Whether a block obeys its rule in a scope: it has the type of the expression
at its end if it yields that, and is void otherwise. -/
inductive Block.WellTyped : Scope → Block → Prop where
  | value : Stmt.AllWellTyped s.push (stmts ++ [.expr last]) →
      Block.WellTyped s ⟨stmts ++ [.expr last], false, last.ty, position⟩
  | void : Stmt.AllWellTyped s.push stmts →
      (returnsVoid = true ∨ ∀ last, stmts.getLast? ≠ some (.expr last)) →
      Block.WellTyped s ⟨stmts, returnsVoid, .void, position⟩
end

def Module.WellTyped (s : Scope) (m : Module) : Prop :=
  Stmt.AllWellTyped s.push (m.decls.map .decl)

end Typed

end LetLang
