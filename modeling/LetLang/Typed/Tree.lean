import LetLang.Syntax.Tree

/-!
# Typed trees

What a checked program becomes: every expression and every block holds its
type, functions have one parameter and calls one argument. The declarations
that unpack a function's parameters are gathered into one statement at the end.
-/

namespace LetLang.Typed

mutual
structure Expr where
  kind : ExprKind
  ty : Ty
  position : Position
inductive ExprKind where
  | literal (value : Literal)
  | ident (name : String)
  | tuple (items : List Expr)
  | list (items : List Expr)
  | func (param : String) (paramTy returnTy : Ty) (body : Block)
  | call (callee arg : Expr)
  | block (body : Block)
  | index (target index : Expr)
  | cond (test : Expr) (thenBlock elseBlock : Block)
  | loop (binder : String) (iterable : Expr) (body : Block)
  | unary (operator : UnaryOp) (operand : Expr)
  | binary (operator : BinaryOp) (left right : Expr)
/-- A declaration, with the type that it binds and the one that was written. -/
structure Decl where
  name : String
  declared : Option Ty
  ty : Ty
  value : Expr
  position : Position
/-- Binds each item of a tuple to a name of its own. -/
structure Destructure where
  source : Expr
  bindings : List (String × Ty)
  position : Position
inductive Stmt where
  | decl (d : Decl)
  | expr (e : Expr)
  | destructure (d : Destructure)
structure Block where
  stmts : List Stmt
  returnsVoid : Bool
  ty : Ty
  position : Position
end

structure Module where
  decls : List Decl

def Stmt.position : Stmt → Position
  | .decl d => d.position
  | .expr e => e.position
  | .destructure d => d.position

end LetLang.Typed
