import LetLang.Syntax.Literal
import LetLang.Syntax.Operator

/-!
# Syntax trees

A module is a list of declarations, and a declaration binds the value of an
expression. Blocks, functions, conditionals and loops are expressions too.
Every node holds the place of its first token; parentheses that only group
leave no node.
-/

namespace LetLang

structure Ascription where
  ty : Ty
  position : Position
  deriving DecidableEq, Repr

structure Param where
  name : String
  type : Ascription
  position : Position
  deriving DecidableEq, Repr

mutual
inductive Expr where
  | literal (value : Literal) (position : Position)
  | ident (name : String) (position : Position)
  | tuple (items : List Expr) (position : Position)
  | list (items : List Expr) (position : Position)
  | func (params : List Param) (returns : List Ascription) (body : Block) (position : Position)
  /-- A call, with the place of the parenthesis that opens its arguments. -/
  | call (callee : Expr) (args : List Expr) (argsPosition position : Position)
  | block (body : Block)
  | index (target index : Expr) (position : Position)
  | cond (test : Expr) (thenBlock elseBlock : Block) (position : Position)
  | loop (binder : String) (iterable : Expr) (body : Block) (position : Position)
  | unary (operator : UnaryOp) (operand : Expr) (position : Position)
  | binary (operator : BinaryOp) (left right : Expr) (position : Position)
structure Decl where
  name : String
  declared : Option Ascription
  value : Expr
  position : Position
inductive Stmt where
  | decl (d : Decl)
  | expr (e : Expr)
/-- Statements in braces. The block yields no value if it is empty or its last
statement is followed by a semicolon. -/
structure Block where
  stmts : List Stmt
  returnsVoid : Bool
  position : Position
end

structure Module where
  decls : List Decl

instance : Inhabited Expr := ⟨.tuple [] .start⟩

/-- The place of the first token of an expression. -/
def Expr.position : Expr → Position
  | .literal _ position => position
  | .ident _ position => position
  | .tuple _ position => position
  | .list _ position => position
  | .func _ _ _ position => position
  | .call _ _ _ position => position
  | .block body => body.position
  | .index _ _ position => position
  | .cond _ _ _ position => position
  | .loop _ _ _ position => position
  | .unary _ _ position => position
  | .binary _ _ _ position => position

def Stmt.position : Stmt → Position
  | .decl d => d.position
  | .expr e => e.position

def Block.trailing? (block : Block) : Option Expr :=
  if block.returnsVoid then none
  else match block.stmts.getLast? with
    | some (.expr e) => some e
    | _ => none

end LetLang
