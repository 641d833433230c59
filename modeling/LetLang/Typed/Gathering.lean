import LetLang.Diagnostic
import LetLang.Syntax.Packing
import LetLang.Ty.Text
import LetLang.Typed.Tree

/-!
# Gathering parameters

A checked function of several parameters starts with the declarations that
unpack them. Gathering turns that run of declarations into one statement that
destructures the pack, and drops the types that declarations were written with.

The run has to take the items of the pack in order and all of them. Packing
makes no other, so a run that breaks this rule is an internal fault.
-/

namespace LetLang.Typed

/-- A declaration that takes one place of the pack. -/
structure Unpacking where
  name : String
  ty : Ty
  pack : Expr
  place : Int
  position : Position

def Stmt.unpacking? : Stmt → Option Unpacking
  | .decl d =>
    match d.value.kind with
    | .index target index =>
      match target.kind, index.kind with
      | .ident name, .literal (.int place) =>
        if name = packName then some ⟨d.name, d.ty, target, place, d.position⟩ else none
      | _, _ => none
    | _ => none
  | _ => none

def splitUnpackings : List Stmt → List Unpacking × List Stmt
  | [] => ([], [])
  | stmt :: stmts =>
    match stmt.unpacking? with
    | some first =>
      let (more, rest) := splitUnpackings stmts
      (first :: more, rest)
    | none => ([], stmt :: stmts)

/-- Whether declarations take the places of the pack in order from the given one. -/
def checkPlaces (place : Nat) : List Unpacking → Except Diagnostic Unit
  | [] => .ok ()
  | u :: us =>
    if u.place = place then checkPlaces (place + 1) us
    else reject (.fault ("prologue index " ++ toString place ++ " is out of sequence")) u.position

/-- Whether a pack has as many items as there are declarations. -/
def hasItems (ty : Ty) (count : Nat) : Bool :=
  match ty with
  | .tuple items => items.length = count
  | _ => false

def gatherRun (first : Unpacking) (more : List Unpacking) : Except Diagnostic Destructure := do
  let run := first :: more
  checkPlaces 0 run
  ensure (hasItems first.pack.ty run.length)
    (.fault ("prologue of " ++ toString run.length ++ " bindings destructures a value of type " ++
      first.pack.ty.text)) first.position
  return ⟨first.pack, run.map fun u => (u.name, u.ty), first.position⟩

/-- Gathers the leading run of a body, if there is one. -/
def Block.gatherPrologue (body : Block) : Except Diagnostic Block :=
  match splitUnpackings body.stmts with
  | ([], _) => .ok body
  | (first :: more, rest) => do
    let d ← gatherRun first more
    return { body with stmts := .destructure d :: rest }

mutual
def Expr.gather : Expr → Except Diagnostic Expr
  | ⟨kind, ty, position⟩ => do return ⟨← kind.gather, ty, position⟩
def ExprKind.gather : ExprKind → Except Diagnostic ExprKind
  | .literal value => .ok (.literal value)
  | .ident name => .ok (.ident name)
  | .tuple items => do return .tuple (← Expr.gatherAll items)
  | .list items => do return .list (← Expr.gatherAll items)
  | .func param paramTy returnTy body => do
    let body ← body.gather
    if param = packName then return .func param paramTy returnTy (← body.gatherPrologue)
    else return .func param paramTy returnTy body
  | .call callee arg => do return .call (← callee.gather) (← arg.gather)
  | .block body => do return .block (← body.gather)
  | .index target index => do return .index (← target.gather) (← index.gather)
  | .cond test thenBlock elseBlock => do
    return .cond (← test.gather) (← thenBlock.gather) (← elseBlock.gather)
  | .loop binder iterable body => do return .loop binder (← iterable.gather) (← body.gather)
  | .unary operator operand => do return .unary operator (← operand.gather)
  | .binary operator left right => do return .binary operator (← left.gather) (← right.gather)
def Expr.gatherAll : List Expr → Except Diagnostic (List Expr)
  | [] => .ok []
  | e :: es => do return (← e.gather) :: (← Expr.gatherAll es)
def Decl.gather : Decl → Except Diagnostic Decl
  | ⟨name, _, ty, value, position⟩ => do return ⟨name, none, ty, ← value.gather, position⟩
def Destructure.gather : Destructure → Except Diagnostic Destructure
  | ⟨source, bindings, position⟩ => do return ⟨← source.gather, bindings, position⟩
def Stmt.gather : Stmt → Except Diagnostic Stmt
  | .decl d => do return .decl (← d.gather)
  | .expr e => do return .expr (← e.gather)
  | .destructure d => do return .destructure (← d.gather)
def Stmt.gatherAll : List Stmt → Except Diagnostic (List Stmt)
  | [] => .ok []
  | s :: ss => do return (← s.gather) :: (← Stmt.gatherAll ss)
def Block.gather : Block → Except Diagnostic Block
  | ⟨stmts, returnsVoid, ty, position⟩ => do
    return ⟨← Stmt.gatherAll stmts, returnsVoid, ty, position⟩
end

def Module.gather (m : Module) : Except Diagnostic Module := do
  return ⟨← m.decls.mapM Decl.gather⟩

end LetLang.Typed
