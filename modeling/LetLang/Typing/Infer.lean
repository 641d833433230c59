import LetLang.Diagnostic
import LetLang.Scope
import LetLang.Syntax.Packing
import LetLang.Typed.Tree
import LetLang.Typing.Hint
import LetLang.Typing.Operand

/-!
# Typing

Packed programs are typed from the leaves up. A hint is the type that the place
of an expression asks for; it only decides the type of empty lists, and whoever
gives a hint compares the types afterwards. Where one of two parts needs a hint
and the other does not, the other is typed first and gives the hint.

Names resolve in the scope before a statement, except that the declaration of a
function may refer to itself.
-/

namespace LetLang

def requireType (expected found : Ty) (position : Position) : Except Diagnostic Unit :=
  ensure (found = expected) (mismatch expected found) position
where
  /-- Tuples of different lengths differ in a way of their own. -/
  mismatch : Ty → Ty → Cause
    | .tuple items, .tuple others =>
      if items.length = others.length then
        .wrongType (Ty.tuple items).text (Ty.tuple others).text
      else .tupleLength (Ty.tuple items).text (Ty.tuple others).text
    | expected, found => .wrongType expected.text found.text

def tupleHints (hint : Option Ty) (count : Nat) : List Ty :=
  match hint with
  | some (.tuple items) => if items.length = count then items else []
  | _ => []

def listHint (hint : Option Ty) : Option Ty :=
  match hint with
  | some (.list item) => some item
  | _ => none

/-- The place where a mismatch with the value of a block is reported. -/
def Block.valuePosition (block : Block) : Position :=
  match block.trailing? with
  | some e => e.position
  | none => block.position

def Typed.valueTy (returnsVoid : Bool) (stmts : List Typed.Stmt) : Ty :=
  match returnsVoid, stmts.getLast? with
  | false, some (.expr e) => e.ty
  | _, _ => .void

def signature (params : List Param) (returns : List Ascription) (position : Position) :
    Except Diagnostic (Param × Ty) :=
  match params, returns with
  | [param], [ret] => .ok (param, ret.ty)
  | _, _ =>
    reject (.fault ("function with " ++ toString params.length ++ " parameters and " ++
      toString returns.length ++ " return types reached the type checker")) position

/-- Whether a declaration unpacks a parameter. Parameters may have any type. -/
def Decl.unpacks (d : Decl) : Bool :=
  match d.value with
  | .index (.ident name _) _ _ => name = packName
  | _ => false

def Decl.requireValue (d : Decl) (ty : Ty) : Except Diagnostic Unit :=
  ensure (!ty.containsVoid || d.unpacks) (.voidBinding ty.text) d.position

/-- The scope in which the value of a declaration is typed: a function is
already bound to the type that it is written with. -/
def Decl.valueScope (d : Decl) (scope : Scope) : Except Diagnostic Scope :=
  match d.value with
  | .func params returns _ position => do
    let (param, ret) ← signature params returns position
    return scope.bind d.name (.func param.type.ty ret)
  | _ => .ok scope

def BinaryOp.requireLeft (op : BinaryOp) (left : Typed.Expr) : Except Diagnostic Unit :=
  ensure (op.opClass.accepts left.ty) (.wrongLeft op.text op.opClass.operands left.ty.text)
    left.position

def BinaryOp.requireRight (op : BinaryOp) (left right : Typed.Expr) : Except Diagnostic Unit :=
  ensure (right.ty = left.ty) (.wrongRight op.text left.ty.text right.ty.text) right.position

mutual
/-- The typed form of an expression in a scope, where a hint may be known. -/
def Expr.infer : Expr → Scope → Option Ty → Except Diagnostic Typed.Expr
  | .literal value position, _, _ => .ok ⟨.literal value, value.ty, position⟩
  | .ident name position, scope, _ =>
    match scope.lookup name with
    | some ty => .ok ⟨.ident name, ty, position⟩
    | none => reject (.unknownName name) position
  | .tuple items position, scope, hint => do
    let items ← Expr.inferItems items scope (tupleHints hint items.length)
    return ⟨.tuple items, .tuple (items.map (·.ty)), position⟩
  | .list [] position, _, hint =>
    match hint with
    | some (.list item) => .ok ⟨.list [], .list item, position⟩
    | some other => reject (.wrongType other.text "[]") position
    | none => reject .bareEmptyList position
  | .list (first :: rest) position, scope, hint => do
    let anchor ←
      if (listHint hint).isNone && first.needsHint then Expr.anchorTy rest scope else pure none
    match anchor with
    | some item =>
      let items ← Expr.checkItems (first :: rest) scope item
      return ⟨.list items, .list item, position⟩
    | none =>
      let first ← first.infer scope (listHint hint)
      let rest ← Expr.checkItems rest scope first.ty
      return ⟨.list (first :: rest), .list first.ty, position⟩
  | .func params returns body position, scope, _ => do
    let (param, ret) ← signature params returns position
    let typed ← body.infer (scope.push.bind param.name param.type.ty) (some ret)
    ensure (typed.ty = ret) (.wrongReturn ret.text typed.ty.text ret.isVoid) body.valuePosition
    return ⟨.func param.name param.type.ty ret typed, .func param.type.ty ret, position⟩
  | .call callee args argsPosition position, scope, _ => do
    let callee ← callee.infer scope none
    match callee.ty with
    | .func param ret =>
      match args with
      | [arg] =>
        let arg ← arg.infer scope (some param)
        ensure (arg.ty = param) (.wrongArgument param.text arg.ty.text) arg.position
        return ⟨.call callee arg, ret, position⟩
      | _ =>
        reject (.fault ("call with " ++ toString args.length ++
          " arguments reached the type checker")) argsPosition
    | other => reject (.notCallable other.text) callee.position
  | .block body, scope, hint => do
    let typed ← body.infer scope hint
    return ⟨.block typed, typed.ty, body.position⟩
  | .index target index position, scope, _ => do
    let target ← target.infer scope none
    match target.ty with
    | .tuple items =>
      match index with
      | .literal (.int place) indexPosition =>
        match Ty.item? items place with
        | some item =>
          return ⟨.index target ⟨.literal (.int place), .int, indexPosition⟩, item, position⟩
        | none => reject (.indexOutOfRange items.length place) indexPosition
      | _ => reject .indexNotLiteral index.position
    | other =>
      match other.element? with
      | some item =>
        let index ← index.infer scope none
        ensure (index.ty = .int) (.wrongIndex index.ty.text) index.position
        return ⟨.index target index, item, position⟩
      | none => reject (.notIndexable other.text) target.position
  | .cond test thenBlock elseBlock position, scope, hint => do
    let test ← test.infer scope (some .bool)
    ensure (test.ty = .bool) (.wrongType Ty.bool.text test.ty.text) test.position
    let elseFirst := hint.isNone && thenBlock.needsHint && !elseBlock.needsHint
    let (yes, no) ←
      if elseFirst then do
        let no ← elseBlock.infer scope none
        let yes ← thenBlock.infer scope (some no.ty)
        pure (yes, no)
      else do
        let yes ← thenBlock.infer scope hint
        let no ← elseBlock.infer scope (some yes.ty)
        pure (yes, no)
    ensure (no.ty = yes.ty) (.wrongBranch yes.ty.text no.ty.text yes.ty.isVoid)
      elseBlock.valuePosition
    return ⟨.cond test yes no, yes.ty, position⟩
  | .loop binder iterable body position, scope, hint => do
    let iterable ← iterable.infer scope none
    match iterable.ty with
    | .list item =>
      let body ← body.infer (scope.push.bind binder item) (listHint hint)
      return ⟨.loop binder iterable body, .list body.ty, position⟩
    | other => reject (.notIterable other.text) iterable.position
  | .unary operator operand position, scope, _ => do
    let operand ← operand.infer scope none
    ensure (operator.accepts operand.ty)
      (.wrongOperand operator.text operator.operands operand.ty.text) operand.position
    return ⟨.unary operator operand, operand.ty, position⟩
  | .binary operator left right position, scope, _ => do
    let (left, right) ←
      if left.needsHint && !right.needsHint then do
        let right ← right.infer scope none
        let left ← left.infer scope (some right.ty)
        operator.requireLeft left
        pure (left, right)
      else do
        let left ← left.infer scope none
        operator.requireLeft left
        let right ← right.infer scope (some left.ty)
        pure (left, right)
    operator.requireRight left right
    return ⟨.binary operator left right, operator.opClass.result left.ty, position⟩
def Expr.inferItems : List Expr → Scope → List Ty → Except Diagnostic (List Typed.Expr)
  | [], _, _ => .ok []
  | e :: es, scope, hints => do
    let first ← e.infer scope hints.head?
    return first :: (← Expr.inferItems es scope hints.tail)
def Expr.checkItems : List Expr → Scope → Ty → Except Diagnostic (List Typed.Expr)
  | [], _, _ => .ok []
  | e :: es, scope, item => do
    let first ← e.infer scope (some item)
    ensure (first.ty = item) (.wrongType item.text first.ty.text) first.position
    return first :: (← Expr.checkItems es scope item)
/-- The type of the first expression that needs no hint. -/
def Expr.anchorTy : List Expr → Scope → Except Diagnostic (Option Ty)
  | [], _ => .ok none
  | e :: es, scope =>
    if e.needsHint then Expr.anchorTy es scope
    else do return some (← e.infer scope none).ty
def Decl.infer : Decl → Scope → Except Diagnostic (Typed.Decl × Scope)
  | ⟨name, declared, value, position⟩, scope => do
    let d : Decl := ⟨name, declared, value, position⟩
    let inner ← d.valueScope scope
    match declared with
    | some written =>
      d.requireValue written.ty
      let typed ← value.infer inner (some written.ty)
      requireType written.ty typed.ty value.position
      return (⟨name, some written.ty, written.ty, typed, position⟩, inner.bind name written.ty)
    | none =>
      let typed ← value.infer inner none
      d.requireValue typed.ty
      return (⟨name, none, typed.ty, typed, position⟩, inner.bind name typed.ty)
def Stmt.infer : Stmt → Scope → Option Ty → Except Diagnostic (Typed.Stmt × Scope)
  | .decl d, scope, _ => do
    let (typed, scope) ← d.infer scope
    return (.decl typed, scope)
  | .expr e, scope, hint => do return (.expr (← e.infer scope hint), scope)
def Stmt.inferAll : List Stmt → Scope → Option Ty → Except Diagnostic (List Typed.Stmt)
  | [], _, _ => .ok []
  | s :: ss, scope, hint => do
    let (first, scope) ← s.infer scope (if ss.isEmpty then hint else none)
    return first :: (← Stmt.inferAll ss scope hint)
def Block.infer : Block → Scope → Option Ty → Except Diagnostic Typed.Block
  | ⟨stmts, returnsVoid, position⟩, scope, hint => do
    let typed ← Stmt.inferAll stmts scope.push (if returnsVoid then none else hint)
    return ⟨typed, returnsVoid, Typed.valueTy returnsVoid typed, position⟩
end

/-- A call that is not packed is a fault, if its callee can be called. -/
theorem infer_call_of_length_ne_one {args : List Expr} (h : args.length ≠ 1) :
    (Expr.call callee args argsPosition position).infer scope hint = (do
      let callee ← callee.infer scope none
      match callee.ty with
      | .func _ _ =>
        reject (.fault ("call with " ++ toString args.length ++
          " arguments reached the type checker")) argsPosition
      | other => reject (.notCallable other.text) callee.position) := by
  match args with
  | [] | _ :: _ :: _ => simp only [Expr.infer]
  | [_] => exact absurd rfl h

def Expr.check (e : Expr) (scope : Scope) (expected : Ty) : Except Diagnostic Typed.Expr := do
  let typed ← e.infer scope (some expected)
  requireType expected typed.ty e.position
  return typed

def Decl.inferAll : List Decl → Scope → Except Diagnostic (List Typed.Decl)
  | [], _ => .ok []
  | d :: ds, scope => do
    let (first, scope) ← d.infer scope
    return first :: (← Decl.inferAll ds scope)

/-- The typed form of a packed module, in a frame of its own inside the scope. -/
def Module.infer (m : Module) (scope : Scope) : Except Diagnostic Typed.Module := do
  return ⟨← Decl.inferAll m.decls scope.push⟩

end LetLang
