import LetLang.Typing.Infer

/-!
# The direct checker

A checker for programs that are not packed. It binds the parameters of a
function all together and compares the arguments of a call one by one, with no
name that stands for several. Its typed trees have the shape of the source:
functions keep their parameters and calls their arguments.

Apart from functions and calls it follows the rules of the checker for packed
programs. `pack` turns a typed tree of this checker into one of the other, and
leaves the type of every node as it is.
-/

namespace LetLang

namespace Direct

mutual
structure Expr where
  kind : ExprKind
  ty : Ty
  position : Position
inductive ExprKind where
  | literal (value : Literal)
  | ident (name : String)
  | tuple (items : List Expr)
  | list (items : List Expr)
  | func (params : List Param) (ret : Ty) (body : Block)
  | call (callee : Expr) (args : List Expr) (argsPosition : Position)
  | block (body : Block)
  | index (target index : Expr)
  | cond (test : Expr) (thenBlock elseBlock : Block)
  | loop (binder : String) (iterable : Expr) (body : Block)
  | unary (operator : UnaryOp) (operand : Expr)
  | binary (operator : BinaryOp) (left right : Expr)
structure Decl where
  name : String
  declared : Option Ty
  ty : Ty
  value : Expr
  position : Position
inductive Stmt where
  | decl (d : Decl)
  | expr (e : Expr)
structure Block where
  stmts : List Stmt
  returnsVoid : Bool
  ty : Ty
  position : Position
end

structure Module where
  decls : List Decl

def valueTy (returnsVoid : Bool) (stmts : List Stmt) : Ty :=
  match returnsVoid, stmts.getLast? with
  | false, some (.expr e) => e.ty
  | _, _ => .void

/-- The parameter type of a function: that of its only parameter, or the tuple
of the types of all. -/
def paramTy : List Param → Ty
  | [param] => param.type.ty
  | params => .tuple (params.map (·.type.ty))

def returnTy (returns : List Ascription) (position : Position) : Except Diagnostic Ty :=
  match Ty.curried? (returns.map (·.ty)) with
  | some ty => .ok ty
  | none => reject (.fault "function with 1 parameters and 0 return types reached the type checker")
      position

def bindings (params : List Param) : List (String × Ty) := params.map fun p => (p.name, p.type.ty)

end Direct

/-- The scope in which the value of a declaration is typed: a function is
already bound to the type that it is written with. -/
def Decl.directScope (d : Decl) (scope : Scope) : Except Diagnostic Scope :=
  match d.value with
  | .func params returns _ position => do
    return scope.bind d.name (.func (Direct.paramTy params) (← Direct.returnTy returns position))
  | _ => .ok scope

def Decl.requireBound (d : Decl) (ty : Ty) : Except Diagnostic Unit :=
  ensure (!ty.containsVoid) (.voidBinding ty.text) d.position

def BinaryOp.requireDirectLeft (op : BinaryOp) (left : Direct.Expr) : Except Diagnostic Unit :=
  ensure (op.opClass.accepts left.ty) (.wrongLeft op.text op.opClass.operands left.ty.text)
    left.position

def BinaryOp.requireDirectRight (op : BinaryOp) (left right : Direct.Expr) :
    Except Diagnostic Unit :=
  ensure (right.ty = left.ty) (.wrongRight op.text left.ty.text right.ty.text) right.position

mutual
def Expr.direct : Expr → Scope → Option Ty → Except Diagnostic Direct.Expr
  | .literal value position, _, _ => .ok ⟨.literal value, value.ty, position⟩
  | .ident name position, scope, _ =>
    match scope.lookup name with
    | some ty => .ok ⟨.ident name, ty, position⟩
    | none => reject (.unknownName name) position
  | .tuple items position, scope, hint => do
    let items ← Expr.directItems items scope (tupleHints hint items.length)
    return ⟨.tuple items, .tuple (items.map (·.ty)), position⟩
  | .list [] position, _, hint =>
    match hint with
    | some (.list item) => .ok ⟨.list [], .list item, position⟩
    | some other => reject (.wrongType other.text "[]") position
    | none => reject .bareEmptyList position
  | .list (first :: rest) position, scope, hint => do
    let anchor ←
      if (listHint hint).isNone && first.needsHint then Expr.directAnchor rest scope else pure none
    match anchor with
    | some item =>
      let items ← Expr.directSame (first :: rest) scope item
      return ⟨.list items, .list item, position⟩
    | none =>
      let first ← first.direct scope (listHint hint)
      let rest ← Expr.directSame rest scope first.ty
      return ⟨.list (first :: rest), .list first.ty, position⟩
  | .func params returns body position, scope, _ => do
    let ret ← Direct.returnTy returns position
    let typed ← body.direct (scope.push.bindAll (Direct.bindings params)) (some ret)
    ensure (typed.ty = ret) (.wrongReturn ret.text typed.ty.text ret.isVoid) body.valuePosition
    return ⟨.func params ret typed, .func (Direct.paramTy params) ret, position⟩
  | .call callee args argsPosition position, scope, _ => do
    let callee ← callee.direct scope none
    match callee.ty with
    | .func param ret =>
      match args with
      | [arg] =>
        let arg ← arg.direct scope (some param)
        ensure (arg.ty = param) (.wrongArgument param.text arg.ty.text) arg.position
        return ⟨.call callee [arg] argsPosition, ret, position⟩
      | args =>
        let args ← Expr.directItems args scope (tupleHints (some param) args.length)
        let ty := Ty.tuple (args.map (·.ty))
        ensure (ty = param) (.wrongArgument param.text ty.text) argsPosition
        return ⟨.call callee args argsPosition, ret, position⟩
    | other => reject (.notCallable other.text) callee.position
  | .block body, scope, hint => do
    let typed ← body.direct scope hint
    return ⟨.block typed, typed.ty, body.position⟩
  | .index target index position, scope, _ => do
    let target ← target.direct scope none
    match target.ty with
    | .tuple items =>
      match index with
      | .literal (.int place) indexPosition =>
        match Ty.item? items place with
        | some item =>
          return ⟨.index target ⟨.literal (.int place), .int, indexPosition⟩, item, position⟩
        | none => reject (.indexOutOfRange items.length place) indexPosition
      | _ => reject .indexNotLiteral index.position
    | other =>
      match other.element? with
      | some item =>
        let index ← index.direct scope none
        ensure (index.ty = .int) (.wrongIndex index.ty.text) index.position
        return ⟨.index target index, item, position⟩
      | none => reject (.notIndexable other.text) target.position
  | .cond test thenBlock elseBlock position, scope, hint => do
    let test ← test.direct scope (some .bool)
    ensure (test.ty = .bool) (.wrongType Ty.bool.text test.ty.text) test.position
    let elseFirst := hint.isNone && thenBlock.needsHint && !elseBlock.needsHint
    let (yes, no) ←
      if elseFirst then do
        let no ← elseBlock.direct scope none
        let yes ← thenBlock.direct scope (some no.ty)
        pure (yes, no)
      else do
        let yes ← thenBlock.direct scope hint
        let no ← elseBlock.direct scope (some yes.ty)
        pure (yes, no)
    ensure (no.ty = yes.ty) (.wrongBranch yes.ty.text no.ty.text yes.ty.isVoid)
      elseBlock.valuePosition
    return ⟨.cond test yes no, yes.ty, position⟩
  | .loop binder iterable body position, scope, hint => do
    let iterable ← iterable.direct scope none
    match iterable.ty with
    | .list item =>
      let body ← body.direct (scope.push.bind binder item) (listHint hint)
      return ⟨.loop binder iterable body, .list body.ty, position⟩
    | other => reject (.notIterable other.text) iterable.position
  | .unary operator operand position, scope, _ => do
    let operand ← operand.direct scope none
    ensure (operator.accepts operand.ty)
      (.wrongOperand operator.text operator.operands operand.ty.text) operand.position
    return ⟨.unary operator operand, operand.ty, position⟩
  | .binary operator left right position, scope, _ => do
    let (left, right) ←
      if left.needsHint && !right.needsHint then do
        let right ← right.direct scope none
        let left ← left.direct scope (some right.ty)
        operator.requireDirectLeft left
        pure (left, right)
      else do
        let left ← left.direct scope none
        operator.requireDirectLeft left
        let right ← right.direct scope (some left.ty)
        pure (left, right)
    operator.requireDirectRight left right
    return ⟨.binary operator left right, operator.opClass.result left.ty, position⟩
def Expr.directItems : List Expr → Scope → List Ty → Except Diagnostic (List Direct.Expr)
  | [], _, _ => .ok []
  | e :: es, scope, hints => do
    let first ← e.direct scope hints.head?
    return first :: (← Expr.directItems es scope hints.tail)
def Expr.directSame : List Expr → Scope → Ty → Except Diagnostic (List Direct.Expr)
  | [], _, _ => .ok []
  | e :: es, scope, item => do
    let first ← e.direct scope (some item)
    ensure (first.ty = item) (.wrongType item.text first.ty.text) first.position
    return first :: (← Expr.directSame es scope item)
def Expr.directAnchor : List Expr → Scope → Except Diagnostic (Option Ty)
  | [], _ => .ok none
  | e :: es, scope =>
    if e.needsHint then Expr.directAnchor es scope
    else do return some (← e.direct scope none).ty
def Decl.direct : Decl → Scope → Except Diagnostic (Direct.Decl × Scope)
  | ⟨name, declared, value, position⟩, scope => do
    let d : Decl := ⟨name, declared, value, position⟩
    let inner ← d.directScope scope
    match declared with
    | some written =>
      d.requireBound written.ty
      let typed ← value.direct inner (some written.ty)
      requireType written.ty typed.ty value.position
      return (⟨name, some written.ty, written.ty, typed, position⟩, inner.bind name written.ty)
    | none =>
      let typed ← value.direct inner none
      d.requireBound typed.ty
      return (⟨name, none, typed.ty, typed, position⟩, inner.bind name typed.ty)
def Stmt.direct : Stmt → Scope → Option Ty → Except Diagnostic (Direct.Stmt × Scope)
  | .decl d, scope, _ => do
    let (typed, scope) ← d.direct scope
    return (.decl typed, scope)
  | .expr e, scope, hint => do return (.expr (← e.direct scope hint), scope)
def Stmt.directAll : List Stmt → Scope → Option Ty → Except Diagnostic (List Direct.Stmt)
  | [], _, _ => .ok []
  | s :: ss, scope, hint => do
    let (first, scope) ← s.direct scope (if ss.isEmpty then hint else none)
    return first :: (← Stmt.directAll ss scope hint)
def Block.direct : Block → Scope → Option Ty → Except Diagnostic Direct.Block
  | ⟨stmts, returnsVoid, position⟩, scope, hint => do
    let typed ← Stmt.directAll stmts scope.push (if returnsVoid then none else hint)
    return ⟨typed, returnsVoid, Direct.valueTy returnsVoid typed, position⟩
end

/-- The arguments of a call, unless it has just one, are compared all together. -/
theorem direct_call_of_length_ne_one {args : List Expr} (h : args.length ≠ 1) :
    (Expr.call callee args argsPosition position).direct scope hint = (do
      let callee ← callee.direct scope none
      match callee.ty with
      | .func param ret =>
        let args ← Expr.directItems args scope (tupleHints (some param) args.length)
        ensure (Ty.tuple (args.map (·.ty)) = param)
          (.wrongArgument param.text (Ty.tuple (args.map (·.ty))).text) argsPosition
        return ⟨.call callee args argsPosition, ret, position⟩
      | other => reject (.notCallable other.text) callee.position) := by
  match args with
  | [] | _ :: _ :: _ => simp only [Expr.direct]
  | [_] => exact absurd rfl h

def Decl.directAll : List Decl → Scope → Except Diagnostic (List Direct.Decl)
  | [], _ => .ok []
  | d :: ds, scope => do
    let (first, scope) ← d.direct scope
    return first :: (← Decl.directAll ds scope)

def Module.direct (m : Module) (scope : Scope) : Except Diagnostic Direct.Module := do
  return ⟨← Decl.directAll m.decls scope.push⟩

namespace Direct

-- ---------------------------------------------------------------------------
-- Packing
-- ---------------------------------------------------------------------------

def unpack (packed : Ty) (param : Param) (place : Nat) : Typed.Stmt :=
  .decl ⟨param.name, some param.type.ty, param.type.ty,
    ⟨.index ⟨.ident packName, packed, param.position⟩
      ⟨.literal (.int place), .int, param.position⟩, param.type.ty, param.position⟩,
    param.position⟩

/-- The typed declarations that unpack parameters, the first from the given place. -/
def unpackAll (packed : Ty) (place : Nat) : List Param → List Typed.Stmt
  | [] => []
  | param :: params => unpack packed param place :: unpackAll packed (place + 1) params

/-- The typed statements that a packed body needs before its own. -/
def unpacking : List Param → List Typed.Stmt
  | [_] => []
  | params => unpackAll (paramTy params) 0 params

def paramName : List Param → String
  | [param] => param.name
  | _ => packName

def packArg (args : List Typed.Expr) (position : Position) : Typed.Expr :=
  match args with
  | [arg] => arg
  | args => ⟨.tuple args, .tuple (args.map (·.ty)), position⟩

mutual
def Expr.pack : Expr → Typed.Expr
  | ⟨kind, ty, position⟩ => ⟨kind.pack, ty, position⟩
def ExprKind.pack : ExprKind → Typed.ExprKind
  | .literal value => .literal value
  | .ident name => .ident name
  | .tuple items => .tuple (Expr.packAll items)
  | .list items => .list (Expr.packAll items)
  | .func params ret body =>
    .func (paramName params) (paramTy params) ret
      { body.pack with stmts := unpacking params ++ body.pack.stmts }
  | .call callee args argsPosition =>
    .call callee.pack (packArg (Expr.packAll args) argsPosition)
  | .block body => .block body.pack
  | .index target index => .index target.pack index.pack
  | .cond test thenBlock elseBlock => .cond test.pack thenBlock.pack elseBlock.pack
  | .loop binder iterable body => .loop binder iterable.pack body.pack
  | .unary op operand => .unary op operand.pack
  | .binary op left right => .binary op left.pack right.pack
def Expr.packAll : List Expr → List Typed.Expr
  | [] => []
  | e :: es => e.pack :: Expr.packAll es
def Decl.pack : Decl → Typed.Decl
  | ⟨name, declared, ty, value, position⟩ => ⟨name, declared, ty, value.pack, position⟩
def Stmt.pack : Stmt → Typed.Stmt
  | .decl d => .decl d.pack
  | .expr e => .expr e.pack
def Stmt.packAll : List Stmt → List Typed.Stmt
  | [] => []
  | s :: ss => s.pack :: Stmt.packAll ss
def Block.pack : Block → Typed.Block
  | ⟨stmts, returnsVoid, ty, position⟩ => ⟨Stmt.packAll stmts, returnsVoid, ty, position⟩
end

def Module.pack (m : Module) : Typed.Module := ⟨m.decls.map Decl.pack⟩

@[simp] theorem Expr.pack_ty (e : Expr) : e.pack.ty = e.ty := by
  cases e
  rfl

@[simp] theorem Expr.pack_position (e : Expr) : e.pack.position = e.position := by
  cases e
  rfl

@[simp] theorem Block.pack_ty (b : Block) : b.pack.ty = b.ty := by
  cases b
  rfl

@[simp] theorem Expr.packAll_eq_map (es : List Expr) : Expr.packAll es = es.map Expr.pack := by
  induction es with
  | nil => rfl
  | cons e es ih => simp [Expr.packAll, ih]

@[simp] theorem Stmt.packAll_eq_map (ss : List Stmt) : Stmt.packAll ss = ss.map Stmt.pack := by
  induction ss with
  | nil => rfl
  | cons s ss ih => simp [Stmt.packAll, ih]

end Direct

end LetLang
