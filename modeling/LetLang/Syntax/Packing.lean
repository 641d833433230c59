import LetLang.Syntax.Tree

/-!
# Packing

A packed program passes one value at a time: its functions have one parameter
and return one type, and its calls have one argument. Several parameters become
items of one tuple, which the body unpacks at its start; several arguments
become a tuple; and a chain of returned types becomes a function type.
-/

namespace LetLang

/-- The name of a parameter that stands for several. No word of a program
starts with a dollar sign, so it hides no other name. -/
def packName : String := "$args"

def Param.unpack (param : Param) (place : Nat) : Stmt :=
  .decl ⟨param.name, some param.type,
    .index (.ident packName param.position) (.literal (.int place) param.position) param.position,
    param.position⟩

/-- The declarations that unpack parameters, the first from the given place. -/
def unpackAll (place : Nat) : List Param → List Stmt
  | [] => []
  | param :: params => param.unpack place :: unpackAll (place + 1) params

/-- One parameter for all. A single one stays, and the empty pack stands where
its function does. -/
def packParams (params : List Param) (position : Position) : List Param :=
  match params with
  | [] => [⟨packName, ⟨.unit, position⟩, position⟩]
  | [param] => [param]
  | first :: _ =>
    [⟨packName, ⟨.tuple (params.map (·.type.ty)), first.position⟩, first.position⟩]

def unpacking (params : List Param) : List Stmt :=
  match params with
  | [] | [_] => []
  | _ => unpackAll 0 params

def packReturns (returns : List Ascription) : List Ascription :=
  match returns.head?, Ty.curried? (returns.map (·.ty)) with
  | some first, some ty => [⟨ty, first.position⟩]
  | _, _ => returns

/-- One argument for all. A single one stays, and others become a tuple that
stands where the arguments open. -/
def packArgs (args : List Expr) (position : Position) : List Expr :=
  match args with
  | [arg] => [arg]
  | _ => [.tuple args position]

mutual
def Expr.pack : Expr → Expr
  | .literal value position => .literal value position
  | .ident name position => .ident name position
  | .tuple items position => .tuple (Expr.packAll items) position
  | .list items position => .list (Expr.packAll items) position
  | .func params returns body position =>
    .func (packParams params position) (packReturns returns)
      ⟨unpacking params ++ body.pack.stmts, body.returnsVoid, body.position⟩ position
  | .call callee args argsPosition position =>
    .call callee.pack (packArgs (Expr.packAll args) argsPosition) argsPosition position
  | .block body => .block body.pack
  | .index target index position => .index target.pack index.pack position
  | .cond test thenBlock elseBlock position =>
    .cond test.pack thenBlock.pack elseBlock.pack position
  | .loop binder iterable body position => .loop binder iterable.pack body.pack position
  | .unary operator operand position => .unary operator operand.pack position
  | .binary operator left right position => .binary operator left.pack right.pack position
def Expr.packAll : List Expr → List Expr
  | [] => []
  | e :: es => e.pack :: Expr.packAll es
def Decl.pack : Decl → Decl
  | ⟨name, declared, value, position⟩ => ⟨name, declared, value.pack, position⟩
def Stmt.pack : Stmt → Stmt
  | .decl d => .decl d.pack
  | .expr e => .expr e.pack
def Stmt.packAll : List Stmt → List Stmt
  | [] => []
  | s :: ss => s.pack :: Stmt.packAll ss
def Block.pack : Block → Block
  | ⟨stmts, returnsVoid, position⟩ => ⟨Stmt.packAll stmts, returnsVoid, position⟩
end

def Module.pack (m : Module) : Module := ⟨m.decls.map Decl.pack⟩

@[simp] theorem Expr.packAll_eq_map (es : List Expr) : Expr.packAll es = es.map Expr.pack := by
  induction es with
  | nil => rfl
  | cons e es ih => simp [Expr.packAll, ih]

@[simp] theorem Stmt.packAll_eq_map (ss : List Stmt) : Stmt.packAll ss = ss.map Stmt.pack := by
  induction ss with
  | nil => rfl
  | cons s ss ih => simp [Stmt.packAll, ih]

end LetLang
