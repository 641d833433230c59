import LetLang.Proofs.Compile

/-!
# What gathering keeps

Gathering loses nothing of a checked module but its written types and the places
of the declarations that unpack parameters. When each statement that destructures
is replaced by the declarations that it stands for, the typed module is back, as it
is without its written types.

Gathering keeps the first of the packs that a prologue reads, and the types that
the declarations bind in place of those of their values. That this suffices is due
to the checker: it gives the pack the same type wherever it is read, and each of
its items the type of the parameter.
-/

namespace LetLang

namespace Typed

-- ---------------------------------------------------------------------------
-- Trees without written types
-- ---------------------------------------------------------------------------

mutual
/-- The expression without the types that its declarations were written with. -/
def Expr.bare : Expr → Expr
  | ⟨kind, ty, position⟩ => ⟨kind.bare, ty, position⟩
def ExprKind.bare : ExprKind → ExprKind
  | .literal value => .literal value
  | .ident name => .ident name
  | .tuple items => .tuple (Expr.allBare items)
  | .list items => .list (Expr.allBare items)
  | .func param paramTy returnTy body => .func param paramTy returnTy body.bare
  | .call callee arg => .call callee.bare arg.bare
  | .block body => .block body.bare
  | .index target index => .index target.bare index.bare
  | .cond test thenBlock elseBlock => .cond test.bare thenBlock.bare elseBlock.bare
  | .loop binder iterable body => .loop binder iterable.bare body.bare
  | .unary operator operand => .unary operator operand.bare
  | .binary operator left right => .binary operator left.bare right.bare
def Expr.allBare : List Expr → List Expr
  | [] => []
  | e :: es => e.bare :: Expr.allBare es
def Decl.bare : Decl → Decl
  | ⟨name, _, ty, value, position⟩ => ⟨name, none, ty, value.bare, position⟩
def Destructure.bare : Destructure → Destructure
  | ⟨source, bindings, position⟩ => ⟨source.bare, bindings, position⟩
def Stmt.bare : Stmt → Stmt
  | .decl d => .decl d.bare
  | .expr e => .expr e.bare
  | .destructure d => .destructure d.bare
def Stmt.allBare : List Stmt → List Stmt
  | [] => []
  | s :: ss => s.bare :: Stmt.allBare ss
def Block.bare : Block → Block
  | ⟨stmts, returnsVoid, ty, position⟩ => ⟨Stmt.allBare stmts, returnsVoid, ty, position⟩
end

def Module.bare (m : Module) : Module := ⟨m.decls.map Decl.bare⟩

theorem Expr.bare_ty (e : Expr) : e.bare.ty = e.ty := by
  cases e
  rfl

theorem Expr.allBare_tys (es : List Expr) : (Expr.allBare es).map (·.ty) = es.map (·.ty) := by
  induction es with
  | nil => rfl
  | cons e es ih => simp only [Expr.allBare, List.map_cons, Expr.bare_ty, ih]

theorem Stmt.allBare_append (before after : List Stmt) :
    Stmt.allBare (before ++ after) = Stmt.allBare before ++ Stmt.allBare after := by
  induction before with
  | nil => rfl
  | cons s ss ih => simp only [List.cons_append, Stmt.allBare, ih]

-- ---------------------------------------------------------------------------
-- Expansion
-- ---------------------------------------------------------------------------

/-- Whether statements are declarations that bind names to the items of a source in
order, `let p = s[i]`, the first of them to the item at the given place. Each
declaration may have any position. -/
inductive Picks (source : Expr) : Nat → List (String × Ty) → List Stmt → Prop where
  | nil : Picks source place [] []
  | cons : Picks source (place + 1) bindings ss →
      Picks source place ((name, ty) :: bindings)
        (.decl ⟨name, none, ty,
          ⟨.index ⟨source.kind, source.ty, position⟩ ⟨.literal (.int place), .int, position⟩,
            ty, position⟩, position⟩ :: ss)

mutual
/-- Whether the second expression is the first with every statement that
destructures replaced by the declarations that it stands for. -/
inductive Expr.Expands : Expr → Expr → Prop where
  | literal : Expr.Expands ⟨.literal value, ty, position⟩ ⟨.literal value, ty, position⟩
  | ident : Expr.Expands ⟨.ident name, ty, position⟩ ⟨.ident name, ty, position⟩
  | tuple : Expr.AllExpand items items' →
      Expr.Expands ⟨.tuple items, ty, position⟩ ⟨.tuple items', ty, position⟩
  | list : Expr.AllExpand items items' →
      Expr.Expands ⟨.list items, ty, position⟩ ⟨.list items', ty, position⟩
  | func : Block.Expands body body' →
      Expr.Expands ⟨.func param paramTy returnTy body, ty, position⟩
        ⟨.func param paramTy returnTy body', ty, position⟩
  | call : Expr.Expands callee callee' → Expr.Expands arg arg' →
      Expr.Expands ⟨.call callee arg, ty, position⟩ ⟨.call callee' arg', ty, position⟩
  | block : Block.Expands body body' →
      Expr.Expands ⟨.block body, ty, position⟩ ⟨.block body', ty, position⟩
  | index : Expr.Expands target target' → Expr.Expands index index' →
      Expr.Expands ⟨.index target index, ty, position⟩ ⟨.index target' index', ty, position⟩
  | cond : Expr.Expands test test' → Block.Expands yes yes' → Block.Expands no no' →
      Expr.Expands ⟨.cond test yes no, ty, position⟩ ⟨.cond test' yes' no', ty, position⟩
  | loop : Expr.Expands iterable iterable' → Block.Expands body body' →
      Expr.Expands ⟨.loop binder iterable body, ty, position⟩
        ⟨.loop binder iterable' body', ty, position⟩
  | unary : Expr.Expands operand operand' →
      Expr.Expands ⟨.unary op operand, ty, position⟩ ⟨.unary op operand', ty, position⟩
  | binary : Expr.Expands left left' → Expr.Expands right right' →
      Expr.Expands ⟨.binary op left right, ty, position⟩ ⟨.binary op left' right', ty, position⟩
inductive Expr.AllExpand : List Expr → List Expr → Prop where
  | nil : Expr.AllExpand [] []
  | cons : Expr.Expands e e' → Expr.AllExpand es es' → Expr.AllExpand (e :: es) (e' :: es')
inductive Decl.Expands : Decl → Decl → Prop where
  | mk : Expr.Expands value value' →
      Decl.Expands ⟨name, declared, ty, value, position⟩ ⟨name, declared, ty, value', position⟩
inductive Stmt.AllExpand : List Stmt → List Stmt → Prop where
  | nil : Stmt.AllExpand [] []
  | decl : Decl.Expands d d' → Stmt.AllExpand ss ss' →
      Stmt.AllExpand (.decl d :: ss) (.decl d' :: ss')
  | expr : Expr.Expands e e' → Stmt.AllExpand ss ss' →
      Stmt.AllExpand (.expr e :: ss) (.expr e' :: ss')
  | destructure : Picks source 0 bindings run → Stmt.AllExpand ss ss' →
      Stmt.AllExpand (.destructure ⟨source, bindings, position⟩ :: ss) (run ++ ss')
inductive Block.Expands : Block → Block → Prop where
  | mk : Stmt.AllExpand stmts stmts' →
      Block.Expands ⟨stmts, returnsVoid, ty, position⟩ ⟨stmts', returnsVoid, ty, position⟩
end

def Module.Expands (m n : Module) : Prop :=
  Stmt.AllExpand (m.decls.map .decl) (n.decls.map .decl)

theorem Expr.Expands.ty_eq (h : Expr.Expands e e') : e.ty = e'.ty := by
  cases h with
  | _ => rfl

theorem Expr.AllExpand.tys_eq (h : Expr.AllExpand es es') : es.map (·.ty) = es'.map (·.ty) := by
  induction es generalizing es' with
  | nil =>
    cases h
    rfl
  | cons e es ih =>
    obtain _ | ⟨he, hs⟩ := h
    rw [List.map_cons, List.map_cons, ih hs, he.ty_eq]

end Typed

namespace Direct

-- ---------------------------------------------------------------------------
-- Parts of functions and calls
-- ---------------------------------------------------------------------------

theorem allBare_unpackAll (packed : Ty) (place : Nat) (params : List Param) :
    Typed.Stmt.allBare (unpackAll packed place params) = bareAll packed place params := by
  induction params generalizing place with
  | nil => rfl
  | cons param params ih =>
    simp only [unpackAll, Typed.Stmt.allBare, ih]
    rfl

theorem picks_bareAll (packed : Ty) (sourcePosition : Position) (place : Nat)
    (params : List Param) :
    Typed.Picks ⟨.ident packName, packed, sourcePosition⟩ place (bindings params)
      (bareAll packed place params) := by
  induction params generalizing place with
  | nil => exact .nil
  | cons param params ih => exact .cons (ih (place + 1))

theorem destructuring_expands (params : List Param) (h : Typed.Stmt.AllExpand ss ss') :
    Typed.Stmt.AllExpand (destructuring params ++ ss)
      (Typed.Stmt.allBare (unpacking params) ++ ss') := by
  rcases params with _ | ⟨first, _ | ⟨second, more⟩⟩
  · exact h
  · exact h
  · have hrun := picks_bareAll (paramTy (first :: second :: more)) first.position 0
      (first :: second :: more)
    rw [← allBare_unpackAll] at hrun
    exact .destructure hrun h

theorem packArg_bare (args : List Typed.Expr) (position : Position) :
    (packArg args position).bare = packArg (Typed.Expr.allBare args) position := by
  match args with
  | [_] => rfl
  | [] => rfl
  | first :: second :: more =>
    have htys := Typed.Expr.allBare_tys (first :: second :: more)
    simp only [Typed.Expr.allBare] at htys
    simp only [packArg, Typed.Expr.bare, Typed.ExprKind.bare, Typed.Expr.allBare, htys]

theorem packArg_expands (position : Position) (h : Typed.Expr.AllExpand args args') :
    (packArg args position).Expands (packArg args' position) := by
  have htys := h.tys_eq
  cases h with
  | nil => exact .tuple .nil
  | cons he hs =>
    cases hs with
    | nil => exact he
    | cons he' hs' =>
      simp only [packArg, htys]
      exact .tuple (.cons he (.cons he' hs'))

-- ---------------------------------------------------------------------------
-- Trees
-- ---------------------------------------------------------------------------

mutual
theorem gathered_expands : (e : Expr) → e.gathered.Expands e.pack.bare
  | ⟨.literal _, _, _⟩ => .literal
  | ⟨.ident _, _, _⟩ => .ident
  | ⟨.tuple items, _, _⟩ => .tuple (gatheredAll_expand items)
  | ⟨.list items, _, _⟩ => .list (gatheredAll_expand items)
  | ⟨.func params ret ⟨stmts, returnsVoid, ty, place⟩, _, _⟩ => by
    have h := destructuring_expands params (gatheredStmts_expand stmts)
    rw [← Typed.Stmt.allBare_append] at h
    exact .func (.mk h)
  | ⟨.call callee args argsPosition, _, _⟩ => by
    have h := packArg_expands argsPosition (gatheredAll_expand args)
    rw [← packArg_bare] at h
    exact .call (gathered_expands callee) h
  | ⟨.block body, _, _⟩ => .block (gatheredBlock_expands body)
  | ⟨.index target index, _, _⟩ => .index (gathered_expands target) (gathered_expands index)
  | ⟨.cond test thenBlock elseBlock, _, _⟩ =>
    .cond (gathered_expands test) (gatheredBlock_expands thenBlock)
      (gatheredBlock_expands elseBlock)
  | ⟨.loop _ iterable body, _, _⟩ =>
    .loop (gathered_expands iterable) (gatheredBlock_expands body)
  | ⟨.unary _ operand, _, _⟩ => .unary (gathered_expands operand)
  | ⟨.binary _ left right, _, _⟩ => .binary (gathered_expands left) (gathered_expands right)
theorem gatheredAll_expand : (es : List Expr) →
    Typed.Expr.AllExpand (Expr.gatheredAll es) (Typed.Expr.allBare (Expr.packAll es))
  | [] => .nil
  | e :: es => .cons (gathered_expands e) (gatheredAll_expand es)
theorem gatheredDecl_expands : (d : Decl) → d.gathered.Expands d.pack.bare
  | ⟨_, _, _, value, _⟩ => .mk (gathered_expands value)
theorem gatheredStmts_expand : (ss : List Stmt) →
    Typed.Stmt.AllExpand (Stmt.gatheredAll ss) (Typed.Stmt.allBare (Stmt.packAll ss))
  | [] => .nil
  | .decl d :: ss => .decl (gatheredDecl_expands d) (gatheredStmts_expand ss)
  | .expr e :: ss => .expr (gathered_expands e) (gatheredStmts_expand ss)
theorem gatheredBlock_expands : (b : Block) → b.gathered.Expands b.pack.bare
  | ⟨stmts, _, _, _⟩ => .mk (gatheredStmts_expand stmts)
end

theorem gatheredModule_expands (m : Module) : m.gathered.Expands m.pack.bare := by
  obtain ⟨ds⟩ := m
  induction ds with
  | nil => exact .nil
  | cons d ds ih => exact .decl (gatheredDecl_expands d) ih

end Direct

/-- Every module that avoids the name of the pack can be gathered once it is
checked. What gathering makes of it expands to the typed module without its written
types: with the same names, types, statements and ends of blocks, and all positions
but those of the declarations that unpack parameters. -/
theorem gather_lossless {m : Module} (hm : m.Avoids packName)
    (h : m.pack.infer scope = .ok t) : ∃ u, t.gather = .ok u ∧ u.Expands t.bare := by
  obtain ⟨d, -, rfl, hg⟩ := gather_of_infer hm h
  exact ⟨d.gathered, hg, Direct.gatheredModule_expands d⟩

/-- A function of two parameters in another one, with a written type behind the parameters. -/
def nestedPacks : String :=
  "let f = fn (a int, b str) int { let g = fn (c str, d int) int { d }; let e: int = a; g(b, e) }"

theorem nestedPacks_lossless : ∃ m t u, tokenize nestedPacks >>= parse = .ok m ∧
    m.Avoids packName ∧ m.pack.infer .prelude = .ok t ∧ t.gather = .ok u ∧ u.Expands t.bare := by
  obtain ⟨t, h⟩ := isOk_iff.mp (by decide +kernel :
    (tokenize nestedPacks >>= parse >>= fun m => m.pack.infer .prelude).isOk = true)
  obtain ⟨m, hm, hi⟩ := bind_eq_ok.mp h
  obtain ⟨tokens, hl, hp⟩ := bind_eq_ok.mp hm
  have havoids := parse_avoids (tokenize_tokens hl) hp
  obtain ⟨u, hg, he⟩ := gather_lossless havoids hi
  exact ⟨m, t, u, hm, havoids, hi, hg, he⟩

end LetLang
