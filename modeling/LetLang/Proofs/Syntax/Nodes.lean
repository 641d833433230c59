import LetLang.Syntax.Tree
import LetLang.Token.Basic

/-!
# Nodes of a syntax tree

A statement about every node of a tree is a statement about one node, taken
through the tree by `Every`. Two of them are used: a tree avoids a name if none
of its nodes holds it, and a tree is made from tokens if every node has its
names and places from them and has one of the shapes that the grammar allows.
-/

namespace LetLang

inductive Node where
  | expr (e : Expr)
  | decl (d : Decl)
  | block (b : Block)

mutual
/-- Whether a statement holds of an expression and of every node in it. -/
def Expr.Every (p : Node → Prop) : Expr → Prop
  | .literal value position => p (.expr (.literal value position))
  | .ident name position => p (.expr (.ident name position))
  | .tuple items position => p (.expr (.tuple items position)) ∧ Expr.EveryItem p items
  | .list items position => p (.expr (.list items position)) ∧ Expr.EveryItem p items
  | .func params returns body position =>
    p (.expr (.func params returns body position)) ∧ body.Every p
  | .call callee args argsPosition position =>
    p (.expr (.call callee args argsPosition position)) ∧ callee.Every p ∧ Expr.EveryItem p args
  | .block body => p (.expr (.block body)) ∧ body.Every p
  | .index target index position =>
    p (.expr (.index target index position)) ∧ target.Every p ∧ index.Every p
  | .cond test thenBlock elseBlock position =>
    p (.expr (.cond test thenBlock elseBlock position)) ∧ test.Every p ∧ thenBlock.Every p ∧
      elseBlock.Every p
  | .loop binder iterable body position =>
    p (.expr (.loop binder iterable body position)) ∧ iterable.Every p ∧ body.Every p
  | .unary op operand position => p (.expr (.unary op operand position)) ∧ operand.Every p
  | .binary op left right position =>
    p (.expr (.binary op left right position)) ∧ left.Every p ∧ right.Every p
def Expr.EveryItem (p : Node → Prop) : List Expr → Prop
  | [] => True
  | e :: es => e.Every p ∧ Expr.EveryItem p es
def Decl.Every (p : Node → Prop) : Decl → Prop
  | ⟨name, declared, value, position⟩ => p (.decl ⟨name, declared, value, position⟩) ∧ value.Every p
def Stmt.EveryStmt (p : Node → Prop) : List Stmt → Prop
  | [] => True
  | .decl d :: ss => d.Every p ∧ Stmt.EveryStmt p ss
  | .expr e :: ss => e.Every p ∧ Stmt.EveryStmt p ss
def Block.Every (p : Node → Prop) : Block → Prop
  | ⟨stmts, returnsVoid, position⟩ =>
    p (.block ⟨stmts, returnsVoid, position⟩) ∧ Stmt.EveryStmt p stmts
end

def Module.Every (p : Node → Prop) (m : Module) : Prop := ∀ d ∈ m.decls, d.Every p

-- ---------------------------------------------------------------------------
-- Names
-- ---------------------------------------------------------------------------

def Node.names : Node → List String
  | .expr (.ident name _) => [name]
  | .expr (.func params _ _ _) => params.map (·.name)
  | .expr (.loop binder _ _ _) => [binder]
  | .decl d => [d.name]
  | _ => []

def Node.Avoids (name : String) (n : Node) : Prop := name ∉ n.names

def Module.Avoids (name : String) (m : Module) : Prop := m.Every (Node.Avoids name)

mutual
theorem every_imp (h : ∀ n, p n → q n) : (e : Expr) → e.Every p → e.Every q
  | .literal .., he | .ident .., he => h _ he
  | .tuple items _, he | .list items _, he => ⟨h _ he.1, everyItem_imp h items he.2⟩
  | .func _ _ body _, he | .block body, he => ⟨h _ he.1, blockEvery_imp h body he.2⟩
  | .call callee args _ _, he =>
    ⟨h _ he.1, every_imp h callee he.2.1, everyItem_imp h args he.2.2⟩
  | .index target index _, he => ⟨h _ he.1, every_imp h target he.2.1, every_imp h index he.2.2⟩
  | .cond test thenBlock elseBlock _, he =>
    ⟨h _ he.1, every_imp h test he.2.1, blockEvery_imp h thenBlock he.2.2.1,
      blockEvery_imp h elseBlock he.2.2.2⟩
  | .loop _ iterable body _, he =>
    ⟨h _ he.1, every_imp h iterable he.2.1, blockEvery_imp h body he.2.2⟩
  | .unary _ operand _, he => ⟨h _ he.1, every_imp h operand he.2⟩
  | .binary _ left right _, he => ⟨h _ he.1, every_imp h left he.2.1, every_imp h right he.2.2⟩
theorem everyItem_imp (h : ∀ n, p n → q n) : (es : List Expr) → Expr.EveryItem p es →
    Expr.EveryItem q es
  | [], _ => trivial
  | e :: es, he => ⟨every_imp h e he.1, everyItem_imp h es he.2⟩
theorem declEvery_imp (h : ∀ n, p n → q n) : (d : Decl) → d.Every p → d.Every q
  | ⟨_, _, value, _⟩, hd => ⟨h _ hd.1, every_imp h value hd.2⟩
theorem everyStmt_imp (h : ∀ n, p n → q n) : (ss : List Stmt) → Stmt.EveryStmt p ss →
    Stmt.EveryStmt q ss
  | [], _ => trivial
  | .decl d :: ss, hs => ⟨declEvery_imp h d hs.1, everyStmt_imp h ss hs.2⟩
  | .expr e :: ss, hs => ⟨every_imp h e hs.1, everyStmt_imp h ss hs.2⟩
theorem blockEvery_imp (h : ∀ n, p n → q n) : (b : Block) → b.Every p → b.Every q
  | ⟨stmts, _, _⟩, hb => ⟨h _ hb.1, everyStmt_imp h stmts hb.2⟩
end

mutual
theorem every_intro (h : ∀ n, p n) : (e : Expr) → e.Every p
  | .literal .. | .ident .. => h _
  | .tuple items _ | .list items _ => ⟨h _, everyItem_intro h items⟩
  | .func _ _ body _ | .block body => ⟨h _, blockEvery_intro h body⟩
  | .call callee args _ _ => ⟨h _, every_intro h callee, everyItem_intro h args⟩
  | .index target index _ => ⟨h _, every_intro h target, every_intro h index⟩
  | .cond test thenBlock elseBlock _ =>
    ⟨h _, every_intro h test, blockEvery_intro h thenBlock, blockEvery_intro h elseBlock⟩
  | .loop _ iterable body _ => ⟨h _, every_intro h iterable, blockEvery_intro h body⟩
  | .unary _ operand _ => ⟨h _, every_intro h operand⟩
  | .binary _ left right _ => ⟨h _, every_intro h left, every_intro h right⟩
theorem everyItem_intro (h : ∀ n, p n) : (es : List Expr) → Expr.EveryItem p es
  | [] => trivial
  | e :: es => ⟨every_intro h e, everyItem_intro h es⟩
theorem declEvery_intro (h : ∀ n, p n) : (d : Decl) → d.Every p
  | ⟨_, _, value, _⟩ => ⟨h _, every_intro h value⟩
theorem everyStmt_intro (h : ∀ n, p n) : (ss : List Stmt) → Stmt.EveryStmt p ss
  | [] => trivial
  | .decl d :: ss => ⟨declEvery_intro h d, everyStmt_intro h ss⟩
  | .expr e :: ss => ⟨every_intro h e, everyStmt_intro h ss⟩
theorem blockEvery_intro (h : ∀ n, p n) : (b : Block) → b.Every p
  | ⟨stmts, _, _⟩ => ⟨h _, everyStmt_intro h stmts⟩
end

theorem everyStmt_append (h : Stmt.EveryStmt p before) (h' : Stmt.EveryStmt p after) :
    Stmt.EveryStmt p (before ++ after) := by
  induction before with
  | nil => exact h'
  | cons s ss ih =>
    cases s with
    | decl d => exact ⟨h.1, ih h.2⟩
    | expr e => exact ⟨h.1, ih h.2⟩

theorem Module.Every.imp {m : Module} (hm : m.Every p) (h : ∀ n, p n → q n) : m.Every q :=
  fun d hd => declEvery_imp h d (hm d hd)

-- ---------------------------------------------------------------------------
-- Nodes made from tokens
-- ---------------------------------------------------------------------------

mutual
/-- Whether no tuple in a type has exactly one item. -/
def Ty.Plain : Ty → Prop
  | .prim _ => True
  | .tuple items => items.length ≠ 1 ∧ Ty.AllPlain items
  | .list item => item.Plain
  | .func param ret => param.Plain ∧ ret.Plain
def Ty.AllPlain : List Ty → Prop
  | [] => True
  | item :: items => item.Plain ∧ Ty.AllPlain items
end

def Node.ascriptions : Node → List Ascription
  | .expr (.func params returns _ _) => params.map (·.type) ++ returns
  | .decl d => d.declared.toList
  | _ => []

/-- The places that a node itself holds, apart from those of its types. -/
def Node.positions : Node → List Position
  | .expr (.func params _ _ position) => position :: params.map (·.position)
  | .expr (.call _ _ argsPosition position) => [argsPosition, position]
  | .expr e => [e.position]
  | .decl d => [d.position]
  | .block b => [b.position]

/-- The shapes of nodes that can be written: tuples have several items, functions
return something, and an empty block yields no value. -/
def Node.Shaped : Node → Prop
  | .expr (.tuple items _) => 2 ≤ items.length
  | .expr (.func _ returns _ _) => returns ≠ []
  | .block b => b.stmts = [] → b.returnsVoid = true
  | _ => True

def Position.From (p : Token → Prop) (position : Position) : Prop :=
  ∃ t, p t ∧ t.position = position

def NameFrom (p : Token → Prop) (name : String) : Prop :=
  ∃ t, p t ∧ t.kind = .identifier ∧ t.value = name

structure Ascription.From (p : Token → Prop) (a : Ascription) : Prop where
  position : a.position.From p
  plain : a.ty.Plain

/-- Whether a node has its names, places and types from tokens, and a shape that
can be written. -/
structure Node.From (p : Token → Prop) (n : Node) : Prop where
  names : ∀ name ∈ n.names, NameFrom p name
  positions : ∀ position ∈ n.positions, position.From p
  ascriptions : ∀ a ∈ n.ascriptions, a.From p
  shaped : n.Shaped

theorem Node.From.of_position {n : Node} (hn : n.names = []) (ha : n.ascriptions = [])
    (hp : n.positions = [position]) (h : position.From p) (hs : n.Shaped) : n.From p := by
  refine ⟨?_, ?_, ?_, hs⟩
  · rw [hn]
    nofun
  · rw [hp]
    exact List.forall_mem_singleton.mpr h
  · rw [ha]
    nofun

theorem Expr.Every.position_from {e : Expr} (h : e.Every (Node.From p)) : e.position.From p := by
  cases e with
  | literal | ident => exact h.positions _ List.mem_cons_self
  | call => exact h.1.positions _ (List.mem_cons_of_mem _ List.mem_cons_self)
  | _ => exact h.1.positions _ List.mem_cons_self

theorem Block.Every.position_from {b : Block} (h : b.Every (Node.From p)) : b.position.From p := by
  cases b
  exact h.1.positions _ List.mem_cons_self

end LetLang
