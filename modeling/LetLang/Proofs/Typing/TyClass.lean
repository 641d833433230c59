import LetLang.Proofs.Syntax.Nodes
import LetLang.Proofs.Typing.Steps

/-!
# Classes of types

The checker takes types apart and puts them together, and compares them. A class
of types that has parts of its types and types of its parts has every type that
the checker meets, if it has those of the scope and those that are written.
Tuples may be restricted to some numbers of items.

Two classes are used: that of all types, and that of the types without a tuple of
one item, which are the types that can be written.
-/

namespace LetLang

structure TyClass where
  has : Ty → Prop
  /-- The numbers of items that a tuple may have. -/
  size : Nat → Prop
  prim : ∀ name, has (.prim name)
  list_iff : ∀ item, has (.list item) ↔ has item
  func_iff : ∀ param ret, has (.func param ret) ↔ has param ∧ has ret
  tuple_iff : ∀ items, has (.tuple items) ↔ size items.length ∧ ∀ item ∈ items, has item

theorem Ty.allPlain_iff {items : List Ty} : Ty.AllPlain items ↔ ∀ ty ∈ items, ty.Plain := by
  induction items with
  | nil => exact ⟨fun _ => nofun, fun _ => trivial⟩
  | cons item items ih =>
    rw [List.forall_mem_cons, ← ih]
    exact Iff.rfl

theorem Ty.Plain.tuple {items : List Ty} (hl : items.length ≠ 1) (h : ∀ ty ∈ items, ty.Plain) :
    (Ty.tuple items).Plain :=
  ⟨hl, Ty.allPlain_iff.mpr h⟩

namespace TyClass

def all : TyClass where
  has _ := True
  size _ := True
  prim _ := trivial
  list_iff _ := Iff.rfl
  func_iff _ _ := ⟨fun _ => ⟨trivial, trivial⟩, fun _ => trivial⟩
  tuple_iff _ := ⟨fun _ => ⟨trivial, fun _ _ => trivial⟩, fun _ => trivial⟩

def plain : TyClass where
  has := Ty.Plain
  size count := count ≠ 1
  prim _ := trivial
  list_iff _ := Iff.rfl
  func_iff _ _ := Iff.rfl
  tuple_iff _ := and_congr_right fun _ => Ty.allPlain_iff

variable {k : TyClass}

theorem item? {items : List Ty} (h : k.has (.tuple items))
    (hi : Ty.item? items index = some item) : k.has item := by
  obtain ⟨place, -, hi⟩ := Ty.item?_eq_some.mp hi
  exact ((k.tuple_iff items).mp h).2 item (List.mem_of_getElem? hi)

theorem element? {ty : Ty} (h : k.has ty) (he : ty.element? = some item) : k.has item := by
  rcases Ty.element?_eq_some.mp he with rfl | ⟨rfl, rfl⟩
  · exact (k.list_iff item).mp h
  · exact k.prim .char

theorem literal (k : TyClass) (value : Literal) : k.has value.ty := by
  cases value with
  | _ => exact k.prim _

theorem curried? (h : ∀ ty ∈ chain, k.has ty) (hc : Ty.curried? chain = some ty) : k.has ty := by
  fun_induction Ty.curried? chain generalizing ty with
  | case1 => cases hc
  | case2 ret =>
    cases hc
    exact h ret List.mem_cons_self
  | case3 param chain _ ih =>
    obtain ⟨hp, h⟩ := List.forall_mem_cons.mp h
    obtain ⟨result, hr, rfl⟩ := Option.map_eq_some_iff.mp hc
    exact (k.func_iff param result).mpr ⟨hp, ih h hr⟩

def HasScope (k : TyClass) (s : Scope) : Prop := ∀ name ty, s.lookup name = some ty → k.has ty

theorem HasScope.bind {s : Scope} (h : k.HasScope s) (hty : k.has ty) :
    k.HasScope (s.bind name ty) := by
  intro other found hl
  rw [Scope.lookup_bind] at hl
  split at hl
  · cases hl
    exact hty
  · exact h other found hl

theorem HasScope.push {s : Scope} (h : k.HasScope s) : k.HasScope s.push := by
  intro name ty hl
  rw [Scope.lookup_push] at hl
  exact h name ty hl

def HasHint (k : TyClass) (hint : Option Ty) : Prop := ∀ ty ∈ hint, k.has ty

theorem HasHint.none : k.HasHint none := nofun

theorem HasHint.some (h : k.has ty) : k.HasHint (some ty) := by
  rintro _ ⟨⟩
  exact h

theorem HasHint.tupleHints (h : k.HasHint hint) : ∀ ty ∈ tupleHints hint count, k.has ty := by
  unfold LetLang.tupleHints
  split
  · split
    · exact ((k.tuple_iff _).mp (h _ rfl)).2
    · nofun
  · nofun

theorem HasHint.listHint (h : k.HasHint hint) : k.HasHint (listHint hint) := by
  unfold LetLang.listHint
  split
  · next item => exact .some ((k.list_iff item).mp (h _ rfl))
  · exact .none

end TyClass

-- ---------------------------------------------------------------------------
-- Trees
-- ---------------------------------------------------------------------------

def Node.Sized (size : Nat → Prop) : Node → Prop
  | .expr (.tuple items _) => size items.length
  | _ => True

/-- Whether a node makes types of a class from types of the class. -/
structure Node.Within (k : TyClass) (n : Node) : Prop where
  ascriptions : ∀ a ∈ n.ascriptions, k.has a.ty
  sized : n.Sized k.size

theorem Node.within_all (n : Node) : n.Within .all := by
  refine ⟨fun _ _ => trivial, ?_⟩
  unfold Node.Sized
  split
  · trivial
  · trivial

-- ---------------------------------------------------------------------------
-- Packing
-- ---------------------------------------------------------------------------

theorem packParams_plain (h : ∀ param ∈ params, param.type.ty.Plain) :
    ∀ param ∈ packParams params position, param.type.ty.Plain := by
  match params with
  | [] => exact List.forall_mem_singleton.mpr (.tuple nofun nofun)
  | [_] => exact h
  | first :: second :: more =>
    exact List.forall_mem_singleton.mpr (.tuple (by simp) (List.forall_mem_map.mpr h))

theorem packReturns_plain (h : ∀ a ∈ returns, a.ty.Plain) :
    ∀ a ∈ packReturns returns, a.ty.Plain := by
  unfold packReturns
  split
  · next hc =>
    exact List.forall_mem_singleton.mpr
      (TyClass.curried? (k := .plain) (List.forall_mem_map.mpr h) hc)
  · exact h

theorem unpackAll_plain (place : Nat) (h : ∀ param ∈ params, param.type.ty.Plain) :
    Stmt.EveryStmt (Node.Within .plain) (unpackAll place params) := by
  induction params generalizing place with
  | nil => trivial
  | cons param params ih =>
    obtain ⟨hp, h⟩ := List.forall_mem_cons.mp h
    refine ⟨⟨⟨List.forall_mem_singleton.mpr hp, trivial⟩, ?_⟩, ih (place + 1) h⟩
    exact ⟨⟨nofun, trivial⟩, ⟨nofun, trivial⟩, ⟨nofun, trivial⟩⟩

theorem unpacking_plain (h : ∀ param ∈ params, param.type.ty.Plain) :
    Stmt.EveryStmt (Node.Within .plain) (unpacking params) := by
  match params with
  | [] | [_] => trivial
  | first :: second :: more => exact unpackAll_plain 0 h

theorem packArgs_plain (h : Expr.EveryItem (Node.Within .plain) args) :
    Expr.EveryItem (Node.Within .plain) (packArgs args position) := by
  match args with
  | [_] => exact h
  | [] => exact ⟨⟨⟨nofun, (nofun : 0 ≠ 1)⟩, h⟩, trivial⟩
  | _ :: _ :: _ => exact ⟨⟨⟨nofun, fun hl => by simp at hl⟩, h⟩, trivial⟩

mutual
/-- The types and tuples that packing makes are plain. -/
theorem pack_plain : (e : Expr) → e.Every (Node.Within .plain) → e.pack.Every (Node.Within .plain)
  | .literal .., he | .ident .., he => he
  | .tuple items _, he => by
    refine ⟨⟨nofun, ?_⟩, packAll_plain items he.2⟩
    change (Expr.packAll items).length ≠ 1
    rw [Expr.packAll_eq_map, List.length_map]
    exact he.1.sized
  | .list items _, he => ⟨⟨nofun, trivial⟩, packAll_plain items he.2⟩
  | .func params returns ⟨stmts, _, _⟩ position, he => by
    obtain ⟨hp, hr⟩ := List.forall_mem_append.mp he.1.ascriptions
    have hp := List.forall_mem_map.mp hp
    refine ⟨⟨List.forall_mem_append.mpr ⟨?_, packReturns_plain hr⟩, trivial⟩, ⟨nofun, trivial⟩, ?_⟩
    · exact List.forall_mem_map.mpr (packParams_plain hp)
    · exact everyStmt_append (unpacking_plain hp) (stmtsPack_plain stmts he.2.2)
  | .call callee args _ _, he =>
    ⟨⟨nofun, trivial⟩, pack_plain callee he.2.1, packArgs_plain (packAll_plain args he.2.2)⟩
  | .block body, he => ⟨⟨nofun, trivial⟩, blockPack_plain body he.2⟩
  | .index target index _, he =>
    ⟨⟨nofun, trivial⟩, pack_plain target he.2.1, pack_plain index he.2.2⟩
  | .cond test thenBlock elseBlock _, he =>
    ⟨⟨nofun, trivial⟩, pack_plain test he.2.1, blockPack_plain thenBlock he.2.2.1,
      blockPack_plain elseBlock he.2.2.2⟩
  | .loop _ iterable body _, he =>
    ⟨⟨nofun, trivial⟩, pack_plain iterable he.2.1, blockPack_plain body he.2.2⟩
  | .unary _ operand _, he => ⟨⟨nofun, trivial⟩, pack_plain operand he.2⟩
  | .binary _ left right _, he =>
    ⟨⟨nofun, trivial⟩, pack_plain left he.2.1, pack_plain right he.2.2⟩
theorem packAll_plain : (es : List Expr) → Expr.EveryItem (Node.Within .plain) es →
    Expr.EveryItem (Node.Within .plain) (Expr.packAll es)
  | [], _ => trivial
  | e :: es, he => ⟨pack_plain e he.1, packAll_plain es he.2⟩
theorem declPack_plain : (d : Decl) → d.Every (Node.Within .plain) →
    d.pack.Every (Node.Within .plain)
  | ⟨_, _, value, _⟩, hd => ⟨⟨hd.1.ascriptions, trivial⟩, pack_plain value hd.2⟩
theorem stmtsPack_plain : (ss : List Stmt) → Stmt.EveryStmt (Node.Within .plain) ss →
    Stmt.EveryStmt (Node.Within .plain) (Stmt.packAll ss)
  | [], _ => trivial
  | .decl d :: ss, hs => ⟨declPack_plain d hs.1, stmtsPack_plain ss hs.2⟩
  | .expr e :: ss, hs => ⟨pack_plain e hs.1, stmtsPack_plain ss hs.2⟩
theorem blockPack_plain : (b : Block) → b.Every (Node.Within .plain) →
    b.pack.Every (Node.Within .plain)
  | ⟨stmts, _, _⟩, hb => ⟨⟨nofun, trivial⟩, stmtsPack_plain stmts hb.2⟩
end

theorem modulePack_plain {m : Module} (h : m.Every (Node.Within .plain)) :
    m.pack.Every (Node.Within .plain) := by
  intro _ hd
  obtain ⟨d, hm, rfl⟩ := List.mem_map.mp hd
  exact declPack_plain d (h d hm)

end LetLang
