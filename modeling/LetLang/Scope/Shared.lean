import LetLang.Scope

/-!
# Scopes that share frames

In memory a scope is the address of its innermost frame, together with how many
frames it has. Every frame has a cell of its own, which holds the address of the
frame around it, so scopes that are opened in one scope share its frames. A cell
counts the references to it: by scopes, and by the cells of frames inside it. A
name is bound in place if the scope has the only reference to its innermost
frame, and in a copy of the frame otherwise. A cell without references is freed.
-/

namespace LetLang

structure Cell where
  frame : Frame
  parent : Option Nat
  count : Nat
  deriving DecidableEq, Repr

/-- Cells, the latest first. The address of a cell is the number of cells made
before it. As the frame around a frame is there first, a cell refers to older ones.
The address of a freed cell is not used again. -/
inductive Heap where
  | empty
  | live (cell : Cell) (older : Heap)
  | freed (older : Heap)
  deriving DecidableEq, Repr

namespace Heap

def size : Heap → Nat
  | .empty => 0
  | .live _ older => older.size + 1
  | .freed older => older.size + 1

def cell? : Heap → Nat → Option Cell
  | .empty, _ => none
  | .live cell older, a => if a = older.size then some cell else older.cell? a
  | .freed older, a => older.cell? a

def modify (f : Cell → Cell) : Heap → Nat → Heap
  | .empty, _ => .empty
  | .live cell older, a =>
    if a = older.size then .live (f cell) older else .live cell (older.modify f a)
  | .freed older, a => .freed (older.modify f a)

def alloc (h : Heap) (frame : Frame) (parent : Option Nat) : Nat × Heap :=
  (h.size, .live ⟨frame, parent, 1⟩ h)

def retain (h : Heap) (a : Nat) : Heap :=
  h.modify (fun cell => { cell with count := cell.count + 1 }) a

/-- Gives up a reference to a cell. With the last one the cell is freed, and its
own reference is given up too. -/
def release : Heap → Nat → Heap
  | .empty, _ => .empty
  | .freed older, a => .freed (older.release a)
  | .live cell older, a =>
    if a = older.size then
      if cell.count = 1 then
        match cell.parent with
        | none => .freed older
        | some p => .freed (older.release p)
      else .live { cell with count := cell.count - 1 } older
    else .live cell (older.release a)

def retainParent (h : Heap) (cell : Cell) : Heap :=
  match cell.parent with
  | none => h
  | some p => h.retain p

/-- Turns a reference into the only one to a cell with the same frame: to the same
cell, or to a copy of it if there are other references. -/
def unshare (h : Heap) (a : Nat) : Nat × Heap :=
  match h.cell? a with
  | none => (a, h)
  | some cell =>
    if cell.count = 1 then (a, h)
    else
      let (copy, copied) := (h.retainParent cell).alloc cell.frame cell.parent
      (copy, copied.release a)

def lookup : Heap → Nat → String → Option Ty
  | .empty, _, _ => none
  | .freed older, a, name => older.lookup a name
  | .live cell older, a, name =>
    if a = older.size then
      match cell.frame.lookup name with
      | some ty => some ty
      | none =>
        match cell.parent with
        | none => none
        | some p => older.lookup p name
    else older.lookup a name

end Heap

structure SharedScope where
  address : Nat
  depth : Nat
  deriving DecidableEq, Repr

namespace SharedScope

def new (h : Heap) : SharedScope × Heap :=
  let (a, h) := h.alloc [] none
  (⟨a, 1⟩, h)

def copy (s : SharedScope) (h : Heap) : SharedScope × Heap := (s, h.retain s.address)

def push (s : SharedScope) (h : Heap) : SharedScope × Heap :=
  let (a, h) := (h.retain s.address).alloc [] (some s.address)
  (⟨a, s.depth + 1⟩, h)

def pop? (s : SharedScope) (h : Heap) : Option (SharedScope × Heap) :=
  match h.cell? s.address with
  | some { parent := some p, .. } => some (⟨p, s.depth - 1⟩, h.retain p)
  | _ => none

def bind (s : SharedScope) (h : Heap) (name : String) (ty : Ty) : SharedScope × Heap :=
  let (a, h) := h.unshare s.address
  ({ s with address := a },
    h.modify (fun cell => { cell with frame := (name, ty) :: cell.frame }) a)

def ofBindings (h : Heap) (bindings : List (String × Ty)) : SharedScope × Heap :=
  bindings.foldl (fun (s, h) (name, ty) => s.bind h name ty) (new h)

def lookup (s : SharedScope) (h : Heap) (name : String) : Option Ty := h.lookup s.address name

end SharedScope

/-- What can be done with named scopes: one is made, alone or from another, in place
of the scope of that name, or a name is bound in one. -/
inductive ScopeStep where
  | new (slot : String)
  | ofBindings (slot : String) (bindings : List (String × Ty))
  | copy (slot source : String)
  | push (slot source : String)
  | pop (slot source : String)
  | bind (slot name : String) (ty : Ty)
  deriving DecidableEq, Repr

structure ScopeTable where
  heap : Heap
  slots : List (String × SharedScope)
  deriving DecidableEq, Repr

namespace ScopeTable

def empty : ScopeTable := ⟨.empty, []⟩

def scope? (t : ScopeTable) (slot : String) : Option SharedScope := t.slots.lookup slot

def depth? (t : ScopeTable) (slot : String) : Option Nat := (t.scope? slot).map (·.depth)

def lookup (t : ScopeTable) (slot name : String) : Option Ty :=
  (t.scope? slot).bind fun s => s.lookup t.heap name

def pops (t : ScopeTable) (slot : String) : Bool :=
  ((t.scope? slot).bind fun s => s.pop? t.heap).isSome

def others (t : ScopeTable) (slot : String) : List (String × SharedScope) :=
  t.slots.eraseP (·.1 = slot)

def put (t : ScopeTable) (slot : String) (made : SharedScope × Heap) : ScopeTable :=
  ⟨made.2, (slot, made.1) :: t.others slot⟩

/-- Puts a scope that was just made in a slot, and drops the one that was there. -/
def assign (t : ScopeTable) (slot : String) (made : SharedScope × Heap) : ScopeTable :=
  match t.scope? slot with
  | none => t.put slot made
  | some old => t.put slot (made.1, made.2.release old.address)

/-- Does a step. One that asks for the scope of an empty slot, or for the scope
around the only frame, changes nothing. -/
def step (t : ScopeTable) : ScopeStep → ScopeTable
  | .new slot => t.assign slot (SharedScope.new t.heap)
  | .ofBindings slot bindings => t.assign slot (SharedScope.ofBindings t.heap bindings)
  | .copy slot source =>
    match t.scope? source with
    | none => t
    | some s => t.assign slot (s.copy t.heap)
  | .push slot source =>
    match t.scope? source with
    | none => t
    | some s => t.assign slot (s.push t.heap)
  | .pop slot source =>
    match (t.scope? source).bind fun s => s.pop? t.heap with
    | none => t
    | some made => t.assign slot made
  | .bind slot name ty =>
    match t.scope? slot with
    | none => t
    | some s => t.put slot (s.bind t.heap name ty)

def run (steps : List ScopeStep) : ScopeTable := steps.foldl step empty

end ScopeTable

end LetLang
