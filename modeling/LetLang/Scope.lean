import LetLang.Ty.Basic

/-!
# Scopes

A scope is a stack of frames that is never empty. A name is resolved in the
innermost frame that binds it, to the latest type bound there. Scopes are plain
values, so binding a name in one changes no other.
-/

namespace LetLang

/-- The bindings of one block, the latest first. -/
abbrev Frame := List (String × Ty)

/-- The bindings that are visible at a place in a program. -/
structure Scope where
  inner : Frame
  outer : List Frame
  deriving DecidableEq, Repr

namespace Scope

def empty : Scope := ⟨[], []⟩

def bind (s : Scope) (name : String) (ty : Ty) : Scope :=
  { s with inner := (name, ty) :: s.inner }

def bindAll (s : Scope) (bindings : List (String × Ty)) : Scope :=
  bindings.foldl (fun s (name, ty) => s.bind name ty) s

def ofBindings (bindings : List (String × Ty)) : Scope := empty.bindAll bindings

def push (s : Scope) : Scope := ⟨[], s.inner :: s.outer⟩

/-- Closes the innermost frame, unless it is the only one. -/
def pop? (s : Scope) : Option Scope :=
  match s.outer with
  | [] => none
  | frame :: outer => some ⟨frame, outer⟩

def frames (s : Scope) : List Frame := s.inner :: s.outer

def lookup (s : Scope) (name : String) : Option Ty :=
  s.frames.findSome? (·.lookup name)

def depth (s : Scope) : Nat := s.frames.length

/-- The built-in functions: printing, and the text of a value of each basic type. -/
def prelude : Scope :=
  ofBindings [("print", .func .str .void), ("i2s", .func .int .str), ("f2s", .func .float .str),
    ("c2s", .func .char .str), ("b2s", .func .bool .str)]

theorem lookup_bind (s : Scope) (name other : String) (ty : Ty) :
    (s.bind name ty).lookup other = if other = name then some ty else s.lookup other := by
  by_cases h : other = name
  · simp [lookup, frames, bind, h]
  · have hb : (other == name) = false := by simpa using h
    simp [lookup, frames, bind, List.findSome?_cons, List.lookup_cons, h, hb]

@[simp] theorem lookup_push (s : Scope) (name : String) : s.push.lookup name = s.lookup name := by
  simp [lookup, frames, push, List.findSome?_cons]

@[simp] theorem depth_push (s : Scope) : s.push.depth = s.depth + 1 := rfl

end Scope

end LetLang
