/-!
# Types

The types of the language and the questions that its rules ask of them. Two
types are equal when they are built alike, and equality is decided by `same`.
-/

namespace LetLang

inductive Prim where
  | int
  | float
  | char
  | str
  | bool
  | void
  deriving DecidableEq, Repr

/-- A type. A function takes one value; several come as a tuple. -/
inductive Ty where
  | prim (name : Prim)
  | tuple (items : List Ty)
  | list (item : Ty)
  | func (param ret : Ty)
  deriving Repr

namespace Ty

@[match_pattern] abbrev int : Ty := .prim .int
@[match_pattern] abbrev float : Ty := .prim .float
@[match_pattern] abbrev char : Ty := .prim .char
@[match_pattern] abbrev str : Ty := .prim .str
@[match_pattern] abbrev bool : Ty := .prim .bool
@[match_pattern] abbrev void : Ty := .prim .void

@[match_pattern] abbrev unit : Ty := .tuple []

instance : Inhabited Ty := ⟨void⟩

mutual
def same : Ty → Ty → Bool
  | .prim p, .prim q => p = q
  | .tuple items, .tuple others => sameAll items others
  | .list item, .list other => same item other
  | .func param ret, .func otherParam otherRet => same param otherParam && same ret otherRet
  | _, _ => false
/-- Whether two lists of types have the same length and agree item by item. -/
def sameAll : List Ty → List Ty → Bool
  | [], [] => true
  | item :: items, other :: others => same item other && sameAll items others
  | _, _ => false
end

mutual
theorem eq_of_same : (s t : Ty) → same s t = true → s = t
  | .prim p, t, h => by cases t <;> simp_all [same]
  | .tuple items, t, h => by
    cases t with
    | tuple others => rw [eq_of_sameAll items others (by simpa [same] using h)]
    | _ => simp [same] at h
  | .list item, t, h => by
    cases t with
    | list other => rw [eq_of_same item other (by simpa [same] using h)]
    | _ => simp [same] at h
  | .func param ret, t, h => by
    cases t with
    | func otherParam otherRet =>
      have h := Bool.and_eq_true_iff.mp (by simpa only [same] using h)
      rw [eq_of_same param otherParam h.1, eq_of_same ret otherRet h.2]
    | _ => simp [same] at h
theorem eq_of_sameAll : (items others : List Ty) → sameAll items others = true → items = others
  | [], others, h => by cases others <;> simp_all [sameAll]
  | item :: items, others, h => by
    cases others with
    | nil => simp [sameAll] at h
    | cons other others =>
      have h := Bool.and_eq_true_iff.mp (by simpa only [sameAll] using h)
      rw [eq_of_same item other h.1, eq_of_sameAll items others h.2]
end

mutual
theorem same_refl : (t : Ty) → same t t = true
  | .prim p => by simp [same]
  | .tuple items => by simp [same, sameAll_refl items]
  | .list item => by simp [same, same_refl item]
  | .func param ret => by simp [same, same_refl param, same_refl ret]
theorem sameAll_refl : (items : List Ty) → sameAll items items = true
  | [] => rfl
  | item :: items => by simp [sameAll, same_refl item, sameAll_refl items]
end

theorem same_iff (s t : Ty) : same s t = true ↔ s = t :=
  ⟨eq_of_same s t, fun h => h ▸ same_refl s⟩

instance : DecidableEq Ty := fun s t => decidable_of_iff _ (same_iff s t)

/-- The function type `T1 -> T2 -> ... -> Tn` of a chain of types. The chain of
one type is that type, and the empty chain has none. -/
def curried? : List Ty → Option Ty
  | [] => none
  | [ret] => some ret
  | param :: chain => (curried? chain).map (.func param)

def isVoid (t : Ty) : Bool := t = .void

mutual
/-- Whether `void` is the type, or an item in its tuples and lists. A function
that returns `void` is a value like any other, so functions are not entered. -/
def containsVoid : Ty → Bool
  | .prim p => p = .void
  | .tuple items => anyContainsVoid items
  | .list item => containsVoid item
  | .func _ _ => false
def anyContainsVoid : List Ty → Bool
  | [] => false
  | item :: items => containsVoid item || anyContainsVoid items
end

def isFunc : Ty → Bool
  | .func _ _ => true
  | _ => false

def isNumeric : Ty → Bool
  | .int | .float => true
  | _ => false

/-- Whether values of the type have an order. -/
def isComparable : Ty → Bool
  | .int | .float | .bool | .char | .str => true
  | _ => false

end Ty

end LetLang
