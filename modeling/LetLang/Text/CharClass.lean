/-!
# Character classes given by code point ranges

The classes of the Unicode standard are kept as lists of closed ranges of code
points, and membership is a search of the list.
-/

namespace LetLang

structure CharRange where
  first : Nat
  last : Nat
  deriving DecidableEq, Repr

def CharRange.has (r : CharRange) (c : Char) : Bool :=
  r.first ≤ c.toNat && c.toNat ≤ r.last

/-- A class of characters, as the union of its ranges. -/
structure CharClass where
  ranges : List CharRange

def CharClass.has (s : CharClass) (c : Char) : Bool :=
  s.ranges.any (·.has c)

theorem CharClass.has_iff (s : CharClass) (c : Char) :
    s.has c = true ↔ ∃ r ∈ s.ranges, r.first ≤ c.toNat ∧ c.toNat ≤ r.last := by
  simp [CharClass.has, CharRange.has]

end LetLang
