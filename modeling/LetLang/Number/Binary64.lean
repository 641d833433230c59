/-!
# Binary floating point numbers of 64 bits

A number is its bit pattern, so that two numbers agree exactly when no
operation can tell them apart. `ofRatio` rounds a ratio of natural numbers to
the nearest pattern in exact arithmetic, a tie to the even one.
-/

namespace LetLang

/-- The quotient nearest to `num / den`, a tie to the even neighbour. -/
def roundDiv (num den : Nat) : Nat :=
  let low := num / den
  let twice := 2 * (num % den)
  if twice < den then low
  else if den < twice then low + 1
  else low + low % 2

theorem roundDiv_near {num den : Nat} (h : 0 < den) :
    2 * num ≤ 2 * (den * roundDiv num den) + den ∧
      2 * (den * roundDiv num den) ≤ 2 * num + den := by
  have hd := Nat.div_add_mod num den
  have hm := Nat.mod_lt num h
  simp only [roundDiv]
  split
  · omega
  · split
    · rw [Nat.mul_add]
      omega
    · rcases Nat.mod_two_eq_zero_or_one (num / den) with he | he
      · rw [he, Nat.add_zero]
        omega
      · rw [he, Nat.mul_add]
        omega

theorem roundDiv_tie {num den : Nat} (h : 2 * (num % den) = den) : roundDiv num den % 2 = 0 := by
  simp only [roundDiv, h, Nat.lt_irrefl, if_false]
  omega

structure Binary64 where
  bits : UInt64
  deriving DecidableEq, Repr

namespace Binary64

def infinityBits : Nat := 0x7ff0000000000000

def signBit : Nat := 0x8000000000000000

def nanBits : Nat := 0x7ff8000000000000

def ofMagnitude (negative : Bool) (magnitude : Nat) : Binary64 :=
  ⟨.ofNat (if negative then signBit + magnitude else magnitude)⟩

/-- The exponent of the last place that a ratio in the binade of `num / den`
keeps: 52 places below the leading one, and never below that of the smallest
positive number. Both parts are positive. -/
def unitExponent (num den : Nat) : Int :=
  let lead : Int := (num.log2 : Int) - den.log2
  let reached := if 0 ≤ lead then den <<< lead.toNat ≤ num else den ≤ num <<< (-lead).toNat
  max (-1074) ((if reached then lead else lead - 1) - 52)

/-- The pattern of the magnitude nearest to `num / den`. Counting units from
the smallest binade makes a carry out of the significand raise the exponent,
and all that lies above the largest finite number becomes infinity. -/
def magnitude (num den : Nat) : Nat :=
  if num = 0 then 0
  else
    let unit := unitExponent num den
    let units := if 0 ≤ unit then roundDiv num (den <<< unit.toNat)
      else roundDiv (num <<< (-unit).toNat) den
    min infinityBits ((unit + 1074).toNat <<< 52 + units)

def ofRatio (negative : Bool) (num den : Nat) : Binary64 :=
  ofMagnitude negative (magnitude num den)

/-- The exponents of ten past which a significand of `digits` digits is
certain to round to zero or to infinity. -/
def exponentLimit (digits : Nat) : Nat := digits + 400

def ofDecimal (negative : Bool) (significand digits : Nat) (exponent : Int) : Binary64 :=
  let limit := exponentLimit digits
  if 0 ≤ exponent then ofRatio negative (significand * Nat.pow 10 (min limit exponent.toNat)) 1
  else ofRatio negative significand (Nat.pow 10 (min limit (-exponent).toNat))

end Binary64

end LetLang
