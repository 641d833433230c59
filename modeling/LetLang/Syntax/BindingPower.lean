import LetLang.Syntax.Operator

/-!
# Binding powers

An operator takes the operand between two operators if it binds the operand
more strongly than the other does. The powers are the levels of the grammar,
from the weakest to the strongest.
-/

namespace LetLang

/-- The levels of the grammar, the weakest first. -/
inductive BindingPower where
  | whole
  | arrow
  | logicalOr
  | logicalAnd
  | equality
  | relational
  | additive
  | multiplicative
  | unary
  | call
  | primary
  deriving DecidableEq, Repr

namespace BindingPower

def rank : BindingPower → Nat
  | .whole => 0
  | .arrow => 1
  | .logicalOr => 2
  | .logicalAnd => 3
  | .equality => 4
  | .relational => 5
  | .additive => 6
  | .multiplicative => 7
  | .unary => 8
  | .call => 9
  | .primary => 10

instance : LT BindingPower := ⟨fun a b => a.rank < b.rank⟩

instance : LE BindingPower := ⟨fun a b => a.rank ≤ b.rank⟩

instance (a b : BindingPower) : Decidable (a < b) := inferInstanceAs (Decidable (a.rank < b.rank))

instance (a b : BindingPower) : Decidable (a ≤ b) := inferInstanceAs (Decidable (a.rank ≤ b.rank))

end BindingPower

def BinaryOp.power : BinaryOp → BindingPower
  | .or => .logicalOr
  | .and => .logicalAnd
  | .equals | .notEquals => .equality
  | .less | .lessEquals | .greater | .greaterEquals => .relational
  | .add | .sub | .bitOr | .bitXor => .additive
  | .mul | .div | .mod | .bitAnd => .multiplicative

/-- How strongly a token binds the expression before it. Only binary operators
and the openings of calls and indices bind. -/
def Kind.power? : Kind → Option BindingPower
  | .punct .openParen | .punct .openBracket => some .call
  | kind => kind.binaryOp?.map (·.power)

def Kind.typePower? : Kind → Option BindingPower
  | .punct .arrow => some .arrow
  | _ => none

end LetLang
