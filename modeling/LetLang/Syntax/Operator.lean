import LetLang.Token.Kind

/-!
# Operators

Prefix and binary operators, the punctuation that writes them, and the classes
of binary operators that share a typing rule.
-/

namespace LetLang

inductive UnaryOp where
  | plus
  | minus
  | not
  deriving DecidableEq, Repr

namespace UnaryOp

def punct : UnaryOp → Punct
  | .plus => .plus
  | .minus => .dash
  | .not => .not

def text (op : UnaryOp) : String := op.punct.text

end UnaryOp

inductive BinaryOp where
  | or
  | and
  | equals
  | notEquals
  | less
  | lessEquals
  | greater
  | greaterEquals
  | add
  | sub
  | mul
  | div
  | mod
  | bitOr
  | bitAnd
  | bitXor
  deriving DecidableEq, Repr

/-- The groups of binary operators with the same operand types. -/
inductive OpClass where
  | equality
  | comparison
  | arithmetic
  | logical
  deriving DecidableEq, Repr

namespace BinaryOp

def punct : BinaryOp → Punct
  | .or => .or
  | .and => .and
  | .equals => .equals
  | .notEquals => .notEquals
  | .less => .less
  | .lessEquals => .lessEquals
  | .greater => .greater
  | .greaterEquals => .greaterEquals
  | .add => .plus
  | .sub => .dash
  | .mul => .star
  | .div => .slash
  | .mod => .percent
  | .bitOr => .pipe
  | .bitAnd => .ampersand
  | .bitXor => .caret

def text (op : BinaryOp) : String := op.punct.text

def opClass : BinaryOp → OpClass
  | .equals | .notEquals => .equality
  | .less | .lessEquals | .greater | .greaterEquals => .comparison
  | .or | .and => .logical
  | .add | .sub | .mul | .div | .mod | .bitOr | .bitAnd | .bitXor => .arithmetic

def all : List BinaryOp :=
  [.or, .and, .equals, .notEquals, .less, .lessEquals, .greater, .greaterEquals, .add, .sub, .mul,
    .div, .mod, .bitOr, .bitAnd, .bitXor]

end BinaryOp

namespace Punct

/-- The prefix operator that the punctuation writes. -/
def unaryOp? : Punct → Option UnaryOp
  | .plus => some .plus
  | .dash => some .minus
  | .not => some .not
  | _ => none

/-- The binary operator that the punctuation writes. -/
def binaryOp? (p : Punct) : Option BinaryOp :=
  BinaryOp.all.find? (·.punct = p)

@[simp] theorem binaryOp?_punct (op : BinaryOp) : op.punct.binaryOp? = some op := by
  cases op <;> rfl

theorem punct_of_binaryOp? {p : Punct} {op : BinaryOp} (h : p.binaryOp? = some op) :
    op.punct = p := by
  simpa using List.find?_some h

@[simp] theorem unaryOp?_punct (op : UnaryOp) : op.punct.unaryOp? = some op := by
  cases op <;> rfl

theorem punct_of_unaryOp? {p : Punct} {op : UnaryOp} (h : p.unaryOp? = some op) :
    op.punct = p := by
  unfold unaryOp? at h
  split at h <;> cases h <;> rfl

end Punct

namespace Kind

def unaryOp? : Kind → Option UnaryOp
  | .punct mark => mark.unaryOp?
  | _ => none

def binaryOp? : Kind → Option BinaryOp
  | .punct mark => mark.binaryOp?
  | _ => none

end Kind

end LetLang
