import LetLang.Syntax.Tree
import LetLang.Ty.Text

/-!
# Types of literals and operands

What each operator asks of its operands and gives back, and the types of
literals and of the items of a tuple.
-/

namespace LetLang

def Literal.ty : Literal → Ty
  | .int _ => .int
  | .float _ => .float
  | .char _ => .char
  | .str _ => .str
  | .bool _ => .bool

namespace UnaryOp

def accepts (op : UnaryOp) (ty : Ty) : Bool :=
  match op with
  | .plus | .minus => ty.isNumeric
  | .not => ty = .bool

def operands : UnaryOp → String
  | .plus | .minus => "int or float"
  | .not => "bool"

end UnaryOp

namespace OpClass

/-- Whether the operators of a class take a left operand of the type. The right
operand always has the type of the left one. -/
def accepts (c : OpClass) (ty : Ty) : Bool :=
  match c with
  | .equality => true
  | .comparison => ty.isComparable
  | .arithmetic => ty.isNumeric
  | .logical => ty = .bool

def operands : OpClass → String
  | .equality => "any type"
  | .comparison => "int, float, bool, char or str"
  | .arithmetic => "int or float"
  | .logical => "bool"

def result (c : OpClass) (ty : Ty) : Ty :=
  match c with
  | .arithmetic => ty
  | .equality | .comparison | .logical => .bool

end OpClass

/-- The type of the parts that an integer picks from a value of the type. -/
def Ty.element? : Ty → Option Ty
  | .list item => some item
  | .str => some .char
  | _ => none

def Ty.item? (items : List Ty) (index : Int) : Option Ty :=
  if 0 ≤ index then items[index.toNat]? else none

end LetLang
