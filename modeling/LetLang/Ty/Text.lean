import LetLang.Ty.Basic

/-!
# The text of a type

Types are shown in the notation in which they are written. An arrow nests to
the right, so only a function in parameter position needs parentheses.
-/

namespace LetLang

def Prim.text : Prim → String
  | .int => "int"
  | .float => "float"
  | .char => "char"
  | .str => "str"
  | .bool => "bool"
  | .void => "void"

namespace Ty

mutual
def text : Ty → String
  | .prim p => p.text
  | .tuple items => "(" ++ textItems items ++ ")"
  | .list item => "[" ++ text item ++ "]"
  | .func param ret =>
    (if param.isFunc then "(" ++ text param ++ ")" else text param) ++ " -> " ++ text ret
/-- Types with a comma and a space between neighbours. -/
def textItems : List Ty → String
  | [] => ""
  | [item] => text item
  | item :: items => text item ++ ", " ++ textItems items
end

end Ty

end LetLang
