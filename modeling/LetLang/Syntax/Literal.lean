import LetLang.Diagnostic
import LetLang.Number.Numeral
import LetLang.Token.Basic

/-!
# Literals

The values that a literal can have, and the value of a token that is one.
-/

namespace LetLang

inductive Literal where
  | int (value : Int)
  | float (value : Binary64)
  | char (value : Char)
  | str (value : String)
  | bool (value : Bool)
  deriving DecidableEq, Repr

namespace Literal

def ofNumeral (text : String) (value : Option Literal) : Except Cause Literal :=
  match value with
  | some literal => .ok literal
  | none => .error (.badNumber text)

/-- The value of a token, if tokens of its kind are literals. -/
def ofToken? (token : Token) : Option (Except Cause Literal) :=
  match token.kind with
  | .literal .int => some (ofNumeral token.value ((readInteger? token.value.toList).map .int))
  | .literal .float => some (ofNumeral token.value ((readBinary64? token.value.toList).map .float))
  | .literal .char =>
    match token.value.toList with
    | c :: _ => some (.ok (.char c))
    | [] => some (.error (.fault "char token without a character"))
  | .literal .str => some (.ok (.str token.value))
  | .keyword .trueWord => some (.ok (.bool true))
  | .keyword .falseWord => some (.ok (.bool false))
  | _ => none

end Literal

end LetLang
