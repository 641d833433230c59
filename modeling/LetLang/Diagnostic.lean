import LetLang.Position

/-!
# Diagnostics

A program is rejected with one diagnostic: a cause and a place. Causes name
what went wrong and hold the texts that their message shows; the message is a
function of the cause, and so is the stage that reports it.
-/

namespace LetLang

inductive Stage where
  | lexical
  | grammatical
  | typing
  /-- A broken promise between stages. -/
  | internal
  deriving DecidableEq, Repr

def Stage.heading : Stage → String
  | .lexical => "LexError"
  | .grammatical => "ParseError"
  | .typing => "TypeError"
  | .internal => "InternalError"

inductive Cause where
  | unexpectedChar (found : Char)
  | unterminatedStr
  | unterminatedChar
  | unknownEscape (found : Char)
  | notOneChar (body : String)
  | unexpectedToken (expected found : String)
  | badNumber (found : String)
  | unknownName (found : String)
  | tupleLength (expected found : String)
  | wrongType (expected found : String)
  /-- Nothing says which items an empty list has. -/
  | bareEmptyList
  | wrongReturn (expected found : String) (semicolonMissing : Bool)
  | notCallable (found : String)
  | wrongArgument (expected found : String)
  | voidBinding (found : String)
  | indexOutOfRange (size : Nat) (index : Int)
  | indexNotLiteral
  | wrongIndex (found : String)
  | notIndexable (found : String)
  | wrongBranch (expected found : String) (semicolonMissing : Bool)
  | notIterable (found : String)
  | wrongOperand (operator expected found : String)
  | wrongLeft (operator expected found : String)
  | wrongRight (operator expected found : String)
  /-- A stage was handed what no earlier stage makes. -/
  | fault (detail : String)
  deriving DecidableEq, Repr

namespace Cause

def stage : Cause → Stage
  | .unexpectedChar _ | .unterminatedStr | .unterminatedChar | .unknownEscape _
  | .notOneChar _ => .lexical
  | .unexpectedToken .. | .badNumber _ => .grammatical
  | .fault _ => .internal
  | .unknownName _ | .tupleLength .. | .wrongType .. | .bareEmptyList | .wrongReturn ..
  | .notCallable _ | .wrongArgument .. | .voidBinding _ | .indexOutOfRange .. | .indexNotLiteral
  | .wrongIndex _ | .notIndexable _ | .wrongBranch .. | .notIterable _ | .wrongOperand ..
  | .wrongLeft .. | .wrongRight .. => .typing

def semicolonRemark (semicolonMissing : Bool) : String :=
  if semicolonMissing then ", ';' may be missing" else ""

def contrast (expected found : String) : String :=
  ": expected " ++ expected ++ ", found " ++ found

def message : Cause → String
  | .unexpectedChar found => "Unexpected character: found " ++ found.toString
  | .unterminatedStr => "Unterminated string literal"
  | .unterminatedChar => "Unterminated char literal"
  | .unknownEscape found => "Invalid escape sequence: found \\" ++ found.toString
  | .notOneChar body =>
    "Invalid char literal: expected a single character, found '" ++ body ++ "'"
  | .unexpectedToken expected found => "Unexpected token" ++ contrast expected found
  | .badNumber found => "Invalid number literal: found " ++ found
  | .unknownName found => "undefined identifier: found " ++ found
  | .tupleLength expected found => "Tuple length mismatch" ++ contrast expected found
  | .wrongType expected found => "Type mismatch" ++ contrast expected found
  | .bareEmptyList => "Empty list type cannot be inferred: found []"
  | .wrongReturn expected found semicolonMissing =>
    "Function return type mismatch" ++ semicolonRemark semicolonMissing ++ contrast expected found
  | .notCallable found => "non-callable target" ++ contrast "function" found
  | .wrongArgument expected found => "Function parameter type mismatch" ++ contrast expected found
  | .voidBinding found => "A decl type cannot contain void: found " ++ found
  | .indexOutOfRange size index =>
    "Tuple index out of range" ++ contrast ("int < " ++ toString size) (toString index)
  | .indexNotLiteral =>
    "Invalid tuple index: only int literal is allowed for tuple index: found expr"
  | .wrongIndex found => "Index type mismatch" ++ contrast "int" found
  | .notIndexable found => "Indexable type mismatch" ++ contrast "list, str or tuple" found
  | .wrongBranch expected found semicolonMissing =>
    "'else' block should have the same type as 'if' block" ++
      semicolonRemark semicolonMissing ++ contrast expected found
  | .notIterable found => "Loop target should be a list: found " ++ found
  | .wrongOperand operator expected found =>
    "Operand type mismatch for '" ++ operator ++ "'" ++ contrast expected found
  | .wrongLeft operator expected found =>
    "Left-hand operand type mismatch for '" ++ operator ++ "'" ++ contrast expected found
  | .wrongRight operator expected found =>
    "Right-hand operand type mismatch for '" ++ operator ++ "'" ++ contrast expected found
  | .fault detail => "internal compiler error: " ++ detail

end Cause

structure Diagnostic where
  cause : Cause
  position : Position
  deriving DecidableEq, Repr

namespace Diagnostic

def stage (d : Diagnostic) : Stage := d.cause.stage

def message (d : Diagnostic) : String := d.cause.message

def display (d : Diagnostic) : String := d.message ++ " at " ++ d.position.text

/-- Whether the program itself is at fault. -/
def isUserFacing (d : Diagnostic) : Bool := d.stage ≠ .internal

end Diagnostic

def reject {α : Type} (cause : Cause) (position : Position) : Except Diagnostic α :=
  .error ⟨cause, position⟩

def ensure (condition : Bool) (cause : Cause) (position : Position) : Except Diagnostic Unit :=
  if condition then .ok () else reject cause position

end LetLang
