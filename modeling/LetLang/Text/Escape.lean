import LetLang.Diagnostic

/-!
# Escapes in literals

The body of a character or string literal stands for itself, except that a
backslash and a letter stand for one character. A backslash without a meaning
is reported at its own place.
-/

namespace LetLang

def escaped? : Char → Option Char
  | 'n' => some '\n'
  | 't' => some '\t'
  | 'r' => some '\r'
  | '0' => some '\x00'
  | '\\' => some '\\'
  | '\'' => some '\''
  | '"' => some '"'
  | _ => none

/-- The content of a literal whose body starts at the given place. -/
def decodeBody (start : Position) : List Char → Except Diagnostic (List Char)
  | [] => .ok []
  | '\\' :: letter :: rest =>
    match escaped? letter with
    | some c => do return c :: (← decodeBody (start.right 2) rest)
    | none => reject (.unknownEscape letter) start
  | c :: rest =>
    if c = '\\' then reject .unterminatedStr start
    else do return c :: (← decodeBody (start.right 1) rest)

end LetLang
