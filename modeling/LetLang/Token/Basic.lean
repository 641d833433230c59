import LetLang.Position
import LetLang.Text.Quoted
import LetLang.Token.Kind

/-!
# Tokens

A token is a kind, a value and the place of its first character. The value is
the text of the token, except that a character or string literal holds its
content, with the escapes decoded.
-/

namespace LetLang

structure Token where
  kind : Kind
  value : String
  position : Position
  deriving DecidableEq, Repr

namespace Token

/-- The value of the token that marks the end of a program. -/
def endText : String := "EOF"

def endAt (position : Position) : Token := ⟨.eof, endText, position⟩

def display (t : Token) : String :=
  match t.kind with
  | .eof => Kind.eof.description
  | .literal .str => QuoteStyle.string.display t.value
  | .literal .char => QuoteStyle.character.display t.value
  | _ => t.value

end Token

end LetLang
