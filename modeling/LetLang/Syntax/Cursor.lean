import LetLang.Diagnostic
import LetLang.Token.Basic

/-!
# Cursors and rules

A cursor stands in a list of tokens that ends with an end mark, and never moves
past that mark. A rule of the grammar reads from a cursor: it yields a value or
a diagnostic, and in both cases the cursor where it stopped.
-/

namespace LetLang

structure EndMark where
  value : String
  position : Position
  deriving DecidableEq, Repr

def EndMark.token (mark : EndMark) : Token := ⟨.eof, mark.value, mark.position⟩

/-- A place in a list of tokens: the tokens ahead, and the mark behind them. -/
structure Cursor where
  ahead : List Token
  stop : EndMark
  deriving DecidableEq, Repr

namespace Cursor

/-- A cursor at the first token. Tokens without an end mark get one where their
last token stands. -/
def ofTokens (tokens : List Token) : Cursor :=
  match tokens.getLast? with
  | none => ⟨[], ⟨Token.endText, .start⟩⟩
  | some last =>
    if last.kind = .eof then ⟨tokens.dropLast, ⟨last.value, last.position⟩⟩
    else ⟨tokens, ⟨Token.endText, last.position⟩⟩

def current (c : Cursor) : Token := c.ahead.headD c.stop.token

def advance (c : Cursor) : Cursor := { c with ahead := c.ahead.tail }

def hasTokens (c : Cursor) : Bool := c.current.kind ≠ .eof

def unexpected (c : Cursor) (expected : String) : Diagnostic :=
  ⟨.unexpectedToken expected c.current.display, c.current.position⟩

end Cursor

abbrev Rule (α : Type) := EStateM Diagnostic Cursor α

namespace Rule

def current : Rule Token := do return (← get).current

def kind : Rule Kind := do return (← current).kind

def advance : Rule Token := modifyGet fun c => (c.current, c.advance)

def unexpected {α : Type} (expected : String) : Rule α := do throw ((← get).unexpected expected)

def expect (expected : Kind) : Rule Token := do
  if (← kind) = expected then advance else unexpected expected.description

def expectPunct (mark : Punct) : Rule Token := expect (.punct mark)

/-- The answer of a rule that has no step left to refer to other rules. -/
def tooDeep {α : Type} : Rule α := do
  throw ⟨.fault "the rules are nested deeper than the program", (← current).position⟩

end Rule

end LetLang
