import LetLang.Text.Escape
import LetLang.Token.Basic
import LetLang.Token.Lexeme

/-!
# Reading tokens from a source

A scanner stands at a place in a source and reads one token at a time, passing
blanks and comments. It reads the end of the source as a token too. After that
token, or after a diagnostic, it is done and reads nothing more. A scanner that
meets a diagnostic stays in front of the lexeme that it rejects.
-/

namespace LetLang

def bodyOf (lexeme : List Char) : List Char := lexeme.tail.dropLast

/-- The token that a lexeme makes at a place. Blanks and comments make none. -/
def Front.token? (f : Front) (position : Position) : Except Diagnostic (Option Token) :=
  let token (kind : Kind) (value : List Char) : Option Token :=
    some ⟨kind, String.ofList value, position⟩
  match f.form with
  | .blank | .comment => .ok none
  | .word => .ok (token (.ofWord (String.ofList f.lexeme)) f.lexeme)
  | .float => .ok (token (.literal .float) f.lexeme)
  | .int => .ok (token (.literal .int) f.lexeme)
  | .punct mark => .ok (token (.punct mark) f.lexeme)
  | .quoted .double => do
    return token (.literal .str) (← decodeBody (position.right 1) (bodyOf f.lexeme))
  | .quoted .single => do
    let content ← decodeBody (position.right 1) (bodyOf f.lexeme)
    if content.length = 1 then return token (.literal .char) content
    else reject (.notOneChar (String.ofList (bodyOf f.lexeme))) position
  | .openQuote .double => reject .unterminatedStr position
  | .openQuote .single => reject .unterminatedChar position

def byteCount : List Char → Nat
  | [] => 0
  | c :: text => c.utf8Size + byteCount text

structure Scanner where
  rest : List Char
  position : Position
  done : Bool
  deriving DecidableEq, Repr

abbrev Reading := Except Diagnostic Token

namespace Scanner

def ofSource (source : String) : Scanner := ⟨source.toList, .start, false⟩

def atEnd (s : Scanner) : Bool := s.rest.isEmpty

def remainder (s : Scanner) : String := String.ofList s.rest

def past (s : Scanner) (f : Front) : Scanner :=
  { s with rest := f.rest, position := s.position.after f.lexeme }

def finish (s : Scanner) : Scanner := { s with done := true }

/-- Reads the next token, whether or not the scanner is done. -/
def read (s : Scanner) : Reading × Scanner :=
  match s.rest with
  | [] => (.ok (.endAt s.position), s.finish)
  | c :: _ =>
    match _hf : front? s.rest with
    | none => (reject (.unexpectedChar c) s.position, s.finish)
    | some f =>
      match f.token? s.position with
      | .error d => (.error d, s.finish)
      | .ok (some token) => (.ok token, s.past f)
      | .ok none => read (s.past f)
termination_by s.rest.length
decreasing_by exact front?_length_lt ‹_›

def next (s : Scanner) : Option Reading × Scanner :=
  if s.done then (none, s)
  else
    let (reading, s) := s.read
    (some reading, s)

/-- Splits a text behind a number of UTF-8 bytes, or at its end. Inside a character
there is no place to split it at. -/
def splitBytes? (bytes : Nat) : List Char → Option (List Char × List Char)
  | [] => some ([], [])
  | c :: rest =>
    if bytes = 0 then some ([], c :: rest)
    else if c.utf8Size ≤ bytes then
      (splitBytes? (bytes - c.utf8Size) rest).map fun (front, back) => (c :: front, back)
    else none

def offset (source : String) (s : Scanner) : Nat :=
  byteCount source.toList - byteCount s.rest

/-- Moves the scanner on by a number of UTF-8 bytes, at most to the end. The sum of
the offset and the number has to fit in 64 bits, even if it is beyond the end. A
scanner that is done stays so. -/
def advance? (source : String) (s : Scanner) (bytes : Nat) : Option Scanner :=
  if s.offset source + bytes < UInt64.size then
    (splitBytes? bytes s.rest).map fun (passed, rest) =>
      { s with rest, position := s.position.after passed }
  else none

theorem read_length_lt {s : Scanner} {token : Token} {next : Scanner}
    (h : s.read = (.ok token, next)) (hs : s.done = false) (hn : next.done = false) :
    next.rest.length < s.rest.length := by
  fun_induction read s with
  | case1 => cases h; simp [finish] at hn
  | case2 => cases h
  | case3 => cases h
  | case4 s c tail hr f hf t ht =>
    cases h
    exact front?_length_lt hf
  | case5 s c tail hr f hf ht ih =>
    exact Nat.lt_trans (ih h hs) (front?_length_lt hf)

/-- All that a scanner still reads, tokens and last the end or a diagnostic,
and the scanner when it is done. -/
def drain (s : Scanner) : List Reading × Scanner :=
  if _hs : s.done then ([], s)
  else
    match _hr : s.read with
    | (.error d, last) => ([.error d], last)
    | (.ok token, next) =>
      if _hn : next.done then ([.ok token], next)
      else
        let (readings, last) := drain next
        (.ok token :: readings, last)
termination_by s.rest.length
decreasing_by exact read_length_lt ‹_› (by simpa using _hs) (by simpa using _hn)

end Scanner

/-- The tokens of a source, the end among them, or the first diagnostic. -/
def tokenize (source : String) : Except Diagnostic (List Token) :=
  (Scanner.ofSource source).drain.1.mapM id

end LetLang
