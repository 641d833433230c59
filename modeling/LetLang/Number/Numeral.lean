import LetLang.Number.Binary64

/-!
# Numerals

How the text of a numeric token is read. An integer is a sign and decimal
digits, and it has to fit into 64 bits. A floating point number is a sign and
digits around an optional point, with an optional exponent of ten; infinity and
the quiet number that is no number have names.
-/

namespace LetLang

def isDigit (c : Char) : Bool := '0' ≤ c && c ≤ '9'

def digitValue (c : Char) : Nat := c.toNat - '0'.toNat

def decimalValue (digits : List Char) : Nat :=
  digits.foldl (fun n c => 10 * n + digitValue c) 0

def isDigits (text : List Char) : Bool := !text.isEmpty && text.all isDigit

/-- Splits off a leading sign; true stands for minus. -/
def splitSign : List Char → Bool × List Char
  | '-' :: rest => (true, rest)
  | '+' :: rest => (false, rest)
  | text => (false, text)

/-- The number of integers of 64 bits below zero, one more than there are above. -/
def integerLimit : Nat := 0x8000000000000000

def readInteger? (text : List Char) : Option Int :=
  let (negative, digits) := splitSign text
  if isDigits digits then
    let n := decimalValue digits
    if negative then (if n ≤ integerLimit then some (-(n : Int)) else none)
    else if n < integerLimit then some n else none
  else none

def readExponent? : List Char → Option Int
  | [] => some 0
  | e :: rest =>
    let (negative, digits) := splitSign rest
    if (e = 'e' || e = 'E') && isDigits digits then
      some (if negative then -(decimalValue digits : Int) else decimalValue digits)
    else none

/-- A magnitude written with digits: at least one digit before or after an
optional point, then an optional exponent. -/
def readDigits? (negative : Bool) (text : List Char) : Option Binary64 :=
  let whole := text.takeWhile isDigit
  let afterWhole := text.dropWhile isDigit
  let (fraction, afterFraction) := match afterWhole with
    | '.' :: rest => (rest.takeWhile isDigit, rest.dropWhile isDigit)
    | rest => ([], rest)
  let digits := whole ++ fraction
  if digits.isEmpty then none
  else (readExponent? afterFraction).map fun exponent =>
    .ofDecimal negative (decimalValue digits) digits.length (exponent - fraction.length)

def readNamed? (negative : Bool) (text : List Char) : Option Binary64 :=
  let name := text.map Char.toLower
  if name = ['i', 'n', 'f'] || name = ['i', 'n', 'f', 'i', 'n', 'i', 't', 'y'] then
    some (.ofMagnitude negative Binary64.infinityBits)
  else if name = ['n', 'a', 'n'] then some (.ofMagnitude negative Binary64.nanBits)
  else none

def readBinary64? (text : List Char) : Option Binary64 :=
  let (negative, magnitude) := splitSign text
  readDigits? negative magnitude <|> readNamed? negative magnitude

end LetLang
