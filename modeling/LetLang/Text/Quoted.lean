import LetLang.Text.DefaultIgnorable
import LetLang.Text.GraphemeExtend
import LetLang.Text.Unprintable

/-!
# Quoted displays of text

Messages show the content of a literal between quotes on one line. A character
with an escape letter is shown by that letter, a character that is plain to
read is shown as it is, and any other is named by its code point. The two
displays of the language, for characters and for strings, are the two values
of `QuoteStyle` below.
-/

namespace LetLang

structure QuoteStyle where
  mark : Char
  letters : List (Char × Char)
  /-- Whether a character without a letter is shown as it is. -/
  plain : Char → Bool

namespace QuoteStyle

/-- A character named by its code point, in the fewest hexadecimal digits. -/
def codePoint (c : Char) : List Char :=
  ['\\', 'u', '\x7b'] ++ Nat.toDigits 16 c.toNat ++ ['\x7d']

def showChar (style : QuoteStyle) (c : Char) : List Char :=
  match style.letters.lookup c with
  | some letter => ['\\', letter]
  | none => if style.plain c then [c] else codePoint c

def display (style : QuoteStyle) (text : String) : String :=
  String.ofList (style.mark :: text.toList.flatMap style.showChar ++ [style.mark])

def string : QuoteStyle where
  mark := '"'
  letters := [('\x00', '0'), ('\t', 't'), ('\r', 'r'), ('\n', 'n'), ('\\', '\\'), ('"', '"')]
  plain c := !attaches c && !defaultIgnorables.has c && !unprintables.has c

def character : QuoteStyle where
  mark := '\''
  letters := [('\t', 't'), ('\r', 'r'), ('\n', 'n'), ('\'', '\''), ('"', '"'), ('\\', '\\')]
  plain c := 0x20 ≤ c.toNat && c.toNat ≤ 0x7e

end QuoteStyle

end LetLang
