import LetLang.Ty.Text

/-!
# Kinds of tokens

Tokens are words, literals, punctuation and the end of the text. A word is an
identifier unless it is reserved, for a keyword or for the name of a type.
-/

namespace LetLang

inductive Punct where
  | arrow
  | equals
  | notEquals
  | lessEquals
  | greaterEquals
  | and
  | or
  | openBracket
  | closeBracket
  | openCurly
  | closeCurly
  | openParen
  | closeParen
  | assign
  | not
  | less
  | greater
  | semicolon
  | colon
  | comma
  | plus
  | dash
  | slash
  | star
  | percent
  | pipe
  | ampersand
  | caret
  deriving DecidableEq, Repr

namespace Punct

/-- All punctuation, a text before the texts that it starts with. -/
def all : List Punct :=
  [.arrow, .equals, .notEquals, .lessEquals, .greaterEquals, .and, .or, .openBracket,
    .closeBracket, .openCurly, .closeCurly, .openParen, .closeParen, .assign, .not, .less,
    .greater, .semicolon, .colon, .comma, .plus, .dash, .slash, .star, .percent, .pipe,
    .ampersand, .caret]

def chars : Punct → List Char
  | .arrow => ['-', '>']
  | .equals => ['=', '=']
  | .notEquals => ['!', '=']
  | .lessEquals => ['<', '=']
  | .greaterEquals => ['>', '=']
  | .and => ['&', '&']
  | .or => ['|', '|']
  | .openBracket => ['[']
  | .closeBracket => [']']
  | .openCurly => ['\x7b']
  | .closeCurly => ['\x7d']
  | .openParen => ['(']
  | .closeParen => [')']
  | .assign => ['=']
  | .not => ['!']
  | .less => ['<']
  | .greater => ['>']
  | .semicolon => [';']
  | .colon => [':']
  | .comma => [',']
  | .plus => ['+']
  | .dash => ['-']
  | .slash => ['/']
  | .star => ['*']
  | .percent => ['%']
  | .pipe => ['|']
  | .ampersand => ['&']
  | .caret => ['^']

def text (p : Punct) : String := String.ofList p.chars

end Punct

inductive Keyword where
  | letWord
  | fnWord
  | ifWord
  | elseWord
  | forWord
  | inWord
  | trueWord
  | falseWord
  deriving DecidableEq, Repr

namespace Keyword

def all : List Keyword :=
  [.letWord, .fnWord, .ifWord, .elseWord, .forWord, .inWord, .trueWord, .falseWord]

def text : Keyword → String
  | .letWord => "let"
  | .fnWord => "fn"
  | .ifWord => "if"
  | .elseWord => "else"
  | .forWord => "for"
  | .inWord => "in"
  | .trueWord => "true"
  | .falseWord => "false"

end Keyword

def Prim.all : List Prim := [.int, .float, .char, .str, .bool, .void]

inductive LiteralKind where
  | int
  | float
  | char
  | str
  deriving DecidableEq, Repr

inductive Kind where
  | eof
  | identifier
  | literal (form : LiteralKind)
  | punct (mark : Punct)
  | keyword (word : Keyword)
  | typeName (name : Prim)
  deriving DecidableEq, Repr

namespace Kind

/-- The kinds of the reserved words, with their texts. -/
def reservedWords : List (String × Kind) :=
  Keyword.all.map (fun word => (word.text, .keyword word)) ++
    Prim.all.map (fun name => (name.text, .typeName name))

def reserved? (word : String) : Option Kind := reservedWords.lookup word

def ofWord (word : String) : Kind := (reserved? word).getD .identifier

/-- How messages name a kind: a fixed text in quotes, or a description. -/
def description : Kind → String
  | .eof => "end of input"
  | .identifier => "identifier"
  | .literal .int => "int literal"
  | .literal .float => "float literal"
  | .literal .char => "char literal"
  | .literal .str => "string literal"
  | .punct mark => "'" ++ mark.text ++ "'"
  | .keyword word => "'" ++ word.text ++ "'"
  | .typeName name => "'" ++ name.text ++ "'"

end Kind

end LetLang
