import LetLang.Syntax.BindingPower
import LetLang.Syntax.Tree
import LetLang.Token.Basic

/-!
# Printing

The tokens that are written for a tree, with parentheses around an operand only
where the grammar needs them: around an operand that binds more weakly than what
stands beside it. The places in a tree do not matter, and every token stands at
the start.

Some trees can be written in several ways. A `Style` chooses the texts of
floating point numbers, which chains of conditionals go without braces, and
behind which declarations a semicolon stands.
-/

namespace LetLang

structure Style where
  floatText : Binary64 → String
  /-- Whether a branch that is a conditional and nothing else goes without braces. -/
  chains : Block → Bool
  /-- Whether a semicolon stands behind a declaration of a module. -/
  ends : Decl → Bool

-- ---------------------------------------------------------------------------
-- Tokens
-- ---------------------------------------------------------------------------

def Punct.token (mark : Punct) : Token := ⟨.punct mark, mark.text, .start⟩

def Keyword.token (word : Keyword) : Token := ⟨.keyword word, word.text, .start⟩

def Token.ofName (name : String) : Token := ⟨.identifier, name, .start⟩

def Literal.token (style : Style) : Literal → Token
  | .int value => ⟨.literal .int, toString value, .start⟩
  | .float value => ⟨.literal .float, style.floatText value, .start⟩
  | .char value => ⟨.literal .char, value.toString, .start⟩
  | .str value => ⟨.literal .str, value, .start⟩
  | .bool true => Keyword.trueWord.token
  | .bool false => Keyword.falseWord.token

def enclosed (left right : Punct) (inside : List Token) : List Token :=
  left.token :: (inside ++ [right.token])

def grouped (needed : Bool) (inside : List Token) : List Token :=
  if needed then enclosed .openParen .closeParen inside else inside

-- ---------------------------------------------------------------------------
-- Types
-- ---------------------------------------------------------------------------

/-- The level of a type as it is printed. -/
def Ty.strength : Ty → BindingPower
  | .func _ _ => .arrow
  | _ => .primary

theorem Ty.arrow_le_strength (t : Ty) : .arrow ≤ t.strength := by
  cases t with
  | func => exact Nat.le_refl _
  | _ => exact (by decide : BindingPower.arrow ≤ .primary)

theorem Ty.arrow_lt_strength {t : Ty} (h : t.isFunc = false) : .arrow < t.strength := by
  cases t with
  | func => cases h
  | _ => exact (by decide : BindingPower.arrow < .primary)

mutual
def Ty.print : Ty → List Token
  | .prim name => [⟨.typeName name, name.text, .start⟩]
  | .tuple items => enclosed .openParen .closeParen (Ty.printItems items)
  | .list item => enclosed .openBracket .closeBracket item.print
  | .func param ret => grouped param.isFunc param.print ++ Punct.arrow.token :: ret.print
def Ty.printItems : List Ty → List Token
  | [] => []
  | item :: items => item.print ++ Ty.printMore items
def Ty.printMore : List Ty → List Token
  | [] => []
  | item :: items => Punct.comma.token :: (item.print ++ Ty.printMore items)
end

def Ascription.printLink (a : Ascription) : List Token := grouped a.ty.isFunc a.ty.print

def Ascription.printChain : List Ascription → List Token
  | [] => []
  | first :: more =>
    first.printLink ++ more.flatMap fun a => Punct.arrow.token :: a.printLink

def Param.print (param : Param) : List Token := .ofName param.name :: param.type.ty.print

def Param.printAll : List Param → List Token
  | [] => []
  | first :: more => first.print ++ more.flatMap fun param => Punct.comma.token :: param.print

-- ---------------------------------------------------------------------------
-- Expressions
-- ---------------------------------------------------------------------------

def Expr.strength : Expr → BindingPower
  | .binary op _ _ _ => op.power
  | .unary _ _ _ => .unary
  | .call _ _ _ _ | .index _ _ _ => .call
  | _ => .primary

/-- Whether a block is a conditional and nothing else. -/
def Block.isCond : Block → Bool
  | ⟨[.expr (.cond _ _ _ _)], false, _⟩ => true
  | _ => false

mutual
def Expr.print (style : Style) : Expr → List Token
  | .literal value _ => [value.token style]
  | .ident name _ => [.ofName name]
  | .tuple items _ => enclosed .openParen .closeParen (Expr.printItems style items)
  | .list items _ => enclosed .openBracket .closeBracket (Expr.printItems style items)
  | .func params returns body _ =>
    Keyword.fnWord.token :: (enclosed .openParen .closeParen (Param.printAll params) ++
      (Ascription.printChain returns ++ body.print style false))
  | .call callee args _ _ =>
    grouped (callee.strength < .call) (callee.print style) ++
      enclosed .openParen .closeParen (Expr.printItems style args)
  | .block body => body.print style false
  | .index target place _ =>
    grouped (target.strength < .call) (target.print style) ++
      enclosed .openBracket .closeBracket (place.print style)
  | .cond test thenBlock elseBlock _ =>
    Keyword.ifWord.token :: (test.print style ++ (thenBlock.print style false ++
      Keyword.elseWord.token ::
        elseBlock.print style (style.chains elseBlock && elseBlock.isCond)))
  | .loop binder iterable body _ =>
    Keyword.forWord.token :: .ofName binder :: Keyword.inWord.token ::
      (iterable.print style ++ body.print style false)
  | .unary op operand _ =>
    op.punct.token :: grouped (operand.strength < .unary) (operand.print style)
  | .binary op left right _ =>
    grouped (left.strength < op.power) (left.print style) ++
      op.punct.token :: grouped (right.strength ≤ op.power) (right.print style)
def Expr.printItems (style : Style) : List Expr → List Token
  | [] => []
  | item :: items => item.print style ++ Expr.printMore style items
def Expr.printMore (style : Style) : List Expr → List Token
  | [] => []
  | item :: items => Punct.comma.token :: (item.print style ++ Expr.printMore style items)
def Decl.print (style : Style) : Decl → List Token
  | ⟨name, declared, value, _⟩ =>
    Keyword.letWord.token :: .ofName name ::
      ((match declared with
        | some written => Punct.colon.token :: written.ty.print
        | none => []) ++ Punct.assign.token :: value.print style)
def Stmt.print (style : Style) : Stmt → List Token
  | .decl d => d.print style
  | .expr e => e.print style
/-- The tokens of statements. A semicolon behind the last one says that they
yield no value. -/
def Stmt.printAll (style : Style) : List Stmt → Bool → List Token
  | [], _ => []
  | s :: ss, returnsVoid =>
    s.print style ++ (if ss.isEmpty && !returnsVoid then []
      else Punct.semicolon.token :: Stmt.printAll style ss returnsVoid)
/-- The tokens of a block, with or without its braces. -/
def Block.print (style : Style) : Block → Bool → List Token
  | ⟨stmts, returnsVoid, _⟩, bare =>
    if bare then Stmt.printAll style stmts returnsVoid
    else enclosed .openCurly .closeCurly (Stmt.printAll style stmts returnsVoid)
end

def Module.print (style : Style) (m : Module) : List Token :=
  m.decls.flatMap fun d =>
    d.print style ++ if style.ends d then [Punct.semicolon.token] else []

-- ---------------------------------------------------------------------------
-- Trees up to places
-- ---------------------------------------------------------------------------

def Token.unplaced (t : Token) : Token := { t with position := .start }

def Ascription.unplaced (a : Ascription) : Ascription := { a with position := .start }

def Param.unplaced (param : Param) : Param := ⟨param.name, param.type.unplaced, .start⟩

mutual
@[simp] def Expr.unplaced : Expr → Expr
  | .literal value _ => .literal value .start
  | .ident name _ => .ident name .start
  | .tuple items _ => .tuple (Expr.allUnplaced items) .start
  | .list items _ => .list (Expr.allUnplaced items) .start
  | .func params returns body _ =>
    .func (params.map (·.unplaced)) (returns.map (·.unplaced)) body.unplaced .start
  | .call callee args _ _ => .call callee.unplaced (Expr.allUnplaced args) .start .start
  | .block body => .block body.unplaced
  | .index target place _ => .index target.unplaced place.unplaced .start
  | .cond test thenBlock elseBlock _ =>
    .cond test.unplaced thenBlock.unplaced elseBlock.unplaced .start
  | .loop binder iterable body _ => .loop binder iterable.unplaced body.unplaced .start
  | .unary op operand _ => .unary op operand.unplaced .start
  | .binary op left right _ => .binary op left.unplaced right.unplaced .start
def Expr.allUnplaced : List Expr → List Expr
  | [] => []
  | e :: es => e.unplaced :: Expr.allUnplaced es
def Decl.unplaced : Decl → Decl
  | ⟨name, declared, value, _⟩ => ⟨name, declared.map (·.unplaced), value.unplaced, .start⟩
def Stmt.unplaced : Stmt → Stmt
  | .decl d => .decl d.unplaced
  | .expr e => .expr e.unplaced
def Stmt.allUnplaced : List Stmt → List Stmt
  | [] => []
  | s :: ss => s.unplaced :: Stmt.allUnplaced ss
def Block.unplaced : Block → Block
  | ⟨stmts, returnsVoid, _⟩ => ⟨Stmt.allUnplaced stmts, returnsVoid, .start⟩
end

def Module.unplaced (m : Module) : Module := ⟨m.decls.map (·.unplaced)⟩

end LetLang
