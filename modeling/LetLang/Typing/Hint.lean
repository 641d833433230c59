import LetLang.Syntax.Tree

/-!
# Expressions that need a hint

The items of an empty list have no type of their own. An expression whose type
hangs on such a list can be typed only where something else says which type is
expected, and `needsHint` tells these expressions from their shape.
-/

namespace LetLang

mutual
/-- Whether the type of an expression can only come from outside: a list of
nothing but such items, a tuple with such an item, and whatever yields the
value of such an expression. -/
def Expr.needsHint : Expr → Bool
  | .list items _ => Expr.allNeedHint items
  | .tuple items _ => Expr.anyNeedsHint items
  | .block body => body.needsHint
  | .cond _ thenBlock elseBlock _ => thenBlock.needsHint && elseBlock.needsHint
  | .loop _ _ body _ => body.needsHint
  | .literal .. | .ident .. | .func .. | .call .. | .index .. | .unary .. | .binary .. => false
def Expr.allNeedHint : List Expr → Bool
  | [] => true
  | e :: es => e.needsHint && Expr.allNeedHint es
def Expr.anyNeedsHint : List Expr → Bool
  | [] => false
  | e :: es => e.needsHint || Expr.anyNeedsHint es
def Block.needsHint : Block → Bool
  | ⟨stmts, returnsVoid, _⟩ => !returnsVoid && Stmt.lastNeedsHint stmts
def Stmt.needsHint : Stmt → Bool
  | .decl _ => false
  | .expr e => e.needsHint
def Stmt.lastNeedsHint : List Stmt → Bool
  | [] => false
  | [s] => s.needsHint
  | _ :: ss => Stmt.lastNeedsHint ss
end

end LetLang
