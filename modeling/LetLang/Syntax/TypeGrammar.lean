import LetLang.Syntax.BindingPower
import LetLang.Syntax.Cursor
import LetLang.Syntax.Tree

/-!
# The grammar of types

A type is a name, a list type in brackets, or types in parentheses; arrows
between types nest to the right. Parentheses around one type only group it.

The rules refer to each other in a circle. Each rule is an ordinary definition
that takes the rules it refers to as a `TypeGrammar`, and `TypeGrammar.deep`
ties the circle for a number of steps. A rule refers to others only behind a
token that it takes, so as many steps as there are tokens are enough.
-/

namespace LetLang

inductive TypeForm where
  | named
  | list
  | parens
  deriving DecidableEq, Repr

def Kind.typeForm? : Kind → Option TypeForm
  | .typeName _ => some .named
  | .punct .openBracket => some .list
  | .punct .openParen => some .parens
  | _ => none

/-- The rules of types that other rules refer to. -/
structure TypeGrammar where
  type : BindingPower → Rule Ascription
  /-- The arrows behind a type, while they are stronger than the power. -/
  arrows : BindingPower → Ascription → Rule Ascription
  moreItems : Rule (List Ty)
  moreReturns : Rule (List Ascription)

namespace TypeGrammar

def namedRule : Rule Ascription := do
  match ← Rule.kind with
  | .typeName name => return ⟨.prim name, (← Rule.advance).position⟩
  | _ => Rule.unexpected "type"

def listRule (g : TypeGrammar) : Rule Ascription := do
  let start ← Rule.expectPunct .openBracket
  let item ← g.type .whole
  let _ ← Rule.expectPunct .closeBracket
  return ⟨.list item.ty, start.position⟩

/-- Types in parentheses: none or several make a tuple, and one is itself. -/
def parensRule (g : TypeGrammar) : Rule Ascription := do
  let start ← Rule.expectPunct .openParen
  if (← Rule.kind) = .punct .closeParen then
    let _ ← Rule.advance
    return ⟨.unit, start.position⟩
  else
    let first ← g.type .whole
    if (← Rule.kind) = .punct .comma then
      let items ← g.moreItems
      let _ ← Rule.expectPunct .closeParen
      return ⟨.tuple (first.ty :: items), start.position⟩
    else
      let _ ← Rule.expectPunct .closeParen
      return ⟨first.ty, start.position⟩

def arrowRule (g : TypeGrammar) (left : Ascription) : Rule Ascription := do
  let _ ← Rule.expectPunct .arrow
  let right ← g.type .whole
  return ⟨.func left.ty right.ty, left.position⟩

def frontRule (g : TypeGrammar) : Rule Ascription := do
  match (← Rule.kind).typeForm? with
  | some .named => namedRule
  | some .list => g.listRule
  | some .parens => g.parensRule
  | none => Rule.unexpected "type"

def typeRule (g : TypeGrammar) (bp : BindingPower) : Rule Ascription := do
  g.arrows bp (← g.frontRule)

def arrowsRule (g : TypeGrammar) (bp : BindingPower) (left : Ascription) : Rule Ascription := do
  match (← Rule.kind).typePower? with
  | some power => if bp < power then g.arrows bp (← g.arrowRule left) else return left
  | none => return left

def moreItemsRule (g : TypeGrammar) : Rule (List Ty) := do
  if (← Rule.kind) = .punct .comma then
    let _ ← Rule.advance
    let item ← g.type .whole
    return item.ty :: (← g.moreItems)
  else return []

def moreReturnsRule (g : TypeGrammar) : Rule (List Ascription) := do
  if (← Rule.kind) = .punct .arrow then
    let _ ← Rule.advance
    let item ← g.type .arrow
    return item :: (← g.moreReturns)
  else return []

def returnsRule (g : TypeGrammar) : Rule (List Ascription) := do
  let first ← g.typeRule .arrow
  return first :: (← g.moreReturnsRule)

/-- The grammar whose rules refer to the rules of another. -/
def unfold (g : TypeGrammar) : TypeGrammar where
  type := g.typeRule
  arrows := g.arrowsRule
  moreItems := g.moreItemsRule
  moreReturns := g.moreReturnsRule

def bottom : TypeGrammar where
  type _ := Rule.tooDeep
  arrows _ _ := Rule.tooDeep
  moreItems := Rule.tooDeep
  moreReturns := Rule.tooDeep

/-- The grammar of that many steps. -/
def deep : Nat → TypeGrammar
  | 0 => bottom
  | steps + 1 => (deep steps).unfold

end TypeGrammar

/-- A rule over the grammar with a step for each token ahead. -/
def Rule.ofTypes {α : Type} (rule : TypeGrammar → Rule α) : Rule α := do
  rule (.deep (← get).ahead.length)

namespace Rule

def type (bp : BindingPower) : Rule Ascription := ofTypes (·.typeRule bp)

def namedType : Rule Ascription := TypeGrammar.namedRule

def listType : Rule Ascription := ofTypes (·.listRule)

def parensType : Rule Ascription := ofTypes (·.parensRule)

def arrowType (left : Ascription) : Rule Ascription := ofTypes (·.arrowRule left)

def returns : Rule (List Ascription) := ofTypes (·.returnsRule)

end Rule

end LetLang
