import LetLang.Syntax.TypeGrammar

/-!
# The grammar of modules

A module is a list of declarations, each with or without a semicolon behind it.
An expression starts with a literal, a name, a prefix operator or a bracket or
keyword of its form, and goes on with calls, indices and binary operators as
long as these bind more strongly than what stands before it.

As with types, each rule takes the rules that it refers to as a `Grammar`, and
`Grammar.deep` ties the circle for a number of steps, of which there is one for
each token ahead.
-/

namespace LetLang

inductive ExprForm where
  | primary
  | unary
  | parens
  | list
  | block
  | func
  | cond
  | loop
  deriving DecidableEq, Repr

def Kind.exprForm? : Kind → Option ExprForm
  | .literal _ | .identifier | .keyword .trueWord | .keyword .falseWord => some .primary
  | .punct .plus | .punct .dash | .punct .not => some .unary
  | .punct .openParen => some .parens
  | .punct .openBracket => some .list
  | .punct .openCurly => some .block
  | .keyword .fnWord => some .func
  | .keyword .ifWord => some .cond
  | .keyword .forWord => some .loop
  | _ => none

def Kind.startsDecl (kind : Kind) : Bool := kind = .keyword .letWord

/-- The rules that other rules refer to. -/
structure Grammar where
  /-- An expression of operators stronger than the power. -/
  expr : BindingPower → Rule Expr
  /-- What goes on behind an expression and binds it more strongly than the power. -/
  operators : BindingPower → Expr → Rule Expr
  moreItems : Rule (List Expr)
  moreParams : Rule (List Param)
  statements : Rule (List Stmt × Bool)
  cond : Rule Expr
  decls : Rule (List Decl)

namespace Grammar

def primaryRule : Rule Expr := do
  let token ← Rule.current
  if token.kind = .identifier then
    let _ ← Rule.advance
    return .ident token.value token.position
  else
    match Literal.ofToken? token with
    | some (.ok value) =>
      let _ ← Rule.advance
      return .literal value token.position
    | some (.error cause) => throw ⟨cause, token.position⟩
    | none => Rule.unexpected "expression"

def unaryOpRule : Rule (UnaryOp × Position) := do
  let token ← Rule.advance
  match token.kind.unaryOp? with
  | some op => return (op, token.position)
  | none =>
    throw ⟨.fault (token.kind.description ++ " registered as a prefix operator"), token.position⟩

def binaryOpRule : Rule BinaryOp := do
  let token ← Rule.advance
  match token.kind.binaryOp? with
  | some op => return op
  | none =>
    throw ⟨.fault (token.kind.description ++ " registered as a binary operator"), token.position⟩

def unaryRule (g : Grammar) : Rule Expr := do
  let (op, start) ← unaryOpRule
  return .unary op (← g.expr .unary) start

/-- A binary operator behind its left operand, and its right operand. Operators
of the same power are left to the rule that reads the left operand, so they
group to the left. -/
def binaryRule (g : Grammar) (power : BindingPower) (left : Expr) : Rule Expr := do
  let op ← binaryOpRule
  return .binary op left (← g.expr power) left.position

def itemsRule (g : Grammar) (close : Punct) : Rule (List Expr) := do
  if (← Rule.kind) = .punct close then
    let _ ← Rule.advance
    return []
  else
    let first ← g.expr .whole
    let items ← g.moreItems
    let _ ← Rule.expectPunct close
    return first :: items

/-- Expressions in parentheses: several make a tuple, and one is itself. -/
def parensRule (g : Grammar) : Rule Expr := do
  let start ← Rule.expectPunct .openParen
  let first ← g.expr .whole
  if (← Rule.kind) = .punct .comma then
    let items ← g.moreItems
    let _ ← Rule.expectPunct .closeParen
    return .tuple (first :: items) start.position
  else
    let _ ← Rule.expectPunct .closeParen
    return first

def listRule (g : Grammar) : Rule Expr := do
  let start ← Rule.expectPunct .openBracket
  return .list (← g.itemsRule .closeBracket) start.position

def callRule (g : Grammar) (callee : Expr) : Rule Expr := do
  let start ← Rule.expectPunct .openParen
  return .call callee (← g.itemsRule .closeParen) start.position callee.position

def indexRule (g : Grammar) (target : Expr) : Rule Expr := do
  let _ ← Rule.expectPunct .openBracket
  let index ← g.expr .whole
  let _ ← Rule.expectPunct .closeBracket
  return .index target index target.position

/-- A declaration, without the semicolon behind it. -/
def declRule (g : Grammar) : Rule Decl := do
  let start ← Rule.expect (.keyword .letWord)
  let name ← Rule.expect .identifier
  let declared ← declaredRule
  let _ ← Rule.expectPunct .assign
  return ⟨name.value, declared, ← g.expr .whole, start.position⟩
where
  declaredRule : Rule (Option Ascription) := do
    if (← Rule.kind) = .punct .colon then
      let _ ← Rule.advance
      return some (← Rule.type .whole)
    else return none

def blockRule (g : Grammar) : Rule Block := do
  let start ← Rule.expectPunct .openCurly
  let (stmts, returnsVoid) ← g.statements
  let _ ← Rule.expectPunct .closeCurly
  return ⟨stmts, returnsVoid, start.position⟩

def paramRule : Rule Param := do
  let name ← Rule.expect .identifier
  return ⟨name.value, ← Rule.type .whole, name.position⟩

def paramsRule (g : Grammar) : Rule (List Param) := do
  if (← Rule.kind) = .punct .closeParen then
    let _ ← Rule.advance
    return []
  else
    let first ← paramRule
    let params ← g.moreParams
    let _ ← Rule.expectPunct .closeParen
    return first :: params

def funcRule (g : Grammar) : Rule Expr := do
  let start ← Rule.expect (.keyword .fnWord)
  let _ ← Rule.expectPunct .openParen
  let params ← g.paramsRule
  let returns ← Rule.returns
  return .func params returns (← g.blockRule) start.position

/-- Another conditional in place of the second block stands in a block of its own. -/
def condRule (g : Grammar) : Rule Expr := do
  let start ← Rule.expect (.keyword .ifWord)
  let test ← g.expr .whole
  let thenBlock ← g.blockRule
  let _ ← Rule.expect (.keyword .elseWord)
  if (← Rule.kind) = .keyword .ifWord then
    let nested ← g.cond
    return .cond test thenBlock ⟨[.expr nested], false, nested.position⟩ start.position
  else return .cond test thenBlock (← g.blockRule) start.position

def loopRule (g : Grammar) : Rule Expr := do
  let start ← Rule.expect (.keyword .forWord)
  let binder ← Rule.expect .identifier
  let _ ← Rule.expect (.keyword .inWord)
  let iterable ← g.expr .whole
  return .loop binder.value iterable (← g.blockRule) start.position

def frontRule (g : Grammar) : Rule Expr := do
  match (← Rule.kind).exprForm? with
  | some .primary => primaryRule
  | some .unary => g.unaryRule
  | some .parens => g.parensRule
  | some .list => g.listRule
  | some .block => return .block (← g.blockRule)
  | some .func => g.funcRule
  | some .cond => g.condRule
  | some .loop => g.loopRule
  | none => Rule.unexpected "expression"

/-- What goes on behind an expression, of a token with the given power. -/
def operatorRule (g : Grammar) (power : BindingPower) (left : Expr) : Rule Expr := do
  match ← Rule.kind with
  | .punct .openParen => g.callRule left
  | .punct .openBracket => g.indexRule left
  | _ => g.binaryRule power left

def exprRule (g : Grammar) (bp : BindingPower) : Rule Expr := do
  g.operators bp (← g.frontRule)

def operatorsRule (g : Grammar) (bp : BindingPower) (left : Expr) : Rule Expr := do
  match (← Rule.kind).power? with
  | some power => if bp < power then g.operators bp (← g.operatorRule power left) else return left
  | none => return left

def moreItemsRule (g : Grammar) : Rule (List Expr) := do
  if (← Rule.kind) = .punct .comma then
    let _ ← Rule.advance
    let item ← g.expr .whole
    return item :: (← g.moreItems)
  else return []

def moreParamsRule (g : Grammar) : Rule (List Param) := do
  if (← Rule.kind) = .punct .comma then
    let _ ← Rule.advance
    let param ← paramRule
    return param :: (← g.moreParams)
  else return []

def stmtRule (g : Grammar) : Rule Stmt := do
  if (← Rule.kind).startsDecl then return .decl (← g.declRule)
  else return .expr (← g.exprRule .whole)

def statementsRule (g : Grammar) : Rule (List Stmt × Bool) := do
  if (← Rule.kind) = .punct .closeCurly then return ([], true)
  else
    let stmt ← g.stmtRule
    match ← Rule.kind with
    | .punct .semicolon =>
      let _ ← Rule.advance
      let (stmts, returnsVoid) ← g.statements
      return (stmt :: stmts, returnsVoid)
    | .punct .closeCurly => return ([stmt], false)
    | _ => Rule.unexpected "';' or '\x7d'"

def declsRule (g : Grammar) : Rule (List Decl) := do
  if (← Rule.kind) = .eof then return []
  else
    let decl ← g.declRule
    if (← Rule.kind) = .punct .semicolon then
      let _ ← Rule.advance
    return decl :: (← g.decls)

/-- The grammar whose rules refer to the rules of another. -/
def unfold (g : Grammar) : Grammar where
  expr := g.exprRule
  operators := g.operatorsRule
  moreItems := g.moreItemsRule
  moreParams := g.moreParamsRule
  statements := g.statementsRule
  cond := g.condRule
  decls := g.declsRule

/-- The grammar without a rule that yields anything. -/
def bottom : Grammar where
  expr _ := Rule.tooDeep
  operators _ _ := Rule.tooDeep
  moreItems := Rule.tooDeep
  moreParams := Rule.tooDeep
  statements := Rule.tooDeep
  cond := Rule.tooDeep
  decls := Rule.tooDeep

/-- The grammar of that many steps. -/
def deep : Nat → Grammar
  | 0 => bottom
  | steps + 1 => (deep steps).unfold

end Grammar

/-- A rule over the grammar with a step for each token ahead. -/
def Rule.ofGrammar {α : Type} (rule : Grammar → Rule α) : Rule α := do
  rule (.deep (← get).ahead.length)

namespace Rule

def expr (bp : BindingPower) : Rule Expr := ofGrammar (·.exprRule bp)

def primary : Rule Expr := Grammar.primaryRule

def unary : Rule Expr := ofGrammar (·.unaryRule)

def parens : Rule Expr := ofGrammar (·.parensRule)

def list : Rule Expr := ofGrammar (·.listRule)

def func : Rule Expr := ofGrammar (·.funcRule)

def cond : Rule Expr := ofGrammar (·.condRule)

def loop : Rule Expr := ofGrammar (·.loopRule)

def binary (power : BindingPower) (left : Expr) : Rule Expr := ofGrammar (·.binaryRule power left)

def call (callee : Expr) : Rule Expr := ofGrammar (·.callRule callee)

def index (target : Expr) : Rule Expr := ofGrammar (·.indexRule target)

def stmt : Rule Stmt := ofGrammar (·.stmtRule)

def decl : Rule Decl := ofGrammar (·.declRule)

def block : Rule Block := ofGrammar (·.blockRule)

def decls : Rule (List Decl) := ofGrammar (·.declsRule)

def onTokens {α : Type} (rule : Rule α) (tokens : List Token) : Except Diagnostic α :=
  match rule.run (.ofTokens tokens) with
  | .ok a _ => .ok a
  | .error d _ => .error d

end Rule

def parse (tokens : List Token) : Except Diagnostic Module := do
  return ⟨← Rule.decls.onTokens tokens⟩

end LetLang
