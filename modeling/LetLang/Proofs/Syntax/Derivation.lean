import LetLang.Syntax.BindingPower
import LetLang.Syntax.Tree
import LetLang.Token.Basic

/-!
# The grammar

What it means that tokens are written for a tree, with no mention of how a
parser finds the tree. All tokens count, in order, and every node stands where
the first of its tokens does; parentheses that only group an expression leave no
trace.

Expressions and types have levels, which are the binding powers, and a level
includes the stronger ones. The left operand of a binary operator has the level
of the operator and its right operand a stronger one, so operators of one level
group to the left. A prefix operator takes an operand of its own level. What is
called or indexed is stronger than prefix operators. An arrow has to its left a
type without an arrow of its own, so arrows group to the right.
-/

namespace LetLang

-- ---------------------------------------------------------------------------
-- Types
-- ---------------------------------------------------------------------------

mutual
/-- Whether tokens are a type of a level. -/
inductive Ascription.Derived : BindingPower → List Token → Ascription → Prop where
  | named {level : BindingPower} {t : Token} :
      t.kind = .typeName name → Ascription.Derived level [t] ⟨.prim name, t.position⟩
  | list {level : BindingPower} {start stop : Token} {inside : List Token} :
      start.kind = .punct .openBracket → Ascription.Derived .whole inside item →
      stop.kind = .punct .closeBracket →
      Ascription.Derived level (start :: (inside ++ [stop])) ⟨.list item.ty, start.position⟩
  | unit {level : BindingPower} {start stop : Token} :
      start.kind = .punct .openParen → stop.kind = .punct .closeParen →
      Ascription.Derived level [start, stop] ⟨.unit, start.position⟩
  | group {level : BindingPower} {start stop : Token} {inside : List Token} :
      start.kind = .punct .openParen → Ascription.Derived .whole inside a →
      stop.kind = .punct .closeParen →
      Ascription.Derived level (start :: (inside ++ [stop])) ⟨a.ty, start.position⟩
  | tuple {level : BindingPower} {start stop : Token} {before more : List Token} :
      start.kind = .punct .openParen → Ascription.Derived .whole before first →
      Ty.DerivedMore more items → items ≠ [] → stop.kind = .punct .closeParen →
      Ascription.Derived level (start :: (before ++ (more ++ [stop])))
        ⟨.tuple (first.ty :: items), start.position⟩
  | func {level : BindingPower} {t : Token} {before after : List Token} :
      level ≤ .arrow → Ascription.Derived .primary before param → t.kind = .punct .arrow →
      Ascription.Derived .arrow after ret →
      Ascription.Derived level (before ++ t :: after) ⟨.func param.ty ret.ty, param.position⟩
inductive Ty.DerivedMore : List Token → List Ty → Prop where
  | nil : Ty.DerivedMore [] []
  | cons {t : Token} {front more : List Token} :
      t.kind = .punct .comma → Ascription.Derived .whole front item → Ty.DerivedMore more items →
      Ty.DerivedMore (t :: (front ++ more)) (item.ty :: items)
end

inductive Separated (mark : Punct) (Item : List Token → α → Prop) :
    List Token → List α → Prop where
  | nil : Separated mark Item [] []
  | cons : t.kind = .punct mark → Item front item → Separated mark Item more items →
      Separated mark Item (t :: (front ++ more)) (item :: items)

inductive Ascription.DerivedChain : List Token → List Ascription → Prop where
  | mk : Ascription.Derived .primary front first →
      Separated .arrow (Ascription.Derived .primary) more items →
      Ascription.DerivedChain (front ++ more) (first :: items)

inductive Param.Derived : List Token → Param → Prop where
  | mk : t.kind = .identifier → Ascription.Derived .whole rest written →
      Param.Derived (t :: rest) ⟨t.value, written, t.position⟩

inductive Param.DerivedAll : List Token → List Param → Prop where
  | nil : Param.DerivedAll [] []
  | cons : Param.Derived front param → Separated .comma Param.Derived more params →
      Param.DerivedAll (front ++ more) (param :: params)

-- ---------------------------------------------------------------------------
-- Expressions
-- ---------------------------------------------------------------------------

-- Whether another conditional may follow the else of a conditional.
variable (chains : Bool)

mutual
/-- Whether tokens are an expression of a level. -/
inductive Expr.Derived : BindingPower → List Token → Expr → Prop where
  | literal {level : BindingPower} {t : Token} :
      Literal.ofToken? t = some (.ok value) → Expr.Derived level [t] (.literal value t.position)
  | ident {level : BindingPower} {t : Token} :
      t.kind = .identifier → Expr.Derived level [t] (.ident t.value t.position)
  | group {level : BindingPower} {start stop : Token} {inside : List Token} :
      start.kind = .punct .openParen → Expr.Derived .whole inside e →
      stop.kind = .punct .closeParen →
      Expr.Derived level (start :: (inside ++ [stop])) e
  | tuple {level : BindingPower} {start stop : Token} {before more : List Token} :
      start.kind = .punct .openParen → Expr.Derived .whole before first →
      Expr.DerivedMore more items → items ≠ [] → stop.kind = .punct .closeParen →
      Expr.Derived level (start :: (before ++ (more ++ [stop])))
        (.tuple (first :: items) start.position)
  | list {level : BindingPower} {start stop : Token} {inside : List Token} :
      start.kind = .punct .openBracket → Expr.DerivedAll inside items →
      stop.kind = .punct .closeBracket →
      Expr.Derived level (start :: (inside ++ [stop])) (.list items start.position)
  | func {level : BindingPower} {start left right : Token} {inside chain rest : List Token} :
      start.kind = .keyword .fnWord → left.kind = .punct .openParen →
      Param.DerivedAll inside params → right.kind = .punct .closeParen →
      Ascription.DerivedChain chain returns → Block.Derived rest body →
      Expr.Derived level (start :: left :: (inside ++ right :: (chain ++ rest)))
        (.func params returns body start.position)
  | block {level : BindingPower} {tokens : List Token} :
      Block.Derived tokens body → Expr.Derived level tokens (.block body)
  | cond {level : BindingPower} {tokens : List Token} :
      Expr.DerivedCond tokens e → Expr.Derived level tokens e
  | loop {level : BindingPower} {start binder t : Token} {front rest : List Token} :
      start.kind = .keyword .forWord → binder.kind = .identifier → t.kind = .keyword .inWord →
      Expr.Derived .whole front iterable → Block.Derived rest body →
      Expr.Derived level (start :: binder :: t :: (front ++ rest))
        (.loop binder.value iterable body start.position)
  | call {level : BindingPower} {start stop : Token} {before inside : List Token} :
      level ≤ .call → Expr.Derived .call before callee → start.kind = .punct .openParen →
      Expr.DerivedAll inside args → stop.kind = .punct .closeParen →
      Expr.Derived level (before ++ start :: (inside ++ [stop]))
        (.call callee args start.position callee.position)
  | index {level : BindingPower} {start stop : Token} {before inside : List Token} :
      level ≤ .call → Expr.Derived .call before target → start.kind = .punct .openBracket →
      Expr.Derived .whole inside index → stop.kind = .punct .closeBracket →
      Expr.Derived level (before ++ start :: (inside ++ [stop]))
        (.index target index target.position)
  | unary {level : BindingPower} {t : Token} {rest : List Token} :
      level ≤ .unary → t.kind = .punct op.punct → Expr.Derived .unary rest operand →
      Expr.Derived level (t :: rest) (.unary op operand t.position)
  | binary {level : BindingPower} {t : Token} {before after : List Token} :
      level ≤ op.power → Expr.Derived op.power before left → t.kind = .punct op.punct →
      op.power < stronger → Expr.Derived stronger after right →
      Expr.Derived level (before ++ t :: after) (.binary op left right left.position)
inductive Expr.DerivedMore : List Token → List Expr → Prop where
  | nil : Expr.DerivedMore [] []
  | cons {t : Token} {front more : List Token} :
      t.kind = .punct .comma → Expr.Derived .whole front item → Expr.DerivedMore more items →
      Expr.DerivedMore (t :: (front ++ more)) (item :: items)
inductive Expr.DerivedAll : List Token → List Expr → Prop where
  | nil : Expr.DerivedAll [] []
  | cons {front more : List Token} :
      Expr.Derived .whole front item → Expr.DerivedMore more items →
      Expr.DerivedAll (front ++ more) (item :: items)
inductive Expr.DerivedCond : List Token → Expr → Prop where
  | mk {start t : Token} {front inside rest : List Token} :
      start.kind = .keyword .ifWord → Expr.Derived .whole front test →
      Block.Derived inside thenBlock → t.kind = .keyword .elseWord →
      Block.DerivedElse rest elseBlock →
      Expr.DerivedCond (start :: (front ++ (inside ++ t :: rest)))
        (.cond test thenBlock elseBlock start.position)
/-- Whether tokens are the second branch of a conditional. Where another
conditional may be the branch, it stands in a block that has no tokens of its own. -/
inductive Block.DerivedElse : List Token → Block → Prop where
  | block {tokens : List Token} : Block.Derived tokens b → Block.DerivedElse tokens b
  | cond {tokens : List Token} :
      chains = true → Expr.DerivedCond tokens e →
      Block.DerivedElse tokens ⟨[.expr e], false, e.position⟩
inductive Decl.Derived : List Token → Decl → Prop where
  | undeclared {start name t : Token} {rest : List Token} :
      start.kind = .keyword .letWord → name.kind = .identifier → t.kind = .punct .assign →
      Expr.Derived .whole rest value →
      Decl.Derived (start :: name :: t :: rest) ⟨name.value, none, value, start.position⟩
  | declared {start name colon t : Token} {front rest : List Token} :
      start.kind = .keyword .letWord → name.kind = .identifier → colon.kind = .punct .colon →
      Ascription.Derived .whole front written → t.kind = .punct .assign →
      Expr.Derived .whole rest value →
      Decl.Derived (start :: name :: colon :: (front ++ t :: rest))
        ⟨name.value, some written, value, start.position⟩
inductive Stmt.Derived : List Token → Stmt → Prop where
  | decl {tokens : List Token} : Decl.Derived tokens d → Stmt.Derived tokens (.decl d)
  | expr {tokens : List Token} : Expr.Derived .whole tokens e → Stmt.Derived tokens (.expr e)
/-- Whether tokens are statements with semicolons between them. They yield no
value exactly if there are none or a semicolon stands behind the last, too. -/
inductive Stmt.DerivedAll : List Token → List Stmt → Bool → Prop where
  | nil : Stmt.DerivedAll [] [] true
  | last {tokens : List Token} : Stmt.Derived tokens s → Stmt.DerivedAll tokens [s] false
  | cons {t : Token} {front more : List Token} {returnsVoid : Bool} :
      Stmt.Derived front s → t.kind = .punct .semicolon → Stmt.DerivedAll more ss returnsVoid →
      Stmt.DerivedAll (front ++ t :: more) (s :: ss) returnsVoid
inductive Block.Derived : List Token → Block → Prop where
  | mk {start stop : Token} {inside : List Token} {returnsVoid : Bool} :
      start.kind = .punct .openCurly → Stmt.DerivedAll inside stmts returnsVoid →
      stop.kind = .punct .closeCurly →
      Block.Derived (start :: (inside ++ [stop])) ⟨stmts, returnsVoid, start.position⟩
end

inductive Decl.DerivedAll : List Token → List Decl → Prop where
  | nil : Decl.DerivedAll [] []
  | bare {front more : List Token} :
      Decl.Derived chains front d → Decl.DerivedAll more ds →
      Decl.DerivedAll (front ++ more) (d :: ds)
  | ended {t : Token} {front more : List Token} :
      Decl.Derived chains front d → t.kind = .punct .semicolon → Decl.DerivedAll more ds →
      Decl.DerivedAll (front ++ t :: more) (d :: ds)

def Module.Derived (tokens : List Token) (m : Module) : Prop :=
  Decl.DerivedAll chains tokens m.decls

-- ---------------------------------------------------------------------------
-- Levels
-- ---------------------------------------------------------------------------

theorem Ascription.Derived.weaken (h : Ascription.Derived strong tokens a) (hl : weak ≤ strong) :
    Ascription.Derived weak tokens a := by
  cases h with
  | named hk => exact .named hk
  | list hs hi hk => exact .list hs hi hk
  | unit hs hk => exact .unit hs hk
  | group hs hi hk => exact .group hs hi hk
  | tuple hs hf hm hne hk => exact .tuple hs hf hm hne hk
  | func hle hp hk hr => exact .func (Nat.le_trans hl hle) hp hk hr

theorem Ascription.Derived.primary (h : Ascription.Derived level tokens a) (hl : .arrow < level) :
    Ascription.Derived .primary tokens a := by
  cases h with
  | named hk => exact .named hk
  | list hs hi hk => exact .list hs hi hk
  | unit hs hk => exact .unit hs hk
  | group hs hi hk => exact .group hs hi hk
  | tuple hs hf hm hne hk => exact .tuple hs hf hm hne hk
  | func hle hp hk hr => exact absurd hle (Nat.not_le_of_lt hl)

variable {chains : Bool}

theorem Expr.Derived.weaken (h : Expr.Derived chains strong tokens e) (hl : weak ≤ strong) :
    Expr.Derived chains weak tokens e := by
  cases h with
  | literal hv => exact .literal hv
  | ident hk => exact .ident hk
  | group hs hi hk => exact .group hs hi hk
  | tuple hs hf hm hne hk => exact .tuple hs hf hm hne hk
  | list hs hi hk => exact .list hs hi hk
  | func hs hl hp hr hc hb => exact .func hs hl hp hr hc hb
  | block hb => exact .block hb
  | cond hc => exact .cond hc
  | loop hs hn hk hi hb => exact .loop hs hn hk hi hb
  | call hle hc hs ha hk => exact .call (Nat.le_trans hl hle) hc hs ha hk
  | index hle ht hs hi hk => exact .index (Nat.le_trans hl hle) ht hs hi hk
  | unary hle hk ho => exact .unary (Nat.le_trans hl hle) hk ho
  | binary hle hb hk hlt ha => exact .binary (Nat.le_trans hl hle) hb hk hlt ha

end LetLang
