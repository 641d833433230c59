import LetLang.Proofs.Syntax.Derivation
import LetLang.Proofs.Syntax.Reads
import LetLang.Proofs.Syntax.Rules

/-!
# What the rules accept

Whenever a rule gives a tree, the tokens that it read are written for that tree.
A rule for expressions at a power gives a tree of a level above the power and
stops only where nothing stronger follows. The loop behind an expression keeps
the invariant that what was read so far has a level at which the next token may
bind it, so a left operand always has the level of its operator.
-/

namespace LetLang

/-- Whether an expression is read up to a token that may bind all of it. -/
def Expr.Reached (bp : BindingPower) (tokens : List Token) (e : Expr) (c : Cursor) : Prop :=
  ∃ level, Expr.Derived true level tokens e ∧ bp.Under level ∧ c.AtMost level

/-- Whether an expression is read as far as a rule at a power goes. -/
def Expr.Taken (bp : BindingPower) (tokens : List Token) (e : Expr) (c : Cursor) : Prop :=
  ∃ level, Expr.Derived true level tokens e ∧ bp.Under level ∧ c.AtMost bp

/-- Whether a type is read as far as a rule at a power goes: through all arrows
if the power is below them, and otherwise to the first one. -/
def Ascription.Taken (bp : BindingPower) (tokens : List Token) (a : Ascription) (c : Cursor) :
    Prop :=
  if bp < .arrow then Ascription.Derived .arrow tokens a ∧ c.current.kind ≠ .punct .arrow
  else Ascription.Derived .primary tokens a

-- ---------------------------------------------------------------------------
-- Types
-- ---------------------------------------------------------------------------

theorem Ascription.Taken.whole (h : Ascription.Taken .whole tokens a c) :
    Ascription.Derived .arrow tokens a ∧ c.current.kind ≠ .punct .arrow := h

theorem Ascription.Taken.derived (h : Ascription.Taken .whole tokens a c) :
    Ascription.Derived .whole tokens a := h.whole.1.weaken (by decide)

theorem Ascription.Taken.primary (h : Ascription.Taken .arrow tokens a c) :
    Ascription.Derived .primary tokens a := h

/-- Whether the rules of a grammar read only what is derived. -/
structure TypeGrammar.Derives (g : TypeGrammar) : Prop where
  type : ∀ bp c, (g.type bp).Takes c (Ascription.Taken bp)
  arrows : ∀ bp before left c,
    Ascription.Derived .primary before left ∨ Ascription.Taken bp before left c →
    (g.arrows bp left).Takes c fun more a c' => Ascription.Taken bp (before ++ more) a c'
  moreItems : ∀ c, g.moreItems.Takes c fun taken items _ => Ty.DerivedMore taken items ∧
    (c.current.kind = .punct .comma → items ≠ [])
  moreReturns : ∀ c, g.moreReturns.Takes c fun taken returns _ =>
    Separated .arrow (Ascription.Derived .primary) taken returns

namespace TypeGrammar

variable {g : TypeGrammar} {c : Cursor}

theorem namedRule_takes :
    namedRule.Takes c fun taken a _ => Ascription.Derived .primary taken a := by
  unfold namedRule
  refine .kind ?_
  split
  · next name hk =>
    refine (Rule.Takes.advance (by simp [hk])).last ?_
    rintro _ t c₁ ⟨rfl, rfl⟩
    exact .named hk
  · exact .unexpected

theorem listRule_takes (hg : g.Derives) :
    g.listRule.Takes c fun taken a _ => Ascription.Derived .primary taken a := by
  unfold listRule
  refine (Rule.Takes.expectPunct _).first ?_
  intro start c₁ hs
  refine (hg.type _ _).bind ?_
  intro inside item c₂ hi
  refine (Rule.Takes.expectPunct _).last ?_
  rintro _ stop c₃ ⟨hk, rfl⟩
  exact .list hs hi.derived hk

theorem parensRule_takes (hg : g.Derives) :
    g.parensRule.Takes c fun taken a _ => Ascription.Derived .primary taken a := by
  unfold parensRule
  refine (Rule.Takes.expectPunct _).first ?_
  intro start c₁ hs
  refine .kind ?_
  split
  · next hk =>
    refine (Rule.Takes.advance (by simp [hk])).last ?_
    rintro _ stop c₂ ⟨rfl, rfl⟩
    exact .unit hs hk
  · refine (hg.type _ _).bind ?_
    intro before first c₂ hf
    refine .kind ?_
    split
    · next hk =>
      refine (hg.moreItems _).bind ?_
      rintro more items c₃ ⟨hm, hne⟩
      refine (Rule.Takes.expectPunct _).last ?_
      rintro _ stop c₄ ⟨hc, rfl⟩
      exact .tuple hs hf.derived hm (hne hk) hc
    · refine (Rule.Takes.expectPunct _).last ?_
      rintro _ stop c₃ ⟨hc, rfl⟩
      exact .group hs hf.derived hc

theorem arrowRule_takes (hg : g.Derives) (hl : Ascription.Derived .primary before left) :
    (g.arrowRule left).Takes c fun more a c' =>
      Ascription.Derived .arrow (before ++ more) a ∧ c'.current.kind ≠ .punct .arrow := by
  unfold arrowRule
  refine (Rule.Takes.expectPunct _).first ?_
  intro t c₁ hk
  refine (hg.type _ _).last ?_
  intro after ret c₂ hr
  exact ⟨.func (by decide) hl hk hr.whole.1, hr.whole.2⟩

theorem frontRule_takes (hg : g.Derives) :
    g.frontRule.Takes c fun taken a _ => Ascription.Derived .primary taken a := by
  unfold frontRule
  refine .kind ?_
  split
  · exact namedRule_takes
  · exact listRule_takes hg
  · exact parensRule_takes hg
  · exact .unexpected

theorem typeRule_takes (bp : BindingPower) (hg : g.Derives) :
    (g.typeRule bp).Takes c (Ascription.Taken bp) := by
  unfold typeRule
  refine (frontRule_takes hg).bind ?_
  intro before left c₁ hl
  exact hg.arrows bp before left c₁ (.inl hl)

/-- A type that ends before something else than an arrow is read as far as any
rule goes. -/
theorem taken_of_ne_arrow (hn : c.current.kind ≠ .punct .arrow)
    (hl : Ascription.Derived .primary before left ∨ Ascription.Taken bp before left c) :
    Ascription.Taken bp before left c := by
  obtain hp | ht := hl
  · unfold Ascription.Taken
    split
    · exact ⟨hp.weaken (by decide), hn⟩
    · exact hp
  · exact ht

theorem arrowsRule_takes (bp : BindingPower) (hg : g.Derives)
    (hl : Ascription.Derived .primary before left ∨ Ascription.Taken bp before left c) :
    (g.arrowsRule bp left).Takes c fun more a c' => Ascription.Taken bp (before ++ more) a c' := by
  unfold arrowsRule
  refine .kind ?_
  split
  · next power hp =>
    obtain ⟨hk, rfl⟩ := Kind.typePower?_eq_some hp
    split
    · next hlt =>
      have hl : Ascription.Derived .primary before left := by
        refine hl.resolve_right fun ht => ?_
        unfold Ascription.Taken at ht
        rw [if_pos hlt] at ht
        exact ht.2 hk
      refine (arrowRule_takes hg hl).bind ?_
      intro more a c₁ ha
      have ht : Ascription.Taken bp (before ++ more) a c₁ := by
        unfold Ascription.Taken
        rwa [if_pos hlt]
      simpa only [List.append_assoc] using hg.arrows bp (before ++ more) a c₁ (.inr ht)
    · next hnlt =>
      refine .pure ?_
      unfold Ascription.Taken at *
      rw [if_neg hnlt] at *
      simpa using hl
  · next hp =>
    refine .pure ?_
    rw [List.append_nil]
    refine taken_of_ne_arrow (fun hk => ?_) hl
    rw [hk] at hp
    cases hp

theorem moreItemsRule_takes (hg : g.Derives) :
    g.moreItemsRule.Takes c fun taken items _ => Ty.DerivedMore taken items ∧
      (c.current.kind = .punct .comma → items ≠ []) := by
  unfold moreItemsRule
  refine .kind ?_
  split
  · next hk =>
    refine (Rule.Takes.advance (by simp [hk])).first ?_
    rintro t c₁ rfl
    refine (hg.type _ _).bind ?_
    intro front item c₂ hi
    refine (hg.moreItems _).last ?_
    rintro more items c₃ ⟨hm, -⟩
    exact ⟨.cons hk hi.derived hm, fun _ => List.cons_ne_nil _ _⟩
  · next hk => exact .pure ⟨.nil, fun h => absurd h hk⟩

theorem moreReturnsRule_takes (hg : g.Derives) :
    g.moreReturnsRule.Takes c fun taken returns _ =>
      Separated .arrow (Ascription.Derived .primary) taken returns := by
  unfold moreReturnsRule
  refine .kind ?_
  split
  · next hk =>
    refine (Rule.Takes.advance (by simp [hk])).first ?_
    rintro t c₁ rfl
    refine (hg.type _ _).bind ?_
    intro front item c₂ hi
    refine (hg.moreReturns _).last ?_
    intro more returns c₃ hm
    exact .cons hk hi.primary hm
  · exact .pure .nil

theorem returnsRule_takes (hg : g.Derives) :
    g.returnsRule.Takes c fun taken returns _ => Ascription.DerivedChain taken returns := by
  unfold returnsRule
  refine (typeRule_takes _ hg).bind ?_
  intro front first c₁ hf
  refine (moreReturnsRule_takes hg).last ?_
  intro more returns c₂ hm
  exact .mk hf.primary hm

theorem deep_derives (steps : Nat) : (deep steps).Derives := by
  induction steps with
  | zero =>
    exact ⟨fun _ _ => .tooDeep, fun _ _ _ _ _ => .tooDeep, fun _ => .tooDeep, fun _ => .tooDeep⟩
  | succ steps ih =>
    exact ⟨fun bp _ => typeRule_takes bp ih, fun bp _ _ _ hl => arrowsRule_takes bp ih hl,
      fun _ => moreItemsRule_takes ih, fun _ => moreReturnsRule_takes ih⟩

end TypeGrammar

theorem Rule.ofTypes_takes {rule : TypeGrammar → Rule α} {good : List Token → α → Cursor → Prop}
    (h : ∀ g, TypeGrammar.Derives g → (rule g).Takes c good) : (Rule.ofTypes rule).Takes c good :=
  h _ (TypeGrammar.deep_derives _)

theorem Rule.type_takes :
    (Rule.type .whole).Takes c fun taken a _ => Ascription.Derived .whole taken a :=
  ofTypes_takes fun _ hg =>
    (TypeGrammar.typeRule_takes .whole hg).imp fun _ _ _ h => h.derived

theorem Rule.returns_takes :
    Rule.returns.Takes c fun taken returns _ => Ascription.DerivedChain taken returns :=
  ofTypes_takes fun _ hg => TypeGrammar.returnsRule_takes hg

-- ---------------------------------------------------------------------------
-- Expressions
-- ---------------------------------------------------------------------------

theorem Expr.Taken.derived (h : Expr.Taken .whole tokens e c) :
    Expr.Derived true .whole tokens e := by
  obtain ⟨level, hd, -, -⟩ := h
  exact hd.weaken level.whole_le

theorem Expr.Reached.of_primary (hb : bp < .call) (h : Expr.Derived true .primary tokens e) :
    Expr.Reached bp tokens e c :=
  ⟨.primary, h, .of_unary hb (by decide), .of_call (by decide)⟩

/-- Whether the rules of a grammar read only what is derived. -/
structure Grammar.Derives (g : Grammar) : Prop where
  expr : ∀ bp c, bp < .call → (g.expr bp).Takes c (Expr.Taken bp)
  operators : ∀ bp before left c, bp < .call → Expr.Reached bp before left c →
    (g.operators bp left).Takes c fun more e c' => Expr.Taken bp (before ++ more) e c'
  moreItems : ∀ c, g.moreItems.Takes c fun taken items _ => Expr.DerivedMore true taken items ∧
    (c.current.kind = .punct .comma → items ≠ [])
  moreParams : ∀ c, g.moreParams.Takes c fun taken params _ =>
    Separated .comma Param.Derived taken params
  statements : ∀ c, g.statements.Takes c fun taken r _ => Stmt.DerivedAll true taken r.1 r.2
  cond : ∀ c, g.cond.Takes c fun taken e _ => Expr.DerivedCond true taken e
  decls : ∀ c, g.decls.Takes c fun taken ds c' =>
    Decl.DerivedAll true taken ds ∧ c'.current.kind = .eof

namespace Grammar

variable {g : Grammar} {c : Cursor}

theorem Derives.whole (hg : g.Derives) (c : Cursor) :
    (g.expr .whole).Takes c fun taken e _ => Expr.Derived true .whole taken e :=
  (hg.expr .whole c (by decide)).imp fun _ _ _ h => h.derived

theorem primaryRule_takes :
    primaryRule.Takes c fun taken e _ => Expr.Derived true .primary taken e := by
  unfold primaryRule
  refine .current ?_
  split
  · next hk =>
    refine (Rule.Takes.advance (by simp [hk])).last ?_
    rintro _ t c₁ ⟨rfl, rfl⟩
    exact .ident hk
  · split
    · next value hv =>
      refine (Rule.Takes.advance (ofToken?_ne_eof hv)).last ?_
      rintro _ t c₁ ⟨rfl, rfl⟩
      exact .literal hv
    · exact .throw
    · exact .unexpected

theorem unaryOpRule_takes (ho : c.current.kind.unaryOp? = some op) :
    unaryOpRule.Takes c fun taken r _ => r = (op, c.current.position) ∧ taken = [c.current] := by
  unfold unaryOpRule
  refine (Rule.Takes.advance (ne_eof_of_unaryOp? ho)).first ?_
  rintro _ c₁ rfl
  rw [ho]
  exact .pure ⟨rfl, rfl⟩

theorem binaryOpRule_takes (ho : c.current.kind.binaryOp? = some op) :
    binaryOpRule.Takes c fun taken r _ => r = op ∧ taken = [c.current] := by
  unfold binaryOpRule
  refine (Rule.Takes.advance (ne_eof_of_binaryOp? ho)).first ?_
  rintro _ c₁ rfl
  rw [ho]
  exact .pure ⟨rfl, rfl⟩

theorem unaryRule_takes (hg : g.Derives) (ho : c.current.kind.unaryOp? = some op) :
    g.unaryRule.Takes c fun taken e c' => Expr.Derived true .unary taken e ∧ c'.AtMost .unary := by
  unfold unaryRule
  refine (unaryOpRule_takes ho).bind ?_
  rintro _ _ c₁ ⟨rfl, rfl⟩
  refine (hg.expr .unary c₁ (by decide)).last ?_
  rintro rest operand c₂ ⟨level, hd, hu, hm⟩
  exact ⟨.unary (by decide) (Kind.eq_of_unaryOp? ho) (hd.weaken hu.unary_le), hm⟩

theorem binaryRule_takes (hg : g.Derives) (ho : c.current.kind.binaryOp? = some op)
    (hl : Expr.Derived true op.power before left) :
    (g.binaryRule op.power left).Takes c fun more e c' =>
      Expr.Derived true op.power (before ++ more) e ∧ c'.AtMost op.power := by
  unfold binaryRule
  refine (binaryOpRule_takes ho).bind ?_
  rintro _ op c₁ ⟨rfl, rfl⟩
  refine (hg.expr op.power c₁ (Nat.lt_succ_of_lt op.power_lt_unary)).last ?_
  rintro after right c₂ ⟨level, hd, hu, hm⟩
  exact ⟨.binary (Nat.le_refl _) hl (Kind.eq_of_binaryOp? ho) hu.power_lt hd, hm⟩

theorem itemsRule_takes (close : Punct) (hg : g.Derives) :
    (g.itemsRule close).Takes c fun taken items _ => ∃ inside stop,
      taken = inside ++ [stop] ∧ Expr.DerivedAll true inside items ∧ stop.kind = .punct close := by
  unfold itemsRule
  refine .kind ?_
  split
  · next hk =>
    refine (Rule.Takes.advance (by simp [hk])).last ?_
    rintro _ stop c₁ ⟨rfl, rfl⟩
    exact ⟨[], _, rfl, .nil, hk⟩
  · refine (hg.whole c).bind ?_
    intro front first c₁ hf
    refine (hg.moreItems c₁).bind ?_
    rintro more items c₂ ⟨hm, -⟩
    refine (Rule.Takes.expectPunct close).last ?_
    rintro _ stop c₃ ⟨hk, rfl⟩
    exact ⟨front ++ more, stop, (List.append_assoc ..).symm, .cons hf hm, hk⟩

theorem parensRule_takes (hg : g.Derives) :
    g.parensRule.Takes c fun taken e _ => Expr.Derived true .primary taken e := by
  unfold parensRule
  refine (Rule.Takes.expectPunct _).first ?_
  intro start c₁ hs
  refine (hg.whole c₁).bind ?_
  intro before first c₂ hf
  refine .kind ?_
  split
  · next hk =>
    refine (hg.moreItems c₂).bind ?_
    rintro more items c₃ ⟨hm, hne⟩
    refine (Rule.Takes.expectPunct _).last ?_
    rintro _ stop c₄ ⟨hc, rfl⟩
    exact .tuple hs hf hm (hne hk) hc
  · refine (Rule.Takes.expectPunct _).last ?_
    rintro _ stop c₃ ⟨hc, rfl⟩
    exact .group hs hf hc

theorem listRule_takes (hg : g.Derives) :
    g.listRule.Takes c fun taken e _ => Expr.Derived true .primary taken e := by
  unfold listRule
  refine (Rule.Takes.expectPunct _).first ?_
  intro start c₁ hs
  refine (itemsRule_takes _ hg).last ?_
  rintro _ items c₂ ⟨inside, stop, rfl, hi, hk⟩
  exact .list hs hi hk

theorem callRule_takes (hg : g.Derives) (hf : Expr.Derived true .call before callee) :
    (g.callRule callee).Takes c fun more e _ => Expr.Derived true .call (before ++ more) e := by
  unfold callRule
  refine (Rule.Takes.expectPunct _).first ?_
  intro start c₁ hs
  refine (itemsRule_takes _ hg).last ?_
  rintro _ args c₂ ⟨inside, stop, rfl, ha, hk⟩
  exact .call (Nat.le_refl _) hf hs ha hk

theorem indexRule_takes (hg : g.Derives) (ht : Expr.Derived true .call before target) :
    (g.indexRule target).Takes c fun more e _ => Expr.Derived true .call (before ++ more) e := by
  unfold indexRule
  refine (Rule.Takes.expectPunct _).first ?_
  intro start c₁ hs
  refine (hg.whole c₁).bind ?_
  intro inside index c₂ hi
  refine (Rule.Takes.expectPunct _).last ?_
  rintro _ stop c₃ ⟨hk, rfl⟩
  exact .index (Nat.le_refl _) ht hs hi hk

theorem blockRule_takes (hg : g.Derives) :
    g.blockRule.Takes c fun taken b _ => Block.Derived true taken b := by
  unfold blockRule
  refine (Rule.Takes.expectPunct _).first ?_
  intro start c₁ hs
  refine (hg.statements c₁).bind ?_
  rintro inside ⟨stmts, returnsVoid⟩ c₂ hi
  refine (Rule.Takes.expectPunct _).last ?_
  rintro _ stop c₃ ⟨hk, rfl⟩
  exact .mk hs hi hk

theorem paramRule_takes : paramRule.Takes c fun taken param _ => Param.Derived taken param := by
  unfold paramRule
  refine Rule.Takes.expectName.first ?_
  intro name c₁ hk
  refine Rule.type_takes.last ?_
  intro rest written c₂ ht
  exact .mk hk ht

theorem paramsRule_takes (hg : g.Derives) :
    g.paramsRule.Takes c fun taken params _ => ∃ inside right,
      taken = inside ++ [right] ∧ Param.DerivedAll inside params ∧
        right.kind = .punct .closeParen := by
  unfold paramsRule
  refine .kind ?_
  split
  · next hk =>
    refine (Rule.Takes.advance (by simp [hk])).last ?_
    rintro _ right c₁ ⟨rfl, rfl⟩
    exact ⟨[], _, rfl, .nil, hk⟩
  · refine paramRule_takes.bind ?_
    intro front first c₁ hf
    refine (hg.moreParams c₁).bind ?_
    intro more params c₂ hm
    refine (Rule.Takes.expectPunct _).last ?_
    rintro _ right c₃ ⟨hk, rfl⟩
    exact ⟨front ++ more, right, (List.append_assoc ..).symm, .cons hf hm, hk⟩

theorem funcRule_takes (hg : g.Derives) :
    g.funcRule.Takes c fun taken e _ => Expr.Derived true .primary taken e := by
  unfold funcRule
  refine (Rule.Takes.expectKeyword _).first ?_
  intro start c₁ hs
  refine (Rule.Takes.expectPunct _).first ?_
  intro left c₂ hl
  refine (paramsRule_takes hg).bind ?_
  rintro _ params c₃ ⟨inside, right, rfl, hp, hr⟩
  refine Rule.returns_takes.bind ?_
  intro chain returns c₄ hc
  refine (blockRule_takes hg).last ?_
  intro rest body c₅ hb
  simpa only [List.append_assoc, List.singleton_append] using
    Expr.Derived.func hs hl hp hr hc hb

theorem condRule_takes (hg : g.Derives) :
    g.condRule.Takes c fun taken e _ => Expr.DerivedCond true taken e := by
  unfold condRule
  refine (Rule.Takes.expectKeyword _).first ?_
  intro start c₁ hs
  refine (hg.whole c₁).bind ?_
  intro front test c₂ ht
  refine (blockRule_takes hg).bind ?_
  intro inside thenBlock c₃ hb
  refine (Rule.Takes.expectKeyword _).first ?_
  intro t c₄ hk
  refine .kind ?_
  split
  · refine (hg.cond c₄).last ?_
    intro rest nested c₅ hn
    exact .mk hs ht hb hk (.cond rfl hn)
  · refine (blockRule_takes hg).last ?_
    intro rest elseBlock c₅ he
    exact .mk hs ht hb hk (.block he)

theorem loopRule_takes (hg : g.Derives) :
    g.loopRule.Takes c fun taken e _ => Expr.Derived true .primary taken e := by
  unfold loopRule
  refine (Rule.Takes.expectKeyword _).first ?_
  intro start c₁ hs
  refine Rule.Takes.expectName.first ?_
  intro binder c₂ hn
  refine (Rule.Takes.expectKeyword _).first ?_
  intro t c₃ hk
  refine (hg.whole c₃).bind ?_
  intro front iterable c₄ hi
  refine (blockRule_takes hg).last ?_
  intro rest body c₅ hb
  exact .loop hs hn hk hi hb

theorem frontRule_takes (hg : g.Derives) (hb : bp < .call) :
    g.frontRule.Takes c (Expr.Reached bp) := by
  have hp (tokens : List Token) (e : Expr) (c' : Cursor) :
      Expr.Derived true .primary tokens e → Expr.Reached bp tokens e c' := .of_primary hb
  unfold frontRule
  refine .kind ?_
  split
  · exact primaryRule_takes.imp hp
  · next hk =>
    obtain ⟨op, ho⟩ := unaryOp?_of_exprForm? hk
    refine (unaryRule_takes hg ho).imp ?_
    rintro taken e c₁ ⟨hd, hm⟩
    exact ⟨.unary, hd, .of_unary hb (Nat.le_refl _), hm⟩
  · exact (parensRule_takes hg).imp hp
  · exact (listRule_takes hg).imp hp
  · refine (blockRule_takes hg).last ?_
    intro taken body c₁ hd
    exact hp taken _ c₁ (.block hd)
  · exact (funcRule_takes hg).imp hp
  · refine (condRule_takes hg).imp ?_
    intro taken e c₁ hd
    exact hp taken e c₁ (.cond hd)
  · exact (loopRule_takes hg).imp hp
  · exact .unexpected

theorem operatorRule_takes (hg : g.Derives) (hk : c.current.kind.power? = some power)
    (hl : Expr.Derived true power before left) :
    (g.operatorRule power left).Takes c fun more e c' =>
      Expr.Derived true power (before ++ more) e ∧ c'.AtMost power := by
  unfold operatorRule
  refine .kind ?_
  split
  · next hp =>
    rw [hp] at hk
    obtain rfl := Option.some.inj hk
    exact (callRule_takes hg hl).imp fun _ _ _ hd => ⟨hd, .of_call (Nat.le_refl _)⟩
  · next hp =>
    rw [hp] at hk
    obtain rfl := Option.some.inj hk
    exact (indexRule_takes hg hl).imp fun _ _ _ hd => ⟨hd, .of_call (Nat.le_refl _)⟩
  · next hp hi =>
    obtain ⟨op, ho, rfl⟩ := binaryOp?_of_power? hk hp hi
    exact binaryRule_takes hg ho hl

theorem exprRule_takes (hg : g.Derives) (hb : bp < .call) :
    (g.exprRule bp).Takes c (Expr.Taken bp) := by
  unfold exprRule
  refine (frontRule_takes hg hb).bind ?_
  intro before left c₁ hl
  exact hg.operators bp before left c₁ hb hl

/-- A step of the loop binds all that was read so far, and what it reads ends
where nothing stronger follows. -/
theorem operatorsRule_takes (hg : g.Derives) (hb : bp < .call)
    (hl : Expr.Reached bp before left c) :
    (g.operatorsRule bp left).Takes c fun more e c' => Expr.Taken bp (before ++ more) e c' := by
  obtain ⟨level, hd, hu, hm⟩ := hl
  unfold operatorsRule
  refine .kind ?_
  split
  · next power hk =>
    split
    · next hlt =>
      refine (operatorRule_takes hg hk (hd.weaken (hm power hk))).bind ?_
      rintro more e c₁ ⟨he, hn⟩
      simpa only [List.append_assoc] using
        hg.operators bp (before ++ more) e c₁ hb ⟨power, he, .of_lt hlt, hn⟩
    · next hnlt =>
      refine .pure ⟨level, by rwa [List.append_nil], hu, ?_⟩
      intro power' hk'
      obtain rfl := Option.some.inj (hk.symm.trans hk')
      exact Nat.le_of_not_lt hnlt
  · next hk =>
    refine .pure ⟨level, by rwa [List.append_nil], hu, ?_⟩
    intro power hk'
    cases hk.symm.trans hk'

theorem moreItemsRule_takes (hg : g.Derives) :
    g.moreItemsRule.Takes c fun taken items _ => Expr.DerivedMore true taken items ∧
      (c.current.kind = .punct .comma → items ≠ []) := by
  unfold moreItemsRule
  refine .kind ?_
  split
  · next hk =>
    refine (Rule.Takes.advance (by simp [hk])).first ?_
    rintro _ c₁ rfl
    refine (hg.whole c₁).bind ?_
    intro front item c₂ hi
    refine (hg.moreItems c₂).last ?_
    rintro more items c₃ ⟨hm, -⟩
    exact ⟨.cons hk hi hm, fun _ => List.cons_ne_nil _ _⟩
  · next hk => exact .pure ⟨.nil, fun h => absurd h hk⟩

theorem moreParamsRule_takes (hg : g.Derives) :
    g.moreParamsRule.Takes c fun taken params _ =>
      Separated .comma Param.Derived taken params := by
  unfold moreParamsRule
  refine .kind ?_
  split
  · next hk =>
    refine (Rule.Takes.advance (by simp [hk])).first ?_
    rintro _ c₁ rfl
    refine paramRule_takes.bind ?_
    intro front param c₂ hp
    refine (hg.moreParams c₂).last ?_
    intro more params c₃ hm
    exact .cons hk hp hm
  · exact .pure .nil

-- ---------------------------------------------------------------------------
-- Statements and declarations
-- ---------------------------------------------------------------------------

theorem declaredRule_takes : declRule.declaredRule.Takes c fun taken declared _ =>
    (taken = [] ∧ declared = none) ∨ ∃ colon front written, taken = colon :: front ∧
      declared = some written ∧ colon.kind = .punct .colon ∧
        Ascription.Derived .whole front written := by
  unfold declRule.declaredRule
  refine .kind ?_
  split
  · next hk =>
    refine (Rule.Takes.advance (by simp [hk])).first ?_
    rintro _ c₁ rfl
    refine Rule.type_takes.last ?_
    intro front written c₂ ht
    exact .inr ⟨_, front, written, rfl, rfl, hk, ht⟩
  · exact .pure (.inl ⟨rfl, rfl⟩)

theorem declRule_takes (hg : g.Derives) :
    g.declRule.Takes c fun taken d _ => Decl.Derived true taken d := by
  unfold declRule
  refine (Rule.Takes.expectKeyword _).first ?_
  intro start c₁ hs
  refine Rule.Takes.expectName.first ?_
  intro name c₂ hn
  refine declaredRule_takes.bind ?_
  intro front declared c₃ hd
  refine (Rule.Takes.expectPunct _).first ?_
  intro t c₄ hk
  refine (hg.whole c₄).last ?_
  intro rest value c₅ hv
  obtain ⟨rfl, rfl⟩ | ⟨colon, front, written, rfl, rfl, hc, hw⟩ := hd
  · exact .undeclared hs hn hk hv
  · exact .declared hs hn hc hw hk hv

theorem stmtRule_takes (hg : g.Derives) :
    g.stmtRule.Takes c fun taken s _ => Stmt.Derived true taken s := by
  unfold stmtRule
  refine .kind ?_
  split
  · exact (declRule_takes hg).last fun _ _ _ hd => .decl hd
  · exact (exprRule_takes hg (by decide)).last fun _ _ _ he => .expr he.derived

theorem statementsRule_takes (hg : g.Derives) :
    g.statementsRule.Takes c fun taken r _ => Stmt.DerivedAll true taken r.1 r.2 := by
  unfold statementsRule
  refine .kind ?_
  split
  · exact .pure .nil
  · refine (stmtRule_takes hg).bind ?_
    intro front s c₁ hs
    refine .kind ?_
    split
    · next hk =>
      refine (Rule.Takes.advance (by simp [hk])).first ?_
      rintro _ c₂ rfl
      refine (hg.statements c₂).last ?_
      rintro more ⟨ss, returnsVoid⟩ c₃ hm
      exact .cons hs hk hm
    · exact .pure (by simpa using Stmt.DerivedAll.last hs)
    · exact .unexpected

theorem declsRule_takes (hg : g.Derives) :
    g.declsRule.Takes c fun taken ds c' =>
      Decl.DerivedAll true taken ds ∧ c'.current.kind = .eof := by
  unfold declsRule
  refine .kind ?_
  split
  · next hk => exact .pure ⟨.nil, hk⟩
  · refine (declRule_takes hg).bind ?_
    intro front d c₁ hd
    refine .kind ?_
    split
    · next hk =>
      refine (Rule.Takes.advance (by simp [hk])).first ?_
      rintro _ c₂ rfl
      refine (hg.decls c₂).last ?_
      rintro more ds c₃ ⟨hm, he⟩
      exact ⟨.ended hd hk hm, he⟩
    · refine (hg.decls c₁).last ?_
      rintro more ds c₂ ⟨hm, he⟩
      exact ⟨.bare hd hm, he⟩

theorem deep_derives (steps : Nat) : (deep steps).Derives := by
  induction steps with
  | zero =>
    exact ⟨fun _ _ _ => .tooDeep, fun _ _ _ _ _ _ => .tooDeep, fun _ => .tooDeep,
      fun _ => .tooDeep, fun _ => .tooDeep, fun _ => .tooDeep, fun _ => .tooDeep⟩
  | succ steps ih =>
    exact ⟨fun _ _ hb => exprRule_takes ih hb, fun _ _ _ _ hb hl => operatorsRule_takes ih hb hl,
      fun _ => moreItemsRule_takes ih, fun _ => moreParamsRule_takes ih,
      fun _ => statementsRule_takes ih, fun _ => condRule_takes ih, fun _ => declsRule_takes ih⟩

end Grammar

theorem Rule.ofGrammar_takes {rule : Grammar → Rule α} {good : List Token → α → Cursor → Prop}
    (h : ∀ g, Grammar.Derives g → (rule g).Takes c good) : (Rule.ofGrammar rule).Takes c good :=
  h _ (Grammar.deep_derives _)

theorem Rule.decls_takes : Rule.decls.Takes c fun taken ds c' =>
    Decl.DerivedAll true taken ds ∧ c'.current.kind = .eof :=
  ofGrammar_takes fun _ hg => Grammar.declsRule_takes hg

end LetLang
