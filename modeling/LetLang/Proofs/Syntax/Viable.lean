import LetLang.Proofs.Syntax.Accepted

/-!
# What is read before an unexpected token

A rule that meets an unexpected token has read the beginning of something that
it accepts. `Refuses` says so of one run: the diagnostic is about the token
where the rule stopped, and of the tokens before it holds what is claimed. Most
of its lemmas ask for two things of a step, what holds if the step itself meets
the token and what holds if a later one does, and the second builds on what the
step is known to read.

For each place where a rule may stop there is a shortest way to go on from
there: names for expressions, `int` for types and empty braces for blocks.
-/

namespace LetLang

/-- Whether tokens can be continued to something good. -/
def Begins (Good : List Token → α → Prop) (tokens : List Token) : Prop :=
  ∃ rest a, Good (tokens ++ rest) a

theorem Begins.of {Good : List Token → α → Prop} (rest : List Token) (h : Good all a)
    (he : all = tokens ++ rest) : Begins Good tokens :=
  ⟨rest, a, he ▸ h⟩

theorem Begins.imp {Good : List Token → α → Prop} {Better : List Token → β → Prop}
    (h : Begins Good tokens) (hi : ∀ all a, Good all a → ∃ b, Better all b) :
    Begins Better tokens := by
  obtain ⟨rest, a, h⟩ := h
  exact ⟨rest, hi _ a h⟩

/-- Whether the tokens that a rule reads before a token that it does not expect
are good, and its diagnostic is about that token. -/
def Rule.Refuses (rule : Rule α) (c : Cursor) (good : List Token → Prop) : Prop :=
  ∀ expected found position c',
    rule.run c = .error ⟨.unexpectedToken expected found, position⟩ c' →
      found = c'.current.display ∧ position = c'.current.position ∧
        ∃ taken, c.ahead = taken ++ c'.ahead ∧ good taken

namespace Rule.Refuses

variable {α β : Type} {c : Cursor} {rule : Rule α} {next : α → Rule β}
  {good : List Token → α → Cursor → Prop} {bad worse : List Token → Prop}

theorem pure : (Pure.pure a : Rule α).Refuses c bad := fun _ _ _ _ h => nomatch h

theorem tooDeep : (Rule.tooDeep : Rule α).Refuses c bad := fun _ _ _ _ h => nomatch h

theorem throw (hn : ∀ expected found, d.cause ≠ .unexpectedToken expected found) :
    (MonadExcept.throw d : Rule α).Refuses c bad := by
  rintro expected found position _ ⟨⟩
  exact absurd rfl (hn expected found)

theorem unexpected (h : bad []) : (Rule.unexpected expected : Rule α).Refuses c bad := by
  rintro _ _ _ _ ⟨⟩
  exact ⟨rfl, rfl, [], rfl, h⟩

theorem imp (h : rule.Refuses c bad) (hi : ∀ taken, bad taken → worse taken) :
    rule.Refuses c worse := by
  intro expected found position c' hr
  obtain ⟨hf, hp, taken, ht, hb⟩ := h expected found position c' hr
  exact ⟨hf, hp, taken, ht, hi taken hb⟩

theorem bind (h : rule.Refuses c bad) (hi : ∀ taken, bad taken → worse taken)
    (ht : rule.Takes c good)
    (hn : ∀ taken a c', good taken a c' → (next a).Refuses c' fun more => worse (taken ++ more)) :
    (rule >>= next).Refuses c worse := by
  intro expected found position c'' hr
  rw [EStateM.run_bind] at hr
  cases ha : rule.run c with
  | error d c' =>
    rw [ha] at hr
    cases hr
    exact h.imp hi _ _ _ _ ha
  | ok a c' =>
    rw [ha] at hr
    obtain ⟨taken, hc, hg⟩ := ht a c' ha
    obtain ⟨hf, hp, more, hm, hw⟩ := hn taken a c' hg _ _ _ _ hr
    exact ⟨hf, hp, taken ++ more, by rw [hc, hm, List.append_assoc], hw⟩

theorem last {f : α → β} (h : rule.Refuses c bad) (hi : ∀ taken, bad taken → worse taken) :
    (rule >>= fun a => Pure.pure (f a)).Refuses c worse := by
  intro expected found position c' hr
  rw [EStateM.run_bind] at hr
  cases ha : rule.run c with
  | error d c' =>
    rw [ha] at hr
    cases hr
    exact h.imp hi _ _ _ _ ha
  | ok a c' =>
    rw [ha] at hr
    cases hr

theorem kind {next : Kind → Rule α} (h : (next c.current.kind).Refuses c bad) :
    (Rule.kind >>= next).Refuses c bad := h

theorem current {next : Token → Rule α} (h : (next c.current).Refuses c bad) :
    (Rule.current >>= next).Refuses c bad := h

theorem advance {next : Token → Rule α} (hk : c.current.kind ≠ .eof)
    (hn : ∀ t c', t = c.current → (next t).Refuses c' fun more => bad (t :: more)) :
    (Rule.advance >>= next).Refuses c bad := by
  have h : Rule.advance.Refuses c bad := fun _ _ _ _ h => nomatch h
  refine h.bind (fun _ hb => hb) (Rule.Takes.advance hk) ?_
  rintro _ t c' ⟨ht, rfl⟩
  exact hn t c' ht

theorem expect {next : Token → Rule α} {expected : Kind} (hk : expected ≠ .eof) (hb : bad [])
    (hn : ∀ t c', t.kind = expected → (next t).Refuses c' fun more => bad (t :: more)) :
    (Rule.expect expected >>= next).Refuses c bad := by
  have h : (Rule.expect expected).Refuses c (· = []) := by
    unfold Rule.expect
    refine .kind ?_
    split
    · exact fun _ _ _ _ h => nomatch h
    · exact .unexpected rfl
  refine h.bind (fun _ he => he ▸ hb) (Rule.Takes.expect hk) ?_
  rintro _ t c' ⟨ht, rfl⟩
  exact hn t c' ht

theorem expectKeyword {next : Token → Rule α} (word : Keyword) (hb : bad [])
    (hn : ∀ t c', t.kind = .keyword word → (next t).Refuses c' fun more => bad (t :: more)) :
    (Rule.expect (.keyword word) >>= next).Refuses c bad := .expect nofun hb hn

theorem expectName {next : Token → Rule α} (hb : bad [])
    (hn : ∀ t c', t.kind = .identifier → (next t).Refuses c' fun more => bad (t :: more)) :
    (Rule.expect .identifier >>= next).Refuses c bad := .expect nofun hb hn

theorem expectPunct {next : Token → Rule α} (mark : Punct) (hb : bad [])
    (hn : ∀ t c', t.kind = .punct mark → (next t).Refuses c' fun more => bad (t :: more)) :
    (Rule.expectPunct mark >>= next).Refuses c bad := .expect nofun hb hn

end Rule.Refuses

-- ---------------------------------------------------------------------------
-- The shortest ways to go on
-- ---------------------------------------------------------------------------

def Token.ofKind (kind : Kind) : Token := ⟨kind, "", .start⟩

def Token.ofPunct (mark : Punct) : Token := .ofKind (.punct mark)

theorem Token.kind_ofKind (kind : Kind) : (Token.ofKind kind).kind = kind := rfl

theorem Token.kind_ofPunct (mark : Punct) : (Token.ofPunct mark).kind = .punct mark := rfl

theorem Ascription.begins (level : BindingPower) : Begins (Ascription.Derived level) [] :=
  .of [.ofKind (.typeName .int)] (.named (Token.kind_ofKind _)) rfl

theorem Ascription.chain_begins : Begins Ascription.DerivedChain [] := by
  obtain ⟨rest, a, h⟩ := Ascription.begins .primary
  exact .of (rest ++ []) (.mk h .nil) rfl

-- ---------------------------------------------------------------------------
-- Types
-- ---------------------------------------------------------------------------

/-- The level of the types that a rule at a power reads. -/
def BindingPower.typeLevel (bp : BindingPower) : BindingPower :=
  if bp < .arrow then .arrow else .primary

/-- Whether the rules of a grammar refuse tokens only behind the beginning of
something that they accept. -/
structure TypeGrammar.Completes (g : TypeGrammar) : Prop where
  type : ∀ bp c, (g.type bp).Refuses c (Begins (Ascription.Derived bp.typeLevel))
  arrows : ∀ bp before left c,
    Ascription.Derived .primary before left ∨ c.current.kind ≠ .punct .arrow →
    (g.arrows bp left).Refuses c fun more =>
      Begins (Ascription.Derived bp.typeLevel) (before ++ more)
  moreItems : ∀ c, g.moreItems.Refuses c
    (Begins fun taken items => Ty.DerivedMore taken items ∧ items ≠ [])
  moreReturns : ∀ c, g.moreReturns.Refuses c
    (Begins (Separated .arrow (Ascription.Derived .primary)))

namespace TypeGrammar

variable {g : TypeGrammar} {c : Cursor}

theorem Completes.whole (hg : g.Completes) (c : Cursor) :
    (g.type .whole).Refuses c (Begins (Ascription.Derived .whole)) :=
  (hg.type .whole c).imp fun _ h => h.imp fun _ a ha => ⟨a, ha.weaken (BindingPower.whole_le _)⟩

theorem namedRule_refuses : namedRule.Refuses c (Begins (Ascription.Derived .primary)) := by
  unfold namedRule
  refine .kind ?_
  split
  · next name hk => exact .advance (by simp [hk]) fun _ _ _ => .pure
  · exact .unexpected (Ascription.begins _)

theorem listRule_refuses (hd : g.Derives) (hg : g.Completes) :
    g.listRule.Refuses c (Begins (Ascription.Derived .primary)) := by
  unfold listRule
  refine .expectPunct _ (Ascription.begins _) ?_
  intro start c₁ hs
  refine (hg.whole c₁).bind ?_ (hd.type .whole c₁) ?_
  · rintro inside ⟨rest, item, hi⟩
    exact .of (rest ++ [.ofPunct .closeBracket]) (.list hs hi (Token.kind_ofPunct _)) (by simp)
  intro inside item c₂ hi
  refine .expectPunct _ ?_ fun _ _ _ => .pure
  exact .of [.ofPunct .closeBracket] (.list hs hi.derived (Token.kind_ofPunct _)) (by simp)

theorem parensRule_refuses (hd : g.Derives) (hg : g.Completes) :
    g.parensRule.Refuses c (Begins (Ascription.Derived .primary)) := by
  unfold parensRule
  refine .expectPunct _ (Ascription.begins _) ?_
  intro start c₁ hs
  refine .kind ?_
  split
  · next hk => exact .advance (by simp [hk]) fun _ _ _ => .pure
  · refine (hg.whole c₁).bind ?_ (hd.type .whole c₁) ?_
    · rintro before ⟨rest, first, hf⟩
      exact .of (rest ++ [.ofPunct .closeParen]) (.group hs hf (Token.kind_ofPunct _)) (by simp)
    intro before first c₂ hf
    refine .kind ?_
    split
    · next hk =>
      refine (hg.moreItems c₂).bind ?_ (hd.moreItems c₂) ?_
      · rintro more ⟨rest, items, hm, hne⟩
        exact .of (rest ++ [.ofPunct .closeParen])
          (.tuple hs hf.derived hm hne (Token.kind_ofPunct _)) (by simp)
      rintro more items c₃ ⟨hm, hne⟩
      refine .expectPunct _ ?_ fun _ _ _ => .pure
      exact .of [.ofPunct .closeParen]
        (.tuple hs hf.derived hm (hne hk) (Token.kind_ofPunct _)) (by simp)
    · refine .expectPunct _ ?_ fun _ _ _ => .pure
      exact .of [.ofPunct .closeParen] (.group hs hf.derived (Token.kind_ofPunct _)) (by simp)

theorem arrowRule_refuses (hg : g.Completes) (hl : Ascription.Derived .primary before left) :
    (g.arrowRule left).Refuses c fun more =>
      Begins (Ascription.Derived .arrow) (before ++ more) := by
  unfold arrowRule
  refine .expectPunct _ ?_ ?_
  · exact .of [] (hl.weaken (BindingPower.le_primary _)) (by simp)
  intro t c₁ hk
  refine (hg.type .whole c₁).last ?_
  rintro after ⟨rest, ret, hr⟩
  exact .of rest (.func (Nat.le_refl _) hl hk hr) (by simp)

theorem frontRule_refuses (hd : g.Derives) (hg : g.Completes) :
    g.frontRule.Refuses c (Begins (Ascription.Derived .primary)) := by
  unfold frontRule
  refine .kind ?_
  split
  · exact namedRule_refuses
  · exact listRule_refuses hd hg
  · exact parensRule_refuses hd hg
  · exact .unexpected (Ascription.begins _)

theorem typeRule_refuses (hd : g.Derives) (hg : g.Completes) (bp : BindingPower) :
    (g.typeRule bp).Refuses c (Begins (Ascription.Derived bp.typeLevel)) := by
  unfold typeRule
  refine (frontRule_refuses hd hg).bind ?_ (frontRule_takes hd) ?_
  · intro taken h
    exact h.imp fun _ a ha => ⟨a, ha.weaken (BindingPower.le_primary _)⟩
  intro before left c₁ hl
  exact hg.arrows bp before left c₁ (.inl hl)

/-- Only a first arrow is read here: behind the type that it makes there is none. -/
theorem arrowsRule_refuses (hd : g.Derives) (hg : g.Completes) (bp : BindingPower)
    (hl : Ascription.Derived .primary before left ∨ c.current.kind ≠ .punct .arrow) :
    (g.arrowsRule bp left).Refuses c fun more =>
      Begins (Ascription.Derived bp.typeLevel) (before ++ more) := by
  unfold arrowsRule
  refine .kind ?_
  split
  · next power hp =>
    obtain ⟨hk, rfl⟩ := Kind.typePower?_eq_some hp
    have hl : Ascription.Derived .primary before left := hl.resolve_right fun hn => hn hk
    split
    · next hlt =>
      have hlevel : bp.typeLevel = .arrow := if_pos hlt
      refine (arrowRule_refuses hg hl).bind ?_ (arrowRule_takes hd hl) ?_
      · intro more h
        rwa [hlevel]
      rintro more a c₁ ⟨-, hne⟩
      simpa only [List.append_assoc] using hg.arrows bp (before ++ more) a c₁ (.inr hne)
    · exact .pure
  · exact .pure

theorem moreItemsRule_refuses (hd : g.Derives) (hg : g.Completes) :
    g.moreItemsRule.Refuses c
      (Begins fun taken items => Ty.DerivedMore taken items ∧ items ≠ []) := by
  unfold moreItemsRule
  refine .kind ?_
  split
  · next hk =>
    refine .advance (by simp [hk]) ?_
    rintro t c₁ rfl
    refine (hg.whole c₁).bind ?_ (hd.type .whole c₁) ?_
    · rintro front ⟨rest, item, hi⟩
      exact .of rest ⟨.cons hk hi .nil, List.cons_ne_nil _ _⟩ (by simp)
    intro front item c₂ hi
    refine (hg.moreItems c₂).last ?_
    rintro more ⟨rest, items, hm, -⟩
    exact .of rest ⟨.cons hk hi.derived hm, List.cons_ne_nil _ _⟩ (by simp)
  · exact .pure

theorem moreReturnsRule_refuses (hd : g.Derives) (hg : g.Completes) :
    g.moreReturnsRule.Refuses c (Begins (Separated .arrow (Ascription.Derived .primary))) := by
  unfold moreReturnsRule
  refine .kind ?_
  split
  · next hk =>
    refine .advance (by simp [hk]) ?_
    rintro t c₁ rfl
    refine (hg.type .arrow c₁).bind ?_ (hd.type .arrow c₁) ?_
    · rintro front ⟨rest, item, hi⟩
      exact .of rest (.cons hk hi .nil) (by simp)
    intro front item c₂ hi
    refine (hg.moreReturns c₂).last ?_
    rintro more ⟨rest, returns, hm⟩
    exact .of rest (.cons hk hi.primary hm) (by simp)
  · exact .pure

theorem returnsRule_refuses (hd : g.Derives) (hg : g.Completes) :
    g.returnsRule.Refuses c (Begins Ascription.DerivedChain) := by
  unfold returnsRule
  refine (typeRule_refuses hd hg .arrow).bind ?_ (typeRule_takes .arrow hd) ?_
  · rintro front ⟨rest, first, hf⟩
    exact .of rest (.mk hf .nil) (by simp)
  intro front first c₁ hf
  refine (moreReturnsRule_refuses hd hg).last ?_
  rintro more ⟨rest, returns, hm⟩
  exact .of rest (.mk hf.primary hm) (by simp)

theorem deep_completes (steps : Nat) : (deep steps).Completes := by
  induction steps with
  | zero =>
    exact ⟨fun _ _ => .tooDeep, fun _ _ _ _ _ => .tooDeep, fun _ => .tooDeep, fun _ => .tooDeep⟩
  | succ steps ih =>
    have hd := deep_derives steps
    exact ⟨fun bp _ => typeRule_refuses hd ih bp, fun bp _ _ _ hl => arrowsRule_refuses hd ih bp hl,
      fun _ => moreItemsRule_refuses hd ih, fun _ => moreReturnsRule_refuses hd ih⟩

end TypeGrammar

theorem Rule.ofTypes_refuses {rule : TypeGrammar → Rule α} {bad : List Token → Prop}
    (h : ∀ g, TypeGrammar.Derives g → TypeGrammar.Completes g → (rule g).Refuses c bad) :
    (Rule.ofTypes rule).Refuses c bad :=
  h _ (TypeGrammar.deep_derives _) (TypeGrammar.deep_completes _)

theorem Rule.type_refuses : (Rule.type .whole).Refuses c (Begins (Ascription.Derived .whole)) :=
  ofTypes_refuses fun _ hd hg => (TypeGrammar.typeRule_refuses hd hg .whole).imp
    fun _ h => h.imp fun _ a ha => ⟨a, ha.weaken (BindingPower.whole_le _)⟩

theorem Rule.returns_refuses : Rule.returns.Refuses c (Begins Ascription.DerivedChain) :=
  ofTypes_refuses fun _ hd hg => TypeGrammar.returnsRule_refuses hd hg

-- ---------------------------------------------------------------------------
-- Expressions
-- ---------------------------------------------------------------------------

/-- Whether tokens are an expression that a rule at a power may read. -/
def Expr.Fits (bp : BindingPower) (tokens : List Token) (e : Expr) : Prop :=
  ∃ level, Expr.Derived true level tokens e ∧ bp.Under level

theorem Expr.Fits.whole (h : Expr.Fits bp tokens e) : Expr.Derived true .whole tokens e := by
  obtain ⟨level, hd, -⟩ := h
  exact hd.weaken level.whole_le

theorem Expr.Fits.of_primary (hb : bp < .call) (h : Expr.Derived true .primary tokens e) :
    Expr.Fits bp tokens e :=
  ⟨.primary, h, .of_unary hb (by decide)⟩

def shortExpr : List Token := [.ofKind .identifier]

theorem shortExpr_derived (level : BindingPower) :
    Expr.Derived true level shortExpr (.ident "" .start) := .ident (Token.kind_ofKind _)

theorem Expr.begins (level : BindingPower) : Begins (Expr.Derived true level) [] :=
  .of shortExpr (shortExpr_derived level) rfl

def shortBlock : List Token := [.ofPunct .openCurly, .ofPunct .closeCurly]

theorem shortBlock_derived : Block.Derived true shortBlock ⟨[], true, .start⟩ :=
  .mk (Token.kind_ofPunct _) .nil (Token.kind_ofPunct _)

def shortElse : List Token := .ofKind (.keyword .elseWord) :: shortBlock

def shortValue : List Token := .ofPunct .assign :: shortExpr

theorem Decl.begins : Begins (Decl.Derived true) [] :=
  .of (.ofKind (.keyword .letWord) :: .ofKind .identifier :: shortValue)
    (.undeclared (Token.kind_ofKind _) (Token.kind_ofKind _) (Token.kind_ofPunct _)
      (shortExpr_derived _)) rfl

theorem Block.begins : Begins (Block.Derived true) [] := .of shortBlock shortBlock_derived rfl

/-- Whether the rules of a grammar refuse tokens only behind the beginning of
something that they accept. -/
structure Grammar.Completes (g : Grammar) : Prop where
  expr : ∀ bp c, bp < .call → (g.expr bp).Refuses c (Begins (Expr.Fits bp))
  operators : ∀ bp before left c, bp < .call → Expr.Reached bp before left c →
    (g.operators bp left).Refuses c fun more => Begins (Expr.Fits bp) (before ++ more)
  moreItems : ∀ c, g.moreItems.Refuses c
    (Begins fun taken items => Expr.DerivedMore true taken items ∧ items ≠ [])
  moreParams : ∀ c, g.moreParams.Refuses c (Begins (Separated .comma Param.Derived))
  statements : ∀ c, g.statements.Refuses c
    (Begins fun taken (r : List Stmt × Bool) => Stmt.DerivedAll true taken r.1 r.2)
  cond : ∀ c, g.cond.Refuses c (Begins (Expr.DerivedCond true))
  decls : ∀ c, g.decls.Refuses c (Begins (Decl.DerivedAll true))

namespace Grammar

variable {g : Grammar} {c : Cursor}

theorem Completes.whole (hg : g.Completes) (c : Cursor) :
    (g.expr .whole).Refuses c (Begins (Expr.Derived true .whole)) :=
  (hg.expr .whole c (by decide)).imp fun _ h => h.imp fun _ e he => ⟨e, he.whole⟩

theorem ne_unexpectedToken_of_ofToken? {t : Token} (h : Literal.ofToken? t = some (.error cause)) :
    ∀ expected found, cause ≠ .unexpectedToken expected found := by
  rcases ofToken?_error h with ⟨_, rfl⟩ | ⟨-, -, rfl⟩
  · nofun
  · nofun

theorem primaryRule_refuses : primaryRule.Refuses c (Begins (Expr.Derived true .primary)) := by
  unfold primaryRule
  refine .current ?_
  split
  · next hk => exact .advance (by simp [hk]) fun _ _ _ => .pure
  · split
    · next hv => exact .advance (ofToken?_ne_eof hv) fun _ _ _ => .pure
    · next hv => exact .throw (ne_unexpectedToken_of_ofToken? hv)
    · exact .unexpected (Expr.begins _)

/-- An operator is read where one stands. -/
theorem unaryOpRule_refuses (ho : c.current.kind.unaryOp? = some op) :
    unaryOpRule.Refuses c fun _ => False := by
  unfold unaryOpRule
  refine .advance (ne_eof_of_unaryOp? ho) ?_
  rintro _ c₁ rfl
  rw [ho]
  exact .pure

theorem binaryOpRule_refuses (ho : c.current.kind.binaryOp? = some op) :
    binaryOpRule.Refuses c fun _ => False := by
  unfold binaryOpRule
  refine .advance (ne_eof_of_binaryOp? ho) ?_
  rintro _ c₁ rfl
  rw [ho]
  exact .pure

theorem unaryRule_refuses (hg : g.Completes) (ho : c.current.kind.unaryOp? = some op) :
    g.unaryRule.Refuses c (Begins (Expr.Derived true .unary)) := by
  unfold unaryRule
  refine (unaryOpRule_refuses ho).bind (fun _ h => h.elim) (unaryOpRule_takes ho) ?_
  rintro _ _ c₁ ⟨rfl, rfl⟩
  refine (hg.expr .unary c₁ (by decide)).last ?_
  rintro taken ⟨rest, operand, level, hd, hu⟩
  exact .of rest (.unary (Nat.le_refl _) (Kind.eq_of_unaryOp? ho) (hd.weaken hu.unary_le)) (by simp)

theorem binaryRule_refuses (hg : g.Completes) (ho : c.current.kind.binaryOp? = some op)
    (hl : Expr.Derived true op.power before left) :
    (g.binaryRule op.power left).Refuses c fun more =>
      Begins (Expr.Derived true op.power) (before ++ more) := by
  unfold binaryRule
  refine (binaryOpRule_refuses ho).bind (fun _ h => h.elim) (binaryOpRule_takes ho) ?_
  rintro _ op c₁ ⟨rfl, rfl⟩
  refine (hg.expr op.power c₁ (Nat.lt_succ_of_lt op.power_lt_unary)).last ?_
  rintro after ⟨rest, right, level, hd, hu⟩
  exact .of rest (.binary (Nat.le_refl _) hl (Kind.eq_of_binaryOp? ho) hu.power_lt hd) (by simp)

/-- Whether tokens are something good with a closing mark behind it. -/
def Closed (Inside : List Token → α → Prop) (close : Punct) (tokens : List Token) (a : α) : Prop :=
  ∃ inside stop, tokens = inside ++ [stop] ∧ Inside inside a ∧ stop.kind = .punct close

theorem Closed.of {Inside : List Token → α → Prop} (close : Punct) (h : Inside inside a) :
    Closed Inside close (inside ++ [.ofPunct close]) a :=
  ⟨inside, _, rfl, h, Token.kind_ofPunct _⟩

theorem itemsRule_refuses (hd : g.Derives) (hg : g.Completes) (close : Punct) :
    (g.itemsRule close).Refuses c (Begins (Closed (Expr.DerivedAll true) close)) := by
  unfold itemsRule
  refine .kind ?_
  split
  · next hk => exact .advance (by simp [hk]) fun _ _ _ => .pure
  · refine (hg.whole c).bind ?_ (hd.whole c) ?_
    · rintro front ⟨rest, first, hf⟩
      exact .of (rest ++ [.ofPunct close]) (.of close (.cons hf .nil)) (by simp)
    intro front first c₁ hf
    refine (hg.moreItems c₁).bind ?_ (hd.moreItems c₁) ?_
    · rintro more ⟨rest, items, hm, -⟩
      exact .of (rest ++ [.ofPunct close]) (.of close (.cons hf hm)) (by simp)
    rintro more items c₂ ⟨hm, -⟩
    refine .expectPunct close ?_ fun _ _ _ => .pure
    exact .of [.ofPunct close] (.of close (.cons hf hm)) (by simp)

theorem parensRule_refuses (hd : g.Derives) (hg : g.Completes) :
    g.parensRule.Refuses c (Begins (Expr.Derived true .primary)) := by
  unfold parensRule
  refine .expectPunct _ (Expr.begins _) ?_
  intro start c₁ hs
  refine (hg.whole c₁).bind ?_ (hd.whole c₁) ?_
  · rintro before ⟨rest, first, hf⟩
    exact .of (rest ++ [.ofPunct .closeParen]) (.group hs hf (Token.kind_ofPunct _)) (by simp)
  intro before first c₂ hf
  refine .kind ?_
  split
  · next hk =>
    refine (hg.moreItems c₂).bind ?_ (hd.moreItems c₂) ?_
    · rintro more ⟨rest, items, hm, hne⟩
      exact .of (rest ++ [.ofPunct .closeParen]) (.tuple hs hf hm hne (Token.kind_ofPunct _))
        (by simp)
    rintro more items c₃ ⟨hm, hne⟩
    refine .expectPunct _ ?_ fun _ _ _ => .pure
    exact .of [.ofPunct .closeParen] (.tuple hs hf hm (hne hk) (Token.kind_ofPunct _)) (by simp)
  · refine .expectPunct _ ?_ fun _ _ _ => .pure
    exact .of [.ofPunct .closeParen] (.group hs hf (Token.kind_ofPunct _)) (by simp)

theorem listRule_refuses (hd : g.Derives) (hg : g.Completes) :
    g.listRule.Refuses c (Begins (Expr.Derived true .primary)) := by
  unfold listRule
  refine .expectPunct _ (Expr.begins _) ?_
  intro start c₁ hs
  refine (itemsRule_refuses hd hg _).last ?_
  rintro taken ⟨rest, items, inside, stop, he, hi, hk⟩
  exact .of rest (.list hs hi hk) (by simp [he])

theorem callRule_refuses (hd : g.Derives) (hg : g.Completes)
    (hf : Expr.Derived true .call before callee) :
    (g.callRule callee).Refuses c fun more =>
      Begins (Expr.Derived true .call) (before ++ more) := by
  unfold callRule
  refine .expectPunct _ ?_ ?_
  · exact .of [] hf (by simp)
  intro start c₁ hs
  refine (itemsRule_refuses hd hg _).last ?_
  rintro taken ⟨rest, args, inside, stop, he, ha, hk⟩
  exact .of rest (.call (Nat.le_refl _) hf hs ha hk) (by simp [he])

theorem indexRule_refuses (hd : g.Derives) (hg : g.Completes)
    (ht : Expr.Derived true .call before target) :
    (g.indexRule target).Refuses c fun more =>
      Begins (Expr.Derived true .call) (before ++ more) := by
  unfold indexRule
  refine .expectPunct _ ?_ ?_
  · exact .of [] ht (by simp)
  intro start c₁ hs
  refine (hg.whole c₁).bind ?_ (hd.whole c₁) ?_
  · rintro inside ⟨rest, index, hi⟩
    exact .of (rest ++ [.ofPunct .closeBracket])
      (.index (Nat.le_refl _) ht hs hi (Token.kind_ofPunct _)) (by simp)
  intro inside index c₂ hi
  refine .expectPunct _ ?_ fun _ _ _ => .pure
  exact .of [.ofPunct .closeBracket] (.index (Nat.le_refl _) ht hs hi (Token.kind_ofPunct _))
    (by simp)

theorem blockRule_refuses (hd : g.Derives) (hg : g.Completes) :
    g.blockRule.Refuses c (Begins (Block.Derived true)) := by
  unfold blockRule
  refine .expectPunct _ Block.begins ?_
  intro start c₁ hs
  refine (hg.statements c₁).bind ?_ (hd.statements c₁) ?_
  · rintro inside ⟨rest, r, hi⟩
    exact .of (rest ++ [.ofPunct .closeCurly]) (.mk hs hi (Token.kind_ofPunct _)) (by simp)
  rintro inside ⟨stmts, returnsVoid⟩ c₂ hi
  refine .expectPunct _ ?_ fun _ _ _ => .pure
  exact .of [.ofPunct .closeCurly] (.mk hs hi (Token.kind_ofPunct _)) (by simp)

theorem paramRule_refuses : paramRule.Refuses c (Begins Param.Derived) := by
  unfold paramRule
  refine .expectName ?_ ?_
  · obtain ⟨rest, a, ha⟩ := Ascription.begins .whole
    exact .of (.ofKind .identifier :: rest) (.mk (Token.kind_ofKind _) ha) rfl
  intro name c₁ hk
  refine Rule.type_refuses.last ?_
  rintro taken ⟨rest, written, ht⟩
  exact .of rest (.mk hk ht) rfl

theorem paramsRule_refuses (hd : g.Derives) (hg : g.Completes) :
    g.paramsRule.Refuses c (Begins (Closed Param.DerivedAll .closeParen)) := by
  unfold paramsRule
  refine .kind ?_
  split
  · next hk => exact .advance (by simp [hk]) fun _ _ _ => .pure
  · refine paramRule_refuses.bind ?_ paramRule_takes ?_
    · rintro front ⟨rest, first, hf⟩
      exact .of (rest ++ [.ofPunct .closeParen]) (.of _ (.cons hf .nil)) (by simp)
    intro front first c₁ hf
    refine (hg.moreParams c₁).bind ?_ (hd.moreParams c₁) ?_
    · rintro more ⟨rest, params, hm⟩
      exact .of (rest ++ [.ofPunct .closeParen]) (.of _ (.cons hf hm)) (by simp)
    intro more params c₂ hm
    refine .expectPunct _ ?_ fun _ _ _ => .pure
    exact .of [.ofPunct .closeParen] (.of _ (.cons hf hm)) (by simp)

theorem funcRule_refuses (hd : g.Derives) (hg : g.Completes) :
    g.funcRule.Refuses c (Begins (Expr.Derived true .primary)) := by
  obtain ⟨chain, returns, hc⟩ := Ascription.chain_begins
  unfold funcRule
  refine .expectKeyword _ (Expr.begins _) ?_
  intro start c₁ hs
  refine .expectPunct _ ?_ ?_
  · exact .of (.ofPunct .openParen :: .ofPunct .closeParen :: (chain ++ shortBlock))
      (.func hs (Token.kind_ofPunct _) .nil (Token.kind_ofPunct _) hc shortBlock_derived) rfl
  intro left c₂ hl
  refine (paramsRule_refuses hd hg).bind ?_ (paramsRule_takes hd) ?_
  · rintro taken ⟨rest, params, inside, right, he, hp, hr⟩
    refine .of (rest ++ (chain ++ shortBlock)) (.func hs hl hp hr hc shortBlock_derived) ?_
    rw [List.cons_append, List.cons_append, ← List.append_assoc, he]
    simp
  rintro _ params c₃ ⟨inside, right, rfl, hp, hr⟩
  refine Rule.returns_refuses.bind ?_ Rule.returns_takes ?_
  · rintro more ⟨rest, returns, hc⟩
    exact .of (rest ++ shortBlock) (.func hs hl hp hr hc shortBlock_derived) (by simp)
  intro chain returns c₄ hc
  refine (blockRule_refuses hd hg).last ?_
  rintro more ⟨rest, body, hb⟩
  exact .of rest (.func hs hl hp hr hc hb) (by simp)

theorem condRule_refuses (hd : g.Derives) (hg : g.Completes) :
    g.condRule.Refuses c (Begins (Expr.DerivedCond true)) := by
  have hshort : Block.DerivedElse true shortBlock ⟨[], true, .start⟩ := .block shortBlock_derived
  unfold condRule
  refine .expectKeyword _ ?_ ?_
  · exact .of (.ofKind (.keyword .ifWord) :: (shortExpr ++ (shortBlock ++ shortElse)))
      (.mk (Token.kind_ofKind _) (shortExpr_derived _) shortBlock_derived (Token.kind_ofKind _)
        hshort) rfl
  intro start c₁ hs
  refine (hg.whole c₁).bind ?_ (hd.whole c₁) ?_
  · rintro front ⟨rest, test, ht⟩
    exact .of (rest ++ (shortBlock ++ shortElse))
      (.mk hs ht shortBlock_derived (Token.kind_ofKind _) hshort) (by simp [shortElse])
  intro front test c₂ ht
  refine (blockRule_refuses hd hg).bind ?_ (blockRule_takes hd) ?_
  · rintro inside ⟨rest, thenBlock, hb⟩
    exact .of (rest ++ shortElse) (.mk hs ht hb (Token.kind_ofKind _) hshort) (by simp [shortElse])
  intro inside thenBlock c₃ hb
  refine .expectKeyword _ ?_ ?_
  · exact .of shortElse (.mk hs ht hb (Token.kind_ofKind _) hshort) (by simp [shortElse])
  intro t c₄ hk
  refine .kind ?_
  split
  · refine (hg.cond c₄).last ?_
    rintro more ⟨rest, nested, hn⟩
    exact .of rest (.mk hs ht hb hk (.cond rfl hn)) (by simp)
  · refine (blockRule_refuses hd hg).last ?_
    rintro more ⟨rest, elseBlock, he⟩
    exact .of rest (.mk hs ht hb hk (.block he)) (by simp)

theorem loopRule_refuses (hd : g.Derives) (hg : g.Completes) :
    g.loopRule.Refuses c (Begins (Expr.Derived true .primary)) := by
  unfold loopRule
  refine .expectKeyword _ (Expr.begins _) ?_
  intro start c₁ hs
  refine .expectName ?_ ?_
  · exact .of (.ofKind .identifier :: .ofKind (.keyword .inWord) :: (shortExpr ++ shortBlock))
      (.loop hs (Token.kind_ofKind _) (Token.kind_ofKind _) (shortExpr_derived _)
        shortBlock_derived) rfl
  intro binder c₂ hn
  refine .expectKeyword _ ?_ ?_
  · exact .of (.ofKind (.keyword .inWord) :: (shortExpr ++ shortBlock))
      (.loop hs hn (Token.kind_ofKind _) (shortExpr_derived _) shortBlock_derived) rfl
  intro t c₃ hk
  refine (hg.whole c₃).bind ?_ (hd.whole c₃) ?_
  · rintro front ⟨rest, iterable, hi⟩
    exact .of (rest ++ shortBlock) (.loop hs hn hk hi shortBlock_derived) (by simp)
  intro front iterable c₄ hi
  refine (blockRule_refuses hd hg).last ?_
  rintro more ⟨rest, body, hb⟩
  exact .of rest (.loop hs hn hk hi hb) (by simp)

theorem frontRule_refuses (hd : g.Derives) (hg : g.Completes) (hb : bp < .call) :
    g.frontRule.Refuses c (Begins (Expr.Fits bp)) := by
  have hp (taken : List Token) (h : Begins (Expr.Derived true .primary) taken) :
      Begins (Expr.Fits bp) taken := h.imp fun _ e he => ⟨e, .of_primary hb he⟩
  unfold frontRule
  refine .kind ?_
  split
  · exact primaryRule_refuses.imp hp
  · next hk =>
    obtain ⟨op, ho⟩ := unaryOp?_of_exprForm? hk
    refine (unaryRule_refuses hg ho).imp ?_
    intro taken h
    exact h.imp fun _ e he => ⟨e, .unary, he, .of_unary hb (Nat.le_refl _)⟩
  · exact (parensRule_refuses hd hg).imp hp
  · exact (listRule_refuses hd hg).imp hp
  · refine (blockRule_refuses hd hg).last ?_
    intro taken h
    exact hp taken (h.imp fun _ b hb => ⟨.block b, .block hb⟩)
  · exact (funcRule_refuses hd hg).imp hp
  · refine (condRule_refuses hd hg).imp ?_
    intro taken h
    exact hp taken (h.imp fun _ e he => ⟨e, .cond he⟩)
  · exact (loopRule_refuses hd hg).imp hp
  · exact .unexpected (hp [] (Expr.begins _))

theorem operatorRule_refuses (hd : g.Derives) (hg : g.Completes)
    (hk : c.current.kind.power? = some power) (hl : Expr.Derived true power before left) :
    (g.operatorRule power left).Refuses c fun more =>
      Begins (Expr.Derived true power) (before ++ more) := by
  unfold operatorRule
  refine .kind ?_
  split
  · next hp =>
    rw [hp] at hk
    obtain rfl := Option.some.inj hk
    exact callRule_refuses hd hg hl
  · next hp =>
    rw [hp] at hk
    obtain rfl := Option.some.inj hk
    exact indexRule_refuses hd hg hl
  · next hp hi =>
    obtain ⟨op, ho, rfl⟩ := binaryOp?_of_power? hk hp hi
    exact binaryRule_refuses hg ho hl

theorem exprRule_refuses (hd : g.Derives) (hg : g.Completes) (hb : bp < .call) :
    (g.exprRule bp).Refuses c (Begins (Expr.Fits bp)) := by
  unfold exprRule
  refine (frontRule_refuses hd hg hb).bind (fun _ h => h) (frontRule_takes hd hb) ?_
  intro before left c₁ hl
  exact hg.operators bp before left c₁ hb hl

theorem operatorsRule_refuses (hd : g.Derives) (hg : g.Completes) (hb : bp < .call)
    (hl : Expr.Reached bp before left c) :
    (g.operatorsRule bp left).Refuses c fun more => Begins (Expr.Fits bp) (before ++ more) := by
  obtain ⟨level, hdl, -, hm⟩ := hl
  unfold operatorsRule
  refine .kind ?_
  split
  · next power hk =>
    have hl : Expr.Derived true power before left := hdl.weaken (hm power hk)
    split
    · next hlt =>
      refine (operatorRule_refuses hd hg hk hl).bind ?_ (operatorRule_takes hd hk hl) ?_
      · intro more h
        exact h.imp fun _ e he => ⟨e, power, he, .of_lt hlt⟩
      rintro more e c₁ ⟨he, hn⟩
      simpa only [List.append_assoc] using
        hg.operators bp (before ++ more) e c₁ hb ⟨power, he, .of_lt hlt, hn⟩
    · exact .pure
  · exact .pure

theorem moreItemsRule_refuses (hd : g.Derives) (hg : g.Completes) :
    g.moreItemsRule.Refuses c
      (Begins fun taken items => Expr.DerivedMore true taken items ∧ items ≠ []) := by
  unfold moreItemsRule
  refine .kind ?_
  split
  · next hk =>
    refine .advance (by simp [hk]) ?_
    rintro _ c₁ rfl
    refine (hg.whole c₁).bind ?_ (hd.whole c₁) ?_
    · rintro front ⟨rest, item, hi⟩
      exact .of rest ⟨.cons hk hi .nil, List.cons_ne_nil _ _⟩ (by simp)
    intro front item c₂ hi
    refine (hg.moreItems c₂).last ?_
    rintro more ⟨rest, items, hm, -⟩
    exact .of rest ⟨.cons hk hi hm, List.cons_ne_nil _ _⟩ (by simp)
  · exact .pure

theorem moreParamsRule_refuses (hg : g.Completes) :
    g.moreParamsRule.Refuses c (Begins (Separated .comma Param.Derived)) := by
  unfold moreParamsRule
  refine .kind ?_
  split
  · next hk =>
    refine .advance (by simp [hk]) ?_
    rintro _ c₁ rfl
    refine paramRule_refuses.bind ?_ paramRule_takes ?_
    · rintro front ⟨rest, param, hp⟩
      exact .of rest (.cons hk hp .nil) (by simp)
    intro front param c₂ hp
    refine (hg.moreParams c₂).last ?_
    rintro more ⟨rest, params, hm⟩
    exact .of rest (.cons hk hp hm) (by simp)
  · exact .pure

-- ---------------------------------------------------------------------------
-- Statements and declarations
-- ---------------------------------------------------------------------------

/-- A type is refused only behind a colon. -/
theorem declaredRule_refuses : declRule.declaredRule.Refuses c fun taken => ∃ colon front,
    taken = colon :: front ∧ colon.kind = .punct .colon ∧
      Begins (Ascription.Derived .whole) front := by
  unfold declRule.declaredRule
  refine .kind ?_
  split
  · next hk =>
    refine .advance (by simp [hk]) ?_
    rintro _ c₁ rfl
    refine Rule.type_refuses.last ?_
    intro front h
    exact ⟨_, front, rfl, hk, h⟩
  · exact .pure

theorem declRule_refuses (hg : g.Completes) :
    g.declRule.Refuses c (Begins (Decl.Derived true)) := by
  unfold declRule
  refine .expectKeyword _ Decl.begins ?_
  intro start c₁ hs
  refine .expectName ?_ ?_
  · exact .of (.ofKind .identifier :: shortValue)
      (.undeclared hs (Token.kind_ofKind _) (Token.kind_ofPunct _) (shortExpr_derived _)) rfl
  intro name c₂ hn
  refine declaredRule_refuses.bind ?_ declaredRule_takes ?_
  · rintro _ ⟨colon, front, rfl, hc, rest, written, hw⟩
    exact .of (rest ++ shortValue)
      (.declared hs hn hc hw (Token.kind_ofPunct _) (shortExpr_derived _)) (by simp [shortValue])
  intro front declared c₃ hdecl
  refine .expectPunct _ ?_ ?_
  · obtain ⟨rfl, rfl⟩ | ⟨colon, front, written, rfl, rfl, hc, hw⟩ := hdecl
    · exact .of shortValue (.undeclared hs hn (Token.kind_ofPunct _) (shortExpr_derived _)) rfl
    · exact .of shortValue (.declared hs hn hc hw (Token.kind_ofPunct _) (shortExpr_derived _))
        (by simp [shortValue])
  intro t c₄ hk
  refine (hg.whole c₄).last ?_
  rintro more ⟨rest, value, hv⟩
  obtain ⟨rfl, rfl⟩ | ⟨colon, front, written, rfl, rfl, hc, hw⟩ := hdecl
  · exact .of rest (.undeclared hs hn hk hv) (by simp)
  · exact .of rest (.declared hs hn hc hw hk hv) (by simp)

theorem stmtRule_refuses (hd : g.Derives) (hg : g.Completes) :
    g.stmtRule.Refuses c (Begins (Stmt.Derived true)) := by
  unfold stmtRule
  refine .kind ?_
  split
  · exact (declRule_refuses hg).last fun _ h => h.imp fun _ d hdecl => ⟨.decl d, .decl hdecl⟩
  · exact (exprRule_refuses hd hg (by decide)).last fun _ h =>
      h.imp fun _ e he => ⟨.expr e, .expr he.whole⟩

theorem statementsRule_refuses (hd : g.Derives) (hg : g.Completes) :
    g.statementsRule.Refuses c
      (Begins fun taken (r : List Stmt × Bool) => Stmt.DerivedAll true taken r.1 r.2) := by
  unfold statementsRule
  refine .kind ?_
  split
  · exact .pure
  · refine (stmtRule_refuses hd hg).bind ?_ (stmtRule_takes hd) ?_
    · intro taken h
      exact h.imp fun _ s hs => ⟨([s], false), .last hs⟩
    intro front s c₁ hs
    refine .kind ?_
    split
    · next hk =>
      refine .advance (by simp [hk]) ?_
      rintro _ c₂ rfl
      refine (hg.statements c₂).last ?_
      rintro more ⟨rest, ⟨ss, returnsVoid⟩, hm⟩
      exact ⟨rest, (s :: ss, returnsVoid), by simpa using Stmt.DerivedAll.cons hs hk hm⟩
    · exact .pure
    · exact .unexpected ⟨[], ([s], false), by simpa using Stmt.DerivedAll.last hs⟩

theorem declsRule_refuses (hd : g.Derives) (hg : g.Completes) :
    g.declsRule.Refuses c (Begins (Decl.DerivedAll true)) := by
  unfold declsRule
  refine .kind ?_
  split
  · exact .pure
  · refine (declRule_refuses hg).bind ?_ (declRule_takes hd) ?_
    · rintro taken ⟨rest, d, h⟩
      exact .of rest (.bare h .nil) (by simp)
    intro front d c₁ hdecl
    refine .kind ?_
    split
    · next hk =>
      refine .advance (by simp [hk]) ?_
      rintro _ c₂ rfl
      refine (hg.decls c₂).last ?_
      rintro more ⟨rest, ds, hm⟩
      exact .of rest (.ended hdecl hk hm) (by simp)
    · refine (hg.decls c₁).last ?_
      rintro more ⟨rest, ds, hm⟩
      exact .of rest (.bare hdecl hm) (by simp)

theorem deep_completes (steps : Nat) : (deep steps).Completes := by
  induction steps with
  | zero =>
    exact ⟨fun _ _ _ => .tooDeep, fun _ _ _ _ _ _ => .tooDeep, fun _ => .tooDeep,
      fun _ => .tooDeep, fun _ => .tooDeep, fun _ => .tooDeep, fun _ => .tooDeep⟩
  | succ steps ih =>
    have hd := deep_derives steps
    exact ⟨fun _ _ hb => exprRule_refuses hd ih hb,
      fun _ _ _ _ hb hl => operatorsRule_refuses hd ih hb hl,
      fun _ => moreItemsRule_refuses hd ih, fun _ => moreParamsRule_refuses ih,
      fun _ => statementsRule_refuses hd ih, fun _ => condRule_refuses hd ih,
      fun _ => declsRule_refuses hd ih⟩

end Grammar

theorem Rule.ofGrammar_refuses {rule : Grammar → Rule α} {bad : List Token → Prop}
    (h : ∀ g, Grammar.Derives g → Grammar.Completes g → (rule g).Refuses c bad) :
    (Rule.ofGrammar rule).Refuses c bad :=
  h _ (Grammar.deep_derives _) (Grammar.deep_completes _)

theorem Rule.decls_refuses : Rule.decls.Refuses c (Begins (Decl.DerivedAll true)) :=
  ofGrammar_refuses fun _ hd hg => Grammar.declsRule_refuses hd hg

end LetLang
