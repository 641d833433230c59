import LetLang.Proofs.Syntax.Powers
import LetLang.Proofs.Syntax.TypeRules
import LetLang.Syntax.Grammar

/-!
# The rules of modules

Every rule yields a tree that is made from the tokens it takes, and rejects with
a diagnostic that blames a token. As with types, a rule refers to others only
behind a token, and a grammar with a step for each token ahead is sound.
-/

namespace LetLang

/-- Whether a parameter is made from tokens. -/
structure Param.From (p : Token → Prop) (param : Param) : Prop where
  name : NameFrom p param.name
  position : param.position.From p
  type : param.type.From p

/-- Whether a rule takes a token at least and yields an expression made from tokens. -/
abbrev Rule.YieldsExpr (p : Token → Prop) (rule : Rule Expr) (c : Cursor) : Prop :=
  rule.Yields p c fun e c' => c'.ahead.length < c.ahead.length ∧ e.Every (Node.From p)

/-- Whether the rules of a grammar are sound at cursors with fewer tokens ahead. -/
structure Grammar.Sound (p : Token → Prop) (g : Grammar) (count : Nat) : Prop where
  expr : ∀ bp c, c.ahead.length < count → (g.expr bp).YieldsExpr p c
  operators : ∀ bp left c, c.ahead.length < count → left.Every (Node.From p) →
    (g.operators bp left).Yields p c fun e _ => e.Every (Node.From p)
  moreItems : ∀ c, c.ahead.length < count → g.moreItems.Yields p c fun es _ =>
    Expr.EveryItem (Node.From p) es ∧ (c.current.kind = .punct .comma → es ≠ [])
  moreParams : ∀ c, c.ahead.length < count → g.moreParams.Yields p c fun params _ =>
    ∀ param ∈ params, param.From p
  statements : ∀ c, c.ahead.length < count → g.statements.Yields p c fun r _ =>
    Stmt.EveryStmt (Node.From p) r.1 ∧ (r.1 = [] → r.2 = true)
  cond : ∀ c, c.ahead.length < count → g.cond.YieldsExpr p c
  decls : ∀ c, c.ahead.length < count → g.decls.Yields p c fun ds _ =>
    ∀ d ∈ ds, d.Every (Node.From p)

-- ---------------------------------------------------------------------------
-- Tokens that stand for themselves
-- ---------------------------------------------------------------------------

theorem ofToken?_ne_eof {t : Token} (h : Literal.ofToken? t = some r) : t.kind ≠ .eof := by
  intro hk
  simp [Literal.ofToken?, hk] at h

theorem ofNumeral_error (h : Literal.ofNumeral text value = .error cause) :
    cause = .badNumber text := by
  cases value with
  | none =>
    cases h
    rfl
  | some literal => cases h

theorem ofToken?_error {t : Token} (h : Literal.ofToken? t = some (.error cause)) :
    (∃ text, cause = .badNumber text) ∨ t.kind = .literal .char ∧ t.value.toList = [] ∧
      cause = .fault "char token without a character" := by
  unfold Literal.ofToken? at h
  split at h
  · exact .inl ⟨_, ofNumeral_error (Option.some.inj h)⟩
  · exact .inl ⟨_, ofNumeral_error (Option.some.inj h)⟩
  · next hk =>
    split at h
    · cases h
    · next hv =>
      cases h
      exact .inr ⟨hk, hv, rfl⟩
  · cases h
  · cases h
  · cases h
  · cases h

theorem unaryOp?_of_exprForm? {kind : Kind} (h : kind.exprForm? = some .unary) :
    ∃ op, kind.unaryOp? = some op := by
  cases kind with
  | punct mark =>
    cases mark with
    | plus | dash | not => exact ⟨_, rfl⟩
    | _ => cases h
  | keyword word =>
    cases word with
    | _ => cases h
  | _ => cases h

theorem ne_eof_of_unaryOp? {kind : Kind} (h : kind.unaryOp? = some op) : kind ≠ .eof := by
  rintro rfl
  cases h

theorem ne_eof_of_binaryOp? {kind : Kind} (h : kind.binaryOp? = some op) : kind ≠ .eof := by
  rintro rfl
  cases h

namespace Grammar

variable {p : Token → Prop} {g : Grammar} {count : Nat} {c : Cursor}

theorem primaryRule_yields : primaryRule.YieldsExpr p c := by
  unfold primaryRule
  refine .current ?_
  split
  · next hk =>
    refine (Rule.Yields.advance (by simp [hk])).bind ?_
    rintro t c₁ - ⟨rfl, ht, h₁⟩
    refine .pure fun _ => ⟨h₁, ?_, ?_, nofun, trivial⟩
    · exact List.forall_mem_singleton.mpr ⟨_, ht, hk, rfl⟩
    · exact List.forall_mem_singleton.mpr ⟨_, ht, rfl⟩
  · split
    · next value hv =>
      refine (Rule.Yields.advance (ofToken?_ne_eof hv)).bind ?_
      rintro t c₁ - ⟨rfl, ht, h₁⟩
      exact .pure fun _ => ⟨h₁, .of_position rfl rfl rfl ⟨_, ht, rfl⟩ trivial⟩
    · next cause hv =>
      refine .throw fun hc => ⟨_, hc.current, rfl, (ofToken?_error hv).imp_left ?_⟩
      rintro ⟨text, rfl⟩
      rfl
    · exact .unexpected

theorem unaryOpRule_yields (hk : c.current.kind.exprForm? = some .unary) :
    unaryOpRule.Yields p c fun r c' => c'.ahead.length < c.ahead.length ∧ r.2.From p := by
  obtain ⟨op, ho⟩ := unaryOp?_of_exprForm? hk
  unfold unaryOpRule
  refine (Rule.Yields.advance (ne_eof_of_unaryOp? ho)).bind ?_
  rintro _ c₁ - ⟨rfl, ht, h₁⟩
  simp only [ho]
  exact .pure fun _ => ⟨h₁, _, ht, rfl⟩

theorem binaryOpRule_yields (ho : c.current.kind.binaryOp? = some op) :
    binaryOpRule.Yields p c fun _ c' => c'.ahead.length < c.ahead.length := by
  unfold binaryOpRule
  refine (Rule.Yields.advance (ne_eof_of_binaryOp? ho)).bind ?_
  rintro _ c₁ - ⟨rfl, -, h₁⟩
  simp only [ho]
  exact .pure fun _ => h₁

-- ---------------------------------------------------------------------------
-- Expressions
-- ---------------------------------------------------------------------------

theorem unaryRule_yields (hg : g.Sound p count) (hc : c.ahead.length ≤ count)
    (hk : c.current.kind.exprForm? = some .unary) : g.unaryRule.YieldsExpr p c := by
  unfold unaryRule
  refine (unaryOpRule_yields hk).bind ?_
  rintro ⟨op, start⟩ c₁ - ⟨h₁, hs⟩
  refine (hg.expr _ _ (by omega)).bind ?_
  rintro operand c₂ - ⟨h₂, he⟩
  exact .pure fun _ =>
    ⟨by omega, .of_position rfl rfl rfl hs trivial, he⟩

theorem binaryRule_yields (hg : g.Sound p count) (hc : c.ahead.length ≤ count)
    (ho : c.current.kind.binaryOp? = some op) (hl : left.Every (Node.From p)) :
    (g.binaryRule power left).YieldsExpr p c := by
  unfold binaryRule
  refine (binaryOpRule_yields ho).bind ?_
  rintro op c₁ - h₁
  refine (hg.expr _ _ (by omega)).bind ?_
  rintro right c₂ - ⟨h₂, hr⟩
  exact .pure fun _ => ⟨by omega,
    .of_position rfl rfl rfl hl.position_from trivial, hl, hr⟩

theorem itemsRule_yields (close : Punct) (hg : g.Sound p count) (hc : c.ahead.length < count) :
    (g.itemsRule close).Yields p c fun es _ => Expr.EveryItem (Node.From p) es := by
  unfold itemsRule
  refine .kind ?_
  split
  · next hk =>
    refine (Rule.Yields.advance (by simp [hk])).bind ?_
    rintro _ c₁ - -
    exact .pure fun _ => trivial
  · refine (hg.expr _ _ hc).bind ?_
    rintro first c₁ - ⟨h₁, hf⟩
    refine (hg.moreItems _ (by omega)).bind ?_
    rintro items c₂ - ⟨hi, -⟩
    refine (Rule.Yields.expectPunct _).bind ?_
    rintro _ c₃ - -
    exact .pure fun _ => ⟨hf, hi⟩

theorem parensRule_yields (hg : g.Sound p count) (hc : c.ahead.length ≤ count) :
    g.parensRule.YieldsExpr p c := by
  unfold parensRule
  refine (Rule.Yields.expectPunct _).bind ?_
  rintro start c₁ - ⟨-, hs, h₁⟩
  refine (hg.expr _ _ (by omega)).bind ?_
  rintro first c₂ - ⟨h₂, hf⟩
  refine .kind ?_
  split
  · next hk =>
    refine (hg.moreItems _ (by omega)).bind ?_
    rintro items c₃ h₃ ⟨hi, hne⟩
    refine (Rule.Yields.expectPunct _).bind ?_
    rintro _ c₄ h₄ -
    refine .pure fun _ => ⟨by omega, .of_position rfl rfl rfl ⟨start, hs, rfl⟩ ?_, hf, hi⟩
    -- The comma is behind a first item and before a second one.
    exact Nat.succ_le_succ (List.length_pos_iff.mpr (hne hk))
  · refine (Rule.Yields.expectPunct _).bind ?_
    rintro _ c₃ h₃ -
    exact .pure fun _ => ⟨by omega, hf⟩

theorem listRule_yields (hg : g.Sound p count) (hc : c.ahead.length ≤ count) :
    g.listRule.YieldsExpr p c := by
  unfold listRule
  refine (Rule.Yields.expectPunct _).bind ?_
  rintro start c₁ - ⟨-, hs, h₁⟩
  refine (itemsRule_yields _ hg (by omega)).bind ?_
  rintro items c₂ h₂ hi
  exact .pure fun _ => ⟨by omega,
    .of_position rfl rfl rfl ⟨start, hs, rfl⟩ trivial, hi⟩

theorem callRule_yields (hg : g.Sound p count) (hc : c.ahead.length ≤ count)
    (hf : callee.Every (Node.From p)) : (g.callRule callee).YieldsExpr p c := by
  unfold callRule
  refine (Rule.Yields.expectPunct _).bind ?_
  rintro start c₁ - ⟨-, hs, h₁⟩
  refine (itemsRule_yields _ hg (by omega)).bind ?_
  rintro args c₂ h₂ ha
  refine .pure fun _ => ⟨by omega, ⟨nofun, ?_, nofun, trivial⟩, hf, ha⟩
  exact List.forall_mem_cons.mpr ⟨⟨start, hs, rfl⟩, List.forall_mem_singleton.mpr hf.position_from⟩

theorem indexRule_yields (hg : g.Sound p count) (hc : c.ahead.length ≤ count)
    (ht : target.Every (Node.From p)) : (g.indexRule target).YieldsExpr p c := by
  unfold indexRule
  refine (Rule.Yields.expectPunct _).bind ?_
  rintro _ c₁ - ⟨-, -, h₁⟩
  refine (hg.expr _ _ (by omega)).bind ?_
  rintro index c₂ - ⟨h₂, hi⟩
  refine (Rule.Yields.expectPunct _).bind ?_
  rintro _ c₃ h₃ -
  exact .pure fun _ => ⟨by omega,
    .of_position rfl rfl rfl ht.position_from trivial, ht, hi⟩

theorem blockRule_yields (hg : g.Sound p count) (hc : c.ahead.length ≤ count) :
    g.blockRule.Yields p c fun b c' =>
      c'.ahead.length < c.ahead.length ∧ b.Every (Node.From p) := by
  unfold blockRule
  refine (Rule.Yields.expectPunct _).bind ?_
  rintro start c₁ - ⟨-, hs, h₁⟩
  refine (hg.statements _ (by omega)).bind ?_
  rintro ⟨stmts, returnsVoid⟩ c₂ h₂ ⟨hss, hv⟩
  refine (Rule.Yields.expectPunct _).bind ?_
  rintro _ c₃ h₃ -
  exact .pure fun _ => ⟨by omega,
    .of_position rfl rfl rfl ⟨start, hs, rfl⟩ hv, hss⟩

theorem paramRule_yields : paramRule.Yields p c fun param c' =>
    c'.ahead.length < c.ahead.length ∧ param.From p := by
  unfold paramRule
  refine Rule.Yields.expectName.bind ?_
  rintro name c₁ - ⟨hk, hn, h₁⟩
  refine (Rule.type_yields _).bind ?_
  rintro type c₂ - ⟨h₂, ht⟩
  exact .pure fun _ => ⟨by omega, ⟨name, hn, hk, rfl⟩, ⟨name, hn, rfl⟩, ht⟩

theorem paramsRule_yields (hg : g.Sound p count) (hc : c.ahead.length ≤ count) :
    g.paramsRule.Yields p c fun params _ => ∀ param ∈ params, param.From p := by
  unfold paramsRule
  refine .kind ?_
  split
  · next hk =>
    refine (Rule.Yields.advance (by simp [hk])).bind ?_
    rintro _ c₁ - -
    exact .pure fun _ => nofun
  · refine paramRule_yields.bind ?_
    rintro first c₁ - ⟨h₁, hf⟩
    refine (hg.moreParams _ (by omega)).bind ?_
    rintro params c₂ - hs
    refine (Rule.Yields.expectPunct _).bind ?_
    rintro _ c₃ - -
    exact .pure fun _ => List.forall_mem_cons.mpr ⟨hf, hs⟩

theorem funcRule_yields (hg : g.Sound p count) (hc : c.ahead.length ≤ count) :
    g.funcRule.YieldsExpr p c := by
  unfold funcRule
  refine (Rule.Yields.expectKeyword _).bind ?_
  rintro start c₁ - ⟨-, hs, h₁⟩
  refine (Rule.Yields.expectPunct _).bind ?_
  rintro _ c₂ h₂ -
  refine (paramsRule_yields hg (by omega)).bind ?_
  rintro params c₃ h₃ hps
  refine Rule.returns_yields.bind ?_
  rintro returns c₄ h₄ ⟨-, hne, hrs⟩
  refine (blockRule_yields hg (by omega)).bind ?_
  rintro body c₅ h₅ ⟨-, hb⟩
  refine .pure fun _ => ⟨by omega, ⟨?_, ?_, ?_, hne⟩, hb⟩
  · exact List.forall_mem_map.mpr fun param hm => (hps param hm).name
  · exact List.forall_mem_cons.mpr ⟨⟨start, hs, rfl⟩,
      List.forall_mem_map.mpr fun param hm => (hps param hm).position⟩
  · exact List.forall_mem_append.mpr
      ⟨List.forall_mem_map.mpr fun param hm => (hps param hm).type, hrs⟩

theorem condRule_yields (hg : g.Sound p count) (hc : c.ahead.length ≤ count) :
    g.condRule.YieldsExpr p c := by
  unfold condRule
  refine (Rule.Yields.expectKeyword _).bind ?_
  rintro start c₁ - ⟨-, hs, h₁⟩
  refine (hg.expr _ _ (by omega)).bind ?_
  rintro test c₂ - ⟨h₂, ht⟩
  refine (blockRule_yields hg (by omega)).bind ?_
  rintro thenBlock c₃ - ⟨h₃, hy⟩
  refine (Rule.Yields.expectKeyword _).bind ?_
  rintro _ c₄ - ⟨-, -, h₄⟩
  refine .kind ?_
  split
  · refine (hg.cond _ (by omega)).bind ?_
    rintro nested c₅ - ⟨h₅, hn⟩
    refine .pure fun _ => ⟨by omega, .of_position rfl rfl rfl ⟨start, hs, rfl⟩ trivial,
      ht, hy, ?_, hn, trivial⟩
    -- The block around the nested conditional stands where that conditional does.
    exact .of_position rfl rfl rfl hn.position_from nofun
  · refine (blockRule_yields hg (by omega)).bind ?_
    rintro elseBlock c₅ - ⟨h₅, hn⟩
    exact .pure fun _ => ⟨by omega,
      .of_position rfl rfl rfl ⟨start, hs, rfl⟩ trivial, ht, hy, hn⟩

theorem loopRule_yields (hg : g.Sound p count) (hc : c.ahead.length ≤ count) :
    g.loopRule.YieldsExpr p c := by
  unfold loopRule
  refine (Rule.Yields.expectKeyword _).bind ?_
  rintro start c₁ - ⟨-, hs, h₁⟩
  refine Rule.Yields.expectName.bind ?_
  rintro binder c₂ - ⟨hk, hbi, h₂⟩
  refine (Rule.Yields.expectKeyword _).bind ?_
  rintro _ c₃ - ⟨-, -, h₃⟩
  refine (hg.expr _ _ (by omega)).bind ?_
  rintro iterable c₄ - ⟨h₄, hi⟩
  refine (blockRule_yields hg (by omega)).bind ?_
  rintro body c₅ - ⟨h₅, hb⟩
  exact .pure fun _ => ⟨by omega,
    ⟨List.forall_mem_singleton.mpr ⟨binder, hbi, hk, rfl⟩,
      List.forall_mem_singleton.mpr ⟨start, hs, rfl⟩, nofun, trivial⟩, hi, hb⟩

theorem frontRule_yields (hg : g.Sound p count) (hc : c.ahead.length ≤ count) :
    g.frontRule.YieldsExpr p c := by
  unfold frontRule
  refine .kind ?_
  split
  · exact primaryRule_yields
  · next hk => exact unaryRule_yields hg hc hk
  · exact parensRule_yields hg hc
  · exact listRule_yields hg hc
  · refine (blockRule_yields hg hc).bind ?_
    rintro body c₁ - ⟨h₁, hb⟩
    exact .pure fun _ =>
      ⟨h₁, .of_position rfl rfl rfl hb.position_from trivial, hb⟩
  · exact funcRule_yields hg hc
  · exact condRule_yields hg hc
  · exact loopRule_yields hg hc
  · exact .unexpected

theorem operatorRule_yields (hg : g.Sound p count) (hc : c.ahead.length ≤ count)
    (hk : c.current.kind.power? = some power) (hl : left.Every (Node.From p)) :
    (g.operatorRule power left).YieldsExpr p c := by
  unfold operatorRule
  refine .kind ?_
  split
  · exact callRule_yields hg hc hl
  · exact indexRule_yields hg hc hl
  · next hp hb =>
    obtain ⟨op, ho, -⟩ := binaryOp?_of_power? hk hp hb
    exact binaryRule_yields hg hc ho hl

theorem exprRule_yields (bp : BindingPower) (hg : g.Sound p count) (hc : c.ahead.length ≤ count) :
    (g.exprRule bp).YieldsExpr p c := by
  unfold exprRule
  refine (frontRule_yields hg hc).bind ?_
  rintro left c₁ - ⟨h₁, hl⟩
  refine (hg.operators _ _ _ (by omega) hl).imp ?_
  intro e c₂ h₂ he
  exact ⟨by omega, he⟩

theorem operatorsRule_yields (bp : BindingPower) (hg : g.Sound p count)
    (hc : c.ahead.length ≤ count) (hl : left.Every (Node.From p)) :
    (g.operatorsRule bp left).Yields p c fun e _ => e.Every (Node.From p) := by
  unfold operatorsRule
  refine .kind ?_
  split
  · next power hk =>
    split
    · refine (operatorRule_yields hg hc hk hl).bind ?_
      rintro e c₁ - ⟨h₁, he⟩
      exact hg.operators _ _ _ (by omega) he
    · exact .pure fun _ => hl
  · exact .pure fun _ => hl

theorem moreItemsRule_yields (hg : g.Sound p count) (hc : c.ahead.length ≤ count) :
    g.moreItemsRule.Yields p c fun es _ => Expr.EveryItem (Node.From p) es ∧
      (c.current.kind = .punct .comma → es ≠ []) := by
  unfold moreItemsRule
  refine .kind ?_
  split
  · next hk =>
    refine (Rule.Yields.advance (by simp [hk])).bind ?_
    rintro _ c₁ - ⟨-, -, h₁⟩
    refine (hg.expr _ _ (by omega)).bind ?_
    rintro item c₂ - ⟨h₂, hi⟩
    refine (hg.moreItems _ (by omega)).bind ?_
    rintro items c₃ - ⟨hs, -⟩
    exact .pure fun _ => ⟨⟨hi, hs⟩, fun _ => List.cons_ne_nil _ _⟩
  · next hk => exact .pure fun _ => ⟨trivial, fun h => absurd h hk⟩

theorem moreParamsRule_yields (hg : g.Sound p count) (hc : c.ahead.length ≤ count) :
    g.moreParamsRule.Yields p c fun params _ => ∀ param ∈ params, param.From p := by
  unfold moreParamsRule
  refine .kind ?_
  split
  · next hk =>
    refine (Rule.Yields.advance (by simp [hk])).bind ?_
    rintro _ c₁ - ⟨-, -, h₁⟩
    refine paramRule_yields.bind ?_
    rintro param c₂ - ⟨h₂, hq⟩
    refine (hg.moreParams _ (by omega)).bind ?_
    rintro params c₃ - hs
    exact .pure fun _ => List.forall_mem_cons.mpr ⟨hq, hs⟩
  · exact .pure fun _ => nofun

-- ---------------------------------------------------------------------------
-- Statements and declarations
-- ---------------------------------------------------------------------------

theorem declaredRule_yields : declRule.declaredRule.Yields p c fun declared _ =>
    ∀ a ∈ declared.toList, a.From p := by
  unfold declRule.declaredRule
  refine .kind ?_
  split
  · next hk =>
    refine (Rule.Yields.advance (by simp [hk])).bind ?_
    rintro _ c₁ - -
    refine (Rule.type_yields _).bind ?_
    rintro type c₂ - ⟨-, ht⟩
    exact .pure fun _ => List.forall_mem_singleton.mpr ht
  · exact .pure fun _ => nofun

theorem declRule_yields (hg : g.Sound p count) (hc : c.ahead.length ≤ count) :
    g.declRule.Yields p c fun d c' =>
      c'.ahead.length < c.ahead.length ∧ d.Every (Node.From p) := by
  unfold declRule
  refine (Rule.Yields.expectKeyword _).bind ?_
  rintro start c₁ - ⟨-, hs, h₁⟩
  refine Rule.Yields.expectName.bind ?_
  rintro name c₂ - ⟨hk, hn, h₂⟩
  refine declaredRule_yields.bind ?_
  rintro declared c₃ h₃ hd
  refine (Rule.Yields.expectPunct _).bind ?_
  rintro _ c₄ - ⟨-, -, h₄⟩
  refine (hg.expr _ _ (by omega)).bind ?_
  rintro value c₅ - ⟨h₅, hv⟩
  exact .pure fun _ => ⟨by omega,
    ⟨List.forall_mem_singleton.mpr ⟨name, hn, hk, rfl⟩,
      List.forall_mem_singleton.mpr ⟨start, hs, rfl⟩, hd, trivial⟩, hv⟩

theorem stmtRule_yields (hg : g.Sound p count) (hc : c.ahead.length ≤ count) :
    g.stmtRule.Yields p c fun s c' =>
      c'.ahead.length < c.ahead.length ∧ Stmt.EveryStmt (Node.From p) [s] := by
  unfold stmtRule
  refine .kind ?_
  split
  · refine (declRule_yields hg hc).bind ?_
    rintro d c₁ - ⟨h₁, hd⟩
    exact .pure fun _ => ⟨h₁, hd, trivial⟩
  · refine (exprRule_yields _ hg hc).bind ?_
    rintro e c₁ - ⟨h₁, he⟩
    exact .pure fun _ => ⟨h₁, he, trivial⟩

theorem statementsRule_yields (hg : g.Sound p count) (hc : c.ahead.length ≤ count) :
    g.statementsRule.Yields p c fun r _ => Stmt.EveryStmt (Node.From p) r.1 ∧
      (r.1 = [] → r.2 = true) := by
  unfold statementsRule
  refine .kind ?_
  split
  · exact .pure fun _ => ⟨trivial, fun _ => rfl⟩
  · refine (stmtRule_yields hg hc).bind ?_
    rintro stmt c₁ - ⟨h₁, hs⟩
    refine .kind ?_
    split
    · next hk =>
      refine (Rule.Yields.advance (by simp [hk])).bind ?_
      rintro _ c₂ - ⟨-, -, h₂⟩
      refine (hg.statements _ (by omega)).bind ?_
      rintro ⟨stmts, returnsVoid⟩ c₃ - ⟨hss, -⟩
      exact .pure fun _ => ⟨everyStmt_append hs hss, nofun⟩
    · exact .pure fun _ => ⟨hs, nofun⟩
    · exact .unexpected

theorem declsRule_yields (hg : g.Sound p count) (hc : c.ahead.length ≤ count) :
    g.declsRule.Yields p c fun ds _ => ∀ d ∈ ds, d.Every (Node.From p) := by
  unfold declsRule
  refine .kind ?_
  split
  · exact .pure fun _ => nofun
  · refine (declRule_yields hg hc).bind ?_
    rintro d c₁ - ⟨h₁, hd⟩
    refine .kind ?_
    split
    · next hk =>
      refine (Rule.Yields.advance (by simp [hk])).bind ?_
      rintro _ c₂ h₂ -
      refine (hg.decls _ (by omega)).bind ?_
      rintro ds c₃ - hds
      exact .pure fun _ => List.forall_mem_cons.mpr ⟨hd, hds⟩
    · refine (hg.decls _ (by omega)).bind ?_
      rintro ds c₃ - hds
      exact .pure fun _ => List.forall_mem_cons.mpr ⟨hd, hds⟩

-- ---------------------------------------------------------------------------
-- Enough steps
-- ---------------------------------------------------------------------------

theorem Sound.unfold (hg : g.Sound p count) : g.unfold.Sound p (count + 1) where
  expr bp _ hc := exprRule_yields bp hg (Nat.le_of_lt_succ hc)
  operators bp _ _ hc hl := operatorsRule_yields bp hg (Nat.le_of_lt_succ hc) hl
  moreItems _ hc := moreItemsRule_yields hg (Nat.le_of_lt_succ hc)
  moreParams _ hc := moreParamsRule_yields hg (Nat.le_of_lt_succ hc)
  statements _ hc := statementsRule_yields hg (Nat.le_of_lt_succ hc)
  cond _ hc := condRule_yields hg (Nat.le_of_lt_succ hc)
  decls _ hc := declsRule_yields hg (Nat.le_of_lt_succ hc)

/-- A grammar with a step for each token ahead is sound. -/
theorem deep_sound (p : Token → Prop) (count : Nat) : (deep count).Sound p count := by
  induction count with
  | zero => exact ⟨nofun, nofun, nofun, nofun, nofun, nofun, nofun⟩
  | succ count ih => exact ih.unfold

end Grammar

end LetLang
