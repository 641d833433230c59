import LetLang.Proofs.Syntax.Parsing

/-!
# One token of lookahead

A rule decides by the token that it stands at. So a run sees the tokens that it
takes and one more: wherever these stand, the rule takes them and gives the same
answer. It gives that answer over a grammar of any number of steps, too, as long
as it does not run out of them. `Echoes` says both of a rule and its form over
another grammar, and the lemmas follow the ways in which rules are put together.
-/

namespace LetLang

/-- The cursor at tokens that stand in front. -/
def Cursor.rewind (c : Cursor) (taken : List Token) : Cursor := ⟨taken ++ c.ahead, c.stop⟩

theorem Cursor.rewind_append (c : Cursor) (taken more : List Token) :
    c.rewind (taken ++ more) = (c.rewind more).rewind taken := by
  simp only [rewind, List.append_assoc]

theorem Cursor.current_rewind {c c' : Cursor} (h : c.current = c'.current) (taken : List Token) :
    (c.rewind taken).current = (c'.rewind taken).current := by
  cases taken with
  | nil => exact h
  | cons t taken => rfl

theorem Cursor.rewind_injective {c : Cursor} (h : c.rewind taken = c.rewind other) :
    taken = other :=
  List.append_cancel_right (congrArg Cursor.ahead h)

theorem Cursor.eq_rewind_of_current_ne {c : Cursor} (hk : c.current.kind ≠ .eof) :
    c = c.advance.rewind [c.current] := by
  obtain ⟨ahead, stop⟩ := c
  cases ahead with
  | nil => exact absurd rfl hk
  | cons t rest => rfl

/-- Whether a rule ran out of steps. -/
def Diagnostic.TooDeep (d : Diagnostic) : Prop :=
  d.cause = .fault "the rules are nested deeper than the program"

theorem Diagnostic.Blames.not_tooDeep {d : Diagnostic} (h : d.Blames p) : ¬ d.TooDeep := by
  intro ht
  obtain ⟨t, -, -, hs | ⟨-, -, hc⟩⟩ := h
  · rw [Diagnostic.stage, ht] at hs
    cases hs
  · rw [ht] at hc
    revert hc
    decide

namespace Rule

/-- Whether a rule gives the same answer wherever the tokens between two cursors
and the token behind them are the same. -/
def Repeats (rule : Rule α) (c c' : Cursor)
    (answer : Cursor → EStateM.Result Diagnostic Cursor α) : Prop :=
  ∃ taken, c = c'.rewind taken ∧
    ∀ c₂ : Cursor, c₂.current = c'.current → rule.run (c₂.rewind taken) = answer c₂

/-- Whether another rule repeats what a rule does, unless that runs out of steps. -/
def Echoes (rule other : Rule α) (c : Cursor) : Prop :=
  match rule.run c with
  | .ok a c' => other.Repeats c c' (.ok a)
  | .error d c' => ¬ d.TooDeep → other.Repeats c c' (.error d)

namespace Repeats

variable {rule : Rule α} {next : α → Rule β} {c c' c'' : Cursor}

theorem bind {answer : Cursor → EStateM.Result Diagnostic Cursor β} (h : rule.Repeats c c' (.ok a))
    (hn : (next a).Repeats c' c'' answer) : (rule >>= next).Repeats c c'' answer := by
  obtain ⟨taken, rfl, hr⟩ := h
  obtain ⟨more, rfl, hm⟩ := hn
  refine ⟨taken ++ more, (Cursor.rewind_append ..).symm, fun c₂ h₂ => ?_⟩
  rw [Cursor.rewind_append, EStateM.run_bind, hr _ (Cursor.current_rewind h₂ more)]
  exact hm c₂ h₂

theorem stop (h : rule.Repeats c c' (.error d)) : (rule >>= next).Repeats c c' (.error d) := by
  obtain ⟨taken, rfl, hr⟩ := h
  refine ⟨taken, rfl, fun c₂ h₂ => ?_⟩
  rw [EStateM.run_bind, hr c₂ h₂]

theorem current {next : Token → Rule β} {answer : Cursor → EStateM.Result Diagnostic Cursor β}
    (h : (next c.current).Repeats c c' answer) :
    (Rule.current >>= next).Repeats c c' answer := by
  obtain ⟨taken, rfl, hr⟩ := h
  refine ⟨taken, rfl, fun c₂ h₂ => ?_⟩
  rw [← hr c₂ h₂, ← Cursor.current_rewind h₂ taken]
  rfl

end Repeats

namespace Echoes

variable {α β : Type} {c : Cursor} {rule other : Rule α} {next next' : α → Rule β}

theorem pure : (Pure.pure a : Rule α).Echoes (Pure.pure a) c := ⟨[], rfl, fun _ _ => rfl⟩

theorem bind (h : rule.Echoes other c) (hn : ∀ a c', (next a).Echoes (next' a) c') :
    (rule >>= next).Echoes (other >>= next') c := by
  unfold Echoes at *
  rw [EStateM.run_bind]
  cases hr : rule.run c with
  | error d c' =>
    rw [hr] at h
    exact fun hd => (h hd).stop
  | ok a c' =>
    rw [hr] at h
    have hn := hn a c'
    simp only
    split at hn
    · exact h.bind hn
    · exact fun hd => h.bind (hn hd)

theorem last {f : α → β} (h : rule.Echoes other c) :
    (rule >>= fun a => Pure.pure (f a)).Echoes (other >>= fun a => Pure.pure (f a)) c :=
  h.bind fun _ _ => .pure

theorem current {next next' : Token → Rule β}
    (h : (next c.current).Echoes (next' c.current) c) :
    (Rule.current >>= next).Echoes (Rule.current >>= next') c := by
  unfold Echoes at *
  change match (next c.current).run c with | .ok a c' => _ | .error d c' => _
  split at h
  · exact h.current
  · exact fun hd => (h hd).current

theorem kind {next next' : Kind → Rule β}
    (h : (next c.current.kind).Echoes (next' c.current.kind) c) :
    (Rule.kind >>= next).Echoes (Rule.kind >>= next') c := by
  change (Rule.current >>= fun t => next t.kind).Echoes (Rule.current >>= fun t => next' t.kind) c
  exact .current h

theorem throw : (MonadExcept.throw d : Rule α).Echoes (MonadExcept.throw d) c :=
  fun _ => ⟨[], rfl, fun _ _ => rfl⟩

theorem unexpected : (Rule.unexpected expected : Rule α).Echoes (Rule.unexpected expected) c := by
  refine fun _ => ⟨[], rfl, fun c₂ h₂ => ?_⟩
  change EStateM.Result.error (c₂.unexpected expected) c₂ = _
  rw [Cursor.unexpected, h₂]
  rfl

theorem tooDeep : (Rule.tooDeep : Rule α).Echoes other c := fun h => absurd rfl h

theorem advance (hk : c.current.kind ≠ .eof) : Rule.advance.Echoes Rule.advance c :=
  ⟨[c.current], Cursor.eq_rewind_of_current_ne hk, fun _ _ => rfl⟩

theorem expect {expected : Kind} (hk : expected ≠ .eof) :
    (Rule.expect expected).Echoes (Rule.expect expected) c := by
  unfold Rule.expect
  refine .kind ?_
  split
  · next h => exact .advance (h ▸ hk)
  · exact .unexpected

theorem expectKeyword (word : Keyword) :
    (Rule.expect (.keyword word)).Echoes (Rule.expect (.keyword word)) c := .expect nofun

theorem expectName : (Rule.expect .identifier).Echoes (Rule.expect .identifier) c := .expect nofun

theorem expectPunct (mark : Punct) :
    (Rule.expectPunct mark).Echoes (Rule.expectPunct mark) c := .expect nofun

/-- Where a rule does not run out of steps, a rule that repeats it gives the same answer. -/
theorem run_eq (h : rule.Echoes other c) (hd : ∀ d c', rule.run c = .error d c' → ¬ d.TooDeep) :
    other.run c = rule.run c := by
  unfold Echoes at h
  cases hr : rule.run c with
  | ok a c' =>
    rw [hr] at h
    obtain ⟨taken, rfl, ho⟩ := h
    exact ho c' rfl
  | error d c' =>
    rw [hr] at h
    obtain ⟨taken, rfl, ho⟩ := h (hd d c' hr)
    exact ho c' rfl

end Echoes

-- ---------------------------------------------------------------------------
-- Enough steps
-- ---------------------------------------------------------------------------

/-- The rule of a family that takes a step for each token ahead. -/
abbrev ofSteps (family : Nat → Rule α) : Rule α := do family (← get).ahead.length

section
variable {family : Nat → Rule α} {c c' : Cursor}

theorem Repeats.ofSteps {answer : Cursor → EStateM.Result Diagnostic Cursor α}
    (h : ∀ m, c.ahead.length ≤ m → (family m).Repeats c c' answer)
    (he : ∀ c m, c.ahead.length ≤ m → (family m).run c = (Rule.ofSteps family).run c) :
    (Rule.ofSteps family).Repeats c c' answer := by
  obtain ⟨taken, hc, -⟩ := h _ (Nat.le_refl _)
  refine ⟨taken, hc, fun c₂ h₂ => ?_⟩
  -- Steps enough for both cursors, so that both runs are runs of one rule.
  let steps := max c.ahead.length (c₂.rewind taken).ahead.length
  obtain ⟨taken', hc', hr⟩ := h steps (Nat.le_max_left ..)
  obtain rfl := Cursor.rewind_injective (hc.symm.trans hc')
  rw [← he _ steps (Nat.le_max_right ..), hr c₂ h₂]

/-- A rule that never runs out of steps, having one for each token ahead, does
not depend on how many there are. -/
theorem Echoes.ofSteps (h : ∀ n m, n ≤ m → ∀ c, (family n).Echoes (family m) c)
    (hd : ∀ c d c', (family c.ahead.length).run c = .error d c' → ¬ d.TooDeep) :
    (Rule.ofSteps family).Echoes (Rule.ofSteps family) c := by
  have he (c : Cursor) (m : Nat) (hm : c.ahead.length ≤ m) :
      (family m).run c = (Rule.ofSteps family).run c := (h _ m hm c).run_eq (hd c)
  have hm (m : Nat) (hm : c.ahead.length ≤ m) := h _ m hm c
  unfold Echoes at *
  change match (family c.ahead.length).run c with | .ok a c' => _ | .error d c' => _
  split at hm
  · exact .ofSteps hm he
  · exact fun hd => .ofSteps (fun m hle => hm m hle hd) he

end

end Rule

-- ---------------------------------------------------------------------------
-- Types
-- ---------------------------------------------------------------------------

/-- Whether the rules of another grammar repeat what those of a grammar do. -/
structure TypeGrammar.Echoes (g other : TypeGrammar) : Prop where
  type : ∀ bp c, (g.type bp).Echoes (other.type bp) c
  arrows : ∀ bp left c, (g.arrows bp left).Echoes (other.arrows bp left) c
  moreItems : ∀ c, g.moreItems.Echoes other.moreItems c
  moreReturns : ∀ c, g.moreReturns.Echoes other.moreReturns c

namespace TypeGrammar

variable {g other : TypeGrammar} {c : Cursor}

theorem namedRule_echoes : namedRule.Echoes namedRule c := by
  unfold namedRule
  refine .kind ?_
  split
  · next name hk => exact (Rule.Echoes.advance (by simp [hk])).last
  · exact .unexpected

theorem listRule_echoes (hg : g.Echoes other) : g.listRule.Echoes other.listRule c := by
  unfold listRule
  refine (Rule.Echoes.expectPunct _).bind fun start c₁ => ?_
  refine (hg.type _ _).bind fun item c₂ => ?_
  exact (Rule.Echoes.expectPunct _).last

theorem parensRule_echoes (hg : g.Echoes other) : g.parensRule.Echoes other.parensRule c := by
  unfold parensRule
  refine (Rule.Echoes.expectPunct _).bind fun start c₁ => .kind ?_
  split
  · next hk => exact (Rule.Echoes.advance (by simp [hk])).last
  · refine (hg.type _ _).bind fun first c₂ => .kind ?_
    split
    · refine (hg.moreItems _).bind fun items c₃ => ?_
      exact (Rule.Echoes.expectPunct _).last
    · exact (Rule.Echoes.expectPunct _).last

theorem arrowRule_echoes (hg : g.Echoes other) (left : Ascription) :
    (g.arrowRule left).Echoes (other.arrowRule left) c := by
  unfold arrowRule
  refine (Rule.Echoes.expectPunct _).bind fun _ c₁ => ?_
  exact (hg.type _ _).last

theorem frontRule_echoes (hg : g.Echoes other) : g.frontRule.Echoes other.frontRule c := by
  unfold frontRule
  refine .kind ?_
  split
  · exact namedRule_echoes
  · exact listRule_echoes hg
  · exact parensRule_echoes hg
  · exact .unexpected

theorem typeRule_echoes (hg : g.Echoes other) (bp : BindingPower) :
    (g.typeRule bp).Echoes (other.typeRule bp) c := by
  unfold typeRule
  exact (frontRule_echoes hg).bind fun left c₁ => hg.arrows bp left c₁

theorem arrowsRule_echoes (hg : g.Echoes other) (bp : BindingPower) (left : Ascription) :
    (g.arrowsRule bp left).Echoes (other.arrowsRule bp left) c := by
  unfold arrowsRule
  refine .kind ?_
  split
  · split
    · exact (arrowRule_echoes hg left).bind fun a c₁ => hg.arrows bp a c₁
    · exact .pure
  · exact .pure

theorem moreItemsRule_echoes (hg : g.Echoes other) :
    g.moreItemsRule.Echoes other.moreItemsRule c := by
  unfold moreItemsRule
  refine .kind ?_
  split
  · next hk =>
    refine (Rule.Echoes.advance (by simp [hk])).bind fun _ c₁ => ?_
    refine (hg.type _ _).bind fun item c₂ => ?_
    exact (hg.moreItems _).last
  · exact .pure

theorem moreReturnsRule_echoes (hg : g.Echoes other) :
    g.moreReturnsRule.Echoes other.moreReturnsRule c := by
  unfold moreReturnsRule
  refine .kind ?_
  split
  · next hk =>
    refine (Rule.Echoes.advance (by simp [hk])).bind fun _ c₁ => ?_
    refine (hg.type _ _).bind fun item c₂ => ?_
    exact (hg.moreReturns _).last
  · exact .pure

theorem returnsRule_echoes (hg : g.Echoes other) : g.returnsRule.Echoes other.returnsRule c := by
  unfold returnsRule
  refine (typeRule_echoes hg _).bind fun first c₁ => ?_
  exact (moreReturnsRule_echoes hg).last

/-- A grammar of more steps repeats what one of fewer steps does. -/
theorem deep_echoes (h : n ≤ m) : (deep n).Echoes (deep m) := by
  induction n generalizing m with
  | zero => exact ⟨fun _ _ => .tooDeep, fun _ _ _ => .tooDeep, fun _ => .tooDeep, fun _ => .tooDeep⟩
  | succ n ih =>
    obtain ⟨m, rfl⟩ := Nat.exists_eq_add_of_le' h
    have hg : (deep n).Echoes (deep (m + n)) := ih (Nat.le_add_left ..)
    exact ⟨fun bp _ => typeRule_echoes hg bp, fun bp left _ => arrowsRule_echoes hg bp left,
      fun _ => moreItemsRule_echoes hg, fun _ => moreReturnsRule_echoes hg⟩

end TypeGrammar

/-- A rule that yields values or blames tokens does not run out of steps. -/
theorem Rule.Yields.not_tooDeep {rule : Rule α}
    (h : rule.Yields (fun _ => True) c good) (hr : rule.run c = .error d c') : ¬ d.TooDeep := by
  have h := h ⟨fun _ _ => trivial, trivial⟩
  rw [hr] at h
  exact h.2.not_tooDeep

theorem Rule.type_echoes (bp : BindingPower) : (Rule.type bp).Echoes (Rule.type bp) c :=
  .ofSteps (fun _ _ h _ => TypeGrammar.typeRule_echoes (TypeGrammar.deep_echoes h) bp)
    fun _ _ _ hr => (Rule.type_yields bp).not_tooDeep hr

theorem Rule.returns_echoes : Rule.returns.Echoes Rule.returns c :=
  .ofSteps (fun _ _ h _ => TypeGrammar.returnsRule_echoes (TypeGrammar.deep_echoes h))
    fun _ _ _ hr => Rule.returns_yields.not_tooDeep hr

-- ---------------------------------------------------------------------------
-- Modules
-- ---------------------------------------------------------------------------

structure Grammar.Echoes (g other : Grammar) : Prop where
  expr : ∀ bp c, (g.expr bp).Echoes (other.expr bp) c
  operators : ∀ bp left c, (g.operators bp left).Echoes (other.operators bp left) c
  moreItems : ∀ c, g.moreItems.Echoes other.moreItems c
  moreParams : ∀ c, g.moreParams.Echoes other.moreParams c
  statements : ∀ c, g.statements.Echoes other.statements c
  cond : ∀ c, g.cond.Echoes other.cond c
  decls : ∀ c, g.decls.Echoes other.decls c

namespace Grammar

variable {g other : Grammar} {c : Cursor}

theorem primaryRule_echoes : primaryRule.Echoes primaryRule c := by
  unfold primaryRule
  refine .current ?_
  split
  · next hk => exact (Rule.Echoes.advance (by simp [hk])).last
  · split
    · next hv => exact (Rule.Echoes.advance (ofToken?_ne_eof hv)).last
    · exact .throw
    · exact .unexpected

theorem unaryOpRule_echoes (hk : c.current.kind ≠ .eof) : unaryOpRule.Echoes unaryOpRule c := by
  unfold unaryOpRule
  refine (Rule.Echoes.advance hk).bind fun t c₁ => ?_
  split
  · exact .pure
  · exact .throw

theorem binaryOpRule_echoes (hk : c.current.kind ≠ .eof) : binaryOpRule.Echoes binaryOpRule c := by
  unfold binaryOpRule
  refine (Rule.Echoes.advance hk).bind fun t c₁ => ?_
  split
  · exact .pure
  · exact .throw

theorem unaryRule_echoes (hg : g.Echoes other) (hk : c.current.kind ≠ .eof) :
    g.unaryRule.Echoes other.unaryRule c := by
  unfold unaryRule
  refine (unaryOpRule_echoes hk).bind fun r c₁ => ?_
  exact (hg.expr _ _).last

theorem binaryRule_echoes (hg : g.Echoes other) (hk : c.current.kind ≠ .eof)
    (power : BindingPower) (left : Expr) :
    (g.binaryRule power left).Echoes (other.binaryRule power left) c := by
  unfold binaryRule
  refine (binaryOpRule_echoes hk).bind fun op c₁ => ?_
  exact (hg.expr _ _).last

theorem itemsRule_echoes (hg : g.Echoes other) (close : Punct) :
    (g.itemsRule close).Echoes (other.itemsRule close) c := by
  unfold itemsRule
  refine .kind ?_
  split
  · next hk => exact (Rule.Echoes.advance (by simp [hk])).last
  · refine (hg.expr _ _).bind fun first c₁ => ?_
    refine (hg.moreItems _).bind fun items c₂ => ?_
    exact (Rule.Echoes.expectPunct _).last

theorem parensRule_echoes (hg : g.Echoes other) : g.parensRule.Echoes other.parensRule c := by
  unfold parensRule
  refine (Rule.Echoes.expectPunct _).bind fun start c₁ => ?_
  refine (hg.expr _ _).bind fun first c₂ => .kind ?_
  split
  · refine (hg.moreItems _).bind fun items c₃ => ?_
    exact (Rule.Echoes.expectPunct _).last
  · exact (Rule.Echoes.expectPunct _).last

theorem listRule_echoes (hg : g.Echoes other) : g.listRule.Echoes other.listRule c := by
  unfold listRule
  refine (Rule.Echoes.expectPunct _).bind fun start c₁ => ?_
  exact (itemsRule_echoes hg _).last

theorem callRule_echoes (hg : g.Echoes other) (callee : Expr) :
    (g.callRule callee).Echoes (other.callRule callee) c := by
  unfold callRule
  refine (Rule.Echoes.expectPunct _).bind fun start c₁ => ?_
  exact (itemsRule_echoes hg _).last

theorem indexRule_echoes (hg : g.Echoes other) (target : Expr) :
    (g.indexRule target).Echoes (other.indexRule target) c := by
  unfold indexRule
  refine (Rule.Echoes.expectPunct _).bind fun _ c₁ => ?_
  refine (hg.expr _ _).bind fun index c₂ => ?_
  exact (Rule.Echoes.expectPunct _).last

theorem blockRule_echoes (hg : g.Echoes other) : g.blockRule.Echoes other.blockRule c := by
  unfold blockRule
  refine (Rule.Echoes.expectPunct _).bind fun start c₁ => ?_
  refine (hg.statements _).bind fun r c₂ => ?_
  exact (Rule.Echoes.expectPunct _).last

theorem paramRule_echoes : paramRule.Echoes paramRule c := by
  unfold paramRule
  refine Rule.Echoes.expectName.bind fun name c₁ => ?_
  exact (Rule.type_echoes _).last

theorem paramsRule_echoes (hg : g.Echoes other) : g.paramsRule.Echoes other.paramsRule c := by
  unfold paramsRule
  refine .kind ?_
  split
  · next hk => exact (Rule.Echoes.advance (by simp [hk])).last
  · refine paramRule_echoes.bind fun first c₁ => ?_
    refine (hg.moreParams _).bind fun params c₂ => ?_
    exact (Rule.Echoes.expectPunct _).last

theorem funcRule_echoes (hg : g.Echoes other) : g.funcRule.Echoes other.funcRule c := by
  unfold funcRule
  refine (Rule.Echoes.expectKeyword _).bind fun start c₁ => ?_
  refine (Rule.Echoes.expectPunct _).bind fun _ c₂ => ?_
  refine (paramsRule_echoes hg).bind fun params c₃ => ?_
  refine Rule.returns_echoes.bind fun returns c₄ => ?_
  exact (blockRule_echoes hg).last

theorem condRule_echoes (hg : g.Echoes other) : g.condRule.Echoes other.condRule c := by
  unfold condRule
  refine (Rule.Echoes.expectKeyword _).bind fun start c₁ => ?_
  refine (hg.expr _ _).bind fun test c₂ => ?_
  refine (blockRule_echoes hg).bind fun thenBlock c₃ => ?_
  refine (Rule.Echoes.expectKeyword _).bind fun _ c₄ => .kind ?_
  split
  · exact (hg.cond _).last
  · exact (blockRule_echoes hg).last

theorem loopRule_echoes (hg : g.Echoes other) : g.loopRule.Echoes other.loopRule c := by
  unfold loopRule
  refine (Rule.Echoes.expectKeyword _).bind fun start c₁ => ?_
  refine Rule.Echoes.expectName.bind fun binder c₂ => ?_
  refine (Rule.Echoes.expectKeyword _).bind fun _ c₃ => ?_
  refine (hg.expr _ _).bind fun iterable c₄ => ?_
  exact (blockRule_echoes hg).last

theorem frontRule_echoes (hg : g.Echoes other) : g.frontRule.Echoes other.frontRule c := by
  unfold frontRule
  refine .kind ?_
  split
  · exact primaryRule_echoes
  · next hk =>
    obtain ⟨op, ho⟩ := unaryOp?_of_exprForm? hk
    exact unaryRule_echoes hg (ne_eof_of_unaryOp? ho)
  · exact parensRule_echoes hg
  · exact listRule_echoes hg
  · exact (blockRule_echoes hg).last
  · exact funcRule_echoes hg
  · exact condRule_echoes hg
  · exact loopRule_echoes hg
  · exact .unexpected

theorem operatorRule_echoes (hg : g.Echoes other) (hk : c.current.kind.power? = some power)
    (left : Expr) : (g.operatorRule power left).Echoes (other.operatorRule power left) c := by
  unfold operatorRule
  refine .kind ?_
  split
  · exact callRule_echoes hg left
  · exact indexRule_echoes hg left
  · next hp hb =>
    obtain ⟨op, ho, -⟩ := binaryOp?_of_power? hk hp hb
    exact binaryRule_echoes hg (ne_eof_of_binaryOp? ho) power left

theorem exprRule_echoes (hg : g.Echoes other) (bp : BindingPower) :
    (g.exprRule bp).Echoes (other.exprRule bp) c := by
  unfold exprRule
  exact (frontRule_echoes hg).bind fun left c₁ => hg.operators bp left c₁

theorem operatorsRule_echoes (hg : g.Echoes other) (bp : BindingPower) (left : Expr) :
    (g.operatorsRule bp left).Echoes (other.operatorsRule bp left) c := by
  unfold operatorsRule
  refine .kind ?_
  split
  · next power hk =>
    split
    · exact (operatorRule_echoes hg hk left).bind fun e c₁ => hg.operators bp e c₁
    · exact .pure
  · exact .pure

theorem moreItemsRule_echoes (hg : g.Echoes other) :
    g.moreItemsRule.Echoes other.moreItemsRule c := by
  unfold moreItemsRule
  refine .kind ?_
  split
  · next hk =>
    refine (Rule.Echoes.advance (by simp [hk])).bind fun _ c₁ => ?_
    refine (hg.expr _ _).bind fun item c₂ => ?_
    exact (hg.moreItems _).last
  · exact .pure

theorem moreParamsRule_echoes (hg : g.Echoes other) :
    g.moreParamsRule.Echoes other.moreParamsRule c := by
  unfold moreParamsRule
  refine .kind ?_
  split
  · next hk =>
    refine (Rule.Echoes.advance (by simp [hk])).bind fun _ c₁ => ?_
    refine paramRule_echoes.bind fun param c₂ => ?_
    exact (hg.moreParams _).last
  · exact .pure

theorem declaredRule_echoes : declRule.declaredRule.Echoes declRule.declaredRule c := by
  unfold declRule.declaredRule
  refine .kind ?_
  split
  · next hk =>
    refine (Rule.Echoes.advance (by simp [hk])).bind fun _ c₁ => ?_
    exact (Rule.type_echoes _).last
  · exact .pure

theorem declRule_echoes (hg : g.Echoes other) : g.declRule.Echoes other.declRule c := by
  unfold declRule
  refine (Rule.Echoes.expectKeyword _).bind fun start c₁ => ?_
  refine Rule.Echoes.expectName.bind fun name c₂ => ?_
  refine declaredRule_echoes.bind fun declared c₃ => ?_
  refine (Rule.Echoes.expectPunct _).bind fun _ c₄ => ?_
  exact (hg.expr _ _).last

theorem stmtRule_echoes (hg : g.Echoes other) : g.stmtRule.Echoes other.stmtRule c := by
  unfold stmtRule
  refine .kind ?_
  split
  · exact (declRule_echoes hg).last
  · exact (exprRule_echoes hg _).last

theorem statementsRule_echoes (hg : g.Echoes other) :
    g.statementsRule.Echoes other.statementsRule c := by
  unfold statementsRule
  refine .kind ?_
  split
  · exact .pure
  · refine (stmtRule_echoes hg).bind fun stmt c₁ => .kind ?_
    split
    · next hk =>
      refine (Rule.Echoes.advance (by simp [hk])).bind fun _ c₂ => ?_
      exact (hg.statements _).last
    · exact .pure
    · exact .unexpected

theorem declsRule_echoes (hg : g.Echoes other) : g.declsRule.Echoes other.declsRule c := by
  unfold declsRule
  refine .kind ?_
  split
  · exact .pure
  · refine (declRule_echoes hg).bind fun d c₁ => .kind ?_
    split
    · next hk =>
      refine (Rule.Echoes.advance (by simp [hk])).bind fun _ c₂ => ?_
      exact (hg.decls _).last
    · exact (hg.decls _).last

theorem deep_echoes (h : n ≤ m) : (deep n).Echoes (deep m) := by
  induction n generalizing m with
  | zero =>
    exact ⟨fun _ _ => .tooDeep, fun _ _ _ => .tooDeep, fun _ => .tooDeep, fun _ => .tooDeep,
      fun _ => .tooDeep, fun _ => .tooDeep, fun _ => .tooDeep⟩
  | succ n ih =>
    obtain ⟨m, rfl⟩ := Nat.exists_eq_add_of_le' h
    have hg : (deep n).Echoes (deep (m + n)) := ih (Nat.le_add_left ..)
    exact ⟨fun bp _ => exprRule_echoes hg bp, fun bp left _ => operatorsRule_echoes hg bp left,
      fun _ => moreItemsRule_echoes hg, fun _ => moreParamsRule_echoes hg,
      fun _ => statementsRule_echoes hg, fun _ => condRule_echoes hg, fun _ => declsRule_echoes hg⟩

end Grammar

theorem Rule.decls_echoes : Rule.decls.Echoes Rule.decls c :=
  .ofSteps (fun _ _ h _ => Grammar.declsRule_echoes (Grammar.deep_echoes h))
    fun _ _ _ hr => Rule.decls_yields.not_tooDeep hr

end LetLang
