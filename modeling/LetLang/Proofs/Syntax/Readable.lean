import LetLang.Proofs.Syntax.ReadableTypes
import LetLang.Syntax.Grammar

/-!
# Reading derived modules

The rules read the tokens of a tree as that tree. As with types, calls, indices
and operators may go on behind an expression, and the rule for expressions gives
what the loop behind the expression gives. What follows has to bind no more
strongly than the level of the expression, so that it does not bind a part of
it, and the rule has to read all operators of that level.
-/

namespace LetLang

/-- Whether a rule reads in every grammar with a step for each token ahead. -/
def Grammar.Reads (rule : Grammar → Rule α) (c : Cursor) (a : α) (c' : Cursor) : Prop :=
  ∀ steps, c.ahead.length ≤ steps → (rule (deep steps)).Reads c a c'

/-- A rule that another refers to behind a token. -/
theorem Grammar.Reads.inner (rule : Grammar → Rule α)
    (h : Reads (fun g => rule g.unfold) c a c') (hl : c.ahead.length < steps) :
    (rule (deep steps)).Reads c a c' := by
  cases steps with
  | zero => exact absurd hl (Nat.not_lt_zero _)
  | succ steps => exact h steps (Nat.le_of_lt_succ hl)

theorem Grammar.Reads.run {rule : Grammar → Rule α} (h : Reads rule c a c') :
    (Rule.ofGrammar rule).Reads c a c' := h c.ahead.length (Nat.le_refl _)

/-- Whether tokens are read as an expression of a level. -/
structure Expr.Readable (level : BindingPower) (tokens : List Token) (e : Expr) : Prop where
  starts : ∃ t more, tokens = t :: more ∧ t.kind.exprForm? ≠ none
  reads : ∀ bp rest mark e' c', bp.Under level → (Cursor.mk rest mark).AtMost level →
    Grammar.Reads (·.operatorsRule bp e) ⟨rest, mark⟩ e' c' →
    Grammar.Reads (·.exprRule bp) ⟨tokens ++ rest, mark⟩ e' c'

/-- Whether tokens are read as the expressions behind the first. -/
structure Expr.ReadableMore (tokens : List Token) (items : List Expr) : Prop where
  starts : tokens = [] ∧ items = [] ∨ ∃ t more, tokens = t :: more ∧ t.kind = .punct .comma
  reads : ∀ rest mark, (Cursor.mk rest mark).current.kind.power? = none →
    (Cursor.mk rest mark).current.kind ≠ .punct .comma →
    Grammar.Reads (·.moreItemsRule) ⟨tokens ++ rest, mark⟩ items ⟨rest, mark⟩

def Expr.ReadableAll (tokens : List Token) (items : List Expr) : Prop :=
  ∀ close t rest mark steps, close = .closeParen ∨ close = .closeBracket →
    t.kind = .punct close → (tokens ++ t :: rest).length < steps →
    ((Grammar.deep steps).itemsRule close).Reads ⟨tokens ++ t :: rest, mark⟩ items ⟨rest, mark⟩

structure Block.Readable (tokens : List Token) (b : Block) : Prop where
  starts : ∃ t more, tokens = t :: more ∧ t.kind = .punct .openCurly
  reads : ∀ rest mark, Grammar.Reads (·.blockRule) ⟨tokens ++ rest, mark⟩ b ⟨rest, mark⟩

structure Expr.ReadableCond (tokens : List Token) (e : Expr) : Prop where
  starts : ∃ t more, tokens = t :: more ∧ t.kind = .keyword .ifWord
  reads : ∀ rest mark, Grammar.Reads (·.condRule) ⟨tokens ++ rest, mark⟩ e ⟨rest, mark⟩

def Block.ReadableElse (tokens : List Token) (b : Block) : Prop :=
  Block.Readable tokens b ∨
    ∃ e, Expr.ReadableCond tokens e ∧ b = ⟨[.expr e], false, e.position⟩

structure Decl.Readable (tokens : List Token) (d : Decl) : Prop where
  starts : ∃ t more, tokens = t :: more ∧ t.kind = .keyword .letWord
  reads : ∀ rest mark, (Cursor.mk rest mark).current.kind.power? = none →
    Grammar.Reads (·.declRule) ⟨tokens ++ rest, mark⟩ d ⟨rest, mark⟩

structure Stmt.Readable (tokens : List Token) (s : Stmt) : Prop where
  starts : ∃ t more, tokens = t :: more ∧ t.kind ≠ .punct .closeCurly
  reads : ∀ rest mark, (Cursor.mk rest mark).current.kind.power? = none →
    Grammar.Reads (·.stmtRule) ⟨tokens ++ rest, mark⟩ s ⟨rest, mark⟩

def Stmt.ReadableAll (tokens : List Token) (stmts : List Stmt) (returnsVoid : Bool) : Prop :=
  ∀ rest mark, (Cursor.mk rest mark).current.kind = .punct .closeCurly →
    Grammar.Reads (·.statementsRule) ⟨tokens ++ rest, mark⟩ (stmts, returnsVoid) ⟨rest, mark⟩

def Grammar.formRule (g : Grammar) : ExprForm → Rule Expr
  | .primary => primaryRule
  | .unary => g.unaryRule
  | .parens => g.parensRule
  | .list => g.listRule
  | .block => return .block (← g.blockRule)
  | .func => g.funcRule
  | .cond => g.condRule
  | .loop => g.loopRule

-- ---------------------------------------------------------------------------
-- Operators
-- ---------------------------------------------------------------------------

namespace Expr.Readable

open Grammar

variable {c : Cursor} {mark : EndMark} {t start close : Token}
  {tokens before after front inside more rest : List Token}

theorem operatorsRule_stops (h : c.AtMost bp) : Reads (·.operatorsRule bp e) c e c := by
  intro steps _
  unfold operatorsRule
  refine .kind ?_
  split
  · next power hk =>
    rw [if_neg (BindingPower.not_lt_of_le (h power hk))]
    exact .pure
  · exact .pure

/-- An expression that nothing binds is read to its end. -/
theorem whole (h : Readable level tokens e)
    (hn : (Cursor.mk rest mark).current.kind.power? = none) :
    Reads (·.exprRule .whole) ⟨tokens ++ rest, mark⟩ e ⟨rest, mark⟩ :=
  h.reads .whole rest mark e _ (.whole level) (.of_none hn) (operatorsRule_stops (.of_none hn))

/-- An expression is read by the rule of the form that its first token starts. -/
theorem of_form (hk : t.kind.exprForm? = some form)
    (hf : ∀ rest mark steps, (Cursor.mk rest mark).AtMost level →
      (t :: (front ++ rest)).length ≤ steps →
      ((deep steps).formRule form).Reads ⟨t :: (front ++ rest), mark⟩ e ⟨rest, mark⟩) :
    Readable level (t :: front) e := by
  refine ⟨⟨t, front, rfl, by simp [hk]⟩, ?_⟩
  intro bp rest mark e' c' _ hm ho steps hl
  have hr : ((deep steps).frontRule).Reads ⟨t :: (front ++ rest), mark⟩ e ⟨rest, mark⟩ := by
    unfold frontRule
    refine .kind ?_
    rw [Cursor.current_cons, hk]
    cases form with
    | _ => exact hf rest mark steps hm hl
  refine hr.bind ?_
  exact Grammar.Reads.inner (·.operators bp e) ho (by simp at hl ⊢; omega)

/-- What binds an expression of its level goes on behind it. -/
theorem of_operator (hle : level ≤ power) (hl : Readable power before left)
    (hk : t.kind.power? = some power)
    (ho : ∀ rest mark steps, (Cursor.mk rest mark).AtMost power →
      (t :: (after ++ rest)).length ≤ steps →
      ((deep steps).operatorRule power left).Reads ⟨t :: (after ++ rest), mark⟩ e ⟨rest, mark⟩) :
    Readable level (before ++ t :: after) e := by
  obtain ⟨first, more, rfl, hf⟩ := hl.starts
  refine ⟨⟨first, _, rfl, hf⟩, ?_⟩
  intro bp rest mark e' c' hu hm hr
  rw [List.append_assoc]
  have hp : (Cursor.mk (t :: (after ++ rest)) mark).AtMost power := by
    intro power' hk'
    obtain rfl := Option.some.inj (hk.symm.trans hk')
    exact Nat.le_refl _
  refine hl.reads bp _ mark e' c' (hu.weaken hle) hp ?_
  intro steps hs
  unfold operatorsRule
  refine .kind ?_
  rw [List.cons_append, Cursor.current_cons, hk]
  simp only [if_pos (hu t.kind power hk hle)]
  refine (ho rest mark steps (hm.weaken hle) hs).bind ?_
  exact Grammar.Reads.inner (·.operators bp e) hr (by simp at hs ⊢; omega)

theorem binary (hle : level ≤ op.power) (hb : Readable op.power before left)
    (hk : t.kind = .punct op.punct) (hlt : op.power < stronger)
    (ha : Readable stronger after right) :
    Readable level (before ++ t :: after) (.binary op left right left.position) := by
  refine of_operator hle hb (by rw [hk, Kind.power?_punct]) ?_
  intro rest mark steps hm hl
  unfold operatorRule
  refine .kind ?_
  rw [Cursor.current_cons, hk]
  have hr : Reads (·.exprRule op.power) ⟨after ++ rest, mark⟩ right ⟨rest, mark⟩ :=
    ha.reads op.power rest mark right _ (.of_lt hlt) (hm.weaken (Nat.le_of_lt hlt))
      (operatorsRule_stops hm)
  have hop : binaryOpRule.Reads ⟨t :: (after ++ rest), mark⟩ op ⟨after ++ rest, mark⟩ := by
    unfold binaryOpRule
    refine Rule.Reads.advance.bind ?_
    simp only [hk, Kind.binaryOp?, Punct.binaryOp?_punct]
    exact .pure
  split
  · next h => cases op <;> cases h
  · next h => cases op <;> cases h
  · refine hop.bind ?_
    exact (Grammar.Reads.inner (·.expr op.power) hr (by simp at hl ⊢; omega)).last

theorem call (hle : level ≤ .call) (hc : Readable .call before callee)
    (hs : start.kind = .punct .openParen) (ha : ReadableAll inside args)
    (hk : close.kind = .punct .closeParen) :
    Readable level (before ++ start :: (inside ++ [close]))
      (.call callee args start.position callee.position) := by
  refine of_operator hle hc (by rw [hs]; rfl) ?_
  intro rest mark steps _ hl
  rw [List.append_assoc, List.singleton_append] at hl ⊢
  unfold operatorRule
  refine .kind ?_
  rw [Cursor.current_cons, hs]
  refine (Rule.Reads.expectPunct hs).bind ?_
  exact (ha .closeParen close rest mark steps (.inl rfl) hk hl).last

theorem index (hle : level ≤ .call) (ht : Readable .call before target)
    (hs : start.kind = .punct .openBracket) (hi : Readable .whole inside place)
    (hk : close.kind = .punct .closeBracket) :
    Readable level (before ++ start :: (inside ++ [close]))
      (.index target place target.position) := by
  refine of_operator hle ht (by rw [hs]; rfl) ?_
  intro rest mark steps _ hl
  rw [List.append_assoc, List.singleton_append] at hl ⊢
  unfold operatorRule
  refine .kind ?_
  rw [Cursor.current_cons, hs]
  refine (Rule.Reads.expectPunct hs).bind ?_
  have hr : Reads (·.exprRule .whole) ⟨inside ++ close :: rest, mark⟩ place ⟨close :: rest, mark⟩ :=
    hi.whole (by rw [Cursor.current_cons, hk]; rfl)
  refine (Grammar.Reads.inner (·.expr .whole) hr hl).bind ?_
  exact (Rule.Reads.expectPunct hk).last

theorem unary (hle : level ≤ .unary) (hk : t.kind = .punct op.punct)
    (ho : Readable .unary rest operand) :
    Readable level (t :: rest) (.unary op operand t.position) := by
  have hform : t.kind.exprForm? = some .unary := by
    rw [hk]
    cases op <;> rfl
  refine of_form hform ?_
  intro after mark steps hm hl
  have hop : unaryOpRule.Reads ⟨t :: (rest ++ after), mark⟩ (op, t.position)
      ⟨rest ++ after, mark⟩ := by
    unfold unaryOpRule
    refine Rule.Reads.advance.bind ?_
    simp only [hk, Kind.unaryOp?, Punct.unaryOp?_punct]
    exact .pure
  have hm : (Cursor.mk after mark).AtMost .unary := hm.weaken hle
  have hr : Reads (·.exprRule .unary) ⟨rest ++ after, mark⟩ operand ⟨after, mark⟩ :=
    ho.reads .unary after mark operand _ (.of_unary (by decide) (Nat.le_refl _)) hm
      (operatorsRule_stops hm)
  refine hop.bind ?_
  exact (Grammar.Reads.inner (·.expr .unary) hr hl).last

-- ---------------------------------------------------------------------------
-- Expressions that stand for themselves
-- ---------------------------------------------------------------------------

theorem exprForm?_of_ofToken? {t : Token} (h : Literal.ofToken? t = some r) :
    t.kind.exprForm? = some .primary ∧ t.kind ≠ .identifier := by
  unfold Literal.ofToken? at h
  split at h
  case h_7 => cases h
  all_goals
    next hk => simp [hk, Kind.exprForm?]

theorem literal (hv : Literal.ofToken? t = some (.ok value)) :
    Readable level [t] (.literal value t.position) := by
  obtain ⟨hk, hi⟩ := exprForm?_of_ofToken? hv
  refine of_form hk ?_
  intro rest mark steps _ _
  refine .current ?_
  rw [Cursor.current_cons, if_neg hi, hv]
  exact Rule.Reads.advance.last

theorem ident (hk : t.kind = .identifier) : Readable level [t] (.ident t.value t.position) := by
  refine of_form (by rw [hk]; rfl) ?_
  intro rest mark steps _ _
  refine .current ?_
  rw [Cursor.current_cons, if_pos hk]
  exact Rule.Reads.advance.last

theorem group (hs : start.kind = .punct .openParen) (hi : Readable .whole inside e)
    (hk : close.kind = .punct .closeParen) : Readable level (start :: (inside ++ [close])) e := by
  refine of_form (by rw [hs]; rfl) ?_
  intro rest mark steps _ hl
  simp only [List.append_assoc, List.singleton_append] at hl ⊢
  refine (Rule.Reads.expectPunct hs).bind ?_
  have hr : Reads (·.exprRule .whole) ⟨inside ++ close :: rest, mark⟩ e ⟨close :: rest, mark⟩ :=
    hi.whole (by rw [Cursor.current_cons, hk]; rfl)
  refine (Grammar.Reads.inner (·.expr .whole) hr hl).bind ?_
  refine .kind ?_
  rw [Cursor.current_cons, if_neg (by simp [hk])]
  exact (Rule.Reads.expectPunct hk).last

theorem tuple (hs : start.kind = .punct .openParen) (hf : Readable .whole before first)
    (hm : ReadableMore more items) (hne : items ≠ []) (hk : close.kind = .punct .closeParen) :
    Readable level (start :: (before ++ (more ++ [close])))
      (.tuple (first :: items) start.position) := by
  obtain ⟨t, front, rfl, ht⟩ := hm.starts.resolve_left fun h => hne h.2
  refine of_form (by rw [hs]; rfl) ?_
  intro rest mark steps _ hl
  have hr := hm.reads (close :: rest) mark (by rw [Cursor.current_cons, hk]; rfl) (by simp [hk])
  simp only [List.append_assoc, List.cons_append, List.nil_append] at hl hr ⊢
  have hi : Reads (·.exprRule .whole) ⟨before ++ t :: (front ++ close :: rest), mark⟩ first
      ⟨t :: (front ++ close :: rest), mark⟩ := hf.whole (by rw [Cursor.current_cons, ht]; rfl)
  refine (Rule.Reads.expectPunct hs).bind ?_
  refine (Grammar.Reads.inner (·.expr .whole) hi hl).bind ?_
  refine .kind ?_
  rw [Cursor.current_cons, if_pos ht]
  refine (Grammar.Reads.inner (·.moreItems) hr (by simp at hl ⊢; omega)).bind ?_
  exact (Rule.Reads.expectPunct hk).last

theorem list (hs : start.kind = .punct .openBracket) (hi : ReadableAll inside items)
    (hk : close.kind = .punct .closeBracket) :
    Readable level (start :: (inside ++ [close])) (.list items start.position) := by
  refine of_form (by rw [hs]; rfl) ?_
  intro rest mark steps _ hl
  simp only [List.append_assoc, List.singleton_append] at hl ⊢
  refine (Rule.Reads.expectPunct hs).bind ?_
  exact (hi .closeBracket close rest mark steps (.inr rfl) hk hl).last

theorem block (hb : Block.Readable tokens body) : Readable level tokens (.block body) := by
  obtain ⟨t, more, rfl, hk⟩ := hb.starts
  refine of_form (by rw [hk]; rfl) ?_
  intro rest mark steps _ hl
  exact (hb.reads rest mark steps hl).last

theorem cond (hc : ReadableCond tokens e) : Readable level tokens e := by
  obtain ⟨t, more, rfl, hk⟩ := hc.starts
  refine of_form (by rw [hk]; rfl) ?_
  intro rest mark steps _ hl
  exact hc.reads rest mark steps hl

theorem loop (hs : start.kind = .keyword .forWord) (hn : binder.kind = .identifier)
    (hk : t.kind = .keyword .inWord) (hi : Readable .whole front iterable)
    (hb : Block.Readable rest body) :
    Readable level (start :: binder :: t :: (front ++ rest))
      (.loop binder.value iterable body start.position) := by
  obtain ⟨first, more, rfl, hf⟩ := hb.starts
  refine of_form (by rw [hs]; rfl) ?_
  intro after mark steps _ hl
  have hr := hb.reads after mark
  simp only [List.append_assoc, List.cons_append] at hl hr ⊢
  have hw : Reads (·.exprRule .whole) ⟨front ++ first :: (more ++ after), mark⟩ iterable
      ⟨first :: (more ++ after), mark⟩ := hi.whole (by rw [Cursor.current_cons, hf]; rfl)
  refine (Rule.Reads.expect hs).bind ?_
  refine (Rule.Reads.expect hn).bind ?_
  refine (Rule.Reads.expect hk).bind ?_
  refine (Grammar.Reads.inner (·.expr .whole) hw (by simp at hl ⊢; omega)).bind ?_
  exact (hr steps (by simp at hl ⊢; omega)).last

end Expr.Readable

-- ---------------------------------------------------------------------------
-- Expressions with commas
-- ---------------------------------------------------------------------------

namespace Expr

open Grammar

variable {mark : EndMark} {t : Token} {tokens front more rest : List Token}

theorem Readable.ne_punct (h : Readable level tokens e) (hk : (Kind.punct close).exprForm? = none) :
    (Cursor.mk (tokens ++ rest) mark).current.kind ≠ .punct close := by
  obtain ⟨t, more, rfl, ht⟩ := h.starts
  intro hc
  rw [List.cons_append, Cursor.current_cons] at hc
  exact ht (by rw [hc, hk])

theorem ReadableMore.power? (h : ReadableMore tokens items)
    (hn : (Cursor.mk rest mark).current.kind.power? = none) :
    (Cursor.mk (tokens ++ rest) mark).current.kind.power? = none := by
  obtain ⟨rfl, -⟩ | ⟨t, more, rfl, ht⟩ := h.starts
  · exact hn
  · rw [List.cons_append, Cursor.current_cons, ht]
    rfl

theorem ReadableMore.nil : ReadableMore [] [] := by
  refine ⟨.inl ⟨rfl, rfl⟩, ?_⟩
  intro rest mark _ hc steps _
  unfold moreItemsRule
  refine .kind ?_
  rw [List.nil_append, if_neg hc]
  exact .pure

theorem ReadableMore.cons (hk : t.kind = .punct .comma) (hf : Readable .whole front item)
    (hm : ReadableMore more items) : ReadableMore (t :: (front ++ more)) (item :: items) := by
  refine ⟨.inr ⟨t, _, rfl, hk⟩, ?_⟩
  intro rest mark hn hc steps hl
  rw [List.cons_append, List.append_assoc] at hl ⊢
  unfold moreItemsRule
  refine .kind ?_
  rw [Cursor.current_cons, if_pos hk]
  refine Rule.Reads.advance.bind ?_
  refine (Grammar.Reads.inner (·.expr .whole) (hf.whole (hm.power? hn)) hl).bind ?_
  exact (Grammar.Reads.inner (·.moreItems) (hm.reads rest mark hn hc) (by simp at hl ⊢; omega)).last

theorem ReadableAll.nil : ReadableAll [] [] := by
  intro close t rest mark steps _ hk _
  unfold itemsRule
  refine .kind ?_
  rw [List.nil_append, Cursor.current_cons, if_pos hk]
  exact Rule.Reads.advance.last

theorem ReadableAll.cons (hf : Readable .whole front item) (hm : ReadableMore more items) :
    ReadableAll (front ++ more) (item :: items) := by
  intro close t rest mark steps hc hk hl
  have hform : (Kind.punct close).exprForm? = none := by obtain rfl | rfl := hc <;> rfl
  have hn : (Cursor.mk (t :: rest) mark).current.kind.power? = none := by
    rw [Cursor.current_cons, hk]
    obtain rfl | rfl := hc <;> rfl
  have hcomma : (Cursor.mk (t :: rest) mark).current.kind ≠ .punct .comma := by
    rw [Cursor.current_cons, hk]
    obtain rfl | rfl := hc <;> nofun
  obtain ⟨first, after, hs, -⟩ := hf.starts
  rw [List.append_assoc] at hl ⊢
  unfold itemsRule
  refine .kind ?_
  rw [if_neg (hf.ne_punct hform)]
  refine (Grammar.Reads.inner (·.expr .whole) (hf.whole (hm.power? hn)) hl).bind ?_
  have hr := hm.reads (t :: rest) mark hn hcomma
  refine (Grammar.Reads.inner (·.moreItems) hr (by simp at hl ⊢; omega)).bind ?_
  exact (Rule.Reads.expectPunct hk).last

end Expr

-- ---------------------------------------------------------------------------
-- Functions
-- ---------------------------------------------------------------------------

namespace Param

open Grammar

variable {mark : EndMark} {t : Token} {tokens rest : List Token}

theorem Derived.reads (h : Derived tokens param)
    (hn : (Cursor.mk rest mark).current.kind ≠ .punct .arrow) :
    paramRule.Reads ⟨tokens ++ rest, mark⟩ param ⟨rest, mark⟩ := by
  obtain ⟨hk, ht⟩ := h
  refine (Rule.Reads.expect hk).bind ?_
  exact (ht.reads hn).last

theorem Derived.starts (h : Derived tokens param) :
    ∃ t more, tokens = t :: more ∧ t.kind = .identifier := by
  obtain ⟨hk, -⟩ := h
  exact ⟨_, _, rfl, hk⟩

theorem ne_arrow_of_more (h : Separated .comma Derived tokens params)
    (hk : t.kind = .punct .closeParen) :
    (Cursor.mk (tokens ++ t :: rest) mark).current.kind ≠ .punct .arrow := by
  cases h with
  | nil => simp [hk]
  | cons hc _ _ => simp [hc]

theorem more_reads (h : Separated .comma Derived tokens params)
    (hk : t.kind = .punct .closeParen) :
    Reads (·.moreParamsRule) ⟨tokens ++ t :: rest, mark⟩ params ⟨t :: rest, mark⟩ := by
  induction h with
  | nil =>
    intro steps _
    unfold moreParamsRule
    refine .kind ?_
    rw [List.nil_append, if_neg (by simp [hk])]
    exact .pure
  | cons hc hp hm ih =>
    intro steps hl
    rw [List.cons_append, List.append_assoc] at hl ⊢
    unfold moreParamsRule
    refine .kind ?_
    rw [Cursor.current_cons, if_pos hc]
    refine Rule.Reads.advance.bind ?_
    refine (hp.reads (ne_arrow_of_more hm hk)).bind ?_
    exact (Grammar.Reads.inner (·.moreParams) ih (by simp at hl ⊢; omega)).last

theorem DerivedAll.reads (h : DerivedAll tokens params) (hk : t.kind = .punct .closeParen) :
    Reads (·.paramsRule) ⟨tokens ++ t :: rest, mark⟩ params ⟨rest, mark⟩ := by
  intro steps hl
  unfold paramsRule
  refine .kind ?_
  cases h with
  | nil =>
    rw [List.nil_append, Cursor.current_cons, if_pos hk]
    exact Rule.Reads.advance.last
  | cons hp hm =>
    obtain ⟨first, after, rfl, hf⟩ := hp.starts
    rw [List.append_assoc] at hl ⊢
    rw [List.cons_append, Cursor.current_cons, if_neg (by simp [hf]), ← List.cons_append]
    refine (hp.reads (ne_arrow_of_more hm hk)).bind ?_
    refine (Grammar.Reads.inner (·.moreParams) (more_reads hm hk) (by simp at hl ⊢; omega)).bind ?_
    exact (Rule.Reads.expectPunct hk).last

end Param

open Grammar in
theorem Expr.Readable.func (hs : start.kind = .keyword .fnWord) (hl : left.kind = .punct .openParen)
    (hp : Param.DerivedAll inside params) (hr : right.kind = .punct .closeParen)
    (hc : Ascription.DerivedChain chain returns) (hb : Block.Readable rest body) :
    Readable level (start :: left :: (inside ++ right :: (chain ++ rest)))
      (.func params returns body start.position) := by
  obtain ⟨first, more, rfl, hf⟩ := hb.starts
  refine of_form (by rw [hs]; rfl) ?_
  intro after mark steps _ hl'
  have hbody := hb.reads after mark
  simp only [List.append_assoc, List.cons_append] at hl' hbody ⊢
  refine (Rule.Reads.expect hs).bind ?_
  refine (Rule.Reads.expectPunct hl).bind ?_
  refine (hp.reads hr steps (by simp at hl' ⊢; omega)).bind ?_
  refine (hc.reads (by simp [hf])).bind ?_
  exact (hbody steps (by simp at hl' ⊢; omega)).last

-- ---------------------------------------------------------------------------
-- Conditionals
-- ---------------------------------------------------------------------------

open Grammar in
theorem Expr.ReadableCond.of_branches (hs : start.kind = .keyword .ifWord)
    (ht : Expr.Readable .whole front test) (hb : Block.Readable inside thenBlock)
    (hk : t.kind = .keyword .elseWord) (he : Block.ReadableElse rest elseBlock) :
    ReadableCond (start :: (front ++ (inside ++ t :: rest)))
      (.cond test thenBlock elseBlock start.position) := by
  refine ⟨⟨start, _, rfl, hs⟩, ?_⟩
  intro after mark steps hl
  obtain ⟨first, more, rfl, hf⟩ := hb.starts
  have hbody := hb.reads (t :: (rest ++ after)) mark
  simp only [List.append_assoc, List.cons_append] at hl hbody ⊢
  have hw : Reads (·.exprRule .whole) ⟨front ++ first :: (more ++ t :: (rest ++ after)), mark⟩ test
      ⟨first :: (more ++ t :: (rest ++ after)), mark⟩ :=
    ht.whole (by rw [Cursor.current_cons, hf]; rfl)
  unfold condRule
  refine (Rule.Reads.expect hs).bind ?_
  refine (Grammar.Reads.inner (·.expr .whole) hw (by simp at hl ⊢; omega)).bind ?_
  refine (hbody steps (by simp at hl ⊢; omega)).bind ?_
  refine (Rule.Reads.expect hk).bind ?_
  refine .kind ?_
  obtain hblock | ⟨e, hcond, rfl⟩ := he
  · obtain ⟨u, _, rfl, hu⟩ := hblock.starts
    rw [List.cons_append, Cursor.current_cons, if_neg (by simp [hu])]
    exact (hblock.reads after mark steps (by simp at hl ⊢; omega)).last
  · have hr := hcond.reads after mark
    obtain ⟨u, _, rfl, hu⟩ := hcond.starts
    rw [List.cons_append] at hr ⊢
    rw [Cursor.current_cons, if_pos hu]
    exact (Grammar.Reads.inner (·.cond) hr (by simp at hl ⊢; omega)).last

-- ---------------------------------------------------------------------------
-- Statements and declarations
-- ---------------------------------------------------------------------------

open Grammar in
theorem Block.Readable.of_stmts {returnsVoid : Bool} (hs : start.kind = .punct .openCurly)
    (hi : Stmt.ReadableAll inside ss returnsVoid) (hk : close.kind = .punct .closeCurly) :
    Block.Readable (start :: (inside ++ [close])) ⟨ss, returnsVoid, start.position⟩ := by
  refine ⟨⟨start, _, rfl, hs⟩, ?_⟩
  intro rest mark steps hl
  simp only [List.append_assoc, List.cons_append, List.nil_append] at hl ⊢
  unfold blockRule
  refine (Rule.Reads.expectPunct hs).bind ?_
  have hr := hi (close :: rest) mark hk
  refine (Grammar.Reads.inner (·.statements) hr hl).bind ?_
  exact (Rule.Reads.expectPunct hk).last

open Grammar in
theorem Decl.Readable.undeclared {name : Token} (hs : start.kind = .keyword .letWord)
    (hn : name.kind = .identifier) (hk : t.kind = .punct .assign)
    (hv : Expr.Readable .whole rest e) :
    Decl.Readable (start :: name :: t :: rest) ⟨name.value, none, e, start.position⟩ := by
  refine ⟨⟨start, _, rfl, hs⟩, ?_⟩
  intro after mark hp steps hl
  simp only [List.cons_append] at hl ⊢
  unfold declRule declRule.declaredRule
  refine (Rule.Reads.expect hs).bind ?_
  refine (Rule.Reads.expect hn).bind ?_
  have hnone : (declRule.declaredRule).Reads ⟨t :: (rest ++ after), mark⟩ none
      ⟨t :: (rest ++ after), mark⟩ := by
    refine .kind ?_
    rw [Cursor.current_cons, if_neg (by simp [hk])]
    exact .pure
  refine hnone.bind ?_
  refine (Rule.Reads.expectPunct hk).bind ?_
  exact (Grammar.Reads.inner (·.expr .whole) (hv.whole hp) (by simp at hl ⊢; omega)).last

open Grammar in
theorem Decl.Readable.declared {name : Token} (hs : start.kind = .keyword .letWord)
    (hn : name.kind = .identifier) (hc : colon.kind = .punct .colon)
    (ht : Ascription.Derived .whole front written) (hk : t.kind = .punct .assign)
    (hv : Expr.Readable .whole rest e) :
    Decl.Readable (start :: name :: colon :: (front ++ t :: rest))
      ⟨name.value, some written, e, start.position⟩ := by
  refine ⟨⟨start, _, rfl, hs⟩, ?_⟩
  intro after mark hp steps hl
  simp only [List.cons_append, List.append_assoc] at hl ⊢
  unfold declRule
  refine (Rule.Reads.expect hs).bind ?_
  refine (Rule.Reads.expect hn).bind ?_
  have hsome : (declRule.declaredRule).Reads ⟨colon :: (front ++ t :: (rest ++ after)), mark⟩
      (some written) ⟨t :: (rest ++ after), mark⟩ := by
    refine .kind ?_
    rw [Cursor.current_cons, if_pos hc]
    refine Rule.Reads.advance.bind ?_
    exact (ht.reads (by simp [hk])).last
  refine hsome.bind ?_
  refine (Rule.Reads.expectPunct hk).bind ?_
  exact (Grammar.Reads.inner (·.expr .whole) (hv.whole hp) (by simp at hl ⊢; omega)).last

namespace Stmt

open Grammar

theorem Readable.decl (hd : Decl.Readable tokens d) : Readable tokens (.decl d) := by
  obtain ⟨t, more, rfl, hk⟩ := hd.starts
  refine ⟨⟨t, more, rfl, by simp [hk]⟩, ?_⟩
  intro rest mark hn steps hl
  have hr := hd.reads rest mark hn steps hl
  rw [List.cons_append] at hr ⊢
  unfold stmtRule
  refine .kind ?_
  rw [Cursor.current_cons, hk]
  exact hr.last

theorem Readable.expr (he : Expr.Readable .whole tokens e) : Readable tokens (.expr e) := by
  obtain ⟨t, more, rfl, hk⟩ := he.starts
  refine ⟨⟨t, more, rfl, fun hc => hk (by rw [hc]; rfl)⟩, ?_⟩
  intro rest mark hn steps hl
  have hr := he.whole hn steps hl
  rw [List.cons_append] at hr ⊢
  unfold stmtRule
  refine .kind ?_
  have hlet : t.kind.startsDecl = false := by
    refine decide_eq_false fun hc => hk ?_
    rw [hc]
    rfl
  rw [Cursor.current_cons, hlet]
  exact hr.last

theorem ReadableAll.nil : ReadableAll [] [] true := by
  intro rest mark hk steps _
  unfold statementsRule
  refine .kind ?_
  rw [List.nil_append, if_pos hk]
  exact .pure

theorem ReadableAll.last (hs : Readable tokens s) : ReadableAll tokens [s] false := by
  intro rest mark hk steps hl
  have hr := hs.reads rest mark (by rw [hk]; rfl) steps hl
  obtain ⟨t, more, rfl, ht⟩ := hs.starts
  rw [List.cons_append] at hr ⊢
  unfold statementsRule
  refine .kind ?_
  rw [Cursor.current_cons, if_neg ht]
  refine hr.bind ?_
  refine .kind ?_
  rw [hk]
  exact .pure

theorem ReadableAll.cons (hs : Readable front s) (ht : t.kind = .punct .semicolon)
    (hm : ReadableAll more ss returnsVoid) :
    ReadableAll (front ++ t :: more) (s :: ss) returnsVoid := by
  intro rest mark hk steps hl
  rw [List.append_assoc, List.cons_append] at hl ⊢
  have hr := hs.reads (t :: (more ++ rest)) mark (by rw [Cursor.current_cons, ht]; rfl) steps hl
  obtain ⟨first, after, rfl, hf⟩ := hs.starts
  rw [List.cons_append] at hl hr ⊢
  unfold statementsRule
  refine .kind ?_
  rw [Cursor.current_cons, if_neg hf]
  refine hr.bind ?_
  refine .kind ?_
  rw [Cursor.current_cons, ht]
  refine Rule.Reads.advance.bind ?_
  exact (Grammar.Reads.inner (·.statements) (hm rest mark hk) (by simp at hl ⊢; omega)).last

end Stmt

-- ---------------------------------------------------------------------------
-- Derivations
-- ---------------------------------------------------------------------------

mutual
theorem Expr.Derived.readable : Expr.Derived chains level tokens e → Expr.Readable level tokens e
  | .literal hv => .literal hv
  | .ident hk => .ident hk
  | .group hs hi hk => .group hs hi.readable hk
  | .tuple hs hf hm hne hk => .tuple hs hf.readable hm.readable hne hk
  | .list hs hi hk => .list hs hi.readable hk
  | .func hs hl hp hr hc hb => .func hs hl hp hr hc hb.readable
  | .block hb => .block hb.readable
  | .cond hc => .cond hc.readable
  | .loop hs hn hk hi hb => .loop hs hn hk hi.readable hb.readable
  | .call hle hc hs ha hk => .call hle hc.readable hs ha.readable hk
  | .index hle ht hs hi hk => .index hle ht.readable hs hi.readable hk
  | .unary hle hk ho => .unary hle hk ho.readable
  | .binary hle hb hk hlt ha => .binary hle hb.readable hk hlt ha.readable
theorem Expr.DerivedMore.readable : Expr.DerivedMore chains tokens items →
    Expr.ReadableMore tokens items
  | .nil => .nil
  | .cons hk hf hm => .cons hk hf.readable hm.readable
theorem Expr.DerivedAll.readable : Expr.DerivedAll chains tokens items →
    Expr.ReadableAll tokens items
  | .nil => .nil
  | .cons hf hm => .cons hf.readable hm.readable
theorem Expr.DerivedCond.readable : Expr.DerivedCond chains tokens e → Expr.ReadableCond tokens e
  | .mk hs ht hb hk he => .of_branches hs ht.readable hb.readable hk he.readable
theorem Block.DerivedElse.readable : Block.DerivedElse chains tokens b →
    Block.ReadableElse tokens b
  | .block hb => .inl hb.readable
  | .cond _ hc => .inr ⟨_, hc.readable, rfl⟩
theorem Decl.Derived.readable : Decl.Derived chains tokens d → Decl.Readable tokens d
  | .undeclared hs hn hk hv => .undeclared hs hn hk hv.readable
  | .declared hs hn hc ht hk hv => .declared hs hn hc ht hk hv.readable
theorem Stmt.Derived.readable : Stmt.Derived chains tokens s → Stmt.Readable tokens s
  | .decl hd => .decl hd.readable
  | .expr he => .expr he.readable
theorem Stmt.DerivedAll.readable : Stmt.DerivedAll chains tokens ss returnsVoid →
    Stmt.ReadableAll tokens ss returnsVoid
  | .nil => .nil
  | .last hs => .last hs.readable
  | .cons hs ht hm => .cons hs.readable ht hm.readable
theorem Block.Derived.readable : Block.Derived chains tokens b → Block.Readable tokens b
  | .mk hs hi hk => .of_stmts hs hi.readable hk
end

theorem Decl.DerivedAll.current {mark : EndMark} (h : Decl.DerivedAll chains tokens ds)
    (hk : (Cursor.mk rest mark).current.kind = .eof) :
    (Cursor.mk (tokens ++ rest) mark).current.kind = .eof ∨
      (Cursor.mk (tokens ++ rest) mark).current.kind = .keyword .letWord := by
  cases h with
  | nil => exact .inl hk
  | bare hd _ | ended hd _ _ =>
    obtain ⟨t, more, rfl, ht⟩ := hd.readable.starts
    exact .inr ht

open Grammar in
theorem Decl.DerivedAll.reads {mark : EndMark} (h : Decl.DerivedAll chains tokens ds)
    (hk : (Cursor.mk rest mark).current.kind = .eof) :
    Reads (·.declsRule) ⟨tokens ++ rest, mark⟩ ds ⟨rest, mark⟩ := by
  induction h with
  | nil =>
    intro steps _
    unfold declsRule
    refine .kind ?_
    rw [List.nil_append, if_pos hk]
    exact .pure
  | @bare d ds front more hd hm ih =>
    intro steps hl
    -- What stands behind the declaration neither goes on with it nor ends it.
    have hn : (Cursor.mk (more ++ rest) mark).current.kind.power? = none ∧
        (Cursor.mk (more ++ rest) mark).current.kind ≠ .punct .semicolon := by
      obtain hc | hc := hm.current hk <;> rw [hc] <;> exact ⟨rfl, nofun⟩
    rw [List.append_assoc] at hl ⊢
    have hr := hd.readable.reads (more ++ rest) mark hn.1 steps hl
    obtain ⟨t, after, rfl, ht⟩ := hd.readable.starts
    rw [List.cons_append] at hl hr ⊢
    unfold declsRule
    refine .kind ?_
    rw [Cursor.current_cons, if_neg (by simp [ht])]
    refine hr.bind ?_
    refine .kind ?_
    rw [if_neg hn.2]
    exact (Grammar.Reads.inner (·.decls) ih (by simp at hl ⊢; omega)).last
  | @ended d ds t front more hd hs hm ih =>
    intro steps hl
    rw [List.append_assoc, List.cons_append] at hl ⊢
    have hr := hd.readable.reads (t :: (more ++ rest)) mark (by rw [Cursor.current_cons, hs]; rfl)
      steps hl
    obtain ⟨first, after, rfl, hf⟩ := hd.readable.starts
    rw [List.cons_append] at hl hr ⊢
    unfold declsRule
    refine .kind ?_
    rw [Cursor.current_cons, if_neg (by simp [hf])]
    refine hr.bind ?_
    refine .kind ?_
    rw [Cursor.current_cons, if_pos hs]
    refine Rule.Reads.advance.bind ?_
    exact (Grammar.Reads.inner (·.decls) ih (by simp at hl ⊢; omega)).last

end LetLang
