import LetLang.Syntax.BindingPower
import LetLang.Syntax.Cursor

/-!
# Powers and levels

The rules of expressions stop at a token by the power with which it binds.
`Under` and `AtMost` relate these powers to the levels of the grammar: a rule at
a power reads expressions of the levels that are above it, and what follows an
expression binds it if it is at most as strong.
-/

namespace LetLang

-- ---------------------------------------------------------------------------
-- Kinds that bind
-- ---------------------------------------------------------------------------

theorem Kind.eq_of_binaryOp? {kind : Kind} (h : kind.binaryOp? = some op) :
    kind = .punct op.punct := by
  cases kind with
  | punct mark => rw [Punct.punct_of_binaryOp? h]
  | _ => cases h

theorem Kind.eq_of_unaryOp? {kind : Kind} (h : kind.unaryOp? = some op) :
    kind = .punct op.punct := by
  cases kind with
  | punct mark => rw [Punct.punct_of_unaryOp? h]
  | _ => cases h

@[simp] theorem Kind.power?_punct (op : BinaryOp) :
    (Kind.punct op.punct).power? = some op.power := by
  cases op <;> rfl

theorem Kind.typePower?_eq_some {kind : Kind} (h : kind.typePower? = some power) :
    kind = .punct .arrow ∧ power = .arrow := by
  unfold Kind.typePower? at h
  split at h
  · exact ⟨rfl, (Option.some.inj h).symm⟩
  · cases h

theorem binaryOp?_of_power? {kind : Kind} (h : kind.power? = some power)
    (hp : kind ≠ .punct .openParen) (hb : kind ≠ .punct .openBracket) :
    ∃ op, kind.binaryOp? = some op ∧ power = op.power := by
  unfold Kind.power? at h
  split at h
  · exact absurd rfl hp
  · exact absurd rfl hb
  · obtain ⟨op, ho, hp⟩ := Option.map_eq_some_iff.mp h
    exact ⟨op, ho, hp.symm⟩

theorem power?_cases {kind : Kind} (h : kind.power? = some power) :
    power = .call ∨ ∃ op : BinaryOp, power = op.power := by
  by_cases hp : kind = .punct .openParen
  · subst hp
    exact .inl (Option.some.inj h).symm
  by_cases hb : kind = .punct .openBracket
  · subst hb
    exact .inl (Option.some.inj h).symm
  obtain ⟨op, -, ho⟩ := binaryOp?_of_power? h hp hb
  exact .inr ⟨op, ho⟩

theorem BinaryOp.power_lt_unary (op : BinaryOp) : op.power < .unary := by
  cases op <;> decide

-- ---------------------------------------------------------------------------
-- Levels
-- ---------------------------------------------------------------------------

namespace BindingPower

theorem not_lt_of_le {weak strong : BindingPower} (h : weak ≤ strong) : ¬ strong < weak :=
  Nat.not_lt_of_le h

theorem whole_le (level : BindingPower) : .whole ≤ level := Nat.zero_le _

theorem le_primary (level : BindingPower) : level ≤ .primary := by
  cases level <;> decide

/-- Whether everything that binds with the strength of a level is stronger than a power. -/
def Under (bp level : BindingPower) : Prop :=
  ∀ (kind : Kind) (power : BindingPower), kind.power? = some power → level ≤ power → bp < power

theorem Under.weaken {bp weak strong : BindingPower} (h : bp.Under weak) (hl : weak ≤ strong) :
    bp.Under strong :=
  fun kind power hk hp => h kind power hk (Nat.le_trans hl hp)

theorem Under.of_lt {bp level : BindingPower} (h : bp < level) : bp.Under level :=
  fun _ _ _ hp => Nat.lt_of_lt_of_le h hp

theorem Under.of_unary {bp level : BindingPower} (h : bp < .call) (hl : .unary ≤ level) :
    bp.Under level := by
  intro kind power hk hp
  obtain rfl | ⟨op, rfl⟩ := power?_cases hk
  · exact h
  · exact absurd (Nat.le_trans hl hp) (Nat.not_le_of_lt op.power_lt_unary)

theorem Under.power_lt {op : BinaryOp} {level : BindingPower} (h : op.power.Under level) :
    op.power < level := by
  refine Nat.lt_of_not_le fun hl => ?_
  exact Nat.lt_irrefl _ (h (.punct op.punct) op.power (Kind.power?_punct op) hl)

theorem Under.whole (level : BindingPower) : Under .whole level := by
  intro kind power hk _
  obtain rfl | ⟨op, rfl⟩ := power?_cases hk
  · decide
  · cases op <;> decide

theorem Under.unary_le {level : BindingPower} (h : Under .unary level) : .unary ≤ level := by
  refine Nat.le_of_not_lt fun hl => ?_
  have hm := h (.punct .star) .multiplicative rfl (Nat.le_of_lt_succ hl)
  exact absurd hm (by decide)

end BindingPower

/-- Whether what follows binds with at most the strength of a level. -/
def Cursor.AtMost (c : Cursor) (level : BindingPower) : Prop :=
  ∀ power, c.current.kind.power? = some power → power ≤ level

theorem Cursor.AtMost.of_call {c : Cursor} (hl : .call ≤ level) : c.AtMost level := by
  intro power hp
  obtain rfl | ⟨op, rfl⟩ := power?_cases hp
  · exact hl
  · exact Nat.le_trans (Nat.le_of_lt op.power_lt_unary) (Nat.le_trans (by decide) hl)

theorem Cursor.AtMost.of_none {c : Cursor} (h : c.current.kind.power? = none) : c.AtMost level := by
  intro power hp
  cases h.symm.trans hp

theorem Cursor.AtMost.weaken {c : Cursor} (h : c.AtMost weak) (hl : weak ≤ strong) :
    c.AtMost strong :=
  fun power hp => Nat.le_trans (h power hp) hl

end LetLang
