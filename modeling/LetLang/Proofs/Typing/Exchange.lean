import LetLang.Proofs.Typing.Hints

/-!
# Exchanging two sides

The operands of a binary operator can be exchanged, and so can the branches of
a conditional: the checker types the exchanged expression exactly if it types
the other, to the same type and with the same typed parts. So it does not
matter which of two parts is the empty list that takes its type from the other.

Of two parts, one fixes the type and the other follows it. Where only one can,
the checker finds it on either side. Where both can, the part that followed
needs no hint either, and the part that led is stable under its own type.
-/

namespace LetLang

/-- Of two parts, the second is typed first if only the first needs a hint, and
its type is then the hint for the other. Whatever two parts of one type become
in this way, they become in the other order too. -/
theorem parts_exchange {first : Option Ty → Except ε α} {second : Option Ty → Except ε β}
    {needs needs' : Bool} (hneeds : first none = .ok a → needs = false)
    (hstable : first none = .ok a → first (some ty) = .ok a)
    (hdrop : needs' = false → second (some ty) = .ok b → second none = .ok b)
    (h : (needs = true ∧ needs' = false) ∧ second none = .ok b ∧ first (some ty) = .ok a ∨
      ¬(needs = true ∧ needs' = false) ∧ first none = .ok a ∧ second (some ty) = .ok b) :
    (needs' = true ∧ needs = false) ∧ first none = .ok a ∧ second (some ty) = .ok b ∨
      ¬(needs' = true ∧ needs = false) ∧ second none = .ok b ∧ first (some ty) = .ok a := by
  rcases h with ⟨⟨-, hn⟩, hb, ha⟩ | ⟨-, ha, hb⟩
  · refine .inr ⟨?_, hb, ha⟩
    rintro ⟨hn', -⟩
    cases hn.symm.trans hn'
  · cases hn : needs' with
    | true => exact .inl ⟨⟨rfl, hneeds ha⟩, ha, hb⟩
    | false => exact .inr ⟨nofun, hdrop hn hb, hstable ha⟩

theorem infer_binary_exchange
    (h : (Expr.binary op left right position).infer scope none = .ok t) :
    ∃ l r ty, t = ⟨.binary op l r, ty, position⟩ ∧
      (Expr.binary op right left place).infer scope none = .ok ⟨.binary op r l, ty, place⟩ := by
  obtain ⟨l, r, ho, ha, hty, rfl⟩ := infer_binary_ok.mp h
  rw [hty] at ho
  refine ⟨l, r, _, rfl, infer_binary_ok.mpr ⟨r, l, ?_, ?_, hty.symm, ?_⟩⟩
  · rw [hty]
    exact parts_exchange needsHint_of_infer (infer_stable left) (infer_drop right) ho
  · rw [hty]
    exact ha
  · rw [hty]

theorem infer_cond_exchange
    (h : (Expr.cond test thenBlock elseBlock position).infer scope none = .ok t) :
    ∃ c yes no ty, t = ⟨.cond c yes no, ty, position⟩ ∧
      (Expr.cond test elseBlock thenBlock place).infer scope none =
        .ok ⟨.cond c no yes, ty, place⟩ := by
  obtain ⟨c, yes, no, hc, hb, ho, hty, rfl⟩ := infer_cond_ok.mp h
  simp only [typesElseFirst, true_and, hty] at ho
  refine ⟨c, yes, no, _, rfl, infer_cond_ok.mpr ⟨c, no, yes, hc, hb, ?_, hty.symm, ?_⟩⟩
  · simp only [typesElseFirst, true_and, hty]
    exact parts_exchange needsHint_of_inferBlock (inferBlock_stable thenBlock)
      (inferBlock_drop elseBlock) ho
  · rw [hty]

theorem check_ok {e : Expr} : e.check scope expected = .ok t ↔
    e.infer scope (some expected) = .ok t ∧ t.ty = expected := by
  simp only [Expr.check, bind_eq_ok, requireType_ok, pure_eq_ok]
  constructor
  · rintro ⟨typed, hi, _, hty, rfl⟩
    exact ⟨hi, hty⟩
  · rintro ⟨hi, hty⟩
    exact ⟨t, hi, (), hty, rfl⟩

theorem check_cond_exchange
    (h : (Expr.cond test thenBlock elseBlock position).check scope expected = .ok t) :
    ∃ c yes no, t = ⟨.cond c yes no, expected, position⟩ ∧
      (Expr.cond test elseBlock thenBlock place).check scope expected =
        .ok ⟨.cond c no yes, expected, place⟩ := by
  obtain ⟨hi, rfl⟩ := check_ok.mp h
  obtain ⟨c, yes, no, hc, hb, ho, hty, rfl⟩ := infer_cond_ok.mp hi
  rcases ho with ⟨⟨hn, -⟩, -⟩ | ⟨-, hyes, hno⟩
  · cases hn
  · refine ⟨c, yes, no, rfl, check_ok.mpr ⟨infer_cond_ok.mpr ?_, rfl⟩⟩
    refine ⟨c, no, yes, hc, hb, .inr ⟨?_, hno, ?_⟩, hty.symm, by rw [hty]⟩
    · rintro ⟨hn, -⟩
      cases hn
    · rw [hty]
      exact hyes

/-- The operands of every binary operator can be exchanged, and the branches of
every conditional, alone and against an expected type. One side is accepted
exactly if the other is, and then the two typed forms have the same type and
the same typed parts, exchanged. -/
theorem sides_exchange (scope : Scope) (position place : Position) :
    (∀ op left right t, (Expr.binary op right left place).infer scope none = .ok t ↔
      ∃ l r ty, t = ⟨.binary op r l, ty, place⟩ ∧
        (Expr.binary op left right position).infer scope none =
          .ok ⟨.binary op l r, ty, position⟩) ∧
    (∀ test thenBlock elseBlock t,
      (Expr.cond test elseBlock thenBlock place).infer scope none = .ok t ↔
        ∃ c yes no ty, t = ⟨.cond c no yes, ty, place⟩ ∧
          (Expr.cond test thenBlock elseBlock position).infer scope none =
            .ok ⟨.cond c yes no, ty, position⟩) ∧
    (∀ test thenBlock elseBlock expected t,
      (Expr.cond test elseBlock thenBlock place).check scope expected = .ok t ↔
        ∃ c yes no, t = ⟨.cond c no yes, expected, place⟩ ∧
          (Expr.cond test thenBlock elseBlock position).check scope expected =
            .ok ⟨.cond c yes no, expected, position⟩) := by
  refine ⟨fun op left right t => ⟨?_, ?_⟩, fun test thenBlock elseBlock t => ⟨?_, ?_⟩,
    fun test thenBlock elseBlock expected t => ⟨?_, ?_⟩⟩
  · intro h
    obtain ⟨r, l, ty, rfl, h'⟩ := infer_binary_exchange h
    exact ⟨l, r, ty, rfl, h'⟩
  · rintro ⟨l, r, ty, rfl, h⟩
    obtain ⟨_, _, _, ⟨⟩, h'⟩ := infer_binary_exchange h
    exact h'
  · intro h
    obtain ⟨c, no, yes, ty, rfl, h'⟩ := infer_cond_exchange h
    exact ⟨c, yes, no, ty, rfl, h'⟩
  · rintro ⟨c, yes, no, ty, rfl, h⟩
    obtain ⟨_, _, _, _, ⟨⟩, h'⟩ := infer_cond_exchange h
    exact h'
  · intro h
    obtain ⟨c, no, yes, rfl, h'⟩ := check_cond_exchange h
    exact ⟨c, yes, no, rfl, h'⟩
  · rintro ⟨c, yes, no, rfl, h⟩
    obtain ⟨_, _, _, ⟨⟩, h'⟩ := check_cond_exchange h
    exact h'

end LetLang
