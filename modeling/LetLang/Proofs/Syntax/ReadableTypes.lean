import LetLang.Proofs.Syntax.Derivation
import LetLang.Proofs.Syntax.Powers
import LetLang.Proofs.Syntax.Reads
import LetLang.Syntax.TypeGrammar

/-!
# Reading derived types

The rules read the tokens of a type as that type. Arrows may go on behind the
tokens of a derivation, so a derivation says from where a rule reads on: the rule
for types gives what the loop behind the type gives.

A rule reads at least a token before it refers to another, so the grammar with a
step for each token ahead has enough steps for all of them.
-/

namespace LetLang

/-- Whether a rule reads in every grammar with a step for each token ahead. -/
def TypeGrammar.Reads (rule : TypeGrammar → Rule α) (c : Cursor) (a : α) (c' : Cursor) : Prop :=
  ∀ steps, c.ahead.length ≤ steps → (rule (deep steps)).Reads c a c'

theorem TypeGrammar.Reads.inner (rule : TypeGrammar → Rule α)
    (h : Reads (fun g => rule g.unfold) c a c') (hl : c.ahead.length < steps) :
    (rule (deep steps)).Reads c a c' := by
  cases steps with
  | zero => exact absurd hl (Nat.not_lt_zero _)
  | succ steps => exact h steps (Nat.le_of_lt_succ hl)

/-- Whether tokens are read as a type of a level. -/
structure Ascription.Readable (level : BindingPower) (tokens : List Token) (a : Ascription) :
    Prop where
  starts : ∃ t more, tokens = t :: more ∧ t.kind.typeForm? ≠ none
  reads : ∀ bp rest mark b c', (level ≤ .arrow → bp < .arrow) →
    ((Cursor.mk rest mark).current.kind = .punct .arrow → .arrow < level) →
    TypeGrammar.Reads (·.arrowsRule bp a) ⟨rest, mark⟩ b c' →
    TypeGrammar.Reads (·.typeRule bp) ⟨tokens ++ rest, mark⟩ b c'

structure Ty.ReadableMore (tokens : List Token) (items : List Ty) : Prop where
  starts : tokens = [] ∧ items = [] ∨ ∃ t more, tokens = t :: more ∧ t.kind = .punct .comma
  reads : ∀ rest mark, (Cursor.mk rest mark).current.kind = .punct .closeParen →
    TypeGrammar.Reads (·.moreItemsRule) ⟨tokens ++ rest, mark⟩ items ⟨rest, mark⟩

namespace TypeGrammar

variable {c c' : Cursor} {mark : EndMark}

theorem arrowsRule_stops (h : c.current.kind = .punct .arrow → ¬ bp < .arrow) :
    Reads (·.arrowsRule bp a) c a c := by
  intro steps _
  unfold arrowsRule
  refine .kind ?_
  split
  · next power hp =>
    obtain ⟨hk, rfl⟩ := Kind.typePower?_eq_some hp
    rw [if_neg (h hk)]
    exact .pure
  · exact .pure

end TypeGrammar

namespace Ascription.Readable

open TypeGrammar

variable {t start close : Token} {tokens before after front inside more rest : List Token}

/-- A type that no arrow follows is read to its end. -/
theorem whole {mark : EndMark} (h : Readable level tokens a)
    (hn : (Cursor.mk rest mark).current.kind ≠ .punct .arrow) :
    TypeGrammar.Reads (·.typeRule .whole) ⟨tokens ++ rest, mark⟩ a ⟨rest, mark⟩ :=
  h.reads .whole rest mark a _ (fun _ => by decide) (fun hk => absurd hk hn)
    (arrowsRule_stops fun hk => absurd hk hn)

theorem primary {mark : EndMark} (h : Readable .primary tokens a) :
    TypeGrammar.Reads (·.typeRule .arrow) ⟨tokens ++ rest, mark⟩ a ⟨rest, mark⟩ :=
  h.reads .arrow rest mark a _ (fun hle => absurd hle (by decide)) (fun _ => by decide)
    (arrowsRule_stops fun _ => by decide)

theorem of_front (hk : t.kind.typeForm? ≠ none)
    (hf : ∀ rest mark,
      TypeGrammar.Reads (·.frontRule) ⟨t :: (front ++ rest), mark⟩ a ⟨rest, mark⟩) :
    Readable level (t :: front) a := by
  refine ⟨⟨t, front, rfl, hk⟩, ?_⟩
  intro bp rest mark b c' _ _ ha steps hl
  unfold typeRule
  refine (hf rest mark steps hl).bind ?_
  exact Reads.inner (·.arrows bp a) ha (by simp at hl ⊢; omega)

theorem ne_closeParen {mark : EndMark} (h : Readable level tokens a) :
    (Cursor.mk (tokens ++ rest) mark).current.kind ≠ .punct .closeParen := by
  obtain ⟨t, more, rfl, ht⟩ := h.starts
  rintro hk
  rw [List.cons_append, Cursor.current_cons] at hk
  exact ht (by rw [hk]; rfl)

theorem named (hk : t.kind = .typeName name) : Readable level [t] ⟨.prim name, t.position⟩ := by
  refine of_front (by simp [hk, Kind.typeForm?]) ?_
  intro rest mark steps _
  unfold frontRule namedRule
  refine .kind ?_
  rw [Cursor.current_cons, hk]
  refine .kind ?_
  rw [Cursor.current_cons, hk]
  exact Rule.Reads.advance.last

theorem list (hs : start.kind = .punct .openBracket) (hi : Readable .whole inside item)
    (hk : close.kind = .punct .closeBracket) :
    Readable level (start :: (inside ++ [close])) ⟨.list item.ty, start.position⟩ := by
  refine of_front (by simp [hs, Kind.typeForm?]) ?_
  intro rest mark steps hl
  simp only [List.append_assoc, List.singleton_append] at hl ⊢
  unfold frontRule
  refine .kind ?_
  rw [Cursor.current_cons, hs]
  refine (Rule.Reads.expectPunct hs).bind ?_
  refine (Reads.inner (·.type .whole) (hi.whole (by simp [hk])) (by simp at hl ⊢; omega)).bind ?_
  exact (Rule.Reads.expectPunct hk).last

theorem unit (hs : start.kind = .punct .openParen) (hk : close.kind = .punct .closeParen) :
    Readable level [start, close] ⟨.unit, start.position⟩ := by
  refine of_front (by simp [hs, Kind.typeForm?]) ?_
  intro rest mark steps _
  unfold frontRule
  refine .kind ?_
  rw [Cursor.current_cons, hs]
  refine (Rule.Reads.expectPunct hs).bind ?_
  refine .kind ?_
  rw [List.singleton_append, Cursor.current_cons, if_pos hk]
  exact Rule.Reads.advance.last

theorem group (hs : start.kind = .punct .openParen) (hi : Readable .whole inside a)
    (hk : close.kind = .punct .closeParen) :
    Readable level (start :: (inside ++ [close])) ⟨a.ty, start.position⟩ := by
  refine of_front (by simp [hs, Kind.typeForm?]) ?_
  intro rest mark steps hl
  simp only [List.append_assoc, List.singleton_append] at hl ⊢
  unfold frontRule
  refine .kind ?_
  rw [Cursor.current_cons, hs]
  refine (Rule.Reads.expectPunct hs).bind ?_
  refine .kind ?_
  rw [if_neg hi.ne_closeParen]
  refine (Reads.inner (·.type .whole) (hi.whole (by simp [hk])) (by simp at hl ⊢; omega)).bind ?_
  refine .kind ?_
  rw [Cursor.current_cons, if_neg (by simp [hk])]
  exact (Rule.Reads.expectPunct hk).last

theorem tuple (hs : start.kind = .punct .openParen) (hf : Readable .whole before first)
    (hm : Ty.ReadableMore more items) (hne : items ≠ []) (hk : close.kind = .punct .closeParen) :
    Readable level (start :: (before ++ (more ++ [close])))
      ⟨.tuple (first.ty :: items), start.position⟩ := by
  obtain ⟨t, front, rfl, ht⟩ := hm.starts.resolve_left fun h => hne h.2
  refine of_front (by simp [hs, Kind.typeForm?]) ?_
  intro rest mark steps hl
  have hr := hm.reads (close :: rest) mark hk
  simp only [List.append_assoc, List.cons_append, List.nil_append] at hl hr ⊢
  unfold frontRule
  refine .kind ?_
  rw [Cursor.current_cons, hs]
  refine (Rule.Reads.expectPunct hs).bind ?_
  refine .kind ?_
  rw [if_neg hf.ne_closeParen]
  refine (Reads.inner (·.type .whole) (hf.whole (by simp [ht])) (by simp at hl ⊢; omega)).bind ?_
  refine .kind ?_
  rw [Cursor.current_cons, if_pos ht]
  refine (Reads.inner (·.moreItems) hr (by simp at hl ⊢; omega)).bind ?_
  exact (Rule.Reads.expectPunct hk).last

theorem func (hle : level ≤ .arrow) (hp : Readable .primary before param)
    (hk : t.kind = .punct .arrow) (hr : Readable .arrow after ret) :
    Readable level (before ++ t :: after) ⟨.func param.ty ret.ty, param.position⟩ := by
  obtain ⟨first, more, rfl, hf⟩ := hp.starts
  refine ⟨⟨first, _, rfl, hf⟩, ?_⟩
  intro bp rest mark b c' hb hn ha
  have hn : (Cursor.mk rest mark).current.kind ≠ .punct .arrow :=
    fun hk => absurd hle (Nat.not_le_of_lt (hn hk))
  rw [List.append_assoc]
  refine hp.reads bp _ mark b c' (fun h => absurd h (by decide)) (fun _ => by decide) ?_
  intro steps hl
  unfold arrowsRule
  refine .kind ?_
  rw [List.cons_append, Cursor.current_cons, hk]
  simp only [Kind.typePower?, if_pos (hb hle)]
  have harrow : ((deep steps).arrowRule param).Reads ⟨t :: (after ++ rest), mark⟩
      ⟨.func param.ty ret.ty, param.position⟩ ⟨rest, mark⟩ := by
    refine (Rule.Reads.expectPunct hk).bind ?_
    exact (Reads.inner (·.type .whole) (hr.whole hn) (by simp at hl ⊢; omega)).last
  refine harrow.bind ?_
  exact Reads.inner (·.arrows bp _) ha (by simp at hl ⊢; omega)

end Ascription.Readable

namespace Ty.ReadableMore

open TypeGrammar

theorem ne_arrow {mark : EndMark} (h : ReadableMore tokens items)
    (hk : (Cursor.mk rest mark).current.kind = .punct .closeParen) :
    (Cursor.mk (tokens ++ rest) mark).current.kind ≠ .punct .arrow := by
  obtain ⟨rfl, -⟩ | ⟨t, more, rfl, ht⟩ := h.starts
  · simp [hk]
  · simp [ht]

theorem nil : ReadableMore [] [] := by
  refine ⟨.inl ⟨rfl, rfl⟩, ?_⟩
  intro rest mark hk steps _
  unfold moreItemsRule
  refine .kind ?_
  rw [List.nil_append, if_neg (by simp [hk])]
  exact .pure

theorem cons (hk : t.kind = .punct .comma) (hf : Ascription.Readable .whole front item)
    (hm : ReadableMore more items) : ReadableMore (t :: (front ++ more)) (item.ty :: items) := by
  refine ⟨.inr ⟨t, _, rfl, hk⟩, ?_⟩
  intro rest mark hc steps hl
  rw [List.cons_append, List.append_assoc] at hl ⊢
  unfold moreItemsRule
  refine .kind ?_
  rw [Cursor.current_cons, if_pos hk]
  refine Rule.Reads.advance.bind ?_
  have hi := hf.whole (hm.ne_arrow hc)
  refine (Reads.inner (·.type .whole) hi (by simp at hl ⊢; omega)).bind ?_
  exact (Reads.inner (·.moreItems) (hm.reads rest mark hc) (by simp at hl ⊢; omega)).last

end Ty.ReadableMore

mutual
theorem Ascription.Derived.readable :
    Ascription.Derived level tokens a → Ascription.Readable level tokens a
  | .named hk => .named hk
  | .list hs hi hk => .list hs hi.readable hk
  | .unit hs hk => .unit hs hk
  | .group hs hi hk => .group hs hi.readable hk
  | .tuple hs hf hm hne hk => .tuple hs hf.readable hm.readable hne hk
  | .func hle hp hk hr => .func hle hp.readable hk hr.readable
theorem Ty.DerivedMore.readable : Ty.DerivedMore tokens items → Ty.ReadableMore tokens items
  | .nil => .nil
  | .cons hk hf hm => .cons hk hf.readable hm.readable
end

open TypeGrammar in
theorem moreReturns_reads {mark : EndMark}
    (h : Separated .arrow (Ascription.Derived .primary) tokens returns)
    (hn : (Cursor.mk rest mark).current.kind ≠ .punct .arrow) :
    TypeGrammar.Reads (·.moreReturnsRule) ⟨tokens ++ rest, mark⟩ returns ⟨rest, mark⟩ := by
  induction h with
  | nil =>
    intro steps _
    unfold moreReturnsRule
    refine .kind ?_
    rw [List.nil_append, if_neg hn]
    exact .pure
  | cons hk hf hm ih =>
    intro steps hl
    rw [List.cons_append, List.append_assoc] at hl ⊢
    unfold moreReturnsRule
    refine .kind ?_
    rw [Cursor.current_cons, if_pos hk]
    refine Rule.Reads.advance.bind ?_
    refine (Reads.inner (·.type .arrow) hf.readable.primary (by simp at hl ⊢; omega)).bind ?_
    exact (Reads.inner (·.moreReturns) ih (by simp at hl ⊢; omega)).last

theorem TypeGrammar.Reads.run {rule : TypeGrammar → Rule α} (h : Reads rule c a c') :
    (Rule.ofTypes rule).Reads c a c' := h c.ahead.length (Nat.le_refl _)

theorem Ascription.Derived.reads {mark : EndMark} (h : Ascription.Derived .whole tokens a)
    (hn : (Cursor.mk rest mark).current.kind ≠ .punct .arrow) :
    (Rule.type .whole).Reads ⟨tokens ++ rest, mark⟩ a ⟨rest, mark⟩ :=
  (h.readable.whole hn).run

theorem Ascription.DerivedChain.reads {mark : EndMark} (h : Ascription.DerivedChain tokens returns)
    (hn : (Cursor.mk rest mark).current.kind ≠ .punct .arrow) :
    Rule.returns.Reads ⟨tokens ++ rest, mark⟩ returns ⟨rest, mark⟩ := by
  obtain ⟨hf, hm⟩ := h
  refine TypeGrammar.Reads.run ?_
  intro steps hl
  rw [List.append_assoc] at hl ⊢
  refine (hf.readable.primary steps hl).bind ?_
  exact (moreReturns_reads hm hn steps (by simp at hl ⊢; omega)).last

end LetLang
