import LetLang.Proofs.Syntax.Grammatical
import LetLang.Proofs.Syntax.Lookahead

/-!
# Rules get on and end

A rule that starts at any token of a list comes to an answer with a step for each
token ahead, and more steps make no difference. It stops behind the token that it
started at, if it gives a value, and not before it otherwise; and a rule that starts
within a program does not pass its end.
-/

namespace LetLang

abbrev TokenIndex (tokens : List Token) := Fin ((Cursor.ofTokens tokens).ahead.length + 1)

namespace TokenIndex

def cursor (i : TokenIndex tokens) : Cursor :=
  ⟨(Cursor.ofTokens tokens).ahead.drop i, (Cursor.ofTokens tokens).stop⟩

def InProgram (i : TokenIndex tokens) : Prop := i.val ≤ (programTokens tokens).length

end TokenIndex

/-- Whether a rule at a place comes to an answer, which does not depend on the number of
steps as long as there is one for each token ahead. It stops at a place that is related
to the first by `forward` if it gives a value, and at no earlier place otherwise, and it
does not pass the first token that ends the program. -/
structure Rule.Progresses (rule : Rule α) (family : Nat → Rule α) (i : TokenIndex tokens)
    (forward : TokenIndex tokens → TokenIndex tokens → Prop) : Prop where
  steady : ∀ steps, i.cursor.ahead.length ≤ steps → (family steps).run i.cursor = rule.run i.cursor
  answer : ∃ j : TokenIndex tokens, (i.InProgram → j.InProgram) ∧
    match rule.run i.cursor with
      | .ok _ c => c = j.cursor ∧ forward i j
      | .error d c => c = j.cursor ∧ i ≤ j ∧ ¬ d.TooDeep

-- ---------------------------------------------------------------------------
-- Moving on
-- ---------------------------------------------------------------------------

namespace TokenIndex

variable {tokens : List Token} {i j : TokenIndex tokens} {c : Cursor}

theorem length_cursor (i : TokenIndex tokens) :
    i.cursor.ahead.length + i = (Cursor.ofTokens tokens).ahead.length := by
  have hi := i.isLt
  simp only [cursor, List.length_drop]
  omega

theorem length_le_program {ahead taken back : List Token} (hn : n ≤ (programTokens ahead).length)
    (h : ahead.drop n = taken ++ back) (ht : ∀ t ∈ taken, t.kind ≠ .eof) :
    n + taken.length ≤ (programTokens ahead).length := by
  obtain ⟨rest, hr, hk⟩ := exists_rest ahead ⟨Token.endText, .start⟩
  rw [hr, List.drop_append_of_le_length hn] at h
  have hle : taken.length ≤ ((programTokens ahead).drop n).length := by
    rcases List.append_eq_append_iff.mp h with ⟨more, htaken, hm⟩ | ⟨more, hp, -⟩
    · cases more with
      | nil => simp [htaken]
      | cons t more =>
        -- The token behind the program would have been taken.
        rw [hm] at hk
        exact absurd hk (ht t (htaken ▸ List.mem_append_right _ List.mem_cons_self))
    · simp [hp]
  rw [List.length_drop] at hle
  omega

theorem exists_of_reaches (h : i.cursor.Reaches c) :
    ∃ j : TokenIndex tokens, c = j.cursor ∧ (i.InProgram → j.InProgram) := by
  obtain ⟨taken, ha, hs, ht⟩ := h
  have hlen := i.length_cursor
  rw [ha, List.length_append] at hlen
  have hj : i + taken.length < (Cursor.ofTokens tokens).ahead.length + 1 := by omega
  refine ⟨⟨i + taken.length, hj⟩, ?_, fun hi => ?_⟩
  · obtain ⟨rest, stop⟩ := c
    obtain rfl : stop = (Cursor.ofTokens tokens).stop := hs
    have hrest : i.cursor.ahead.drop taken.length = rest := by rw [ha, List.drop_left]
    rw [← hrest]
    simp only [cursor, List.drop_drop]
  · unfold InProgram at *
    rw [← programTokens_ahead] at hi ⊢
    exact length_le_program hi ha ht

theorem le_of_length (h : j.cursor.ahead.length ≤ i.cursor.ahead.length) : i ≤ j := by
  have hi := i.length_cursor
  have hj := j.length_cursor
  exact Fin.le_def.mpr (by omega)

theorem lt_of_length (h : j.cursor.ahead.length < i.cursor.ahead.length) : i < j := by
  have hi := i.length_cursor
  have hj := j.length_cursor
  exact Fin.lt_def.mpr (by omega)

end TokenIndex

namespace Rule

variable {tokens : List Token} {i : TokenIndex tokens} {family : Nat → Rule α}
  {good : α → Cursor → Prop} {forward : TokenIndex tokens → TokenIndex tokens → Prop}

theorem Yields.progresses (hy : (ofSteps family).Yields (fun _ => True) i.cursor good)
    (hf : ∀ n m, n ≤ m → ∀ c, (family n).Echoes (family m) c)
    (ha : ∀ a (j : TokenIndex tokens), j.cursor.ahead.length ≤ i.cursor.ahead.length →
      good a j.cursor → forward i j) : (ofSteps family).Progresses family i forward := by
  refine ⟨fun steps hs => (hf _ steps hs _).run_eq fun d c' hr => hy.not_tooDeep hr, ?_⟩
  have h := hy ⟨fun _ _ => trivial, trivial⟩
  cases hr : (ofSteps family).run i.cursor with
  | ok a c =>
    rw [hr] at h
    obtain ⟨hreach, hgood⟩ := h
    obtain ⟨j, rfl, hj⟩ := TokenIndex.exists_of_reaches hreach
    exact ⟨j, hj, rfl, ha a j hreach.length_le hgood⟩
  | error d c =>
    rw [hr] at h
    obtain ⟨hreach, hblames⟩ := h
    obtain ⟨j, rfl, hj⟩ := TokenIndex.exists_of_reaches hreach
    exact ⟨j, hj, rfl, TokenIndex.le_of_length hreach.length_le, hblames.not_tooDeep⟩

theorem Yields.progresses_lt {made : α → Prop}
    (hy : (ofSteps family).Yields (fun _ => True) i.cursor fun a c' =>
      c'.ahead.length < i.cursor.ahead.length ∧ made a)
    (hf : ∀ n m, n ≤ m → ∀ c, (family n).Echoes (family m) c) :
    (ofSteps family).Progresses family i (· < ·) :=
  hy.progresses hf fun _ _ _ hg => TokenIndex.lt_of_length hg.1

end Rule

-- ---------------------------------------------------------------------------
-- All rules
-- ---------------------------------------------------------------------------

open Grammar TypeGrammar in
/-- Expressions and types of any power, statements, declarations, blocks and chains of
return types end wherever they start, and get on. The declarations of a module end, too,
but there may be none. -/
theorem rules_progress (tokens : List Token) (i : TokenIndex tokens) :
    (∀ bp, (Rule.expr bp).Progresses (fun n => (Grammar.deep n).exprRule bp) i (· < ·)) ∧
      (∀ bp, (Rule.type bp).Progresses (fun n => (TypeGrammar.deep n).typeRule bp) i (· < ·)) ∧
      Rule.stmt.Progresses (fun n => (Grammar.deep n).stmtRule) i (· < ·) ∧
      Rule.decl.Progresses (fun n => (Grammar.deep n).declRule) i (· < ·) ∧
      Rule.block.Progresses (fun n => (Grammar.deep n).blockRule) i (· < ·) ∧
      Rule.returns.Progresses (fun n => (TypeGrammar.deep n).returnsRule) i (· < ·) ∧
      Rule.decls.Progresses (fun n => (Grammar.deep n).declsRule) i (· ≤ ·) ∧
      ∀ d, parse tokens = .error d → ¬ d.TooDeep := by
  -- Each rule takes a token for what it yields, and repeats itself in grammars of more steps.
  refine ⟨fun bp => ?_, fun bp => ?_, ?_, ?_, ?_, ?_, ?_, ?_⟩
  · exact (Rule.ofGrammar_yields fun _ hg => exprRule_yields bp hg (Nat.le_refl _)).progresses_lt
      fun _ _ h _ => exprRule_echoes (Grammar.deep_echoes h) bp
  · exact (Rule.type_yields bp).progresses_lt
      fun _ _ h _ => typeRule_echoes (TypeGrammar.deep_echoes h) bp
  · exact (Rule.ofGrammar_yields fun _ hg => stmtRule_yields hg (Nat.le_refl _)).progresses_lt
      fun _ _ h _ => stmtRule_echoes (Grammar.deep_echoes h)
  · exact (Rule.ofGrammar_yields fun _ hg => declRule_yields hg (Nat.le_refl _)).progresses_lt
      fun _ _ h _ => declRule_echoes (Grammar.deep_echoes h)
  · exact (Rule.ofGrammar_yields fun _ hg => blockRule_yields hg (Nat.le_refl _)).progresses_lt
      fun _ _ h _ => blockRule_echoes (Grammar.deep_echoes h)
  · exact Rule.returns_yields.progresses_lt
      fun _ _ h _ => returnsRule_echoes (TypeGrammar.deep_echoes h)
  · exact Rule.decls_yields.progresses
      (fun _ _ h _ => declsRule_echoes (Grammar.deep_echoes h))
      fun _ _ hle _ => TokenIndex.le_of_length hle
  · intro d hd
    rcases parse_cases (p := fun _ => True) ⟨fun _ _ => trivial, trivial⟩ with
      ⟨m, hm, -⟩ | ⟨d', hd', hb⟩
    · cases hm.symm.trans hd
    · cases hd'.symm.trans hd
      exact hb.not_tooDeep

end LetLang
