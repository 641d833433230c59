import LetLang.Proofs.Syntax.Grammatical
import LetLang.Proofs.Syntax.Lookahead
import LetLang.Proofs.Syntax.Viable

/-!
# The earliest unexpected token

An unexpected token is reported as early as possible. The tokens before it begin
a module that the parser accepts, and with this token behind them nothing that
follows makes one: all programs that agree up to there are rejected alike.
-/

namespace LetLang

def Ended (tokens : List Token) : Prop := ∃ last, tokens.getLast? = some last ∧ last.kind = .eof

namespace Ended

theorem concat (tokens : List Token) (p : Position) : Ended (tokens ++ [.endAt p]) :=
  ⟨_, List.getLast?_concat, rfl⟩

theorem ofTokens (h : Ended tokens) : tokens =
    (Cursor.ofTokens tokens).ahead ++ [(Cursor.ofTokens tokens).stop.token] := by
  obtain ⟨⟨kind, value, position⟩, hl, hk⟩ := h
  obtain rfl : kind = .eof := hk
  obtain ⟨front, rfl⟩ := List.getLast?_eq_some_iff.mp hl
  simp [Cursor.ofTokens, EndMark.token]

theorem of_append (h : Ended (front ++ t :: back)) : Ended (t :: back) := by
  obtain ⟨last, hl, hk⟩ := h
  exact ⟨last, by simpa [List.getLast?_append] using hl, hk⟩

theorem rewind (h : Ended (t :: back)) (front : List Token) :
    Cursor.ofTokens (front ++ t :: back) = (Cursor.ofTokens (t :: back)).rewind front := by
  obtain ⟨last, hl, hk⟩ := h
  have hl' : (front ++ t :: back).getLast? = some last := by simpa [List.getLast?_append] using hl
  simp only [Cursor.ofTokens, hl, hl', hk, if_true, Cursor.rewind,
    List.dropLast_append_of_ne_nil (List.cons_ne_nil t back)]

theorem current (h : Ended (t :: back)) : (Cursor.ofTokens (t :: back)).current = t := by
  have hc := congrArg List.head? h.ofTokens
  unfold Cursor.current
  cases ha : (Cursor.ofTokens (t :: back)).ahead with
  | nil =>
    rw [ha] at hc
    exact (Option.some.inj hc).symm
  | cons u rest =>
    rw [ha] at hc
    exact (Option.some.inj hc).symm

end Ended

theorem Begins.parses (h : Begins (Decl.DerivedAll true) tokens) :
    ∃ rest m, Ended (tokens ++ rest) ∧ parse (tokens ++ rest) = .ok m := by
  obtain ⟨rest, ds, hd⟩ := h
  have hm : Module.Derived true (tokens ++ rest) ⟨ds⟩ := hd
  refine ⟨rest ++ [.endAt .start], ⟨ds⟩, ?_, ?_⟩
  · rw [← List.append_assoc]
    exact Ended.concat _ _
  · rw [← List.append_assoc, parse_iff, programTokens_ended hm.ne_eof]
    exact hm

/-- An unexpected token is reported where it stands. The tokens before it can be
continued to a program, and every program that starts with the same tokens up to
this one is rejected with the same diagnostic. -/
theorem parse_earliest (he : Ended tokens)
    (h : parse tokens = .error ⟨.unexpectedToken expected found, position⟩) :
    ∃ k t, tokens[k]? = some t ∧ found = t.display ∧ position = t.position ∧
      (∃ rest m, Ended (tokens.take k ++ rest) ∧ parse (tokens.take k ++ rest) = .ok m) ∧
      ∀ others, Ended others → others.take (k + 1) = tokens.take (k + 1) →
        parse others = .error ⟨.unexpectedToken expected found, position⟩ := by
  have hecho := Rule.decls_echoes (c := .ofTokens tokens)
  unfold Rule.Echoes at hecho
  unfold parse Rule.onTokens at h
  cases hr : Rule.decls.run (.ofTokens tokens) with
  | ok ds c =>
    rw [hr] at h
    cases h
  | error d c =>
    rw [hr] at h hecho
    cases h
    -- What is refused and what is repeated stand behind the same tokens.
    obtain ⟨hf, hp, taken, ha, hb⟩ := Rule.decls_refuses _ _ _ c hr
    obtain ⟨taken', hc, hsame⟩ := hecho nofun
    obtain rfl : taken' = taken :=
      List.append_cancel_right ((congrArg Cursor.ahead hc).symm.trans ha)
    obtain ⟨back, htokens⟩ : ∃ back, tokens = taken' ++ c.current :: back := by
      have ht := he.ofTokens
      rw [hc] at ht
      unfold Cursor.current
      cases hahead : c.ahead with
      -- The end mark itself is unexpected.
      | nil => exact ⟨[], by simpa [Cursor.rewind, hahead] using ht⟩
      | cons t rest => exact ⟨rest ++ [c.stop.token], by simpa [Cursor.rewind, hahead] using ht⟩
    refine ⟨taken'.length, c.current, by simp [htokens], hf, hp, ?_, ?_⟩
    · rw [htokens, List.take_left]
      exact hb.parses
    · intro others ho htake
      obtain ⟨more, rfl⟩ : ∃ more, others = taken' ++ c.current :: more := by
        refine ⟨others.drop (taken'.length + 1), ?_⟩
        have hs := List.take_append_drop (taken'.length + 1) others
        rw [htake, htokens] at hs
        simpa [List.take_length_add_append] using hs.symm
      have hmore := ho.of_append
      unfold parse Rule.onTokens
      rw [hmore.rewind, hsame _ hmore.current]
      rfl

def unclosedTokens : List Token :=
  [(.keyword .letWord, "let", 1), (.identifier, "x", 5), (.punct .assign, "=", 7),
    (.punct .openParen, "(", 9), (.identifier, "y", 10), (.punct .semicolon, ";", 11),
    (.eof, Token.endText, 12)].map fun (kind, value, column) => ⟨kind, value, ⟨1, column⟩⟩

theorem unclosed_earliest :
    parse unclosedTokens = .error ⟨.unexpectedToken "')'" ";", ⟨1, 11⟩⟩ ∧
    ∃ k t, unclosedTokens[k]? = some t ∧ ";" = t.display ∧ ⟨1, 11⟩ = t.position ∧
      (∃ rest m, Ended (unclosedTokens.take k ++ rest) ∧
        parse (unclosedTokens.take k ++ rest) = .ok m) ∧
      ∀ others, Ended others → others.take (k + 1) = unclosedTokens.take (k + 1) →
        parse others = .error ⟨.unexpectedToken "')'" ";", ⟨1, 11⟩⟩ := by
  have h : parse unclosedTokens = .error ⟨.unexpectedToken "')'" ";", ⟨1, 11⟩⟩ := rfl
  exact ⟨h, parse_earliest ⟨_, rfl, rfl⟩ h⟩

end LetLang
