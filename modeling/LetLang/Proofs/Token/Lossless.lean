import LetLang.Proofs.Token.Scanning

/-!
# Nothing is lost in scanning

The tokens of a source and what is skipped between them make up the source, and
the place of a token is that of its first character, counted in what stands
before it. The places go up from token to token, to the end of the source.
-/

namespace LetLang

namespace Position

/-- The place behind a text: one more than its newlines, and one more than its
characters since the last of them. -/
def ofText (before : List Char) : Position :=
  ⟨1 + before.count '\n', 1 + (before.reverse.takeWhile (· ≠ '\n')).length⟩

def Before (p q : Position) : Prop :=
  p.row < q.row ∨ p.row = q.row ∧ p.column < q.column

theorem Before.trans (h : Before p q) (h' : Before q r) : Before p r := by
  unfold Before at *
  omega

theorem Before.trans_or (h : Before p q) (h' : q = r ∨ q.Before r) : p.Before r := by
  rcases h' with rfl | h'
  · exact h
  · exact h.trans h'

theorem before_step (p : Position) (c : Char) : p.Before (p.step c) := by
  unfold step
  split
  · exact .inl (Nat.lt_succ_self _)
  · exact .inr ⟨rfl, Nat.lt_succ_self _⟩

theorem before_after (p : Position) {text : List Char} (h : text ≠ []) :
    p.Before (p.after text) := by
  induction text generalizing p with
  | nil => exact absurd rfl h
  | cons c text ih =>
    cases text with
    | nil => exact p.before_step c
    | cons x text => exact (p.before_step c).trans (ih _ (List.cons_ne_nil _ _))

theorem ofText_nil : ofText [] = .start := rfl

theorem ofText_concat (before : List Char) (c : Char) :
    ofText (before ++ [c]) = (ofText before).step c := by
  by_cases hc : c = '\n'
  · subst hc
    simp [ofText, step]
    omega
  · simp [ofText, step, hc]
    omega

theorem ofText_append (before text : List Char) :
    ofText (before ++ text) = (ofText before).after text := by
  induction text generalizing before with
  | nil => rw [List.append_nil, after_nil]
  | cons c text ih => rw [List.append_cons, ih, ofText_concat, after_cons]

theorem ofText_eq_after (text : List Char) : ofText text = start.after text :=
  ofText_append [] text

end Position

/-- Whether a text is cut, behind what stands before it and up to a rest, into
tokens in this order and what is skipped: blanks, and comments to the end of
their line. -/
inductive Cut : List Char → List Char → List Token → List Char → Prop where
  | done : Cut before rest [] rest
  | blank : isBlank c = true → Cut (before ++ [c]) text tokens rest →
      Cut before (c :: text) tokens rest
  | comment : comment = '/' :: '/' :: body → '\n' ∉ body →
      (text = [] ∨ ∃ more, text = '\n' :: more) → Cut (before ++ comment) text tokens rest →
      Cut before (comment ++ text) tokens rest
  | token : t.WrittenAs lexeme → t.position = .ofText before →
      Cut (before ++ lexeme) text tokens rest → Cut before (lexeme ++ text) (t :: tokens) rest

theorem Cut.ne_eof (h : Cut before text tokens rest) : ∀ t ∈ tokens, t.kind ≠ .eof := by
  induction h with
  | done => exact nofun
  | blank _ _ ih | comment _ _ _ _ ih => exact ih
  | token hw _ _ ih => exact List.forall_mem_cons.mpr ⟨hw.ne_eof, ih⟩

namespace Scans

theorem cut (h : Scans p text ts q rest) (before : List Char) (hp : p = .ofText before) :
    Cut before text ts rest := by
  induction h generalizing before with
  | done => exact .done
  | blank hc _ ih =>
    subst hp
    exact .blank hc (ih _ (Position.ofText_concat _ _).symm)
  | comment hf hk _ ih =>
    subst hp
    have hs := (front?_eq_some hf).2
    rw [← (Form.split?_append hs).1]
    rw [hk] at hs
    obtain ⟨body, hl, hb, he⟩ := split?_comment hs
    exact .comment hl hb he (ih _ (Position.ofText_append _ _).symm)
  | token hf ht _ ih =>
    subst hp
    have hs := (front?_eq_some hf).2
    rw [← (Form.split?_append hs).1]
    obtain ⟨hpos, hw⟩ := writtenAs_of_token? hs ht
    exact .token hw hpos (ih _ (Position.ofText_append _ _).symm)

theorem ordered (h : Scans p text ts q rest) :
    (∀ t ∈ ts ++ [Token.endAt q], p = t.position ∨ p.Before t.position) ∧
      (ts ++ [Token.endAt q]).Pairwise fun t t' => t.position.Before t'.position := by
  induction h with
  | done => exact ⟨List.forall_mem_singleton.mpr (.inl rfl), List.pairwise_singleton _ _⟩
  | blank _ _ ih =>
    exact ⟨fun t ht => .inr ((Position.before_step _ _).trans_or (ih.1 t ht)), ih.2⟩
  | comment hf _ _ ih =>
    have hne := (Form.split?_append (front?_eq_some hf).2).2
    exact ⟨fun t ht => .inr ((Position.before_after _ hne).trans_or (ih.1 t ht)), ih.2⟩
  | token hf ht _ ih =>
    have hs := (front?_eq_some hf).2
    obtain ⟨rfl, -⟩ := writtenAs_of_token? hs ht
    have hlater := fun t' ht' =>
      (Position.before_after _ (Form.split?_append hs).2).trans_or (ih.1 t' ht')
    exact ⟨List.forall_mem_cons.mpr ⟨.inl rfl, fun t' ht' => .inr (hlater t' ht')⟩,
      List.pairwise_cons.mpr ⟨hlater, ih.2⟩⟩

end Scans

/-- Nothing is lost in scanning: the tokens and what is skipped make up the
source, or all of it before the lexeme that is rejected. A token stands where
its lexeme starts, the places go up, and the end is at the end of the source. -/
theorem tokenize_lossless (source : String) :
    match tokenize source with
    | .ok tokens => ∃ front, tokens = front ++ [.endAt (.ofText source.toList)] ∧
        Cut [] source.toList front [] ∧ (∀ t ∈ front, t.kind ≠ .eof) ∧
        tokens.Pairwise fun t t' => t.position.Before t'.position
    | .error d => ∃ front before rest, source.toList = before ++ rest ∧
        (Scanner.ofSource source).drain =
          (front.map .ok ++ [.error d], ⟨rest, .ofText before, true⟩) ∧
        Rejects (.ofText before) rest d ∧
        Cut [] source.toList front rest ∧ (∀ t ∈ front, t.kind ≠ .eof) ∧
        front.Pairwise fun t t' => t.position.Before t'.position := by
  obtain ⟨ts, q, rest, hs, hend⟩ := exists_scans .start source.toList
  have hcut := hs.cut [] Position.ofText_nil.symm
  obtain ⟨passed, htext, hq⟩ := hs.exists_passed
  obtain rfl : q = .ofText passed := hq.trans (Position.ofText_eq_after passed).symm
  have hrise := hs.ordered.2
  rcases hend with rfl | ⟨d, hr⟩
  · rw [List.append_nil] at htext
    subst htext
    rw [tokenize_of_scans hs]
    exact ⟨ts, rfl, hcut, hcut.ne_eof, hrise⟩
  · rw [tokenize_of_rejects hs hr]
    exact ⟨ts, passed, rest, htext, hs.drain_rejects hr, hr, hcut, hcut.ne_eof,
      (List.pairwise_append.mp hrise).1⟩

end LetLang
