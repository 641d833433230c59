import LetLang.Proofs.Token.Spelling

/-!
# Scanning step by step

What a scanner does between two places of a source, as a relation: it passes
blanks one at a time and comments, and reads tokens. A scanner that is drained
scans to the end of its source, or to a lexeme that it rejects, and its readings
are the tokens of that scan and then the end or the diagnostic.
-/

namespace LetLang

/-- Whether a scanner at the first place, with the first text ahead, reads
tokens on its way to the second place, where the second text is ahead. -/
inductive Scans : Position → List Char → List Token → Position → List Char → Prop where
  | done : Scans p text [] p text
  | blank : isBlank c = true → Scans (p.step c) text ts q rest → Scans p (c :: text) ts q rest
  | comment : front? text = some f → f.form = .comment →
      Scans (p.after f.lexeme) f.rest ts q rest → Scans p text ts q rest
  | token : front? text = some f → f.token? p = .ok (some t) →
      Scans (p.after f.lexeme) f.rest ts q rest → Scans p text (t :: ts) q rest

/-- Whether a scanner at a place rejects what is ahead. -/
inductive Rejects : Position → List Char → Diagnostic → Prop where
  | unknown : front? (c :: rest) = none → Rejects p (c :: rest) ⟨.unexpectedChar c, p⟩
  | malformed : front? text = some f → f.token? p = .error d → Rejects p text d

-- ---------------------------------------------------------------------------
-- One reading
-- ---------------------------------------------------------------------------

namespace Scanner

variable {text : List Char} {p : Position} {done : Bool}

theorem read_nil : (Scanner.mk [] p done).read = (.ok (.endAt p), ⟨[], p, true⟩) := by
  rw [read]
  rfl

theorem read_front {f : Front} (h : front? text = some f) :
    (Scanner.mk text p done).read =
      match f.token? p with
      | .error d => (.error d, ⟨text, p, true⟩)
      | .ok (some t) => (.ok t, ⟨f.rest, p.after f.lexeme, done⟩)
      | .ok none => (Scanner.mk f.rest (p.after f.lexeme) done).read := by
  rw [read]
  split
  · next hr =>
    obtain rfl : text = [] := hr
    cases h
  · split
    · next hn => cases h.symm.trans hn
    · next g hg =>
      cases h.symm.trans hg
      rfl

theorem read_of_rejects (h : Rejects p text d) :
    (Scanner.mk text p done).read = (.error d, ⟨text, p, true⟩) := by
  cases h with
  | malformed hf ht => rw [read_front hf, ht]
  | unknown hn =>
    rw [read]
    split
    · next hr => cases hr
    · next hr =>
      cases hr
      split
      · rfl
      · next hf => cases hn.symm.trans hf

end Scanner

theorem front?_blank (h : isBlank c = true) :
    front? (c :: text) = some ⟨.blank, c :: text.takeWhile isBlank, text.dropWhile isBlank⟩ := by
  simp [front?, Form.all, Form.split?, Form.splitRun?, Form.splitRun, h]

theorem Scanner.read_blank {ended : Bool} (h : isBlank c = true) :
    (Scanner.mk (c :: text) p ended).read = (Scanner.mk text (p.step c) ended).read := by
  rw [read_front (front?_blank h)]
  cases text with
  | nil => rfl
  | cons x text =>
    cases hx : isBlank x with
    | true =>
      rw [read_front (front?_blank hx)]
      simp [Front.token?, hx]
    | false => simp [Front.token?, hx]

-- ---------------------------------------------------------------------------
-- All readings
-- ---------------------------------------------------------------------------

namespace Scanner

variable {s s' behind : Scanner}

theorem drain_error (hs : s.done = false) (h : s.read = (.error d, behind)) :
    s.drain = ([.error d], behind) := by
  rw [drain, dif_neg (by simp [hs])]
  split
  · next hr =>
    cases h.symm.trans hr
    rfl
  · next hr => cases h.symm.trans hr

theorem drain_last (hs : s.done = false) (h : s.read = (.ok t, behind))
    (hb : behind.done = true) : s.drain = ([.ok t], behind) := by
  rw [drain, dif_neg (by simp [hs])]
  split
  · next hr => cases h.symm.trans hr
  · next hr =>
    cases h.symm.trans hr
    rw [dif_pos hb]

theorem drain_more (hs : s.done = false) (h : s.read = (.ok t, behind))
    (hb : behind.done = false) : s.drain = (.ok t :: behind.drain.1, behind.drain.2) := by
  rw [drain, dif_neg (by simp [hs])]
  split
  · next hr => cases h.symm.trans hr
  · next hr =>
    cases h.symm.trans hr
    rw [dif_neg (by simp [hb])]

theorem drain_congr (hs : s.done = false) (hs' : s'.done = false)
    (h : s.read = s'.read) : s.drain = s'.drain := by
  obtain ⟨reading, behind, hr⟩ : ∃ reading behind, s.read = (reading, behind) := ⟨_, _, rfl⟩
  cases reading with
  | error d => rw [drain_error hs hr, drain_error hs' (h.symm.trans hr)]
  | ok t =>
    cases hb : behind.done with
    | true => rw [drain_last hs hr hb, drain_last hs' (h.symm.trans hr) hb]
    | false => rw [drain_more hs hr hb, drain_more hs' (h.symm.trans hr) hb]

end Scanner

namespace Scans

theorem trans (h : Scans p text ts q middle) (h' : Scans q middle us r rest) :
    Scans p text (ts ++ us) r rest := by
  induction h with
  | done => exact h'
  | blank hc _ ih => exact .blank hc (ih h')
  | comment hf hk _ ih => exact .comment hf hk (ih h')
  | token hf ht _ ih => exact .token hf ht (ih h')

theorem gap {blanks : List Char} (hb : ∀ c ∈ blanks, isBlank c = true)
    (h : Scans (p.after blanks) text ts q rest) : Scans p (blanks ++ text) ts q rest := by
  induction blanks generalizing p with
  | nil => exact h
  | cons c blanks ih =>
    obtain ⟨hc, hb⟩ := List.forall_mem_cons.mp hb
    exact .blank hc (ih hb h)

theorem exists_passed (h : Scans p text ts q rest) :
    ∃ passed, text = passed ++ rest ∧ q = p.after passed := by
  induction h with
  | done => exact ⟨[], rfl, rfl⟩
  | blank _ _ ih =>
    obtain ⟨passed, rfl, rfl⟩ := ih
    exact ⟨_ :: passed, rfl, rfl⟩
  | comment hf _ _ ih | token hf _ _ ih =>
    obtain ⟨passed, hr, rfl⟩ := ih
    refine ⟨_ ++ passed, ?_, (Position.after_append _ _ _).symm⟩
    rw [List.append_assoc, ← hr, (Form.split?_append (front?_eq_some hf).2).1]

/-- Draining a scanner reads the tokens of a scan, and then goes on behind it. -/
theorem drain (h : Scans p text ts q rest) :
    (Scanner.mk text p false).drain =
      (ts.map .ok ++ (Scanner.mk rest q false).drain.1, (Scanner.mk rest q false).drain.2) := by
  induction h with
  | done => rfl
  | blank hc _ ih => rw [Scanner.drain_congr rfl rfl (Scanner.read_blank hc), ih]
  | comment hf hk _ ih =>
    refine (Scanner.drain_congr rfl rfl ?_).trans ih
    rw [Scanner.read_front hf]
    simp only [Front.token?, hk]
  | token hf ht _ ih =>
    rw [Scanner.drain_more rfl (by rw [Scanner.read_front hf, ht]) rfl, ih]
    rfl

theorem drain_end (h : Scans p text ts q []) :
    (Scanner.mk text p false).drain = (ts.map .ok ++ [.ok (.endAt q)], ⟨[], q, true⟩) := by
  rw [h.drain, Scanner.drain_last rfl Scanner.read_nil rfl]

theorem drain_rejects (h : Scans p text ts q rest) (hr : Rejects q rest d) :
    (Scanner.mk text p false).drain = (ts.map .ok ++ [.error d], ⟨rest, q, true⟩) := by
  rw [h.drain, Scanner.drain_error rfl (Scanner.read_of_rejects hr)]

end Scans

theorem token?_none {f : Front} (hp : f.token? p = .ok none) :
    f.form = .blank ∨ f.form = .comment := by
  obtain ⟨form, lexeme, rest⟩ := f
  cases form with
  | blank => exact .inl rfl
  | comment => exact .inr rfl
  | word | float | int | punct => cases hp
  | quoted quote =>
    cases quote with
    | double =>
      obtain ⟨content, -, hp⟩ := bind_eq_ok.mp hp
      cases hp
    | single =>
      obtain ⟨content, -, hp⟩ := bind_eq_ok.mp hp
      split at hp
      · cases hp
      · cases hp
  | openQuote quote =>
    cases quote with
    | double => cases hp
    | single => cases hp

theorem Scans.passed {f : Front} (hf : front? text = some f) (hp : f.token? p = .ok none)
    (h : Scans (p.after f.lexeme) f.rest ts q rest) : Scans p text ts q rest := by
  rcases token?_none hp with hk | hk
  · have hs := (front?_eq_some hf).2
    rw [hk] at hs
    rw [← (Form.split?_append hs).1]
    exact .gap (isRun_of_split hs).2 h
  · exact .comment hf hk h

/-- Every scanner gets to the end of its text, or to a lexeme that it rejects. -/
theorem exists_scans (p : Position) (text : List Char) :
    ∃ ts q rest, Scans p text ts q rest ∧ (rest = [] ∨ ∃ d, Rejects q rest d) := by
  cases text with
  | nil => exact ⟨[], p, [], .done, .inl rfl⟩
  | cons c tail =>
    cases hf : front? (c :: tail) with
    | none => exact ⟨[], p, _, .done, .inr ⟨_, .unknown hf⟩⟩
    | some f =>
      have hlt := front?_length_lt hf
      obtain ⟨ts, q, rest, hs, he⟩ := exists_scans (p.after f.lexeme) f.rest
      cases ht : f.token? p with
      | error d => exact ⟨[], p, _, .done, .inr ⟨d, .malformed hf ht⟩⟩
      | ok made =>
        cases made with
        | none => exact ⟨ts, q, rest, .passed hf ht hs, he⟩
        | some t => exact ⟨t :: ts, q, rest, .token hf ht hs, he⟩
termination_by text.length
decreasing_by exact hlt

-- ---------------------------------------------------------------------------
-- A whole source
-- ---------------------------------------------------------------------------

theorem mapM_ok (tokens : List Token) :
    (tokens.map .ok).mapM id = (.ok tokens : Except Diagnostic (List Token)) := by
  induction tokens with
  | nil => rfl
  | cons t tokens ih =>
    rw [List.map_cons, List.mapM_cons, ih]
    rfl

theorem tokenize_of_scans (h : Scans .start source.toList ts q []) :
    tokenize source = .ok (ts ++ [.endAt q]) := by
  unfold tokenize Scanner.ofSource
  rw [h.drain_end, ← mapM_ok, List.map_append]
  rfl

theorem tokenize_of_rejects (h : Scans .start source.toList ts q rest) (hr : Rejects q rest d) :
    tokenize source = .error d := by
  unfold tokenize Scanner.ofSource
  rw [h.drain_rejects hr, List.mapM_append, mapM_ok]
  rfl

theorem scans_of_tokenize (h : tokenize source = .ok tokens) :
    ∃ ts q, tokens = ts ++ [.endAt q] ∧ Scans .start source.toList ts q [] := by
  obtain ⟨ts, q, rest, hs, rfl | ⟨d, hr⟩⟩ := exists_scans .start source.toList
  · rw [tokenize_of_scans hs] at h
    cases h
    exact ⟨ts, q, rfl, hs⟩
  · rw [tokenize_of_rejects hs hr] at h
    cases h

end LetLang
