import LetLang.Compile
import LetLang.Proofs.Direct.Agreement
import LetLang.Proofs.Direct.Gathering
import LetLang.Proofs.Syntax.Parsing
import LetLang.Proofs.Typing.Stages

/-!
# Stages of the front end

The first stage that fails ends the run, and its diagnostic belongs to it. The
last stage never fails: what the checker makes of a packed module is always
such that the parameters can be gathered.
-/

namespace LetLang

theorem parse_packed (ht : SourceTokens tokens) (h : parse tokens = .ok m) :
    m.pack.Every Node.Packed :=
  modulePack_packed ((parse_from ht h).imp fun _ hn => hn.shaped.returns)

theorem gather_of_infer {m : Module} (hm : m.Avoids packName) (h : m.pack.infer scope = .ok t) :
    ∃ d, m.direct scope = .ok d ∧ t = d.pack ∧ t.gather = .ok d.gathered := by
  rw [inferModule_agree hm] at h
  cases hd : m.direct scope with
  | error e =>
    rw [hd] at h
    cases h
  | ok d =>
    rw [hd] at h
    cases h
    exact ⟨d, rfl, rfl, Direct.moduleGather_pack (moduleDirect_avoids hm d hd)⟩

theorem compile_of_parse (hl : tokenize source = .ok tokens) (hp : parse tokens = .ok m) :
    compile source scope = m.pack.infer scope >>= Typed.Module.gather := by
  simp only [compile, hl, hp, ok_bind]

theorem compile_ok (h : compile source scope = .ok u) :
    ∃ tokens m ds, tokenize source = .ok tokens ∧ parse tokens = .ok m ∧
      Decl.inferAll m.pack.decls scope.push = .ok ds ∧ ds.mapM Typed.Decl.gather = .ok u.decls := by
  obtain ⟨tokens, hl, h⟩ := bind_eq_ok.mp h
  obtain ⟨m, hp, h⟩ := bind_eq_ok.mp h
  obtain ⟨t, hi, h⟩ := bind_eq_ok.mp h
  obtain ⟨ds, hd, rfl⟩ := inferModule_ok.mp hi
  obtain ⟨us, hg, h⟩ := bind_eq_ok.mp h
  cases h
  exact ⟨tokens, m, ds, hl, hp, hd, hg⟩

/-- A diagnostic of the front end is that of its first stage that fails. -/
theorem compile_error (h : compile source scope = .error d) :
    d.stage = .lexical ∧ tokenize source = .error d ∨
      d.stage = .grammatical ∧ (∃ tokens, tokenize source = .ok tokens ∧ parse tokens = .error d) ∨
      d.stage = .typing ∧ ∃ tokens m, tokenize source = .ok tokens ∧ parse tokens = .ok m ∧
        m.pack.infer scope = .error d := by
  cases hl : tokenize source with
  | error e =>
    simp only [compile, hl] at h
    cases h
    exact .inl ⟨tokenize_failsAs source _ hl, rfl⟩
  | ok tokens =>
    have ht := tokenize_tokens hl
    cases hp : parse tokens with
    | error e =>
      simp only [compile, hl, hp, ok_bind] at h
      cases h
      exact .inr (.inl ⟨parse_failsAs ht _ hp, tokens, rfl, hp⟩)
    | ok m =>
      rw [compile_of_parse hl hp] at h
      cases hi : m.pack.infer scope with
      | error e =>
        rw [hi] at h
        cases h
        exact .inr (.inr ⟨inferModule_failsAs (parse_packed ht hp) _ hi, tokens, m, rfl, hp, hi⟩)
      | ok t =>
        obtain ⟨u, -, -, hg⟩ := gather_of_infer (parse_avoids ht hp) hi
        rw [hi, ok_bind, hg] at h
        cases h

theorem compile_lexical_iff : compile source scope = .error d ∧ d.stage = .lexical ↔
    tokenize source = .error d := by
  constructor
  · rintro ⟨h, hs⟩
    rcases compile_error h with ⟨-, hl⟩ | ⟨hs', -⟩ | ⟨hs', -⟩
    · exact hl
    · cases hs.symm.trans hs'
    · cases hs.symm.trans hs'
  · intro hl
    refine ⟨?_, tokenize_failsAs source d hl⟩
    simp only [compile, hl]
    rfl

theorem compile_grammatical_iff : compile source scope = .error d ∧ d.stage = .grammatical ↔
    ∃ tokens, tokenize source = .ok tokens ∧ parse tokens = .error d := by
  constructor
  · rintro ⟨h, hs⟩
    rcases compile_error h with ⟨hs', -⟩ | ⟨-, hp⟩ | ⟨hs', -⟩
    · cases hs.symm.trans hs'
    · exact hp
    · cases hs.symm.trans hs'
  · rintro ⟨tokens, hl, hp⟩
    refine ⟨?_, parse_failsAs (tokenize_tokens hl) d hp⟩
    simp only [compile, hl, hp, ok_bind]
    rfl

theorem compile_typing_iff : compile source scope = .error d ∧ d.stage = .typing ↔
    ∃ tokens m, tokenize source = .ok tokens ∧ parse tokens = .ok m ∧
      m.pack.infer scope = .error d := by
  constructor
  · rintro ⟨h, hs⟩
    rcases compile_error h with ⟨hs', -⟩ | ⟨hs', -⟩ | ⟨-, hi⟩
    · cases hs.symm.trans hs'
    · cases hs.symm.trans hs'
    · exact hi
  · rintro ⟨tokens, m, hl, hp, hi⟩
    refine ⟨?_, inferModule_failsAs (parse_packed (tokenize_tokens hl) hp) d hi⟩
    rw [compile_of_parse hl hp, hi]
    rfl

/-- A diagnostic of the front end names the stage that gave it, and is never a
fault: it is lexical if the source has no tokens, grammatical if its tokens do
not parse, and about types if the packed module does not check. Every module
that checks is gathered. -/
theorem compile_stages (source : String) (scope : Scope) :
    (∀ d, compile source scope = .error d → d.stage ≠ .internal) ∧
    (∀ d, compile source scope = .error d ∧ d.stage = .lexical ↔ tokenize source = .error d) ∧
    (∀ d, compile source scope = .error d ∧ d.stage = .grammatical ↔
      ∃ tokens, tokenize source = .ok tokens ∧ parse tokens = .error d) ∧
    (∀ d, compile source scope = .error d ∧ d.stage = .typing ↔
      ∃ tokens m, tokenize source = .ok tokens ∧ parse tokens = .ok m ∧
        m.pack.infer scope = .error d) ∧
    (∀ tokens m t, tokenize source = .ok tokens → parse tokens = .ok m →
      m.pack.infer scope = .ok t → ∃ u, t.gather = .ok u ∧ compile source scope = .ok u) := by
  refine ⟨?_, fun d => compile_lexical_iff, fun d => compile_grammatical_iff,
    fun d => compile_typing_iff, ?_⟩
  · intro d h hs
    rcases compile_error h with ⟨hs', -⟩ | ⟨hs', -⟩ | ⟨hs', -⟩
    all_goals cases hs.symm.trans hs'
  · intro tokens m t hl hp hi
    obtain ⟨u, -, -, hg⟩ := gather_of_infer (parse_avoids (tokenize_tokens hl) hp) hi
    refine ⟨u.gathered, hg, ?_⟩
    rw [compile_of_parse hl hp, hi, ok_bind, hg]

theorem compile_mistyped :
    (∃ d, compile "let x: str = 1;" .prelude = .error d ∧ d.stage = .typing ∧
      d.stage ≠ .internal) ∧
    ∃ u, compile "let f = fn (a int, b int) int { a + b };" .prelude = .ok u := by
  constructor
  · obtain ⟨hne, -, -, htyping, -⟩ := compile_stages "let x: str = 1;" .prelude
    obtain ⟨m, h⟩ := isOk_iff.mp
      (by decide +kernel : (tokenize "let x: str = 1;" >>= parse).isOk = true)
    obtain ⟨tokens, hl, hp⟩ := bind_eq_ok.mp h
    have hi : (tokenize "let x: str = 1;" >>= parse >>= fun m =>
        m.pack.infer .prelude).isOk = false := by decide +kernel
    rw [h] at hi
    obtain ⟨d, hd⟩ := isOk_eq_false_iff.mp hi
    obtain ⟨hc, hs⟩ := (htyping d).mpr ⟨tokens, m, hl, hp, hd⟩
    exact ⟨d, hc, hs, hne d hc⟩
  · obtain ⟨-, -, -, -, hgather⟩ :=
      compile_stages "let f = fn (a int, b int) int { a + b };" .prelude
    obtain ⟨t, h⟩ := isOk_iff.mp (by decide +kernel :
      (tokenize "let f = fn (a int, b int) int { a + b };" >>= parse >>= fun m =>
        m.pack.infer .prelude).isOk = true)
    obtain ⟨m, hm, hi⟩ := bind_eq_ok.mp h
    obtain ⟨tokens, hl, hp⟩ := bind_eq_ok.mp hm
    obtain ⟨u, -, hc⟩ := hgather tokens m t hl hp hi
    exact ⟨u, hc⟩

end LetLang
