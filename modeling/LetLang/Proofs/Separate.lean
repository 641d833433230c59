import LetLang.Proofs.Compile
import LetLang.Proofs.Moving.Checker
import LetLang.Proofs.Moving.Gathering
import LetLang.Proofs.Moving.Grammar
import LetLang.Proofs.Moving.Packing
import LetLang.Proofs.Syntax.Grammatical
import LetLang.Proofs.Token.Joining
import LetLang.Proofs.Typing.Soundness

/-!
# Separate compilation

A source can be compiled behind another: in the scope that the declarations of
the first leave behind, it gives just what the two sources give together, one
behind the other with a newline between them. Only its places are those of a
text that starts at the top.
-/

namespace LetLang

def Typed.Module.bindings (m : Typed.Module) : List (String × Ty) :=
  m.decls.map fun d => (d.name, d.ty)

-- ---------------------------------------------------------------------------
-- Stage by stage
-- ---------------------------------------------------------------------------

theorem parse_joined (hl : tokenize source = .ok ts) (hl' : tokenize other = .ok us)
    (hp : parse ts = .ok m) (hp' : parse us = .ok n) :
    ∃ vs, tokenize (source ++ "\n" ++ other) = .ok vs ∧
      parse vs = .ok ⟨m.decls ++ (n.moved (.below source)).decls⟩ := by
  obtain ⟨front, back, p, q, rfl, rfl, hne, hvs⟩ := tokenize_joined hl hl'
  obtain ⟨hfront, hback⟩ := List.forall_mem_append.mp hne
  have hd := derived_of_parse hp
  have hd' := derived_of_parse hp'
  rw [programTokens_ended hfront] at hd
  rw [programTokens_ended hback] at hd'
  have hmoved : ∀ t ∈ front ++ back.map (·.moved (.below source)), t.kind ≠ .eof :=
    List.forall_mem_append.mpr ⟨hfront, List.forall_mem_map.mpr hback⟩
  have hboth := Decl.DerivedAll.append hd (Decl.DerivedAll.moved (f := .below source) hd')
  rw [← programTokens_ended hmoved (q.below source)] at hboth
  exact ⟨_, hvs, Module.Derived.parse_eq hboth⟩

theorem inferAll_append (h : Decl.inferAll ds scope = .ok ts) (es : List Decl) :
    ∃ behind, (scope.bindAll (ts.map fun d => (d.name, d.ty))).Alike behind ∧
      Decl.inferAll (ds ++ es) scope = (do return ts ++ (← Decl.inferAll es behind)) := by
  induction ds generalizing scope ts with
  | nil =>
    cases h
    exact ⟨scope, fun _ _ => rfl, by simp⟩
  | cons d ds ih =>
    obtain ⟨t, after, rest, hd, hr, rfl⟩ := declsInferAll_cons_ok.mp h
    obtain ⟨behind, ha, he⟩ := ih hr
    obtain ⟨-, -, hafter⟩ := inferDecl_typed d hd
    refine ⟨behind, ?_, ?_⟩
    · intro name hn
      rw [← ha name hn]
      exact (hafter.bindAll (rest.map fun d => (d.name, d.ty)) name hn).symm
    · simp only [List.cons_append, Decl.inferAll, hd, he, ok_bind, bind_assoc, pure_bind]

theorem gather_binding (h : Typed.Decl.gather d = .ok u) : (u.name, u.ty) = (d.name, d.ty) := by
  obtain ⟨name, declared, ty, value, position⟩ := d
  obtain ⟨v, -, hu⟩ := bind_eq_ok.mp h
  cases hu
  rfl

theorem declsGather_bindings {ds us : List Typed.Decl} (h : ds.mapM Typed.Decl.gather = .ok us) :
    (us.map fun d => (d.name, d.ty)) = ds.map fun d => (d.name, d.ty) := by
  induction ds generalizing us with
  | nil =>
    cases h
    rfl
  | cons d ds ih =>
    rw [List.mapM_cons] at h
    obtain ⟨u, hu, h⟩ := bind_eq_ok.mp h
    obtain ⟨rest, hr, h⟩ := bind_eq_ok.mp h
    cases h
    rw [List.map_cons, List.map_cons, ih hr, gather_binding hu]

-- ---------------------------------------------------------------------------
-- Two sources
-- ---------------------------------------------------------------------------

theorem compile_follows (h : compile source scope = .ok first) (hl : tokenize other = .ok us)
    (hp : parse us = .ok n) :
    Follows (.below source)
      (fun second both => both = ⟨first.decls ++ (second.moved (.below source)).decls⟩)
      (compile other (scope.push.bindAll first.bindings))
      (compile (source ++ "\n" ++ other) scope) := by
  obtain ⟨ts, m, ds, hl', hp', hd, hg⟩ := compile_ok h
  obtain ⟨vs, hvs, hboth⟩ := parse_joined hl' hl hp' hp
  have hb : first.bindings = ds.map fun d => (d.name, d.ty) := declsGather_bindings hg
  rw [compile_of_parse hl hp, compile_of_parse hvs hboth, hb]
  generalize Position.below source = f
  obtain ⟨behind, ha, he⟩ := inferAll_append hd (n.pack.decls.map (·.moved f))
  have hpack : (Module.pack ⟨m.decls ++ (n.moved f).decls⟩).decls =
      m.pack.decls ++ n.pack.decls.map (·.moved f) := by
    simp [Module.pack, Module.moved, Decl.pack_moved, Function.comp_def]
  simp only [Module.infer, Typed.Module.gather, hpack, he, bind_assoc, pure_bind]
  -- By itself the second source has a frame of its own inside that of the first.
  have hscope : (scope.push.bindAll (ds.map fun d => (d.name, d.ty))).push.Alike behind := by
    intro name hn
    rw [Scope.lookup_push, ha name hn]
  refine (declsInferAll_moved n.pack.decls hscope).bind ?_
  rintro ts _ rfl
  rw [List.mapM_append, hg, ok_bind, bind_assoc]
  refine (Typed.declsGather_moved ts).bind ?_
  rintro us _ rfl
  exact .ok rfl

/-- Two sources with a newline between them compile to the declarations of both,
if the second compiles in the scope of the first with a frame for what the first
declares. If the types of the second are wrong there, the two are rejected with
the same diagnostic. The second source is further down by the rows of the first. -/
theorem compile_separate (h : compile source scope = .ok first) (other : String) :
    (∀ second, compile other (scope.push.bindAll first.bindings) = .ok second →
      compile (source ++ "\n" ++ other) scope =
        .ok ⟨first.decls ++ (second.moved (.below source)).decls⟩) ∧
    (∀ d, compile other (scope.push.bindAll first.bindings) = .error d → d.stage = .typing →
      compile (source ++ "\n" ++ other) scope = .error (d.moved (.below source))) := by
  constructor
  · intro second hs
    obtain ⟨us, n, -, hl, hp, -⟩ := compile_ok hs
    exact (compile_follows h hl hp).eq_ok hs
  · intro d hd hty
    rcases compile_error hd with ⟨hs, -⟩ | ⟨hs, -⟩ | ⟨-, us, n, hl, hp, -⟩
    · cases hty.symm.trans hs
    · cases hty.symm.trans hs
    · exact (compile_follows h hl hp).eq_error hd

theorem successor_separate : ∃ first second d,
    compile "let f = fn (n int) int { n + 1 }" .prelude = .ok first ∧
    compile "let x = f(1)" (Scope.prelude.push.bindAll first.bindings) = .ok second ∧
    compile "let x = f(true)" (Scope.prelude.push.bindAll first.bindings) = .error d ∧
    d.stage = .typing ∧
    compile ("let f = fn (n int) int { n + 1 }" ++ "\n" ++ "let x = f(1)") .prelude =
      .ok ⟨first.decls ++
        (second.moved (.below "let f = fn (n int) int { n + 1 }")).decls⟩ ∧
    compile ("let f = fn (n int) int { n + 1 }" ++ "\n" ++ "let x = f(true)") .prelude =
      .error (d.moved (.below "let f = fn (n int) int { n + 1 }")) := by
  obtain ⟨first, hf⟩ := isOk_iff.mp
    (by decide +kernel : (compile "let f = fn (n int) int { n + 1 }" .prelude).isOk = true)
  have hs : (compile "let f = fn (n int) int { n + 1 }" .prelude >>= fun m =>
      compile "let x = f(1)" (Scope.prelude.push.bindAll m.bindings)).isOk = true := by
    decide +kernel
  have hd : (compile "let f = fn (n int) int { n + 1 }" .prelude >>= fun m =>
      match compile "let x = f(true)" (Scope.prelude.push.bindAll m.bindings) with
      | .error d => ensure (d.stage = .typing) d.cause d.position
      | .ok _ => reject .bareEmptyList .start).isOk = true := by
    decide +kernel
  rw [hf, ok_bind] at hs hd
  obtain ⟨second, hs⟩ := isOk_iff.mp hs
  have hboth := (compile_separate hf "let x = f(1)").1 second hs
  cases he : compile "let x = f(true)" (Scope.prelude.push.bindAll first.bindings) with
  | ok t =>
    rw [he] at hd
    cases hd
  | error d =>
    rw [he] at hd
    obtain ⟨_, hd⟩ := isOk_iff.mp hd
    have hty : d.stage = .typing := by simpa using ensure_eq_ok.mp hd
    have hwrong := (compile_separate hf "let x = f(true)").2 d he hty
    exact ⟨first, second, d, hf, hs, he, hty, hboth, hwrong⟩

end LetLang
