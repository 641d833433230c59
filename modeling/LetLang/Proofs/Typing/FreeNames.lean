import LetLang.Proofs.Compile
import LetLang.Proofs.Typing.Resolution
import LetLang.Proofs.Typing.Steps

/-!
# Free names

The checker looks up the free names of a program and no other. Two scopes that
resolve these alike, whatever else they bind and in whichever frames, make it
give the same typed tree or the same diagnostic.

A program that is accepted has all its free names resolved. So a source that
compiles where nothing is bound has none, and compiles alike everywhere.
-/

namespace LetLang

-- ---------------------------------------------------------------------------
-- The free names of a program
-- ---------------------------------------------------------------------------

def hide (bound names : List String) : List String := names.filter (· ∉ bound)

@[simp] theorem mem_hide : name ∈ hide bound names ↔ name ∈ names ∧ name ∉ bound := by
  simp [hide]

theorem hide_hide (bound names : List String) :
    hide bound (hide bound names) = hide bound names := by
  simp [hide]

/-- What the value of a declaration sees of the declaration: a function may
refer to itself. -/
def Expr.seesItself (value : Expr) (name : String) : List String :=
  match value with
  | .func .. => [name]
  | _ => []

mutual
/-- The names that an expression takes from around it. -/
def Expr.freeNames : Expr → List String
  | .literal .. => []
  | .ident name _ => [name]
  | .tuple items _ | .list items _ => Expr.allFreeNames items
  | .func params _ body _ => hide (params.map (·.name)) body.freeNames
  | .call callee args _ _ => callee.freeNames ++ Expr.allFreeNames args
  | .block body => body.freeNames
  | .index target index _ => target.freeNames ++ index.freeNames
  | .cond test thenBlock elseBlock _ =>
    test.freeNames ++ (thenBlock.freeNames ++ elseBlock.freeNames)
  | .loop binder iterable body _ => iterable.freeNames ++ hide [binder] body.freeNames
  | .unary _ operand _ => operand.freeNames
  | .binary _ left right _ => left.freeNames ++ right.freeNames
def Expr.allFreeNames : List Expr → List String
  | [] => []
  | e :: es => e.freeNames ++ Expr.allFreeNames es
def Decl.freeNames : Decl → List String
  | ⟨name, _, value, _⟩ => hide (value.seesItself name) value.freeNames
def Stmt.allFreeNames : List Stmt → List String
  | [] => []
  | .decl d :: ss => d.freeNames ++ hide [d.name] (Stmt.allFreeNames ss)
  | .expr e :: ss => e.freeNames ++ Stmt.allFreeNames ss
def Block.freeNames : Block → List String
  | ⟨stmts, _, _⟩ => Stmt.allFreeNames stmts
end

def Module.freeNames (m : Module) : List String := Stmt.allFreeNames (m.decls.map .decl)

-- ---------------------------------------------------------------------------
-- Scopes that resolve some names alike
-- ---------------------------------------------------------------------------

namespace Scope

abbrev AlikeIn (s : Scope) (names : List String) (s' : Scope) : Prop := s.AlikeOn (· ∈ names) s'

theorem AlikeIn.left {s s' : Scope} (h : s.AlikeIn (xs ++ ys) s') : s.AlikeIn xs s' :=
  fun name hm => h name (List.mem_append_left _ hm)

theorem AlikeIn.right {s s' : Scope} (h : s.AlikeIn (xs ++ ys) s') : s.AlikeIn ys s' :=
  fun name hm => h name (List.mem_append_right _ hm)

theorem AlikeIn.bind {s s' : Scope} (h : s.AlikeIn (hide [name] names) s') (ty : Ty) :
    (s.bind name ty).AlikeIn names (s'.bind name ty) := by
  intro other hm
  rw [lookup_bind, lookup_bind]
  split
  · rfl
  · next hn => exact h other (mem_hide.mpr ⟨hm, by simpa using hn⟩)

def Resolves (s : Scope) (names : List String) : Prop := ∀ name ∈ names, s.lookup name ≠ none

theorem Resolves.append {s : Scope} (hx : s.Resolves xs) (hy : s.Resolves ys) :
    s.Resolves (xs ++ ys) :=
  List.forall_mem_append.mpr ⟨hx, hy⟩

theorem Resolves.of_push {s : Scope} (h : s.push.Resolves names) : s.Resolves names := by
  intro name hm
  rw [← lookup_push]
  exact h name hm

theorem Resolves.of_bind {s : Scope} (h : (s.bind name ty).Resolves names) :
    s.Resolves (hide [name] names) := by
  intro other hm
  obtain ⟨hm, hn⟩ := mem_hide.mp hm
  have h := h other hm
  rwa [lookup_bind, if_neg fun he => hn (List.mem_singleton.mpr he)] at h

theorem Resolves.empty (h : empty.Resolves names) : names = [] :=
  List.eq_nil_iff_forall_not_mem.mpr fun name hm => h name hm rfl

end Scope

-- ---------------------------------------------------------------------------
-- The checker
-- ---------------------------------------------------------------------------

theorem valueScope_alike (d : Decl) (hv : s.AlikeIn d.freeNames s')
    (hn : s.AlikeIn (hide [d.name] names) s') :
    Agree (fun inner inner' => inner.AlikeIn d.value.freeNames inner' ∧
      inner.AlikeIn (hide [d.name] names) inner') (d.valueScope s) (d.valueScope s') := by
  obtain ⟨name, declared, value, position⟩ := d
  cases value with
  | func params returns body place =>
    simp only [Decl.valueScope]
    cases signature params returns place with
    | error => exact .error
    | ok r => exact .ok ⟨hv.bind _, Scope.AlikeOn.bind hn _ _⟩
  | _ =>
    refine .ok ⟨fun other hm => hv other ?_, hn⟩
    simpa [Decl.freeNames, Expr.seesItself] using hm

mutual
/-- The checker types an expression alike in scopes that resolve its free names alike. -/
theorem infer_alike : (e : Expr) → s.AlikeIn e.freeNames s' →
    ∀ hint, e.infer s hint = e.infer s' hint
  | .literal .., _, _ => rfl
  | .ident name _, h, _ => by
    simp only [Expr.infer, h name (List.mem_singleton.mpr rfl)]
  | .tuple items _, h, _ => by
    simp only [Expr.infer, inferItems_alike items h]
  | .list [] _, _, _ => rfl
  | .list (first :: rest) _, h, _ => by
    simp only [Expr.infer, infer_alike first h.left, anchorTy_alike rest h.right,
      checkItems_alike rest h.right, checkItems_alike (first :: rest) h]
  | .func params returns body position, h, _ => by
    simp only [Expr.infer]
    refine bind_congr_ok fun r hs => ?_
    obtain ⟨param, ret, rfl, rfl, rfl⟩ := signature_ok.mp hs
    simp only [inferBlock_alike body (Scope.AlikeIn.bind (Scope.AlikeOn.push h) _)]
  | .call callee args _ _, h, _ => by
    simp only [Expr.infer, infer_alike callee h.left]
    match args with
    | [] | _ :: _ :: _ => rfl
    | [arg] => simp only [infer_alike arg h.right.left]
  | .block body, h, _ => by
    simp only [Expr.infer, inferBlock_alike body h]
  | .index target index _, h, _ => by
    simp only [Expr.infer, infer_alike target h.left, infer_alike index h.right]
  | .cond test thenBlock elseBlock _, h, _ => by
    simp only [Expr.infer, infer_alike test h.left, inferBlock_alike thenBlock h.right.left,
      inferBlock_alike elseBlock h.right.right]
  | .loop binder iterable body _, h, _ => by
    simp only [Expr.infer, infer_alike iterable h.left,
      inferBlock_alike body (Scope.AlikeIn.bind (Scope.AlikeOn.push h.right) _)]
  | .unary _ operand _, h, _ => by
    simp only [Expr.infer, infer_alike operand h]
  | .binary _ left right _, h, _ => by
    simp only [Expr.infer, infer_alike left h.left, infer_alike right h.right]
termination_by structural e => e

theorem inferItems_alike : (es : List Expr) → s.AlikeIn (Expr.allFreeNames es) s' →
    ∀ hints, Expr.inferItems es s hints = Expr.inferItems es s' hints
  | [], _, _ => rfl
  | e :: es, h, _ => by
    simp only [Expr.inferItems, infer_alike e h.left, inferItems_alike es h.right]

theorem checkItems_alike : (es : List Expr) → s.AlikeIn (Expr.allFreeNames es) s' →
    ∀ item, Expr.checkItems es s item = Expr.checkItems es s' item
  | [], _, _ => rfl
  | e :: es, h, _ => by
    simp only [Expr.checkItems, infer_alike e h.left, checkItems_alike es h.right]

theorem anchorTy_alike : (es : List Expr) → s.AlikeIn (Expr.allFreeNames es) s' →
    Expr.anchorTy es s = Expr.anchorTy es s'
  | [], _ => rfl
  | e :: es, h => by
    simp only [Expr.anchorTy, infer_alike e h.left, anchorTy_alike es h.right]

theorem inferDecl_alike : (d : Decl) → s.AlikeIn d.freeNames s' →
    s.AlikeIn (hide [d.name] names) s' →
    Agree (fun r r' => r.1 = r'.1 ∧ r.2.AlikeIn names r'.2) (d.infer s) (d.infer s')
  | ⟨name, declared, value, position⟩, hv, hn => by
    simp only [Decl.infer]
    refine (valueScope_alike ⟨name, declared, value, position⟩ hv hn).bind ?_
    rintro inner inner' ⟨hin, hbehind⟩
    simp only [infer_alike value hin]
    cases declared with
    | some written =>
      refine .after fun _ => .after fun t => .after fun _ => .ok ⟨rfl, hbehind.bind _⟩
    | none => exact .after fun t => .after fun _ => .ok ⟨rfl, hbehind.bind _⟩

theorem inferAll_alike : (ss : List Stmt) → s.AlikeIn (Stmt.allFreeNames ss) s' →
    ∀ hint, Stmt.inferAll ss s hint = Stmt.inferAll ss s' hint
  | [], _, _ => rfl
  | .decl d :: ss, h, hint => by
    simp only [Stmt.inferAll, Stmt.infer, bind_assoc, pure_bind]
    refine (inferDecl_alike d h.left h.right).bind_eq ?_
    rintro ⟨t, behind⟩ ⟨_, behind'⟩ ⟨rfl, hb⟩
    simp only [inferAll_alike ss hb]
  | .expr e :: ss, h, _ => by
    simp only [Stmt.inferAll, Stmt.infer, bind_assoc, pure_bind, infer_alike e h.left,
      inferAll_alike ss h.right]

theorem inferBlock_alike : (b : Block) → s.AlikeIn b.freeNames s' →
    ∀ hint, b.infer s hint = b.infer s' hint
  | ⟨stmts, _, _⟩, h, _ => by
    simp only [Block.infer, inferAll_alike stmts (Scope.AlikeOn.push h)]
end

theorem declsInferAll_alike (ds : List Decl) (h : s.AlikeIn (Stmt.allFreeNames (ds.map .decl)) s') :
    Decl.inferAll ds s = Decl.inferAll ds s' := by
  induction ds generalizing s s' with
  | nil => rfl
  | cons d ds ih =>
    refine (inferDecl_alike d h.left h.right).bind_eq ?_
    rintro ⟨t, behind⟩ ⟨_, behind'⟩ ⟨rfl, hb⟩
    simp only [ih hb]

-- ---------------------------------------------------------------------------
-- What an accepted program resolves
-- ---------------------------------------------------------------------------

theorem resolves_of_valueScope {d : Decl} {scope inner : Scope}
    (h : d.valueScope scope = .ok inner) (hr : inner.Resolves d.value.freeNames) :
    scope.Resolves d.freeNames := by
  obtain ⟨name, declared, value, position⟩ := d
  rcases valueScope_ok.mp h with ⟨params, returns, body, place, param, ret, rfl, -, rfl⟩ | ⟨hn, rfl⟩
  · exact Scope.Resolves.of_bind hr
  · intro other hm
    exact hr other (mem_hide.mp hm).1

mutual
/-- All free names of an expression that is typed are resolved. -/
theorem infer_resolves : (e : Expr) → e.infer s hint = .ok t → s.Resolves e.freeNames
  | .literal .., _ => nofun
  | .ident name _, h => by
    obtain ⟨ty, hl, -⟩ := infer_ident_ok.mp h
    simp [Scope.Resolves, Expr.freeNames, hl]
  | .tuple items _, h => by
    obtain ⟨ts, hi, -⟩ := infer_tuple_ok.mp h
    exact inferItems_resolve items hi
  | .list [] _, _ => nofun
  | .list (first :: rest) _, h => by
    rcases infer_list_ok.mp h with ⟨item, ts, -, -, -, hc, -⟩ | ⟨-, head, tail, hh, hc, -⟩
    · exact checkItems_resolve (first :: rest) hc
    · exact (infer_resolves first hh).append (checkItems_resolve rest hc)
  | .func params returns body _, h => by
    obtain ⟨param, ret, ts, hs, hb, -, -⟩ := infer_func_ok.mp h
    obtain ⟨param, ret, rfl, rfl, ⟨⟩⟩ := signature_ok.mp hs
    exact (inferBlock_resolves body hb).of_bind.of_push
  | .call _ [] _ _, h | .call _ (_ :: _ :: _) _ _, h => by
    obtain ⟨_, _, _, _, _, ⟨⟩, -⟩ := infer_call_ok.mp h
  | .call callee [arg] _ _, h => by
    obtain ⟨_, f, a, param, ret, ⟨⟩, hf, -, ha, -⟩ := infer_call_ok.mp h
    exact (infer_resolves callee hf).append ((infer_resolves arg ha).append nofun)
  | .block body, h => by
    obtain ⟨ts, hb, -⟩ := infer_block_ok.mp h
    exact inferBlock_resolves body hb
  | .index target index _, h => by
    obtain ⟨ts, ht, ⟨_, _, _, _, -, rfl, -⟩ | ⟨_, i, -, hi, -⟩⟩ := infer_index_ok.mp h
    · exact (infer_resolves target ht).append nofun
    · exact (infer_resolves target ht).append (infer_resolves index hi)
  | .cond test thenBlock elseBlock _, h => by
    obtain ⟨c, yes, no, hc, -, hb, -, -⟩ := infer_cond_ok.mp h
    refine (infer_resolves test hc).append ?_
    rcases hb with ⟨-, hn, hy⟩ | ⟨-, hy, hn⟩
    · exact (inferBlock_resolves thenBlock hy).append (inferBlock_resolves elseBlock hn)
    · exact (inferBlock_resolves thenBlock hy).append (inferBlock_resolves elseBlock hn)
  | .loop binder iterable body _, h => by
    obtain ⟨items, item, ts, hi, -, hb, -⟩ := infer_loop_ok.mp h
    exact (infer_resolves iterable hi).append (inferBlock_resolves body hb).of_bind.of_push
  | .unary _ operand _, h => by
    obtain ⟨ts, ho, -⟩ := infer_unary_ok.mp h
    exact infer_resolves operand ho
  | .binary _ left right _, h => by
    obtain ⟨l, r, ⟨-, hr, hl⟩ | ⟨-, hl, hr⟩, -⟩ := infer_binary_ok.mp h
    · exact (infer_resolves left hl).append (infer_resolves right hr)
    · exact (infer_resolves left hl).append (infer_resolves right hr)
termination_by structural e => e

theorem inferItems_resolve : (es : List Expr) → Expr.inferItems es s hints = .ok ts →
    s.Resolves (Expr.allFreeNames es)
  | [], _ => nofun
  | e :: es, h => by
    obtain ⟨t, rest, ht, hr, -⟩ := inferItems_cons_ok.mp h
    exact (infer_resolves e ht).append (inferItems_resolve es hr)

theorem checkItems_resolve : (es : List Expr) → Expr.checkItems es s item = .ok ts →
    s.Resolves (Expr.allFreeNames es)
  | [], _ => nofun
  | e :: es, h => by
    obtain ⟨t, rest, ht, -, hr, -⟩ := checkItems_cons_ok.mp h
    exact (infer_resolves e ht).append (checkItems_resolve es hr)

theorem inferDecl_resolves : (d : Decl) → d.infer s = .ok (t, behind) →
    s.Resolves d.freeNames ∧ (behind.Resolves names → s.Resolves (hide [d.name] names))
  | ⟨name, declared, value, position⟩, h => by
    obtain ⟨inner, t, ty, hs, hi, -, -, -, he⟩ := infer_decl_ok.mp h
    cases he
    refine ⟨resolves_of_valueScope hs (infer_resolves value hi), fun hb => ?_⟩
    rcases valueScope_ok.mp hs with ⟨_, _, _, _, _, _, -, -, rfl⟩ | ⟨-, rfl⟩
    · rw [← hide_hide]
      exact hb.of_bind.of_bind
    · exact hb.of_bind

theorem inferAll_resolve : (ss : List Stmt) → Stmt.inferAll ss s hint = .ok ts →
    s.Resolves (Stmt.allFreeNames ss)
  | [], _ => nofun
  | .decl d :: ss, h => by
    obtain ⟨t, behind, rest, hd, hr, -⟩ := inferAll_cons_ok.mp h
    obtain ⟨_, _, hd, ⟨⟩⟩ := infer_declStmt_ok.mp hd
    obtain ⟨hf, hb⟩ := inferDecl_resolves d hd
    exact hf.append (hb (inferAll_resolve ss hr))
  | .expr e :: ss, h => by
    obtain ⟨t, behind, rest, hs, hr, -⟩ := inferAll_cons_ok.mp h
    obtain ⟨_, he, ⟨⟩⟩ := infer_exprStmt_ok.mp hs
    exact (infer_resolves e he).append (inferAll_resolve ss hr)

theorem inferBlock_resolves : (b : Block) → b.infer s hint = .ok t → s.Resolves b.freeNames
  | ⟨stmts, _, _⟩, h => by
    obtain ⟨ts, hs, -⟩ := inferBlock_ok.mp h
    exact (inferAll_resolve stmts hs).of_push
end

theorem declsInferAll_resolve (ds : List Decl) (h : Decl.inferAll ds s = .ok ts) :
    s.Resolves (Stmt.allFreeNames (ds.map .decl)) := by
  induction ds generalizing s ts with
  | nil => exact nofun
  | cons d ds ih =>
    obtain ⟨t, behind, rest, hd, hr, -⟩ := declsInferAll_cons_ok.mp h
    obtain ⟨hf, hb⟩ := inferDecl_resolves d hd
    exact hf.append (hb (ih hr))

-- ---------------------------------------------------------------------------
-- Only the free names matter
-- ---------------------------------------------------------------------------

theorem compile_of_empty (h : compile source .empty = .ok u) (scope : Scope) :
    compile source scope = .ok u := by
  obtain ⟨tokens, m, ds, hl, hp, hd, -⟩ := compile_ok h
  have hr := (declsInferAll_resolve m.pack.decls hd).of_push
  have hn : Stmt.allFreeNames (m.pack.decls.map .decl) = [] := hr.empty
  have ha : Scope.empty.push.AlikeIn (Stmt.allFreeNames (m.pack.decls.map .decl)) scope.push := by
    rw [hn]
    nofun
  have hi : m.pack.infer .empty = m.pack.infer scope := by
    simp only [Module.infer, declsInferAll_alike m.pack.decls ha]
  rw [← h, compile_of_parse hl hp, compile_of_parse hl hp, hi]

/-- The checker depends on a scope only through what the free names of the
program resolve to there, whatever the program is typed against. -/
theorem typing_by_freeNames :
    (∀ (e : Expr) (s s' : Scope), (∀ name ∈ e.freeNames, s.lookup name = s'.lookup name) →
      (∀ hint, e.infer s hint = e.infer s' hint) ∧
        ∀ expected, e.check s expected = e.check s' expected) ∧
    (∀ (b : Block) (s s' : Scope), (∀ name ∈ b.freeNames, s.lookup name = s'.lookup name) →
      ∀ hint, b.infer s hint = b.infer s' hint) ∧
    (∀ (m : Module) (s s' : Scope), (∀ name ∈ m.freeNames, s.lookup name = s'.lookup name) →
      m.infer s = m.infer s') ∧
    (∀ source u, compile source .empty = .ok u → ∀ scope, compile source scope = .ok u) := by
  refine ⟨fun e s s' h => ?_, fun b s s' h => inferBlock_alike b h, fun m s s' h => ?_,
    fun source u h => compile_of_empty h⟩
  · have hi := infer_alike e h
    refine ⟨hi, fun expected => ?_⟩
    simp only [Expr.check, hi]
  · have ha : s.AlikeIn (Stmt.allFreeNames (m.decls.map .decl)) s' := h
    simp only [Module.infer, declsInferAll_alike m.decls (Scope.AlikeOn.push ha)]

/-- A function that calls another: `fn (n int) int { f(n) }`. -/
def Expr.delegate : Expr :=
  .func [⟨"n", ⟨.int, .start⟩, .start⟩] [⟨.int, .start⟩]
    ⟨[.expr (.call (.ident "f" .start) [.ident "n" .start] .start .start)], false, .start⟩ .start

theorem delegate_by_freeNames :
    Expr.delegate.infer (.ofBindings [("f", .func .int .int)]) none =
      Expr.delegate.infer (Scope.ofBindings [("f", .func .int .int), ("n", .str)]).push none ∧
    Expr.delegate.check (.ofBindings [("f", .func .int .int)]) (.func .int .int) =
      Expr.delegate.check (Scope.ofBindings [("f", .func .int .int), ("n", .str)]).push
        (.func .int .int) ∧
    (Block.mk [.expr .delegate] false .start).infer (.ofBindings [("f", .func .int .int)]) none =
      (Block.mk [.expr .delegate] false .start).infer
        (Scope.ofBindings [("f", .func .int .int), ("n", .str)]).push none ∧
    (Module.mk [⟨"g", none, .delegate, .start⟩]).infer (.ofBindings [("f", .func .int .int)]) =
      (Module.mk [⟨"g", none, .delegate, .start⟩]).infer
        (Scope.ofBindings [("f", .func .int .int), ("n", .str)]).push ∧
    ∃ u, compile "let g = fn (n int) int { g(n) }" .empty = .ok u ∧
      compile "let g = fn (n int) int { g(n) }" .prelude = .ok u := by
  obtain ⟨he, hb, hm, hc⟩ := typing_by_freeNames
  obtain ⟨hi, hx⟩ := he .delegate (.ofBindings [("f", .func .int .int)])
    (Scope.ofBindings [("f", .func .int .int), ("n", .str)]).push (by decide +kernel)
  refine ⟨hi none, hx _, hb _ _ _ (by decide +kernel) none, hm _ _ _ (by decide +kernel), ?_⟩
  obtain ⟨u, hu⟩ := isOk_iff.mp
    (by decide +kernel : (compile "let g = fn (n int) int { g(n) }" .empty).isOk = true)
  exact ⟨u, hu, hc _ u hu _⟩

end LetLang
