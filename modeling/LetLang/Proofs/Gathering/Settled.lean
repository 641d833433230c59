import LetLang.Proofs.Gathering.Faults

/-!
# Gathering twice

A settled module holds no written type, and none of its functions with a pack
starts with a declaration that takes a place. Gathering gives settled modules,
and it changes none of them. So a second run gives what the first one gave.

This holds for every typed tree. A function may have a pack and no prologue, a
declaration that takes a place may stand behind another statement, and statements
may destructure already: gathering leaves all of these where they are.
-/

namespace LetLang.Typed

/-- Whether gathering has nothing left to do at a function or declaration. -/
def Site.Settled : Site → Prop
  | .func param body => param = packName → Prologue [] body.stmts
  | .decl d => d.declared = none

def Module.Settled (m : Module) : Prop := ∀ s ∈ m.sites, s.Settled

-- ---------------------------------------------------------------------------
-- The start of a body
-- ---------------------------------------------------------------------------

theorem allSites_append (before after : List Stmt) :
    Stmt.allSites (before ++ after) = Stmt.allSites before ++ Stmt.allSites after := by
  induction before with
  | nil => rfl
  | cons s ss ih => simp only [List.cons_append, Stmt.allSites, ih, List.append_assoc]

theorem sites_of_ident {e : Expr} (h : e.kind = .ident name) : e.sites = [] := by
  obtain ⟨kind, ty, position⟩ := e
  obtain rfl : kind = .ident name := h
  rfl

theorem splitUnpackings_suffix (stmts : List Stmt) : (splitUnpackings stmts).2 <:+ stmts := by
  induction stmts with
  | nil => exact List.suffix_rfl
  | cons s ss ih =>
    simp only [splitUnpackings]
    split
    · exact ih.trans (List.suffix_cons s ss)
    · exact List.suffix_rfl

theorem splitUnpackings_first (h : splitUnpackings stmts = (first :: more, rest)) :
    first.pack.kind = .ident packName := by
  cases stmts with
  | nil => cases h
  | cons s ss =>
    simp only [splitUnpackings] at h
    split at h
    · next u hu =>
      cases h
      exact (Stmt.takes_of_unpacking? hu).1
    · cases h

theorem gatherRun_source (first : Unpacking) (more : List Unpacking) :
    Gives (fun d => d.source = first.pack) (gatherRun first more) := by
  unfold gatherRun
  exact .after fun _ => .after fun _ => .ok rfl

/-- The statement that stands for a prologue holds no function or declaration, and
no prologue is left behind it. -/
theorem gatherPrologue_settles {body : Block} (h : ∀ s ∈ body.sites, s.Settled) :
    Gives (fun b => Prologue [] b.stmts ∧ ∀ s ∈ b.sites, s.Settled) body.gatherPrologue := by
  obtain ⟨stmts, returnsVoid, ty, position⟩ := body
  unfold Block.gatherPrologue
  split
  · next rest hs =>
    refine .ok ⟨prologue_iff.mpr ?_, h⟩
    rw [hs]
    rfl
  · next first more rest hs =>
    refine (gatherRun_source first more).bind ?_
    rintro ⟨source, bindings, place⟩ (rfl : source = first.pack)
    refine .ok ⟨.stop ?_, ?_⟩
    · rintro _ ⟨⟩ packed place ⟨⟩
    · -- The source is a name, so all sites are behind the new statement.
      obtain ⟨front, hfront⟩ := splitUnpackings_suffix stmts
      dsimp only at hs
      rw [hs] at hfront
      intro s hm
      refine h s ?_
      rw [Block.sites, ← hfront, allSites_append]
      rw [Block.sites, Stmt.allSites, Stmt.sites, Destructure.sites,
        sites_of_ident (splitUnpackings_first hs)] at hm
      exact List.mem_append_right _ hm

theorem gatherPrologue_of_stop {body : Block} (h : Prologue [] body.stmts) :
    body.gatherPrologue = .ok body := by
  have hnone := List.map_eq_nil_iff.mp (prologue_iff.mp h).symm
  unfold Block.gatherPrologue
  split
  · rfl
  · next hs =>
    rw [hs] at hnone
    cases hnone

-- ---------------------------------------------------------------------------
-- Gathered trees are settled
-- ---------------------------------------------------------------------------

mutual
theorem gather_settles : (e : Expr) → Gives (fun u => ∀ s ∈ u.sites, s.Settled) e.gather
  | ⟨kind, _, _⟩ => (gatherKind_settles kind).bind fun _ h => .ok h
theorem gatherKind_settles : (kind : ExprKind) →
    Gives (fun k => ∀ s ∈ k.sites, s.Settled) kind.gather
  | .literal _ | .ident _ => .ok nofun
  | .tuple items | .list items => (gatherAll_settles items).bind fun _ h => .ok h
  | .func param paramTy returnTy body => by
    simp only [ExprKind.gather]
    refine (gatherBlock_settles body).bind fun b hb => ?_
    split
    · refine (gatherPrologue_settles hb).bind fun b' h => .ok ?_
      exact List.forall_mem_cons.mpr ⟨fun _ => h.1, h.2⟩
    · next hparam => exact .ok (List.forall_mem_cons.mpr ⟨fun h => absurd h hparam, hb⟩)
  | .call callee arg => by
    simp only [ExprKind.gather]
    refine (gather_settles callee).bind fun _ hc => (gather_settles arg).bind fun _ ha => .ok ?_
    exact List.forall_mem_append.mpr ⟨hc, ha⟩
  | .block body => (gatherBlock_settles body).bind fun _ h => .ok h
  | .index target index => by
    simp only [ExprKind.gather]
    refine (gather_settles target).bind fun _ ht => (gather_settles index).bind fun _ hi => .ok ?_
    exact List.forall_mem_append.mpr ⟨ht, hi⟩
  | .cond test thenBlock elseBlock => by
    simp only [ExprKind.gather]
    refine (gather_settles test).bind fun _ ht => ?_
    refine (gatherBlock_settles thenBlock).bind fun _ hy => ?_
    refine (gatherBlock_settles elseBlock).bind fun _ hn => .ok ?_
    exact List.forall_mem_append.mpr ⟨ht, List.forall_mem_append.mpr ⟨hy, hn⟩⟩
  | .loop _ iterable body => by
    simp only [ExprKind.gather]
    refine (gather_settles iterable).bind fun _ hi => ?_
    refine (gatherBlock_settles body).bind fun _ hb => .ok ?_
    exact List.forall_mem_append.mpr ⟨hi, hb⟩
  | .unary _ operand => (gather_settles operand).bind fun _ h => .ok h
  | .binary _ left right => by
    simp only [ExprKind.gather]
    refine (gather_settles left).bind fun _ hl => (gather_settles right).bind fun _ hr => .ok ?_
    exact List.forall_mem_append.mpr ⟨hl, hr⟩
theorem gatherAll_settles : (es : List Expr) →
    Gives (fun us => ∀ s ∈ Expr.allSites us, s.Settled) (Expr.gatherAll es)
  | [] => .ok nofun
  | e :: es => by
    simp only [Expr.gatherAll]
    refine (gather_settles e).bind fun _ h => (gatherAll_settles es).bind fun _ hs => .ok ?_
    exact List.forall_mem_append.mpr ⟨h, hs⟩
theorem gatherDecl_settles : (d : Decl) → Gives (fun u => ∀ s ∈ u.sites, s.Settled) d.gather
  | ⟨_, _, _, value, _⟩ => by
    simp only [Decl.gather]
    exact (gather_settles value).bind fun _ h => .ok (List.forall_mem_cons.mpr ⟨rfl, h⟩)
theorem gatherStmt_settles : (s : Stmt) → Gives (fun u => ∀ t ∈ u.sites, t.Settled) s.gather
  | .decl d => (gatherDecl_settles d).bind fun _ h => .ok h
  | .expr e => (gather_settles e).bind fun _ h => .ok h
  | .destructure ⟨source, _, _⟩ => by
    simp only [Stmt.gather, Destructure.gather, bind_assoc, pure_bind]
    exact (gather_settles source).bind fun _ h => .ok h
theorem gatherStmts_settles : (ss : List Stmt) →
    Gives (fun us => ∀ s ∈ Stmt.allSites us, s.Settled) (Stmt.gatherAll ss)
  | [] => .ok nofun
  | s :: ss => by
    simp only [Stmt.gatherAll]
    refine (gatherStmt_settles s).bind fun _ h => (gatherStmts_settles ss).bind fun _ hs => .ok ?_
    exact List.forall_mem_append.mpr ⟨h, hs⟩
theorem gatherBlock_settles : (b : Block) → Gives (fun u => ∀ s ∈ u.sites, s.Settled) b.gather
  | ⟨stmts, _, _, _⟩ => (gatherStmts_settles stmts).bind fun _ h => .ok h
end

theorem gatherDecls_settles (ds : List Decl) :
    Gives (fun us => ∀ s ∈ us.flatMap Decl.sites, s.Settled) (ds.mapM Decl.gather) := by
  induction ds with
  | nil => exact .ok nofun
  | cons d ds ih =>
    rw [List.mapM_cons]
    refine (gatherDecl_settles d).bind fun _ h => ih.bind fun _ hs => .ok ?_
    rw [List.flatMap_cons]
    exact List.forall_mem_append.mpr ⟨h, hs⟩

-- ---------------------------------------------------------------------------
-- Settled trees stay as they are
-- ---------------------------------------------------------------------------

mutual
theorem gather_of_settled : (e : Expr) → (∀ s ∈ e.sites, s.Settled) → e.gather = .ok e
  | ⟨kind, _, _⟩, h => by
    simp only [Expr.gather, gatherKind_of_settled kind h, ok_bind]
    rfl
theorem gatherKind_of_settled : (kind : ExprKind) → (∀ s ∈ kind.sites, s.Settled) →
    kind.gather = .ok kind
  | .literal _, _ | .ident _, _ => rfl
  | .tuple items, h | .list items, h => by
    simp only [ExprKind.gather, gatherAll_of_settled items h, ok_bind]
    rfl
  | .func param paramTy returnTy body, h => by
    obtain ⟨hparam, hbody⟩ := List.forall_mem_cons.mp h
    simp only [ExprKind.gather, gatherBlock_of_settled body hbody, ok_bind]
    split
    · next hname =>
      rw [gatherPrologue_of_stop (hparam hname)]
      rfl
    · rfl
  | .call callee arg, h => by
    obtain ⟨hc, ha⟩ := List.forall_mem_append.mp h
    simp only [ExprKind.gather, gather_of_settled callee hc, gather_of_settled arg ha, ok_bind]
    rfl
  | .block body, h => by
    simp only [ExprKind.gather, gatherBlock_of_settled body h, ok_bind]
    rfl
  | .index target index, h => by
    obtain ⟨ht, hi⟩ := List.forall_mem_append.mp h
    simp only [ExprKind.gather, gather_of_settled target ht, gather_of_settled index hi, ok_bind]
    rfl
  | .cond test thenBlock elseBlock, h => by
    obtain ⟨ht, hbranches⟩ := List.forall_mem_append.mp h
    obtain ⟨hy, hn⟩ := List.forall_mem_append.mp hbranches
    simp only [ExprKind.gather, gather_of_settled test ht, gatherBlock_of_settled thenBlock hy,
      gatherBlock_of_settled elseBlock hn, ok_bind]
    rfl
  | .loop _ iterable body, h => by
    obtain ⟨hi, hb⟩ := List.forall_mem_append.mp h
    simp only [ExprKind.gather, gather_of_settled iterable hi, gatherBlock_of_settled body hb,
      ok_bind]
    rfl
  | .unary _ operand, h => by
    simp only [ExprKind.gather, gather_of_settled operand h, ok_bind]
    rfl
  | .binary _ left right, h => by
    obtain ⟨hl, hr⟩ := List.forall_mem_append.mp h
    simp only [ExprKind.gather, gather_of_settled left hl, gather_of_settled right hr, ok_bind]
    rfl
theorem gatherAll_of_settled : (es : List Expr) → (∀ s ∈ Expr.allSites es, s.Settled) →
    Expr.gatherAll es = .ok es
  | [], _ => rfl
  | e :: es, h => by
    obtain ⟨he, hs⟩ := List.forall_mem_append.mp h
    simp only [Expr.gatherAll, gather_of_settled e he, gatherAll_of_settled es hs, ok_bind]
    rfl
theorem gatherDecl_of_settled : (d : Decl) → (∀ s ∈ d.sites, s.Settled) → d.gather = .ok d
  | ⟨name, declared, ty, value, position⟩, h => by
    obtain ⟨hdeclared, hv⟩ := List.forall_mem_cons.mp h
    obtain rfl : declared = none := hdeclared
    simp only [Decl.gather, gather_of_settled value hv, ok_bind]
    rfl
theorem gatherStmt_of_settled : (s : Stmt) → (∀ t ∈ s.sites, t.Settled) → s.gather = .ok s
  | .decl d, h => by
    simp only [Stmt.gather, gatherDecl_of_settled d h, ok_bind]
    rfl
  | .expr e, h => by
    simp only [Stmt.gather, gather_of_settled e h, ok_bind]
    rfl
  | .destructure ⟨source, _, _⟩, h => by
    simp only [Stmt.gather, Destructure.gather, gather_of_settled source h, ok_bind]
    rfl
theorem gatherStmts_of_settled : (ss : List Stmt) → (∀ s ∈ Stmt.allSites ss, s.Settled) →
    Stmt.gatherAll ss = .ok ss
  | [], _ => rfl
  | s :: ss, h => by
    obtain ⟨hs, hss⟩ := List.forall_mem_append.mp h
    simp only [Stmt.gatherAll, gatherStmt_of_settled s hs, gatherStmts_of_settled ss hss, ok_bind]
    rfl
theorem gatherBlock_of_settled : (b : Block) → (∀ s ∈ b.sites, s.Settled) → b.gather = .ok b
  | ⟨stmts, _, _, _⟩, h => by
    simp only [Block.gather, gatherStmts_of_settled stmts h, ok_bind]
    rfl
end

theorem gatherDecls_of_settled {ds : List Decl} (h : ∀ s ∈ ds.flatMap Decl.sites, s.Settled) :
    ds.mapM Decl.gather = .ok ds := by
  induction ds with
  | nil => rfl
  | cons d ds ih =>
    rw [List.flatMap_cons] at h
    obtain ⟨hd, hs⟩ := List.forall_mem_append.mp h
    rw [List.mapM_cons, gatherDecl_of_settled d hd, ih hs]
    rfl

-- ---------------------------------------------------------------------------
-- Modules
-- ---------------------------------------------------------------------------

theorem moduleGather_settles {m u : Module} (h : m.gather = .ok u) : u.Settled := by
  have hgives : Gives Module.Settled m.gather :=
    (gatherDecls_settles m.decls).bind fun _ hs => .ok hs
  exact hgives u h

theorem gather_eq_self_iff {m : Module} : m.gather = .ok m ↔ m.Settled := by
  constructor
  · exact moduleGather_settles
  · intro h
    simp only [Module.gather, gatherDecls_of_settled h, ok_bind]
    rfl

/-- What gathering makes of a module, whether a checker made that module or not, is
settled, and gathering it again gives the same module. -/
theorem gather_idempotent {m u : Module} (h : m.gather = .ok u) :
    u.Settled ∧ u.gather = .ok u :=
  ⟨moduleGather_settles h, gather_eq_self_iff.mpr (moduleGather_settles h)⟩

/-- Two functions with a prologue, one in the other, and a declaration behind them
that takes a place of the pack as well. -/
def prologues : Module :=
  ⟨[packedFunc "f" [takeInt "a" 0, takeInt "b" 1,
    .decl (packedFunc "g" [takeInt "c" 0, takeInt "d" 1]), takeInt "e" 0]]⟩

theorem prologues_settle : ∃ u, prologues.gather = .ok u ∧ u.Settled ∧ u.gather = .ok u := by
  obtain ⟨u, h⟩ := isOk_iff.mp (by decide +kernel : prologues.gather.isOk = true)
  exact ⟨u, h, gather_idempotent h⟩

end LetLang.Typed
