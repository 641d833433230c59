import LetLang.Proofs.Gathering.Prologues

/-!
# When gathering fails

Gathering a module fails exactly if a function with a pack somewhere in it has a
malformed prologue, and then with a fault.

A body is gathered before its prologue is read. This neither makes nor hides a
declaration that takes a place: gathering keeps the form of every node, and what
such a declaration is made of besides, a name and a number, has no parts.
-/

namespace LetLang.Typed

-- ---------------------------------------------------------------------------
-- Functions and declarations in a tree
-- ---------------------------------------------------------------------------

inductive Site where
  | func (param : String) (body : Block)
  | decl (d : Decl)

mutual
/-- All functions and declarations in an expression, at any depth. -/
def Expr.sites : Expr → List Site
  | ⟨kind, _, _⟩ => kind.sites
def ExprKind.sites : ExprKind → List Site
  | .literal _ | .ident _ => []
  | .tuple items | .list items => Expr.allSites items
  | .func param _ _ body => .func param body :: body.sites
  | .call callee arg => callee.sites ++ arg.sites
  | .block body => body.sites
  | .index target index => target.sites ++ index.sites
  | .cond test thenBlock elseBlock => test.sites ++ (thenBlock.sites ++ elseBlock.sites)
  | .loop _ iterable body => iterable.sites ++ body.sites
  | .unary _ operand => operand.sites
  | .binary _ left right => left.sites ++ right.sites
def Expr.allSites : List Expr → List Site
  | [] => []
  | e :: es => e.sites ++ Expr.allSites es
def Decl.sites : Decl → List Site
  | ⟨name, declared, ty, value, position⟩ =>
    .decl ⟨name, declared, ty, value, position⟩ :: value.sites
def Destructure.sites : Destructure → List Site
  | ⟨source, _, _⟩ => source.sites
def Stmt.sites : Stmt → List Site
  | .decl d => d.sites
  | .expr e => e.sites
  | .destructure d => d.sites
def Stmt.allSites : List Stmt → List Site
  | [] => []
  | s :: ss => s.sites ++ Stmt.allSites ss
def Block.sites : Block → List Site
  | ⟨stmts, _, _, _⟩ => Stmt.allSites stmts
end

def Module.sites (m : Module) : List Site := m.decls.flatMap Decl.sites

-- ---------------------------------------------------------------------------
-- Gathered statements
-- ---------------------------------------------------------------------------

/-- Gathering keeps the form of a node, as far as a declaration that takes a place shows it. -/
theorem gather_form (kind : ExprKind) :
    (∀ name, kind.gather = .ok (.ident name) ↔ kind = .ident name) ∧
    (∀ value, kind.gather = .ok (.literal value) ↔ kind = .literal value) ∧
    ∀ target index, kind.gather = .ok (.index target index) ↔
      ∃ t i, kind = .index t i ∧ t.gather = .ok target ∧ i.gather = .ok index := by
  cases kind with
  | func param paramTy returnTy body =>
    simp only [ExprKind.gather, bind_eq_ok]
    split <;> simp [bind_eq_ok, pure_eq_ok, -bind_pure_comp]
  | _ => simp [ExprKind.gather, bind_eq_ok, pure_eq_ok, -bind_pure_comp, and_assoc]

theorem gather_expr_ok : (Expr.mk kind ty position).gather = .ok e ↔
    ∃ k, kind.gather = .ok k ∧ e = ⟨k, ty, position⟩ := by
  simp only [Expr.gather, bind_eq_ok, pure_eq_ok]

theorem takes_gather {s : Stmt} (h : s.gather = .ok s') :
    s'.Takes packed place ↔ s.Takes packed place := by
  constructor
  · rintro ⟨⟩
    cases s with
    | decl d =>
      obtain ⟨name, declared, ty, ⟨kind, valueTy, valuePosition⟩, position⟩ := d
      simp only [Stmt.gather, Decl.gather, bind_assoc, pure_bind, bind_eq_ok, pure_eq_ok] at h
      obtain ⟨value, hv, ⟨⟩⟩ := h
      obtain ⟨_, hk, ⟨⟩⟩ := gather_expr_ok.mp hv
      obtain ⟨⟨_, _, _⟩, ⟨_, _, _⟩, rfl, ht, hi⟩ := ((gather_form kind).2.2 _ _).mp hk
      obtain ⟨_, hpack, ⟨⟩⟩ := gather_expr_ok.mp ht
      obtain ⟨_, hplace, ⟨⟩⟩ := gather_expr_ok.mp hi
      obtain rfl := ((gather_form _).1 _).mp hpack
      obtain rfl := ((gather_form _).2.1 _).mp hplace
      exact .mk
    | expr e =>
      simp only [Stmt.gather, bind_eq_ok, pure_eq_ok] at h
      obtain ⟨_, -, ⟨⟩⟩ := h
    | destructure d =>
      simp only [Stmt.gather, bind_eq_ok, pure_eq_ok] at h
      obtain ⟨_, -, ⟨⟩⟩ := h
  · rintro ⟨⟩
    cases h
    exact .mk

theorem prologue_gather (h : Stmt.gatherAll ss = .ok ss') :
    Prologue takes ss' ↔ Prologue takes ss := by
  induction ss generalizing takes ss' with
  | nil =>
    cases h
    rfl
  | cons s ss ih =>
    simp only [Stmt.gatherAll, bind_eq_ok, pure_eq_ok] at h
    obtain ⟨t, hs, ts, hss, rfl⟩ := h
    simp only [prologue_cons_iff, takes_gather hs, ih hss]

theorem malformed_gather {b b' : Block} (h : b.gather = .ok b') :
    Malformed b'.stmts ↔ Malformed b.stmts := by
  obtain ⟨stmts, returnsVoid, ty, position⟩ := b
  simp only [Block.gather, bind_eq_ok, pure_eq_ok] at h
  obtain ⟨ts, hs, rfl⟩ := h
  simp only [Malformed, prologue_gather hs]

-- ---------------------------------------------------------------------------
-- Faults
-- ---------------------------------------------------------------------------

/-- Whether the prologue of a function, if it takes a pack, is well formed. -/
def Site.Gatherable : Site → Prop
  | .func param body => param = packName → ¬Malformed body.stmts
  | .decl _ => True

mutual
theorem gather_faults : (e : Expr) → FaultsUnless (∀ s ∈ e.sites, s.Gatherable) e.gather
  | ⟨kind, _, _⟩ => (gatherKind_faults kind).map
theorem gatherKind_faults : (kind : ExprKind) →
    FaultsUnless (∀ s ∈ kind.sites, s.Gatherable) kind.gather
  | .literal _ | .ident _ => .ok nofun
  | .tuple items | .list items => (gatherAll_faults items).map
  | .func param paramTy returnTy body => by
    simp only [ExprKind.gather, ExprKind.sites, List.forall_mem_cons]
    -- The body comes first in the run, and behind the function in the list.
    refine .congr ?_ and_comm
    refine (gatherBlock_faults body).bind fun b hb => ?_
    split
    · next hparam =>
      refine (gatherPrologue_faults b).map.congr ?_
      rw [malformed_gather hb]
      exact ⟨fun h _ => h, fun h => h hparam⟩
    · next hparam => exact .ok fun h => absurd h hparam
  | .call callee arg => by
    simp only [ExprKind.gather, ExprKind.sites, List.forall_mem_append]
    exact (gather_faults callee).bind fun _ _ => (gather_faults arg).map
  | .block body => (gatherBlock_faults body).map
  | .index target index => by
    simp only [ExprKind.gather, ExprKind.sites, List.forall_mem_append]
    exact (gather_faults target).bind fun _ _ => (gather_faults index).map
  | .cond test thenBlock elseBlock => by
    simp only [ExprKind.gather, ExprKind.sites, List.forall_mem_append]
    exact (gather_faults test).bind fun _ _ => (gatherBlock_faults thenBlock).bind fun _ _ =>
      (gatherBlock_faults elseBlock).map
  | .loop _ iterable body => by
    simp only [ExprKind.gather, ExprKind.sites, List.forall_mem_append]
    exact (gather_faults iterable).bind fun _ _ => (gatherBlock_faults body).map
  | .unary _ operand => (gather_faults operand).map
  | .binary _ left right => by
    simp only [ExprKind.gather, ExprKind.sites, List.forall_mem_append]
    exact (gather_faults left).bind fun _ _ => (gather_faults right).map
theorem gatherAll_faults : (es : List Expr) →
    FaultsUnless (∀ s ∈ Expr.allSites es, s.Gatherable) (Expr.gatherAll es)
  | [] => .ok nofun
  | e :: es => by
    simp only [Expr.gatherAll, Expr.allSites, List.forall_mem_append]
    exact (gather_faults e).bind fun _ _ => (gatherAll_faults es).map
theorem gatherDecl_faults : (d : Decl) →
    FaultsUnless (∀ s ∈ d.sites, s.Gatherable) d.gather
  | ⟨_, _, _, value, _⟩ => by
    simp only [Decl.gather, Decl.sites, List.forall_mem_cons, Site.Gatherable, true_and]
    exact (gather_faults value).map
theorem gatherStmt_faults : (s : Stmt) → FaultsUnless (∀ t ∈ s.sites, t.Gatherable) s.gather
  | .decl d => (gatherDecl_faults d).map
  | .expr e => (gather_faults e).map
  | .destructure ⟨source, _, _⟩ => (gather_faults source).map.map
theorem gatherStmts_faults : (ss : List Stmt) →
    FaultsUnless (∀ s ∈ Stmt.allSites ss, s.Gatherable) (Stmt.gatherAll ss)
  | [] => .ok nofun
  | s :: ss => by
    simp only [Stmt.gatherAll, Stmt.allSites, List.forall_mem_append]
    exact (gatherStmt_faults s).bind fun _ _ => (gatherStmts_faults ss).map
theorem gatherBlock_faults : (b : Block) → FaultsUnless (∀ s ∈ b.sites, s.Gatherable) b.gather
  | ⟨stmts, _, _, _⟩ => (gatherStmts_faults stmts).map
end

theorem gatherDecls_faults (ds : List Decl) :
    FaultsUnless (∀ s ∈ ds.flatMap Decl.sites, s.Gatherable) (ds.mapM Decl.gather) := by
  induction ds with
  | nil => exact .ok nofun
  | cons d ds ih =>
    rw [List.mapM_cons, List.flatMap_cons, List.forall_mem_append]
    exact (gatherDecl_faults d).bind fun _ _ => ih.map

/-- Gathering a module fails exactly if somewhere in it, at any depth, a function
with a pack starts with a malformed run of declarations that take places of the
pack. Every such failure is a fault. -/
theorem gather_fails_iff (m : Module) :
    ((∃ d, m.gather = .error d) ↔
      ∃ body, .func packName body ∈ m.sites ∧ Malformed body.stmts) ∧
    ∀ d, m.gather = .error d → d.stage = .internal := by
  have h : FaultsUnless (∀ s ∈ m.sites, s.Gatherable) m.gather := (gatherDecls_faults m.decls).map
  refine ⟨?_, h.2⟩
  rw [exists_error_iff, ← not_exists, h.1]
  constructor
  · intro hbad
    simp only [Classical.not_forall] at hbad
    obtain ⟨s, hs, hbad⟩ := hbad
    cases s with
    | func param body =>
      simp only [Site.Gatherable, Classical.not_imp, Classical.not_not] at hbad
      obtain ⟨rfl, hbad⟩ := hbad
      exact ⟨body, hs, hbad⟩
    | decl d => exact absurd trivial hbad
  · rintro ⟨body, hs, hbad⟩ hgood
    exact hgood _ hs rfl hbad

def takeInt (name : String) (place : Int) : Stmt :=
  .decl ⟨name, some .int, .int,
    ⟨.index ⟨.ident packName, .tuple [.int, .int], .start⟩ ⟨.literal (.int place), .int, .start⟩,
      .int, .start⟩, .start⟩

def packedFunc (name : String) (stmts : List Stmt) : Decl :=
  ⟨name, none, .func (.tuple [.int, .int]) .void,
    ⟨.func packName (.tuple [.int, .int]) .void ⟨stmts, true, .void, .start⟩,
      .func (.tuple [.int, .int]) .void, .start⟩, .start⟩

/-- A function in another one takes the items `0` and `2` of a pack of two. -/
def gapped : Module :=
  ⟨[packedFunc "f" [.decl (packedFunc "g" [takeInt "a" 0, takeInt "b" 2])]]⟩

theorem gapped_fails : Malformed [takeInt "a" 0, takeInt "b" 2] ∧
    ∃ d, gapped.gather = .error d ∧ d.stage = .internal := by
  obtain ⟨hiff, hstage⟩ := gather_fails_iff gapped
  have hbad : Malformed [takeInt "a" 0, takeInt "b" 2] :=
    ⟨_, _, _, .take .mk (.take .mk (.stop nofun)), .inl (by decide)⟩
  obtain ⟨d, hd⟩ := hiff.mpr ⟨_, .tail _ (.tail _ (.tail _ (.head _))), hbad⟩
  exact ⟨hbad, d, hd, hstage d hd⟩

end LetLang.Typed
