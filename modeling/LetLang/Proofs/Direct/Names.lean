import LetLang.Proofs.Direct.Checker
import LetLang.Proofs.Outcome
import LetLang.Proofs.Syntax.Nodes

/-!
# Names in directly checked trees

The direct checker adds no name: a typed tree avoids the names that its source
avoids.
-/

namespace LetLang

namespace Direct

mutual
/-- Whether a name does not occur in a typed expression. -/
def Expr.Avoids (name : String) : Expr → Prop
  | ⟨kind, _, _⟩ => kind.Avoids name
def ExprKind.Avoids (name : String) : ExprKind → Prop
  | .literal _ => True
  | .ident other => other ≠ name
  | .tuple items => Expr.AllAvoid name items
  | .list items => Expr.AllAvoid name items
  | .func params _ body => (∀ param ∈ params, param.name ≠ name) ∧ body.Avoids name
  | .call callee args _ => callee.Avoids name ∧ Expr.AllAvoid name args
  | .block body => body.Avoids name
  | .index target index => target.Avoids name ∧ index.Avoids name
  | .cond test thenBlock elseBlock =>
    test.Avoids name ∧ thenBlock.Avoids name ∧ elseBlock.Avoids name
  | .loop binder iterable body => binder ≠ name ∧ iterable.Avoids name ∧ body.Avoids name
  | .unary _ operand => operand.Avoids name
  | .binary _ left right => left.Avoids name ∧ right.Avoids name
def Expr.AllAvoid (name : String) : List Expr → Prop
  | [] => True
  | e :: es => e.Avoids name ∧ Expr.AllAvoid name es
def Decl.Avoids (name : String) : Decl → Prop
  | ⟨other, _, _, value, _⟩ => other ≠ name ∧ value.Avoids name
def Stmt.Avoids (name : String) : Stmt → Prop
  | .decl d => d.Avoids name
  | .expr e => e.Avoids name
def Stmt.AllAvoid (name : String) : List Stmt → Prop
  | [] => True
  | s :: ss => s.Avoids name ∧ Stmt.AllAvoid name ss
def Block.Avoids (name : String) : Block → Prop
  | ⟨stmts, _, _, _⟩ => Stmt.AllAvoid name stmts
end

def Module.Avoids (name : String) (m : Module) : Prop := ∀ d ∈ m.decls, d.Avoids name

end Direct

variable {name : String}

/-- Whether the typed form of an expression in a scope avoids a name, with every hint. -/
abbrev Expr.Avoiding (name : String) (scope : Scope) (e : Expr) : Prop :=
  ∀ {hint}, Gives (Direct.Expr.Avoids name) (e.direct scope hint)

abbrev Block.Avoiding (name : String) (scope : Scope) (b : Block) : Prop :=
  ∀ {hint}, Gives (Direct.Block.Avoids name) (b.direct scope hint)

theorem directSame_cons_avoid (he : e.Avoiding name scope)
    (hs : Gives (Direct.Expr.AllAvoid name) (Expr.directSame es scope item)) :
    Gives (Direct.Expr.AllAvoid name) (Expr.directSame (e :: es) scope item) := by
  unfold Expr.directSame
  refine he.bind fun _ h => ?_
  refine .after fun _ => ?_
  exact hs.bind fun _ hs => .ok ⟨h, hs⟩

theorem list_avoids (hf : first.Avoiding name scope)
    (hr : ∀ {item}, Gives (Direct.Expr.AllAvoid name) (Expr.directSame rest scope item)) :
    (Expr.list (first :: rest) position).Avoiding name scope := by
  intro hint
  have htail {item : Option Ty} : Gives (Direct.Expr.Avoids name) (do
      let head ← first.direct scope item
      let tail ← Expr.directSame rest scope head.ty
      return (⟨.list (head :: tail), .list head.ty, position⟩ : Direct.Expr)) :=
    hf.bind fun _ hf => hr.bind fun _ hr => .ok ⟨hf, hr⟩
  simp only [Expr.direct]
  split
  · refine .after fun anchor => ?_
    cases anchor with
    | some item => exact (directSame_cons_avoid hf hr).bind fun _ h => .ok h
    | none => exact htail
  · exact htail

theorem call_avoids (hc : callee.Avoiding name scope) (ha : arg.Avoiding name scope) :
    (Expr.call callee [arg] argsPosition position).Avoiding name scope := by
  intro hint
  unfold Expr.direct
  refine hc.bind fun _ hc => ?_
  split
  · exact ha.bind fun _ h => .after fun _ => .ok ⟨hc, h, trivial⟩
  · exact .error

theorem tupleCall_avoids (h : args.length ≠ 1) (hc : callee.Avoiding name scope)
    (hi : ∀ {hints}, Gives (Direct.Expr.AllAvoid name) (Expr.directItems args scope hints)) :
    (Expr.call callee args argsPosition position).Avoiding name scope := by
  intro hint
  rw [direct_call_of_length_ne_one h]
  refine hc.bind fun _ hc => ?_
  split
  · exact hi.bind fun _ h => .after fun _ => .ok ⟨hc, h⟩
  · exact .error

theorem index_avoids (ht : target.Avoiding name scope) (hi : index.Avoiding name scope) :
    (Expr.index target index position).Avoiding name scope := by
  intro hint
  unfold Expr.direct
  refine ht.bind fun _ ht => ?_
  split
  · split
    · split
      · exact .ok ⟨ht, trivial⟩
      · exact .error
    · exact .error
  · split
    · exact hi.bind fun _ hi => .after fun _ => .ok ⟨ht, hi⟩
    · exact .error

theorem cond_avoids (ht : test.Avoiding name scope) (hy : thenBlock.Avoiding name scope)
    (hn : elseBlock.Avoiding name scope) :
    (Expr.cond test thenBlock elseBlock position).Avoiding name scope := by
  intro hint
  simp only [Expr.direct, pure_bind]
  refine ht.bind fun _ hc => ?_
  refine .after fun _ => ?_
  split
  · exact hn.bind fun _ hn => hy.bind fun _ hy => .after fun _ => .ok ⟨hc, hy, hn⟩
  · exact hy.bind fun _ hy => hn.bind fun _ hn => .after fun _ => .ok ⟨hc, hy, hn⟩

theorem loop_avoids (hn : binder ≠ name) (hi : iterable.Avoiding name scope)
    (hb : ∀ {scope}, body.Avoiding name scope) :
    (Expr.loop binder iterable body position).Avoiding name scope := by
  intro hint
  unfold Expr.direct
  refine hi.bind fun _ hi => ?_
  split
  · exact hb.bind fun _ hb => .ok ⟨hn, hi, hb⟩
  · exact .error

theorem binary_avoids (hl : left.Avoiding name scope) (hr : right.Avoiding name scope) :
    (Expr.binary op left right position).Avoiding name scope := by
  intro hint
  simp only [Expr.direct, pure_bind]
  split
  · refine hr.bind fun _ hr => ?_
    exact hl.bind fun _ hl => .after fun _ => .after fun _ => .ok ⟨hl, hr⟩
  · refine hl.bind fun _ hl => ?_
    refine .after fun _ => ?_
    exact hr.bind fun _ hr => .after fun _ => .ok ⟨hl, hr⟩

mutual
theorem direct_avoids : (e : Expr) → e.Every (Node.Avoids name) →
    Gives (Direct.Expr.Avoids name) (e.direct scope hint)
  | .literal .., _ => .ok trivial
  | .ident other position, he => by
    unfold Expr.direct
    split
    · exact .ok fun h => he (h ▸ List.mem_cons_self)
    · exact .error
  | .tuple items position, he => by
    unfold Expr.direct
    exact (directItems_avoid items he.2).bind fun _ h => .ok h
  | .list [] position, _ => by
    unfold Expr.direct
    split
    · exact .ok trivial
    · exact .error
    · exact .error
  | .list (first :: rest) position, he =>
    list_avoids (direct_avoids first he.2.1) (directSame_avoid rest he.2.2)
  | .func params returns body position, he => by
    unfold Expr.direct
    refine .after fun ret => ?_
    refine (blockDirect_avoids body he.2).bind fun _ hb => ?_
    exact .after fun _ => .ok ⟨fun param hm h => he.1 (h ▸ List.mem_map_of_mem hm), hb⟩
  | .call callee [arg] argsPosition position, he =>
    call_avoids (direct_avoids callee he.2.1) (direct_avoids arg he.2.2.1)
  | .call callee [] argsPosition position, he =>
    tupleCall_avoids (by simp) (direct_avoids callee he.2.1) (directItems_avoid [] he.2.2)
  | .call callee (first :: second :: more) argsPosition position, he =>
    tupleCall_avoids (by simp) (direct_avoids callee he.2.1)
      (directItems_avoid (first :: second :: more) he.2.2)
  | .block body, he => by
    unfold Expr.direct
    exact (blockDirect_avoids body he.2).bind fun _ h => .ok h
  | .index target index position, he =>
    index_avoids (direct_avoids target he.2.1) (direct_avoids index he.2.2)
  | .cond test thenBlock elseBlock position, he =>
    cond_avoids (direct_avoids test he.2.1) (blockDirect_avoids thenBlock he.2.2.1)
      (blockDirect_avoids elseBlock he.2.2.2)
  | .loop binder iterable body position, he => by
    have hn : binder ≠ name := fun h => he.1 (h ▸ List.mem_cons_self)
    exact loop_avoids hn (direct_avoids iterable he.2.1) (blockDirect_avoids body he.2.2)
  | .unary op operand position, he => by
    unfold Expr.direct
    refine (direct_avoids operand he.2).bind fun _ ho => ?_
    exact .after fun _ => .ok ho
  | .binary op left right position, he =>
    binary_avoids (direct_avoids left he.2.1) (direct_avoids right he.2.2)
termination_by structural e => e

theorem directItems_avoid : (es : List Expr) → Expr.EveryItem (Node.Avoids name) es →
    Gives (Direct.Expr.AllAvoid name) (Expr.directItems es scope hints)
  | [], _ => .ok trivial
  | e :: es, he => by
    unfold Expr.directItems
    refine (direct_avoids e he.1).bind fun _ h => ?_
    exact (directItems_avoid es he.2).bind fun _ hs => .ok ⟨h, hs⟩

theorem directSame_avoid : (es : List Expr) → Expr.EveryItem (Node.Avoids name) es →
    Gives (Direct.Expr.AllAvoid name) (Expr.directSame es scope item)
  | [], _ => .ok trivial
  | e :: es, he => directSame_cons_avoid (direct_avoids e he.1) (directSame_avoid es he.2)

theorem declDirect_avoids : (d : Decl) → d.Every (Node.Avoids name) →
    Gives (fun r => r.1.Avoids name) (d.direct scope)
  | ⟨other, declared, value, position⟩, hd => by
    have hn : other ≠ name := fun h => hd.1 (h ▸ List.mem_cons_self)
    unfold Decl.direct
    refine .after fun inner => ?_
    cases declared with
    | some written =>
      refine .after fun _ => ?_
      refine (direct_avoids value hd.2).bind fun _ hv => ?_
      exact .after fun _ => .ok ⟨hn, hv⟩
    | none =>
      refine (direct_avoids value hd.2).bind fun _ hv => ?_
      exact .after fun _ => .ok ⟨hn, hv⟩

theorem directAll_avoid : (ss : List Stmt) → Stmt.EveryStmt (Node.Avoids name) ss →
    Gives (Direct.Stmt.AllAvoid name) (Stmt.directAll ss scope hint)
  | [], _ => .ok trivial
  | .decl d :: ss, hs => by
    simp only [Stmt.directAll, Stmt.direct, bind_assoc, pure_bind]
    refine (declDirect_avoids d hs.1).bind fun _ hd => ?_
    exact (directAll_avoid ss hs.2).bind fun _ h => .ok ⟨hd, h⟩
  | .expr e :: ss, hs => by
    simp only [Stmt.directAll, Stmt.direct, bind_assoc, pure_bind]
    refine (direct_avoids e hs.1).bind fun _ he => ?_
    exact (directAll_avoid ss hs.2).bind fun _ h => .ok ⟨he, h⟩

theorem blockDirect_avoids : (b : Block) → b.Every (Node.Avoids name) →
    Gives (Direct.Block.Avoids name) (b.direct scope hint)
  | ⟨stmts, returnsVoid, position⟩, hb => by
    unfold Block.direct
    exact (directAll_avoid stmts hb.2).bind fun _ h => .ok h
end

theorem declsDirect_avoid (h : ∀ d ∈ ds, Decl.Every (Node.Avoids name) d) :
    Gives (fun us => ∀ u ∈ us, u.Avoids name) (Decl.directAll ds scope) := by
  induction ds generalizing scope with
  | nil => exact .ok nofun
  | cons d ds ih =>
    unfold Decl.directAll
    refine (declDirect_avoids d (h d List.mem_cons_self)).bind fun _ hd => ?_
    refine (ih fun d hm => h d (List.mem_cons_of_mem _ hm)).bind fun _ hs => ?_
    exact .ok (List.forall_mem_cons.mpr ⟨hd, hs⟩)

theorem moduleDirect_avoids {m : Module} (h : m.Avoids name) :
    Gives (Direct.Module.Avoids name) (m.direct scope) := by
  unfold Module.direct
  exact (declsDirect_avoid h).bind fun _ hs => .ok hs

end LetLang
