import LetLang.Proofs.Outcome
import LetLang.Proofs.Syntax.Packed
import LetLang.Typing.Infer

/-!
# What the checker blames

On packed trees every diagnostic of the checker is about types: the faults that
it knows need a function or a call that is not packed.
-/

namespace LetLang

theorem requireType_failsAs : FailsAs .typing (requireType expected found position) := by
  refine .ensure ?_
  unfold requireType.mismatch
  split
  · split
    · rfl
    · rfl
  · rfl

theorem signature_failsAs : FailsAs .typing (signature [param] [ret] position) := .ok

theorem valueScope_failsAs {d : Decl} (hd : d.Every Node.Packed) :
    FailsAs .typing (d.valueScope scope) := by
  obtain ⟨name, declared, value, position⟩ := d
  cases value with
  | func params returns body place =>
    obtain ⟨param, ret, rfl, rfl⟩ := hd.2.1
    exact .ok
  | _ => exact .ok

/-- Whether the checker blames the types of an expression in a scope, if anything. -/
abbrev Expr.Blames (scope : Scope) (e : Expr) : Prop :=
  ∀ {hint}, FailsAs .typing (e.infer scope hint)

abbrev Block.Blames (scope : Scope) (b : Block) : Prop :=
  ∀ {hint}, FailsAs .typing (b.infer scope hint)

theorem checkItems_cons_failsAs (he : e.Blames scope)
    (hs : FailsAs .typing (Expr.checkItems es scope item)) :
    FailsAs .typing (Expr.checkItems (e :: es) scope item) := by
  unfold Expr.checkItems
  refine he.bind fun _ _ => ?_
  refine (FailsAs.ensure rfl).bind fun _ _ => ?_
  exact hs.bind fun _ _ => .ok

theorem list_failsAs (hf : first.Blames scope) (ha : FailsAs .typing (Expr.anchorTy rest scope))
    (hr : ∀ {item}, FailsAs .typing (Expr.checkItems rest scope item)) :
    (Expr.list (first :: rest) position).Blames scope := by
  intro hint
  have htail {item : Option Ty} : FailsAs .typing (do
      let head ← first.infer scope item
      let tail ← Expr.checkItems rest scope head.ty
      return (⟨.list (head :: tail), .list head.ty, position⟩ : Typed.Expr)) :=
    hf.bind fun _ _ => hr.bind fun _ _ => .ok
  simp only [Expr.infer]
  split
  · refine ha.bind fun anchor _ => ?_
    cases anchor with
    | some item => exact (checkItems_cons_failsAs hf hr).bind fun _ _ => .ok
    | none => exact htail
  · exact htail

theorem call_failsAs (hc : callee.Blames scope) (ha : arg.Blames scope) :
    (Expr.call callee [arg] argsPosition position).Blames scope := by
  intro hint
  unfold Expr.infer
  refine hc.bind fun _ _ => ?_
  split
  · exact ha.bind fun _ _ => (FailsAs.ensure rfl).bind fun _ _ => .ok
  · exact .reject rfl

theorem index_failsAs (ht : target.Blames scope) (hi : index.Blames scope) :
    (Expr.index target index position).Blames scope := by
  intro hint
  unfold Expr.infer
  refine ht.bind fun _ _ => ?_
  split
  · split
    · split
      · exact .ok
      · exact .reject rfl
    · exact .reject rfl
  · split
    · exact hi.bind fun _ _ => (FailsAs.ensure rfl).bind fun _ _ => .ok
    · exact .reject rfl

theorem cond_failsAs (ht : test.Blames scope) (hy : thenBlock.Blames scope)
    (hn : elseBlock.Blames scope) : (Expr.cond test thenBlock elseBlock position).Blames scope := by
  intro hint
  simp only [Expr.infer]
  refine ht.bind fun _ _ => ?_
  refine (FailsAs.ensure rfl).bind fun _ _ => ?_
  split
  · exact hn.bind fun _ _ => hy.bind fun _ _ => (FailsAs.ensure rfl).bind fun _ _ => .ok
  · exact hy.bind fun _ _ => hn.bind fun _ _ => (FailsAs.ensure rfl).bind fun _ _ => .ok

theorem binary_failsAs (hl : left.Blames scope) (hr : right.Blames scope) :
    (Expr.binary op left right position).Blames scope := by
  intro hint
  simp only [Expr.infer]
  split
  · refine hr.bind fun _ _ => ?_
    refine hl.bind fun _ _ => ?_
    refine (FailsAs.ensure rfl).bind fun _ _ => ?_
    exact (FailsAs.ensure rfl).bind fun _ _ => .ok
  · refine hl.bind fun _ _ => ?_
    refine (FailsAs.ensure rfl).bind fun _ _ => ?_
    refine hr.bind fun _ _ => ?_
    exact (FailsAs.ensure rfl).bind fun _ _ => .ok

mutual
theorem infer_failsAs : (e : Expr) → e.Every Node.Packed → FailsAs .typing (e.infer scope hint)
  | .literal value position, _ => .ok
  | .ident name position, _ => by
    unfold Expr.infer
    split
    · exact .ok
    · exact .reject rfl
  | .tuple items position, he => by
    unfold Expr.infer
    exact (inferItems_failsAs items he.2).bind fun _ _ => .ok
  | .list [] position, _ => by
    unfold Expr.infer
    split
    · exact .ok
    · exact .reject rfl
    · exact .reject rfl
  | .list (first :: rest) position, he =>
    list_failsAs (infer_failsAs first he.2.1) (anchorTy_failsAs rest he.2.2)
      (checkItems_failsAs rest he.2.2)
  | .func params returns body position, he => by
    obtain ⟨param, ret, rfl, rfl⟩ := he.1
    unfold Expr.infer
    refine signature_failsAs.bind fun _ _ => ?_
    refine (inferBlock_failsAs body he.2).bind fun _ _ => ?_
    exact (FailsAs.ensure rfl).bind fun _ _ => .ok
  | .call callee [] argsPosition position, he
  | .call callee (_ :: _ :: _) argsPosition position, he => by
    obtain ⟨arg, ha⟩ := he.1
    cases ha
  | .call callee [arg] argsPosition position, he =>
    call_failsAs (infer_failsAs callee he.2.1) (infer_failsAs arg he.2.2.1)
  | .block body, he => by
    unfold Expr.infer
    exact (inferBlock_failsAs body he.2).bind fun _ _ => .ok
  | .index target index position, he =>
    index_failsAs (infer_failsAs target he.2.1) (infer_failsAs index he.2.2)
  | .cond test thenBlock elseBlock position, he =>
    cond_failsAs (infer_failsAs test he.2.1) (inferBlock_failsAs thenBlock he.2.2.1)
      (inferBlock_failsAs elseBlock he.2.2.2)
  | .loop binder iterable body position, he => by
    unfold Expr.infer
    refine (infer_failsAs iterable he.2.1).bind fun _ _ => ?_
    split
    · exact (inferBlock_failsAs body he.2.2).bind fun _ _ => .ok
    · exact .reject rfl
  | .unary op operand position, he => by
    unfold Expr.infer
    refine (infer_failsAs operand he.2).bind fun _ _ => ?_
    exact (FailsAs.ensure rfl).bind fun _ _ => .ok
  | .binary op left right position, he =>
    binary_failsAs (infer_failsAs left he.2.1) (infer_failsAs right he.2.2)
termination_by structural e => e

theorem inferItems_failsAs : (es : List Expr) → Expr.EveryItem Node.Packed es →
    FailsAs .typing (Expr.inferItems es scope hints)
  | [], _ => .ok
  | e :: es, he => by
    unfold Expr.inferItems
    refine (infer_failsAs e he.1).bind fun _ _ => ?_
    exact (inferItems_failsAs es he.2).bind fun _ _ => .ok

theorem checkItems_failsAs : (es : List Expr) → Expr.EveryItem Node.Packed es →
    FailsAs .typing (Expr.checkItems es scope item)
  | [], _ => .ok
  | e :: es, he => checkItems_cons_failsAs (infer_failsAs e he.1) (checkItems_failsAs es he.2)

theorem anchorTy_failsAs : (es : List Expr) → Expr.EveryItem Node.Packed es →
    FailsAs .typing (Expr.anchorTy es scope)
  | [], _ => .ok
  | e :: es, he => by
    unfold Expr.anchorTy
    split
    · exact anchorTy_failsAs es he.2
    · exact (infer_failsAs e he.1).bind fun _ _ => .ok

theorem inferDecl_failsAs : (d : Decl) → d.Every Node.Packed → FailsAs .typing (d.infer scope)
  | ⟨name, declared, value, position⟩, hd => by
    unfold Decl.infer
    refine (valueScope_failsAs hd).bind fun _ _ => ?_
    cases declared with
    | some written =>
      refine (FailsAs.ensure rfl).bind fun _ _ => ?_
      refine (infer_failsAs value hd.2).bind fun _ _ => ?_
      exact requireType_failsAs.bind fun _ _ => .ok
    | none =>
      refine (infer_failsAs value hd.2).bind fun _ _ => ?_
      exact (FailsAs.ensure rfl).bind fun _ _ => .ok

theorem inferAll_failsAs : (ss : List Stmt) → Stmt.EveryStmt Node.Packed ss →
    FailsAs .typing (Stmt.inferAll ss scope hint)
  | [], _ => .ok
  | .decl d :: ss, hs => by
    unfold Stmt.inferAll
    refine ((inferDecl_failsAs d hs.1).bind fun _ _ => .ok).bind fun _ _ => ?_
    exact (inferAll_failsAs ss hs.2).bind fun _ _ => .ok
  | .expr e :: ss, hs => by
    unfold Stmt.inferAll
    refine ((infer_failsAs e hs.1).bind fun _ _ => .ok).bind fun _ _ => ?_
    exact (inferAll_failsAs ss hs.2).bind fun _ _ => .ok

theorem inferBlock_failsAs : (b : Block) → b.Every Node.Packed →
    FailsAs .typing (b.infer scope hint)
  | ⟨stmts, returnsVoid, position⟩, hb => by
    unfold Block.infer
    exact (inferAll_failsAs stmts hb.2).bind fun _ _ => .ok
end

theorem declsInferAll_failsAs (h : ∀ d ∈ ds, Decl.Every Node.Packed d) :
    FailsAs .typing (Decl.inferAll ds scope) := by
  induction ds generalizing scope with
  | nil => exact .ok
  | cons d ds ih =>
    refine (inferDecl_failsAs d (h d List.mem_cons_self)).bind fun _ _ => ?_
    exact (ih fun d hd => h d (List.mem_cons_of_mem _ hd)).bind fun _ _ => .ok

theorem inferModule_failsAs {m : Module} (h : m.Every Node.Packed) :
    FailsAs .typing (m.infer scope) :=
  (declsInferAll_failsAs h).bind fun _ _ => .ok

end LetLang
