import LetLang.Proofs.Shape
import LetLang.Proofs.Syntax.TypeText
import LetLang.Proofs.Typing.TyClass

/-!
# What diagnostics contrast

Many diagnostics of the checker say what was expected and what was found. Where
both are types, they are different types, and if no tuple in them has just one
item, their texts are different too: the text of such a type parses back to the
type. Some diagnostics describe what was expected in other words, which are the
text of no type.
-/

namespace LetLang

namespace Cause

/-- What a cause says was expected and found. -/
def contrasted? : Cause → Option (String × String)
  | .unexpectedToken expected found | .tupleLength expected found | .wrongType expected found
  | .wrongReturn expected found _ | .wrongArgument expected found | .wrongBranch expected found _
  | .wrongOperand _ expected found | .wrongLeft _ expected found | .wrongRight _ expected found =>
    some (expected, found)
  | .notCallable found => some ("function", found)
  | .indexOutOfRange size index => some ("int < " ++ toString size, toString index)
  | .wrongIndex found => some ("int", found)
  | .notIndexable found => some ("list, str or tuple", found)
  | _ => none

theorem message_contrasted {c : Cause} (h : c.contrasted? = some (expected, found)) :
    ∃ before, c.message = before ++ contrast expected found := by
  cases c with
  | unexpectedChar | unterminatedStr | unterminatedChar | unknownEscape | notOneChar | badNumber
  | unknownName | bareEmptyList | voidBinding | indexNotLiteral | notIterable | fault => cases h
  | _ =>
    cases h
    exact ⟨_, rfl⟩

end Cause

def descriptions : List String :=
  ["function", "list, str or tuple", "int or float", "int, float, bool, char or str"]

/-- What the checker may say that it expected and found, if the types that it
meets are in a class. -/
inductive Contrast (k : TyClass) : String → String → Prop where
  | types : s ≠ t → k.has s → k.has t → Contrast k s.text t.text
  | described : words ∈ descriptions → k.has t → Contrast k words t.text
  /-- A list without items, where the type of a list is not expected. -/
  | emptyList : k.has s → Contrast k s.text "[]"
  /-- A place behind the items of a tuple. -/
  | place (size : Nat) (index : Int) : Contrast k ("int < " ++ toString size) (toString index)

def Cause.Contrasts (k : TyClass) (c : Cause) : Prop :=
  ∀ expected found, c.contrasted? = some (expected, found) → Contrast k expected found

theorem Cause.Contrasts.intro {k : TyClass} {c : Cause} (h : Contrast k expected found)
    (hc : c.contrasted? = some (expected, found)) : c.Contrasts k := by
  intro e f he
  cases hc.symm.trans he
  exact h

theorem Cause.Contrasts.of_eq_none {k : TyClass} {c : Cause} (h : c.contrasted? = none) :
    c.Contrasts k := by
  intro e f he
  cases h.symm.trans he

/-- Whether a run gives a good value, or a diagnostic that contrasts such things. -/
def Reports (k : TyClass) (good : α → Prop) (x : Except Diagnostic α) : Prop :=
  match x with
  | .ok a => good a
  | .error d => d.cause.Contrasts k

namespace Reports

variable {k : TyClass} {α β : Type} {good : α → Prop} {best : β → Prop}

theorem ok (h : good a) : Reports k good (.ok a) := h

theorem reject (h : cause.Contrasts k) :
    Reports k good (reject cause position : Except Diagnostic α) := h

theorem ensure (h : condition = false → cause.Contrasts k) :
    Reports k (fun _ => condition = true) (ensure condition cause position) := by
  cases condition with
  | true => exact .ok rfl
  | false => exact .reject (h rfl)

theorem bind {x : Except Diagnostic α} {next : α → Except Diagnostic β} (h : Reports k good x)
    (hn : ∀ a, good a → Reports k best (next a)) : Reports k best (x >>= next) := by
  cases x with
  | error d => exact h
  | ok a => exact hn a h

theorem error {x : Except Diagnostic α} (h : Reports k good x) (hx : x = .error d) :
    d.cause.Contrasts k := by
  rw [hx] at h
  exact h

theorem compare {cause : Cause} (hs : k.has s) (ht : k.has t)
    (hc : cause.contrasted? = some (s.text, t.text)) :
    Reports k (fun _ => t = s) (LetLang.ensure (t = s) cause position) := by
  by_cases h : t = s
  · rw [decide_eq_true h]
    exact .ok h
  · rw [decide_eq_false h]
    exact .reject (.intro (.types (Ne.symm h) hs ht) hc)

end Reports

-- ---------------------------------------------------------------------------
-- Checks
-- ---------------------------------------------------------------------------

variable {k : TyClass}

theorem requireType_reports (he : k.has expected) (hf : k.has found) :
    Reports k (fun _ => True) (requireType expected found position) := by
  by_cases h : found = expected
  · rw [requireType, decide_eq_true h]
    exact .ok trivial
  · rw [requireType, decide_eq_false h]
    refine .reject (.intro (.types (Ne.symm h) he hf) ?_)
    unfold requireType.mismatch
    split
    · split
      · rfl
      · rfl
    · rfl

theorem requireValue_reports {d : Decl} : Reports k (fun _ => True) (d.requireValue ty) := by
  unfold Decl.requireValue
  cases !ty.containsVoid || d.unpacks with
  | true => exact .ok trivial
  | false => exact .reject (.of_eq_none rfl)

theorem bool_contrast {ty : Ty} (h : decide (ty = .bool) = false) (hty : k.has ty) :
    Contrast k "bool" ty.text :=
  .types (Ne.symm (of_decide_eq_false h)) (k.prim .bool) hty

theorem UnaryOp.operands_contrast {op : UnaryOp} (h : op.accepts ty = false) (hty : k.has ty) :
    Contrast k op.operands ty.text := by
  cases op with
  | plus | minus => exact .described (by decide) hty
  | not => exact bool_contrast h hty

theorem OpClass.operands_contrast {c : OpClass} (h : c.accepts ty = false) (hty : k.has ty) :
    Contrast k c.operands ty.text := by
  cases c with
  | equality => cases h
  | comparison | arithmetic => exact .described (by decide) hty
  | logical => exact bool_contrast h hty

theorem signature_reports (h : ∀ a ∈ params.map (·.type) ++ returns, k.has a.ty) :
    Reports k (fun r => k.has r.1.type.ty ∧ k.has r.2) (signature params returns position) := by
  unfold signature
  split
  · exact .ok ⟨h _ List.mem_cons_self, h _ (List.mem_cons_of_mem _ List.mem_cons_self)⟩
  · exact .reject (.of_eq_none rfl)

theorem valueScope_reports {d : Decl} (hd : d.Every (Node.Within k)) (hs : k.HasScope scope) :
    Reports k k.HasScope (d.valueScope scope) := by
  obtain ⟨name, declared, value, position⟩ := d
  cases value with
  | func params returns body place =>
    refine (signature_reports hd.2.1.ascriptions).bind fun r hr => .ok (hs.bind ?_)
    exact (k.func_iff _ _).mpr hr
  | _ => exact .ok hs

theorem requireLeft_reports {op : BinaryOp} (h : k.has left.ty) :
    Reports k (fun _ => op.opClass.accepts left.ty = true) (op.requireLeft left) :=
  .ensure fun ha => .intro (OpClass.operands_contrast ha h) rfl

theorem valueTy_has (h : ∀ e, .expr e ∈ stmts → k.has e.ty) :
    k.has (Typed.valueTy returnsVoid stmts) := by
  unfold Typed.valueTy
  split
  · next e hl => exact h e (List.mem_of_getLast? hl)
  · exact k.prim .void

-- ---------------------------------------------------------------------------
-- Forms of expressions
-- ---------------------------------------------------------------------------

/-- Whether an expression has a type of the class in a scope, with whatever hint of the
class, or a diagnostic that contrasts such types. -/
abbrev Expr.Reporting (k : TyClass) (scope : Scope) (e : Expr) : Prop :=
  ∀ {hint}, k.HasHint hint → Reports k (fun t => k.has t.ty) (e.infer scope hint)

abbrev Block.Reporting (k : TyClass) (scope : Scope) (b : Block) : Prop :=
  ∀ {hint}, k.HasHint hint → Reports k (fun t => k.has t.ty) (b.infer scope hint)

theorem ident_reports (hs : k.HasScope scope) : (Expr.ident name position).Reporting k scope := by
  intro hint _
  unfold Expr.infer
  split
  · next ty hl => exact .ok (hs name ty hl)
  · exact .reject (.of_eq_none rfl)

theorem nil_reports : (Expr.list [] position).Reporting k scope := by
  intro hint hh
  unfold Expr.infer
  split
  · exact .ok (hh _ rfl)
  · exact .reject (.intro (.emptyList (hh _ rfl)) rfl)
  · exact .reject (.of_eq_none rfl)

theorem checkItems_cons_reports (he : e.Reporting k scope)
    (hs : Reports k (fun _ => True) (Expr.checkItems es scope item)) (hi : k.has item) :
    Reports k (fun _ => True) (Expr.checkItems (e :: es) scope item) := by
  unfold Expr.checkItems
  refine (he (.some hi)).bind fun _ ht => ?_
  refine (Reports.compare hi ht rfl).bind fun _ _ => ?_
  exact hs.bind fun _ _ => .ok trivial

theorem headed_reports {first : Expr} (hf : first.Reporting k scope)
    (hr : ∀ {item}, k.has item → Reports k (fun _ => True) (Expr.checkItems rest scope item))
    (hh : k.HasHint hint) :
    Reports k (fun t => k.has t.ty) (do
      let head ← first.infer scope hint
      let tail ← Expr.checkItems rest scope head.ty
      return (⟨.list (head :: tail), .list head.ty, position⟩ : Typed.Expr)) := by
  refine (hf hh).bind fun head hty => ?_
  exact (hr hty).bind fun _ _ => .ok ((k.list_iff _).mpr hty)

theorem list_reports (hf : first.Reporting k scope)
    (ha : Reports k k.HasHint (Expr.anchorTy rest scope))
    (hr : ∀ {item}, k.has item → Reports k (fun _ => True) (Expr.checkItems rest scope item)) :
    (Expr.list (first :: rest) position).Reporting k scope := by
  intro hint hh
  simp only [Expr.infer]
  split
  · refine ha.bind fun anchor ha => ?_
    cases anchor with
    | some item =>
      have hty : k.has item := ha item rfl
      refine (checkItems_cons_reports hf (hr hty) hty).bind fun _ _ => .ok ?_
      exact (k.list_iff _).mpr hty
    | none => exact headed_reports hf hr hh.listHint
  · exact headed_reports hf hr hh.listHint

theorem call_reports (hc : callee.Reporting k scope) (ha : arg.Reporting k scope) :
    (Expr.call callee [arg] argsPosition position).Reporting k scope := by
  intro hint _
  unfold Expr.infer
  refine (hc .none).bind fun f hf => ?_
  split
  · next param ret hty =>
    rw [hty] at hf
    obtain ⟨hp, hr⟩ := (k.func_iff param ret).mp hf
    refine (ha (.some hp)).bind fun _ ha => ?_
    exact (Reports.compare hp ha rfl).bind fun _ _ => .ok hr
  · exact .reject (.intro (.described (by decide) hf) rfl)

theorem unpackedCall_reports (h : args.length ≠ 1) (hc : callee.Reporting k scope) :
    (Expr.call callee args argsPosition position).Reporting k scope := by
  intro hint _
  rw [infer_call_of_length_ne_one h]
  refine (hc .none).bind fun f hf => ?_
  split
  · exact .reject (.of_eq_none rfl)
  · exact .reject (.intro (.described (by decide) hf) rfl)

theorem index_reports (ht : target.Reporting k scope) (hi : index.Reporting k scope) :
    (Expr.index target index position).Reporting k scope := by
  intro hint _
  unfold Expr.infer
  refine (ht .none).bind fun t ht => ?_
  split
  · next items hty =>
    rw [hty] at ht
    split
    · split
      · next item hi => exact .ok (TyClass.item? ht hi)
      · exact .reject (.intro (.place _ _) rfl)
    · exact .reject (.of_eq_none rfl)
  · split
    · next item he =>
      refine (hi .none).bind fun i hty => ?_
      exact (Reports.compare (k.prim .int) hty rfl).bind fun _ _ => .ok (TyClass.element? ht he)
    · exact .reject (.intro (.described (by decide) ht) rfl)

theorem cond_reports (ht : test.Reporting k scope) (hy : thenBlock.Reporting k scope)
    (hn : elseBlock.Reporting k scope) :
    (Expr.cond test thenBlock elseBlock position).Reporting k scope := by
  intro hint hh
  have hbool : k.has .bool := k.prim .bool
  simp only [Expr.infer]
  refine (ht (.some hbool)).bind fun _ hc => ?_
  refine (Reports.compare hbool hc rfl).bind fun _ _ => ?_
  split
  · refine (hn .none).bind fun _ hno => ?_
    refine (hy (.some hno)).bind fun _ hyes => ?_
    exact (Reports.compare hyes hno rfl).bind fun _ _ => .ok hyes
  · refine (hy hh).bind fun _ hyes => ?_
    refine (hn (.some hyes)).bind fun _ hno => ?_
    exact (Reports.compare hyes hno rfl).bind fun _ _ => .ok hyes

theorem loop_reports (hs : k.HasScope scope) (hi : iterable.Reporting k scope)
    (hb : ∀ {scope}, k.HasScope scope → body.Reporting k scope) :
    (Expr.loop binder iterable body position).Reporting k scope := by
  intro hint hh
  unfold Expr.infer
  refine (hi .none).bind fun items hi => ?_
  split
  · next item hty =>
    rw [hty, k.list_iff] at hi
    refine (hb (hs.push.bind hi) hh.listHint).bind fun _ hb => .ok ?_
    exact (k.list_iff _).mpr hb
  · exact .reject (.of_eq_none rfl)

theorem OpClass.result_has {c : OpClass} (h : k.has ty) : k.has (c.result ty) := by
  unfold OpClass.result
  split
  · exact h
  all_goals exact k.prim .bool

theorem binary_reports (hl : left.Reporting k scope) (hr : right.Reporting k scope) :
    (Expr.binary op left right position).Reporting k scope := by
  intro hint _
  simp only [Expr.infer]
  split
  · refine (hr .none).bind fun _ hr => ?_
    refine (hl (.some hr)).bind fun _ hl => ?_
    refine (requireLeft_reports hl).bind fun _ _ => ?_
    exact (Reports.compare hl hr rfl).bind fun _ _ => .ok (OpClass.result_has hl)
  · refine (hl .none).bind fun _ hl => ?_
    refine (requireLeft_reports hl).bind fun _ _ => ?_
    refine (hr (.some hl)).bind fun _ hr => ?_
    exact (Reports.compare hl hr rfl).bind fun _ _ => .ok (OpClass.result_has hl)

-- ---------------------------------------------------------------------------
-- The checker
-- ---------------------------------------------------------------------------

mutual
theorem infer_reports : (e : Expr) → e.Every (Node.Within k) → k.HasScope scope →
    k.HasHint hint → Reports k (fun t => k.has t.ty) (e.infer scope hint)
  | .literal value position, _, _, _ => .ok (k.literal value)
  | .ident name position, _, hs, hh => ident_reports hs hh
  | .tuple items position, he, hs, hh => by
    unfold Expr.infer
    refine (inferItems_reports items he.2 hs hh.tupleHints).bind fun typed ht => .ok ?_
    refine (k.tuple_iff _).mpr ⟨?_, List.forall_mem_map.mpr ht.2⟩
    rw [List.length_map, ht.1]
    exact he.1.sized
  | .list [] position, _, _, hh => nil_reports hh
  | .list (first :: rest) position, he, hs, hh =>
    list_reports (infer_reports first he.2.1 hs) (anchorTy_reports rest he.2.2 hs)
      (checkItems_reports rest he.2.2 hs) hh
  | .func params returns body position, he, hs, _ => by
    unfold Expr.infer
    refine (signature_reports he.1.ascriptions).bind fun r hr => ?_
    refine (inferBlock_reports body he.2 (hs.push.bind hr.1) (.some hr.2)).bind fun _ hb => ?_
    exact (Reports.compare hr.2 hb rfl).bind fun _ _ => .ok ((k.func_iff _ _).mpr hr)
  | .call callee [arg] argsPosition position, he, hs, hh =>
    call_reports (infer_reports callee he.2.1 hs) (infer_reports arg he.2.2.1 hs) hh
  | .call callee [] argsPosition position, he, hs, hh
  | .call callee (_ :: _ :: _) argsPosition position, he, hs, hh =>
    unpackedCall_reports (by simp) (infer_reports callee he.2.1 hs) hh
  | .block body, he, hs, hh => by
    unfold Expr.infer
    exact (inferBlock_reports body he.2 hs hh).bind fun _ h => .ok h
  | .index target index position, he, hs, hh =>
    index_reports (infer_reports target he.2.1 hs) (infer_reports index he.2.2 hs) hh
  | .cond test thenBlock elseBlock position, he, hs, hh =>
    cond_reports (infer_reports test he.2.1 hs) (inferBlock_reports thenBlock he.2.2.1 hs)
      (inferBlock_reports elseBlock he.2.2.2 hs) hh
  | .loop binder iterable body position, he, hs, hh =>
    loop_reports hs (infer_reports iterable he.2.1 hs)
      (fun h => inferBlock_reports body he.2.2 h) hh
  | .unary op operand position, he, hs, _ => by
    unfold Expr.infer
    refine (infer_reports operand he.2 hs .none).bind fun _ ht => ?_
    refine (Reports.ensure fun ha => ?_).bind fun _ _ => .ok ht
    exact .intro (UnaryOp.operands_contrast ha ht) rfl
  | .binary op left right position, he, hs, hh =>
    binary_reports (infer_reports left he.2.1 hs) (infer_reports right he.2.2 hs) hh
termination_by structural e => e

theorem inferItems_reports : (es : List Expr) → Expr.EveryItem (Node.Within k) es →
    k.HasScope scope → (∀ ty ∈ hints, k.has ty) →
    Reports k (fun ts => ts.length = es.length ∧ ∀ t ∈ ts, k.has t.ty)
      (Expr.inferItems es scope hints)
  | [], _, _, _ => .ok ⟨rfl, nofun⟩
  | e :: es, he, hs, hh => by
    unfold Expr.inferItems
    refine (infer_reports e he.1 hs fun ty hm => hh ty (List.mem_of_head? hm)).bind fun _ ht => ?_
    refine (inferItems_reports es he.2 hs fun ty hm => hh ty (List.mem_of_mem_tail hm)).bind ?_
    exact fun _ hts => .ok ⟨by simp [hts.1], List.forall_mem_cons.mpr ⟨ht, hts.2⟩⟩

theorem checkItems_reports : (es : List Expr) → Expr.EveryItem (Node.Within k) es →
    k.HasScope scope → k.has item →
    Reports k (fun _ => True) (Expr.checkItems es scope item)
  | [], _, _, _ => .ok trivial
  | e :: es, he, hs, hi =>
    checkItems_cons_reports (infer_reports e he.1 hs) (checkItems_reports es he.2 hs hi) hi

theorem anchorTy_reports : (es : List Expr) → Expr.EveryItem (Node.Within k) es →
    k.HasScope scope → Reports k k.HasHint (Expr.anchorTy es scope)
  | [], _, _ => .ok .none
  | e :: es, he, hs => by
    unfold Expr.anchorTy
    split
    · exact anchorTy_reports es he.2 hs
    · exact (infer_reports e he.1 hs .none).bind fun _ ht => .ok (.some ht)

theorem inferDecl_reports : (d : Decl) → d.Every (Node.Within k) → k.HasScope scope →
    Reports k (fun r => k.HasScope r.2) (d.infer scope)
  | ⟨name, declared, value, position⟩, hd, hs => by
    unfold Decl.infer
    refine (valueScope_reports hd hs).bind fun inner hi => ?_
    cases declared with
    | some written =>
      have hw : k.has written.ty := hd.1.ascriptions written List.mem_cons_self
      refine requireValue_reports.bind fun _ _ => ?_
      refine (infer_reports value hd.2 hi (.some hw)).bind fun _ ht => ?_
      exact (requireType_reports hw ht).bind fun _ _ => .ok (hi.bind hw)
    | none =>
      refine (infer_reports value hd.2 hi .none).bind fun _ ht => ?_
      exact requireValue_reports.bind fun _ _ => .ok (hi.bind ht)

theorem inferAll_reports : (ss : List Stmt) → Stmt.EveryStmt (Node.Within k) ss →
    k.HasScope scope → k.HasHint hint →
    Reports k (fun ts => ∀ e, .expr e ∈ ts → k.has e.ty) (Stmt.inferAll ss scope hint)
  | [], _, _, _ => .ok nofun
  | .decl d :: ss, hss, hs, hh => by
    simp only [Stmt.inferAll, Stmt.infer, bind_assoc, pure_bind]
    refine (inferDecl_reports d hss.1 hs).bind fun _ hd => ?_
    refine (inferAll_reports ss hss.2 hd hh).bind fun _ h => .ok fun e hm => ?_
    rcases List.mem_cons.mp hm with hm | hm
    · cases hm
    · exact h e hm
  | .expr e :: ss, hss, hs, hh => by
    have hh' : k.HasHint (if ss.isEmpty then hint else none) := by
      split
      · exact hh
      · exact .none
    simp only [Stmt.inferAll, Stmt.infer, bind_assoc, pure_bind]
    refine (infer_reports e hss.1 hs hh').bind fun _ he => ?_
    refine (inferAll_reports ss hss.2 hs hh).bind fun _ h => .ok fun e hm => ?_
    rcases List.mem_cons.mp hm with hm | hm
    · cases hm
      exact he
    · exact h e hm

theorem inferBlock_reports : (b : Block) → b.Every (Node.Within k) → k.HasScope scope →
    k.HasHint hint → Reports k (fun t => k.has t.ty) (b.infer scope hint)
  | ⟨stmts, returnsVoid, position⟩, hb, hs, hh => by
    have hh' : k.HasHint (if returnsVoid then none else hint) := by
      split
      · exact .none
      · exact hh
    unfold Block.infer
    exact (inferAll_reports stmts hb.2 hs.push hh').bind fun _ h => .ok (valueTy_has h)
end

theorem declsInferAll_reports (h : ∀ d ∈ ds, Decl.Every (Node.Within k) d) (hs : k.HasScope scope) :
    Reports k (fun _ => True) (Decl.inferAll ds scope) := by
  induction ds generalizing scope with
  | nil => exact .ok trivial
  | cons d ds ih =>
    obtain ⟨hd, h⟩ := List.forall_mem_cons.mp h
    refine (inferDecl_reports d hd hs).bind fun _ hr => ?_
    exact (ih h hr).bind fun _ _ => .ok trivial

theorem inferModule_reports {m : Module} (h : m.Every (Node.Within k)) (hs : k.HasScope scope) :
    Reports k (fun _ => True) (m.infer scope) :=
  (declsInferAll_reports h hs.push).bind fun _ _ => .ok trivial

-- ---------------------------------------------------------------------------
-- Different texts
-- ---------------------------------------------------------------------------

theorem descriptions_no_type : ∀ words ∈ "[]" :: descriptions, Ty.ofText? words = none := by
  decide +kernel

theorem Ty.Plain.text_ne {t : Ty} (h : t.Plain) (hw : words ∈ "[]" :: descriptions) :
    t.text ≠ words := by
  rintro rfl
  exact Option.some_ne_none t (h.ofText?_text.symm.trans (descriptions_no_type _ hw))

theorem place_ne (size : Nat) (index : Int) : "int < " ++ toString size ≠ toString index := by
  intro h
  have hi : (toString index).toList.head? = some 'i' := by
    rw [← h, String.toList_append]
    rfl
  cases index with
  | ofNat n =>
    have hm : 'i' ∈ (toString (n : Int)).toList := List.mem_of_head? hi
    rw [toList_toString] at hm
    cases Nat.isDigit_of_mem_toDigits (by decide) (by decide) hm
  | negSucc n =>
    have ht : toString (Int.negSucc n) = "-" ++ Nat.repr (n + 1) := rfl
    rw [ht, String.toList_append] at hi
    cases hi

theorem Contrast.ne (h : Contrast .plain expected found) : expected ≠ found := by
  cases h with
  | types hne hs ht => exact fun he => hne (hs.text_injective ht he)
  | described hw ht => exact (ht.text_ne (List.mem_cons_of_mem _ hw)).symm
  | emptyList hs => exact hs.text_ne List.mem_cons_self
  | place size index => exact place_ne size index

theorem infer_contrasts_all {m : Module} (h : m.infer scope = .error d) :
    d.cause.Contrasts .all := by
  have hm : m.Every (Node.Within .all) := fun d _ => declEvery_intro Node.within_all d
  exact (inferModule_reports hm fun _ _ _ => trivial).error h

theorem Node.Clean.within_plain {n : Node} (h : n.Clean) : n.Within .plain := by
  refine ⟨h.plain, ?_⟩
  have hs := h.shaped
  unfold Node.Sized
  split
  · exact Nat.ne_of_gt hs
  · trivial

theorem compile_contrasts_plain (hs : scope.Plain) (h : compile source scope = .error d)
    (hd : d.stage = .typing) : d.cause.Contrasts .plain := by
  obtain ⟨tokens, m, hl, hp, hi⟩ := compile_typing_iff.mp ⟨h, hd⟩
  have hm := (parse_clean (tokenize_tokens hl) hp).imp fun _ hn => hn.within_plain
  exact (inferModule_reports (modulePack_plain hm) hs).error hi

/-- The text of a type without tuples of one item is read back as the type, with
nothing left, so different types of this kind have different texts. Two types that
a diagnostic of the checker contrasts are different. In a program no type has a
tuple of one item, so what is expected there and what is found are never shown by
one text. -/
theorem type_texts_faithful :
    (∀ t : Ty, t.Plain → ∃ tokens a stop, tokenize t.text = .ok tokens ∧
      (Rule.type .whole).run (.ofTokens tokens) = .ok a ⟨[], stop⟩ ∧ a.ty = t) ∧
    (∀ s t : Ty, s.Plain → t.Plain → s.text = t.text → s = t) ∧
    (∀ (m : Module) (scope : Scope) (d : Diagnostic) (expected found : String),
      m.infer scope = .error d → d.cause.contrasted? = some (expected, found) →
      Contrast .all expected found) ∧
    (∀ (m : Module) (scope : Scope) (d : Diagnostic) (expected found : String),
      m.Every (Node.Within .plain) → scope.Plain → m.infer scope = .error d →
      d.cause.contrasted? = some (expected, found) →
      Contrast .plain expected found ∧ expected ≠ found) ∧
    ∀ (source : String) (scope : Scope) (d : Diagnostic) (expected found : String),
      scope.Plain → compile source scope = .error d → d.stage = .typing →
      d.cause.contrasted? = some (expected, found) →
      Contrast .plain expected found ∧ expected ≠ found := by
  refine ⟨fun t ht => ht.text_reads, fun s t hs ht => hs.text_injective ht, ?_, ?_, ?_⟩
  · exact fun m scope d expected found h => infer_contrasts_all h expected found
  · intro m scope d expected found hm hs h hc
    have hcontrast := (inferModule_reports hm hs).error h expected found hc
    exact ⟨hcontrast, hcontrast.ne⟩
  · intro source scope d expected found hs h hd hc
    have hcontrast := compile_contrasts_plain hs h hd expected found hc
    exact ⟨hcontrast, hcontrast.ne⟩

/-- The declaration `let x: str = 1;`. -/
def mistyped : Module :=
  ⟨[⟨"x", some ⟨.str, ⟨1, 8⟩⟩, .literal (.int 1) ⟨1, 14⟩, ⟨1, 1⟩⟩]⟩

/-- What a run that fails reports; it is decided where the run itself is not. -/
def reported? : Except Diagnostic α → Option Diagnostic
  | .ok _ => none
  | .error d => some d

theorem eq_error_of_reported? {x : Except Diagnostic α} (h : reported? x = some d) :
    x = .error d := by
  cases x with
  | ok a => cases h
  | error d =>
    cases h
    rfl

theorem mistyped_faithful :
    (∃ tokens a stop, tokenize "(int -> bool) -> ()" = .ok tokens ∧
      (Rule.type .whole).run (.ofTokens tokens) = .ok a ⟨[], stop⟩ ∧
      a.ty = .func (.func .int .bool) .unit) ∧
    (∃ d, mistyped.infer .prelude = .error d ∧
      d.cause.contrasted? = some ("str", "int") ∧ Contrast .all "str" "int" ∧
      Contrast .plain "str" "int" ∧ "str" ≠ "int") ∧
    ∃ d, compile "let x: str = 1;" .prelude = .error d ∧ d.stage = .typing ∧
      Contrast .plain "str" "int" ∧ "str" ≠ "int" := by
  obtain ⟨hreads, -, hall, hplain, hcompile⟩ := type_texts_faithful
  have hs : Scope.prelude.Plain := .ofBindings (by simp [Ty.Plain])
  refine ⟨?_, ?_, ?_⟩
  · exact hreads (.func (.func .int .bool) .unit) ⟨⟨trivial, trivial⟩, by decide, trivial⟩
  · have h : mistyped.infer .prelude = .error ⟨.wrongType "str" "int", ⟨1, 14⟩⟩ := by rfl
    have hm : mistyped.Every (Node.Within .plain) :=
      List.forall_mem_singleton.mpr
        ⟨⟨List.forall_mem_singleton.mpr trivial, trivial⟩, by simp [Node.ascriptions], trivial⟩
    obtain ⟨hc, hne⟩ := hplain _ _ _ _ _ hm hs h rfl
    exact ⟨_, h, rfl, hall _ _ _ _ _ h rfl, hc, hne⟩
  · have hr : reported? (compile "let x: str = 1;" .prelude) =
        some ⟨.wrongType "str" "int", ⟨1, 14⟩⟩ := by decide +kernel
    have h := eq_error_of_reported? hr
    exact ⟨_, h, rfl, hcompile _ _ _ _ _ hs h rfl rfl⟩

end LetLang
