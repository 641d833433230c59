import LetLang.Proofs.Typing.Resolution
import LetLang.Proofs.Typing.Steps

/-!
# The checker is sound

A typed tree that the checker makes is the packed tree with types added, and
each of its nodes obeys the rule of its form in the scope in which it stands.
The proof follows the checker form by form.
-/

namespace LetLang

-- ---------------------------------------------------------------------------
-- Operands
-- ---------------------------------------------------------------------------

theorem Ty.isNumeric_iff {ty : Ty} : ty.isNumeric = true ↔ ty ∈ [.int, .float] := by
  constructor
  · intro h
    unfold Ty.isNumeric at h
    split at h
    · simp
    · simp
    · cases h
  · intro h
    simp only [List.mem_cons, List.not_mem_nil, or_false] at h
    rcases h with rfl | rfl
    all_goals rfl

theorem Ty.isComparable_iff {ty : Ty} :
    ty.isComparable = true ↔ ty ∈ [.int, .float, .bool, .char, .str] := by
  constructor
  · intro h
    unfold Ty.isComparable at h
    split at h
    · simp
    · simp
    · simp
    · simp
    · simp
    · cases h
  · intro h
    simp only [List.mem_cons, List.not_mem_nil, or_false] at h
    rcases h with rfl | rfl | rfl | rfl | rfl
    all_goals rfl

theorem UnaryOp.takes_of_accepts {op : UnaryOp} (h : op.accepts ty = true) : op.Takes ty ty := by
  cases op with
  | not =>
    obtain rfl : ty = .bool := of_decide_eq_true h
    exact .not
  | plus | minus => exact .sign (by simp) (Ty.isNumeric_iff.mp h)

theorem BinaryOp.takes_of_accepts {op : BinaryOp} (h : op.opClass.accepts ty = true) :
    op.Takes ty (op.opClass.result ty) := by
  cases op with
  | equals | notEquals => exact .equality (by simp)
  | less | greater | lessEquals | greaterEquals =>
    exact .comparison (by simp) (Ty.isComparable_iff.mp h)
  | add | sub | mul | div | mod | bitOr | bitAnd | bitXor =>
    exact .arithmetic (by simp) (Ty.isNumeric_iff.mp h)
  | and | or =>
    obtain rfl : ty = .bool := of_decide_eq_true h
    exact .logical (by simp)

theorem wellTyped_literal (value : Literal) {position : Position} :
    Typed.Expr.WellTyped s ⟨.literal value, value.ty, position⟩ := by
  cases value with
  | int value => exact .literal_int
  | float value => exact .literal_float
  | char value => exact .literal_char
  | str value => exact .literal_str
  | bool value => exact .literal_bool

theorem wellTyped_valueTy (h : Typed.Stmt.AllWellTyped s.push stmts) :
    Typed.Block.WellTyped s ⟨stmts, returnsVoid, Typed.valueTy returnsVoid stmts, position⟩ := by
  cases returnsVoid with
  | true => exact .void h (.inl rfl)
  | false =>
    unfold Typed.valueTy
    split
    · next last _ hl =>
      obtain ⟨init, rfl⟩ := List.getLast?_eq_some_iff.mp hl
      exact .value h
    · next hn => exact .void h (.inr fun last hl => hn last rfl hl)

-- ---------------------------------------------------------------------------
-- Declarations
-- ---------------------------------------------------------------------------

theorem typed_valueScope {inner : Scope}
    (hs : (Decl.mk name declared value position).valueScope scope = .ok inner)
    (hi : value.infer inner hint = .ok typed) (he : typed.ErasesTo value) :
    inner = (Typed.Decl.mk name written ty typed position).valueScope scope := by
  rcases valueScope_ok.mp hs with ⟨params, returns, body, place, param, ret, rfl, hr, rfl⟩ |
    ⟨hn, rfl⟩
  · obtain ⟨_, _, _, hr', -, -, rfl⟩ := infer_func_ok.mp hi
    cases hr.symm.trans hr'
    rfl
  · unfold Typed.Decl.valueScope
    split
    · next hk =>
      cases he with
      | func => exact absurd rfl (hn _ _ _ _)
      | _ => cases hk
    · rfl

theorem bind_valueScope_alike {d : Typed.Decl} (hty : d.value.ty = d.ty) :
    ((d.valueScope scope).bind d.name d.ty).Alike (scope.bind d.name d.ty) := by
  unfold Typed.Decl.valueScope
  split
  · rw [hty]
    exact Scope.bind_bind_alike scope d.name d.ty
  · exact fun _ _ => rfl

theorem readsPack_of_unpacks (h : (Decl.mk name declared value position).unpacks = true)
    (he : typed.ErasesTo value) :
    (Typed.Decl.mk name written ty typed position).ReadsPack := by
  unfold Decl.unpacks at h
  split at h
  · next pack _ _ _ hv =>
    cases hv
    cases he with
    | index ht hi =>
      cases ht
      exact ⟨_, _, rfl, by simpa using h⟩
  · cases h

mutual
theorem infer_typed : (e : Expr) → e.infer scope hint = .ok t →
    t.ErasesTo e ∧ t.WellTyped scope
  | .literal value position, h => by
    cases h
    exact ⟨.literal, wellTyped_literal value⟩
  | .ident name position, h => by
    obtain ⟨ty, hl, rfl⟩ := infer_ident_ok.mp h
    exact ⟨.ident, .ident hl⟩
  | .tuple items position, h => by
    obtain ⟨typed, hi, rfl⟩ := infer_tuple_ok.mp h
    obtain ⟨he, hw⟩ := inferItems_typed items hi
    exact ⟨.tuple he, .tuple hw⟩
  | .list [] position, h => by
    obtain ⟨item, -, rfl⟩ := infer_nil_ok.mp h
    exact ⟨.list .nil, .list .nil (by simp)⟩
  | .list (first :: rest) position, h => by
    rcases infer_list_ok.mp h with ⟨item, typed, -, -, -, hc, rfl⟩ | ⟨-, head, tail, hh, hc, rfl⟩
    · obtain ⟨he, hw, hty⟩ := checkItems_typed (first :: rest) hc
      exact ⟨.list he, .list hw hty⟩
    · obtain ⟨he, hw⟩ := infer_typed first hh
      obtain ⟨hes, hws, hty⟩ := checkItems_typed rest hc
      refine ⟨.list (.cons he hes), .list (.cons hw hws) ?_⟩
      simpa using hty
  | .func params returns body position, h => by
    obtain ⟨param, ret, typed, hs, hb, hty, rfl⟩ := infer_func_ok.mp h
    obtain ⟨_, ret, rfl, rfl, hr⟩ := signature_ok.mp hs
    cases hr
    obtain ⟨he, hw⟩ := inferBlock_typed body hb
    exact ⟨.func he, .func hw hty⟩
  | .call callee [] argsPosition position, h
  | .call callee (_ :: _ :: _) argsPosition position, h => by
    obtain ⟨_, _, _, _, _, hn, -⟩ := infer_call_ok.mp h
    cases hn
  | .call callee [arg] argsPosition position, h => by
    obtain ⟨_, f, a, param, ret, ⟨⟩, hf, hty, ha, hp, rfl⟩ := infer_call_ok.mp h
    obtain ⟨hef, hwf⟩ := infer_typed callee hf
    obtain ⟨hea, hwa⟩ := infer_typed arg ha
    exact ⟨.call hef hea, .call hwf hwa hty hp⟩
  | .block body, h => by
    obtain ⟨typed, hb, rfl⟩ := infer_block_ok.mp h
    obtain ⟨he, hw⟩ := inferBlock_typed body hb
    exact ⟨.block he, .block hw⟩
  | .index target index position, h => by
    obtain ⟨typed, ht, ho⟩ := infer_index_ok.mp h
    obtain ⟨he, hw⟩ := infer_typed target ht
    rcases ho with ⟨items, place, indexPosition, item, hty, rfl, hi, rfl⟩ |
      ⟨item, i, hel, hi, hk, rfl⟩
    · obtain ⟨place, rfl, hi⟩ := Ty.item?_eq_some.mp hi
      exact ⟨.index he .literal, .index_tuple hw hty hi⟩
    · obtain ⟨hei, hwi⟩ := infer_typed index hi
      refine ⟨.index he hei, ?_⟩
      rcases Ty.element?_eq_some.mp hel with hty | ⟨hty, rfl⟩
      · exact .index_list hw hwi hty hk
      · exact .index_str hw hwi hty hk
  | .cond test thenBlock elseBlock position, h => by
    obtain ⟨c, yes, no, hc, hb, ho, hty, rfl⟩ := infer_cond_ok.mp h
    obtain ⟨hec, hwc⟩ := infer_typed test hc
    rcases ho with ⟨-, hn, hy⟩ | ⟨-, hy, hn⟩
    all_goals
      obtain ⟨hey, hwy⟩ := inferBlock_typed thenBlock hy
      obtain ⟨hen, hwn⟩ := inferBlock_typed elseBlock hn
      exact ⟨.cond hec hey hen, .cond hwc hb hwy hwn rfl hty⟩
  | .loop binder iterable body position, h => by
    obtain ⟨items, item, typed, hi, hty, hb, rfl⟩ := infer_loop_ok.mp h
    obtain ⟨hei, hwi⟩ := infer_typed iterable hi
    obtain ⟨heb, hwb⟩ := inferBlock_typed body hb
    exact ⟨.loop hei heb, .loop hwi hty hwb⟩
  | .unary op operand position, h => by
    obtain ⟨typed, ho, ha, rfl⟩ := infer_unary_ok.mp h
    obtain ⟨he, hw⟩ := infer_typed operand ho
    exact ⟨.unary he, .unary hw (UnaryOp.takes_of_accepts ha)⟩
  | .binary op left right position, h => by
    obtain ⟨l, r, ho, ha, hty, rfl⟩ := infer_binary_ok.mp h
    rcases ho with ⟨-, hr, hl⟩ | ⟨-, hl, hr⟩
    all_goals
      obtain ⟨hel, hwl⟩ := infer_typed left hl
      obtain ⟨her, hwr⟩ := infer_typed right hr
      exact ⟨.binary hel her, .binary hwl hwr hty (BinaryOp.takes_of_accepts ha)⟩
termination_by structural e => e

theorem inferItems_typed : (es : List Expr) → Expr.inferItems es scope hints = .ok ts →
    Typed.Expr.AllEraseTo ts es ∧ Typed.Expr.AllWellTyped scope ts
  | [], h => by
    cases h
    exact ⟨.nil, .nil⟩
  | e :: es, h => by
    obtain ⟨t, rest, ht, hr, rfl⟩ := inferItems_cons_ok.mp h
    obtain ⟨he, hw⟩ := infer_typed e ht
    obtain ⟨hes, hws⟩ := inferItems_typed es hr
    exact ⟨.cons he hes, .cons hw hws⟩

theorem checkItems_typed : (es : List Expr) → Expr.checkItems es scope item = .ok ts →
    Typed.Expr.AllEraseTo ts es ∧ Typed.Expr.AllWellTyped scope ts ∧ ∀ t ∈ ts, t.ty = item
  | [], h => by
    cases h
    exact ⟨.nil, .nil, by simp⟩
  | e :: es, h => by
    obtain ⟨t, rest, ht, hty, hr, rfl⟩ := checkItems_cons_ok.mp h
    obtain ⟨he, hw⟩ := infer_typed e ht
    obtain ⟨hes, hws, htys⟩ := checkItems_typed es hr
    refine ⟨.cons he hes, .cons hw hws, ?_⟩
    simpa [hty] using htys

theorem inferDecl_typed : (d : Decl) → d.infer scope = .ok (t, behind) →
    t.ErasesTo d ∧ t.WellTyped scope ∧ behind.Alike (scope.bind t.name t.ty)
  | ⟨name, declared, value, position⟩, h => by
    obtain ⟨inner, typed, ty, hs, hi, hty, hd, hv, hr⟩ := infer_decl_ok.mp h
    cases hr
    obtain ⟨he, hw⟩ := infer_typed value hi
    have hin : inner =
        (Typed.Decl.mk name (declared.map (·.ty)) ty typed position).valueScope scope :=
      typed_valueScope hs hi he
    refine ⟨.mk he, .mk (hin ▸ hw) hty ?_ ?_, ?_⟩
    · rintro written hm
      obtain ⟨w, hw, rfl⟩ := Option.map_eq_some_iff.mp hm
      exact (hd w hw).symm
    · exact (Decl.requireValue_ok.mp hv).imp_right fun hu => readsPack_of_unpacks hu he
    · rw [hin]
      exact bind_valueScope_alike hty

theorem inferAll_typed : (ss : List Stmt) → Stmt.inferAll ss scope hint = .ok ts →
    Typed.Stmt.AllEraseTo ts ss ∧ Typed.Stmt.AllWellTyped scope ts
  | [], h => by
    cases h
    exact ⟨.nil, .nil⟩
  | .decl d :: ss, h => by
    obtain ⟨_, _, rest, hs, hr, rfl⟩ := inferAll_cons_ok.mp h
    obtain ⟨t, behind, hd, he⟩ := infer_declStmt_ok.mp hs
    cases he
    obtain ⟨hed, hwd, ha⟩ := inferDecl_typed d hd
    obtain ⟨hes, hws⟩ := inferAll_typed ss hr
    exact ⟨.decl hed hes, .decl hwd (hws.alike ha)⟩
  | .expr e :: ss, h => by
    obtain ⟨_, _, rest, hs, hr, rfl⟩ := inferAll_cons_ok.mp h
    obtain ⟨t, ht, he⟩ := infer_exprStmt_ok.mp hs
    cases he
    obtain ⟨het, hwt⟩ := infer_typed e ht
    obtain ⟨hes, hws⟩ := inferAll_typed ss hr
    exact ⟨.expr het hes, .expr hwt hws⟩

theorem inferBlock_typed : (b : Block) → b.infer scope hint = .ok t →
    t.ErasesTo b ∧ t.WellTyped scope
  | ⟨stmts, returnsVoid, position⟩, h => by
    obtain ⟨typed, hs, rfl⟩ := inferBlock_ok.mp h
    obtain ⟨he, hw⟩ := inferAll_typed stmts hs
    exact ⟨.mk he, wellTyped_valueTy hw⟩
end

-- ---------------------------------------------------------------------------
-- Modules
-- ---------------------------------------------------------------------------

theorem declsInferAll_typed (h : Decl.inferAll ds scope = .ok ts) :
    Typed.Stmt.AllEraseTo (ts.map .decl) (ds.map .decl) ∧
      Typed.Stmt.AllWellTyped scope (ts.map .decl) := by
  induction ds generalizing scope ts with
  | nil =>
    cases h
    exact ⟨.nil, .nil⟩
  | cons d ds ih =>
    obtain ⟨t, behind, rest, hd, hr, rfl⟩ := declsInferAll_cons_ok.mp h
    obtain ⟨hed, hwd, ha⟩ := inferDecl_typed d hd
    obtain ⟨hes, hws⟩ := ih hr
    exact ⟨.decl hed hes, .decl hwd (hws.alike ha)⟩

theorem inferModule_typed {m : Module} (h : m.infer scope = .ok t) :
    t.ErasesTo m ∧ t.WellTyped scope := by
  obtain ⟨ds, hd, rfl⟩ := inferModule_ok.mp h
  exact declsInferAll_typed hd

/-- Whatever the checker accepts, under any hint and in any scope, is the tree
it was given with types added, and obeys the rules in that scope. -/
theorem infer_sound (scope : Scope) (hint : Option Ty) :
    (∀ (e : Expr) (t : Typed.Expr), e.infer scope hint = .ok t →
        t.ErasesTo e ∧ t.WellTyped scope) ∧
      (∀ (b : Block) (t : Typed.Block), b.infer scope hint = .ok t →
        t.ErasesTo b ∧ t.WellTyped scope) ∧
      (∀ (m : Module) (t : Typed.Module), m.infer scope = .ok t →
        t.ErasesTo m ∧ t.WellTyped scope) :=
  ⟨fun e _ h => infer_typed e h, fun b _ h => inferBlock_typed b h,
    fun _ _ h => inferModule_typed h⟩

/-- A recursive function of two parameters, one branch of which is an empty list:
`let f = fn (n int, acc [int]) [int] { if n == 0 { [] } else { f(n - 1, acc) } };` -/
def countdown : Module :=
  let at0 := Position.start
  let n := Expr.ident "n" at0
  let less := Expr.binary .sub n (.literal (.int 1) at0) at0
  let again := Expr.call (.ident "f" at0) [less, .ident "acc" at0] at0 at0
  let body := Expr.cond (.binary .equals n (.literal (.int 0) at0) at0)
    ⟨[.expr (.list [] at0)], false, at0⟩ ⟨[.expr again], false, at0⟩ at0
  ⟨[⟨"f", none, .func [⟨"n", ⟨.int, at0⟩, at0⟩, ⟨"acc", ⟨.list .int, at0⟩, at0⟩]
    [⟨.list .int, at0⟩] ⟨[.expr body], false, at0⟩ at0, at0⟩]⟩

theorem countdown_sound : ∃ t, countdown.pack.infer .prelude = .ok t ∧
    t.ErasesTo countdown.pack ∧ t.WellTyped .prelude := by
  obtain ⟨t, h⟩ := isOk_iff.mp (by decide +kernel : (countdown.pack.infer .prelude).isOk = true)
  exact ⟨t, h, (infer_sound .prelude none).2.2 countdown.pack t h⟩

end LetLang
