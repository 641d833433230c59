import LetLang.Proofs.Syntax.Grammatical
import LetLang.Proofs.Syntax.Printer

/-!
# Parsing what is printed

The tokens that are printed for a module parse to that module, up to places. Not
every module can be written: integers have no sign and fit into 64 bits, tuples
have several items, a function returns something, and a block without statements
yields no value. Each part of a module is printed as the grammar has it, in
whatever places its tokens stand, and the parser accepts what the grammar has.
-/

namespace LetLang

def Literal.Printable (style : Style) : Literal → Prop
  | .int value => 0 ≤ value ∧ value < integerLimit
  | .float value => readBinary64? (style.floatText value).toList = some value
  | _ => True

def Node.literals : Node → List Literal
  | .expr (.literal value _) => [value]
  | _ => []

/-- Whether a node has a shape, types and literals that can be written. -/
structure Node.Printable (style : Style) (n : Node) : Prop where
  shaped : n.Shaped
  ascriptions : ∀ a ∈ n.ascriptions, a.ty.Plain
  literals : ∀ value ∈ n.literals, value.Printable style

-- ---------------------------------------------------------------------------
-- Tokens in places
-- ---------------------------------------------------------------------------

theorem exists_cons {tokens more : List Token} (h : tokens.map Token.unplaced = printed :: more) :
    ∃ t rest, tokens = t :: rest ∧ t.kind = printed.kind ∧ t.value = printed.value ∧
      rest.map Token.unplaced = more := by
  obtain ⟨t, rest, rfl, rfl, hr⟩ := List.map_eq_cons_iff.mp h
  exact ⟨t, rest, rfl, rfl, rfl, hr⟩

theorem exists_enclosed {tokens inside : List Token} {left right : Punct}
    (h : tokens.map Token.unplaced = enclosed left right inside) :
    ∃ start inner close, tokens = start :: (inner ++ [close]) ∧ start.kind = .punct left ∧
      inner.map Token.unplaced = inside ∧ close.kind = .punct right := by
  obtain ⟨start, rest, rfl, hs, -, hr⟩ := exists_cons h
  obtain ⟨inner, last, rfl, hi, hl⟩ := List.map_eq_append_iff.mp hr
  obtain ⟨close, rest, rfl, hk, -, hr⟩ := exists_cons hl
  obtain rfl := List.map_eq_nil_iff.mp hr
  exact ⟨start, inner, close, rfl, hs, hi, hk⟩

-- ---------------------------------------------------------------------------
-- Types
-- ---------------------------------------------------------------------------

/-- Whether the tokens that are printed for a type are written for it. -/
def Ty.Printed (t : Ty) : Prop :=
  ∀ tokens, tokens.map Token.unplaced = t.print →
    ∃ a, Ascription.Derived t.strength tokens a ∧ a.ty = t

theorem Ty.Printed.grouped (h : Ty.Printed t)
    (ht : tokens.map Token.unplaced = grouped t.isFunc t.print) :
    ∃ a, Ascription.Derived .primary tokens a ∧ a.ty = t := by
  cases hf : t.isFunc with
  | true =>
    rw [hf] at ht
    obtain ⟨start, inner, close, rfl, hs, hi, hk⟩ := exists_enclosed ht
    obtain ⟨a, ha, rfl⟩ := h inner hi
    exact ⟨_, .group hs (ha.weaken (BindingPower.whole_le _)) hk, rfl⟩
  | false =>
    rw [hf] at ht
    obtain ⟨a, ha, rfl⟩ := h tokens ht
    exact ⟨a, ha.primary (arrow_lt_strength hf), rfl⟩

def Ty.MorePrinted (items : List Ty) : Prop :=
  ∀ tokens, tokens.map Token.unplaced = Ty.printMore items → Ty.DerivedMore tokens items

mutual
theorem Ty.printed : (t : Ty) → t.Plain → t.Printed
  | .prim name, _ => by
    intro tokens ht
    obtain ⟨t, rest, rfl, hk, -, hr⟩ := exists_cons ht
    obtain rfl := List.map_eq_nil_iff.mp hr
    exact ⟨_, .named hk, rfl⟩
  | .tuple [], _ => by
    intro tokens ht
    obtain ⟨start, inner, close, rfl, hs, hi, hk⟩ := exists_enclosed ht
    obtain rfl := List.map_eq_nil_iff.mp hi
    exact ⟨_, .unit hs hk, rfl⟩
  | .tuple (item :: items), hp => by
    intro tokens ht
    obtain ⟨start, inner, close, rfl, hs, hi, hk⟩ := exists_enclosed ht
    obtain ⟨before, more, rfl, hb, hm⟩ := List.map_eq_append_iff.mp hi
    obtain ⟨a, ha, rfl⟩ := item.printed hp.2.1 before hb
    have hmore := Ty.morePrinted items hp.2.2 more hm
    have hne : items ≠ [] := by
      rintro rfl
      exact hp.1 rfl
    rw [List.append_assoc]
    exact ⟨_, .tuple hs (ha.weaken (BindingPower.whole_le _)) hmore hne hk, rfl⟩
  | .list item, hp => by
    intro tokens ht
    obtain ⟨start, inner, close, rfl, hs, hi, hk⟩ := exists_enclosed ht
    obtain ⟨a, ha, rfl⟩ := item.printed hp inner hi
    exact ⟨_, .list hs (ha.weaken (BindingPower.whole_le _)) hk, rfl⟩
  | .func param ret, hp => by
    intro tokens ht
    obtain ⟨before, rest, rfl, hb, hr⟩ := List.map_eq_append_iff.mp ht
    obtain ⟨t, after, rfl, hk, -, ha⟩ := exists_cons hr
    obtain ⟨a, ha', rfl⟩ := (param.printed hp.1).grouped hb
    obtain ⟨b, hb', rfl⟩ := ret.printed hp.2 after ha
    exact ⟨_, .func (Nat.le_refl _) ha' hk (hb'.weaken b.ty.arrow_le_strength), rfl⟩
theorem Ty.morePrinted : (items : List Ty) → Ty.AllPlain items → Ty.MorePrinted items
  | [], _ => by
    intro tokens ht
    obtain rfl := List.map_eq_nil_iff.mp ht
    exact .nil
  | item :: items, hp => by
    intro tokens ht
    obtain ⟨t, rest, rfl, hk, -, hr⟩ := exists_cons ht
    obtain ⟨front, more, rfl, hf, hm⟩ := List.map_eq_append_iff.mp hr
    obtain ⟨a, ha, rfl⟩ := item.printed hp.1 front hf
    exact .cons hk (ha.weaken (BindingPower.whole_le _)) (Ty.morePrinted items hp.2 more hm)
end

theorem Ascription.unplaced_eq {a b : Ascription} (h : a.ty = b.ty) : a.unplaced = b.unplaced := by
  unfold Ascription.unplaced
  rw [h]

theorem Ascription.link_printed {a : Ascription} (hp : a.ty.Plain)
    (ht : tokens.map Token.unplaced = a.printLink) :
    ∃ b, Ascription.Derived .primary tokens b ∧ b.unplaced = a.unplaced := by
  obtain ⟨b, hb, hty⟩ := (a.ty.printed hp).grouped ht
  exact ⟨b, hb, unplaced_eq hty⟩

theorem separated_printed {print : α → List Token} {unplaced : α → α}
    {Item : List Token → α → Prop} : (items : List α) →
    (∀ a ∈ items, ∀ tokens, tokens.map Token.unplaced = print a →
      ∃ other, Item tokens other ∧ unplaced other = unplaced a) →
    (tokens : List Token) →
    tokens.map Token.unplaced = items.flatMap (fun a => mark.token :: print a) →
    ∃ others, Separated mark Item tokens others ∧ others.map unplaced = items.map unplaced
  | [], _, tokens, ht => by
    obtain rfl := List.map_eq_nil_iff.mp ht
    exact ⟨[], .nil, rfl⟩
  | a :: items, hp, tokens, ht => by
    obtain ⟨ha, hp⟩ := List.forall_mem_cons.mp hp
    obtain ⟨t, rest, rfl, hk, -, hr⟩ := exists_cons ht
    obtain ⟨front, more, rfl, hf, hm⟩ := List.map_eq_append_iff.mp hr
    obtain ⟨other, hd, hu⟩ := ha front hf
    obtain ⟨others, ho, hou⟩ := separated_printed items hp more hm
    exact ⟨other :: others, .cons hk hd ho, by rw [List.map_cons, hu, hou, List.map_cons]⟩

theorem Ascription.chain_printed {returns : List Ascription} (hne : returns ≠ [])
    (hp : ∀ a ∈ returns, a.ty.Plain)
    (ht : tokens.map Token.unplaced = Ascription.printChain returns) :
    ∃ others, Ascription.DerivedChain tokens others ∧
      others.map (·.unplaced) = returns.map (·.unplaced) := by
  cases returns with
  | nil => exact absurd rfl hne
  | cons a returns =>
    obtain ⟨ha, hp⟩ := List.forall_mem_cons.mp hp
    obtain ⟨front, more, rfl, hf, hm⟩ := List.map_eq_append_iff.mp ht
    obtain ⟨b, hb, hbu⟩ := link_printed ha hf
    obtain ⟨others, ho, hou⟩ :=
      separated_printed returns (fun a h _ ht => link_printed (hp a h) ht) more hm
    exact ⟨b :: others, .mk hb ho, by rw [List.map_cons, hbu, hou, List.map_cons]⟩

theorem Param.printed {param : Param} (hp : param.type.ty.Plain)
    (ht : tokens.map Token.unplaced = param.print) :
    ∃ other, Param.Derived tokens other ∧ other.unplaced = param.unplaced := by
  obtain ⟨t, rest, rfl, hk, hv, hr⟩ := exists_cons ht
  obtain ⟨a, ha, hty⟩ := param.type.ty.printed hp rest hr
  refine ⟨_, .mk hk (ha.weaken (BindingPower.whole_le _)), ?_⟩
  unfold Param.unplaced
  rw [hv, Ascription.unplaced_eq hty]
  rfl

theorem Param.all_printed {params : List Param} (hp : ∀ param ∈ params, param.type.ty.Plain)
    (ht : tokens.map Token.unplaced = Param.printAll params) :
    ∃ others, Param.DerivedAll tokens others ∧
      others.map (·.unplaced) = params.map (·.unplaced) := by
  cases params with
  | nil =>
    obtain rfl := List.map_eq_nil_iff.mp ht
    exact ⟨[], .nil, rfl⟩
  | cons param params =>
    obtain ⟨ha, hp⟩ := List.forall_mem_cons.mp hp
    obtain ⟨front, more, rfl, hf, hm⟩ := List.map_eq_append_iff.mp ht
    obtain ⟨other, hb, hbu⟩ := printed ha hf
    obtain ⟨others, ho, hou⟩ :=
      separated_printed params (fun param h _ ht => printed (hp param h) ht) more hm
    exact ⟨other :: others, .cons hb ho, by rw [List.map_cons, hbu, hou, List.map_cons]⟩

-- ---------------------------------------------------------------------------
-- Literals
-- ---------------------------------------------------------------------------

theorem isDigits_toDigits (n : Nat) : isDigits (Nat.toDigits 10 n) = true := by
  unfold isDigits
  rw [Bool.and_eq_true, List.all_eq_true]
  refine ⟨by simp [Nat.toDigits_ne_nil], ?_⟩
  intro c hc
  have hd := Nat.isDigit_of_mem_toDigits (by decide) (by decide) hc
  exact hd

theorem splitSign_digits (h : isDigits text = true) : splitSign text = (false, text) := by
  unfold splitSign
  split
  · simp [isDigits, isDigit] at h
  · simp [isDigits, isDigit] at h
  · rfl

theorem toList_toString (n : Nat) : (toString (n : Int)).toList = Nat.toDigits 10 n := by
  rw [show toString (n : Int) = toString n from rfl, Nat.toString_eq_ofList_toDigits,
    String.toList_ofList]

theorem readInteger?_toString (h : n < integerLimit) :
    readInteger? (toString (n : Int)).toList = some (n : Int) := by
  have hv : decimalValue (Nat.toDigits 10 n) = n := by
    unfold decimalValue digitValue
    rw [← Nat.ofDigitChars_eq_foldl, Nat.ofDigitChars_ten_toDigits]
  unfold readInteger?
  rw [toList_toString, splitSign_digits (isDigits_toDigits n)]
  simp [isDigits_toDigits, hv, h]

theorem Literal.ofToken?_print {value : Literal} {t : Token} (hp : value.Printable style)
    (hk : t.kind = (value.token style).kind) (hv : t.value = (value.token style).value) :
    Literal.ofToken? t = some (.ok value) := by
  cases value with
  | int v =>
    obtain ⟨n, rfl⟩ := Int.eq_ofNat_of_zero_le hp.1
    have hn : n < integerLimit := Int.ofNat_lt.mp hp.2
    have hr : readInteger? t.value.toList = some (n : Int) := hv ▸ readInteger?_toString hn
    simp [Literal.ofToken?, hk, Literal.token, hr, Literal.ofNumeral]
  | float v =>
    have hr : readBinary64? t.value.toList = some v := hv ▸ hp
    simp [Literal.ofToken?, hk, Literal.token, hr, Literal.ofNumeral]
  | char c =>
    have hc : t.value.toList = [c] := by simp [hv, Literal.token]
    simp [Literal.ofToken?, hk, Literal.token, hc]
  | str s => simp [Literal.ofToken?, hk, hv, Literal.token]
  | bool b => cases b <;> simp [Literal.ofToken?, hk, Literal.token, Keyword.token]

-- ---------------------------------------------------------------------------
-- Operands
-- ---------------------------------------------------------------------------

/-- Whether the tokens that are printed for an expression are written for it. -/
def Expr.Printed (style : Style) (e : Expr) : Prop :=
  ∀ tokens, tokens.map Token.unplaced = e.print style →
    ∃ other, Expr.Derived true e.strength tokens other ∧ other.unplaced = e.unplaced

def Block.Printed (style : Style) (b : Block) : Prop :=
  ∀ tokens, tokens.map Token.unplaced = b.print style false →
    ∃ other, Block.Derived true tokens other ∧ other.unplaced = b.unplaced

theorem Expr.Printed.whole (h : Expr.Printed style e)
    (ht : tokens.map Token.unplaced = e.print style) :
    ∃ other, Expr.Derived true .whole tokens other ∧ other.unplaced = e.unplaced := by
  obtain ⟨other, hd, hu⟩ := h tokens ht
  exact ⟨other, hd.weaken (BindingPower.whole_le _), hu⟩

/-- An operand has the level that it has as it is, or any level in parentheses. -/
theorem Expr.Printed.operand {needed : Bool} (h : Expr.Printed style e)
    (ht : tokens.map Token.unplaced = grouped needed (e.print style)) :
    ∃ other, Expr.Derived true (if needed then .primary else e.strength) tokens other ∧
      other.unplaced = e.unplaced := by
  cases needed with
  | true =>
    obtain ⟨start, inner, close, rfl, hs, hi, hk⟩ := exists_enclosed ht
    obtain ⟨other, hd, hu⟩ := h.whole hi
    exact ⟨other, .group hs hd hk, hu⟩
  | false => exact h tokens ht

theorem Expr.Printed.at_least {power : BindingPower} (h : Expr.Printed style e)
    (ht : tokens.map Token.unplaced = grouped (e.strength < power) (e.print style)) :
    ∃ other, Expr.Derived true power tokens other ∧ other.unplaced = e.unplaced := by
  obtain ⟨other, hd, hu⟩ := h.operand ht
  refine ⟨other, hd.weaken ?_, hu⟩
  split
  · exact power.le_primary
  · next hn => exact Nat.le_of_not_lt fun hlt => hn (decide_eq_true hlt)

theorem Expr.Printed.above {op : BinaryOp} (h : Expr.Printed style e)
    (ht : tokens.map Token.unplaced = grouped (e.strength ≤ op.power) (e.print style)) :
    ∃ stronger other, op.power < stronger ∧ Expr.Derived true stronger tokens other ∧
      other.unplaced = e.unplaced := by
  obtain ⟨other, hd, hu⟩ := h.operand ht
  refine ⟨_, other, ?_, hd, hu⟩
  split
  · exact Nat.lt_of_lt_of_le op.power_lt_unary (by decide)
  · next hn => exact Nat.lt_of_not_le fun hle => hn (decide_eq_true hle)

-- ---------------------------------------------------------------------------
-- Expressions
-- ---------------------------------------------------------------------------

theorem printed_literal (hp : value.Printable style) :
    Expr.Printed style (.literal value position) := by
  intro tokens ht
  obtain ⟨t, rest, rfl, hk, hv, hr⟩ := exists_cons ht
  obtain rfl := List.map_eq_nil_iff.mp hr
  exact ⟨_, .literal (Literal.ofToken?_print hp hk hv), rfl⟩

theorem printed_ident : Expr.Printed style (.ident name position) := by
  intro tokens ht
  obtain ⟨t, rest, rfl, hk, rfl, hr⟩ := exists_cons ht
  obtain rfl := List.map_eq_nil_iff.mp hr
  exact ⟨_, .ident hk, rfl⟩

theorem printed_unary (h : Expr.Printed style operand) :
    Expr.Printed style (.unary op operand position) := by
  intro tokens ht
  obtain ⟨t, rest, rfl, hk, -, hr⟩ := exists_cons ht
  obtain ⟨other, hd, hu⟩ := h.at_least hr
  exact ⟨_, .unary (Nat.le_refl _) hk hd, by simp only [Expr.unplaced, hu]⟩

theorem printed_binary (hl : Expr.Printed style left) (hr : Expr.Printed style right) :
    Expr.Printed style (.binary op left right position) := by
  intro tokens ht
  obtain ⟨before, rest, rfl, hb, ht⟩ := List.map_eq_append_iff.mp ht
  obtain ⟨t, after, rfl, hk, -, ha⟩ := exists_cons ht
  obtain ⟨other, hd, hu⟩ := hl.at_least hb
  obtain ⟨stronger, another, hlt, ha, hu'⟩ := hr.above ha
  exact ⟨_, .binary (Nat.le_refl _) hd hk hlt ha, by simp only [Expr.unplaced, hu, hu']⟩

theorem printed_index (hl : Expr.Printed style target) (hi : Expr.Printed style offset) :
    Expr.Printed style (.index target offset position) := by
  intro tokens ht
  obtain ⟨before, rest, rfl, hb, ht⟩ := List.map_eq_append_iff.mp ht
  obtain ⟨start, inner, close, rfl, hs, hi', hk⟩ := exists_enclosed ht
  obtain ⟨other, hd, hu⟩ := hl.at_least hb
  obtain ⟨another, ha, hu'⟩ := hi.whole hi'
  exact ⟨_, .index (Nat.le_refl _) hd hs ha hk, by simp only [Expr.unplaced, hu, hu']⟩

theorem moreItems_printed : (items : List Expr) → (∀ e ∈ items, e.Printed style) →
    (tokens : List Token) → tokens.map Token.unplaced = Expr.printMore style items →
    ∃ others, Expr.DerivedMore true tokens others ∧
      Expr.allUnplaced others = Expr.allUnplaced items
  | [], _, tokens, ht => by
    obtain rfl := List.map_eq_nil_iff.mp ht
    exact ⟨[], .nil, rfl⟩
  | e :: items, hp, tokens, ht => by
    obtain ⟨he, hp⟩ := List.forall_mem_cons.mp hp
    obtain ⟨t, rest, rfl, hk, -, hr⟩ := exists_cons ht
    obtain ⟨front, more, rfl, hf, hm⟩ := List.map_eq_append_iff.mp hr
    obtain ⟨other, hd, hu⟩ := he.whole hf
    obtain ⟨others, ho, hou⟩ := moreItems_printed items hp more hm
    exact ⟨other :: others, .cons hk hd ho, by simp only [Expr.allUnplaced, hu, hou]⟩

theorem items_printed {items : List Expr} (hp : ∀ e ∈ items, e.Printed style)
    (ht : tokens.map Token.unplaced = Expr.printItems style items) :
    ∃ others, Expr.DerivedAll true tokens others ∧
      Expr.allUnplaced others = Expr.allUnplaced items := by
  cases items with
  | nil =>
    obtain rfl := List.map_eq_nil_iff.mp ht
    exact ⟨[], .nil, rfl⟩
  | cons e items =>
    obtain ⟨he, hp⟩ := List.forall_mem_cons.mp hp
    obtain ⟨front, more, rfl, hf, hm⟩ := List.map_eq_append_iff.mp ht
    obtain ⟨other, hd, hu⟩ := he.whole hf
    obtain ⟨others, ho, hou⟩ := moreItems_printed items hp more hm
    exact ⟨other :: others, .cons hd ho, by simp only [Expr.allUnplaced, hu, hou]⟩

theorem printed_tuple (h2 : 2 ≤ items.length) (hp : ∀ e ∈ items, e.Printed style) :
    Expr.Printed style (.tuple items position) := by
  intro tokens ht
  obtain ⟨start, inner, close, rfl, hs, hi, hk⟩ := exists_enclosed ht
  match items, h2 with
  | e :: item :: items, _ =>
    obtain ⟨he, hp⟩ := List.forall_mem_cons.mp hp
    obtain ⟨before, more, rfl, hb, hm⟩ := List.map_eq_append_iff.mp hi
    obtain ⟨other, hd, hu⟩ := he.whole hb
    obtain ⟨others, ho, hou⟩ := moreItems_printed (item :: items) hp more hm
    have hne : others ≠ [] := by
      rintro rfl
      cases hou
    rw [List.append_assoc]
    refine ⟨_, .tuple hs hd ho hne hk, ?_⟩
    simp only [Expr.unplaced, Expr.allUnplaced] at hou ⊢
    rw [hu, hou]

theorem printed_list (hp : ∀ e ∈ items, e.Printed style) :
    Expr.Printed style (.list items position) := by
  intro tokens ht
  obtain ⟨start, inner, close, rfl, hs, hi, hk⟩ := exists_enclosed ht
  obtain ⟨others, ho, hou⟩ := items_printed hp hi
  exact ⟨_, .list hs ho hk, by simp only [Expr.unplaced, hou]⟩

theorem printed_call (hc : Expr.Printed style callee) (hp : ∀ e ∈ args, e.Printed style) :
    Expr.Printed style (.call callee args argsPosition position) := by
  intro tokens ht
  obtain ⟨before, rest, rfl, hb, ht⟩ := List.map_eq_append_iff.mp ht
  obtain ⟨start, inner, close, rfl, hs, hi, hk⟩ := exists_enclosed ht
  obtain ⟨other, hd, hu⟩ := hc.at_least hb
  obtain ⟨others, ho, hou⟩ := items_printed hp hi
  exact ⟨_, .call (Nat.le_refl _) hd hs ho hk, by simp only [Expr.unplaced, hu, hou]⟩

theorem printed_block (hb : body.Printed style) : Expr.Printed style (.block body) := by
  intro tokens ht
  obtain ⟨other, hd, hu⟩ := hb tokens ht
  exact ⟨_, .block hd, by simp only [Expr.unplaced, hu]⟩

theorem printed_func (hne : returns ≠ []) (hp : ∀ param ∈ params, param.type.ty.Plain)
    (hr : ∀ a ∈ returns, a.ty.Plain) (hb : body.Printed style) :
    Expr.Printed style (.func params returns body position) := by
  intro tokens ht
  obtain ⟨start, rest, rfl, hs, -, h₁⟩ := exists_cons ht
  obtain ⟨front, more, rfl, hf, h₂⟩ := List.map_eq_append_iff.mp h₁
  obtain ⟨left, inside, right, rfl, hl, hi, hk⟩ := exists_enclosed hf
  obtain ⟨chain, tail, rfl, hc, h₃⟩ := List.map_eq_append_iff.mp h₂
  obtain ⟨others, ho, hou⟩ := Param.all_printed hp hi
  obtain ⟨links, hd, hlu⟩ := Ascription.chain_printed hne hr hc
  obtain ⟨other, hb, hu⟩ := hb tail h₃
  refine ⟨.func others links other start.position, ?_, ?_⟩
  · simpa using Expr.Derived.func hs hl ho hk hd hb
  · simp only [Expr.unplaced, hu, hou, hlu]

theorem printed_loop (hi : Expr.Printed style iterable) (hb : body.Printed style) :
    Expr.Printed style (.loop binder iterable body position) := by
  intro tokens ht
  obtain ⟨start, rest, rfl, hs, -, h₁⟩ := exists_cons ht
  obtain ⟨name, rest, rfl, hn, hv, h₂⟩ := exists_cons h₁
  obtain ⟨t, rest, rfl, hk, -, h₃⟩ := exists_cons h₂
  obtain ⟨front, rest, rfl, hf, h₄⟩ := List.map_eq_append_iff.mp h₃
  obtain ⟨other, hd, hu⟩ := hi.whole hf
  obtain ⟨another, hb, hu'⟩ := hb rest h₄
  refine ⟨_, .loop hs hn hk hd hb, ?_⟩
  rw [hv]
  simp only [Expr.unplaced, hu, hu', Token.ofName]

-- ---------------------------------------------------------------------------
-- Blocks
-- ---------------------------------------------------------------------------

def Stmt.Printed (style : Style) (s : Stmt) : Prop :=
  ∀ tokens, tokens.map Token.unplaced = s.print style →
    ∃ other, Stmt.Derived true tokens other ∧ other.unplaced = s.unplaced

def Decl.Printed (style : Style) (d : Decl) : Prop :=
  ∀ tokens, tokens.map Token.unplaced = d.print style →
    ∃ other, Decl.Derived true tokens other ∧ other.unplaced = d.unplaced

/-- Whether a block is printed as a second branch, for which it may lack its braces. -/
def Block.ElsePrinted (style : Style) (b : Block) : Prop :=
  ∀ tokens, tokens.map Token.unplaced = b.print style (style.chains b && b.isCond) →
    ∃ other, Block.DerivedElse true tokens other ∧ other.unplaced = b.unplaced

theorem stmts_printed : (ss : List Stmt) → (∀ s ∈ ss, s.Printed style) → (returnsVoid : Bool) →
    (ss = [] → returnsVoid = true) → (tokens : List Token) →
    tokens.map Token.unplaced = Stmt.printAll style ss returnsVoid →
    ∃ others, Stmt.DerivedAll true tokens others returnsVoid ∧
      Stmt.allUnplaced others = Stmt.allUnplaced ss
  | [], _, returnsVoid, hv, tokens, ht => by
    obtain rfl := List.map_eq_nil_iff.mp ht
    obtain rfl := hv rfl
    exact ⟨[], .nil, rfl⟩
  | s :: ss, hp, returnsVoid, _, tokens, ht => by
    obtain ⟨hs, hp⟩ := List.forall_mem_cons.mp hp
    obtain ⟨front, rest, rfl, hf, hr⟩ := List.map_eq_append_iff.mp ht
    obtain ⟨other, hd, hu⟩ := hs front hf
    cases hlast : ss.isEmpty && !returnsVoid with
    | true =>
      rw [hlast] at hr
      obtain ⟨hnil, hfalse⟩ := Bool.and_eq_true_iff.mp hlast
      obtain rfl := List.isEmpty_iff.mp hnil
      obtain rfl := Bool.not_eq_true' _ ▸ hfalse
      obtain rfl := List.map_eq_nil_iff.mp hr
      rw [List.append_nil]
      exact ⟨[other], .last hd, by simp only [Stmt.allUnplaced, hu]⟩
    | false =>
      rw [hlast] at hr
      have hv : ss = [] → returnsVoid = true := by
        rintro rfl
        simpa using hlast
      obtain ⟨t, more, rfl, hk, -, hm⟩ := exists_cons hr
      obtain ⟨others, ho, hou⟩ := stmts_printed ss hp returnsVoid hv more hm
      exact ⟨other :: others, .cons hd hk ho, by simp only [Stmt.allUnplaced, hu, hou]⟩

theorem printed_declStmt (h : Decl.Printed style d) : Stmt.Printed style (.decl d) := by
  intro tokens ht
  obtain ⟨other, hd, hu⟩ := h tokens ht
  exact ⟨_, .decl hd, by simp only [Stmt.unplaced, hu]⟩

theorem printed_exprStmt (h : Expr.Printed style e) : Stmt.Printed style (.expr e) := by
  intro tokens ht
  obtain ⟨other, hd, hu⟩ := h.whole ht
  exact ⟨_, .expr hd, by simp only [Stmt.unplaced, hu]⟩

theorem printed_braces (hp : ∀ s ∈ ss, s.Printed style) (hv : ss = [] → returnsVoid = true) :
    Block.Printed style ⟨ss, returnsVoid, position⟩ := by
  intro tokens ht
  obtain ⟨start, inner, close, rfl, hs, hi, hk⟩ := exists_enclosed ht
  obtain ⟨others, ho, hou⟩ := stmts_printed ss hp returnsVoid hv inner hi
  exact ⟨_, .mk hs ho hk, by simp only [Block.unplaced, hou]⟩

theorem Expr.Derived.cond_of_start {power : BindingPower}
    (h : Expr.Derived chains power (start :: rest) e) (hs : start.kind = .keyword .ifWord)
    (he : e.strength = .primary) : Expr.DerivedCond chains (start :: rest) e := by
  generalize ht : start :: rest = tokens at h
  cases h with
  | cond hc => exact hc
  | literal hv =>
    cases ht
    simp [Literal.ofToken?, hs] at hv
  | block hb =>
    cases hb with
    | mk hk =>
      cases ht
      cases hs.symm.trans hk
  | call | index | unary => cases he
  | binary _ _ _ hlt _ =>
    have hp : BinaryOp.power _ = .primary := he
    rw [hp] at hlt
    exact absurd hlt (BindingPower.not_lt_of_le (BindingPower.le_primary _))
  | ident hk | group hk | tuple hk | list hk | func hk | loop hk =>
    cases ht
    cases hs.symm.trans hk

theorem isCond_iff {b : Block} (h : b.isCond = true) :
    ∃ test thenBlock elseBlock position place,
      b = ⟨[.expr (.cond test thenBlock elseBlock position)], false, place⟩ := by
  unfold Block.isCond at h
  split at h
  · exact ⟨_, _, _, _, _, rfl⟩
  · cases h

theorem strength_unplaced (e : Expr) : e.unplaced.strength = e.strength := by
  cases e with
  | _ => rfl

theorem derivedCond_of_stmts {e : Expr}
    (hd : Stmt.DerivedAll chains (start :: rest) others false)
    (hu : Stmt.allUnplaced others = [.expr e.unplaced]) (hs : start.kind = .keyword .ifWord)
    (he : e.strength = .primary) :
    ∃ other, others = [.expr other] ∧ Expr.DerivedCond chains (start :: rest) other := by
  generalize ht : start :: rest = tokens at hd
  cases hd with
  | last h =>
    cases h with
    | decl _ => cases hu
    | @expr other _ h =>
      subst ht
      have hother : other.unplaced = e.unplaced := by
        injection hu with hu
        injection hu
      refine ⟨other, rfl, h.cond_of_start hs ?_⟩
      rw [← strength_unplaced, hother, strength_unplaced, he]
  | @cons _ ss _ _ _ _ _ _ hm =>
    injection hu with _ hu
    cases ss with
    | nil => cases hm
    | cons => cases hu

/-- Without its braces a second branch is a conditional behind the else. -/
theorem printed_else (hp : ∀ s ∈ ss, s.Printed style) (hv : ss = [] → returnsVoid = true) :
    Block.ElsePrinted style ⟨ss, returnsVoid, position⟩ := by
  intro tokens ht
  cases hbare : style.chains ⟨ss, returnsVoid, position⟩ && Block.isCond ⟨ss, returnsVoid, position⟩
  · rw [hbare] at ht
    obtain ⟨other, hd, hu⟩ := printed_braces hp hv tokens ht
    exact ⟨other, .block hd, hu⟩
  · rw [hbare] at ht
    obtain ⟨test, thenBlock, elseBlock, p, q, hb⟩ := isCond_iff (Bool.and_eq_true_iff.mp hbare).2
    cases hb
    obtain ⟨others, ho, hou⟩ := stmts_printed _ hp false hv tokens ht
    obtain ⟨start, rest, rfl, hs, -, -⟩ := exists_cons ht
    obtain ⟨other, rfl, hd⟩ := derivedCond_of_stmts ho hou hs rfl
    exact ⟨_, .cond rfl hd, by simp only [Block.unplaced, hou]⟩

theorem printed_cond (ht : Expr.Printed style test) (hb : thenBlock.Printed style)
    (he : elseBlock.ElsePrinted style) :
    Expr.Printed style (.cond test thenBlock elseBlock position) := by
  intro tokens h
  obtain ⟨start, rest, rfl, hs, -, h₁⟩ := exists_cons h
  obtain ⟨front, rest, rfl, hf, h₂⟩ := List.map_eq_append_iff.mp h₁
  obtain ⟨inside, rest, rfl, hi, h₃⟩ := List.map_eq_append_iff.mp h₂
  obtain ⟨t, rest, rfl, hk, -, h₄⟩ := exists_cons h₃
  obtain ⟨other, hd, hu⟩ := ht.whole hf
  obtain ⟨thenOther, hd', hu'⟩ := hb inside hi
  obtain ⟨elseOther, hd'', hu''⟩ := he rest h₄
  exact ⟨_, .cond (.mk hs hd hd' hk hd''), by simp only [Expr.unplaced, hu, hu', hu'']⟩

theorem printed_decl (ha : ∀ a ∈ declared.toList, a.ty.Plain) (he : Expr.Printed style value) :
    Decl.Printed style ⟨name, declared, value, position⟩ := by
  intro tokens ht
  obtain ⟨start, rest, rfl, hs, -, h₁⟩ := exists_cons ht
  obtain ⟨first, rest, rfl, hn, hv, h₂⟩ := exists_cons h₁
  obtain ⟨front, rest, rfl, hf, h₃⟩ := List.map_eq_append_iff.mp h₂
  obtain ⟨t, rest, rfl, hk, -, h₄⟩ := exists_cons h₃
  obtain ⟨other, hd, hu⟩ := he.whole h₄
  cases declared with
  | none =>
    obtain rfl := List.map_eq_nil_iff.mp hf
    refine ⟨_, .undeclared hs hn hk hd, ?_⟩
    rw [hv]
    simp only [Decl.unplaced, hu, Token.ofName, Option.map_none]
  | some written =>
    obtain ⟨colon, front, rfl, hc, -, hf⟩ := exists_cons hf
    obtain ⟨a, hat, hty⟩ := written.ty.printed (ha written (by simp)) front hf
    refine ⟨_, .declared hs hn hc (hat.weaken (BindingPower.whole_le _)) hk hd, ?_⟩
    rw [hv]
    simp only [Decl.unplaced, hu, Token.ofName, Option.map_some, Ascription.unplaced_eq hty]

-- ---------------------------------------------------------------------------
-- Modules
-- ---------------------------------------------------------------------------

mutual
theorem Expr.printed (style : Style) : (e : Expr) → e.Every (Node.Printable style) →
    e.Printed style
  | .literal value _, h => printed_literal (h.literals value List.mem_cons_self)
  | .ident _ _, _ => printed_ident
  | .tuple items _, h => printed_tuple h.1.shaped (Expr.itemsPrinted style items h.2)
  | .list items _, h => printed_list (Expr.itemsPrinted style items h.2)
  | .func _ _ body _, h =>
    printed_func h.1.shaped
      (fun _ hm => h.1.ascriptions _ (List.mem_append_left _ (List.mem_map_of_mem hm)))
      (fun a hm => h.1.ascriptions a (List.mem_append_right _ hm)) (body.printed style h.2)
  | .call callee args _ _, h =>
    printed_call (callee.printed style h.2.1) (Expr.itemsPrinted style args h.2.2)
  | .block body, h => printed_block (body.printed style h.2)
  | .index target offset _, h =>
    printed_index (target.printed style h.2.1) (offset.printed style h.2.2)
  | .cond test thenBlock elseBlock _, h =>
    printed_cond (test.printed style h.2.1) (thenBlock.printed style h.2.2.1)
      (elseBlock.elsePrinted style h.2.2.2)
  | .loop _ iterable body _, h =>
    printed_loop (iterable.printed style h.2.1) (body.printed style h.2.2)
  | .unary _ operand _, h => printed_unary (operand.printed style h.2)
  | .binary _ left right _, h =>
    printed_binary (left.printed style h.2.1) (right.printed style h.2.2)
theorem Expr.itemsPrinted (style : Style) : (es : List Expr) →
    Expr.EveryItem (Node.Printable style) es → ∀ e ∈ es, e.Printed style
  | [], _ => nofun
  | e :: es, h => List.forall_mem_cons.mpr ⟨e.printed style h.1, Expr.itemsPrinted style es h.2⟩
theorem Decl.printed (style : Style) : (d : Decl) → d.Every (Node.Printable style) →
    d.Printed style
  | ⟨_, _, value, _⟩, h => printed_decl h.1.ascriptions (value.printed style h.2)
theorem Stmt.everyPrinted (style : Style) : (ss : List Stmt) →
    Stmt.EveryStmt (Node.Printable style) ss → ∀ s ∈ ss, s.Printed style
  | [], _ => nofun
  | .decl d :: ss, h =>
    List.forall_mem_cons.mpr ⟨printed_declStmt (d.printed style h.1),
      Stmt.everyPrinted style ss h.2⟩
  | .expr e :: ss, h =>
    List.forall_mem_cons.mpr ⟨printed_exprStmt (e.printed style h.1),
      Stmt.everyPrinted style ss h.2⟩
theorem Block.printed (style : Style) : (b : Block) → b.Every (Node.Printable style) →
    b.Printed style
  | ⟨stmts, _, _⟩, h => printed_braces (Stmt.everyPrinted style stmts h.2) h.1.shaped
theorem Block.elsePrinted (style : Style) : (b : Block) → b.Every (Node.Printable style) →
    b.ElsePrinted style
  | ⟨stmts, _, _⟩, h => printed_else (Stmt.everyPrinted style stmts h.2) h.1.shaped
end

theorem decls_printed : (ds : List Decl) → (∀ d ∈ ds, d.Every (Node.Printable style)) →
    (tokens : List Token) → tokens.map Token.unplaced = Module.print style ⟨ds⟩ →
    ∃ others, Decl.DerivedAll true tokens others ∧
      others.map (·.unplaced) = ds.map (·.unplaced)
  | [], _, tokens, ht => by
    obtain rfl := List.map_eq_nil_iff.mp ht
    exact ⟨[], .nil, rfl⟩
  | d :: ds, hp, tokens, ht => by
    obtain ⟨hd, hp⟩ := List.forall_mem_cons.mp hp
    obtain ⟨front, more, rfl, hf, hm⟩ := List.map_eq_append_iff.mp ht
    obtain ⟨front, tail, rfl, hf, hs⟩ := List.map_eq_append_iff.mp hf
    obtain ⟨other, hod, hu⟩ := d.printed style hd front hf
    obtain ⟨others, ho, hou⟩ := decls_printed ds hp more hm
    refine ⟨other :: others, ?_, by rw [List.map_cons, hu, hou, List.map_cons]⟩
    cases hends : style.ends d with
    | true =>
      rw [hends] at hs
      obtain ⟨t, rest, rfl, hk, -, hr⟩ := exists_cons hs
      obtain rfl := List.map_eq_nil_iff.mp hr
      rw [List.append_assoc]
      exact .ended hod hk ho
    | false =>
      rw [hends] at hs
      obtain rfl := List.map_eq_nil_iff.mp hs
      rw [List.append_nil]
      exact .bare hod ho

/-- Whatever the places of its tokens and whatever stands behind the end of it, a
printed module parses to that module up to places. -/
theorem parse_print {m : Module} (hm : m.Every (Node.Printable style))
    (ht : tokens.map Token.unplaced = m.print style) (hr : ∀ t ∈ rest.head?, t.kind = .eof) :
    ∃ other, parse (tokens ++ rest) = .ok other ∧ other.unplaced = m.unplaced := by
  obtain ⟨ds⟩ := m
  obtain ⟨others, ho, hou⟩ := decls_printed ds hm tokens ht
  have hd : Module.Derived true tokens ⟨others⟩ := ho
  have hend : (Cursor.mk rest ⟨Token.endText, .start⟩).current.kind = .eof := by
    cases rest with
    | nil => rfl
    | cons t rest => exact hr t rfl
  rw [← programTokens_append hd.ne_eof hend] at hd
  exact ⟨⟨others⟩, hd.parse_eq, by simp only [Module.unplaced, hou]⟩

/-- A style for modules whose only floating point number is `5 / 2`. -/
def halfStyle : Style := ⟨fun _ => "2.5", fun _ => true, fun _ => true⟩

/-- A conditional that scales a sum, and another one behind its else. -/
def scaled : Module :=
  let sum : Expr := .binary .add (.literal (.int 1) .start) (.ident "x" .start) .start
  let half : Expr := .literal (.float (.ofRatio false 5 2)) .start
  let product : Block := ⟨[.expr (.binary .mul sum half .start)], false, .start⟩
  let nested : Expr := .cond (.ident "d" .start) ⟨[], true, .start⟩ ⟨[], true, .start⟩ .start
  ⟨[⟨"f", none, .cond (.ident "c" .start) product ⟨[.expr nested], false, .start⟩ .start, .start⟩]⟩

theorem scaled_parses :
    scaled.Every (Node.Printable halfStyle) ∧
      (scaled.print halfStyle).map Token.unplaced = scaled.print halfStyle ∧
      (∀ t ∈ [EndMark.token ⟨Token.endText, .start⟩].head?, t.kind = .eof) ∧
      ∃ other, parse (scaled.print halfStyle ++ [EndMark.token ⟨Token.endText, .start⟩]) =
        .ok other ∧ other.unplaced = scaled.unplaced := by
  have hint : ∀ value ∈ [Literal.int 1], value.Printable halfStyle :=
    List.forall_mem_singleton.mpr ⟨by decide, by decide⟩
  have hfloat : ∀ value ∈ [Literal.float (.ofRatio false 5 2)], value.Printable halfStyle :=
    List.forall_mem_singleton.mpr (by decide +kernel : readBinary64? _ = _)
  have hm : scaled.Every (Node.Printable halfStyle) := by
    refine List.forall_mem_singleton.mpr ⟨⟨trivial, nofun, nofun⟩, ⟨trivial, nofun, nofun⟩,
      ⟨trivial, nofun, nofun⟩, ⟨⟨nofun, nofun, nofun⟩, ?product, trivial⟩,
      ⟨⟨nofun, nofun, nofun⟩, ?nested, trivial⟩⟩
    case product =>
      exact ⟨⟨trivial, nofun, nofun⟩, ⟨⟨trivial, nofun, nofun⟩, ⟨trivial, nofun, hint⟩,
        ⟨trivial, nofun, nofun⟩⟩, ⟨trivial, nofun, hfloat⟩⟩
    case nested =>
      exact ⟨⟨trivial, nofun, nofun⟩, ⟨trivial, nofun, nofun⟩,
        ⟨⟨fun _ => rfl, nofun, nofun⟩, trivial⟩, ⟨fun _ => rfl, nofun, nofun⟩, trivial⟩
  have ht : (scaled.print halfStyle).map Token.unplaced = scaled.print halfStyle := by
    decide +kernel
  have hr : ∀ t ∈ [EndMark.token ⟨Token.endText, .start⟩].head?, t.kind = .eof := by
    rintro _ ⟨⟩
    rfl
  exact ⟨hm, ht, hr, parse_print hm ht hr⟩

end LetLang
