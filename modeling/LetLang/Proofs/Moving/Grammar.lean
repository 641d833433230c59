import LetLang.Proofs.Moving.Trees
import LetLang.Proofs.Syntax.Derivation

/-!
# The grammar at other places

The grammar compares no places, so moved tokens are written for the moved tree.
-/

namespace LetLang

variable {f : Position → Position}

-- The type of a part is also that of the moved part, and the constructors take
-- the moved parts where the goal says so.
mutual
theorem Ascription.Derived.moved : Ascription.Derived level tokens a →
    Ascription.Derived level (tokens.map (·.moved f)) (a.moved f)
  | .named hk => .named hk
  | .list hs hi hk => by
    simp only [List.map_cons, List.map_append, List.map_nil]
    change Ascription.Derived _ _ ⟨.list (Ascription.moved f _).ty, _⟩
    exact .list hs hi.moved hk
  | .unit hs hk => .unit hs hk
  | .group hs hi hk => by
    simp only [List.map_cons, List.map_append, List.map_nil]
    change Ascription.Derived _ _ ⟨(Ascription.moved f _).ty, _⟩
    exact .group hs hi.moved hk
  | .tuple hs hf hm hne hk => by
    simp only [List.map_cons, List.map_append, List.map_nil]
    change Ascription.Derived _ _ ⟨.tuple ((Ascription.moved f _).ty :: _), _⟩
    exact .tuple hs hf.moved hm.moved hne hk
  | .func hl hp hk hr => by
    simp only [List.map_cons, List.map_append]
    change Ascription.Derived _ _ ⟨.func (Ascription.moved f _).ty (Ascription.moved f _).ty, _⟩
    exact .func hl hp.moved hk hr.moved
theorem Ty.DerivedMore.moved : Ty.DerivedMore tokens items →
    Ty.DerivedMore (tokens.map (·.moved f)) items
  | .nil => .nil
  | .cons hk hf hm => by
    simp only [List.map_cons, List.map_append]
    change Ty.DerivedMore _ ((Ascription.moved f _).ty :: _)
    exact .cons hk hf.moved hm.moved
end

theorem Separated.moved {g : α → α}
    (hi : ∀ tokens item, Item tokens item → Item (tokens.map (·.moved f)) (g item))
    (h : Separated mark Item tokens items) :
    Separated mark Item (tokens.map (·.moved f)) (items.map g) := by
  induction h with
  | nil => exact .nil
  | cons hk hf _ ih =>
    simp only [List.map_cons, List.map_append]
    exact .cons hk (hi _ _ hf) ih

theorem Ascription.DerivedChain.moved (h : Ascription.DerivedChain tokens returns) :
    Ascription.DerivedChain (tokens.map (·.moved f)) (returns.map (·.moved f)) := by
  obtain ⟨hf, hm⟩ := h
  rw [List.map_append]
  exact .mk hf.moved (hm.moved fun _ _ h => h.moved)

theorem Param.Derived.moved (h : Param.Derived tokens param) :
    Param.Derived (tokens.map (·.moved f)) (param.moved f) := by
  obtain ⟨hk, ht⟩ := h
  exact .mk hk ht.moved

theorem Param.DerivedAll.moved (h : Param.DerivedAll tokens params) :
    Param.DerivedAll (tokens.map (·.moved f)) (params.map (·.moved f)) := by
  cases h with
  | nil => exact .nil
  | cons hp hm =>
    rw [List.map_append]
    exact .cons hp.moved (hm.moved fun _ _ h => h.moved)

variable {chains : Bool}

mutual
theorem Expr.Derived.moved : Expr.Derived chains level tokens e →
    Expr.Derived chains level (tokens.map (·.moved f)) (e.moved f)
  | .literal hv => .literal hv
  | .ident hk => .ident hk
  | .group hs hi hk => by
    simp only [List.map_cons, List.map_append, List.map_nil]
    exact .group hs hi.moved hk
  | .tuple hs hf hm hne hk => by
    simp only [List.map_cons, List.map_append, List.map_nil]
    exact .tuple hs hf.moved hm.moved (by simpa [Expr.allMoved_eq_map] using hne) hk
  | .list hs hi hk => by
    simp only [List.map_cons, List.map_append, List.map_nil]
    exact .list hs hi.moved hk
  | .func hs hl hp hr hc hb => by
    simp only [List.map_cons, List.map_append]
    exact .func hs hl hp.moved hr hc.moved hb.moved
  | .block hb => .block hb.moved
  | .cond hc => .cond hc.moved
  | .loop hs hn hk hi hb => by
    simp only [List.map_cons, List.map_append]
    exact .loop hs hn hk hi.moved hb.moved
  | .call hl hc hs ha hk => by
    simp only [List.map_cons, List.map_append, List.map_nil, Expr.moved, ← Expr.position_moved]
    exact .call hl hc.moved hs ha.moved hk
  | .index hl ht hs hi hk => by
    simp only [List.map_cons, List.map_append, List.map_nil, Expr.moved, ← Expr.position_moved]
    exact .index hl ht.moved hs hi.moved hk
  | .unary hl hk ho => .unary hl hk ho.moved
  | .binary hl hb hk hlt ha => by
    simp only [List.map_cons, List.map_append, Expr.moved, ← Expr.position_moved]
    exact .binary hl hb.moved hk hlt ha.moved
theorem Expr.DerivedMore.moved : Expr.DerivedMore chains tokens items →
    Expr.DerivedMore chains (tokens.map (·.moved f)) (Expr.allMoved f items)
  | .nil => .nil
  | .cons hk hf hm => by
    simp only [List.map_cons, List.map_append]
    exact .cons hk hf.moved hm.moved
theorem Expr.DerivedAll.moved : Expr.DerivedAll chains tokens items →
    Expr.DerivedAll chains (tokens.map (·.moved f)) (Expr.allMoved f items)
  | .nil => .nil
  | .cons hf hm => by
    rw [List.map_append]
    exact .cons hf.moved hm.moved
theorem Expr.DerivedCond.moved : Expr.DerivedCond chains tokens e →
    Expr.DerivedCond chains (tokens.map (·.moved f)) (e.moved f)
  | .mk hs ht hb hk he => by
    simp only [List.map_cons, List.map_append]
    exact .mk hs ht.moved hb.moved hk he.moved
theorem Block.DerivedElse.moved : Block.DerivedElse chains tokens b →
    Block.DerivedElse chains (tokens.map (·.moved f)) (b.moved f)
  | .block hb => .block hb.moved
  | .cond hc he => by
    simp only [Block.moved, ← Expr.position_moved]
    exact .cond hc he.moved
theorem Decl.Derived.moved : Decl.Derived chains tokens d →
    Decl.Derived chains (tokens.map (·.moved f)) (d.moved f)
  | .undeclared hs hn hk hv => .undeclared hs hn hk hv.moved
  | .declared hs hn hc ht hk hv => by
    simp only [List.map_cons, List.map_append]
    exact .declared hs hn hc ht.moved hk hv.moved
theorem Stmt.Derived.moved : Stmt.Derived chains tokens s →
    Stmt.Derived chains (tokens.map (·.moved f)) (s.moved f)
  | .decl hd => .decl hd.moved
  | .expr he => .expr he.moved
theorem Stmt.DerivedAll.moved : Stmt.DerivedAll chains tokens ss returnsVoid →
    Stmt.DerivedAll chains (tokens.map (·.moved f)) (Stmt.allMoved f ss) returnsVoid
  | .nil => .nil
  | .last hs => .last hs.moved
  | .cons hs ht hm => by
    simp only [List.map_cons, List.map_append]
    exact .cons hs.moved ht hm.moved
theorem Block.Derived.moved : Block.Derived chains tokens b →
    Block.Derived chains (tokens.map (·.moved f)) (b.moved f)
  | .mk hs hi hk => by
    simp only [List.map_cons, List.map_append, List.map_nil]
    exact .mk hs hi.moved hk
end

theorem Decl.DerivedAll.moved (h : Decl.DerivedAll chains tokens ds) :
    Decl.DerivedAll chains (tokens.map (·.moved f)) (ds.map (·.moved f)) := by
  induction h with
  | nil => exact .nil
  | bare hd _ ih =>
    rw [List.map_append]
    exact .bare hd.moved ih
  | ended hd ht _ ih =>
    simp only [List.map_cons, List.map_append]
    exact .ended hd.moved ht ih

/-- The declarations of two programs are those of both, one behind the other. -/
theorem Decl.DerivedAll.append (h : Decl.DerivedAll chains front ds)
    (h' : Decl.DerivedAll chains back es) : Decl.DerivedAll chains (front ++ back) (ds ++ es) := by
  induction h with
  | nil => exact h'
  | bare hd _ ih =>
    rw [List.append_assoc, List.cons_append]
    exact .bare hd ih
  | ended hd ht _ ih =>
    rw [List.append_assoc, List.cons_append, List.cons_append]
    exact .ended hd ht ih

end LetLang
