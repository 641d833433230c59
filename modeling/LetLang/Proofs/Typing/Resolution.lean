import LetLang.Proofs.Typing.Rules

/-!
# Scopes that resolve names alike

The rules ask of a scope only what its names resolve to, so scopes that differ
in their frames but resolve every name alike have the same typed trees.
-/

namespace LetLang

/-- Whether two scopes resolve the names of a kind alike. -/
def Scope.AlikeOn (p : String → Prop) (s s' : Scope) : Prop :=
  ∀ name, p name → s.lookup name = s'.lookup name

abbrev Scope.Alike (s s' : Scope) : Prop := s.AlikeOn (fun _ => True) s'

theorem Scope.AlikeOn.bind {s s' : Scope} (h : s.AlikeOn p s') (name : String) (ty : Ty) :
    (s.bind name ty).AlikeOn p (s'.bind name ty) := by
  intro other hp
  simp only [Scope.lookup_bind, h other hp]

theorem Scope.AlikeOn.push {s s' : Scope} (h : s.AlikeOn p s') : s.push.AlikeOn p s'.push := by
  intro other hp
  simp only [Scope.lookup_push, h other hp]

theorem Scope.AlikeOn.bindAll {s s' : Scope} (h : s.AlikeOn p s') (bindings : List (String × Ty)) :
    (s.bindAll bindings).AlikeOn p (s'.bindAll bindings) := by
  induction bindings generalizing s s' with
  | nil => exact h
  | cons binding bindings ih => exact ih (h.bind binding.1 binding.2)

/-- Binding a name again to the same type changes nothing. -/
theorem Scope.bind_bind_alike (s : Scope) (name : String) (ty : Ty) :
    ((s.bind name ty).bind name ty).Alike (s.bind name ty) := by
  intro other _
  simp only [Scope.lookup_bind]
  split
  · rfl
  · rfl

namespace Typed

theorem Decl.valueScope_alike {s s' : Scope} (d : Decl) (h : s.Alike s') :
    (d.valueScope s).Alike (d.valueScope s') := by
  unfold Decl.valueScope
  split
  · exact h.bind _ _
  · exact h

mutual
theorem Expr.WellTyped.alike : Expr.WellTyped s e → s.Alike s' → Expr.WellTyped s' e
  | .literal_int, _ => .literal_int
  | .literal_float, _ => .literal_float
  | .literal_char, _ => .literal_char
  | .literal_str, _ => .literal_str
  | .literal_bool, _ => .literal_bool
  | .ident h, ha => .ident ((ha _ trivial).symm.trans h)
  | .tuple h, ha => .tuple (h.alike ha)
  | .list h hty, ha => .list (h.alike ha) hty
  | .func hb hr, ha => .func (hb.alike (ha.push.bind _ _)) hr
  | .call hc hg hf hp, ha => .call (hc.alike ha) (hg.alike ha) hf hp
  | .block hb, ha => .block (hb.alike ha)
  | .index_tuple ht hty hi, ha => .index_tuple (ht.alike ha) hty hi
  | .index_list ht hi hty hk, ha => .index_list (ht.alike ha) (hi.alike ha) hty hk
  | .index_str ht hi hty hk, ha => .index_str (ht.alike ha) (hi.alike ha) hty hk
  | .cond hc hb hy hn h1 h2, ha => .cond (hc.alike ha) hb (hy.alike ha) (hn.alike ha) h1 h2
  | .loop hi hty hb, ha => .loop (hi.alike ha) hty (hb.alike (ha.push.bind _ _))
  | .unary ho hop, ha => .unary (ho.alike ha) hop
  | .binary hl hr hty hop, ha => .binary (hl.alike ha) (hr.alike ha) hty hop
theorem Expr.AllWellTyped.alike : Expr.AllWellTyped s es → s.Alike s' → Expr.AllWellTyped s' es
  | .nil, _ => .nil
  | .cons he hs, ha => .cons (he.alike ha) (hs.alike ha)
theorem Decl.WellTyped.alike : Decl.WellTyped s d → s.Alike s' → Decl.WellTyped s' d
  | .mk hv hty hw hn, ha => .mk (hv.alike (d.valueScope_alike ha)) hty hw hn
theorem Stmt.AllWellTyped.alike : Stmt.AllWellTyped s ss → s.Alike s' → Stmt.AllWellTyped s' ss
  | .nil, _ => .nil
  | .decl hd hr, ha => .decl (hd.alike ha) (hr.alike (ha.bind _ _))
  | .expr he hr, ha => .expr (he.alike ha) (hr.alike ha)
theorem Block.WellTyped.alike : Block.WellTyped s b → s.Alike s' → Block.WellTyped s' b
  | .value h, ha => .value (h.alike ha.push)
  | .void h hv, ha => .void (h.alike ha.push) hv
end

end Typed

end LetLang
