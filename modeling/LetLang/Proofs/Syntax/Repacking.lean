import LetLang.Proofs.Syntax.Packed
import LetLang.Proofs.Syntax.Parsing

/-!
# Packing twice

Packing leaves nothing to pack: neither the declarations that unpack parameters
nor the tuples that stand for arguments hold a function or a call, and what they
are put into is packed on its own. A packed tree stays as it is, so the packed
modules are those that packing does not change, and a second run gives what the
first one gave.
-/

namespace LetLang

-- ---------------------------------------------------------------------------
-- Packed trees stay as they are
-- ---------------------------------------------------------------------------

mutual
theorem pack_of_packed : (e : Expr) → e.Every Node.Packed → e.pack = e
  | .literal .., _ | .ident .., _ => rfl
  | .tuple items _, he | .list items _, he => by
    rw [Expr.pack, packAll_of_packed items he.2]
  | .func _ _ ⟨stmts, _, _⟩ _, he => by
    obtain ⟨⟨param, ret, rfl, rfl⟩, hb⟩ := he
    rw [Expr.pack, Block.pack, stmtsPack_of_packed stmts hb.2]
    rfl
  | .call callee _ _ _, he => by
    obtain ⟨⟨arg, rfl⟩, hc, ha⟩ := he
    rw [Expr.pack, pack_of_packed callee hc, Expr.packAll, pack_of_packed arg ha.1]
    rfl
  | .block body, he => by rw [Expr.pack, blockPack_of_packed body he.2]
  | .index target index _, he => by
    rw [Expr.pack, pack_of_packed target he.2.1, pack_of_packed index he.2.2]
  | .cond test thenBlock elseBlock _, he => by
    rw [Expr.pack, pack_of_packed test he.2.1, blockPack_of_packed thenBlock he.2.2.1,
      blockPack_of_packed elseBlock he.2.2.2]
  | .loop _ iterable body _, he => by
    rw [Expr.pack, pack_of_packed iterable he.2.1, blockPack_of_packed body he.2.2]
  | .unary _ operand _, he => by rw [Expr.pack, pack_of_packed operand he.2]
  | .binary _ left right _, he => by
    rw [Expr.pack, pack_of_packed left he.2.1, pack_of_packed right he.2.2]
theorem packAll_of_packed : (es : List Expr) → Expr.EveryItem Node.Packed es →
    Expr.packAll es = es
  | [], _ => rfl
  | e :: es, he => by rw [Expr.packAll, pack_of_packed e he.1, packAll_of_packed es he.2]
theorem declPack_of_packed : (d : Decl) → d.Every Node.Packed → d.pack = d
  | ⟨_, _, value, _⟩, hd => by rw [Decl.pack, pack_of_packed value hd.2]
theorem stmtsPack_of_packed : (ss : List Stmt) → Stmt.EveryStmt Node.Packed ss →
    Stmt.packAll ss = ss
  | [], _ => rfl
  | .decl d :: ss, hs => by
    rw [Stmt.packAll, Stmt.pack, declPack_of_packed d hs.1, stmtsPack_of_packed ss hs.2]
  | .expr e :: ss, hs => by
    rw [Stmt.packAll, Stmt.pack, pack_of_packed e hs.1, stmtsPack_of_packed ss hs.2]
theorem blockPack_of_packed : (b : Block) → b.Every Node.Packed → b.pack = b
  | ⟨stmts, _, _⟩, hb => by rw [Block.pack, stmtsPack_of_packed stmts hb.2]
end

theorem modulePack_of_packed {m : Module} (h : m.Every Node.Packed) : m.pack = m := by
  have hdecls : m.decls.map Decl.pack = m.decls :=
    (List.map_congr_left fun d hd => declPack_of_packed d (h d hd)).trans (List.map_id _)
  rw [Module.pack, hdecls]

-- ---------------------------------------------------------------------------
-- Modules
-- ---------------------------------------------------------------------------

theorem packed_iff {m : Module} :
    m.Every Node.Packed ↔ m.Every Node.Returns ∧ m.pack = m := by
  constructor
  · intro h
    exact ⟨h.imp fun _ hn => hn.returns, modulePack_of_packed h⟩
  · rintro ⟨hr, hm⟩
    have hp := modulePack_packed hr
    rwa [hm] at hp

/-- The packed modules are those, among the modules whose functions all return
something, that packing leaves as they are. It makes every other one of these
packed, so packing it again changes nothing; and every parsed module is one. -/
theorem pack_idempotent (m : Module) :
    (m.Every Node.Packed ↔ m.Every Node.Returns ∧ m.pack = m) ∧
      (m.Every Node.Returns → m.pack.Every Node.Packed ∧ m.pack.pack = m.pack) ∧
      ∀ tokens, parse tokens = .ok m → m.Every Node.Returns := by
  refine ⟨packed_iff, fun h => ?_, fun tokens h => ?_⟩
  · have hp := modulePack_packed h
    exact ⟨hp, modulePack_of_packed hp⟩
  · exact (parse_shaped h).imp fun _ hn => hn.returns

example : ¬ (Expr.func [] [] ⟨[], true, .start⟩ .start).pack.Every Node.Packed := by
  rintro ⟨⟨_, _, _, h⟩, _⟩
  cases h

end LetLang
