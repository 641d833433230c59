import LetLang.Proofs.Syntax.Nodes
import LetLang.Syntax.Packing

/-!
# Packed trees

In a packed tree every function has one parameter and returns one type, and
every call has one argument. Packing makes such trees, as long as every
function returns something.
-/

namespace LetLang

/-- Whether a node passes one value at a time. -/
def Node.Packed : Node → Prop
  | .expr (.func params returns _ _) => ∃ param ret, params = [param] ∧ returns = [ret]
  | .expr (.call _ args _ _) => ∃ arg, args = [arg]
  | _ => True

def Node.Returns : Node → Prop
  | .expr (.func _ returns _ _) => returns ≠ []
  | _ => True

theorem Node.Shaped.returns {n : Node} (h : n.Shaped) : n.Returns := by
  unfold Node.Returns
  split
  · exact h
  · trivial

theorem Node.Packed.returns {n : Node} (h : n.Packed) : n.Returns := by
  unfold Node.Returns
  split
  · obtain ⟨param, ret, -, rfl⟩ := h
    exact List.cons_ne_nil ret []
  · trivial

theorem Ty.curried?_cons (ty : Ty) (chain : List Ty) : ∃ t, Ty.curried? (ty :: chain) = some t := by
  induction chain generalizing ty with
  | nil => exact ⟨ty, rfl⟩
  | cons next chain ih =>
    obtain ⟨t, h⟩ := ih next
    exact ⟨.func ty t, by simp [Ty.curried?, h]⟩

theorem packParams_one (params : List Param) (position : Position) :
    ∃ param, packParams params position = [param] := by
  match params with
  | [] | [_] | _ :: _ :: _ => exact ⟨_, rfl⟩

theorem packReturns_one (h : returns ≠ []) : ∃ ret, packReturns returns = [ret] := by
  obtain ⟨first, chain, rfl⟩ := List.exists_cons_of_ne_nil h
  obtain ⟨t, ht⟩ := Ty.curried?_cons first.ty (chain.map (·.ty))
  exact ⟨⟨t, first.position⟩, by simp [packReturns, ht]⟩

theorem packArgs_one (args : List Expr) (position : Position) :
    ∃ arg, packArgs args position = [arg] := by
  match args with
  | [] | [_] | _ :: _ :: _ => exact ⟨_, rfl⟩

theorem unpackAll_packed (place : Nat) (params : List Param) :
    Stmt.EveryStmt Node.Packed (unpackAll place params) := by
  induction params generalizing place with
  | nil => trivial
  | cons param params ih => exact ⟨⟨trivial, trivial, trivial, trivial⟩, ih (place + 1)⟩

theorem unpacking_packed (params : List Param) : Stmt.EveryStmt Node.Packed (unpacking params) := by
  match params with
  | [] | [_] => trivial
  | first :: second :: more => exact unpackAll_packed 0 (first :: second :: more)

theorem packArgs_packed (h : Expr.EveryItem Node.Packed args) :
    Expr.EveryItem Node.Packed (packArgs args position) := by
  match args with
  | [_] => exact h
  | [] | _ :: _ :: _ => exact ⟨⟨trivial, h⟩, trivial⟩

mutual
/-- Packing leaves one parameter, one returned type and one argument everywhere. -/
theorem pack_packed : (e : Expr) → e.Every Node.Returns → e.pack.Every Node.Packed
  | .literal .., _ | .ident .., _ => trivial
  | .tuple items _, he | .list items _, he => ⟨trivial, packAll_packed items he.2⟩
  | .func params returns ⟨stmts, _, _⟩ position, he => by
    obtain ⟨param, hp⟩ := packParams_one params position
    obtain ⟨ret, hr⟩ := packReturns_one he.1
    exact ⟨⟨param, ret, hp, hr⟩, trivial,
      everyStmt_append (unpacking_packed params) (stmtsPack_packed stmts he.2.2)⟩
  | .call callee args _ _, he =>
    ⟨packArgs_one _ _, pack_packed callee he.2.1, packArgs_packed (packAll_packed args he.2.2)⟩
  | .block body, he => ⟨trivial, blockPack_packed body he.2⟩
  | .index target index _, he => ⟨trivial, pack_packed target he.2.1, pack_packed index he.2.2⟩
  | .cond test thenBlock elseBlock _, he =>
    ⟨trivial, pack_packed test he.2.1, blockPack_packed thenBlock he.2.2.1,
      blockPack_packed elseBlock he.2.2.2⟩
  | .loop _ iterable body _, he =>
    ⟨trivial, pack_packed iterable he.2.1, blockPack_packed body he.2.2⟩
  | .unary _ operand _, he => ⟨trivial, pack_packed operand he.2⟩
  | .binary _ left right _, he => ⟨trivial, pack_packed left he.2.1, pack_packed right he.2.2⟩
theorem packAll_packed : (es : List Expr) → Expr.EveryItem Node.Returns es →
    Expr.EveryItem Node.Packed (Expr.packAll es)
  | [], _ => trivial
  | e :: es, he => ⟨pack_packed e he.1, packAll_packed es he.2⟩
theorem declPack_packed : (d : Decl) → d.Every Node.Returns → d.pack.Every Node.Packed
  | ⟨_, _, value, _⟩, hd => ⟨trivial, pack_packed value hd.2⟩
theorem stmtsPack_packed : (ss : List Stmt) → Stmt.EveryStmt Node.Returns ss →
    Stmt.EveryStmt Node.Packed (Stmt.packAll ss)
  | [], _ => trivial
  | .decl d :: ss, hs => ⟨declPack_packed d hs.1, stmtsPack_packed ss hs.2⟩
  | .expr e :: ss, hs => ⟨pack_packed e hs.1, stmtsPack_packed ss hs.2⟩
theorem blockPack_packed : (b : Block) → b.Every Node.Returns → b.pack.Every Node.Packed
  | ⟨stmts, _, _⟩, hb => ⟨trivial, stmtsPack_packed stmts hb.2⟩
end

theorem modulePack_packed {m : Module} (h : m.Every Node.Returns) : m.pack.Every Node.Packed := by
  intro _ hd
  obtain ⟨d, hm, rfl⟩ := List.mem_map.mp hd
  exact declPack_packed d (h d hm)

end LetLang
