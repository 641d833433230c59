import LetLang.Proofs.Compile
import LetLang.Proofs.Moving.Checker
import LetLang.Proofs.Moving.Gathering
import LetLang.Proofs.Moving.Packing

/-!
# Where positions come from

Every position in a compiled module is that of a token, and so is the position
of every diagnostic about grammar or types.

The stages behind the parser make no position of their own, which shows in a
move that leaves the tokens in place and takes everything else away. The syntax
tree has only positions of tokens, so the move leaves it as it is. What compiling
makes of a moved tree is moved, so the move leaves that as it is, too. Thus
nothing stands where no token is.
-/

namespace LetLang

-- ---------------------------------------------------------------------------
-- Positions in a typed module
-- ---------------------------------------------------------------------------

namespace Typed

mutual
def Expr.positions : Expr → List Position
  | ⟨kind, _, position⟩ => position :: kind.positions
def ExprKind.positions : ExprKind → List Position
  | .literal _ | .ident _ => []
  | .tuple items | .list items => Expr.allPositions items
  | .func _ _ _ body | .block body => body.positions
  | .call callee arg => callee.positions ++ arg.positions
  | .index target index => target.positions ++ index.positions
  | .cond test thenBlock elseBlock =>
    test.positions ++ thenBlock.positions ++ elseBlock.positions
  | .loop _ iterable body => iterable.positions ++ body.positions
  | .unary _ operand => operand.positions
  | .binary _ left right => left.positions ++ right.positions
def Expr.allPositions : List Expr → List Position
  | [] => []
  | e :: es => e.positions ++ Expr.allPositions es
def Decl.positions : Decl → List Position
  | ⟨_, _, _, value, position⟩ => position :: value.positions
def Destructure.positions : Destructure → List Position
  | ⟨source, _, position⟩ => position :: source.positions
def Stmt.positions : Stmt → List Position
  | .decl d => d.positions
  | .expr e => e.positions
  | .destructure d => d.positions
def Stmt.allPositions : List Stmt → List Position
  | [] => []
  | s :: ss => s.positions ++ Stmt.allPositions ss
def Block.positions : Block → List Position
  | ⟨stmts, _, _, position⟩ => position :: Stmt.allPositions stmts
end

def Module.positions (m : Module) : List Position := m.decls.flatMap Decl.positions

variable (f : Position → Position)

mutual
theorem Expr.positions_moved : (e : Expr) → (e.moved f).positions = e.positions.map f
  | ⟨kind, _, _⟩ => by
    simp only [Expr.moved, Expr.positions, List.map_cons, kind.positions_moved]
theorem ExprKind.positions_moved : (k : ExprKind) → (k.moved f).positions = k.positions.map f
  | .literal _ | .ident _ => rfl
  | .tuple items | .list items => Expr.allPositions_moved items
  | .func _ _ _ body | .block body => body.positions_moved
  | .call callee arg => by
    simp only [ExprKind.moved, ExprKind.positions, List.map_append, callee.positions_moved,
      arg.positions_moved]
  | .index target index => by
    simp only [ExprKind.moved, ExprKind.positions, List.map_append, target.positions_moved,
      index.positions_moved]
  | .cond test thenBlock elseBlock => by
    simp only [ExprKind.moved, ExprKind.positions, List.map_append, test.positions_moved,
      thenBlock.positions_moved, elseBlock.positions_moved]
  | .loop _ iterable body => by
    simp only [ExprKind.moved, ExprKind.positions, List.map_append, iterable.positions_moved,
      body.positions_moved]
  | .unary _ operand => operand.positions_moved
  | .binary _ left right => by
    simp only [ExprKind.moved, ExprKind.positions, List.map_append, left.positions_moved,
      right.positions_moved]
theorem Expr.allPositions_moved : (es : List Expr) →
    Expr.allPositions (Expr.allMoved f es) = (Expr.allPositions es).map f
  | [] => rfl
  | e :: es => by
    simp only [Expr.allMoved, Expr.allPositions, List.map_append, e.positions_moved,
      Expr.allPositions_moved es]
theorem Decl.positions_moved : (d : Decl) → (d.moved f).positions = d.positions.map f
  | ⟨_, _, _, value, _⟩ => by
    simp only [Decl.moved, Decl.positions, List.map_cons, value.positions_moved]
theorem Destructure.positions_moved : (d : Destructure) →
    (d.moved f).positions = d.positions.map f
  | ⟨source, _, _⟩ => by
    simp only [Destructure.moved, Destructure.positions, List.map_cons, source.positions_moved]
theorem Stmt.positions_moved : (s : Stmt) → (s.moved f).positions = s.positions.map f
  | .decl d => d.positions_moved
  | .expr e => e.positions_moved
  | .destructure d => d.positions_moved
theorem Stmt.allPositions_moved : (ss : List Stmt) →
    Stmt.allPositions (Stmt.allMoved f ss) = (Stmt.allPositions ss).map f
  | [] => rfl
  | s :: ss => by
    simp only [Stmt.allMoved, Stmt.allPositions, List.map_append, s.positions_moved,
      Stmt.allPositions_moved ss]
theorem Block.positions_moved : (b : Block) → (b.moved f).positions = b.positions.map f
  | ⟨stmts, _, _, _⟩ => by
    simp only [Block.moved, Block.positions, List.map_cons, Stmt.allPositions_moved stmts]
end

theorem Module.positions_moved (m : Module) : (m.moved f).positions = m.positions.map f := by
  simp only [Module.moved, Module.positions, List.flatMap_map, List.map_flatMap,
    Decl.positions_moved]

end Typed

-- ---------------------------------------------------------------------------
-- Moves that leave a syntax tree as it is
-- ---------------------------------------------------------------------------

/-- Whether a move leaves every place of a token as it is. -/
def Keeps (p : Token → Prop) (f : Position → Position) : Prop :=
  ∀ position, position.From p → f position = position

theorem map_eq_self {g : α → α} {items : List α} (h : ∀ a ∈ items, g a = a) :
    items.map g = items :=
  (List.map_congr_left h).trans (List.map_id' items)

variable {p : Token → Prop} {f : Position → Position}

theorem Ascription.moved_eq_self {a : Ascription} (hf : Keeps p f) (h : a.From p) :
    a.moved f = a := by
  rw [Ascription.moved, hf _ h.position]

theorem params_moved_eq_self {params : List Param} (hf : Keeps p f)
    (hp : ∀ param ∈ params, param.position.From p) (ht : ∀ param ∈ params, param.type.From p) :
    params.map (·.moved f) = params := by
  refine map_eq_self fun param hm => ?_
  rw [Param.moved, Ascription.moved_eq_self hf (ht param hm), hf _ (hp param hm)]

mutual
theorem Expr.moved_eq_self (hf : Keeps p f) : (e : Expr) → e.Every (Node.From p) → e.moved f = e
  | .literal value position, h => by
    rw [Expr.moved, hf position (h.positions _ List.mem_cons_self)]
  | .ident name position, h => by
    rw [Expr.moved, hf position (h.positions _ List.mem_cons_self)]
  | .tuple items position, h => by
    rw [Expr.moved, Expr.allMoved_eq_self hf items h.2, hf position h.position_from]
  | .list items position, h => by
    rw [Expr.moved, Expr.allMoved_eq_self hf items h.2, hf position h.position_from]
  | .func params returns body position, ⟨hn, hb⟩ => by
    have hp : params.map (·.moved f) = params := params_moved_eq_self hf
      (fun param hm => hn.positions _ (List.mem_cons_of_mem _ (List.mem_map_of_mem hm)))
      fun param hm => hn.ascriptions _ (List.mem_append_left _ (List.mem_map_of_mem hm))
    have hr : returns.map (·.moved f) = returns := map_eq_self fun a ha =>
      Ascription.moved_eq_self hf (hn.ascriptions a (List.mem_append_right _ ha))
    rw [Expr.moved, hp, hr, body.moved_eq_self hf hb, hf _ (hn.positions _ List.mem_cons_self)]
  | .call callee args argsPosition position, ⟨hn, hc, ha⟩ => by
    rw [Expr.moved, callee.moved_eq_self hf hc, Expr.allMoved_eq_self hf args ha,
      hf argsPosition (hn.positions _ List.mem_cons_self),
      hf position (hn.positions _ (List.mem_cons_of_mem _ List.mem_cons_self))]
  | .block body, h => by rw [Expr.moved, body.moved_eq_self hf h.2]
  | .index target index position, h => by
    rw [Expr.moved, target.moved_eq_self hf h.2.1, index.moved_eq_self hf h.2.2,
      hf position h.position_from]
  | .cond test thenBlock elseBlock position, h => by
    rw [Expr.moved, test.moved_eq_self hf h.2.1, thenBlock.moved_eq_self hf h.2.2.1,
      elseBlock.moved_eq_self hf h.2.2.2, hf position h.position_from]
  | .loop binder iterable body position, h => by
    rw [Expr.moved, iterable.moved_eq_self hf h.2.1, body.moved_eq_self hf h.2.2,
      hf position h.position_from]
  | .unary operator operand position, h => by
    rw [Expr.moved, operand.moved_eq_self hf h.2, hf position h.position_from]
  | .binary operator left right position, h => by
    rw [Expr.moved, left.moved_eq_self hf h.2.1, right.moved_eq_self hf h.2.2,
      hf position h.position_from]
theorem Expr.allMoved_eq_self (hf : Keeps p f) : (es : List Expr) →
    Expr.EveryItem (Node.From p) es → Expr.allMoved f es = es
  | [], _ => rfl
  | e :: es, h => by rw [Expr.allMoved, e.moved_eq_self hf h.1, Expr.allMoved_eq_self hf es h.2]
theorem Decl.moved_eq_self (hf : Keeps p f) : (d : Decl) → d.Every (Node.From p) → d.moved f = d
  | ⟨name, declared, value, position⟩, ⟨hn, hv⟩ => by
    have hd : declared.map (·.moved f) = declared := by
      cases declared with
      | none => rfl
      | some a =>
        have ha : a.From p := hn.ascriptions a (List.mem_singleton.mpr rfl)
        rw [Option.map_some, Ascription.moved_eq_self hf ha]
    rw [Decl.moved, hd, value.moved_eq_self hf hv, hf _ (hn.positions _ List.mem_cons_self)]
theorem Stmt.allMoved_eq_self (hf : Keeps p f) : (ss : List Stmt) →
    Stmt.EveryStmt (Node.From p) ss → Stmt.allMoved f ss = ss
  | [], _ => rfl
  | .decl d :: ss, h => by
    rw [Stmt.allMoved, Stmt.moved, d.moved_eq_self hf h.1, Stmt.allMoved_eq_self hf ss h.2]
  | .expr e :: ss, h => by
    rw [Stmt.allMoved, Stmt.moved, e.moved_eq_self hf h.1, Stmt.allMoved_eq_self hf ss h.2]
theorem Block.moved_eq_self (hf : Keeps p f) : (b : Block) → b.Every (Node.From p) → b.moved f = b
  | ⟨stmts, _, _⟩, ⟨hn, hs⟩ => by
    rw [Block.moved, Stmt.allMoved_eq_self hf stmts hs, hf _ (hn.positions _ List.mem_cons_self)]
end

theorem Module.moved_eq_self {m : Module} (hf : Keeps p f) (h : m.Every (Node.From p)) :
    m.moved f = m := by
  have hd : m.decls.map (·.moved f) = m.decls :=
    map_eq_self fun d hm => d.moved_eq_self hf (h d hm)
  rw [Module.moved, hd]

-- ---------------------------------------------------------------------------
-- Compiling
-- ---------------------------------------------------------------------------

theorem moduleInfer_moved (f : Position → Position) (m : Module) (scope : Scope) :
    Follows f (fun t u => u = t.moved f) (m.infer scope) ((m.moved f).infer scope) := by
  have ha : scope.push.Alike scope.push := fun _ _ => rfl
  refine (declsInferAll_moved m.decls ha).bind ?_
  rintro ts _ rfl
  exact .ok rfl

theorem Typed.moduleGather_moved (f : Position → Position) (m : Typed.Module) :
    Follows f (fun t u => u = t.moved f) m.gather (m.moved f).gather := by
  refine (declsGather_moved m.decls).bind ?_
  rintro ts _ rfl
  exact .ok rfl

theorem Module.pack_moved (f : Position → Position) (m : Module) :
    (m.moved f).pack = m.pack.moved f := by
  simp [Module.pack, Module.moved, Decl.pack_moved, Function.comp_def]

/-- The move that leaves tokens in place and takes everything else away. -/
def Position.away (tokens : List Token) (position : Position) : Position :=
  if ∃ t ∈ tokens, t.position = position then position else ⟨position.row + 1, position.column⟩

theorem Position.away_eq_self {position : Position} : position.away tokens = position ↔
    ∃ t ∈ tokens, t.position = position := by
  unfold Position.away
  split
  · next h => simp [h]
  · next h =>
    refine iff_of_false (fun he => ?_) h
    exact Nat.succ_ne_self _ (congrArg Position.row he)

theorem compile_away (hl : tokenize source = .ok tokens) (hp : parse tokens = .ok m)
    (scope : Scope) : Follows (.away tokens) (fun u v => v = u.moved (.away tokens))
      (compile source scope) (compile source scope) := by
  have hm : m.moved (.away tokens) = m :=
    Module.moved_eq_self (fun _ => Position.away_eq_self.mpr)
      (parse_from (tokenize_tokens hl) hp)
  have hi := moduleInfer_moved (.away tokens) m.pack scope
  rw [← Module.pack_moved, hm] at hi
  rw [compile_of_parse hl hp]
  refine hi.bind ?_
  rintro t _ rfl
  exact Typed.moduleGather_moved _ t

/-- Every position in a compiled module is that of a token of its source, and so
is that of every diagnostic about grammar or types. -/
theorem compile_positions (source : String) (scope : Scope) :
    (∀ m, compile source scope = .ok m → ∃ tokens, tokenize source = .ok tokens ∧
      ∀ position ∈ m.positions, ∃ t ∈ tokens, t.position = position) ∧
    (∀ d, compile source scope = .error d → d.stage = .grammatical ∨ d.stage = .typing →
      ∃ tokens, tokenize source = .ok tokens ∧ ∃ t ∈ tokens, t.position = d.position) := by
  constructor
  · intro u h
    obtain ⟨tokens, m, -, hl, hp, -⟩ := compile_ok h
    refine ⟨tokens, hl, fun position hm => Position.away_eq_self.mp ?_⟩
    have hu : u = u.moved (.away tokens) :=
      Except.ok.inj (h.symm.trans ((compile_away hl hp scope).eq_ok h))
    -- A move that leaves a module as it is leaves each of its places.
    have hpos : u.positions.map (Position.away tokens) = u.positions.map id := by
      rw [← Typed.Module.positions_moved, ← hu, List.map_id]
    exact List.map_inj_left.mp hpos position hm
  · intro d h hs
    rcases compile_error h with ⟨hs', -⟩ | ⟨-, tokens, hl, hp⟩ | ⟨-, tokens, m, hl, hp, -⟩
    · rw [hs'] at hs
      rcases hs with hs | hs
      · cases hs
      · cases hs
    · rcases parse_cases (tokenize_tokens hl).all with ⟨m, hm, -⟩ | ⟨d', hd, t, ht, hpos, -⟩
      · cases hp.symm.trans hm
      · cases hp.symm.trans hd
        exact ⟨tokens, hl, t, ht, hpos.symm⟩
    · refine ⟨tokens, hl, Position.away_eq_self.mp ?_⟩
      have hd : d = d.moved (.away tokens) :=
        Except.error.inj (h.symm.trans ((compile_away hl hp scope).eq_error h))
      exact (congrArg Diagnostic.position hd).symm

/-- A function of two parameters with a call of it, a source whose types are
wrong and one that ends too early. -/
theorem sum_positions :
    (∃ m tokens,
      compile "let f = fn (a int, b int) int { a + b }; let x = f(1, 2)" .prelude = .ok m ∧
      tokenize "let f = fn (a int, b int) int { a + b }; let x = f(1, 2)" = .ok tokens ∧
      ∀ position ∈ m.positions, ∃ t ∈ tokens, t.position = position) ∧
    (∃ d tokens, compile "let x: str = 1" .prelude = .error d ∧ d.stage = .typing ∧
      tokenize "let x: str = 1" = .ok tokens ∧ ∃ t ∈ tokens, t.position = d.position) ∧
    ∃ d tokens, compile "let x: str =" .prelude = .error d ∧ d.stage = .grammatical ∧
      tokenize "let x: str =" = .ok tokens ∧ ∃ t ∈ tokens, t.position = d.position := by
  refine ⟨?_, ?_, ?_⟩
  · obtain ⟨m, hm⟩ := isOk_iff.mp (by decide +kernel :
      (compile "let f = fn (a int, b int) int { a + b }; let x = f(1, 2)" .prelude).isOk = true)
    obtain ⟨tokens, hl, h⟩ := (compile_positions _ _).1 m hm
    exact ⟨m, tokens, hm, hl, h⟩
  · obtain ⟨m, hm⟩ := isOk_iff.mp
      (by decide +kernel : (tokenize "let x: str = 1" >>= parse).isOk = true)
    obtain ⟨_, hl, hp⟩ := bind_eq_ok.mp hm
    obtain ⟨d, hd⟩ := isOk_eq_false_iff.mp
      (by decide +kernel : (compile "let x: str = 1" .prelude).isOk = false)
    have hs : d.stage = .typing := by
      rcases compile_error hd with ⟨-, hl'⟩ | ⟨-, _, hl', hp'⟩ | ⟨hs, -⟩
      · cases hl.symm.trans hl'
      · cases hl.symm.trans hl'
        cases hp.symm.trans hp'
      · exact hs
    obtain ⟨tokens, hl, h⟩ := (compile_positions _ _).2 d hd (.inr hs)
    exact ⟨d, tokens, hd, hs, hl, h⟩
  · obtain ⟨_, hl⟩ := isOk_iff.mp (by decide +kernel : (tokenize "let x: str =").isOk = true)
    obtain ⟨d, hp⟩ := isOk_eq_false_iff.mp
      (by decide +kernel : (tokenize "let x: str =" >>= parse).isOk = false)
    rw [hl, ok_bind] at hp
    obtain ⟨hd, hs⟩ := compile_grammatical_iff.mpr ⟨_, hl, hp⟩
    obtain ⟨tokens, hl, h⟩ := (compile_positions _ .prelude).2 d hd (.inl hs)
    exact ⟨d, tokens, hd, hs, hl, h⟩

end LetLang
