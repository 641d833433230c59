import LetLang.Proofs.Syntax.Grammatical

/-!
# Where nodes stand

Every node of a tree that the parser gives stands at the first token of those that
it was parsed from. Parentheses that only group an expression belong to no node, so
an expression stands at the first token behind those that its range opens with. The
parentheses of a written type belong to it, and the block that holds the next
conditional of a chain has the range of that conditional.
-/

namespace LetLang

/-- Whether tokens open with parentheses that only group an expression. -/
def OpensGroup (tokens : List Token) : Prop :=
  ∃ start inside stop rest e, tokens = start :: (inside ++ stop :: rest) ∧
    start.kind = .punct .openParen ∧ Expr.Derived true .whole inside e ∧
    stop.kind = .punct .closeParen

/-- Whether a token is the first of a range, apart from parentheses that only group. -/
inductive Leads : Token → List Token → Prop where
  | own : ¬ OpensGroup (t :: rest) → Leads t (t :: rest)
  | behind : OpensGroup (start :: rest) → Leads t rest → Leads t (start :: rest)

def Heads (t : Token) (range : List Token) : Prop := range.head? = some t

/-- Whether something that is parsed from ranges of a program has the place of the
first token of such a range, whichever it is. -/
structure StandsFirst (program : List Token) (Parsed : List Token → Prop)
    (First : Token → List Token → Prop) (position : Position) : Prop where
  parsed : ∃ range, range <:+: program ∧ Parsed range
  first : ∀ range, Parsed range → ∃ t, (∀ u, First u range ↔ u = t) ∧ t.position = position

def Node.Sited (program : List Token) : Node → Prop
  | .expr e => StandsFirst program (Expr.Derived true .whole · e) Leads e.position
  | .decl d => StandsFirst program (Decl.Derived true · d) Heads d.position
  | .block b => StandsFirst program (Block.DerivedElse true · b) Heads b.position

def Param.Sited (program : List Token) (param : Param) : Prop :=
  StandsFirst program (Param.Derived · param) Heads param.position

def Ascription.Sited (program : List Token) (a : Ascription) : Prop :=
  StandsFirst program (Ascription.Derived .whole · a) Heads a.position

def Node.params : Node → List Param
  | .expr (.func params _ _ _) => params
  | _ => []

/-- Whether a node, its parameters and the types written at it have the places of
the tokens that they start with. -/
structure Node.Placed (program : List Token) (n : Node) : Prop where
  node : n.Sited program
  params : ∀ param ∈ n.params, param.Sited program
  ascriptions : ∀ a ∈ n.ascriptions, a.Sited program

-- ---------------------------------------------------------------------------
-- The first token
-- ---------------------------------------------------------------------------

theorem Leads.unique (h : Leads t range) (h' : Leads u range) : t = u := by
  induction h with
  | own hn =>
    cases h' with
    | own => rfl
    | behind hg => exact absurd hg hn
  | behind hg _ ih =>
    cases h' with
    | own hn => exact absurd hg hn
    | behind _ h' => exact ih h'

theorem Heads.unique (h : Heads t range) (h' : Heads u range) : t = u :=
  Option.some.inj (h.symm.trans h')

theorem Leads.of_heads (h : Heads t tokens) (hk : t.kind ≠ .punct .openParen) :
    Leads t (tokens ++ more) := by
  obtain ⟨rest, rfl⟩ := List.head?_eq_some_iff.mp h
  refine .own ?_
  rintro ⟨start, inside, stop, back, e, ht, hs, -, -⟩
  obtain ⟨rfl, -⟩ := List.cons.inj ht
  exact hk hs

theorem Expr.Derived.behind_unique {front front' : List Token}
    (h : Expr.Derived true .whole front e) (hk : t.kind.power? = none)
    (h' : Expr.Derived true .whole front' e') (hk' : u.kind.power? = none)
    (heq : front ++ t :: rest = front' ++ u :: rest') : t = u := by
  have reads {tokens e v} (back : List Token) (hd : Expr.Derived true .whole tokens e)
      (hn : v.kind.power? = none) : (Rule.expr .whole).Reads
        ⟨tokens ++ v :: back, ⟨Token.endText, .start⟩⟩ e ⟨v :: back, ⟨Token.endText, .start⟩⟩ :=
    (hd.readable.whole hn).run
  have hr := reads rest h hk
  rw [heq] at hr
  cases hr.symm.trans (reads rest' h' hk')
  rfl

theorem not_opensGroup {before more : List Token} (hf : Expr.Derived true .whole before first)
    (hm : Expr.DerivedMore true more items) (hne : items ≠ []) :
    ¬ OpensGroup (start :: (before ++ (more ++ back))) := by
  rintro ⟨start', inside, stop, rest, e, ht, -, hi, hs⟩
  obtain ⟨-, ht⟩ := List.cons.inj ht
  cases hm with
  | nil => exact hne rfl
  | cons hc =>
    obtain rfl := hf.behind_unique (by rw [hc]; rfl) hi (by rw [hs]; rfl) ht
    cases hc.symm.trans hs

theorem UnaryOp.punct_ne_openParen (op : UnaryOp) : op.punct ≠ .openParen := by
  cases op <;> nofun

theorem ofToken?_not_paren (h : Literal.ofToken? t = some r) : t.kind ≠ .punct .openParen := by
  intro hk
  simp [Literal.ofToken?, hk] at h

theorem Ascription.Derived.heads : Ascription.Derived level tokens a →
    ∀ more, ∃ t, Heads t (tokens ++ more) ∧ t.position = a.position
  | .named _, _ | .list _ _ _, _ | .unit _ _, _ | .group _ _ _, _ | .tuple _ _ _ _ _, _ =>
    ⟨_, rfl, rfl⟩
  | .func _ hp _ _, more => by
    rw [List.append_assoc]
    exact hp.heads _

theorem Block.Derived.heads (h : Block.Derived true tokens b) :
    ∃ t, Heads t tokens ∧ t.kind = .punct .openCurly ∧ t.position = b.position := by
  obtain ⟨hs, -, -⟩ := h
  exact ⟨_, rfl, hs, rfl⟩

theorem Expr.DerivedCond.heads (h : Expr.DerivedCond true tokens e) :
    ∃ t, Heads t tokens ∧ t.kind = .keyword .ifWord ∧ t.position = e.position := by
  obtain ⟨hs, -, -, -, -⟩ := h
  exact ⟨_, rfl, hs, rfl⟩

theorem Block.DerivedElse.heads (h : Block.DerivedElse true tokens b) :
    ∃ t, Heads t tokens ∧ t.position = b.position := by
  cases h with
  | block hb =>
    obtain ⟨t, ht, -, hp⟩ := hb.heads
    exact ⟨t, ht, hp⟩
  | cond _ hc =>
    obtain ⟨t, ht, -, hp⟩ := hc.heads
    exact ⟨t, ht, hp⟩

theorem Decl.Derived.heads (h : Decl.Derived true tokens d) :
    ∃ t, Heads t tokens ∧ t.position = d.position := by
  cases h with
  | undeclared | declared => exact ⟨_, rfl, rfl⟩

theorem Param.Derived.heads (h : Param.Derived tokens param) :
    ∃ t, Heads t tokens ∧ t.position = param.position := by
  cases h with
  | mk => exact ⟨_, rfl, rfl⟩

/-- An expression stands at the leading token of its range. One that starts with its
left operand stands where that does, and so on down to a token of its own. -/
theorem Expr.Derived.leads : Expr.Derived true level tokens e →
    ∀ more, ∃ t, Leads t (tokens ++ more) ∧ t.position = e.position
  | .literal hv, _ => ⟨_, .of_heads rfl (ofToken?_not_paren hv), rfl⟩
  | .ident hk, _ => ⟨_, .of_heads rfl (by simp [hk]), rfl⟩
  | .group hs hi hk, more => by
    obtain ⟨t, ht, hp⟩ := hi.leads ([_] ++ more)
    rw [List.cons_append, List.append_assoc]
    exact ⟨t, .behind ⟨_, _, _, more, _, rfl, hs, hi, hk⟩ ht, hp⟩
  | .tuple hs hf hm hne hk, more => by
    rw [List.cons_append, List.append_assoc, List.append_assoc]
    exact ⟨_, .own (not_opensGroup hf hm hne), rfl⟩
  | .list hs _ _, _ => ⟨_, .of_heads rfl (by simp [hs]), rfl⟩
  | .func hs _ _ _ _ _, _ => ⟨_, .of_heads rfl (by simp [hs]), rfl⟩
  | .loop hs _ _ _ _, _ => ⟨_, .of_heads rfl (by simp [hs]), rfl⟩
  | .block hb, _ => by
    obtain ⟨t, ht, hk, hp⟩ := hb.heads
    exact ⟨t, .of_heads ht (by simp [hk]), hp⟩
  | .cond hc, _ => by
    obtain ⟨t, ht, hk, hp⟩ := hc.heads
    exact ⟨t, .of_heads ht (by simp [hk]), hp⟩
  | .unary _ hk _, _ => ⟨_, .of_heads rfl (by simp [hk, UnaryOp.punct_ne_openParen]), rfl⟩
  -- What starts with an operand stands where the operand does.
  | .call _ hl _ _ _, _ => by
    rw [List.append_assoc]
    exact hl.leads _
  | .index _ hl _ _ _, _ => by
    rw [List.append_assoc]
    exact hl.leads _
  | .binary _ hl _ _ _, _ => by
    rw [List.append_assoc]
    exact hl.leads _

-- ---------------------------------------------------------------------------
-- Every node
-- ---------------------------------------------------------------------------

section

variable {program : List Token}

theorem within_tail (h : t :: tokens <:+: program) : tokens <:+: program :=
  (List.suffix_cons _ _).isInfix.trans h

theorem within_left (h : front ++ back <:+: program) : front <:+: program :=
  (List.prefix_append _ _).isInfix.trans h

theorem within_right (h : front ++ back <:+: program) : back <:+: program :=
  (List.suffix_append _ _).isInfix.trans h

theorem StandsFirst.of_first (hu : ∀ {range t u}, First t range → First u range → t = u)
    (hin : tokens <:+: program) (h : Parsed tokens)
    (hf : ∀ range, Parsed range → ∃ t, First t range ∧ t.position = position) :
    StandsFirst program Parsed First position := by
  refine ⟨⟨tokens, hin, h⟩, fun range hr => ?_⟩
  obtain ⟨t, ht, hp⟩ := hf range hr
  exact ⟨t, fun u => ⟨fun hu' => hu hu' ht, fun he => he ▸ ht⟩, hp⟩

theorem Ascription.Derived.sited (h : Ascription.Derived level tokens a)
    (hin : tokens <:+: program) : a.Sited program := by
  refine .of_first Heads.unique hin (h.weaken (BindingPower.whole_le level)) fun range hr => ?_
  simpa using hr.heads []

theorem Separated.within {p : α → Prop} (h : Separated mark Item tokens items)
    (hin : tokens <:+: program)
    (hi : ∀ front item, Item front item → front <:+: program → p item) :
    ∀ item ∈ items, p item := by
  induction h with
  | nil => nofun
  | cons _ hf _ ih =>
    have hin := within_tail hin
    exact List.forall_mem_cons.mpr ⟨hi _ _ hf (within_left hin), ih (within_right hin)⟩

theorem Ascription.DerivedChain.sited (h : Ascription.DerivedChain tokens returns)
    (hin : tokens <:+: program) : ∀ a ∈ returns, a.Sited program := by
  obtain ⟨hf, hm⟩ := h
  exact List.forall_mem_cons.mpr ⟨hf.sited (within_left hin),
    hm.within (within_right hin) fun _ _ ha => ha.sited⟩

theorem Param.Derived.sited (h : Param.Derived tokens param) (hin : tokens <:+: program) :
    param.Sited program ∧ param.type.Sited program := by
  refine ⟨.of_first Heads.unique hin h fun _ hr => hr.heads, ?_⟩
  obtain ⟨-, ht⟩ := h
  exact ht.sited (within_tail hin)

theorem Param.DerivedAll.sited (h : Param.DerivedAll tokens params) (hin : tokens <:+: program) :
    ∀ param ∈ params, param.Sited program ∧ param.type.Sited program := by
  cases h with
  | nil => nofun
  | cons hp hm =>
    exact List.forall_mem_cons.mpr ⟨hp.sited (within_left hin),
      hm.within (within_right hin) fun _ _ hq => hq.sited⟩

theorem Expr.Derived.sited (h : Expr.Derived true level tokens e) (hin : tokens <:+: program) :
    (Node.expr e).Sited program := by
  refine .of_first Leads.unique hin (h.weaken (BindingPower.whole_le level)) fun range hr => ?_
  simpa using hr.leads []

theorem Expr.Derived.bare (h : Expr.Derived true level tokens e) (hin : tokens <:+: program)
    (hp : (Node.expr e).params = []) (ha : (Node.expr e).ascriptions = []) :
    (Node.expr e).Placed program :=
  ⟨h.sited hin, by rw [hp]; nofun, by rw [ha]; nofun⟩

theorem Block.DerivedElse.bare (h : Block.DerivedElse true tokens b) (hin : tokens <:+: program) :
    (Node.block b).Placed program :=
  ⟨.of_first Heads.unique hin h fun _ hr => hr.heads, nofun, nofun⟩

theorem Decl.Derived.sited (h : Decl.Derived true tokens d) (hin : tokens <:+: program) :
    (Node.decl d).Sited program := .of_first Heads.unique hin h fun _ hr => hr.heads

mutual
/-- Every node of a derived tree stands at the first token of its range. -/
theorem Expr.Derived.placed : Expr.Derived true level tokens e → tokens <:+: program →
    e.Every (Node.Placed program)
  | h@(.literal _), hin => h.bare hin rfl rfl
  | h@(.ident _), hin => h.bare hin rfl rfl
  | .group _ hi _, hin => hi.placed (within_left (within_tail hin))
  | h@(.tuple _ hf hm _ _), hin =>
    ⟨h.bare hin rfl rfl, hf.placed (within_left (within_tail hin)),
      hm.placed (within_left (within_right (within_tail hin)))⟩
  | h@(.list _ hi _), hin =>
    ⟨h.bare hin rfl rfl, hi.placed (within_left (within_tail hin))⟩
  | h@(.func _ _ hp _ hc hb), hin =>
    have hinside := within_tail (within_tail hin)
    have hrest := within_tail (within_right hinside)
    have hparams := hp.sited (within_left hinside)
    have htypes := List.forall_mem_append.mpr
      ⟨List.forall_mem_map.mpr fun param hm => (hparams param hm).2, hc.sited (within_left hrest)⟩
    ⟨⟨h.sited hin, fun param hm => (hparams param hm).1, htypes⟩, hb.placed (within_right hrest)⟩
  | h@(.block hb), hin => ⟨h.bare hin rfl rfl, hb.placed hin⟩
  | .cond hc, hin => hc.placed hin
  | h@(.loop _ _ _ hi hb), hin =>
    have hrest := within_tail (within_tail (within_tail hin))
    ⟨h.bare hin rfl rfl, hi.placed (within_left hrest), hb.placed (within_right hrest)⟩
  | h@(.call _ hc _ ha _), hin =>
    ⟨h.bare hin rfl rfl, hc.placed (within_left hin),
      ha.placed (within_left (within_tail (within_right hin)))⟩
  | h@(.index _ ht _ hi _), hin =>
    ⟨h.bare hin rfl rfl, ht.placed (within_left hin),
      hi.placed (within_left (within_tail (within_right hin)))⟩
  | h@(.unary _ _ ho), hin => ⟨h.bare hin rfl rfl, ho.placed (within_tail hin)⟩
  | h@(.binary _ hl _ _ hr), hin =>
    ⟨h.bare hin rfl rfl, hl.placed (within_left hin), hr.placed (within_tail (within_right hin))⟩
theorem Expr.DerivedMore.placed : Expr.DerivedMore true tokens items → tokens <:+: program →
    Expr.EveryItem (Node.Placed program) items
  | .nil, _ => trivial
  | .cons _ hf hm, hin =>
    have hin := within_tail hin
    ⟨hf.placed (within_left hin), hm.placed (within_right hin)⟩
theorem Expr.DerivedAll.placed : Expr.DerivedAll true tokens items → tokens <:+: program →
    Expr.EveryItem (Node.Placed program) items
  | .nil, _ => trivial
  | .cons hf hm, hin => ⟨hf.placed (within_left hin), hm.placed (within_right hin)⟩
theorem Expr.DerivedCond.placed : Expr.DerivedCond true tokens e → tokens <:+: program →
    e.Every (Node.Placed program)
  | h@(.mk _ ht hb _ he), hin =>
    have hcond : Expr.Derived true .whole _ _ := .cond h
    have hrest := within_right (within_tail hin)
    ⟨hcond.bare hin rfl rfl,
      ht.placed (within_left (within_tail hin)), hb.placed (within_left hrest),
      he.placed (within_tail (within_right hrest))⟩
theorem Block.DerivedElse.placed : Block.DerivedElse true tokens b → tokens <:+: program →
    b.Every (Node.Placed program)
  | .block hb, hin => hb.placed hin
  | h@(.cond _ hc), hin => ⟨h.bare hin, hc.placed hin, trivial⟩
theorem Decl.Derived.placed : Decl.Derived true tokens d → tokens <:+: program →
    d.Every (Node.Placed program)
  | h@(.undeclared _ _ _ hv), hin =>
    ⟨⟨h.sited hin, nofun, nofun⟩,
      hv.placed (within_tail (within_tail (within_tail hin)))⟩
  | h@(.declared _ _ _ ht _ hv), hin =>
    have hrest := within_tail (within_tail (within_tail hin))
    ⟨⟨h.sited hin, nofun,
        List.forall_mem_singleton.mpr (ht.sited (within_left hrest))⟩,
      hv.placed (within_tail (within_right hrest))⟩
theorem Stmt.Derived.placed : Stmt.Derived true tokens s → tokens <:+: program →
    Stmt.EveryStmt (Node.Placed program) ss → Stmt.EveryStmt (Node.Placed program) (s :: ss)
  | .decl hd, hin, hs => ⟨hd.placed hin, hs⟩
  | .expr he, hin, hs => ⟨he.placed hin, hs⟩
theorem Stmt.DerivedAll.placed : Stmt.DerivedAll true tokens ss returnsVoid →
    tokens <:+: program → Stmt.EveryStmt (Node.Placed program) ss
  | .nil, _ => trivial
  | .last hs, hin => hs.placed hin trivial
  | .cons hs _ hm, hin =>
    hs.placed (within_left hin) (hm.placed (within_tail (within_right hin)))
theorem Block.Derived.placed : Block.Derived true tokens b → tokens <:+: program →
    b.Every (Node.Placed program)
  | h@(.mk _ hi _), hin =>
    ⟨Block.DerivedElse.bare (.block h) hin, hi.placed (within_left (within_tail hin))⟩
end

theorem Decl.DerivedAll.placed (h : Decl.DerivedAll true tokens ds) (hin : tokens <:+: program) :
    ∀ d ∈ ds, d.Every (Node.Placed program) := by
  induction h with
  | nil => nofun
  | bare hd _ ih =>
    exact List.forall_mem_cons.mpr ⟨hd.placed (within_left hin), ih (within_right hin)⟩
  | ended hd _ _ ih =>
    exact List.forall_mem_cons.mpr
      ⟨hd.placed (within_left hin), ih (within_tail (within_right hin))⟩

end

/-- Every node of a parsed module, and every parameter and written type, has the place
of the first token of the range that it was parsed from. -/
theorem nodes_placed (h : parse tokens = .ok m) :
    m.Every (Node.Placed (programTokens tokens)) :=
  (derived_of_parse h).placed (List.infix_refl _)

theorem grouped_callee_placed :
    let tokens : List Token :=
      [(.keyword .letWord, "let", 1), (.identifier, "x", 5), (.punct .assign, "=", 7),
        (.punct .openParen, "(", 9), (.identifier, "f", 10), (.punct .closeParen, ")", 11),
        (.punct .openParen, "(", 12), (.punct .closeParen, ")", 13)].map
          fun (kind, value, column) => ⟨kind, value, ⟨1, column⟩⟩
    let m : Module :=
      ⟨[⟨"x", none, .call (.ident "f" ⟨1, 10⟩) [] ⟨1, 12⟩ ⟨1, 10⟩, ⟨1, 1⟩⟩]⟩
    parse tokens = .ok m ∧ m.Every (Node.Placed tokens) := by
  intro tokens m
  have h : parse tokens = .ok m := rfl
  exact ⟨h, nodes_placed h⟩

end LetLang
