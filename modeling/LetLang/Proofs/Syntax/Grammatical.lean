import LetLang.Proofs.Syntax.Accepted
import LetLang.Proofs.Syntax.Parsing
import LetLang.Proofs.Syntax.Readable

/-!
# The language of the parser

The parser accepts just the modules of the grammar, and gives the tree that the
tokens before the first end mark are written for.
-/

namespace LetLang

/-- The tokens of a program, up to the first that ends it. -/
def programTokens (tokens : List Token) : List Token := tokens.takeWhile (·.kind ≠ .eof)

theorem programTokens_append {mark : EndMark} (hf : ∀ t ∈ front, t.kind ≠ .eof)
    (hr : (Cursor.mk rest mark).current.kind = .eof) : programTokens (front ++ rest) = front := by
  have hnil : programTokens rest = [] := by
    cases rest with
    | nil => rfl
    | cons t rest => exact List.takeWhile_cons_of_neg (by simpa using hr)
  unfold programTokens at *
  rw [List.takeWhile_append_of_pos (by simpa using hf), hnil, List.append_nil]

theorem exists_rest (tokens : List Token) (mark : EndMark) :
    ∃ rest, tokens = programTokens tokens ++ rest ∧
      (Cursor.mk rest mark).current.kind = .eof := by
  induction tokens with
  | nil => exact ⟨[], rfl, rfl⟩
  | cons t tokens ih =>
    by_cases hk : t.kind = .eof
    · exact ⟨t :: tokens, by simp [programTokens, hk], hk⟩
    · obtain ⟨rest, ht, hr⟩ := ih
      exact ⟨rest, by simpa [programTokens, hk] using ht, hr⟩

theorem programTokens_concat (hk : last.kind = .eof) :
    programTokens (tokens ++ [last]) = programTokens tokens := by
  induction tokens with
  | nil => simp [programTokens, hk]
  | cons t tokens ih =>
    unfold programTokens at *
    rw [List.cons_append, List.takeWhile_cons, List.takeWhile_cons, ih]

theorem programTokens_ended (h : ∀ t ∈ tokens, t.kind ≠ .eof) (p : Position) :
    programTokens (tokens ++ [.endAt p]) = tokens := by
  have hend : (Cursor.mk [Token.endAt p] ⟨Token.endText, p⟩).current.kind = .eof := rfl
  exact programTokens_append h hend

theorem programTokens_ahead (tokens : List Token) :
    programTokens (Cursor.ofTokens tokens).ahead = programTokens tokens := by
  unfold Cursor.ofTokens
  split
  · next h =>
    rw [List.getLast?_eq_none_iff.mp h]
  · next last h =>
    split
    · next hk =>
      obtain ⟨front, rfl⟩ := List.getLast?_eq_some_iff.mp h
      rw [List.dropLast_concat, programTokens_concat hk]
    · rfl

-- ---------------------------------------------------------------------------
-- Both directions
-- ---------------------------------------------------------------------------

theorem Module.Derived.parse_eq (h : Module.Derived chains (programTokens tokens) m) :
    parse tokens = .ok m := by
  rw [← programTokens_ahead] at h
  unfold parse Rule.onTokens
  generalize Cursor.ofTokens tokens = c at h
  obtain ⟨ahead, mark⟩ := c
  obtain ⟨rest, ha, hk⟩ := exists_rest ahead mark
  have hr : Rule.decls.run ⟨ahead, mark⟩ = .ok m.decls ⟨rest, mark⟩ := by
    rw [ha]
    exact (Decl.DerivedAll.reads h hk).run
  rw [hr]
  rfl

theorem Module.Derived.ne_eof {m : Module} (h : m.Derived chains tokens) :
    ∀ t ∈ tokens, t.kind ≠ .eof := by
  let mark : EndMark := ⟨Token.endText, .start⟩
  have hr : Rule.decls.run ⟨tokens ++ [], mark⟩ = .ok m.decls ⟨[], mark⟩ :=
    (Decl.DerivedAll.reads h rfl).run
  have hy := Rule.decls_yields (p := fun _ => True) (c := ⟨tokens ++ [], mark⟩)
    ⟨fun _ _ => trivial, trivial⟩
  rw [hr] at hy
  obtain ⟨⟨taken, ht, -, hne⟩, -⟩ := hy
  obtain rfl := List.append_cancel_right ht
  exact hne

theorem derived_of_parse (h : parse tokens = .ok m) : m.Derived true (programTokens tokens) := by
  have hy := Rule.decls_yields (p := fun _ => True) (c := .ofTokens tokens)
    ⟨fun _ _ => trivial, trivial⟩
  unfold parse Rule.onTokens at h
  cases hr : Rule.decls.run (.ofTokens tokens) with
  | error d c =>
    rw [hr] at h
    cases h
  | ok ds c =>
    rw [hr] at h hy
    obtain rfl := pure_eq_ok.mp h
    obtain ⟨⟨front, hf, -, hne⟩, -⟩ := hy
    obtain ⟨taken, ht, hd, hk⟩ := Rule.decls_takes ds c hr
    obtain rfl := List.append_cancel_right (hf.symm.trans ht)
    rw [← programTokens_ahead, ht, programTokens_append hne hk]
    exact hd

theorem parse_iff (tokens : List Token) (m : Module) :
    parse tokens = .ok m ↔ m.Derived true (programTokens tokens) :=
  ⟨derived_of_parse, Module.Derived.parse_eq⟩

-- ---------------------------------------------------------------------------
-- Chains of conditionals
-- ---------------------------------------------------------------------------

/-- Whether tokens have two opening braces for each conditional, and spare ones. -/
def Braced (spare : Nat) (tokens : List Token) : Prop :=
  2 * tokens.countP (·.kind = .keyword .ifWord) + spare ≤ tokens.countP (·.kind = .punct .openCurly)

namespace Braced

variable {t start : Token} {tokens front inside : List Token}

theorem nil : Braced 0 [] := Nat.le_refl _

theorem cons (hk : t.kind = kind) (hne : kind ≠ .keyword .ifWord) (h : Braced spare tokens) :
    Braced spare (t :: tokens) := by
  unfold Braced at *
  simp only [List.countP_cons, hk, hne, decide_false, Bool.false_eq_true, if_false]
  omega

theorem brace (hk : t.kind = .punct .openCurly) (h : Braced spare tokens) :
    Braced (spare + 1) (t :: tokens) := by
  unfold Braced at *
  simp only [List.countP_cons, hk, decide_true, if_true, reduceCtorEq, decide_false,
    Bool.false_eq_true, if_false]
  omega

theorem append (h : Braced spare front) (h' : Braced more tokens) :
    Braced (spare + more) (front ++ tokens) := by
  unfold Braced at *
  simp only [List.countP_append]
  omega

theorem close (h : Braced spare inside) (hk : t.kind = kind) (hne : kind ≠ .keyword .ifWord) :
    Braced spare (inside ++ [t]) := h.append (cons hk hne nil)

theorem weaken (h : Braced spare tokens) : Braced 0 tokens := by
  unfold Braced at *
  omega

theorem cond (hs : start.kind = .keyword .ifWord) (h : Braced 2 tokens) :
    Braced 0 (start :: tokens) := by
  unfold Braced at *
  simp only [List.countP_cons, hs, decide_true, if_true, reduceCtorEq, decide_false,
    Bool.false_eq_true, if_false]
  omega

end Braced

mutual
theorem Ascription.Derived.braced : Ascription.Derived level tokens a → Braced 0 tokens
  | .named hk => .cons hk nofun .nil
  | .list hs hi hk => .cons hs nofun (hi.braced.close hk nofun)
  | .unit hs hk => .cons hs nofun (.cons hk nofun .nil)
  | .group hs hi hk => .cons hs nofun (hi.braced.close hk nofun)
  | .tuple hs hf hm _ hk => .cons hs nofun (hf.braced.append (hm.braced.close hk nofun))
  | .func _ hp hk hr => hp.braced.append (.cons hk nofun hr.braced)
theorem Ty.DerivedMore.braced : Ty.DerivedMore tokens items → Braced 0 tokens
  | .nil => .nil
  | .cons hk hf hm => .cons hk nofun (hf.braced.append hm.braced)
end

theorem Separated.braced (hi : ∀ tokens item, Item tokens item → Braced 0 tokens)
    (h : Separated mark Item tokens items) : Braced 0 tokens := by
  induction h with
  | nil => exact .nil
  | cons hk hf _ ih => exact .cons hk nofun ((hi _ _ hf).append ih)

theorem Ascription.DerivedChain.braced (h : Ascription.DerivedChain tokens returns) :
    Braced 0 tokens := by
  obtain ⟨hf, hm⟩ := h
  exact hf.braced.append (hm.braced fun _ _ h => h.braced)

theorem Param.Derived.braced (h : Param.Derived tokens param) : Braced 0 tokens := by
  obtain ⟨hk, ht⟩ := h
  exact .cons hk nofun ht.braced

theorem Param.DerivedAll.braced (h : Param.DerivedAll tokens params) : Braced 0 tokens := by
  cases h with
  | nil => exact .nil
  | cons hp hm => exact hp.braced.append (hm.braced fun _ _ h => h.braced)

theorem braced_of_ofToken? (h : Literal.ofToken? t = some r) : Braced 0 [t] := by
  refine .cons rfl (fun hk => ?_) .nil
  simp [Literal.ofToken?, hk] at h

mutual
theorem Expr.Derived.braced : Expr.Derived false level tokens e → Braced 0 tokens
  | .literal hv => braced_of_ofToken? hv
  | .ident hk => .cons hk nofun .nil
  | .group hs hi hk => .cons hs nofun (hi.braced.close hk nofun)
  | .tuple hs hf hm _ hk => .cons hs nofun (hf.braced.append (hm.braced.close hk nofun))
  | .list hs hi hk => .cons hs nofun (hi.braced.close hk nofun)
  | .func hs hl hp hr hc hb =>
    .cons hs nofun (.cons hl nofun
      (hp.braced.append (.cons hr nofun (hc.braced.append hb.braced.weaken))))
  | .block hb => hb.braced.weaken
  | .cond hc => hc.braced
  | .loop hs hn hk hi hb =>
    .cons hs nofun (.cons hn nofun (.cons hk nofun (hi.braced.append hb.braced.weaken)))
  | .call _ hc hs ha hk => hc.braced.append (.cons hs nofun (ha.braced.close hk nofun))
  | .index _ ht hs hi hk => ht.braced.append (.cons hs nofun (hi.braced.close hk nofun))
  | .unary _ hk ho => .cons hk nofun ho.braced
  | .binary _ hb hk _ ha => hb.braced.append (.cons hk nofun ha.braced)
theorem Expr.DerivedMore.braced : Expr.DerivedMore false tokens items → Braced 0 tokens
  | .nil => .nil
  | .cons hk hf hm => .cons hk nofun (hf.braced.append hm.braced)
theorem Expr.DerivedAll.braced : Expr.DerivedAll false tokens items → Braced 0 tokens
  | .nil => .nil
  | .cons hf hm => hf.braced.append hm.braced
theorem Expr.DerivedCond.braced : Expr.DerivedCond false tokens e → Braced 0 tokens
  | .mk hs ht hb hk he =>
    .cond hs (ht.braced.append (hb.braced.append (.cons hk nofun he.braced)))
theorem Block.DerivedElse.braced : Block.DerivedElse false tokens b → Braced 1 tokens
  | .block hb => hb.braced
theorem Decl.Derived.braced : Decl.Derived false tokens d → Braced 0 tokens
  | .undeclared hs hn hk hv => .cons hs nofun (.cons hn nofun (.cons hk nofun hv.braced))
  | .declared hs hn hc ht hk hv =>
    .cons hs nofun (.cons hn nofun (.cons hc nofun (ht.braced.append (.cons hk nofun hv.braced))))
theorem Stmt.Derived.braced : Stmt.Derived false tokens s → Braced 0 tokens
  | .decl hd => hd.braced
  | .expr he => he.braced
theorem Stmt.DerivedAll.braced : Stmt.DerivedAll false tokens ss returnsVoid → Braced 0 tokens
  | .nil => .nil
  | .last hs => hs.braced
  | .cons hs ht hm => hs.braced.append (.cons ht nofun hm.braced)
theorem Block.Derived.braced : Block.Derived false tokens b → Braced 1 tokens
  | .mk hs hi hk => .brace hs (hi.braced.close hk nofun)
end

/-- In a grammar without chains each conditional has two blocks of its own. -/
theorem Decl.DerivedAll.braced (h : Decl.DerivedAll false tokens ds) : Braced 0 tokens := by
  induction h with
  | nil => exact .nil
  | bare hd _ ih => exact hd.braced.append ih
  | ended hd ht _ ih => exact hd.braced.append (.cons ht nofun ih)

/-- The tokens of a declaration whose value is a chain of two conditionals. -/
def chainedTokens : List Token :=
  [(.keyword .letWord, "let", 1), (.identifier, "f", 5), (.punct .assign, "=", 7),
    (.keyword .ifWord, "if", 9), (.keyword .trueWord, "true", 12),
    (.punct .openCurly, "\x7b", 17), (.punct .closeCurly, "\x7d", 19),
    (.keyword .elseWord, "else", 21), (.keyword .ifWord, "if", 26),
    (.keyword .trueWord, "true", 29), (.punct .openCurly, "\x7b", 34),
    (.punct .closeCurly, "\x7d", 36), (.keyword .elseWord, "else", 38),
    (.punct .openCurly, "\x7b", 43), (.punct .closeCurly, "\x7d", 45),
    (.eof, Token.endText, 46)].map fun (kind, value, column) => ⟨kind, value, ⟨1, column⟩⟩

/-- The parser accepts chains of conditionals. -/
theorem parse_chained :
    ¬ ∀ tokens m, parse tokens = .ok m → m.Derived false (programTokens tokens) := by
  intro h
  obtain ⟨m, hm⟩ : ∃ m, parse chainedTokens = .ok m := isOk_iff.mp (by decide +kernel)
  have hb := Decl.DerivedAll.braced (h chainedTokens m hm)
  unfold Braced at hb
  exact absurd hb (by decide)

end LetLang
