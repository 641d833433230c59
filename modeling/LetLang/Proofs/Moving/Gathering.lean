import LetLang.Proofs.Moving.Trees
import LetLang.Typed.Gathering

/-!
# Gathering at other places

Gathering finds the declarations that unpack parameters by what they take from
the pack, wherever they stand.
-/

namespace LetLang.Typed

variable {f : Position → Position}

def Unpacking.moved (f : Position → Position) (u : Unpacking) : Unpacking :=
  { u with pack := u.pack.moved f, position := f u.position }

theorem Stmt.unpacking?_moved (s : Stmt) :
    (s.moved f).unpacking? = s.unpacking?.map (·.moved f) := by
  cases s with
  | decl d =>
    obtain ⟨name, declared, ty, ⟨kind, valueTy, place⟩, position⟩ := d
    cases kind with
    | index target index =>
      obtain ⟨targetKind, targetTy, targetPosition⟩ := target
      obtain ⟨indexKind, indexTy, indexPosition⟩ := index
      cases targetKind with
      | ident pack =>
        cases indexKind with
        | literal value =>
          cases value with
          | int n =>
            simp only [Stmt.moved, Decl.moved, Expr.moved, ExprKind.moved, Stmt.unpacking?]
            split <;> rfl
          | _ => rfl
        | _ => rfl
      | _ => rfl
    | _ => rfl
  | _ => rfl

theorem splitUnpackings_moved (ss : List Stmt) :
    splitUnpackings (ss.map (·.moved f)) =
      ((splitUnpackings ss).1.map (·.moved f), (splitUnpackings ss).2.map (·.moved f)) := by
  induction ss with
  | nil => rfl
  | cons s ss ih =>
    simp only [List.map_cons, splitUnpackings, s.unpacking?_moved, ih]
    cases s.unpacking? with
    | none => rfl
    | some first => rfl

theorem checkPlaces_moved (place : Nat) (us : List Unpacking) :
    Follows f Eq (checkPlaces place us) (checkPlaces place (us.map (·.moved f))) := by
  induction us generalizing place with
  | nil => exact .ok rfl
  | cons u us ih =>
    simp only [List.map_cons, checkPlaces, Unpacking.moved]
    split
    · exact ih (place + 1)
    · exact .error

theorem gatherRun_moved (first : Unpacking) (more : List Unpacking) :
    Follows f (fun d d' => d' = d.moved f) (gatherRun first more)
      (gatherRun (first.moved f) (more.map (·.moved f))) := by
  unfold gatherRun
  refine (checkPlaces_moved 0 (first :: more)).bind ?_
  rintro _ _ -
  simp only [Unpacking.moved, Expr.ty_moved, List.length_cons, List.length_map]
  refine .ensure fun _ => .ok ?_
  simp [Destructure.moved, List.map_map, Function.comp_def]

theorem gatherPrologue_moved (b : Block) :
    FollowsBlock f b.gatherPrologue (b.moved f).gatherPrologue := by
  obtain ⟨stmts, returnsVoid, ty, position⟩ := b
  simp only [Block.gatherPrologue, Block.moved, Stmt.allMoved_eq_map, splitUnpackings_moved]
  generalize splitUnpackings stmts = parts
  obtain ⟨run, rest⟩ := parts
  cases run with
  | nil => exact .ok (by simp only [Block.moved, Stmt.allMoved_eq_map])
  | cons first more =>
    refine (gatherRun_moved first more).bind ?_
    rintro d _ rfl
    exact .ok (by simp only [Block.moved, Stmt.allMoved_eq_map, List.map_cons, Stmt.moved])

mutual
theorem Expr.gather_moved : (e : Expr) →
    FollowsExpr f e.gather (e.moved f).gather
  | ⟨kind, ty, position⟩ => by
    simp only [Expr.moved, Expr.gather]
    refine kind.gather_moved.bind ?_
    rintro k _ rfl
    exact .ok rfl
theorem ExprKind.gather_moved : (kind : ExprKind) →
    Follows f (fun t u => u = t.moved f) kind.gather (kind.moved f).gather
  | .literal _ | .ident _ => .ok rfl
  | .tuple items | .list items => by
    simp only [ExprKind.moved, ExprKind.gather]
    refine (Expr.gatherAll_moved items).bind ?_
    rintro ts _ rfl
    exact .ok rfl
  | .func param paramTy returnTy body => by
    simp only [ExprKind.moved, ExprKind.gather]
    refine body.gather_moved.bind ?_
    rintro b _ rfl
    split
    · refine (gatherPrologue_moved b).bind ?_
      rintro b' _ rfl
      exact .ok rfl
    · exact .ok rfl
  | .call callee arg => by
    simp only [ExprKind.moved, ExprKind.gather]
    refine callee.gather_moved.bind ?_
    rintro c _ rfl
    refine arg.gather_moved.bind ?_
    rintro a _ rfl
    exact .ok rfl
  | .block body => by
    simp only [ExprKind.moved, ExprKind.gather]
    refine body.gather_moved.bind ?_
    rintro b _ rfl
    exact .ok rfl
  | .index target index => by
    simp only [ExprKind.moved, ExprKind.gather]
    refine target.gather_moved.bind ?_
    rintro t _ rfl
    refine index.gather_moved.bind ?_
    rintro i _ rfl
    exact .ok rfl
  | .cond test thenBlock elseBlock => by
    simp only [ExprKind.moved, ExprKind.gather]
    refine test.gather_moved.bind ?_
    rintro t _ rfl
    refine thenBlock.gather_moved.bind ?_
    rintro yes _ rfl
    refine elseBlock.gather_moved.bind ?_
    rintro no _ rfl
    exact .ok rfl
  | .loop binder iterable body => by
    simp only [ExprKind.moved, ExprKind.gather]
    refine iterable.gather_moved.bind ?_
    rintro i _ rfl
    refine body.gather_moved.bind ?_
    rintro b _ rfl
    exact .ok rfl
  | .unary operator operand => by
    simp only [ExprKind.moved, ExprKind.gather]
    refine operand.gather_moved.bind ?_
    rintro o _ rfl
    exact .ok rfl
  | .binary operator left right => by
    simp only [ExprKind.moved, ExprKind.gather]
    refine left.gather_moved.bind ?_
    rintro l _ rfl
    refine right.gather_moved.bind ?_
    rintro r _ rfl
    exact .ok rfl
theorem Expr.gatherAll_moved : (es : List Expr) →
    FollowsExprs f (Expr.gatherAll es) (Expr.gatherAll (Expr.allMoved f es))
  | [] => .ok rfl
  | e :: es => by
    simp only [Expr.allMoved, Expr.gatherAll]
    refine e.gather_moved.bind ?_
    rintro t _ rfl
    refine (Expr.gatherAll_moved es).bind ?_
    rintro ts _ rfl
    exact .ok rfl
theorem Decl.gather_moved : (d : Decl) →
    Follows f (fun t u => u = t.moved f) d.gather (d.moved f).gather
  | ⟨name, declared, ty, value, position⟩ => by
    simp only [Decl.moved, Decl.gather]
    refine value.gather_moved.bind ?_
    rintro v _ rfl
    exact .ok rfl
theorem Stmt.gather_moved : (s : Stmt) →
    Follows f (fun t u => u = t.moved f) s.gather (s.moved f).gather
  | .decl d => by
    simp only [Stmt.moved, Stmt.gather]
    refine d.gather_moved.bind ?_
    rintro t _ rfl
    exact .ok rfl
  | .expr e => by
    simp only [Stmt.moved, Stmt.gather]
    refine e.gather_moved.bind ?_
    rintro t _ rfl
    exact .ok rfl
  | .destructure ⟨source, bindings, position⟩ => by
    simp only [Stmt.moved, Destructure.moved, Stmt.gather, Destructure.gather, bind_assoc,
      pure_bind]
    refine source.gather_moved.bind ?_
    rintro t _ rfl
    exact .ok rfl
theorem Stmt.gatherAll_moved : (ss : List Stmt) →
    FollowsStmts f (Stmt.gatherAll ss) (Stmt.gatherAll (Stmt.allMoved f ss))
  | [] => .ok rfl
  | s :: ss => by
    simp only [Stmt.allMoved, Stmt.gatherAll]
    refine s.gather_moved.bind ?_
    rintro t _ rfl
    refine (Stmt.gatherAll_moved ss).bind ?_
    rintro ts _ rfl
    exact .ok rfl
theorem Block.gather_moved : (b : Block) →
    FollowsBlock f b.gather (b.moved f).gather
  | ⟨stmts, returnsVoid, ty, position⟩ => by
    simp only [Block.moved, Block.gather]
    refine (Stmt.gatherAll_moved stmts).bind ?_
    rintro ts _ rfl
    exact .ok rfl
end

theorem declsGather_moved (ds : List Decl) :
    Follows f (fun ts us => us = ts.map (·.moved f)) (ds.mapM Decl.gather)
      ((ds.map (·.moved f)).mapM Decl.gather) := by
  induction ds with
  | nil => exact .ok rfl
  | cons d ds ih =>
    rw [List.map_cons, List.mapM_cons, List.mapM_cons]
    refine d.gather_moved.bind ?_
    rintro t _ rfl
    refine ih.bind ?_
    rintro ts _ rfl
    exact .ok rfl

end LetLang.Typed
