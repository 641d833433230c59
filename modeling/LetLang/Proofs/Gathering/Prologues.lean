import LetLang.Proofs.Outcome
import LetLang.Typed.Gathering

/-!
# Prologues

The prologue of a body is its leading run of declarations that take a place of
the pack. Gathering reads the prologue of every function that takes a pack, and
asks that it takes the items of a tuple in order and all of them. Where it does
not, gathering fails with a fault.
-/

namespace LetLang.Typed

-- ---------------------------------------------------------------------------
-- Declarations that take a place
-- ---------------------------------------------------------------------------

/-- The declaration `let p = $args[k]`, with the type of `$args` and the place `k`. -/
inductive Stmt.Takes : Ty → Int → Stmt → Prop where
  | mk : Stmt.Takes packed place
      (.decl ⟨name, declared, ty,
        ⟨.index ⟨.ident packName, packed, targetPosition⟩
          ⟨.literal (.int place), indexTy, indexPosition⟩, valueTy, valuePosition⟩, declPosition⟩)

/-- The leading run of declarations that take a place: what each of them takes. -/
inductive Prologue : List (Ty × Int) → List Stmt → Prop where
  | stop : (∀ s ∈ stmts.head?, ∀ packed place, ¬s.Takes packed place) → Prologue [] stmts
  | take : s.Takes packed place → Prologue takes stmts →
      Prologue ((packed, place) :: takes) (s :: stmts)

/-- Whether statements start with a run of `n` declarations that take other places
than `0, 1, ..., n - 1`, in this order, or take them from what is no tuple of `n` items. -/
def Malformed (stmts : List Stmt) : Prop :=
  ∃ packed place takes, Prologue ((packed, place) :: takes) stmts ∧
    (place :: takes.map (·.2) ≠ (List.range (takes.length + 1)).map Int.ofNat ∨
      ∀ items, packed = .tuple items → items.length ≠ takes.length + 1)

theorem Stmt.takes_of_unpacking? {s : Stmt} (h : s.unpacking? = some u) :
    u.pack.kind = .ident packName ∧ s.Takes u.pack.ty u.place := by
  unfold Stmt.unpacking? at h
  split at h
  · next d =>
    obtain ⟨name, declared, ty, ⟨kind, valueTy, valuePosition⟩, position⟩ := d
    dsimp only at h
    split at h
    · next target index =>
      obtain ⟨targetKind, targetTy, targetPosition⟩ := target
      obtain ⟨indexKind, indexTy, indexPosition⟩ := index
      dsimp only at h
      split at h
      · split at h
        · next hname =>
          subst hname
          cases h
          exact ⟨rfl, .mk⟩
        · cases h
      · cases h
    · cases h
  · cases h

theorem Stmt.takes_iff {s : Stmt} :
    s.Takes packed place ↔ ∃ u, s.unpacking? = some u ∧ u.pack.ty = packed ∧ u.place = place := by
  constructor
  · rintro ⟨⟩
    simp [unpacking?]
  · rintro ⟨u, hu, rfl, rfl⟩
    exact (takes_of_unpacking? hu).2

theorem prologue_cons_iff : Prologue takes (s :: ss) ↔
    (takes = [] ∧ ∀ packed place, ¬s.Takes packed place) ∨
      ∃ packed place more, takes = (packed, place) :: more ∧ s.Takes packed place ∧
        Prologue more ss := by
  constructor
  · rintro (hn | ⟨ht, hp⟩)
    · exact .inl ⟨rfl, hn s rfl⟩
    · exact .inr ⟨_, _, _, rfl, ht, hp⟩
  · rintro (⟨rfl, hn⟩ | ⟨packed, place, more, rfl, ht, hp⟩)
    · refine .stop ?_
      rintro _ ⟨⟩
      exact hn
    · exact .take ht hp

theorem prologue_iff {stmts : List Stmt} : Prologue takes stmts ↔
    takes = (splitUnpackings stmts).1.map fun u => (u.pack.ty, u.place) := by
  induction stmts generalizing takes with
  | nil =>
    constructor
    · rintro ⟨-⟩
      rfl
    · rintro rfl
      exact .stop nofun
  | cons s ss ih =>
    simp only [prologue_cons_iff, Stmt.takes_iff, splitUnpackings, ih]
    cases s.unpacking? with
    | none => simp
    | some u => simp

theorem malformed_iff (h : Prologue ((packed, place) :: takes) stmts) :
    Malformed stmts ↔
      ¬(place :: takes.map (·.2) = (List.range (takes.length + 1)).map Int.ofNat ∧
        ∃ items, packed = .tuple items ∧ items.length = takes.length + 1) := by
  constructor
  · rintro ⟨_, _, _, h', hbad⟩ ⟨hplaces, items, hty, hl⟩
    cases (prologue_iff.mp h').trans (prologue_iff.mp h).symm
    rcases hbad with hbad | hbad
    · exact hbad hplaces
    · exact hbad items hty hl
  · intro hbad
    refine ⟨packed, place, takes, h, ?_⟩
    rcases Classical.not_and_iff_not_or_not.mp hbad with hbad | hbad
    · exact .inl hbad
    · exact .inr fun items hty hl => hbad ⟨items, hty, hl⟩

-- ---------------------------------------------------------------------------
-- Reading a prologue
-- ---------------------------------------------------------------------------

theorem checkPlaces_faults (place : Nat) (us : List Unpacking) :
    FaultsUnless (us.map (·.place) = (List.range' place us.length).map Int.ofNat)
      (checkPlaces place us) := by
  induction us generalizing place with
  | nil => exact .ok rfl
  | cons u us ih =>
    simp only [checkPlaces, List.map_cons, List.length_cons, List.range'_succ, List.cons.injEq]
    split
    · next h => exact (ih (place + 1)).congr (iff_and_self.mpr fun _ => h)
    · next h =>
      refine ⟨iff_of_false ?_ fun hp => h hp.1, .reject rfl⟩
      rintro ⟨_, hok⟩
      exact reject_ne_ok hok

theorem hasItems_iff : hasItems ty count = true ↔
    ∃ items, ty = .tuple items ∧ items.length = count := by
  cases ty <;> simp [hasItems]

theorem gatherRun_faults (first : Unpacking) (more : List Unpacking) :
    FaultsUnless
      ((first :: more).map (·.place) = (List.range (more.length + 1)).map Int.ofNat ∧
        ∃ items, first.pack.ty = .tuple items ∧ items.length = more.length + 1)
      (gatherRun first more) := by
  unfold gatherRun
  rw [List.range_eq_range', ← List.length_cons, ← hasItems_iff]
  exact (checkPlaces_faults 0 (first :: more)).bind fun _ _ => FaultsUnless.ensure.map

theorem gatherPrologue_faults (body : Block) :
    FaultsUnless (¬Malformed body.stmts) body.gatherPrologue := by
  unfold Block.gatherPrologue
  split
  · next rest hs =>
    refine .ok ?_
    rintro ⟨packed, place, takes, hp, -⟩
    have htakes := prologue_iff.mp hp
    rw [hs] at htakes
    cases htakes
  · next first more rest hs =>
    have hrun : Prologue ((first :: more).map fun u => (u.pack.ty, u.place)) body.stmts :=
      prologue_iff.mpr (by rw [hs])
    refine (gatherRun_faults first more).map.congr ?_
    rw [malformed_iff hrun, Classical.not_not]
    simp only [List.map_cons, List.map_map, List.length_map, Function.comp_def]

end LetLang.Typed
