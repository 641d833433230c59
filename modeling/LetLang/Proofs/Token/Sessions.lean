import LetLang.Proofs.Token.Lossless
import Mathlib.Logic.Function.Basic

/-!
# Scanners in use

A program may keep several scanners of one source: it reads from them, moves
them on by bytes and makes copies of them, in any order. Whatever it does, every
scanner knows its place, which is told by the text before it, and gives an end
once at most: the end of the source or a diagnostic. Behind that it has nothing
more to say, even if it is moved. A scanner that rejects a lexeme stands in front
of it.
-/

namespace LetLang

/-- Whether a number of bytes from the start of a text ends between characters
or behind the text. -/
def EndsBetween (bytes : Nat) (text : List Char) : Prop :=
  (∃ front, front <+: text ∧ byteCount front = bytes) ∨ byteCount text ≤ bytes

def Ends : Reading → Prop
  | .ok t => t.kind = .eof
  | .error _ => True

structure Session where
  scanner : Scanner
  answers : List (Option Reading)

namespace Session

def ofSource (source : String) : Session := ⟨.ofSource source, []⟩

def next (s : Session) : Session := ⟨s.scanner.next.2, s.answers ++ [s.scanner.next.1]⟩

end Session

/-- The numbered scanners that a program can get from scanners at the start of a
source: it reads from one, moves one on, or puts a copy of one in place of another. -/
inductive Sessions (source : String) : (Nat → Session) → Prop where
  | start : Sessions source fun _ => .ofSource source
  | next {sessions : Nat → Session} {i : Nat} : Sessions source sessions →
      Sessions source (Function.update sessions i (sessions i).next)
  | advance {sessions : Nat → Session} {i bytes : Nat} {moved : Scanner} :
      Sessions source sessions → (sessions i).scanner.advance? source bytes = some moved →
      Sessions source (Function.update sessions i { sessions i with scanner := moved })
  | copy {sessions : Nat → Session} {i j : Nat} : Sessions source sessions →
      Sessions source (Function.update sessions i (sessions j))

/-- Whether answers are tokens as long as a scanner is not done, and then one end
and nothing more. -/
inductive Answered : List (Option Reading) → Bool → Prop where
  | ongoing {tokens : List Token} : (∀ t ∈ tokens, t.kind ≠ .eof) →
      Answered (tokens.map fun t => some (.ok t)) false
  | ended {tokens : List Token} {last : Reading} {count : Nat} :
      (∀ t ∈ tokens, t.kind ≠ .eof) → Ends last →
      Answered ((tokens.map fun t => some (.ok t)) ++ some last :: List.replicate count none) true

def Scanner.Within (source : String) (s : Scanner) : Prop :=
  ∃ before, source.toList = before ++ s.rest ∧ s.offset source = byteCount before ∧
    s.position = .ofText before

structure Session.Sound (source : String) (s : Session) : Prop where
  within : s.scanner.Within source
  answered : Answered s.answers s.scanner.done

-- ---------------------------------------------------------------------------
-- Bytes
-- ---------------------------------------------------------------------------

@[simp] theorem byteCount_nil : byteCount [] = 0 := rfl

@[simp] theorem byteCount_cons (c : Char) (text : List Char) :
    byteCount (c :: text) = c.utf8Size + byteCount text := rfl

@[simp] theorem byteCount_append (front back : List Char) :
    byteCount (front ++ back) = byteCount front + byteCount back := by
  induction front with
  | nil => exact (Nat.zero_add _).symm
  | cons c front ih => rw [List.cons_append, byteCount_cons, ih, byteCount_cons, Nat.add_assoc]

theorem endsBetween_zero (text : List Char) : EndsBetween 0 text :=
  .inl ⟨[], List.nil_prefix, rfl⟩

theorem endsBetween_nil (bytes : Nat) : EndsBetween bytes [] := .inr (Nat.zero_le _)

theorem endsBetween_cons (hb : bytes ≠ 0) : EndsBetween bytes (c :: text) ↔
    c.utf8Size ≤ bytes ∧ EndsBetween (bytes - c.utf8Size) text := by
  constructor
  · rintro (⟨front, hf, rfl⟩ | h)
    · cases front with
      | nil => exact absurd rfl hb
      | cons x front =>
        obtain ⟨rfl, hp⟩ := List.cons_prefix_cons.mp hf
        rw [byteCount_cons]
        exact ⟨Nat.le_add_right _ _, .inl ⟨front, hp, by omega⟩⟩
    · rw [byteCount_cons] at h
      exact ⟨by omega, .inr (by omega)⟩
  · rintro ⟨hle, ⟨front, hf, hc⟩ | h⟩
    · refine .inl ⟨c :: front, List.cons_prefix_cons.mpr ⟨rfl, hf⟩, ?_⟩
      rw [byteCount_cons]
      omega
    · refine .inr ?_
      rw [byteCount_cons]
      omega

namespace Scanner

theorem splitBytes?_eq_some (h : splitBytes? bytes text = some (front, back)) :
    front ++ back = text ∧ byteCount front = min bytes (byteCount text) := by
  fun_induction splitBytes? bytes text generalizing front with
  | case1 => cases h; exact ⟨rfl, (Nat.min_zero _).symm⟩
  | case2 => cases h; exact ⟨rfl, (Nat.zero_min _).symm⟩
  | case3 bytes c rest hb hc ih =>
    obtain ⟨⟨passed, ahead⟩, hs, he⟩ := Option.map_eq_some_iff.mp h
    cases he
    obtain ⟨happ, hcount⟩ := ih hs
    refine ⟨by rw [List.cons_append, happ], ?_⟩
    rw [byteCount_cons, byteCount_cons, hcount]
    omega
  | case4 => cases h

theorem isSome_splitBytes? : (splitBytes? bytes text).isSome ↔ EndsBetween bytes text := by
  fun_induction splitBytes? bytes text with
  | case1 => simpa using endsBetween_nil _
  | case2 => simpa using endsBetween_zero _
  | case3 bytes c rest hb hc ih => simp [endsBetween_cons hb, hc, ← ih]
  | case4 bytes c rest hb hc => simp [endsBetween_cons hb, hc]

end Scanner

-- ---------------------------------------------------------------------------
-- Reading
-- ---------------------------------------------------------------------------

theorem Scanner.read_scans (s : Scanner) :
    (∃ q, Scans s.position s.rest [] q [] ∧ s.read = (.ok (.endAt q), ⟨[], q, true⟩)) ∨
    (∃ q rest d, Scans s.position s.rest [] q rest ∧ Rejects q rest d ∧
      s.read = (.error d, ⟨rest, q, true⟩)) ∨
    ∃ q rest t, Scans s.position s.rest [t] q rest ∧ t.kind ≠ .eof ∧
      s.read = (.ok t, ⟨rest, q, s.done⟩) := by
  obtain ⟨text, p, done⟩ := s
  cases text with
  | nil => exact .inl ⟨p, .done, read_nil⟩
  | cons c tail =>
    cases hf : front? (c :: tail) with
    | none =>
      have hr := Rejects.unknown (p := p) hf
      exact .inr (.inl ⟨p, _, _, .done, hr, read_of_rejects hr⟩)
    | some f =>
      have hlt := front?_length_lt hf
      cases ht : f.token? p with
      | error d =>
        have hr := Rejects.malformed hf ht
        exact .inr (.inl ⟨p, _, d, .done, hr, read_of_rejects hr⟩)
      | ok made =>
        have hread := @read_front (c :: tail) p done f hf
        rw [ht] at hread
        cases made with
        | some t =>
          obtain ⟨-, hk⟩ := token?_ok (front?_eq_some hf).2 ht
          exact .inr (.inr ⟨_, _, t, .token hf ht .done, hk, hread⟩)
        | none =>
          rcases read_scans ⟨f.rest, p.after f.lexeme, done⟩ with ⟨q, hs, hr⟩ |
            ⟨q, rest, d, hs, hj, hr⟩ | ⟨q, rest, t, hs, hk, hr⟩
          · exact .inl ⟨q, .passed hf ht hs, hread.trans hr⟩
          · exact .inr (.inl ⟨q, rest, d, .passed hf ht hs, hj, hread.trans hr⟩)
          · exact .inr (.inr ⟨q, rest, t, .passed hf ht hs, hk, hread.trans hr⟩)
termination_by s.rest.length
decreasing_by exact hlt

-- ---------------------------------------------------------------------------
-- One step
-- ---------------------------------------------------------------------------

namespace Scanner

variable {s behind further : Scanner}

theorem next_of_done (h : s.done = true) : s.next = (none, s) := if_pos h

theorem next_of_not_done (h : s.done = false) : s.next = (some s.read.1, s.read.2) := by
  simp [next, h]

theorem Within.ofSource (source : String) : (ofSource source).Within source :=
  ⟨[], rfl, by simp [offset, Scanner.ofSource], rfl⟩

theorem Within.moved (h : s.Within source) (hr : s.rest = passed ++ behind.rest)
    (hp : behind.position = s.position.after passed) :
    behind.Within source ∧ behind.offset source = s.offset source + byteCount passed := by
  obtain ⟨before, hs, ho, hq⟩ := h
  rw [hr, ← List.append_assoc] at hs
  have hb : behind.offset source = byteCount (before ++ passed) := by
    rw [offset, hs, byteCount_append, Nat.add_sub_cancel]
  exact ⟨⟨before ++ passed, hs, hb, by rw [hp, hq, Position.ofText_append]⟩,
    by rw [hb, ho, byteCount_append]⟩

theorem Within.read (h : s.Within source) : s.read.2.Within source := by
  obtain ⟨ts, hs⟩ : ∃ ts, Scans s.position s.rest ts s.read.2.position s.read.2.rest := by
    rcases s.read_scans with ⟨q, hs, hr⟩ | ⟨q, rest, d, hs, -, hr⟩ | ⟨q, rest, t, hs, -, hr⟩
    · exact ⟨[], by rwa [hr]⟩
    · exact ⟨[], by rwa [hr]⟩
    · exact ⟨[t], by rwa [hr]⟩
  obtain ⟨passed, hr, hp⟩ := hs.exists_passed
  exact (h.moved hr hp).1

theorem Within.next (h : s.Within source) : s.next.2.Within source := by
  cases hd : s.done with
  | true => rwa [next_of_done hd]
  | false =>
    rw [next_of_not_done hd]
    exact h.read

/-- A scanner moves on by bytes that end between characters, as long as offsets have
64 bits. -/
theorem isSome_advance? : (s.advance? source bytes).isSome ↔
    EndsBetween bytes s.rest ∧ s.offset source + bytes < UInt64.size := by
  rw [← isSome_splitBytes?, advance?]
  split <;> simp [*]

theorem advance?_eq_some (h : s.advance? source bytes = some further) :
    ∃ passed, s.rest = passed ++ further.rest ∧ further.position = s.position.after passed ∧
      further.done = s.done ∧ byteCount passed = min bytes (byteCount s.rest) := by
  obtain ⟨-, hm⟩ := Option.ite_none_right_eq_some.mp h
  obtain ⟨⟨passed, ahead⟩, hs, rfl⟩ := Option.map_eq_some_iff.mp hm
  obtain ⟨happ, hcount⟩ := splitBytes?_eq_some hs
  exact ⟨passed, happ.symm, rfl, rfl, hcount⟩

theorem Within.advance? (h : s.Within source) (hm : s.advance? source bytes = some further) :
    further.Within source ∧
      further.offset source = min (s.offset source + bytes) (byteCount source.toList) := by
  obtain ⟨passed, hr, hp, -, hcount⟩ := advance?_eq_some hm
  obtain ⟨hw, ho⟩ := h.moved hr hp
  refine ⟨hw, ?_⟩
  obtain ⟨before, hs, hb, -⟩ := h
  rw [ho, hcount, hs, byteCount_append, hb]
  omega

theorem done_advance?_all (moves : List Nat)
    (hm : moves.foldlM (advance? source) s = some further) : further.done = s.done := by
  induction moves generalizing s with
  | nil =>
    cases hm
    rfl
  | cons bytes moves ih =>
    rw [List.foldlM_cons] at hm
    obtain ⟨behind, hb, hm⟩ := Option.bind_eq_some_iff.mp hm
    obtain ⟨-, -, -, hd, -⟩ := advance?_eq_some hb
    exact (ih hm).trans hd

theorem rejects_of_next (h : s.next = (some (.error d), behind)) :
    Scans s.position s.rest [] behind.position behind.rest ∧
      Rejects behind.position behind.rest d := by
  cases hd : s.done with
  | true =>
    rw [next_of_done hd] at h
    cases h
  | false =>
    rw [next_of_not_done hd] at h
    rcases s.read_scans with ⟨q, -, hr⟩ | ⟨q, rest, e, hs, hj, hr⟩ | ⟨q, rest, t, -, -, hr⟩
    · rw [hr] at h
      cases h
    · rw [hr] at h
      cases h
      exact ⟨hs, hj⟩
    · rw [hr] at h
      cases h

end Scanner

namespace Answered

variable {answers : List (Option Reading)}

theorem token (h : Answered answers false) (ht : t.kind ≠ .eof) :
    Answered (answers ++ [some (.ok t)]) false := by
  obtain @⟨tokens, hk⟩ := h
  have hl : ∀ u ∈ tokens ++ [t], u.kind ≠ .eof :=
    List.forall_mem_append.mpr ⟨hk, List.forall_mem_singleton.mpr ht⟩
  simpa using Answered.ongoing hl

theorem last {last : Reading} (h : Answered answers false) (hl : Ends last) :
    Answered (answers ++ [some last]) true := by
  obtain ⟨hk⟩ := h
  exact @Answered.ended _ _ 0 hk hl

theorem silence (h : Answered answers true) : Answered (answers ++ [none]) true := by
  obtain _ | @⟨tokens, last, count, hk, hl⟩ := h
  simpa [List.replicate_succ'] using @Answered.ended tokens last (count + 1) hk hl

theorem done_of_mem {last : Reading} (h : Answered answers done) (hm : some last ∈ answers)
    (hl : Ends last) : done = true := by
  cases h with
  | ended => rfl
  | ongoing hk =>
    obtain ⟨t, ht, he⟩ := List.mem_map.mp hm
    cases he
    exact absurd hl (hk t ht)

end Answered

namespace Session.Sound

variable {s : Session}

theorem ofSource (source : String) : (Session.ofSource source).Sound source :=
  ⟨.ofSource source, @Answered.ongoing [] nofun⟩

theorem next (h : s.Sound source) : s.next.Sound source := by
  refine ⟨h.within.next, ?_⟩
  obtain ⟨scanner, answers⟩ := s
  have ha := h.answered
  cases hd : scanner.done with
  | true =>
    rw [hd] at ha
    simpa [Session.next, Scanner.next_of_done hd, hd] using ha.silence
  | false =>
    rw [hd] at ha
    simp only [Session.next, Scanner.next_of_not_done hd]
    rcases scanner.read_scans with ⟨q, -, hr⟩ | ⟨q, rest, d, -, -, hr⟩ | ⟨q, rest, t, -, hk, hr⟩
    · rw [hr]
      exact ha.last rfl
    · rw [hr]
      exact ha.last trivial
    · rw [hr, hd]
      exact ha.token hk

theorem advance {moved : Scanner} (h : s.Sound source)
    (hm : s.scanner.advance? source bytes = some moved) :
    { s with scanner := moved }.Sound source := by
  refine ⟨(h.within.advance? hm).1, ?_⟩
  obtain ⟨-, -, -, hd, -⟩ := Scanner.advance?_eq_some hm
  rw [show ({ s with scanner := moved } : Session).scanner.done = s.scanner.done from hd]
  exact h.answered

end Session.Sound

-- ---------------------------------------------------------------------------
-- All steps
-- ---------------------------------------------------------------------------

theorem Sessions.sound (h : Sessions source sessions) (i : Nat) :
    (sessions i).Sound source := by
  induction h generalizing i with
  | start => exact .ofSource source
  | @next sessions j _ ih =>
    by_cases hi : i = j
    · subst hi
      simpa using (ih i).next
    · simpa [hi] using ih i
  | @advance sessions j bytes moved _ hm ih =>
    by_cases hi : i = j
    · subst hi
      simpa using (ih i).advance hm
    · simpa [hi] using ih i
  | @copy sessions j k _ ih =>
    by_cases hi : i = j
    · subst hi
      simpa using ih k
    · simpa [hi] using ih i

/-- Whatever is done with scanners of a source, each has the place that the text
before it tells. It can be moved by bytes just if they end between characters and
the sum with its offset has 64 bits, and is moved as far as the source goes. Its
answers are tokens, then one end, then nothing, and with the end answered it stays as
it is when it is read, moved or not. A reading that fails passes what is skipped and
leaves the scanner in front of the lexeme that is rejected. -/
theorem scanner_sessions (h : Sessions source sessions) (i : Nat) :
    let s := (sessions i).scanner
    s.Within source ∧
      (∀ bytes, (s.advance? source bytes).isSome ↔
        EndsBetween bytes s.rest ∧ s.offset source + bytes < UInt64.size) ∧
      (∀ bytes moved, s.advance? source bytes = some moved → moved.Within source ∧
        moved.offset source = min (s.offset source + bytes) (byteCount source.toList)) ∧
      Answered (sessions i).answers s.done ∧
      (∀ last, some last ∈ (sessions i).answers → Ends last →
        ∀ (moves : List Nat) (moved : Scanner),
          moves.foldlM (Scanner.advance? source) s = some moved → moved.next = (none, moved)) ∧
      ∀ d behind, s.next = (some (.error d), behind) →
        behind.Within source ∧ Scans s.position s.rest [] behind.position behind.rest ∧
          Rejects behind.position behind.rest d := by
  intro s
  obtain ⟨hw, ha⟩ := h.sound i
  refine ⟨hw, fun _ => Scanner.isSome_advance?, fun _ _ hm => hw.advance? hm, ha, ?_, ?_⟩
  · intro last hlast hl moves moved hm
    have hd : moved.done = true :=
      (Scanner.done_advance?_all moves hm).trans (ha.done_of_mem hlast hl)
    exact Scanner.next_of_done hd
  · intro d behind hn
    have hb := hw.next
    rw [hn] at hb
    exact ⟨hb, Scanner.rejects_of_next hn⟩

/-- A copy of a scanner that has read a name is moved on by a blank, and rejects
the quote behind it once. From there it cannot be moved by as many bytes as 64 bits
can tell, but by fewer, to the end of the source. -/
theorem moved_copy_rejects_quote : ∃ sessions, Sessions "a 'b" sessions ∧
    (sessions 0).answers = [some (.ok ⟨.identifier, "a", ⟨1, 1⟩⟩)] ∧
    (sessions 1).answers = [some (.ok ⟨.identifier, "a", ⟨1, 1⟩⟩),
      some (.error ⟨.unterminatedChar, ⟨1, 3⟩⟩)] ∧
    (sessions 1).scanner.Within "a 'b" ∧ (sessions 1).scanner.position = ⟨1, 3⟩ ∧
    (sessions 1).scanner.advance? "a 'b" (UInt64.size - 1) = none ∧
    ∃ moved, (sessions 1).scanner.advance? "a 'b" 9 = some moved ∧
      moved.offset "a 'b" = 4 ∧ moved.next = (none, moved) := by
  let token : Token := ⟨.identifier, "a", ⟨1, 1⟩⟩
  let d : Diagnostic := ⟨.unterminatedChar, ⟨1, 3⟩⟩
  let named : Session := ⟨⟨[' ', '\'', 'b'], ⟨1, 2⟩, false⟩, [some (.ok token)]⟩
  let blank : Session := ⟨⟨['\'', 'b'], ⟨1, 3⟩, false⟩, [some (.ok token)]⟩
  let failed : Session :=
    ⟨⟨['\'', 'b'], ⟨1, 3⟩, true⟩, [some (.ok token), some (.error d)]⟩
  have hname : (Session.ofSource "a 'b").next = named :=
    congrArg (fun r => Session.mk r.2 [some r.1])
      (@Scanner.read_front ['a', ' ', '\'', 'b'] .start false ⟨.word, ['a'], _⟩ rfl)
  have hquote : blank.next = failed :=
    congrArg (fun r => Session.mk r.2 [some (.ok token), some r.1])
      (@Scanner.read_front ['\'', 'b'] ⟨1, 3⟩ false ⟨.openQuote .single, ['\''], ['b']⟩ rfl)
  obtain ⟨sessions, hrun, h0, h1⟩ :
      ∃ sessions, Sessions "a 'b" sessions ∧ sessions 0 = named ∧ sessions 1 = failed := by
    have hread := @Sessions.next "a 'b" _ 0 .start
    rw [hname] at hread
    have hcopy := @Sessions.copy _ _ 1 0 hread
    have hmove := @Sessions.advance _ _ 1 1 blank.scanner hcopy rfl
    exact ⟨_, @Sessions.next _ _ 1 hmove, rfl, hquote⟩
  obtain ⟨hw, hcan, hmoved, -, hd, -⟩ := scanner_sessions hrun 1
  rw [h1] at hw hcan hmoved hd
  have hfar : failed.scanner.advance? "a 'b" (UInt64.size - 1) = none :=
    Option.not_isSome_iff_eq_none.mp fun hs => absurd ((hcan _).mp hs).2 (by decide)
  have hnear : (failed.scanner.advance? "a 'b" 9).isSome :=
    (hcan 9).mpr ⟨.inr (by decide), by decide⟩
  obtain ⟨moved, hm⟩ := Option.isSome_iff_exists.mp hnear
  have hend : moved.offset "a 'b" = 4 := (hmoved 9 moved hm).2
  have hquiet : moved.next = (none, moved) :=
    hd (.error d) (.tail _ (.head _)) trivial [9] moved (by simpa using hm)
  refine ⟨sessions, hrun, ?_⟩
  rw [h0, h1]
  exact ⟨rfl, rfl, hw, rfl, hfar, moved, hm, hend, hquiet⟩

end LetLang
