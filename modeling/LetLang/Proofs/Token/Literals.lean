import LetLang.Proofs.Token.Lossless
import LetLang.Proofs.Token.Rendering

/-!
# Literals that are rejected

What a scanner answers to a quote, told by the line behind the quote alone. A
character is escaped if an odd number of backslashes stands right before it. The
literal ends at the first quote of its kind that is not escaped, and is rejected
if its line has none. A backslash that is not escaped itself has to stand before
a letter with a meaning, and the first one that does not is reported where it
stands in the source. Last, a character literal has to hold one character.
-/

namespace LetLang

def lastSlashes (text : List Char) : Nat := (text.reverse.takeWhile (· = '\\')).length

/-- Whether no backslash takes along what is behind a text, since those at its
end pair off. -/
def Unescaped (before : List Char) : Prop := lastSlashes before % 2 = 0

/-- Whether a piece of a text stands behind a front of it and is not escaped. -/
def Behind (text piece front : List Char) : Prop := front ++ piece <+: text ∧ Unescaped front

def Shortest (p : List Char → Prop) (front : List Char) : Prop :=
  p front ∧ ∀ other, p other → front.length ≤ other.length

def lineOf (text : List Char) : List Char := text.takeWhile (· ≠ '\n')

/-- Whether a body goes up to the first quote in a line that is not escaped. -/
def Quote.Closes (quote : Quote) (line body : List Char) : Prop :=
  Shortest (Behind line [quote.mark]) body

def escapeLetters : List Char := ['n', 't', 'r', '0', '\\', '\'', '"']

/-- Whether a backslash behind a front of a body takes along a letter without a meaning. -/
def Misescaped (body front : List Char) (letter : Char) : Prop :=
  Behind body ['\\', letter] front ∧ letter ∉ escapeLetters

/-- Whether no backslash before this one does so. -/
def FirstMisescape (body front : List Char) (letter : Char) : Prop :=
  Shortest (fun other => ∃ letter, Misescaped body other letter) front ∧
    Misescaped body front letter

def Quote.unclosed : Quote → Cause
  | .single => .unterminatedChar
  | .double => .unterminatedStr

/-- What is answered to a quote that has a text before it in the source, and a
text behind. -/
inductive Quote.Answers (quote : Quote) (before behind : List Char) : Reading → Prop where
  | unclosed : (∀ body, ¬ quote.Closes (lineOf behind) body) →
      Quote.Answers quote before behind (.error ⟨quote.unclosed, .ofText before⟩)
  | misescaped : quote.Closes (lineOf behind) body → FirstMisescape body front letter →
      Quote.Answers quote before behind
        (.error ⟨.unknownEscape letter, .ofText (before ++ quote.mark :: front)⟩)
  | str : quote = .double → quote.Closes (lineOf behind) body → quote.Stands body content →
      Quote.Answers quote before behind
        (.ok ⟨.literal .str, String.ofList content, .ofText before⟩)
  | char : quote = .single → quote.Closes (lineOf behind) body → quote.Stands body content →
      content.length = 1 →
      Quote.Answers quote before behind
        (.ok ⟨.literal .char, String.ofList content, .ofText before⟩)
  | notOneChar : quote = .single → quote.Closes (lineOf behind) body →
      quote.Stands body content → content.length ≠ 1 →
      Quote.Answers quote before behind
        (.error ⟨.notOneChar (String.ofList body), .ofText before⟩)

-- ---------------------------------------------------------------------------
-- Backslashes in pairs
-- ---------------------------------------------------------------------------

theorem lastSlashes_append (first before : List Char) : lastSlashes (first ++ before) =
    lastSlashes before + if lastSlashes before = before.length then lastSlashes first else 0 := by
  unfold lastSlashes
  rw [List.reverse_append, List.takeWhile_append, List.length_reverse]
  split
  · next hall => rw [List.length_append, List.length_reverse, hall]
  · rfl

theorem unescaped_nil : Unescaped [] := rfl

theorem not_unescaped_slash : ¬ Unescaped ['\\'] := by simp [Unescaped, lastSlashes]

theorem unescaped_cons (hc : c ≠ '\\') : Unescaped (c :: before) ↔ Unescaped before := by
  have hs := lastSlashes_append [c] before
  have hone : lastSlashes [c] = 0 := by simp [lastSlashes, hc]
  rw [List.singleton_append, hone, ite_self] at hs
  rw [Unescaped, hs, Unescaped, Nat.add_zero]

theorem unescaped_pair : Unescaped ('\\' :: c :: before) ↔ Unescaped before := by
  have hs := lastSlashes_append ['\\', c] before
  have hpair : lastSlashes ['\\', c] % 2 = 0 := by
    by_cases hc : c = '\\' <;> simp [lastSlashes, hc]
  rw [List.cons_append, List.singleton_append] at hs
  unfold Unescaped
  split at hs <;> omega

-- ---------------------------------------------------------------------------
-- The first place of a piece
-- ---------------------------------------------------------------------------

theorem not_behind_nil (hp : piece ≠ []) : ¬ Behind [] piece front := by
  rintro ⟨hf, -⟩
  exact hp (List.append_eq_nil_iff.mp (List.prefix_nil.mp hf)).2

theorem behind_cons (hc : c ≠ '\\') : Behind (c :: text) piece front ↔
    (front = [] ∧ piece <+: c :: text) ∨ ∃ more, front = c :: more ∧ Behind text piece more := by
  cases front with
  | nil => simp [Behind, unescaped_nil]
  | cons x front =>
    simp only [Behind, List.cons_append, List.cons_prefix_cons, reduceCtorEq, false_and, false_or,
      List.cons.injEq]
    constructor
    · rintro ⟨⟨rfl, hf⟩, hu⟩
      exact ⟨front, ⟨rfl, rfl⟩, hf, (unescaped_cons hc).mp hu⟩
    · rintro ⟨_, ⟨rfl, rfl⟩, hf, hu⟩
      exact ⟨⟨rfl, hf⟩, (unescaped_cons hc).mpr hu⟩

theorem behind_pair : Behind ('\\' :: c :: text) piece front ↔
    (front = [] ∧ piece <+: '\\' :: c :: text) ∨
      ∃ more, front = '\\' :: c :: more ∧ Behind text piece more := by
  match front with
  | [] => simp [Behind, unescaped_nil]
  | [x] =>
    simp only [Behind, List.singleton_append, List.cons_prefix_cons, reduceCtorEq, false_and,
      false_or, List.cons.injEq, and_false, exists_false, iff_false]
    rintro ⟨⟨rfl, -⟩, hu⟩
    exact not_unescaped_slash hu
  | x :: y :: front =>
    simp only [Behind, List.cons_append, List.cons_prefix_cons, reduceCtorEq, false_and, false_or,
      List.cons.injEq]
    constructor
    · rintro ⟨⟨rfl, rfl, hf⟩, hu⟩
      exact ⟨front, ⟨rfl, rfl, rfl⟩, hf, unescaped_pair.mp hu⟩
    · rintro ⟨_, ⟨rfl, rfl, rfl⟩, hf, hu⟩
      exact ⟨⟨rfl, rfl, hf⟩, unescaped_pair.mpr hu⟩

theorem shortest_nil (h : p []) : Shortest p front ↔ front = [] := by
  constructor
  · rintro ⟨-, hf⟩
    exact List.length_eq_zero_iff.mp (Nat.le_zero.mp (hf [] h))
  · rintro rfl
    exact ⟨h, fun _ _ => Nat.zero_le _⟩

theorem shortest_append (h : ∀ front, p front ↔ ∃ more, front = first ++ more ∧ q more) :
    Shortest p front ↔ ∃ more, front = first ++ more ∧ Shortest q more := by
  constructor
  · rintro ⟨hp, hs⟩
    obtain ⟨more, rfl, hq⟩ := (h front).mp hp
    refine ⟨more, rfl, hq, fun other ho => ?_⟩
    have hle := hs (first ++ other) ((h _).mpr ⟨other, rfl, ho⟩)
    simpa using hle
  · rintro ⟨more, rfl, hq, hs⟩
    refine ⟨(h _).mpr ⟨more, rfl, hq⟩, fun other ho => ?_⟩
    obtain ⟨rest, rfl, hr⟩ := (h other).mp ho
    simpa using hs rest hr

-- ---------------------------------------------------------------------------
-- The quote that closes
-- ---------------------------------------------------------------------------

theorem Quote.mark_ne_slash (quote : Quote) : quote.mark ≠ '\\' := by cases quote <;> decide

theorem Quote.mark_ne_newline (quote : Quote) : quote.mark ≠ '\n' := by cases quote <;> decide

theorem lineOf_cons (hc : c ≠ '\n') : lineOf (c :: text) = c :: lineOf text := by
  simp [lineOf, hc]

theorem Quote.not_closes {quote : Quote} (h : ∀ front, ¬ Behind line [quote.mark] front) :
    ¬ quote.Closes line body := fun hc => h body hc.1

theorem Quote.not_closes_slash (quote : Quote) : ¬ quote.Closes ['\\'] body := by
  refine Quote.not_closes fun front hb => ?_
  obtain rfl : front = [] := by simpa using hb.1.length_le
  exact quote.mark_ne_slash (List.cons_prefix_cons.mp hb.1).1

theorem exists_rest_map (first : List Char) {parts : Option (List Char × List Char)}
    {longer : List Char × List Char → List Char × List Char}
    (h : ∀ parts, longer parts = (first ++ parts.1, parts.2)) :
    (∃ rest, parts.map longer = some (body, rest)) ↔
      ∃ more, body = first ++ more ∧ ∃ rest, parts = some (more, rest) := by
  constructor
  · rintro ⟨rest, hm⟩
    obtain ⟨⟨more, rest⟩, hp, he⟩ := Option.map_eq_some_iff.mp hm
    cases (h _).symm.trans he
    exact ⟨more, rfl, rest, hp⟩
  · rintro ⟨more, rfl, rest, rfl⟩
    exact ⟨rest, congrArg some (h _)⟩

/-- The scanner ends a literal at the quote that closes it. -/
theorem Quote.closes_iff (quote : Quote) (text body : List Char) :
    quote.Closes (lineOf text) body ↔ ∃ rest, splitBody? quote.mark text = some (body, rest) := by
  fun_induction splitBody? quote.mark text generalizing body with
  | case1 =>
    refine iff_of_false (Quote.not_closes fun _ => not_behind_nil (List.cons_ne_nil _ _)) ?_
    simp
  | case2 tail => exact iff_of_false quote.not_closes_slash (by simp)
  | case3 c tail hc ih =>
    -- A backslash is passed together with what it takes along.
    have hshift (front : List Char) : Behind ('\\' :: c :: lineOf tail) [quote.mark] front ↔
        ∃ more, front = ['\\', c] ++ more ∧ Behind (lineOf tail) [quote.mark] more := by
      simp [behind_pair, List.cons_prefix_cons, quote.mark_ne_slash]
    rw [lineOf_cons (by decide), lineOf_cons hc, Quote.Closes, shortest_append hshift]
    refine Iff.trans ?_ (exists_rest_map ['\\', c] fun _ => rfl).symm
    exact exists_congr fun more => and_congr_right fun _ => ih more
  | case4 tail =>
    have hhere : Behind (quote.mark :: lineOf tail) [quote.mark] [] :=
      ⟨List.prefix_append [quote.mark] _, unescaped_nil⟩
    rw [lineOf_cons quote.mark_ne_newline, Quote.Closes, shortest_nil hhere]
    simp [eq_comm]
  | case5 c tail hl hm hc =>
    -- The line ends here, with a newline or with a backslash that takes nothing along.
    refine iff_of_false ?_ (by simp)
    by_cases hline : c = '\n'
    · subst hline
      exact Quote.not_closes fun _ => not_behind_nil (List.cons_ne_nil _ _)
    · obtain rfl : c = '\\' := by simpa [hline] using hc
      obtain rfl : tail = [] := by
        cases tail with
        | nil => rfl
        | cons x tail => exact (hl x tail rfl rfl).elim
      exact quote.not_closes_slash
  | case6 c tail hl hm hc ih =>
    obtain ⟨hesc, hline⟩ : c ≠ '\\' ∧ c ≠ '\n' := by simpa using hc
    have hshift (front : List Char) : Behind (c :: lineOf tail) [quote.mark] front ↔
        ∃ more, front = [c] ++ more ∧ Behind (lineOf tail) [quote.mark] more := by
      simp [behind_cons hesc, List.cons_prefix_cons, Ne.symm hm]
    rw [lineOf_cons hline, Quote.Closes, shortest_append hshift]
    refine Iff.trans ?_ (exists_rest_map [c] fun _ => rfl).symm
    exact exists_congr fun more => and_congr_right fun _ => ih more

-- ---------------------------------------------------------------------------
-- The first letter without a meaning
-- ---------------------------------------------------------------------------

theorem escaped?_eq_none_iff : escaped? letter = none ↔ letter ∉ escapeLetters := by
  unfold escaped? escapeLetters
  split <;> simp_all

theorem not_misescaped_nil : ¬ Misescaped [] front letter :=
  fun h => not_behind_nil (List.cons_ne_nil _ _) h.1

def MisescapedIn (text first body : List Char) : Prop :=
  ∀ front letter, Misescaped text front letter ↔
    ∃ more, front = first ++ more ∧ Misescaped body more letter

theorem misescapedIn_cons (hc : c ≠ '\\') : MisescapedIn (c :: body) [c] body := by
  intro front letter
  constructor
  · rintro ⟨hb, hl⟩
    rcases (behind_cons hc).mp hb with ⟨-, hp⟩ | ⟨more, rfl, hmore⟩
    · exact absurd (List.cons_prefix_cons.mp hp).1.symm hc
    · exact ⟨more, rfl, hmore, hl⟩
  · rintro ⟨more, rfl, hb, hl⟩
    exact ⟨(behind_cons hc).mpr (.inr ⟨more, rfl, hb⟩), hl⟩

theorem misescapedIn_pair (h : letter ∈ escapeLetters) :
    MisescapedIn ('\\' :: letter :: body) ['\\', letter] body := by
  intro front other
  constructor
  · rintro ⟨hb, hl⟩
    rcases behind_pair.mp hb with ⟨-, hp⟩ | ⟨more, rfl, hmore⟩
    · obtain rfl : other = letter := by simpa [List.cons_prefix_cons] using hp
      exact absurd h hl
    · exact ⟨more, rfl, hmore, hl⟩
  · rintro ⟨more, rfl, hb, hl⟩
    exact ⟨behind_pair.mpr (.inr ⟨more, rfl, hb⟩), hl⟩

theorem MisescapedIn.first_iff (h : MisescapedIn text first body) :
    FirstMisescape text front letter ↔
      ∃ more, front = first ++ more ∧ FirstMisescape body more letter := by
  have hs : ∀ front, (∃ letter, Misescaped text front letter) ↔
      ∃ more, front = first ++ more ∧ ∃ letter, Misescaped body more letter := by
    intro front
    constructor
    · rintro ⟨letter, hm⟩
      obtain ⟨more, rfl, hmore⟩ := (h _ _).mp hm
      exact ⟨more, rfl, letter, hmore⟩
    · rintro ⟨more, rfl, letter, hm⟩
      exact ⟨letter, (h _ _).mpr ⟨more, rfl, hm⟩⟩
  constructor
  · rintro ⟨hf, hm⟩
    obtain ⟨more, rfl, hmore⟩ := (shortest_append hs).mp hf
    obtain ⟨other, he, hother⟩ := (h _ _).mp hm
    obtain rfl := List.append_cancel_left he
    exact ⟨more, rfl, hmore, hother⟩
  · rintro ⟨more, rfl, hf, hm⟩
    exact ⟨(shortest_append hs).mpr ⟨more, rfl, hf⟩, (h _ _).mpr ⟨more, rfl, hm⟩⟩

def Misreported (body : List Char) (start : Position) (d : Diagnostic) : Prop :=
  ∃ front letter, FirstMisescape body front letter ∧ d = ⟨.unknownEscape letter, start.after front⟩

theorem MisescapedIn.misreported_iff (h : MisescapedIn text first body) (hline : '\n' ∉ first) :
    Misreported text start d ↔ Misreported body (start.right first.length) d := by
  unfold Misreported
  simp only [h.first_iff, ← start.after_of_no_newline first hline]
  constructor
  · rintro ⟨_, letter, ⟨more, rfl, hm⟩, rfl⟩
    exact ⟨more, letter, hm, by rw [Position.after_append]⟩
  · rintro ⟨more, letter, hm, rfl⟩
    exact ⟨_, letter, ⟨more, rfl, hm⟩, by rw [Position.after_append]⟩

/-- A body that does not end with a lone backslash is decoded up to the first
backslash that takes along a letter without a meaning. -/
theorem decodeBody_error_iff (hu : Unescaped body) (hline : '\n' ∉ body) :
    decodeBody start body = .error d ↔ Misreported body start d := by
  fun_induction decodeBody start body with
  | case1 start =>
    refine iff_of_false (fun h => by cases h) ?_
    rintro ⟨front, letter, ⟨-, hm⟩, -⟩
    exact not_misescaped_nil hm
  | case2 start letter rest c hc ih =>
    have hmeant : letter ∈ escapeLetters := Decidable.byContradiction fun hn => by
      cases hc.symm.trans (escaped?_eq_none_iff.mpr hn)
    have hfirst : '\n' ∉ ['\\', letter] := fun hm => hline (List.mem_append_left rest hm)
    rw [bind_pure_eq_error, (misescapedIn_pair hmeant).misreported_iff hfirst]
    exact ih (unescaped_pair.mp hu) fun hm => hline (List.mem_append_right ['\\', letter] hm)
  | case3 start letter rest hc =>
    have hhere : Misescaped ('\\' :: letter :: rest) [] letter :=
      ⟨⟨List.prefix_append ['\\', letter] rest, unescaped_nil⟩, escaped?_eq_none_iff.mp hc⟩
    constructor
    · rintro ⟨⟩
      exact ⟨[], letter, ⟨(shortest_nil ⟨letter, hhere⟩).mpr rfl, hhere⟩, rfl⟩
    · rintro ⟨front, other, ⟨hs, hm⟩, rfl⟩
      obtain rfl := (shortest_nil ⟨letter, hhere⟩).mp hs
      obtain rfl : other = letter := by simpa [List.cons_prefix_cons] using hm.1.1
      rfl
  | case4 start rest hl =>
    cases rest with
    | nil => exact absurd hu not_unescaped_slash
    | cons x rest => exact (hl x rest rfl rfl).elim
  | case5 start c rest _ hc ih =>
    have hfirst : '\n' ∉ [c] := fun hm => hline (List.mem_append_left rest hm)
    rw [bind_pure_eq_error, (misescapedIn_cons hc).misreported_iff hfirst]
    exact ih ((unescaped_cons hc).mp hu) fun hm => hline (List.mem_cons_of_mem c hm)

theorem Quote.Closes.unescaped {quote : Quote} (h : quote.Closes line body) : Unescaped body :=
  h.1.2

theorem Quote.Closes.one_line {quote : Quote} (h : quote.Closes (lineOf text) body) :
    '\n' ∉ body := by
  intro hm
  have hline := inClass_of_mem (h.1.1.mem (List.mem_append_left _ hm))
  simp at hline

theorem Quote.Closes.decodeBody_error_iff {quote : Quote} (h : quote.Closes (lineOf text) body) :
    decodeBody start body = .error d ↔ Misreported body start d :=
  LetLang.decodeBody_error_iff h.unescaped h.one_line

-- ---------------------------------------------------------------------------
-- The answer to a quote
-- ---------------------------------------------------------------------------

def Quote.token (quote : Quote) (body : List Char) (position : Position) (content : List Char) :
    Reading :=
  match quote with
  | .double => .ok ⟨.literal .str, String.ofList content, position⟩
  | .single =>
    if content.length = 1 then .ok ⟨.literal .char, String.ofList content, position⟩
    else reject (.notOneChar (String.ofList body)) position

theorem Quote.forms (quote : Quote) : ∃ earlier later,
    Form.all = earlier ++ .quoted quote :: .openQuote quote :: later ∧
      ∀ g ∈ earlier, g.starts quote.mark = false := by
  cases quote with
  | double => exact ⟨[.blank, .comment, .word, .float, .int], _, rfl, by decide⟩
  | single =>
    exact ⟨[.blank, .comment, .word, .float, .int, .quoted .double, .openQuote .double], _, rfl,
      by decide⟩

theorem front?_mark (quote : Quote) (text : List Char) :
    front? (quote.mark :: text) =
      match splitBody? quote.mark text with
      | some (body, rest) => some ⟨.quoted quote, quote.mark :: (body ++ [quote.mark]), rest⟩
      | none => some ⟨.openQuote quote, [quote.mark], text⟩ := by
  obtain ⟨earlier, later, hall, hstarts⟩ := quote.forms
  have hearlier : ∀ g ∈ earlier, g.split? (quote.mark :: text) = none :=
    fun g hg => Form.split?_of_starts (hstarts g hg) text
  have hsplit : (Form.quoted quote).split? (quote.mark :: text) =
      (splitBody? quote.mark text).map fun parts =>
        (quote.mark :: (parts.1 ++ [quote.mark]), parts.2) := by
    simp [Form.split?]
  cases hs : splitBody? quote.mark text with
  | some parts =>
    rw [hs] at hsplit
    exact front?_of_split? earlier hall hearlier hsplit
  | none =>
    rw [hs] at hsplit
    refine front?_of_split? (earlier ++ [.quoted quote]) (hall.trans (List.append_cons ..)) ?_ ?_
    · exact List.forall_mem_append.mpr ⟨hearlier, List.forall_mem_singleton.mpr hsplit⟩
    · simp [Form.split?, Form.splitFixed?]

theorem token?_quoted (quote : Quote) (body rest : List Char) (p : Position) :
    (Front.mk (.quoted quote) (quote.mark :: (body ++ [quote.mark])) rest).token? p =
      (decodeBody (p.right 1) body >>= quote.token body p).map some := by
  cases quote with
  | double =>
    simp only [Front.token?, bodyOf_enclosed]
    cases decodeBody (p.right 1) body <;> rfl
  | single =>
    simp only [Front.token?, bodyOf_enclosed]
    cases decodeBody (p.right 1) body with
    | error d => rfl
    | ok content =>
      simp only [ok_bind, Quote.token]
      split <;> rfl

theorem next_mark (quote : Quote) (text : List Char) (p : Position) :
    (Scanner.mk (quote.mark :: text) p false).next.1 =
      match splitBody? quote.mark text with
      | some (body, _) => some (decodeBody (p.right 1) body >>= quote.token body p)
      | none => some (.error ⟨quote.unclosed, p⟩) := by
  have hf := front?_mark quote text
  change some (Scanner.mk (quote.mark :: text) p false).read.1 = _
  cases hs : splitBody? quote.mark text with
  | none =>
    rw [hs] at hf
    rw [Scanner.read_front hf]
    cases quote <;> rfl
  | some parts =>
    obtain ⟨body, rest⟩ := parts
    rw [hs] at hf
    rw [Scanner.read_front hf, token?_quoted]
    cases hd : decodeBody (p.right 1) body >>= quote.token body p with
    | error d => simp [Except.map, hd]
    | ok t => simp [Except.map, hd]

theorem ofText_mark (quote : Quote) (before front : List Char) :
    Position.ofText (before ++ quote.mark :: front) =
      ((Position.ofText before).right 1).after front := by
  rw [Position.ofText_append, Position.after_cons, Position.step, if_neg quote.mark_ne_newline]
  rfl

section
variable {quote : Quote} {before behind body : List Char}

theorem next_unclosed (h : ∀ body, ¬ quote.Closes (lineOf behind) body) :
    (Scanner.mk (quote.mark :: behind) p false).next.1 = some (.error ⟨quote.unclosed, p⟩) := by
  rw [next_mark]
  cases hs : splitBody? quote.mark behind with
  | none => rfl
  | some parts => exact absurd ((quote.closes_iff behind parts.1).mpr ⟨parts.2, hs⟩) (h parts.1)

theorem next_closed (h : quote.Closes (lineOf behind) body) :
    (Scanner.mk (quote.mark :: behind) p false).next.1 =
      some (decodeBody (p.right 1) body >>= quote.token body p) := by
  obtain ⟨rest, hs⟩ := (quote.closes_iff behind body).mp h
  rw [next_mark, hs]

theorem exists_answer (quote : Quote) (before behind : List Char) :
    ∃ reading, quote.Answers before behind reading := by
  by_cases hu : ∃ body, quote.Closes (lineOf behind) body
  · obtain ⟨body, hc⟩ := hu
    obtain ⟨rest, hs⟩ := (quote.closes_iff behind body).mp hc
    cases hd : decodeBody .start body with
    | error d =>
      obtain ⟨front, letter, hm, -⟩ := hc.decodeBody_error_iff.mp hd
      exact ⟨_, .misescaped hc hm⟩
    | ok content =>
      have hstands := stands_of_decodeBody hs hd
      cases quote with
      | double => exact ⟨_, .str rfl hc hstands⟩
      | single =>
        by_cases hl : content.length = 1
        · exact ⟨_, .char rfl hc hstands hl⟩
        · exact ⟨_, .notOneChar rfl hc hstands hl⟩
  · exact ⟨_, .unclosed (not_exists.mp hu)⟩

theorem Quote.Answers.next (h : quote.Answers before behind reading) :
    (Scanner.mk (quote.mark :: behind) (.ofText before) false).next.1 = some reading := by
  cases h with
  | unclosed hn => exact next_unclosed hn
  | @misescaped body front letter hc hm =>
    have hd := hc.decodeBody_error_iff.mpr
      (show Misreported body ((Position.ofText before).right 1) _ from ⟨front, letter, hm, rfl⟩)
    rw [next_closed hc, hd, ofText_mark]
    rfl
  | str hq hc hstands =>
    subst hq
    rw [next_closed hc, hstands.decodeBody]
    rfl
  | char hq hc hstands hl =>
    subst hq
    rw [next_closed hc, hstands.decodeBody, ok_bind, Quote.token, if_pos hl]
  | notOneChar hq hc hstands hl =>
    subst hq
    rw [next_closed hc, hstands.decodeBody, ok_bind, Quote.token, if_neg hl]
    rfl

theorem Quote.answers_iff : quote.Answers before behind reading ↔
    (Scanner.mk (quote.mark :: behind) (.ofText before) false).next.1 = some reading := by
  constructor
  · exact Quote.Answers.next
  · intro h
    obtain ⟨other, ho⟩ := exists_answer quote before behind
    obtain rfl := Option.some.inj (h.symm.trans ho.next)
    exact ho

end

-- ---------------------------------------------------------------------------
-- Whole sources
-- ---------------------------------------------------------------------------

theorem Scanner.exists_drain {s : Scanner} (h : s.next.1 = some reading) :
    ∃ more, s.drain.1 = reading :: more := by
  unfold Scanner.next at h
  split at h
  · cases h
  · next hd =>
    have hs : s.done = false := Bool.eq_false_iff.mpr hd
    obtain ⟨read, behind, hr⟩ : ∃ read behind, s.read = (read, behind) := ⟨_, _, rfl⟩
    rw [hr] at h
    obtain rfl := Option.some.inj h
    cases read with
    | error d => exact ⟨[], by rw [drain_error hs hr]⟩
    | ok t =>
      cases hb : behind.done with
      | true => exact ⟨[], by rw [drain_last hs hr hb]⟩
      | false => exact ⟨_, by rw [drain_more hs hr hb]⟩

theorem tokenize_of_drain {ts : List Token}
    (h : (Scanner.ofSource source).drain.1 = ts.map .ok ++ .error d :: more) :
    tokenize source = .error d := by
  unfold tokenize
  rw [h, List.mapM_append, mapM_ok]
  rfl

theorem decodeBody_ne_unterminated {f : Front} {quote : Quote} (hf : front? text = some f)
    (hq : f.form = .quoted quote) (hd : decodeBody start (bodyOf f.lexeme) = .error d) :
    d.cause ≠ .unterminatedStr := by
  have hs := (front?_eq_some hf).2
  rw [hq] at hs
  obtain ⟨body, tail, hl, hb⟩ := split?_quoted hs
  rw [hl, bodyOf_enclosed] at hd
  obtain ⟨front, letter, -, rfl⟩ :=
    ((quote.closes_iff tail body).mpr ⟨f.rest, hb⟩).decodeBody_error_iff.mp hd
  exact nofun

/-- The answer to a quote is told by its line, at every place of a text and in
every source that is scanned up to a quote. What is decoded never ends with a
lone backslash. -/
theorem literals_exact :
    (∀ (quote : Quote) before behind reading, quote.Answers before behind reading ↔
      (Scanner.mk (quote.mark :: behind) (.ofText before) false).next.1 = some reading) ∧
    (∀ (quote : Quote) source before behind ts, source.toList = before ++ quote.mark :: behind →
      Scans .start source.toList ts (.ofText before) (quote.mark :: behind) →
      ∃ reading more, quote.Answers before behind reading ∧
        (Scanner.ofSource source).drain.1 = ts.map .ok ++ reading :: more ∧
        ∀ d, reading = .error d → tokenize source = .error d) ∧
    ∀ (quote : Quote) text f start d, front? text = some f → f.form = .quoted quote →
      decodeBody start (bodyOf f.lexeme) = .error d → d.cause ≠ .unterminatedStr := by
  refine ⟨fun quote before behind reading => Quote.answers_iff, ?_,
    fun quote text f start d => decodeBody_ne_unterminated⟩
  intro quote source before behind ts hsource hs
  obtain ⟨reading, ha⟩ := exists_answer quote before behind
  obtain ⟨more, hm⟩ := Scanner.exists_drain ha.next
  have hdrain : (Scanner.ofSource source).drain.1 = ts.map .ok ++ reading :: more := by
    rw [Scanner.ofSource, hs.drain, hm]
  refine ⟨reading, more, ha, hdrain, ?_⟩
  rintro d rfl
  exact tokenize_of_drain hdrain

def slashed : List Char := ['\\', '\\', '\\', 'd', '"']

theorem third_slash_reported :
    "x \"\\\\\\d\"".toList = ['x', ' '] ++ Quote.double.mark :: slashed ∧
    Scans .start "x \"\\\\\\d\"".toList [⟨.identifier, "x", .start⟩] (.ofText ['x', ' '])
      (Quote.double.mark :: slashed) ∧
    Quote.double.Answers ['x', ' '] slashed (.error ⟨.unknownEscape 'd', ⟨1, 6⟩⟩) ∧
    tokenize "x \"\\\\\\d\"" = .error ⟨.unknownEscape 'd', ⟨1, 6⟩⟩ ∧
    ∃ f d, front? (Quote.double.mark :: slashed) = some f ∧ f.form = .quoted .double ∧
      decodeBody .start (bodyOf f.lexeme) = .error d ∧ d.cause ≠ .unterminatedStr := by
  have hsource : "x \"\\\\\\d\"".toList = ['x', ' '] ++ Quote.double.mark :: slashed := rfl
  have hs : Scans .start "x \"\\\\\\d\"".toList [⟨.identifier, "x", .start⟩] (.ofText ['x', ' '])
      (Quote.double.mark :: slashed) := .token (f := ⟨.word, ['x'], _⟩) rfl rfl (.blank rfl .done)
  obtain ⟨reading, more, ha, -, ht⟩ := literals_exact.2.1 _ _ _ _ _ hsource hs
  obtain rfl : reading = .error ⟨.unknownEscape 'd', ⟨1, 6⟩⟩ :=
    Option.some.inj (((literals_exact.1 _ _ _ _).mp ha).symm.trans (next_mark _ _ _))
  have hf : front? (Quote.double.mark :: slashed) =
      some ⟨.quoted .double, Quote.double.mark :: slashed, []⟩ := rfl
  have hd : decodeBody .start (bodyOf (Quote.double.mark :: slashed)) =
      .error ⟨.unknownEscape 'd', ⟨1, 3⟩⟩ := rfl
  exact ⟨hsource, hs, ha, ht _ rfl, _, _, hf, rfl, hd, literals_exact.2.2 _ _ _ _ _ hf rfl hd⟩

end LetLang
