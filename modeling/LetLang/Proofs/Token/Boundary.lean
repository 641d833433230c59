import LetLang.Proofs.Token.Scanning

/-!
# Lexemes in front of a blank

A blank is no part of a word, a numeral or punctuation, so these end where a
blank follows.
-/

namespace LetLang

def Ink (c : Char) : Prop := 33 ≤ c.toNat ∧ c.toNat ≤ 126

instance : DecidablePred Ink := fun _ => inferInstanceAs (Decidable (_ ∧ _))

theorem Ink.not_blank (h : Ink c) : isBlank c = false := by
  obtain ⟨hl, hu⟩ := h
  refine Bool.eq_false_iff.mpr fun hb => ?_
  obtain ⟨r, hr, hfirst, hlast⟩ := (CharClass.has_iff _ _).mp hb
  have hout : ∀ r ∈ blanks.ranges, r.last < 33 ∨ 126 < r.first := by decide
  rcases hout r hr with h | h
  · omega
  · omega

theorem isDigit_bounds (h : isDigit c = true) : 48 ≤ c.toNat ∧ c.toNat ≤ 57 := by
  simp only [isDigit, Bool.and_eq_true, decide_eq_true_eq, Char.le_def,
    UInt32.le_iff_toNat_le] at h
  exact h

theorem isWordStart_bounds (h : isWordStart c = true) : 65 ≤ c.toNat ∧ c.toNat ≤ 122 := by
  simp only [isWordStart, Bool.or_eq_true, Bool.and_eq_true, decide_eq_true_eq, Char.le_def,
    UInt32.le_iff_toNat_le] at h
  rcases h with (h | h) | rfl
  · change 97 ≤ c.toNat ∧ c.toNat ≤ 122 at h
    omega
  · change 65 ≤ c.toNat ∧ c.toNat ≤ 90 at h
    omega
  · decide

theorem isDigit_ink (h : isDigit c = true) : Ink c := by
  have := isDigit_bounds h
  unfold Ink
  omega

theorem isWordStart_ink (h : isWordStart c = true) : Ink c := by
  have := isWordStart_bounds h
  unfold Ink
  omega

theorem isWordChar_ink (h : isWordChar c = true) : Ink c := by
  rcases (Bool.or_eq_true _ _).mp h with h | h
  · exact isWordStart_ink h
  · exact isDigit_ink h

theorem ink_of_all {text : List Char} (h : text.all (fun c => decide (Ink c)) = true) :
    ∀ c ∈ text, Ink c := fun c hc => of_decide_eq_true (List.all_eq_true.mp h c hc)

theorem Punct.chars_ink (mark : Punct) : ∀ c ∈ mark.chars, Ink c :=
  ink_of_all (by cases mark <;> rfl)

/-- Whether a text is empty or starts with a blank. -/
def Clear (rest : List Char) : Prop := ∀ c ∈ rest.head?, isBlank c = true

theorem Clear.nil : Clear [] := nofun

theorem Clear.cons (h : isBlank c = true) : Clear (c :: rest) := by
  rintro _ ⟨⟩
  exact h

theorem Clear.stops {inClass : Char → Bool} (hr : Clear rest)
    (hi : ∀ c, inClass c = true → Ink c) : ∀ c ∈ rest.head?, inClass c = false := fun c hc =>
  Bool.eq_false_iff.mpr fun h => Bool.false_ne_true ((hi c h).not_blank.symm.trans (hr c hc))

theorem Clear.ne (hr : Clear (c :: rest)) (hi : Ink x) : c ≠ x := by
  rintro rfl
  exact Bool.false_ne_true (hi.not_blank.symm.trans (hr c rfl))

-- ---------------------------------------------------------------------------
-- The ends of lexemes
-- ---------------------------------------------------------------------------

namespace Form

theorem splitRun_behind {inClass : Char → Bool} (hr : ∀ c ∈ rest.head?, inClass c = false)
    (text : List Char) :
    splitRun inClass (text ++ rest) =
      ((splitRun inClass text).1, (splitRun inClass text).2 ++ rest) := by
  induction text with
  | nil =>
    cases rest with
    | nil => rfl
    | cons c rest => simp [splitRun, hr c rfl]
  | cons x text ih =>
    cases hx : inClass x with
    | true => simpa [splitRun, hx] using ih
    | false => simp [splitRun, hx]

theorem isPrefixOf_behind {front : List Char} (hi : ∀ c ∈ front, Ink c) (hr : Clear rest)
    (text : List Char) : front.isPrefixOf (text ++ rest) = front.isPrefixOf text := by
  induction front generalizing text with
  | nil => rfl
  | cons c front ih =>
    obtain ⟨hc, hi⟩ := List.forall_mem_cons.mp hi
    cases text with
    | nil =>
      cases rest with
      | nil => rfl
      | cons x rest => simp [List.isPrefixOf, (hr.ne hc).symm]
    | cons x text => simp [List.isPrefixOf, ih hi]

def behind (rest : List Char) (parts : List Char × List Char) : List Char × List Char :=
  (parts.1, parts.2 ++ rest)

theorem splitFixed?_behind {front : List Char} (hi : ∀ c ∈ front, Ink c) (hr : Clear rest)
    (text : List Char) :
    splitFixed? front (text ++ rest) = (splitFixed? front text).map (behind rest) := by
  unfold splitFixed?
  rw [isPrefixOf_behind hi hr]
  cases hp : front.isPrefixOf text with
  | false => rfl
  | true =>
    have hl := (List.isPrefixOf_iff_prefix.mp hp).length_le
    simp [behind, List.drop_append_of_le_length hl]

/-- Splits a text after such a front if it starts with a character of the first
class, as a word and a run of digits do. -/
def splitFrom? (first inClass : Char → Bool) (text : List Char) :
    Option (List Char × List Char) :=
  match text with
  | c :: _ => if first c then some (splitRun inClass text) else none
  | [] => none

theorem splitFrom?_behind {first inClass : Char → Bool}
    (hf : ∀ c ∈ rest.head?, first c = false) (hi : ∀ c ∈ rest.head?, inClass c = false)
    (text : List Char) :
    splitFrom? first inClass (text ++ rest) =
      (splitFrom? first inClass text).map (behind rest) := by
  cases text with
  | nil =>
    cases rest with
    | nil => rfl
    | cons c rest => simp [splitFrom?, hf c rfl]
  | cons x text =>
    have hs := splitRun_behind hi (x :: text)
    rw [List.cons_append] at hs
    cases hx : first x with
    | true => simp [splitFrom?, hx, hs, behind]
    | false => simp [splitFrom?, hx]

theorem splitFloat?_behind (hr : Clear rest) (text : List Char) :
    splitFloat? (text ++ rest) = (splitFloat? text).map (behind rest) := by
  unfold splitFloat?
  have hd := hr.stops fun _ => isDigit_ink
  rw [splitRun_behind hd]
  generalize splitRun isDigit text = parts
  obtain ⟨whole, tail⟩ := parts
  cases tail with
  | nil =>
    cases rest with
    | nil => rfl
    | cons c rest =>
      have hc : c ≠ '.' := hr.ne (by decide)
      simp [hc]
  | cons c tail =>
    by_cases hc : c = '.'
    · subst hc
      have hs := splitRun_behind hd tail
      simp only [List.cons_append, hs]
      split <;> rfl
    · simp [hc]

def Solid : Form → Prop
  | .blank | .comment | .quoted _ => False
  | _ => True

/-- What a solid form covers does not depend on what follows a blank. -/
theorem split?_behind {form : Form} (hs : form.Solid) (hr : Clear rest) (text : List Char) :
    form.split? (text ++ rest) = (form.split? text).map (behind rest) := by
  cases form with
  | blank | comment | quoted => exact hs.elim
  | word =>
    exact splitFrom?_behind (hr.stops fun _ => isWordStart_ink) (hr.stops fun _ => isWordChar_ink)
      text
  | float => exact splitFloat?_behind hr text
  | int =>
    exact splitFrom?_behind (hr.stops fun _ => isDigit_ink) (hr.stops fun _ => isDigit_ink) text
  | openQuote quote => exact splitFixed?_behind (ink_of_all (by cases quote <;> rfl)) hr text
  | punct mark => exact splitFixed?_behind mark.chars_ink hr text

theorem splitBody?_plain (hc : c ≠ '\\') : splitBody? mark (c :: text) =
    if c = mark then some ([], text) else if c = '\\' || c = '\n' then none
    else (splitBody? mark text).map fun (body, rest) => (c :: body, rest) :=
  splitBody?.eq_3 _ _ _ fun _ _ he => absurd he hc

theorem splitBody?_behind (quote : Quote) (text more : List Char) :
    splitBody? quote.mark (text ++ '\n' :: more) =
      (splitBody? quote.mark text).map (behind ('\n' :: more)) := by
  fun_induction splitBody? quote.mark text with
  | case1 =>
    rw [List.nil_append, splitBody?_plain (by decide)]
    cases quote <;> rfl
  | case2 tail => simp [splitBody?]
  | case3 c tail hc ih =>
    simp only [splitBody?, List.cons_append, hc, if_false, ih, Option.map_map]
    rfl
  | case4 tail =>
    rw [List.cons_append, splitBody?_plain (by cases quote <;> decide), if_pos rfl]
    rfl
  | case5 c tail hl hm hc =>
    -- a backslash at the end of its line escapes nothing
    by_cases hesc : c = '\\'
    · obtain rfl : tail = [] := List.eq_nil_iff_forall_not_mem.mpr fun x hx => by
        obtain ⟨y, more, rfl⟩ := List.exists_cons_of_ne_nil (List.ne_nil_of_mem hx)
        exact hl y more hesc rfl
      subst hesc
      simp [splitBody?]
    · rw [List.cons_append, splitBody?_plain hesc, if_neg hm, if_pos hc]
      rfl
  | case6 c tail hl hm hc ih =>
    have hesc : c ≠ '\\' := by
      rintro rfl
      exact hc rfl
    rw [List.cons_append, splitBody?_plain hesc, if_neg hm, if_neg hc, ih, Option.map_map,
      Option.map_map]
    rfl

theorem split?_comment_cons : comment.split? (x :: y :: text) =
    if x = '/' ∧ y = '/' then some (splitRun (· ≠ '\n') (x :: y :: text)) else none := by
  by_cases h : x = '/' ∧ y = '/'
  · obtain ⟨rfl, rfl⟩ := h
    rfl
  · rw [if_neg h]
    simp only [split?]
    split
    · next he =>
      cases he
      exact absurd ⟨rfl, rfl⟩ h
    · rfl

/-- What a form covers does not depend on what follows a newline, unless it is
blanks. -/
theorem split?_newline {form : Form} (hb : form ≠ .blank) (text more : List Char) :
    form.split? (text ++ '\n' :: more) = (form.split? text).map (behind ('\n' :: more)) := by
  cases form with
  | blank => exact absurd rfl hb
  | word | float | int | openQuote | punct =>
    refine split?_behind ?_ (.cons rfl) text
    trivial
  | comment =>
    cases text with
    | nil => rfl
    | cons x text =>
      cases text with
      | nil =>
        rw [List.cons_append, List.nil_append, split?_comment_cons, if_neg (by simp)]
        simp [split?]
      | cons y text =>
        have hr : ∀ c ∈ ('\n' :: more).head?, decide (c ≠ '\n') = false := by simp
        have hrun := splitRun_behind hr (x :: y :: text)
        rw [List.cons_append, List.cons_append] at *
        rw [split?_comment_cons, split?_comment_cons, hrun]
        split <;> rfl
  | quoted quote =>
    cases text with
    | nil => cases quote <;> rfl
    | cons c text =>
      simp only [split?, List.cons_append, splitBody?_behind]
      split
      · simp only [Option.map_map]
        rfl
      · rfl

end Form

end LetLang
