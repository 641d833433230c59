import LetLang.Proofs.Token.Rendering
import Mathlib.Data.List.MinMax

/-!
# The longest lexeme

The forms are tried in order, and the first one that covers some of a text takes
it. It is also the form that covers most: two forms that can cover fronts of one
text are a comment and a slash, a number with a point and its whole part, a
literal in quotes and its opening quote, or two operators one of which starts
with the other, and of each two the longer comes first. So the order makes no
difference to a scanner that takes the longest lexeme.
-/

namespace LetLang

def fronts (forms : List Form) (text : List Char) : List Front :=
  forms.filterMap fun form => (form.split? text).map fun (lexeme, rest) => ⟨form, lexeme, rest⟩

def longest? (forms : List Form) (text : List Char) : Option Front :=
  (fronts forms text).argmax (·.lexeme.length)

theorem front?_eq_head? (text : List Char) : front? text = (fronts Form.all text).head? :=
  List.head?_filterMap.symm

-- ---------------------------------------------------------------------------
-- First characters
-- ---------------------------------------------------------------------------

def CharClass.Apart (s t : CharClass) : Prop :=
  ∀ r ∈ s.ranges, ∀ q ∈ t.ranges, r.last < q.first ∨ q.last < r.first

instance (s t : CharClass) : Decidable (s.Apart t) :=
  inferInstanceAs (Decidable (∀ r ∈ s.ranges, ∀ q ∈ t.ranges, r.last < q.first ∨ q.last < r.first))

theorem CharClass.Apart.not_has {s t : CharClass} (h : s.Apart t) (hs : s.has c = true) :
    t.has c = false := by
  refine Bool.eq_false_iff.mpr fun ht => ?_
  obtain ⟨r, hr, hr₁, hr₂⟩ := (s.has_iff c).mp hs
  obtain ⟨q, hq, hq₁, hq₂⟩ := (t.has_iff c).mp ht
  rcases h r hr q hq with h | h
  · omega
  · omega

def CharClass.ofChars (chars : List Char) : CharClass :=
  ⟨chars.map fun c => ⟨c.toNat, c.toNat⟩⟩

theorem CharClass.ofChars_has (h : c ∈ chars) : (CharClass.ofChars chars).has c = true :=
  (CharClass.has_iff _ _).mpr ⟨_, List.mem_map_of_mem h, Nat.le_refl _, Nat.le_refl _⟩

def digits : CharClass := ⟨[⟨0x30, 0x39⟩]⟩

def Form.firsts : Form → CharClass
  | .blank => blanks
  | .comment => .ofChars ['/']
  | .word => ⟨[⟨0x61, 0x7a⟩, ⟨0x41, 0x5a⟩, ⟨0x5f, 0x5f⟩]⟩
  | .float => ⟨digits.ranges ++ [⟨0x2e, 0x2e⟩]⟩
  | .int => digits
  | .quoted quote | .openQuote quote => .ofChars [quote.mark]
  | .punct mark => .ofChars mark.chars.head?.toList

theorem Form.firsts_of_starts {form : Form} (h : form.starts c = true) :
    form.firsts.has c = true := by
  have hdigit (h : isDigit c = true) : digits.has c = true := by
    have := isDigit_bounds h
    exact (CharClass.has_iff _ _).mpr ⟨_, List.mem_cons_self, this⟩
  cases form with
  | blank => exact h
  | int => exact hdigit h
  | comment | quoted | openQuote =>
    exact CharClass.ofChars_has (List.mem_singleton.mpr (of_decide_eq_true h))
  | punct mark =>
    exact CharClass.ofChars_has (Option.mem_toList.mpr (of_decide_eq_true h))
  | float =>
    rcases (Bool.or_eq_true _ _).mp h with h | h
    · obtain ⟨r, hr, hc⟩ := (CharClass.has_iff _ _).mp (hdigit h)
      exact (CharClass.has_iff _ _).mpr ⟨r, List.mem_append_left _ hr, hc⟩
    · obtain rfl := of_decide_eq_true h
      rfl
  | word =>
    simp only [starts, isWordStart, Bool.or_eq_true, Bool.and_eq_true, decide_eq_true_eq,
      Char.le_def, UInt32.le_iff_toNat_le] at h
    rw [CharClass.has_iff]
    rcases h with (h | h) | rfl
    · exact ⟨⟨0x61, 0x7a⟩, by decide, h⟩
    · exact ⟨⟨0x41, 0x5a⟩, by decide, h⟩
    · exact ⟨⟨0x5f, 0x5f⟩, by decide, by decide⟩

theorem Form.has_of_split? {form : Form} (h : form.split? text = some parts) :
    ∃ c ∈ text.head?, form.firsts.has c = true := by
  obtain ⟨lexeme, rest⟩ := parts
  cases text with
  | nil =>
    obtain ⟨ht, hn⟩ := Form.split?_append h
    exact absurd (List.append_eq_nil_iff.mp ht).1 hn
  | cons c text =>
    refine ⟨c, rfl, Form.firsts_of_starts ?_⟩
    cases hc : form.starts c with
    | true => rfl
    | false =>
      rw [Form.split?_of_starts hc] at h
      cases h

-- ---------------------------------------------------------------------------
-- Two forms on one text
-- ---------------------------------------------------------------------------

/-- Whether a form covers more than another of every text of which both cover some. -/
def Form.Outruns (form other : Form) : Prop :=
  ∀ text lexeme rest lexeme' rest', form.split? text = some (lexeme, rest) →
    other.split? text = some (lexeme', rest') → lexeme'.length < lexeme.length

theorem Form.Outruns.of_apart {form other : Form} (h : form.firsts.Apart other.firsts) :
    form.Outruns other := by
  intro text lexeme rest lexeme' rest' hf ho
  obtain ⟨c, hc, hfirst⟩ := Form.has_of_split? hf
  obtain ⟨x, hx, hother⟩ := Form.has_of_split? ho
  cases hc.symm.trans hx
  exact absurd (h.not_has hfirst) (by simp [hother])

def Form.overlaps : Form → Form → Bool
  | .comment, .punct mark => mark = .slash
  | .float, .int => true
  | .quoted quote, .openQuote other => quote = other
  | .punct mark, .punct other =>
    other.chars.isPrefixOf mark.chars && other.chars.length < mark.chars.length
  | _, _ => false

theorem splitRun?_eq {inClass : Char → Bool}
    (h : Form.splitRun? inClass text = some (lexeme, rest)) : lexeme = text.takeWhile inClass := by
  unfold Form.splitRun? at h
  split at h
  · split at h
    · cases h
      rfl
    · cases h
  · cases h

theorem splitFloat?_eq (h : Form.splitFloat? text = some (lexeme, rest)) :
    ∃ fraction, lexeme = text.takeWhile isDigit ++ '.' :: fraction := by
  simp only [Form.splitFloat?] at h
  split at h
  · split at h
    · cases h
    · cases h
      exact ⟨_, rfl⟩
  · cases h

theorem Form.Outruns.of_overlaps {form other : Form} (h : form.overlaps other = true) :
    form.Outruns other := by
  intro text lexeme rest lexeme' rest' hf ho
  unfold Form.overlaps at h
  split at h
  · obtain rfl := of_decide_eq_true h
    obtain ⟨body, rfl, -⟩ := split?_comment hf
    obtain ⟨rfl, -⟩ := Form.splitFixed?_append ho
    simp [Punct.chars]
  · -- the digits in front of the point are the whole number
    obtain ⟨fraction, rfl⟩ := splitFloat?_eq hf
    obtain rfl := splitRun?_eq ho
    simp
  · obtain rfl := of_decide_eq_true h
    obtain ⟨body, tail, rfl, -⟩ := split?_quoted hf
    obtain ⟨rfl, -⟩ := Form.splitFixed?_append ho
    simp
  · obtain ⟨-, hl⟩ := (Bool.and_eq_true _ _).mp h
    obtain ⟨rfl, -⟩ := Form.splitFixed?_append hf
    obtain ⟨rfl, -⟩ := Form.splitFixed?_append ho
    exact of_decide_eq_true hl
  · cases h

/-- Forms with a first character in common overlap, the earlier covering more. -/
theorem Form.all_apart_or_overlap : Form.all.Pairwise fun form other =>
    form.firsts.Apart other.firsts ∨ form.overlaps other = true := by
  decide

theorem Form.all_outrun : Form.all.Pairwise Form.Outruns := by
  refine Form.all_apart_or_overlap.imp ?_
  rintro form other (h | h)
  · exact .of_apart h
  · exact .of_overlaps h

-- ---------------------------------------------------------------------------
-- The first form and the longest
-- ---------------------------------------------------------------------------

theorem fronts_pairwise (text : List Char) : (fronts Form.all text).Pairwise fun f g =>
    g.lexeme.length < f.lexeme.length := by
  refine List.pairwise_filterMap.mpr (Form.all_outrun.imp ?_)
  intro form other h f hf g hg
  obtain ⟨⟨lexeme, rest⟩, hs, rfl⟩ := Option.map_eq_some_iff.mp hf
  obtain ⟨⟨lexeme', rest'⟩, hs', rfl⟩ := Option.map_eq_some_iff.mp hg
  exact h text lexeme rest lexeme' rest' hs hs'

/-- In a list that gets shorter, the longest front is the first, in whatever order
the list is searched. -/
theorem argmax_of_perm {first : Front} {others fs : List Front}
    (h : (first :: others).Pairwise fun f g => g.lexeme.length < f.lexeme.length)
    (hp : fs.Perm (first :: others)) : fs.argmax (·.lexeme.length) = some first := by
  cases ha : fs.argmax (·.lexeme.length) with
  | none =>
    rw [List.argmax_eq_none.mp ha] at hp
    cases hp.nil_eq
  | some f =>
    have hle := List.le_of_mem_argmax (hp.mem_iff.mpr List.mem_cons_self) ha
    rcases List.mem_cons.mp (hp.mem_iff.mp (List.argmax_mem ha)) with rfl | hm
    · rfl
    · exact absurd ((List.pairwise_cons.mp h).1 f hm) (Nat.not_lt_of_le hle)

theorem longest?_eq_front? (hp : forms.Perm Form.all) : longest? forms = front? := by
  funext text
  have hperm : (fronts forms text).Perm (fronts Form.all text) := hp.filterMap _
  have hpair := fronts_pairwise text
  rw [longest?, front?_eq_head?]
  cases hf : fronts Form.all text with
  | nil =>
    rw [hf] at hperm
    rw [hperm.eq_nil]
    rfl
  | cons first others =>
    rw [hf] at hperm hpair
    exact argmax_of_perm hpair hperm

theorem exists_first (hm : form ∈ Form.all) (hs : form.split? text ≠ none) :
    ∃ f before after, front? text = some f ∧ Form.all = before ++ f.form :: after ∧
      (∀ form ∈ before, form.split? text = none) ∧
      f.form.split? text = some (f.lexeme, f.rest) := by
  cases hf : front? text with
  | none =>
    have hnone := List.findSome?_eq_none_iff.mp hf form hm
    exact absurd (Option.map_eq_none_iff.mp hnone) hs
  | some f =>
    obtain ⟨before, first, after, hall, hfirst, hbefore⟩ := List.findSome?_eq_some_iff.mp hf
    obtain ⟨⟨lexeme, rest⟩, hsplit, rfl⟩ := Option.map_eq_some_iff.mp hfirst
    refine ⟨_, before, after, rfl, hall, fun form hm => ?_, hsplit⟩
    exact Option.map_eq_none_iff.mp (hbefore form hm)

/-- Of a text of which some form covers a front, the first form in the table that
covers one covers more than every other. A scanner that takes the longest front
takes the same one, in whatever order it tries the forms. -/
theorem front_longest :
    (∀ text, (∃ form ∈ Form.all, form.split? text ≠ none) →
      ∃ f before after, front? text = some f ∧ Form.all = before ++ f.form :: after ∧
        (∀ form ∈ before, form.split? text = none) ∧
        f.form.split? text = some (f.lexeme, f.rest) ∧
        ∀ form ∈ before ++ after, ∀ lexeme rest, form.split? text = some (lexeme, rest) →
          lexeme.length < f.lexeme.length) ∧
      ∀ forms, forms.Perm Form.all → longest? forms = front? := by
  refine ⟨?_, fun forms => longest?_eq_front?⟩
  rintro text ⟨form, hm, hs⟩
  obtain ⟨f, before, after, hf, hall, hbefore, hsplit⟩ := exists_first hm hs
  refine ⟨f, before, after, hf, hall, hbefore, hsplit, fun other ho lexeme rest hother => ?_⟩
  have hpair := Form.all_outrun
  rw [hall] at hpair
  -- The forms before this one cover nothing, and it outruns those behind.
  rcases List.mem_append.mp ho with ho | ho
  · cases (hbefore other ho).symm.trans hother
  · have houtrun := (List.pairwise_cons.mp (List.pairwise_append.mp hpair).2.1).1 other ho
    exact houtrun text _ _ lexeme rest hsplit hother

example : longest? Form.all.reverse ['-', '>', 'a'] =
    some ⟨.punct .arrow, ['-', '>'], ['a']⟩ := by decide

end LetLang
