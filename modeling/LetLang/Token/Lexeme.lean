import LetLang.Number.Numeral
import LetLang.Text.Blank
import LetLang.Token.Kind

/-!
# Lexemes

A source is cut into lexemes: blanks, comments, words, numerals, literals in
quotes and punctuation. Each form says how much of the front of a text it
covers, and a text belongs to the first form of `Form.all` that covers some of
it. A quote that no matching quote closes on its line is a lexeme too, so that
it can be reported.
-/

namespace LetLang

def isWordStart (c : Char) : Bool :=
  ('a' ≤ c && c ≤ 'z') || ('A' ≤ c && c ≤ 'Z') || c = '_'

def isWordChar (c : Char) : Bool := isWordStart c || isDigit c

inductive Quote where
  | single
  | double
  deriving DecidableEq, Repr

def Quote.mark : Quote → Char
  | .single => '\''
  | .double => '"'

/-- Splits the text after an opening quote at the quote that closes it on the
same line. A backslash takes the character after it along. -/
def splitBody? (mark : Char) : List Char → Option (List Char × List Char)
  | [] => none
  | '\\' :: c :: rest =>
    if c = '\n' then none
    else (splitBody? mark rest).map fun (body, rest) => ('\\' :: c :: body, rest)
  | c :: rest =>
    if c = mark then some ([], rest)
    else if c = '\\' || c = '\n' then none
    else (splitBody? mark rest).map fun (body, rest) => (c :: body, rest)

inductive Form where
  | blank
  | comment
  | word
  | float
  | int
  | quoted (quote : Quote)
  | openQuote (quote : Quote)
  | punct (mark : Punct)
  deriving DecidableEq, Repr

namespace Form

/-- All forms, in the order in which they are tried. -/
def all : List Form :=
  [.blank, .comment, .word, .float, .int, .quoted .double, .openQuote .double, .quoted .single,
    .openQuote .single] ++ Punct.all.map .punct

/-- Splits a text after its longest front of characters of a class. -/
def splitRun (inClass : Char → Bool) (text : List Char) : List Char × List Char :=
  (text.takeWhile inClass, text.dropWhile inClass)

def splitRun? (inClass : Char → Bool) (text : List Char) : Option (List Char × List Char) :=
  match text with
  | c :: _ => if inClass c then some (splitRun inClass text) else none
  | [] => none

def splitFixed? (front text : List Char) : Option (List Char × List Char) :=
  if front.isPrefixOf text then some (front, text.drop front.length) else none

/-- Digits, a point and more digits, of which one part may be missing. -/
def splitFloat? (text : List Char) : Option (List Char × List Char) :=
  let (whole, rest) := splitRun isDigit text
  match rest with
  | '.' :: rest =>
    let (fraction, rest) := splitRun isDigit rest
    if whole.isEmpty && fraction.isEmpty then none
    else some (whole ++ '.' :: fraction, rest)
  | _ => none

/-- The part of a text that a form covers, and the rest. -/
def split? (form : Form) (text : List Char) : Option (List Char × List Char) :=
  match form with
  | .blank => splitRun? isBlank text
  | .comment =>
    match text with
    | '/' :: '/' :: _ => some (splitRun (· ≠ '\n') text)
    | _ => none
  | .word =>
    match text with
    | c :: _ => if isWordStart c then some (splitRun isWordChar text) else none
    | [] => none
  | .float => splitFloat? text
  | .int => splitRun? isDigit text
  | .quoted quote =>
    match text with
    | c :: rest =>
      if c = quote.mark then
        (splitBody? quote.mark rest).map fun (body, rest) => (c :: body ++ [quote.mark], rest)
      else none
    | [] => none
  | .openQuote quote => splitFixed? [quote.mark] text
  | .punct mark => splitFixed? mark.chars text

end Form

structure Front where
  form : Form
  lexeme : List Char
  rest : List Char
  deriving DecidableEq, Repr

def front? (text : List Char) : Option Front :=
  Form.all.findSome? fun form =>
    (form.split? text).map fun (lexeme, rest) => ⟨form, lexeme, rest⟩

theorem splitBody?_append {mark : Char} {text body rest : List Char}
    (h : splitBody? mark text = some (body, rest)) : body ++ mark :: rest = text := by
  fun_induction splitBody? mark text generalizing body with
  | case1 => simp at h
  | case2 => simp at h
  | case3 c tail hc ih =>
    obtain ⟨⟨b, r⟩, hb, he⟩ := Option.map_eq_some_iff.mp h
    cases he
    simp [ih hb]
  | case4 tail =>
    cases h
    rfl
  | case5 => simp at h
  | case6 c tail _ hm hc ih =>
    obtain ⟨⟨b, r⟩, hb, he⟩ := Option.map_eq_some_iff.mp h
    cases he
    simp [ih hb]

namespace Form

theorem splitRun_append (inClass : Char → Bool) (text : List Char) :
    (splitRun inClass text).1 ++ (splitRun inClass text).2 = text :=
  List.takeWhile_append_dropWhile

theorem splitRun_ne_nil {inClass : Char → Bool} {c : Char} {rest : List Char}
    (h : inClass c = true) : (splitRun inClass (c :: rest)).1 ≠ [] := by
  simp [splitRun, h]

theorem splitRun?_append {inClass : Char → Bool} {text lexeme rest : List Char}
    (h : splitRun? inClass text = some (lexeme, rest)) :
    lexeme ++ rest = text ∧ lexeme ≠ [] := by
  unfold splitRun? at h
  split at h
  · split at h
    · next hc =>
      cases h
      exact ⟨List.takeWhile_append_dropWhile, splitRun_ne_nil hc⟩
    · cases h
  · cases h

theorem splitFixed?_append {front text lexeme rest : List Char}
    (h : splitFixed? front text = some (lexeme, rest)) :
    lexeme = front ∧ lexeme ++ rest = text := by
  unfold splitFixed? at h
  split at h
  · next hp =>
    cases h
    obtain ⟨tail, rfl⟩ := List.isPrefixOf_iff_prefix.mp hp
    simp
  · cases h

theorem splitFloat?_append {text lexeme rest : List Char}
    (h : splitFloat? text = some (lexeme, rest)) : lexeme ++ rest = text ∧ lexeme ≠ [] := by
  simp only [splitFloat?] at h
  split at h
  · next tail hr =>
    split at h
    · cases h
    · cases h
      refine ⟨?_, by simp⟩
      rw [List.append_assoc, List.cons_append, splitRun_append, ← hr, splitRun_append]
  · cases h

theorem split?_append {form : Form} {text lexeme rest : List Char}
    (h : form.split? text = some (lexeme, rest)) : lexeme ++ rest = text ∧ lexeme ≠ [] := by
  cases form with
  | blank => exact splitRun?_append h
  | comment =>
    simp only [split?] at h
    split at h
    · cases h
      exact ⟨List.takeWhile_append_dropWhile, by simp⟩
    · cases h
  | word =>
    simp only [split?] at h
    split at h
    · split at h
      · next hc =>
        cases h
        exact ⟨List.takeWhile_append_dropWhile, by simp [isWordChar, hc]⟩
      · cases h
    · cases h
  | float => exact splitFloat?_append h
  | int => exact splitRun?_append h
  | quoted quote =>
    simp only [split?] at h
    split at h
    · split at h
      · obtain ⟨⟨body, tail⟩, hb, he⟩ := Option.map_eq_some_iff.mp h
        cases he
        simp [splitBody?_append hb]
      · cases h
    · cases h
  | openQuote quote =>
    obtain ⟨rfl, ht⟩ := splitFixed?_append h
    exact ⟨ht, by simp⟩
  | punct mark =>
    obtain ⟨rfl, ht⟩ := splitFixed?_append h
    exact ⟨ht, by cases mark <;> simp [Punct.chars]⟩

end Form

theorem front?_eq_some {text : List Char} {f : Front} (h : front? text = some f) :
    f.form ∈ Form.all ∧ f.form.split? text = some (f.lexeme, f.rest) := by
  obtain ⟨form, hm, hf⟩ := List.exists_of_findSome?_eq_some h
  obtain ⟨⟨lexeme, rest⟩, hs, rfl⟩ := Option.map_eq_some_iff.mp hf
  exact ⟨hm, hs⟩

theorem front?_length_lt {text : List Char} {f : Front} (h : front? text = some f) :
    f.rest.length < text.length := by
  obtain ⟨ht, hn⟩ := Form.split?_append (front?_eq_some h).2
  have := List.length_pos_iff.mpr hn
  rw [← ht, List.length_append]
  omega

end LetLang
