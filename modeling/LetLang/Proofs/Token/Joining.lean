import LetLang.Proofs.Moving.Trees
import LetLang.Proofs.Token.Boundary
import LetLang.Proofs.Token.Lossless

/-!
# Joining sources

A newline ends every lexeme that is not blank, so a source that is scanned in
front of one is scanned alike whatever follows. What follows is scanned as it
would be alone, in rows further down.
-/

namespace LetLang

namespace Position

def down (count : Nat) (p : Position) : Position := ⟨p.row + count, p.column⟩

/-- Where a place of a text is when the text stands behind a source and a newline. -/
def below (source : String) : Position → Position := down (1 + source.toList.count '\n')

theorem step_down (count : Nat) (p : Position) (c : Char) :
    (p.down count).step c = (p.step c).down count := by
  by_cases hc : c = '\n'
  · simp only [step, hc, if_true, down, Nat.add_right_comm]
  · simp only [step, hc, if_false, down]

theorem after_down (count : Nat) (p : Position) (text : List Char) :
    (p.down count).after text = (p.after text).down count := by
  induction text generalizing p with
  | nil => rfl
  | cons c text ih => rw [after_cons, step_down, ih, after_cons]

theorem start_below (source : String) :
    start.below source = (start.after source.toList).step '\n' := by
  rw [← ofText_eq_after]
  simp only [below, down, start, step, if_true, ofText, mk.injEq, and_true]
  omega

end Position

-- ---------------------------------------------------------------------------
-- In front of a newline
-- ---------------------------------------------------------------------------

def Front.extended (f : Front) (more : List Char) : Front := { f with rest := f.rest ++ more }

theorem findSome?_extended {forms : List Form} (h : ∀ form ∈ forms,
      form.split? (text ++ more) = (form.split? text).map (Form.behind more)) :
    (forms.findSome? fun form =>
        (form.split? (text ++ more)).map fun (lexeme, rest) => Front.mk form lexeme rest) =
      (forms.findSome? fun form =>
        (form.split? text).map fun (lexeme, rest) => Front.mk form lexeme rest).map
          (·.extended more) := by
  induction forms with
  | nil => rfl
  | cons form forms ih =>
    obtain ⟨hform, hforms⟩ := List.forall_mem_cons.mp h
    rw [List.findSome?_cons, List.findSome?_cons, hform, ih hforms]
    cases form.split? text with
    | none => rfl
    | some parts => rfl

theorem front?_newline (hc : isBlank c = false) (text more : List Char) :
    front? (c :: text ++ '\n' :: more) =
      (front? (c :: text)).map fun f => f.extended ('\n' :: more) := by
  refine findSome?_extended fun form _ => ?_
  by_cases hb : form = .blank
  · rw [hb]
    simp [Form.split?, Form.splitRun?, hc]
  · exact Form.split?_newline hb _ _

theorem not_blank_of_front? {f : Front} (hf : front? (c :: text) = some f) (hk : f.form ≠ .blank) :
    isBlank c = false := by
  cases hc : isBlank c with
  | false => rfl
  | true =>
    rw [front?_blank hc] at hf
    cases hf
    exact absurd rfl hk

theorem front?_extended {f : Front} (hf : front? text = some f) (hk : f.form ≠ .blank)
    (more : List Char) :
    front? (text ++ '\n' :: more) = some (f.extended ('\n' :: more)) := by
  cases text with
  | nil => cases hf
  | cons c text => rw [front?_newline (not_blank_of_front? hf hk), hf, Option.map_some]

theorem Scans.extend (h : Scans p text ts q rest) (more : List Char) :
    Scans p (text ++ '\n' :: more) ts q (rest ++ '\n' :: more) := by
  induction h with
  | done => exact .done
  | blank hc _ ih => exact .blank hc ih
  | comment hf hk _ ih => exact .comment (front?_extended hf (by rw [hk]; nofun) more) hk ih
  | @token text f p t ts q rest hf ht _ ih =>
    have hk : f.form ≠ .blank := by
      intro hk
      simp only [Front.token?, hk] at ht
      cases ht
    exact .token (front?_extended hf hk more) ht ih

-- ---------------------------------------------------------------------------
-- Further down
-- ---------------------------------------------------------------------------

theorem decodeBody_elsewhere (h : decodeBody start body = .ok content) (other : Position) :
    decodeBody other body = .ok content := by
  fun_induction decodeBody start body generalizing content other with
  | case1 => exact h
  | case2 start letter rest c hc ih =>
    obtain ⟨more, hm, h⟩ := bind_eq_ok.mp h
    obtain rfl := pure_eq_ok.mp h
    rw [decodeBody_escape hc, ih hm]
    rfl
  | case3 => cases h
  | case4 => cases h
  | case5 start c rest _ hc ih =>
    obtain ⟨more, hm, h⟩ := bind_eq_ok.mp h
    obtain rfl := pure_eq_ok.mp h
    rw [decodeBody_plain hc, ih hm]
    rfl

theorem token?_elsewhere {f : Front} (h : f.token? p = .ok (some t)) (q : Position) :
    f.token? q = .ok (some { t with position := q }) := by
  obtain ⟨form, lexeme, rest⟩ := f
  cases form with
  | blank | comment => cases h
  | word | float | int | punct =>
    cases h
    rfl
  | quoted quote =>
    cases quote with
    | double =>
      obtain ⟨content, hd, h⟩ := bind_eq_ok.mp h
      cases h
      simp only [Front.token?, decodeBody_elsewhere hd]
      rfl
    | single =>
      obtain ⟨content, hd, h⟩ := bind_eq_ok.mp h
      split at h
      · next hl =>
        cases h
        simp only [Front.token?, decodeBody_elsewhere hd, ok_bind, if_pos hl]
        rfl
      · cases h
  | openQuote quote =>
    cases quote with
    | double => cases h
    | single => cases h

theorem Scans.down (h : Scans p text ts q rest) (count : Nat) :
    Scans (p.down count) text (ts.map (Token.moved (Position.down count))) (q.down count) rest := by
  induction h with
  | done => exact .done
  | blank hc _ ih =>
    rw [← Position.step_down] at ih
    exact .blank hc ih
  | comment hf hk _ ih =>
    rw [← Position.after_down] at ih
    exact .comment hf hk ih
  | token hf ht _ ih =>
    rw [← Position.after_down] at ih
    obtain ⟨rfl, -⟩ := writtenAs_of_token? (front?_eq_some hf).2 ht
    exact .token hf (token?_elsewhere ht _) ih

-- ---------------------------------------------------------------------------
-- Two sources
-- ---------------------------------------------------------------------------

/-- The tokens of two sources with a newline between them: those of the first,
and those of the second below it. -/
theorem tokenize_joined (h : tokenize source = .ok ts) (h' : tokenize other = .ok us) :
    ∃ front back p q, ts = front ++ [.endAt p] ∧ us = back ++ [.endAt q] ∧
      (∀ t ∈ front ++ back, t.kind ≠ .eof) ∧ tokenize (source ++ "\n" ++ other) =
        .ok (front ++ back.map (·.moved (.below source)) ++ [.endAt (q.below source)]) := by
  obtain ⟨front, p, rfl, hs⟩ := scans_of_tokenize h
  obtain ⟨back, q, rfl, hs'⟩ := scans_of_tokenize h'
  have hfront := (hs.cut [] rfl).ne_eof
  have hback := (hs'.cut [] rfl).ne_eof
  refine ⟨front, back, p, q, rfl, rfl, List.forall_mem_append.mpr ⟨hfront, hback⟩,
    tokenize_of_scans ?_⟩
  obtain ⟨passed, htext, rfl⟩ := hs.exists_passed
  rw [List.append_nil] at htext
  have hbelow := hs'.down (1 + source.toList.count '\n')
  rw [String.toList_append, String.toList_append, List.append_assoc]
  -- The newline between the sources is a blank, and opens the row of the second.
  refine (hs.extend other.toList).trans (.blank rfl ?_)
  rw [← htext, ← Position.start_below]
  exact hbelow

end LetLang
