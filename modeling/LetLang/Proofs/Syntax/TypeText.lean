import LetLang.Proofs.Syntax.RoundTrip
import LetLang.Proofs.Token.Rendering

/-!
# Reading the text of a type

The text of a type is scanned into the tokens that are printed for it, and these
parse back to the type, as long as no tuple in it has just one item. So types
without such tuples have different texts.

The marks in the text of a type end where they end, whatever stands behind them.
Only the name of a type could run on, and behind it stands the end of the text, a
blank or a mark.
-/

namespace LetLang

/-- Whether no word runs on into a text. -/
def Stops (rest : List Char) : Prop := ∀ c ∈ rest.head?, isWordChar c = false

-- ---------------------------------------------------------------------------
-- Marks and words
-- ---------------------------------------------------------------------------

theorem Punct.chars_cons (mark : Punct) : ∃ c more, mark.chars = c :: more := by
  cases mark <;> exact ⟨_, _, rfl⟩

def typeMarks : List Punct := [.openParen, .closeParen, .openBracket, .closeBracket, .comma, .arrow]

theorem typeMarks_first : ∀ mark ∈ typeMarks, ∃ earlier later c more,
    Form.all = earlier ++ .punct mark :: later ∧ mark.chars = c :: more ∧
      ∀ g ∈ earlier, g.starts c = false := by
  have h : ∀ mark ∈ typeMarks,
      Form.all = Form.all.takeWhile (· ≠ .punct mark) ++
        .punct mark :: (Form.all.dropWhile (· ≠ .punct mark)).tail ∧
      ∀ g ∈ Form.all.takeWhile (· ≠ .punct mark), g.starts (mark.chars.headD ' ') = false := by
    decide
  intro mark hm
  obtain ⟨hall, hn⟩ := h mark hm
  obtain ⟨c, more, hc⟩ := mark.chars_cons
  rw [hc] at hn
  exact ⟨_, _, c, more, hall, hc, hn⟩

theorem front?_typeMark (hm : mark ∈ typeMarks) (rest : List Char) :
    front? (mark.chars ++ rest) = some ⟨.punct mark, mark.chars, rest⟩ := by
  obtain ⟨earlier, later, c, more, hall, hc, hn⟩ := typeMarks_first mark hm
  refine front?_of_split? earlier hall ?_ ?_
  · intro g hg
    rw [hc]
    exact Form.split?_of_starts (hn g hg) _
  · simp [Form.split?, Form.splitFixed?]

theorem stops_typeMark (hm : mark ∈ typeMarks) (rest : List Char) : Stops (mark.chars ++ rest) := by
  have h : ∀ mark ∈ typeMarks, isWordChar (mark.chars.headD ' ') = false := by decide
  obtain ⟨c, more, hc⟩ := mark.chars_cons
  have hstop := h mark hm
  rw [hc] at hstop ⊢
  rintro _ ⟨⟩
  exact hstop

-- ---------------------------------------------------------------------------
-- Scanned texts
-- ---------------------------------------------------------------------------

/-- Whether a text is scanned into tokens, wherever it stands and whatever stops
words behind it. -/
def Spells (text : List Char) (printed : List Token) : Prop :=
  ∀ p rest, Stops rest → ∃ ts, Scans p (text ++ rest) ts (p.after text) rest ∧
    ts.map Token.unplaced = printed

namespace Spells

theorem nil : Spells [] [] := fun _ _ _ => ⟨[], .done, rfl⟩

theorem typeName (name : Prim) : Spells name.text.toList [⟨.typeName name, name.text, .start⟩] := by
  intro p rest hr
  have ht : (Front.mk .word name.text.toList rest).token? p =
      .ok (some ⟨.typeName name, name.text, p⟩) := by
    cases name <;> rfl
  exact ⟨_, .token (front?_word name.isWord hr) ht .done, rfl⟩

theorem punct (h : Spells text printed) (mark : Punct) (hm : mark ∈ typeMarks) :
    Spells (mark.chars ++ text) (mark.token :: printed) := by
  intro p rest hr
  obtain ⟨ts, hs, hmap⟩ := h (p.after mark.chars) rest hr
  refine ⟨⟨.punct mark, mark.text, p⟩ :: ts, ?_, ?_⟩
  · rw [List.append_assoc, Position.after_append]
    exact .token (front?_typeMark hm _) rfl hs
  · rw [List.map_cons, hmap]
    rfl

theorem blank (h : Spells text printed) : Spells (' ' :: text) printed := by
  intro p rest hr
  obtain ⟨ts, hs, hmap⟩ := h (p.step ' ') rest hr
  exact ⟨ts, .blank rfl hs, hmap⟩

theorem append (h : Spells text printed) (h' : Spells next more)
    (hn : ∀ rest, Stops (next ++ rest)) : Spells (text ++ next) (printed ++ more) := by
  intro p rest hr
  obtain ⟨ts, hs, hmap⟩ := h p _ (hn rest)
  obtain ⟨us, hs', hmap'⟩ := h' (p.after text) rest hr
  refine ⟨ts ++ us, ?_, by rw [List.map_append, hmap, hmap']⟩
  rw [List.append_assoc, Position.after_append]
  exact hs.trans hs'

theorem append_punct (h : Spells text printed) (mark : Punct) (hm : mark ∈ typeMarks)
    (h' : Spells next more) :
    Spells (text ++ (mark.chars ++ next)) (printed ++ mark.token :: more) :=
  h.append (h'.punct mark hm) fun rest => List.append_assoc .. ▸ stops_typeMark hm (next ++ rest)

theorem append_blank (h : Spells text printed) (h' : Spells next more) :
    Spells (text ++ ' ' :: next) (printed ++ more) := by
  refine h.append h'.blank ?_
  rintro rest _ ⟨⟩
  rfl

theorem enclosed (h : Spells text printed) (left right : Punct) (hl : left ∈ typeMarks)
    (hr : right ∈ typeMarks) :
    Spells (left.chars ++ (text ++ right.chars)) (LetLang.enclosed left right printed) := by
  have h' := h.append_punct right hr .nil
  rw [List.append_nil] at h'
  exact h'.punct left hl

end Spells

theorem Ty.printItems_cons (item : Ty) (hn : items ≠ []) :
    Ty.printItems (item :: items) =
      item.print ++ Punct.comma.token :: Ty.printItems items := by
  obtain ⟨next, more, rfl⟩ := List.exists_cons_of_ne_nil hn
  rfl

mutual
/-- The text of a type is scanned into the tokens that are printed for it. -/
theorem Ty.spelled : (t : Ty) → Spells t.text.toList t.print
  | .prim name => .typeName name
  | .tuple items => by
    have h := (Ty.itemsSpelled items).enclosed .openParen .closeParen (by decide) (by decide)
    simpa [Ty.text, Ty.print, Punct.chars] using h
  | .list item => by
    have h := item.spelled.enclosed .openBracket .closeBracket (by decide) (by decide)
    simpa [Ty.text, Ty.print, Punct.chars] using h
  | .func param ret => by
    have hp : Spells (if param.isFunc then "(" ++ param.text ++ ")" else param.text).toList
        (grouped param.isFunc param.print) := by
      cases param.isFunc with
      | false => exact param.spelled
      | true =>
        have h := param.spelled.enclosed .openParen .closeParen (by decide) (by decide)
        simpa [Punct.chars, grouped] using h
    have h := hp.append_blank (ret.spelled.blank.punct .arrow (by decide))
    simpa [Ty.text, Ty.print, Punct.chars] using h
theorem Ty.itemsSpelled : (items : List Ty) →
    Spells (Ty.textItems items).toList (Ty.printItems items)
  | [] => .nil
  | [item] => by
    simpa [Ty.textItems, Ty.printItems, Ty.printMore] using item.spelled
  | item :: next :: items => by
    have h := item.spelled.append_punct .comma (by decide)
      (Ty.itemsSpelled (next :: items)).blank
    simpa [Ty.textItems, Ty.printItems_cons, Punct.chars] using h
end

-- ---------------------------------------------------------------------------
-- Reading back
-- ---------------------------------------------------------------------------

theorem tokenize_typeText (t : Ty) : ∃ ts q, tokenize t.text = .ok (ts ++ [.endAt q]) ∧
    ts.map Token.unplaced = t.print := by
  obtain ⟨ts, hs, hmap⟩ := t.spelled .start [] nofun
  rw [List.append_nil] at hs
  exact ⟨ts, _, tokenize_of_scans hs, hmap⟩

theorem Cursor.ofTokens_endAt (ts : List Token) (q : Position) :
    Cursor.ofTokens (ts ++ [.endAt q]) = ⟨ts, ⟨Token.endText, q⟩⟩ := by
  simp [Cursor.ofTokens, Token.endAt]

/-- The text of a type has tokens, and the rule of types reads them all and gives
the type. -/
theorem Ty.Plain.text_reads {t : Ty} (h : t.Plain) :
    ∃ tokens a stop, tokenize t.text = .ok tokens ∧
      (Rule.type .whole).run (.ofTokens tokens) = .ok a ⟨[], stop⟩ ∧ a.ty = t := by
  obtain ⟨ts, q, hts, hmap⟩ := tokenize_typeText t
  obtain ⟨a, ha, hty⟩ := t.printed h ts hmap
  let stop : EndMark := ⟨Token.endText, q⟩
  have hr : (Rule.type .whole).Reads ⟨ts ++ [], stop⟩ a ⟨[], stop⟩ :=
    (ha.weaken (BindingPower.whole_le _)).reads nofun
  rw [List.append_nil] at hr
  refine ⟨_, a, stop, hts, ?_, hty⟩
  rw [Cursor.ofTokens_endAt]
  exact hr

def Ty.ofText? (text : String) : Option Ty :=
  match tokenize text with
  | .error _ => none
  | .ok tokens =>
    match (Rule.type .whole).run (.ofTokens tokens) with
    | .error _ _ => none
    | .ok a c => if c.ahead.isEmpty then some a.ty else none

theorem Ty.Plain.ofText?_text {t : Ty} (h : t.Plain) : Ty.ofText? t.text = some t := by
  obtain ⟨tokens, a, stop, hl, hr, rfl⟩ := h.text_reads
  simp [Ty.ofText?, hl, hr]

example : Ty.ofText? "int -> (int -> ()) -> str" =
    some (.func .int (.func (.func .int .unit) .str)) := by decide +kernel

theorem Ty.Plain.text_injective {s t : Ty} (hs : s.Plain) (ht : t.Plain) (h : s.text = t.text) :
    s = t := by
  have he := hs.ofText?_text
  rw [h, ht.ofText?_text] at he
  exact (Option.some.inj he).symm

end LetLang
