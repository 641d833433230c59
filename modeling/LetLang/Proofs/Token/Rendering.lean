import LetLang.Proofs.Token.Boundary
import LetLang.Proofs.Token.Lossless

/-!
# Rendering tokens

Tokens are written with blanks and comments between them, and a scanner reads
them back. What has to hold of a rendered token is that the first form that
covers some of its text covers all of it, and nothing behind the blank.
-/

namespace LetLang

def Quote.escape (quote : Quote) (c : Char) : List Char :=
  if c = '\\' then ['\\', '\\']
  else if c = '\n' then ['\\', 'n']
  else if c = quote.mark then ['\\', quote.mark]
  else [c]

def Quote.enclose (quote : Quote) (content : List Char) : List Char :=
  quote.mark :: (content.flatMap quote.escape ++ [quote.mark])

def Kind.render (kind : Kind) (value : List Char) : List Char :=
  match kind with
  | .literal .char => Quote.single.enclose value
  | .literal .str => Quote.double.enclose value
  | _ => value

/-- Blanks, and comments with the newline that ends them. -/
inductive Filler : List Char → Prop where
  | nil : Filler []
  | blank : isBlank c = true → Filler more → Filler (c :: more)
  | comment : '\n' ∉ body → Filler more → Filler ('/' :: '/' :: body ++ '\n' :: more)

/-- What stands between two tokens: a blank, and then any filler. -/
inductive Separator : List Char → Prop where
  | intro : isBlank c = true → Filler more → Separator (c :: more)

/-- Whether a text is a list of kinds and values written one by one, with a
separator between every two. -/
inductive Rendered : List (Kind × String) → List Char → Prop where
  | nil : Rendered [] []
  | last : Rendered [word] (word.1.render word.2.toList)
  | cons : Separator gap → Rendered (next :: words) text →
      Rendered (word :: next :: words) (word.1.render word.2.toList ++ gap ++ text)

-- ---------------------------------------------------------------------------
-- The front lexeme
-- ---------------------------------------------------------------------------

theorem front?_of_split? (earlier : List Form) (hall : Form.all = earlier ++ form :: later)
    (hn : ∀ g ∈ earlier, g.split? text = none) (hs : form.split? text = some (lexeme, rest)) :
    front? text = some ⟨form, lexeme, rest⟩ := by
  rw [front?, hall, List.findSome?_append, List.findSome?_eq_none_iff.mpr, Option.none_or,
    List.findSome?_cons, hs]
  · rfl
  · intro g hg
    rw [hn g hg]
    rfl

def Form.starts (form : Form) (c : Char) : Bool :=
  match form with
  | .blank => isBlank c
  | .comment => c = '/'
  | .word => isWordStart c
  | .float => isDigit c || c = '.'
  | .int => isDigit c
  | .quoted quote | .openQuote quote => c = quote.mark
  | .punct mark => mark.chars.head? = some c

theorem Form.split?_of_starts {form : Form} (h : form.starts c = false) (text : List Char) :
    form.split? (c :: text) = none := by
  cases form with
  | blank | word | int =>
    simp only [starts] at h
    simp [split?, splitRun?, h]
  | comment =>
    have hc : c ≠ '/' := by simpa [starts] using h
    cases text with
    | nil => simp [split?]
    | cons x text => simp [split?_comment_cons, hc]
  | float =>
    have hc : isDigit c = false ∧ c ≠ '.' := by simpa [starts] using h
    simp [split?, splitFloat?, splitRun, hc.1, hc.2]
  | quoted quote =>
    have hc : c ≠ quote.mark := by simpa [starts] using h
    simp [split?, hc]
  | openQuote quote =>
    have hc : c ≠ quote.mark := by simpa [starts] using h
    simp [split?, splitFixed?, List.isPrefixOf, hc.symm]
  | punct mark =>
    cases mark <;> simp_all [split?, splitFixed?, List.isPrefixOf, starts, Punct.chars]

-- ---------------------------------------------------------------------------
-- The front lexeme of each kind
-- ---------------------------------------------------------------------------

theorem splitRun_all {inClass : Char → Bool} {run : List Char}
    (h : ∀ c ∈ run, inClass c = true) : Form.splitRun inClass run = (run, []) := by
  have ht : (run ++ []).takeWhile inClass = run ++ [] := List.takeWhile_append_of_pos h
  have hd : (run ++ []).dropWhile inClass = [] := List.dropWhile_append_of_pos h
  rw [List.append_nil] at ht hd
  rw [Form.splitRun, ht, hd]

theorem front?_word (hw : IsWord value) (hr : ∀ c ∈ rest.head?, isWordChar c = false) :
    front? (value ++ rest) = some ⟨.word, value, rest⟩ := by
  obtain ⟨c, tail, rfl, hc, ht⟩ := hw
  refine front?_of_split? [.blank, .comment] rfl ?_ ?_
  · have hslash : c ≠ '/' := by
      rintro rfl
      cases hc
    have hn : ∀ g ∈ [Form.blank, .comment], g.starts c = false := by
      simp [Form.starts, (isWordStart_ink hc).not_blank, hslash]
    exact fun g hg => Form.split?_of_starts (hn g hg) _
  · have hrun : ∀ x ∈ c :: tail, isWordChar x = true :=
      List.forall_mem_cons.mpr ⟨by simp [isWordChar, hc], ht⟩
    have hsplit := Form.splitRun_behind hr (c :: tail)
    rw [splitRun_all hrun] at hsplit
    simpa [Form.split?, hc] using hsplit

theorem split?_digit (hc : isDigit c = true) (text : List Char) :
    ∀ g ∈ [Form.blank, .comment, .word], g.split? (c :: text) = none := by
  have hd := isDigit_bounds hc
  have hslash : c ≠ '/' := by
    rintro rfl
    cases hc
  have hword : isWordStart c = false := Bool.eq_false_iff.mpr fun h => by
    have := isWordStart_bounds h
    omega
  have hn : ∀ g ∈ [Form.blank, .comment, .word], g.starts c = false := by
    simp [Form.starts, (isDigit_ink hc).not_blank, hslash, hword]
  exact fun g hg => Form.split?_of_starts (hn g hg) text

theorem front?_int (hne : value ≠ []) (hd : ∀ c ∈ value, isDigit c = true) (hr : Clear rest) :
    front? (value ++ rest) = some ⟨.int, value, rest⟩ := by
  obtain ⟨c, tail, rfl⟩ := List.exists_cons_of_ne_nil hne
  have hc := hd c List.mem_cons_self
  refine front?_of_split? ([.blank, .comment, .word] ++ [.float]) rfl ?_ ?_
  · have hfloat : Form.float.split? (c :: tail ++ rest) = none := by
      rw [Form.split?_behind (show Form.Solid .float from trivial) hr]
      simp [Form.split?, Form.splitFloat?, splitRun_all hd]
    exact List.forall_mem_append.mpr ⟨split?_digit hc _, List.forall_mem_singleton.mpr hfloat⟩
  · rw [Form.split?_behind (show Form.Solid .int from trivial) hr]
    simp [Form.split?, Form.splitRun?, hc, splitRun_all hd, Form.behind]

theorem front?_float (hne : whole ++ fraction ≠ [])
    (hd : ∀ c ∈ whole ++ fraction, isDigit c = true) (hr : Clear rest) :
    front? (whole ++ '.' :: fraction ++ rest) = some ⟨.float, whole ++ '.' :: fraction, rest⟩ := by
  obtain ⟨hw, hf⟩ := List.forall_mem_append.mp hd
  refine front?_of_split? [.blank, .comment, .word] rfl ?_ ?_
  · cases whole with
    | nil => exact fun g hg => Form.split?_of_starts (by revert g; decide) _
    | cons c whole => exact split?_digit (hw c List.mem_cons_self) _
  · have hpoint : ∀ c ∈ ('.' :: fraction).head?, isDigit c = false := by
      rintro _ ⟨⟩
      rfl
    have hne : ¬(whole.isEmpty && fraction.isEmpty) = true := by
      simpa only [Bool.and_eq_true, List.isEmpty_iff, ← List.append_eq_nil_iff] using hne
    rw [Form.split?_behind (show Form.Solid .float from trivial) hr]
    simp only [Form.split?, Form.splitFloat?, Form.splitRun_behind hpoint, splitRun_all hw,
      List.nil_append, splitRun_all hf, if_neg hne]
    rfl

def beforePunct : List Form :=
  [.blank, .comment, .word, .float, .int, .quoted .double, .openQuote .double, .quoted .single,
    .openQuote .single]

theorem split?_punct (mark : Punct) (hr : Clear rest) :
    ∀ g ∈ beforePunct, g.split? (mark.chars ++ rest) = none := by
  cases mark with
  | slash =>
    -- a comment starts with a slash too, but not in front of a blank
    have hcomment : Form.comment.split? ('/' :: rest) = none := by
      cases rest with
      | nil => simp [Form.split?]
      | cons c rest =>
        have hc : c ≠ '/' := hr.ne (by decide)
        simp [Form.split?_comment_cons, hc]
    intro g hg
    by_cases hg' : g = .comment
    · rw [hg']
      exact hcomment
    · exact Form.split?_of_starts (by revert g; decide) _
  | _ => exact fun g hg => Form.split?_of_starts (by revert g; decide) _

theorem front?_punct (mark : Punct) (hr : Clear rest) :
    front? (mark.chars ++ rest) = some ⟨.punct mark, mark.chars, rest⟩ := by
  have hfirst : Punct.all.find? (fun m => m.chars.isPrefixOf mark.chars) = some mark := by
    cases mark <;> rfl
  obtain ⟨hself, before, after, hall, hbefore⟩ := List.find?_eq_some_iff_append.mp hfirst
  have hsplit (m : Punct) : (Form.punct m).split? (mark.chars ++ rest) =
      (Form.splitFixed? m.chars mark.chars).map (Form.behind rest) :=
    Form.split?_behind (show Form.Solid (.punct m) from trivial) hr mark.chars
  have hforms : Form.all = beforePunct ++ before.map .punct ++ .punct mark :: after.map .punct := by
    rw [Form.all, hall, List.map_append, List.append_assoc]
    rfl
  refine front?_of_split? _ hforms ?_ ?_
  · refine List.forall_mem_append.mpr ⟨split?_punct mark hr, List.forall_mem_map.mpr fun m hm => ?_⟩
    have hm : m.chars.isPrefixOf mark.chars = false := by
      simpa using hbefore m hm
    rw [hsplit, Form.splitFixed?, if_neg (Bool.eq_false_iff.mp hm)]
    rfl
  · rw [hsplit, Form.splitFixed?, if_pos hself]
    simp [Form.behind]

theorem Quote.stands_escape (quote : Quote) (content : List Char) :
    quote.Stands (content.flatMap quote.escape) content := by
  induction content with
  | nil => exact .nil
  | cons c content ih =>
    rw [List.flatMap_cons, Quote.escape]
    split
    · next hc => exact .escape (by rw [hc]; rfl) ih
    · next hesc =>
      split
      · next hc => exact .escape (by rw [hc]; rfl) ih
      · next hline =>
        split
        · next hm => exact .escape (by rw [hm]; cases quote <;> rfl) ih
        · next hm => exact .plain hm hesc hline ih

theorem Quote.Stands.splitBody? {quote : Quote} (h : quote.Stands body content)
    (rest : List Char) :
    splitBody? quote.mark (body ++ quote.mark :: rest) = some (body, rest) := by
  induction h with
  | nil =>
    rw [List.nil_append, Form.splitBody?_plain (by cases quote <;> decide), if_pos rfl]
  | plain hm hesc hline _ ih =>
    rw [List.cons_append, Form.splitBody?_plain hesc, if_neg hm, if_neg (by simp [hesc, hline]), ih]
    rfl
  | @escape letter c body content hl _ ih =>
    have hline : letter ≠ '\n' := by
      rintro rfl
      cases hl
    rw [List.cons_append, List.cons_append, LetLang.splitBody?, if_neg hline, ih]
    rfl

theorem Quote.Stands.decodeBody {quote : Quote} (h : quote.Stands body content)
    (start : Position) : decodeBody start body = .ok content := by
  induction h generalizing start with
  | nil => rfl
  | plain _ hesc _ _ ih =>
    rw [decodeBody_plain hesc, ih]
    rfl
  | escape hl _ ih =>
    rw [decodeBody_escape hl, ih]
    rfl

theorem front?_quoted (quote : Quote) (content rest : List Char) :
    front? (quote.enclose content ++ rest) =
      some ⟨.quoted quote, quote.enclose content, rest⟩ := by
  have hsplit : (Form.quoted quote).split? (quote.enclose content ++ rest) =
      some (quote.enclose content, rest) := by
    simp [Quote.enclose, Form.split?, (quote.stands_escape content).splitBody? rest]
  cases quote with
  | double =>
    refine front?_of_split? [.blank, .comment, .word, .float, .int] rfl ?_ hsplit
    exact fun g hg => Form.split?_of_starts (by revert g; decide) _
  | single =>
    refine front?_of_split?
      [.blank, .comment, .word, .float, .int, .quoted .double, .openQuote .double] rfl ?_ hsplit
    exact fun g hg => Form.split?_of_starts (by revert g; decide) _

theorem Keyword.isWord (word : Keyword) : IsWord word.text.toList := by
  cases word <;> exact ⟨_, _, rfl, rfl, List.all_eq_true.mp rfl⟩

theorem Prim.isWord (name : Prim) : IsWord name.text.toList := by
  cases name <;> exact ⟨_, _, rfl, rfl, List.all_eq_true.mp rfl⟩

theorem reserved?_free (h : ∀ kind, (word, kind) ∉ Kind.reservedWords) :
    Kind.reserved? word = none := by
  refine List.lookup_eq_none_iff.mpr fun entry he => ?_
  have hne : word ≠ entry.1 := by
    rintro rfl
    exact h entry.2 he
  simpa using hne

/-- The front lexeme of a rendered token is its rendering, and makes the token. -/
theorem front?_render (ha : Kind.Allows kind value) (hr : Clear rest) :
    ∃ form, front? (kind.render value ++ rest) = some ⟨form, kind.render value, rest⟩ ∧
      ∀ p, (Front.mk form (kind.render value) rest).token? p =
        .ok (some ⟨kind, String.ofList value, p⟩) := by
  have hword : ∀ c ∈ rest.head?, isWordChar c = false := hr.stops fun _ => isWordChar_ink
  cases kind with
  | eof => exact ha.elim
  | identifier =>
    obtain ⟨hw, hfree⟩ := ha
    refine ⟨.word, front?_word hw hword, fun p => ?_⟩
    simp only [Front.token?, Kind.render, Kind.ofWord, reserved?_free hfree, Option.getD_none]
  | keyword word =>
    obtain rfl : value = word.text.toList := ha
    refine ⟨.word, front?_word word.isWord hword, fun p => ?_⟩
    cases word <;> rfl
  | typeName name =>
    obtain rfl : value = name.text.toList := ha
    refine ⟨.word, front?_word name.isWord hword, fun p => ?_⟩
    cases name <;> rfl
  | punct mark =>
    obtain rfl : value = mark.chars := ha
    exact ⟨.punct mark, front?_punct mark hr, fun p => rfl⟩
  | literal form =>
    cases form with
    | int => exact ⟨.int, front?_int ha.1 ha.2 hr, fun p => rfl⟩
    | float =>
      obtain ⟨whole, fraction, rfl, hne, hd⟩ := ha
      exact ⟨.float, front?_float hne hd hr, fun p => rfl⟩
    | str =>
      refine ⟨.quoted .double, front?_quoted .double value rest, fun p => ?_⟩
      simp only [Front.token?, Kind.render, Quote.enclose, bodyOf_enclosed,
        (Quote.double.stands_escape value).decodeBody]
      rfl
    | char =>
      have hl : value.length = 1 := ha
      refine ⟨.quoted .single, front?_quoted .single value rest, fun p => ?_⟩
      simp only [Front.token?, Kind.render, Quote.enclose, bodyOf_enclosed,
        (Quote.single.stands_escape value).decodeBody, ok_bind, if_pos hl]
      rfl

-- ---------------------------------------------------------------------------
-- The whole text
-- ---------------------------------------------------------------------------

theorem front?_comment (hb : '\n' ∉ body) :
    front? ('/' :: '/' :: body ++ '\n' :: text) =
      some ⟨.comment, '/' :: '/' :: body, '\n' :: text⟩ := by
  have hrun : ∀ c ∈ '/' :: '/' :: body, decide (c ≠ '\n') = true := by
    intro c hc
    rw [decide_eq_true_iff]
    rintro rfl
    simp [hb] at hc
  have hline : ∀ c ∈ ('\n' :: text).head?, decide (c ≠ '\n') = false := by simp
  have hsplit := Form.splitRun_behind hline ('/' :: '/' :: body)
  rw [splitRun_all hrun] at hsplit
  refine front?_of_split? [.blank] rfl ?_ ?_
  · exact List.forall_mem_singleton.mpr (Form.split?_of_starts (by decide) _)
  · exact (Form.split?_comment_cons.trans (if_pos ⟨rfl, rfl⟩)).trans (congrArg some hsplit)

theorem Filler.scans (h : Filler gap) (hs : Scans (p.after gap) text ts q rest) :
    Scans p (gap ++ text) ts q rest := by
  induction h generalizing p with
  | nil => exact hs
  | blank hc _ ih => exact .blank hc (ih hs)
  | @comment body more hb _ ih =>
    rw [List.append_assoc]
    refine .comment (front?_comment hb) rfl (.blank rfl (ih ?_))
    rwa [Position.after_append] at hs

theorem Separator.scans (h : Separator gap) (hs : Scans (p.after gap) text ts q rest) :
    Scans p (gap ++ text) ts q rest := by
  obtain ⟨hc, hf⟩ := h
  exact .blank hc (hf.scans hs)

theorem Separator.clear (h : Separator gap) (text : List Char) : Clear (gap ++ text) := by
  obtain ⟨hc, -⟩ := h
  exact .cons hc

theorem Rendered.scans (h : Rendered words text) (hw : ∀ w ∈ words, w.1.Allows w.2.toList)
    (p : Position) : ∃ ts, Scans p text ts (p.after text) [] ∧
      ts.map (fun t => (t.kind, t.value)) = words := by
  induction h generalizing p with
  | nil => exact ⟨[], .done, rfl⟩
  | @last word =>
    obtain ⟨form, hf, ht⟩ := front?_render (hw word List.mem_cons_self) .nil
    rw [List.append_nil] at hf
    exact ⟨_, .token hf (ht p) .done, by simp⟩
  | @cons gap next words text word hg _ ih =>
    obtain ⟨hword, hwords⟩ := List.forall_mem_cons.mp hw
    obtain ⟨form, hf, ht⟩ := front?_render hword (hg.clear text)
    obtain ⟨ts, hs, hmap⟩ := ih hwords ((p.after (word.1.render word.2.toList)).after gap)
    refine ⟨⟨word.1, String.ofList word.2.toList, p⟩ :: ts, ?_, ?_⟩
    · rw [List.append_assoc, Position.after_append, Position.after_append]
      exact .token hf (ht p) (hg.scans hs)
    · simp [hmap]

/-- Tokens that are written with separators between them are read back. -/
theorem tokenize_rendered (hw : ∀ word ∈ words, word.1.Allows word.2.toList)
    (h : Rendered words source.toList) :
    ∃ ts, tokenize source = .ok (ts ++ [.endAt (.ofText source.toList)]) ∧
      ts.map (fun t => (t.kind, t.value)) = words := by
  obtain ⟨ts, hs, hmap⟩ := h.scans hw .start
  refine ⟨ts, ?_, hmap⟩
  rw [tokenize_of_scans hs, Position.ofText_eq_after]

theorem apostrophe_rendered : ∃ ts,
    tokenize "c //\n'\\''" = .ok (ts ++ [.endAt (.ofText "c //\n'\\''".toList)]) ∧
      ts.map (fun t => (t.kind, t.value)) = [(.identifier, "c"), (.literal .char, "'")] := by
  have hgap : Separator [' ', '/', '/', '\n'] := ⟨rfl, .comment List.not_mem_nil .nil⟩
  refine tokenize_rendered ?_ (.cons hgap .last)
  refine List.forall_mem_cons.mpr ⟨⟨?_, ?_⟩, List.forall_mem_singleton.mpr rfl⟩
  · exact ⟨'c', [], rfl, rfl, nofun⟩
  · intro kind hk
    have hfree : String.ofList "c".toList ∉ Kind.reservedWords.map Prod.fst := by decide
    exact hfree (List.mem_map_of_mem hk)

end LetLang
