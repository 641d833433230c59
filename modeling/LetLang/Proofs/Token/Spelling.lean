import LetLang.Proofs.Token.Readings

/-!
# How tokens are written

Which values a token of a kind can have, and which lexemes are written for a
value, with no mention of how a scanner finds them. Most lexemes are the value
itself. A literal in quotes holds its content: a character of it stands for
itself or is written as an escape. No lexeme goes on over the end of a line.

The token that the scanner makes of a lexeme has a value of its kind, and the
lexeme is written for it.
-/

namespace LetLang

/-- Whether a body between quotes stands for a content. -/
inductive Quote.Stands (quote : Quote) : List Char → List Char → Prop where
  | nil : Quote.Stands quote [] []
  | plain : c ≠ quote.mark → c ≠ '\\' → c ≠ '\n' → Quote.Stands quote body content →
      Quote.Stands quote (c :: body) (c :: content)
  | escape : escaped? letter = some c → Quote.Stands quote body content →
      Quote.Stands quote ('\\' :: letter :: body) (c :: content)

def Quote.Encloses (quote : Quote) (lexeme content : List Char) : Prop :=
  ∃ body, lexeme = quote.mark :: (body ++ [quote.mark]) ∧ quote.Stands body content

def IsWord (value : List Char) : Prop :=
  ∃ c rest, value = c :: rest ∧ isWordStart c = true ∧ ∀ x ∈ rest, isWordChar x = true

/-- Whether a token of a kind can have a value. Nothing is written for the end. -/
def Kind.Allows (kind : Kind) (value : List Char) : Prop :=
  match kind with
  | .eof => False
  | .identifier => IsWord value ∧ ∀ reserved, (String.ofList value, reserved) ∉ reservedWords
  | .keyword word => value = word.text.toList
  | .typeName name => value = name.text.toList
  | .punct mark => value = mark.chars
  | .literal .int => value ≠ [] ∧ ∀ c ∈ value, isDigit c = true
  | .literal .float => ∃ whole fraction, value = whole ++ '.' :: fraction ∧
      whole ++ fraction ≠ [] ∧ ∀ c ∈ whole ++ fraction, isDigit c = true
  | .literal .char => value.length = 1
  | .literal .str => True

def Kind.Writes (kind : Kind) (lexeme value : List Char) : Prop :=
  match kind with
  | .literal .char => Quote.single.Encloses lexeme value
  | .literal .str => Quote.double.Encloses lexeme value
  | _ => lexeme = value

/-- Whether a lexeme is written for a token. -/
structure Token.WrittenAs (t : Token) (lexeme : List Char) : Prop where
  allowed : t.kind.Allows t.value.toList
  written : t.kind.Writes lexeme t.value.toList
  one_line : '\n' ∉ lexeme

theorem Token.WrittenAs.ne_eof {t : Token} (h : t.WrittenAs lexeme) : t.kind ≠ .eof := by
  intro hk
  have ha := h.allowed
  rw [hk] at ha
  exact ha

-- ---------------------------------------------------------------------------
-- Literals in quotes
-- ---------------------------------------------------------------------------

theorem decodeBody_escape (h : escaped? letter = some c) :
    decodeBody start ('\\' :: letter :: body) =
      (do return c :: (← decodeBody (start.right 2) body)) := by
  simp only [decodeBody, h]

theorem decodeBody_plain (h : c ≠ '\\') :
    decodeBody start (c :: body) = (do return c :: (← decodeBody (start.right 1) body)) := by
  rw [decodeBody.eq_3 _ _ _ fun _ _ he => absurd he h, if_neg h]

theorem escaped?_of_decodeBody (h : decodeBody start ('\\' :: letter :: body) = .ok content) :
    ∃ c, escaped? letter = some c := by
  cases hl : escaped? letter with
  | none =>
    simp only [decodeBody, hl] at h
    cases h
  | some c => exact ⟨c, rfl⟩

theorem stands_of_decodeBody {quote : Quote} (hs : splitBody? quote.mark text = some (body, rest))
    (hd : decodeBody start body = .ok content) : quote.Stands body content := by
  fun_induction splitBody? quote.mark text generalizing body start content with
  | case1 => cases hs
  | case2 => cases hs
  | case3 letter tail hc ih =>
    obtain ⟨⟨b, r⟩, hb, he⟩ := Option.map_eq_some_iff.mp hs
    cases he
    obtain ⟨c, hl⟩ := escaped?_of_decodeBody hd
    rw [decodeBody_escape hl] at hd
    obtain ⟨more, hm, hd⟩ := bind_eq_ok.mp hd
    obtain rfl := pure_eq_ok.mp hd
    exact .escape hl (ih hb hm)
  | case4 tail =>
    cases hs
    obtain rfl := Except.ok.inj hd
    exact .nil
  | case5 => cases hs
  | case6 c tail _ hm hc ih =>
    obtain ⟨⟨b, r⟩, hb, he⟩ := Option.map_eq_some_iff.mp hs
    cases he
    simp only [Bool.or_eq_true, decide_eq_true_eq, not_or] at hc
    obtain ⟨hesc, hline⟩ := hc
    rw [decodeBody_plain hesc] at hd
    obtain ⟨more, hmore, hd⟩ := bind_eq_ok.mp hd
    obtain rfl := pure_eq_ok.mp hd
    exact .plain hm hesc hline (ih hb hmore)

theorem Quote.Stands.one_line {quote : Quote} (h : quote.Stands body content) : '\n' ∉ body := by
  induction h with
  | nil => exact List.not_mem_nil
  | plain _ _ hline _ ih => exact List.not_mem_cons_of_ne_of_not_mem (Ne.symm hline) ih
  | escape hl _ ih =>
    refine List.not_mem_cons_of_ne_of_not_mem (by decide)
      (List.not_mem_cons_of_ne_of_not_mem ?_ ih)
    rintro rfl
    cases hl

theorem Quote.Encloses.one_line {quote : Quote} (h : quote.Encloses lexeme content) :
    '\n' ∉ lexeme := by
  obtain ⟨body, rfl, hs⟩ := h
  cases quote <;> simpa [Quote.mark] using hs.one_line

theorem split?_quoted {quote : Quote} (h : (Form.quoted quote).split? text = some (lexeme, rest)) :
    ∃ body tail, lexeme = quote.mark :: (body ++ [quote.mark]) ∧
      splitBody? quote.mark tail = some (body, rest) := by
  simp only [Form.split?] at h
  split at h
  · next c tail =>
    split at h
    · next hc =>
      obtain ⟨⟨body, r⟩, hb, he⟩ := Option.map_eq_some_iff.mp h
      cases he
      exact ⟨body, tail, by rw [hc, List.cons_append], hb⟩
    · cases h
  · cases h

theorem bodyOf_enclosed (mark : Char) (body : List Char) :
    bodyOf (mark :: (body ++ [mark])) = body := by
  simp [bodyOf]

theorem encloses_of_decodeBody {quote : Quote}
    (hs : (Form.quoted quote).split? text = some (lexeme, rest))
    (hd : decodeBody start (bodyOf lexeme) = .ok content) : quote.Encloses lexeme content := by
  obtain ⟨body, tail, rfl, hb⟩ := split?_quoted hs
  rw [bodyOf_enclosed] at hd
  exact ⟨body, rfl, stands_of_decodeBody hb hd⟩

-- ---------------------------------------------------------------------------
-- Words and numerals
-- ---------------------------------------------------------------------------

theorem inClass_of_mem {inClass : Char → Bool} {text : List Char}
    (h : c ∈ text.takeWhile inClass) : inClass c = true :=
  List.all_eq_true.mp List.all_takeWhile c h

theorem isWord_of_split (h : Form.word.split? text = some (lexeme, rest)) : IsWord lexeme := by
  simp only [Form.split?] at h
  split at h
  · next c tail =>
    split at h
    · next hc =>
      cases h
      refine ⟨c, tail.takeWhile isWordChar, ?_, hc, fun x hx => inClass_of_mem hx⟩
      simp [isWordChar, hc]
    · cases h
  · cases h

theorem reservedWords_allows (h : (word, kind) ∈ Kind.reservedWords) :
    kind.Allows word.toList ∧ kind.Writes word.toList word.toList := by
  rcases List.mem_append.mp h with h | h
  · obtain ⟨keyword, -, he⟩ := List.mem_map.mp h
    cases he
    exact ⟨rfl, rfl⟩
  · obtain ⟨name, -, he⟩ := List.mem_map.mp h
    cases he
    exact ⟨rfl, rfl⟩

theorem ofWord_allows (h : IsWord value) :
    (Kind.ofWord (String.ofList value)).Allows value ∧
      (Kind.ofWord (String.ofList value)).Writes value value := by
  unfold Kind.ofWord
  cases hr : Kind.reserved? (String.ofList value) with
  | none =>
    refine ⟨⟨h, fun reserved hm => ?_⟩, rfl⟩
    exact absurd (List.lookup_eq_none_iff.mp hr _ hm) (by simp)
  | some kind =>
    obtain ⟨front, back, hl, -⟩ := List.lookup_eq_some_iff.mp hr
    have hm : (String.ofList value, kind) ∈ Kind.reservedWords :=
      hl ▸ List.mem_append_right front List.mem_cons_self
    simpa using reservedWords_allows hm

theorem isRun_of_split {inClass : Char → Bool}
    (h : Form.splitRun? inClass text = some (lexeme, rest)) :
    lexeme ≠ [] ∧ ∀ c ∈ lexeme, inClass c = true := by
  refine ⟨(Form.splitRun?_append h).2, ?_⟩
  unfold Form.splitRun? at h
  split at h
  · split at h
    · cases h
      exact fun c hc => inClass_of_mem hc
    · cases h
  · cases h

theorem isFloat_of_split (h : Form.float.split? text = some (lexeme, rest)) :
    ∃ whole fraction, lexeme = whole ++ '.' :: fraction ∧ whole ++ fraction ≠ [] ∧
      ∀ c ∈ whole ++ fraction, isDigit c = true := by
  simp only [Form.split?, Form.splitFloat?] at h
  split at h
  · split at h
    · cases h
    · next hne =>
      cases h
      refine ⟨_, _, rfl, ?_, ?_⟩
      · simpa only [Bool.and_eq_true, List.isEmpty_iff, ← List.append_eq_nil_iff] using hne
      · intro c hc
        rcases List.mem_append.mp hc with hc | hc
        · exact inClass_of_mem hc
        · exact inClass_of_mem hc
  · cases h

theorem split?_comment (h : Form.comment.split? text = some (lexeme, rest)) :
    ∃ body, lexeme = '/' :: '/' :: body ∧ '\n' ∉ body ∧
      (rest = [] ∨ ∃ more, rest = '\n' :: more) := by
  simp only [Form.split?] at h
  split at h
  · next tail =>
    cases h
    refine ⟨tail.takeWhile (· ≠ '\n'), rfl, fun hm => ?_, ?_⟩
    · simpa using inClass_of_mem hm
    · have hstop := List.head?_dropWhile_not (· ≠ '\n') tail
      cases hd : tail.dropWhile (· ≠ '\n') with
      | nil => exact .inl hd
      | cons c more =>
        rw [hd] at hstop
        obtain rfl : c = '\n' := by simpa using hstop
        exact .inr ⟨more, hd⟩
  · cases h

-- ---------------------------------------------------------------------------
-- Tokens
-- ---------------------------------------------------------------------------

theorem not_mem_of_class {inClass : Char → Bool} {text : List Char} (hc : inClass c = false)
    (h : ∀ x ∈ text, inClass x = true) : c ∉ text :=
  fun hm => Bool.false_ne_true (hc.symm.trans (h c hm))

theorem Kind.Writes.one_line (hw : Kind.Writes kind lexeme value) (ha : kind.Allows value) :
    '\n' ∉ lexeme := by
  cases kind with
  | eof => exact ha.elim
  | identifier =>
    obtain rfl : lexeme = value := hw
    obtain ⟨⟨c, rest, rfl, hc, hr⟩, -⟩ := ha
    refine List.not_mem_cons_of_ne_of_not_mem ?_ (not_mem_of_class rfl hr)
    rintro rfl
    cases hc
  | literal form =>
    cases form with
    | int =>
      obtain rfl : lexeme = value := hw
      exact not_mem_of_class rfl ha.2
    | float =>
      obtain rfl : lexeme = value := hw
      obtain ⟨whole, fraction, rfl, -, hd⟩ := ha
      simpa using not_mem_of_class rfl hd
    | char => exact Quote.Encloses.one_line hw
    | str => exact Quote.Encloses.one_line hw
  | punct mark =>
    obtain rfl : lexeme = value := hw
    obtain rfl : lexeme = mark.chars := ha
    cases mark <;> decide
  | keyword word =>
    obtain rfl : lexeme = value := hw
    obtain rfl : lexeme = word.text.toList := ha
    cases word <;> decide
  | typeName name =>
    obtain rfl : lexeme = value := hw
    obtain rfl : lexeme = name.text.toList := ha
    cases name <;> decide

theorem Kind.Writes.writtenAs (hw : Kind.Writes kind lexeme value) (ha : kind.Allows value) :
    (Token.mk kind (String.ofList value) position).WrittenAs lexeme := by
  constructor
  · simpa using ha
  · simpa using hw
  · exact hw.one_line ha

/-- The lexeme of a token is written for it, and the token stands where the
lexeme starts. -/
theorem writtenAs_of_token? {f : Front} (hs : f.form.split? text = some (f.lexeme, f.rest))
    (h : f.token? position = .ok (some t)) : t.position = position ∧ t.WrittenAs f.lexeme := by
  obtain ⟨form, lexeme, rest⟩ := f
  cases form with
  | blank | comment => cases h
  | word =>
    cases h
    obtain ⟨ha, hw⟩ := ofWord_allows (isWord_of_split hs)
    exact ⟨rfl, hw.writtenAs ha⟩
  | float =>
    cases h
    exact ⟨rfl, Kind.Writes.writtenAs rfl (isFloat_of_split hs)⟩
  | int =>
    cases h
    exact ⟨rfl, Kind.Writes.writtenAs rfl (isRun_of_split hs)⟩
  | punct mark =>
    cases h
    obtain ⟨rfl, -⟩ := Form.splitFixed?_append hs
    exact ⟨rfl, Kind.Writes.writtenAs rfl rfl⟩
  | quoted quote =>
    cases quote with
    | double =>
      obtain ⟨content, hd, h⟩ := bind_eq_ok.mp h
      cases h
      exact ⟨rfl, Kind.Writes.writtenAs (encloses_of_decodeBody hs hd) trivial⟩
    | single =>
      obtain ⟨content, hd, h⟩ := bind_eq_ok.mp h
      split at h
      · next hl =>
        cases h
        exact ⟨rfl, Kind.Writes.writtenAs (encloses_of_decodeBody hs hd) hl⟩
      · cases h
  | openQuote quote =>
    cases quote with
    | double => cases h
    | single => cases h

end LetLang
