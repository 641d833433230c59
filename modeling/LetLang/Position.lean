/-!
# Positions in a source text

Rows and columns count from one, and a column counts characters. A position
is a fold over the text before it, so the position of any part of a source
is `Position.start.after` of what precedes that part.
-/

namespace LetLang

structure Position where
  row : Nat
  column : Nat
  deriving DecidableEq, Repr

namespace Position

def start : Position := ⟨1, 1⟩

instance : Inhabited Position := ⟨start⟩

/-- The place after one more character: a newline opens the next row. -/
def step (p : Position) (c : Char) : Position :=
  if c = '\n' then ⟨p.row + 1, 1⟩ else ⟨p.row, p.column + 1⟩

def after (p : Position) (text : List Char) : Position :=
  text.foldl step p

def right (p : Position) (n : Nat) : Position :=
  ⟨p.row, p.column + n⟩

def text (p : Position) : String :=
  toString p.row ++ ":" ++ toString p.column

@[simp] theorem after_nil (p : Position) : p.after [] = p := rfl

@[simp] theorem after_cons (p : Position) (c : Char) (text : List Char) :
    p.after (c :: text) = (p.step c).after text := rfl

theorem after_append (p : Position) (first second : List Char) :
    p.after (first ++ second) = (p.after first).after second :=
  List.foldl_append

/-- A stretch without a newline moves along the row, one column a character. -/
theorem after_of_no_newline (p : Position) (text : List Char) (h : '\n' ∉ text) :
    p.after text = p.right text.length := by
  induction text generalizing p with
  | nil => rfl
  | cons c text ih =>
    have hc : c ≠ '\n' := fun e => h (e ▸ List.mem_cons_self)
    have ht : '\n' ∉ text := fun m => h (List.mem_cons_of_mem _ m)
    rw [after_cons, ih _ ht]
    simp only [step, hc, if_false, right, List.length_cons, mk.injEq, true_and]
    omega

end Position

end LetLang
