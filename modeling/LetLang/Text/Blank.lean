import LetLang.Text.CharClass

/-!
# Blank characters

The characters with the White_Space property of the Unicode standard. They
separate tokens. The zero width space and the byte order mark are not blank.
-/

namespace LetLang

/-- The White_Space property. -/
def blanks : CharClass :=
  ⟨[⟨0x09, 0x0d⟩, ⟨0x20, 0x20⟩, ⟨0x85, 0x85⟩, ⟨0xa0, 0xa0⟩, ⟨0x1680, 0x1680⟩, ⟨0x2000, 0x200a⟩,
    ⟨0x2028, 0x2029⟩, ⟨0x202f, 0x202f⟩, ⟨0x205f, 0x205f⟩, ⟨0x3000, 0x3000⟩]⟩

def isBlank (c : Char) : Bool :=
  blanks.has c

end LetLang
