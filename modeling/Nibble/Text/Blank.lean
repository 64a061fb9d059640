import Nibble.Text.Glyph

set_option autoImplicit false

/-! White space, and the two ways of reading around it: trimming the ends of a text,
and splitting it into fields. -/

namespace Nibble

/-- The characters of the Unicode property White_Space. -/
def Glyph.isBlank (glyph : Glyph) : Bool :=
  (9 ≤ glyph.code && glyph.code ≤ 13) || glyph.code == 32 || glyph.code == 0x85
    || glyph.code == 0xA0 || glyph.code == 0x1680
    || (0x2000 ≤ glyph.code && glyph.code ≤ 0x200A)
    || glyph.code == 0x2028 || glyph.code == 0x2029 || glyph.code == 0x202F
    || glyph.code == 0x205F || glyph.code == 0x3000

namespace Text

def trim (text : Text) : Text :=
  ofGlyphs (((text.glyphs.dropWhile Glyph.isBlank).reverse.dropWhile Glyph.isBlank).reverse)

theorem length_dropWhile_le {α : Type} (test : α → Bool) (items : List α) :
    (items.dropWhile test).length ≤ items.length := by
  induction items with
  | nil => exact Nat.le_refl _
  | cons head rest ih =>
      rw [List.dropWhile_cons]
      split
      · exact Nat.le_succ_of_le ih
      · exact Nat.le_refl _

/-- The maximal runs of characters that are not white space. -/
def fieldGlyphs (characters : List Glyph) : List (List Glyph) :=
  match found : characters.dropWhile Glyph.isBlank with
  | [] => []
  | head :: rest =>
      have : (rest.dropWhile fun glyph => !glyph.isBlank).length < characters.length := by
        have skipped := length_dropWhile_le Glyph.isBlank characters
        have remaining := length_dropWhile_le (fun glyph : Glyph => !glyph.isBlank) rest
        rw [found, List.length_cons] at skipped
        omega
      (head :: rest.takeWhile fun glyph => !glyph.isBlank) ::
        fieldGlyphs (rest.dropWhile fun glyph => !glyph.isBlank)
termination_by characters.length

def fields (text : Text) : List Text :=
  (fieldGlyphs text.glyphs).map ofGlyphs

end Text

end Nibble
