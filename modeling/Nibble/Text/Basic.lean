set_option autoImplicit false

/-! Texts are byte sequences. A source need not be valid UTF-8, and every byte of it
has to come back unchanged in words, labels and messages. -/

namespace Nibble

/-- Sources, words, names and messages, byte by byte. -/
abbrev Text := List UInt8

namespace Text

def ascii (literal : String) : Text :=
  literal.toList.map fun character => UInt8.ofNat character.toNat

/-- The texts in order, with one space between neighbours. -/
def spaced (texts : List Text) : Text :=
  List.intercalate [32] texts

/-- Every occurrence of a byte gives way to a text. -/
def replaceByte (target : UInt8) (replacement text : Text) : Text :=
  text.flatMap fun byte => if byte = target then replacement else [byte]

theorem replaceByte_append (target : UInt8) (replacement one other : Text) :
    replaceByte target replacement (one ++ other) =
      replaceByte target replacement one ++ replaceByte target replacement other :=
  List.flatMap_append

theorem replaceByte_of_not_mem {target : UInt8} (replacement : Text) {text : Text}
    (absent : target ∉ text) : replaceByte target replacement text = text := by
  unfold replaceByte
  induction text with
  | nil => rfl
  | cons byte rest ih =>
      have other : byte ≠ target := by
        rintro rfl
        exact absent List.mem_cons_self
      rw [List.flatMap_cons, if_neg other, ih fun member => absent (List.mem_cons_of_mem _ member),
        List.singleton_append]

def before (target : UInt8) (text : Text) : Text :=
  text.takeWhile (· != target)

end Text

end Nibble
