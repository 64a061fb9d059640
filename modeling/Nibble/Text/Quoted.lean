import Nibble.Text.Glyph
import Nibble.Text.Numeral
import Nibble.Text.Printable

set_option autoImplicit false

/-! Quoted texts: a text between double quotes, with escapes for what cannot be printed. -/

namespace Nibble

open Text (ascii)

def Glyph.quoted (glyph : Glyph) : Text :=
  match glyph.bytes with
  | [byte] =>
      if byte = 34 then ascii "\\\""
      else if byte = 92 then ascii "\\\\"
      else if byte = 7 then ascii "\\a"
      else if byte = 8 then ascii "\\b"
      else if byte = 12 then ascii "\\f"
      else if byte = 10 then ascii "\\n"
      else if byte = 13 then ascii "\\r"
      else if byte = 9 then ascii "\\t"
      else if byte = 11 then ascii "\\v"
      else if byte < 32 || byte ≥ 127 then ascii "\\x" ++ Numeral.hexPadded 2 byte.toNat
      else [byte]
  | bytes =>
      if isPrintable glyph.code then bytes
      else if glyph.code < 0x10000 then ascii "\\u" ++ Numeral.hexPadded 4 glyph.code
      else ascii "\\U" ++ Numeral.hexPadded 8 glyph.code

def Text.quoted (text : Text) : Text :=
  34 :: text.glyphs.flatMap Glyph.quoted ++ [34]

end Nibble
