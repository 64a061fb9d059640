import Nibble.Text.Basic

set_option autoImplicit false

/-! The characters of a text. A valid UTF-8 sequence is one character; a byte that begins
no valid sequence is a character of its own, so that no byte is lost. -/

namespace Nibble

/-- A character: its code point and the bytes that spell it. -/
structure Glyph where
  code : Nat
  bytes : Text
deriving DecidableEq, Repr

namespace Glyph

/-- The code point that stands for a byte outside every valid sequence. -/
def replacementCode : Nat := 0xFFFD

/-- The least and the greatest second byte of a sequence with this first byte. -/
def secondRange (lead : UInt8) : UInt8 × UInt8 :=
  if lead = 0xE0 then (0xA0, 0xBF)
  else if lead = 0xED then (0x80, 0x9F)
  else if lead = 0xF0 then (0x90, 0xBF)
  else if lead = 0xF4 then (0x80, 0x8F)
  else (0x80, 0xBF)

def isSecond (lead byte : UInt8) : Bool :=
  (secondRange lead).1 ≤ byte && byte ≤ (secondRange lead).2

def isTail (byte : UInt8) : Bool :=
  0x80 ≤ byte && byte ≤ 0xBF

/-- Six payload bits of a byte after the first. -/
def payload (byte : UInt8) : Nat :=
  byte.toNat % 64

def stray (lead : UInt8) : Glyph :=
  ⟨replacementCode, [lead]⟩

/-- The character at the head of a text, given the first byte and the rest. -/
def first (lead : UInt8) (rest : Text) : Glyph :=
  if lead < 0x80 then ⟨lead.toNat, [lead]⟩
  else if lead < 0xC2 then stray lead
  else if lead < 0xE0 then
    match rest with
    | second :: _ =>
        if isSecond lead second then ⟨lead.toNat % 32 * 64 + payload second, [lead, second]⟩
        else stray lead
    | [] => stray lead
  else if lead < 0xF0 then
    match rest with
    | second :: third :: _ =>
        if isSecond lead second && isTail third then
          ⟨(lead.toNat % 16 * 64 + payload second) * 64 + payload third, [lead, second, third]⟩
        else stray lead
    | _ => stray lead
  else if lead < 0xF5 then
    match rest with
    | second :: third :: fourth :: _ =>
        if isSecond lead second && isTail third && isTail fourth then
          ⟨((lead.toNat % 8 * 64 + payload second) * 64 + payload third) * 64 + payload fourth,
            [lead, second, third, fourth]⟩
        else stray lead
    | _ => stray lead
  else stray lead

/-- The UTF-8 spelling of a code point; the replacement character for what is none. -/
def encode (code : Nat) : Text :=
  if code < 0x80 then [UInt8.ofNat code]
  else if code < 0x800 then [UInt8.ofNat (0xC0 + code / 64), UInt8.ofNat (0x80 + code % 64)]
  else if (0xD800 ≤ code && code < 0xE000) || 0x110000 ≤ code then [0xEF, 0xBF, 0xBD]
  else if code < 0x10000 then
    [UInt8.ofNat (0xE0 + code / 4096), UInt8.ofNat (0x80 + code / 64 % 64),
      UInt8.ofNat (0x80 + code % 64)]
  else
    [UInt8.ofNat (0xF0 + code / 262144), UInt8.ofNat (0x80 + code / 4096 % 64),
      UInt8.ofNat (0x80 + code / 64 % 64), UInt8.ofNat (0x80 + code % 64)]

end Glyph

namespace Text

def glyphs : Text → List Glyph
  | [] => []
  | lead :: rest =>
      Glyph.first lead rest :: glyphs (rest.drop ((Glyph.first lead rest).bytes.length - 1))
termination_by text => text.length
decreasing_by simp only [List.length_drop, List.length_cons]; omega

def ofGlyphs (characters : List Glyph) : Text :=
  characters.flatMap Glyph.bytes

def isValid (text : Text) : Bool :=
  text.glyphs.all fun glyph => glyph.bytes.length != 1 || glyph.code < 0x80

end Text

end Nibble
