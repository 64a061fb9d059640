import Nibble.Text.Blank

set_option autoImplicit false

/-! The lines of a source. -/

namespace Nibble

/-- The lines that can be read from a source, and whether a line that is too long ends it. -/
structure Source where
  lines : List Text
  overlong : Bool
deriving DecidableEq, Repr

namespace Source

/-- A line of this many bytes cannot be read. -/
def lineLimit : Nat := 65536

def withoutReturn (line : Text) : Text :=
  if line.getLast? = some 13 then line.dropLast else line

/-- What is left behind a line feed is shorter. -/
theorem length_more_lt {byte feed : UInt8} {rest more : Text}
    (found : (byte :: rest).dropWhile (· != 10) = feed :: more) :
    more.length < (byte :: rest).length := by
  have bound := Text.length_dropWhile_le (· != (10 : UInt8)) (byte :: rest)
  rw [found, List.length_cons] at bound
  omega

/-- Splits a text behind every line feed; a last line needs none. -/
def ofText (text : Text) : Source :=
  match text with
  | [] => ⟨[], false⟩
  | byte :: rest =>
      let line := (byte :: rest).takeWhile (· != 10)
      if line.length ≥ lineLimit then ⟨[], true⟩
      else
        match found : (byte :: rest).dropWhile (· != 10) with
        | [] => ⟨[withoutReturn line], false⟩
        | _ :: more =>
            have : more.length < (byte :: rest).length := length_more_lt found
            let others := ofText more
            ⟨withoutReturn line :: others.lines, others.overlong⟩
termination_by text.length
decreasing_by assumption

/-- What counts of a line: the part before a comment, without the white space around it. -/
def content (line : Text) : Text :=
  (line.before 59).trim

end Source

end Nibble
