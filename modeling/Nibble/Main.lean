import Nibble.CommandLine
import Nibble.Standard

set_option autoImplicit false

/-! The command line program: reads the file that the arguments name, and prints the answer. -/

namespace Nibble.CommandLine

def fileContents (name : Text) : IO (Except FileFault Text) := do
  match String.fromUTF8? ⟨name.toArray⟩ with
  | none => return .error .missing
  | some path =>
      try
        let contents ← IO.FS.readBinFile path
        return .ok contents.data.toList
      catch fault =>
        match fault with
        | .inappropriateType none _ _ => return .error .isDirectory
        | .inappropriateType (some _) _ _ => return .error .notDirectory
        | .invalidArgument _ _ _ => return .error .nameTooLong
        | _ => return .error .missing

def inputFile (arguments : List Text) : IO (Except FileFault Text) :=
  match options arguments with
  | .error _ => return .error .missing
  | .ok options =>
      fileContents (if options.compile.isEmpty then options.binary else options.compile)

end Nibble.CommandLine

open Nibble Standard in
def main (arguments : List String) : IO UInt32 := do
  let arguments := arguments.map fun argument => argument.toUTF8.data.toList
  let contents ← CommandLine.inputFile arguments
  let response := CommandLine.respond arguments fun _ => contents
  (← IO.getStderr).write ⟨response.errors.toArray⟩
  (← IO.getStdout).write ⟨response.output.toArray⟩
  return UInt32.ofNat response.exit
