import Nibble.Assembler
import Nibble.Directory
import Nibble.Session
import Nibble.Text.Quoted

set_option autoImplicit false

/-! The command line: its flags, and what a run of the program answers. -/

namespace Nibble.CommandLine

open Text (ascii)

structure Response where
  exit : Nat := 0
  output : Text := []
  errors : Text := []
deriving DecidableEq, Repr

structure Options where
  /-- The source to assemble; empty for none. -/
  compile : Text := []
  /-- The image to load; empty for none. -/
  binary : Text := []
  origin : Nat := 0x200
  listing : Bool := false
  verbose : Bool := false
deriving DecidableEq, Repr

def programName : Text := ascii "ria"

def lines (texts : List Text) : Text :=
  texts.flatMap fun text => text ++ ascii "\n"

/-- What is printed for help, and below the report of a fault in the flags. -/
def usage : Text :=
  lines
    [ascii "Usage of " ++ programName ++ ascii ":",
     ascii "  -b string",
     ascii "    \tBinary image to load",
     ascii "  -c string",
     ascii "    \t.asm file to compile",
     ascii "  -l\tPrint a listing, do not execute",
     ascii "  -o uint",
     ascii "    \tLoad address of the binary image (default 512)",
     ascii "  -v\tVerbose mode"]

/-- A failure after the flags. -/
def fatal (message : Text) : Response :=
  { exit := 1, errors := message ++ ascii "\n" }

/-! ### Flags -/

inductive Flag where
  | binary
  | compile
  | listing
  | origin
  | verbose
deriving DecidableEq, Repr

namespace Flag

def table : List (Text × Flag) :=
  [(ascii "b", .binary), (ascii "c", .compile), (ascii "l", .listing), (ascii "o", .origin),
   (ascii "v", .verbose)]

/-- Whether a flag stands alone: it is given no value, or one behind an equals sign. -/
def isSwitch : Flag → Bool
  | .listing | .verbose => true
  | .binary | .compile | .origin => false

end Flag

/-- A fault in the flags: one line, then the usage. -/
def refuse (message : Text) : Response :=
  { exit := 2, errors := message ++ ascii "\n" ++ usage }

def truthTable : List (Text × Bool) :=
  [(ascii "1", true), (ascii "t", true), (ascii "T", true), (ascii "TRUE", true),
   (ascii "true", true), (ascii "True", true), (ascii "0", false), (ascii "f", false),
   (ascii "F", false), (ascii "FALSE", false), (ascii "false", false), (ascii "False", false)]

def setSwitch (options : Options) (flag : Flag) (name value : Text) : Except Response Options :=
  match truthTable.lookup value with
  | none =>
      .error (refuse (ascii "invalid boolean value " ++ value.quoted ++ ascii " for -" ++ name
        ++ ascii ": parse error"))
  | some truth =>
      match flag with
      | .listing => .ok { options with listing := truth }
      | .verbose => .ok { options with verbose := truth }
      | _ => .ok options

def setValue (options : Options) (flag : Flag) (name value : Text) : Except Response Options :=
  match flag with
  | .binary => .ok { options with binary := value }
  | .compile => .ok { options with compile := value }
  | .origin =>
      match Number.unsigned 0xFFFFFFFFFFFFFFFF value with
      | .ok origin => .ok { options with origin }
      | .error fault =>
          .error (refuse (ascii "invalid value " ++ value.quoted ++ ascii " for flag -" ++ name
            ++ match fault with
              | .malformed => ascii ": parse error"
              | .tooLarge => ascii ": value out of range"))
  | _ => .ok options

def flagText? : Text → Option Text
  | 45 :: 45 :: rest => some rest
  | 45 :: rest => if rest.isEmpty then none else some rest
  | _ => none

def splitValue (text : Text) : Text × Option Text :=
  match text.dropWhile (· != 61) with
  | [] => (text, none)
  | _ :: value => (text.takeWhile (· != 61), some value)

/-- Reads the flags up to the first argument that is none. -/
def parse (options : Options) : List Text → Except Response (Options × List Text)
  | [] => .ok (options, [])
  | argument :: rest =>
      match flagText? argument with
      | none => .ok (options, argument :: rest)
      | some text =>
          if argument = ascii "--" then .ok (options, rest)
          else if text.head?.all (fun byte => byte == 45 || byte == 61) then
            .error (refuse (ascii "bad flag syntax: " ++ argument))
          else
            let (name, given) := splitValue text
            match Flag.table.lookup name with
            | none =>
                if name = ascii "help" ∨ name = ascii "h" then .error { errors := usage }
                else .error (refuse (ascii "flag provided but not defined: -" ++ name))
            | some flag =>
                if flag.isSwitch then
                  match setSwitch options flag name (given.getD (ascii "true")) with
                  | .error response => .error response
                  | .ok changed => parse changed rest
                else
                  match given, rest with
                  | some value, rest =>
                      match setValue options flag name value with
                      | .error response => .error response
                      | .ok changed => parse changed rest
                  | none, value :: more =>
                      match setValue options flag name value with
                      | .error response => .error response
                      | .ok changed => parse changed more
                  | none, [] => .error (refuse (ascii "flag needs an argument: -" ++ name))

/-- The options of a command line whose arguments make sense together. -/
def options (arguments : List Text) : Except Response Options :=
  match parse {} arguments with
  | .error response => .error response
  | .ok (options, rest) =>
      if !rest.isEmpty then
        .error (fatal (programName ++ ascii ": Unknown arguments: [" ++ Text.spaced rest
          ++ ascii "]"))
      else if !options.compile.isEmpty && !options.binary.isEmpty then
        .error (fatal (programName ++ ascii ": -c and -b are exclusive"))
      else if options.origin ≥ Memory.size then
        .error (fatal (programName ++ ascii ": origin " ++ Numeral.hexLiteral 0 options.origin
          ++ ascii " out of range"))
      else .ok options

/-! ### Running -/

def unreadable (name : Text) (fault : FileFault) : Response :=
  fatal (name ++ ascii ": " ++ fault.message name)

/-- A source without contents. One that can be opened fails when its first line is read. -/
def unreadableSource (name : Text) (fault : FileFault) : Response :=
  match fault with
  | .isDirectory => fatal (name ++ ascii ": line 0 \x27\x27 " ++ fault.message name)
  | fault => unreadable name fault

/-- The program to run, and what is logged on the way to it. -/
def program [Evaluator] [Locale] (options : Options) (read : Text → Except FileFault Text) :
    Except Response (Program × Text) :=
  if !options.compile.isEmpty then
    match read options.compile with
    | .error fault => .error (unreadableSource options.compile fault)
    | .ok source =>
        let (assembler, result) := (Assembler.predefineAll {} Session.definitions).parse source
        let logged := if options.verbose then lines (assembler.log source) else []
        match result with
        | .ok program => .ok (program, logged)
        | .error failure =>
            let response := fatal (options.compile ++ ascii ": " ++ failure.message)
            .error { response with errors := logged ++ response.errors }
  else if !options.binary.isEmpty then
    match read options.binary with
    | .error fault => .error (unreadable options.binary fault)
    | .ok image => .ok (Program.disassemble ⟨UInt16.ofNat options.origin, image⟩, [])
  else .ok ({}, [])

def execute [Locale] (session : Session) : Response :=
  match session.reset with
  | (_, some failure) => { exit := 1, errors := lines (session.resetLog ++ [failure.message]) }
  | (ready, none) =>
      let logged := lines (session.resetLog ++ ready.runLog)
      match ready.run with
      | (after, none) => { output := after.machine.report, errors := logged }
      | (after, some failure) =>
          { exit := 1
            errors := logged ++ after.machine.report ++ failure.message ++ ascii "\n" }

def respond [Evaluator] [Locale] (arguments : List Text) (read : Text → Except FileFault Text) :
    Response :=
  match options arguments with
  | .error response => response
  | .ok options =>
      match program options read with
      | .error response => response
      | .ok (program, logged) =>
          let response :=
            if options.listing then { output := program.listing }
            else execute { program, verbose := options.verbose }
          { response with errors := logged ++ response.errors }

end Nibble.CommandLine
