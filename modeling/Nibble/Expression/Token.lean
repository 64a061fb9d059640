import Nibble.Expression.Operator
import Nibble.Text.Letter

set_option autoImplicit false

/-! The tokens of compile-time expressions. The scanner reads code points; where a line ends
inside brackets the expression goes on. Outside brackets the space before the first token of a line
matters: a line further in than the one before opens a block, and one further out closes blocks. -/

namespace Nibble.Expression

open Text (ascii)

/-- Words with a meaning of their own. `reserved` stands for all those that nothing uses. -/
inductive Keyword where
  | or
  | and
  | not
  | member
  | condition
  | elseCondition
  | otherwise
  | each
  | whilst
  | pass
  /-- Ends a loop or a turn of it. -/
  | leave
  | giveBack
  | load
  | reserved
deriving DecidableEq, Repr

inductive Mark where
  | plus
  | minus
  | star
  | slash
  | floor
  | percent
  | ampersand
  | bar
  | caret
  | tilde
  | shiftLeft
  | shiftRight
  | less
  | greater
  | lessEqual
  | greaterEqual
  | equal
  | unequal
  | assign
  /-- An assignment joined with an operator. -/
  | augment (operator : BinaryOperator)
  | power
  | comma
  | colon
  | semicolon
  | dot
  | openParen
  | closeParen
  | openBracket
  | closeBracket
  | openBrace
  | closeBrace
deriving DecidableEq, Repr

inductive Token where
  | name (text : Text)
  | integer (value : Nat)
  | float (value : Float)
  | string (bytes : Text)
  | keyword (word : Keyword)
  | mark (mark : Mark)
  | newline
  | indent
  | outdent

namespace Token

def isDigit (code : Nat) : Bool :=
  48 ≤ code && code ≤ 57

def digitValue? (code : Nat) : Option Nat :=
  if 48 ≤ code && code ≤ 57 then some (code - 48)
  else if 97 ≤ code && code ≤ 122 then some (code - 87)
  else if 65 ≤ code && code ≤ 90 then some (code - 55)
  else none

def isDigitIn (base code : Nat) : Bool :=
  (digitValue? code).any (· < base)

/-- The number that so many digits denote. A long sequence is read in two halves. -/
def numberOf (base count : Nat) (codes : List Nat) : Nat :=
  if count ≤ 64 then
    codes.foldl (fun value code => value * base + (digitValue? code).getD 0) 0
  else
    let (front, back) := codes.splitAt (count / 2)
    numberOf base (count / 2) front * Nat.pow base (count - count / 2)
      + numberOf base (count - count / 2) back
termination_by count
decreasing_by all_goals omega

def numberIn (base : Nat) (codes : List Nat) : Nat :=
  numberOf base codes.length codes

def isNameStart (code : Nat) : Bool :=
  code == 95 || isLetter code

def isNamePart (code : Nat) : Bool :=
  isDigit code || isNameStart code

def spelling (codes : List Nat) : Text :=
  codes.flatMap Glyph.encode

/-! ### Words -/

def keywords : List (Text × Keyword) :=
  [(ascii "or", .or), (ascii "and", .and), (ascii "not", .not), (ascii "in", .member),
   (ascii "if", .condition), (ascii "elif", .elseCondition), (ascii "else", .otherwise),
   (ascii "for", .each), (ascii "while", .whilst), (ascii "pass", .pass), (ascii "break", .leave),
   (ascii "continue", .leave), (ascii "return", .giveBack), (ascii "load", .load)] ++
  ["def", "lambda", "as", "async", "await", "class", "del", "except", "finally", "from", "global",
   "import", "is", "nonlocal", "raise", "try", "with", "yield"].map
    fun word => (ascii word, .reserved)

def ofName (text : Text) : Token :=
  match keywords.lookup text with
  | some word => keyword word
  | none => name text

/-! ### Numbers -/

/-- Digits after a radix letter; the width counts the two characters of the radix as well. -/
def radixNumber (base : Nat) (limit : Option Nat) (rest : List Nat) : Option (Token × Nat) :=
  let digits := rest.takeWhile (isDigitIn base)
  if digits.isEmpty || limit.any (numberIn base digits > ·) then none
  else some (integer (numberIn base digits), digits.length + 2)

/-- The nearest floating-point number to digits scaled by a power of ten; there is none beyond
the range of finite ones. -/
def scaled (digits : List Nat) (exponent : Int) : Option Float :=
  let significant := digits.dropWhile (· == 48)
  let magnitude : Int := significant.length + exponent
  if significant.isEmpty || magnitude < -330 then some 0.0
  else if magnitude > 310 then none
  else
    let value := Float.ofScientific (numberIn 10 significant) (exponent < 0) exponent.natAbs
    if value.isFinite then some value else none

/-- The exponent of a floating-point literal, and its width; zero and no width if there is none. -/
def exponentPart : List Nat → Option (Int × Nat)
  | [] => some (0, 0)
  | letter :: rest =>
      if letter != 101 && letter != 69 then some (0, 0)
      else
        match rest with
        | 43 :: unsigned => power 1 2 unsigned
        | 45 :: unsigned => power (-1) 2 unsigned
        | unsigned => power 1 1 unsigned
where
  power (sign : Int) (width : Nat) (codes : List Nat) : Option (Int × Nat) :=
    let digits := codes.takeWhile isDigit
    if digits.isEmpty then none
    else some (sign * (numberIn 10 digits : Nat), digits.length + width)

/-- A decimal number. An integer has no leading zero unless it is all zeros; a point or an
exponent makes it a floating-point number. -/
def decimalNumber (codes : List Nat) : Option (Token × Nat) := do
  let whole := codes.takeWhile isDigit
  let (fraction, pointWidth) :=
    match codes.drop whole.length with
    | 46 :: rest => (rest.takeWhile isDigit, 1)
    | _ => ([], 0)
  let width := whole.length + pointWidth + fraction.length
  let (exponent, exponentWidth) ← exponentPart (codes.drop width)
  if pointWidth == 0 && exponentWidth == 0 then
    if whole.length > 1 && whole.head? == some 48 && !whole.all (· == 48) then none
    else some (integer (numberIn 10 whole), width)
  else
    let value ← scaled (whole ++ fraction) (exponent - fraction.length)
    return (float value, width + exponentWidth)

/-- A number at the head. Hexadecimal integers have any size, octal and binary ones 63 bits. -/
def number (codes : List Nat) : Option (Token × Nat) :=
  match codes with
  | 48 :: letter :: rest =>
      if letter == 120 || letter == 88 then radixNumber 16 none rest
      else if letter == 111 || letter == 79 then radixNumber 8 (some 0x7FFFFFFFFFFFFFFF) rest
      else if letter == 98 || letter == 66 then radixNumber 2 (some 0x7FFFFFFFFFFFFFFF) rest
      else decimalNumber codes
  | _ => decimalNumber codes

/-! ### Strings -/

def simpleEscape? (code : Nat) : Option UInt8 :=
  if code == 97 then some 7
  else if code == 98 then some 8
  else if code == 102 then some 12
  else if code == 110 then some 10
  else if code == 114 then some 13
  else if code == 116 then some 9
  else if code == 118 then some 11
  else if code == 92 || code == 39 || code == 34 then some (UInt8.ofNat code)
  else none

def asciiByte? (code : Nat) : Option Text :=
  if code < 128 then some [UInt8.ofNat code] else none

/-- The spelling of an escaped code point, which surrogates are not. -/
def escapedPoint? (digits : List Nat) : Option Text :=
  let code := numberIn 16 digits
  if digits.all (isDigitIn 16) && code < 0x110000 && !(0xD800 ≤ code && code < 0xE000) then
    some (Glyph.encode code)
  else none

def escape (codes : List Nat) : Option (Text × Nat) :=
  match codes with
  | [] => none
  | first :: rest =>
      if first == 10 then some ([], 1)
      else if isDigitIn 8 first then
        let digits := first :: (rest.take 2).takeWhile (isDigitIn 8)
        (asciiByte? (numberIn 8 digits)).map (·, digits.length)
      else if first == 120 then
        let digits := rest.take 2
        if digits.length == 2 && digits.all (isDigitIn 16) then
          (asciiByte? (numberIn 16 digits)).map (·, 3)
        else none
      else if first == 117 then
        if (rest.take 4).length == 4 then (escapedPoint? (rest.take 4)).map (·, 5) else none
      else if first == 85 then
        if (rest.take 8).length == 8 then (escapedPoint? (rest.take 8)).map (·, 9) else none
      else (simpleEscape? first).map ([·], 1)

/-- How a string is delimited: its quote, whether it stands three times and lets the string span
lines, and whether a backslash stands for itself. -/
structure Delimiter where
  quote : Nat
  triple : Bool
  raw : Bool

def Delimiter.closes (delimiter : Delimiter) (codes : List Nat) : Bool :=
  if delimiter.triple then
    [delimiter.quote, delimiter.quote, delimiter.quote].isPrefixOf codes
  else codes.head? == some delimiter.quote

/-- The contents of a string up to its closing quote, and the number of characters up to and with
the quote. The first argument counts characters that are part of an escape already read. -/
def stringBody (delimiter : Delimiter) : Nat → List Nat → Option (Text × Nat)
  | _, [] => none
  | skipped + 1, _ :: rest =>
      (stringBody delimiter skipped rest).map fun body => (body.1, body.2 + 1)
  | 0, code :: rest =>
      if delimiter.closes (code :: rest) then some ([], if delimiter.triple then 3 else 1)
      else if code == 10 && !delimiter.triple then none
      else if code == 92 && delimiter.raw then
        match rest with
        | [] => none
        | escaped :: _ =>
            (stringBody delimiter 1 rest).map fun body =>
              (92 :: Glyph.encode escaped ++ body.1, body.2 + 1)
      else if code == 92 then
        match escape rest with
        | none => none
        | some (bytes, width) =>
            (stringBody delimiter width rest).map fun body => (bytes ++ body.1, body.2 + 1)
      else (stringBody delimiter 0 rest).map fun body => (Glyph.encode code ++ body.1, body.2 + 1)

def stringLiteral (raw : Bool) (codes : List Nat) : Option (Token × Nat) := do
  let quote ← codes.head?
  let triple := [quote, quote, quote].isPrefixOf codes
  let opening := if triple then 3 else 1
  let (bytes, width) ← stringBody ⟨quote, triple, raw⟩ 0 (codes.drop opening)
  return (string bytes, opening + width)

/-! ### Marks -/

/-- The marks, the longer ones before those that they begin with. -/
def marks : List (List Nat × Mark) :=
  [([60, 60, 61], .augment .shiftLeft), ([62, 62, 61], .augment .shiftRight),
   ([47, 47, 61], .augment .floorDivide),
   ([60, 60], .shiftLeft), ([62, 62], .shiftRight), ([47, 47], .floor), ([42, 42], .power),
   ([60, 61], .lessEqual), ([62, 61], .greaterEqual), ([61, 61], .equal), ([33, 61], .unequal),
   ([43, 61], .augment .add), ([45, 61], .augment .subtract), ([47, 61], .augment .divide),
   ([37, 61], .augment .remainder), ([38, 61], .augment .bitAnd), ([124, 61], .augment .bitOr),
   ([94, 61], .augment .bitXor), ([42, 61], .augment .multiply),
   ([61], .assign), ([60], .less), ([62], .greater), ([43], .plus), ([45], .minus),
   ([42], .star), ([47], .slash), ([37], .percent), ([38], .ampersand), ([124], .bar),
   ([94], .caret), ([126], .tilde), ([44], .comma), ([58], .colon), ([59], .semicolon),
   ([46], .dot), ([40], .openParen), ([41], .closeParen), ([91], .openBracket),
   ([93], .closeBracket), ([123], .openBrace), ([125], .closeBrace)]

def ofMark (codes : List Nat) : Option (Token × Nat) :=
  (marks.find? fun entry => entry.1.isPrefixOf codes).map fun entry =>
    (mark entry.2, entry.1.length)

/-! ### Scanning -/

def isQuote (code : Nat) : Bool :=
  code == 34 || code == 39

def lexeme (code : Nat) (rest : List Nat) : Option (Token × Nat) :=
  if isQuote code then stringLiteral false (code :: rest)
  else if code == 114 && rest.head?.any isQuote then
    (stringLiteral true rest).map fun found => (found.1, found.2 + 1)
  else if isNameStart code then
    let codes := code :: rest.takeWhile isNamePart
    some (ofName (spelling codes), codes.length)
  else if isDigit code || (code == 46 && rest.head?.any isDigit) then number (code :: rest)
  else ofMark (code :: rest)

/-- The bracket depth after a token; a bracket that closes nothing is refused. -/
def depthAfter (depth : Nat) : Token → Option Nat
  | mark .openParen | mark .openBracket | mark .openBrace => some (depth + 1)
  | mark .closeParen | mark .closeBracket | mark .closeBrace =>
      if depth == 0 then none else some (depth - 1)
  | _ => some depth

inductive Place where
  /-- Before the first token, at a column and behind so many characters. -/
  | margin (column width : Nat)
  | inside
  /-- In a comment, which may have its line for itself. -/
  | comment (alone : Bool)

/-- What the scanner knows besides the characters to come: how many brackets are open, the columns
of the open blocks from the innermost one on, and its place in the line. -/
structure Layout where
  depth : Nat := 0
  blocks : List Nat := []
  place : Place := .margin 0 0

namespace Layout

def lineStart : Place := .margin 0 0

/-- The column behind a tab, which goes on to the next multiple of eight characters. -/
def columnAfterTab (column width : Nat) : Nat :=
  column + (8 - width % 8)

/-- The tokens that blocks make before a line at a column, and the blocks that are open then. A
column between those of two open blocks is refused. -/
def enter (blocks : List Nat) (column : Nat) : Option (List Token × List Nat) :=
  if blocks.headD 0 < column then some ([indent], column :: blocks)
  else
    let kept := blocks.dropWhile (column < ·)
    if kept.headD 0 = column then
      some (List.replicate (blocks.length - kept.length) outdent, kept)
    else none

/-- The tokens behind the last character: open blocks end, after the line in which they do. -/
def close (layout : Layout) : List Token :=
  let outdents := layout.blocks.map fun _ => outdent
  match layout.place with
  | .margin _ _ | .comment true => outdents
  | .inside | .comment false => if outdents.isEmpty then [] else newline :: outdents

end Layout

/-- What one step of the scanner yields: tokens, the layout behind them, and how many further
characters they take. -/
structure Step where
  tokens : List Token
  layout : Layout
  passed : Nat := 0

namespace Step

/-- A step inside a line, with tokens before what it yields. -/
def inside (layout : Layout) (before : List Token) (code : Nat) (rest : List Nat) : Option Step :=
  if code == 92 then
    if rest.head? == some 10 then some ⟨before, { layout with place := .inside }, 1⟩ else none
  else
    match lexeme code rest with
    | none => none
    | some (token, width) =>
        match depthAfter layout.depth token with
        | none => none
        | some depth => some ⟨before ++ [token], { layout with depth, place := .inside }, width - 1⟩

def next (layout : Layout) (code : Nat) (rest : List Nat) : Option Step :=
  match layout.place with
  | .margin column width =>
      if code == 32 then some ⟨[], { layout with place := .margin (column + 1) (width + 1) }, 0⟩
      else if code == 9 then
        let next := Layout.columnAfterTab column width
        some ⟨[], { layout with place := .margin next (width + 1) }, 0⟩
      else if code == 10 then some ⟨[], { layout with place := Layout.lineStart }, 0⟩
      else if code == 35 then some ⟨[], { layout with place := .comment true }, 0⟩
      else if layout.depth > 0 then inside layout [] code rest
      else
        match Layout.enter layout.blocks column with
        | none => none
        | some (before, blocks) => inside { layout with blocks } before code rest
  | .inside =>
      if code == 32 || code == 9 then some ⟨[], layout, 0⟩
      else if code == 10 then
        let ended := if layout.depth > 0 then [] else [newline]
        some ⟨ended, { layout with place := Layout.lineStart }, 0⟩
      else if code == 35 then some ⟨[], { layout with place := .comment false }, 0⟩
      else inside layout [] code rest
  | .comment alone =>
      if code == 10 then
        let ended := if alone || layout.depth > 0 then [] else [newline]
        some ⟨ended, { layout with place := Layout.lineStart }, 0⟩
      else some ⟨[], layout, 0⟩

end Step

/-- Goes on scanning under a layout, behind the tokens found so far. The number counts characters of
the last token that are still to be passed. -/
def scan (layout : Layout) (found : Array Token) : Nat → List Nat → Option (List Token)
  | _, [] => some (found.toList ++ layout.close)
  | passed + 1, _ :: rest => scan layout found passed rest
  | 0, code :: rest =>
      if code == 0 then some (found.toList ++ layout.close)
      else
        match Step.next layout code rest with
        | none => none
        | some step => scan step.layout (found.appendList step.tokens) step.passed rest

/-- A carriage return ends a line, alone or together with a line feed. -/
def unifyLineEnds : List Nat → List Nat
  | [] => []
  | 13 :: 10 :: rest => 10 :: unifyLineEnds rest
  | 13 :: rest => 10 :: unifyLineEnds rest
  | code :: rest => code :: unifyLineEnds rest

def ofText (text : Text) : Option (List Token) :=
  scan {} #[] 0 (unifyLineEnds (text.glyphs.map Glyph.code))

end Token

end Nibble.Expression
