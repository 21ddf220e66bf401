import SqlInjection.Java.StringLiteral
import SqlInjection.Toml.Value

/-!
# Reading settings files

The lines of a settings file: headers of tables, and keys with values.
-/

namespace SqlInjection.Toml

/-- Reads a value off the front of a text. -/
abbrev Scan := StateT Text Option

namespace Scan

/-- Takes the given text. -/
def lit (w : String) : Scan Unit := fun t => (Text.stripPrefix? w.toList t).map fun r => ((), r)

/-- Takes the longest run of characters that satisfy `p`. -/
def run (p : Char → Bool) : Scan Text := fun t => some (t.takeWhile p, t.dropWhile p)

/-- Takes the longest run of characters that satisfy `p`, which has at least one. -/
def run1 (p : Char → Bool) : Scan Text := do
  let s ← run p
  if s.isEmpty then failure else pure s

/-- Takes exactly `n` characters that satisfy `p`. -/
def exactly (n : Nat) (p : Char → Bool) : Scan Text := fun t =>
  if (t.take n).length = n ∧ (t.take n).all p then some (t.take n, t.drop n) else none

/-- The next character, which is not taken. -/
def peek : Scan (Option Char) := fun t => some (t.head?, t)

/-- Succeeds at the end of the text. -/
def atEnd : Scan Unit := fun t => if t.isEmpty then some ((), t) else none

/-- Reads values for as long as it can, at most `fuel` of them. -/
def manyUpTo {α : Type} (p : Scan α) : Nat → Scan (List α)
  | 0 => pure []
  | fuel + 1 => (do let a ← p; let as ← manyUpTo p fuel; pure (a :: as)) <|> pure []

/-- Reads values for as long as it can. Each takes a character, so there are no more of them than
there are characters. -/
def many {α : Type} (p : Scan α) : Scan (List α) := fun t => manyUpTo p t.length t

/-- Reads values divided by a text. -/
def separated {α : Type} (s : String) (p : Scan α) : Scan (List α) := do
  let a ← p
  let as ← many (lit s *> p)
  pure (a :: as)

end Scan

open Scan

/-! ## Blanks and comments -/

/-- Spaces and tabs. -/
def blanks : Scan Unit := do let _ ← run fun c => c == ' ' || c == '\t'

/-- A line end. -/
def lineEnd : Scan Unit := lit "\n" <|> lit "\r\n"

/-- A character that may stand in a comment or a string. -/
def isPlain (c : Char) : Bool := c == '\t' || (c.toNat ≥ 0x20 && c.toNat ≠ 0x7F)

/-- A comment, up to the end of its line. -/
def comment : Scan Unit := do
  lit "#"
  let _ ← run isPlain

/-- What may stand after something on its line. -/
def lineRest : Scan Unit := do
  blanks
  let _ ← optional comment
  lineEnd <|> atEnd

/-- Blanks, comments and line ends. -/
def spaces : Scan Unit := do
  blanks
  let _ ← many ((lineEnd <|> (do comment; lineEnd <|> atEnd)) *> blanks)

/-! ## Strings -/

/-- A digit to base sixteen. -/
def isHex (c : Char) : Bool := (Java.hexDigit? c).isSome

/-- The character that an escape stands for. -/
def escape : Scan Char := do
  lit "\\"
  let code (n : Nat) : Scan Char := do
    let digits ← exactly n isHex
    match (Java.hexValue? digits).bind Java.charOfCode? with
    | some c => pure c
    | none => failure
  (lit "b" *> pure (Char.ofNat 8)) <|> (lit "t" *> pure '\t') <|> (lit "n" *> pure '\n') <|>
    (lit "f" *> pure (Char.ofNat 12)) <|> (lit "r" *> pure '\r') <|> (lit "\"" *> pure '"') <|>
    (lit "\\" *> pure '\\') <|> (lit "u" *> code 4) <|> (lit "U" *> code 8)

/-- A run of characters with escapes, none of them a quote. -/
def escapedRun : Scan Text :=
  run1 (fun c => isPlain c && c != '"' && c != '\\') <|> (do let c ← escape; pure [c])

/-- A string with escapes on one line. -/
def basicString : Scan Text := do
  lit "\""
  let parts ← many escapedRun
  lit "\""
  pure parts.flatten

/-- A string without escapes on one line. -/
def literalString : Scan Text := do
  lit "'"
  let s ← run fun c => isPlain c && c != '\''
  lit "'"
  pure s

/-- A line end inside a string, which stands for a line feed however it is written. -/
def lineFeed : Scan Text := lineEnd *> pure ['\n']

/-- A line end that is escaped: it goes with all blanks and line ends after it. -/
def escapedLineEnd : Scan Text := do
  lit "\\"
  blanks
  lineEnd
  blanks
  let _ ← many (lineEnd *> blanks)
  pure []

/-- One or two quotes that do not close a string over several lines. -/
def innerQuotes (q : Char) : Scan Text := fun t =>
  let n := (t.takeWhile (· == q)).length
  if n = 1 ∨ n = 2 then some (t.take n, t.drop n) else none

/-- The quotes that close a string over several lines, with at most two that belong to it. -/
def closingQuotes (q : Char) : Scan Text := fun t =>
  let n := (t.takeWhile (· == q)).length
  if n < 3 then none
  else
    let inner := min (n - 3) 2
    some (t.take inner, t.drop (inner + 3))

/-- A string over several lines, whose parts `part` reads. A line end right after the opening quotes
does not belong to it. -/
def longString (q : Char) (opening : String) (part : Scan Text) : Scan Text := do
  lit opening
  let _ ← optional lineEnd
  let parts ← many (part <|> lineFeed <|> innerQuotes q)
  let last ← closingQuotes q
  pure (parts.flatten ++ last)

/-- A string with escapes over several lines. -/
def longBasicString : Scan Text := longString '"' "\"\"\"" (escapedRun <|> escapedLineEnd)

/-- A string without escapes over several lines. -/
def longLiteralString : Scan Text :=
  longString '\'' "'''" (run1 fun c => isPlain c && c != '\'')

/-- A string of any kind. -/
def string : Scan Text := do
  let long := do lit "\"\"\"" <|> lit "'''"
  match ← optional (fun t => (long t).map fun _ => ((), t)) with
  | some _ => longBasicString <|> longLiteralString
  | none => basicString <|> literalString

/-! ## Numbers and dates -/

/-- Digits, which may be divided by low lines, and the digits alone. -/
def digitsOf (p : Char → Bool) : Scan Text := do
  let first ← run1 p
  let more ← many (lit "_" *> run1 p)
  pure (first ++ more.flatten)

/-- A sign, if there is one: whether it is a minus sign. -/
def sign : Scan Bool := (lit "-" *> pure true) <|> (lit "+" *> pure false) <|> pure false

/-- The number that digits to a base stand for. -/
def valueIn (base : Nat) (digits : Text) : Nat :=
  digits.foldl (fun n c => base * n + (Java.hexDigit? c).getD 0) 0

/-- The digits of a whole number, which start with zero only if there is one of them. -/
def wholeDigits : Scan Text := do
  let digits ← digitsOf Char.isDigit
  if digits.length > 1 ∧ digits.head? = some '0' then failure else pure digits

/-- A number, if it fits in 64 bits. -/
def word (n : Int) : Scan Value :=
  if Int64.minValue.toInt ≤ n ∧ n ≤ Int64.maxValue.toInt then pure (.integer n) else failure

/-- A number with a base in front. -/
def basedInteger (start : String) (base : Nat) (p : Char → Bool) : Scan Value := do
  lit start
  let digits ← digitsOf p
  word (valueIn base digits)

/-- A whole number. -/
def integer : Scan Value :=
  basedInteger "0x" 16 isHex <|> basedInteger "0o" 8 Java.isOctal <|>
    basedInteger "0b" 2 (fun c => c == '0' || c == '1') <|>
    (do
      let negative ← sign
      let digits ← wholeDigits
      let n : Int := valueIn 10 digits
      word (if negative then -n else n))

/-- An exponent. -/
def exponent : Scan Unit := do
  lit "e" <|> lit "E"
  let _ ← sign
  let _ ← digitsOf Char.isDigit

/-- A number with a fraction or an exponent, or one that is none. -/
def decimal : Scan Value := do
  let _ ← sign
  (do
    let _ ← wholeDigits
    (do
      lit "."
      let _ ← digitsOf Char.isDigit
      let _ ← optional exponent) <|> exponent) <|> lit "inf" <|> lit "nan"
  pure .decimal

/-- A number of two digits within bounds. -/
def twoDigits (low high : Nat) : Scan Nat := do
  let n := valueIn 10 (← exactly 2 Char.isDigit)
  if low ≤ n ∧ n ≤ high then pure n else failure

/-- The number of days of a month. -/
def daysIn (year month : Nat) : Nat :=
  let leap := year % 4 = 0 ∧ (year % 100 ≠ 0 ∨ year % 400 = 0)
  if month = 2 then (if leap then 29 else 28)
  else if month = 4 ∨ month = 6 ∨ month = 9 ∨ month = 11 then 30
  else 31

/-- A day. -/
def day : Scan Unit := do
  let year := valueIn 10 (← exactly 4 Char.isDigit)
  lit "-"
  let month ← twoDigits 1 12
  lit "-"
  let _ ← twoDigits 1 (daysIn year month)

/-- A time of day. -/
def time : Scan Unit := do
  let _ ← twoDigits 0 23
  lit ":"
  let _ ← twoDigits 0 59
  lit ":"
  let _ ← twoDigits 0 60
  let _ ← optional (lit "." *> run1 Char.isDigit)

/-- The offset of a time zone. -/
def offset : Scan Unit :=
  lit "Z" <|> lit "z" <|> (do
    lit "+" <|> lit "-"
    let _ ← twoDigits 0 23
    lit ":"
    let _ ← twoDigits 0 59)

/-- A day, a time, or both. -/
def date : Scan Value := do
  (do
    day
    let _ ← optional (do
      lit "T" <|> lit "t" <|> lit " "
      time
      let _ ← optional offset)) <|> time
  pure .date

/-! ## Keys and values -/

/-- A character of a key without quotes. -/
def isKeyChar (c : Char) : Bool := c.isAlphanum || c == '_' || c == '-'

/-- One part of a key. -/
def keyPart : Scan Text := do
  blanks
  let k ← run1 isKeyChar <|> basicString <|> literalString
  blanks
  pure k

/-- A key: its parts, divided by points. -/
def key : Scan (List Text) := separated "." keyPart

/-- A key, and the value it is given. -/
structure Assignment where
  path : List Text
  value : Value
  deriving Repr

end SqlInjection.Toml
