import SqlInjection.Text.Blank

/-!
# Java string literals

The value of a string literal or text block, and the literal of a value.

* `decodeLiteral?`: the value of a literal as it is written, quotes included. The lines of a text
  block lose their common indentation, which is counted in bytes; there is no value when that count
  ends inside a character of some line.
* `encodeContent`: the text of a one-line literal between its quotes.
-/

namespace SqlInjection.Java

/-! ## Escapes -/

/-- Where the reader of a literal stands. -/
inductive EscapeState where
  /-- Between characters. -/
  | plain
  /-- After a backslash. -/
  | escaped
  /-- After `\u`, with the characters read so far. -/
  | unicode (digits : Text)
  /-- Inside an octal escape: its value so far and how many digits may still come. -/
  | octal (value left : Nat)
  deriving DecidableEq, Repr

/-- The value of a digit to base sixteen. -/
def hexDigit? (c : Char) : Option Nat :=
  if c.isDigit then some (c.toNat - '0'.toNat)
  else if 'a' ≤ c ∧ c ≤ 'f' then some (c.toNat - 'a'.toNat + 10)
  else if 'A' ≤ c ∧ c ≤ 'F' then some (c.toNat - 'A'.toNat + 10)
  else none

/-- The value of a run of digits to base sixteen that follows `n`. -/
def hexFrom? (n : Nat) : Text → Option Nat
  | [] => some n
  | c :: t =>
    match hexDigit? c with
    | some d => hexFrom? (16 * n + d) t
    | none => none

/-- The value of a nonempty run of digits to base sixteen, perhaps after a plus sign. -/
def hexValue? : Text → Option Nat
  | [] => none
  | ['+'] => none
  | '+' :: t => hexFrom? 0 t
  | t => hexFrom? 0 t

/-- The character with the given code, unless there is none. -/
def charOfCode? (n : Nat) : Option Char := if n.isValidChar then some (Char.ofNat n) else none

/-- The character of a unicode escape; an escape that names no character stays as it is. -/
def unicodeChar (digits : Text) : Text :=
  match (hexValue? digits).bind charOfCode? with
  | some c => [c]
  | none => '\\' :: 'u' :: digits

/-- What an unfinished state stands for at the end of the literal. -/
def EscapeState.flush : EscapeState → Text
  | .plain => []
  | .escaped => ['\\']
  | .unicode digits => unicodeChar digits
  | .octal value _ => [Char.ofNat value]

/-- An octal digit. -/
def isOctal (c : Char) : Bool := '0' ≤ c && c ≤ '7'

/-- What a backslash and a character other than `u` and the octal digits stand for. A line feed
after a backslash is left out. -/
def escapeValue (c : Char) : Text :=
  if c = 'n' then ['\n']
  else if c = 't' then ['\t']
  else if c = 'r' then ['\r']
  else if c = 'b' then ['\x08']
  else if c = 'f' then ['\x0c']
  else if c = 's' then [' ']
  else if c = '\n' then []
  else [c]

/-- One character: what it adds to the value, and the state after it. -/
def EscapeState.step : EscapeState → Char → Text × EscapeState
  | .plain, c => if c = '\\' then ([], .escaped) else ([c], .plain)
  | .escaped, c =>
    if c = 'u' then ([], .unicode [])
    else if isOctal c then ([], .octal (c.toNat - '0'.toNat) (if c ≤ '3' then 2 else 1))
    else (escapeValue c, .plain)
  | .unicode digits, c =>
    if digits.isEmpty && c = 'u' then ([], .unicode [])
    else if digits.length = 3 then (unicodeChar (digits ++ [c]), .plain)
    else ([], .unicode (digits ++ [c]))
  | .octal value left, c =>
    if isOctal c && left ≠ 0 then ([], .octal (8 * value + (c.toNat - '0'.toNat)) (left - 1))
    else if c = '\\' then ([Char.ofNat value], .escaped)
    else ([Char.ofNat value, c], .plain)

/-- The value of what is left of a literal. -/
def unescapeFrom (s : EscapeState) : Text → Text
  | [] => s.flush
  | c :: t => (s.step c).1 ++ unescapeFrom (s.step c).2 t

/-- The value of the text between the quotes of a literal. -/
def unescape (t : Text) : Text := unescapeFrom .plain t

/-! ## Text blocks -/

/-- The number of bytes of the blanks a line starts with. -/
def leadingBytes (line : Text) : Nat := Text.byteSize (line.takeWhile Text.isBlank)

/-- The indentation common to the lines that count: those that are not blank, and the last. -/
def commonIndent (lines : List Text) : Nat :=
  let counted := lines.dropLast.filter (fun l => !Text.blank l) ++ lines.getLast?.toList
  ((counted.map leadingBytes).min?).getD 0

/-- A line without the common indentation and without the blanks at its end. -/
def stripLine? (indent : Nat) (line : Text) : Option Text :=
  (Text.splitAt? line (min indent (leadingBytes line))).map fun (_, r) => Text.trimEnd r

/-- The lines of a text block without their common indentation. -/
def stripIndent? (body : Text) : Option Text :=
  let lines := Text.splitOn '\n' body
  (lines.mapM (stripLine? (commonIndent lines))).map (Text.join ['\n'])

/-! ## Literals -/

/-- The delimiter of a text block. -/
def blockQuote : Text := ['"', '"', '"']

/-- The text between a delimiter at both ends. -/
def between? (delimiter t : Text) : Option Text :=
  (Text.stripPrefix? delimiter t).bind (Text.stripSuffix? delimiter)

/-- The value of a literal as it is written. -/
def decodeLiteral? (raw : Text) : Option Text :=
  match between? blockQuote raw with
  | some body =>
    -- the content starts after the line that opens the block
    let content := ((Text.cut? '\n' body).map Prod.snd).getD body
    (stripIndent? content).map unescape
  | none => some (unescape ((between? ['"'] raw).getD raw))

/-- How a character of a value is written in a one-line literal. -/
def encodeChar (c : Char) : Text :=
  if c = '\\' then ['\\', '\\']
  else if c = '"' then ['\\', '"']
  else if c = '\n' then ['\\', 'n']
  else if c = '\r' then ['\\', 'r']
  else if c = '\t' then ['\\', 't']
  else [c]

/-- The text of a one-line literal between its quotes. -/
def encodeContent (value : Text) : Text := value.flatMap encodeChar

/-- The one-line literal of a value. -/
def literalOf (value : Text) : Text := '"' :: encodeContent value ++ ['"']

end SqlInjection.Java
