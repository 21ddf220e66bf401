import SqlInjection.Java.Tree
import SqlInjection.Text.Blank

/-!
# Java tokens

The tokens of a Java source. `tokenize` gives the tokens in order, with one for the end of the
source, and the comments between them.

Two things are left to the reader of the tokens. A greater-than sign is always a token by itself,
because two of them close two lists of type arguments as often as they shift. A string with
expressions inside it is cut at those: its pieces are tokens of their own, and the tokens of the
expressions stand between them.
-/

namespace SqlInjection.Java

/-- The kinds of tokens. -/
inductive TokenKind where
  /-- A name or a keyword. -/
  | word
  | number
  | character
  | string
  /-- A piece of a string, up to the first expression inside it. -/
  | stringHead
  /-- A piece of a string between two expressions inside it. -/
  | stringMiddle
  /-- A piece of a string after the last expression inside it. -/
  | stringTail
  | symbol
  | finish
  deriving DecidableEq, Repr, Inhabited

/-- A token of a source. -/
structure Token where
  kind : TokenKind
  text : Text
  /-- The byte offset of its first character. -/
  start : Nat
  /-- The byte offset where the token before it ends. -/
  previousStop : Nat
  /-- The source from the token on. -/
  source : Text
  deriving Repr, Inhabited

namespace Token

/-- The byte offset where the token ends. -/
def stop (t : Token) : Nat := t.start + Text.byteSize t.text

/-- Whether the token is the given word. -/
def isWord (t : Token) (w : String) : Bool := t.kind == .word && t.text == w.toList

/-- Whether the token is the given symbol. -/
def isSymbol (t : Token) (s : String) : Bool := t.kind == .symbol && t.text == s.toList

end Token

/-! ## Scanners -/

/-- A character that may start a name. -/
def isNameStart (c : Char) : Bool :=
  c.isAlpha || c == '_' || c == '$' || (c.toNat ≥ 0x80 && !Text.isBlank c)

/-- A character that may go on with a name. -/
def isNamePart (c : Char) : Bool := isNameStart c || c.isDigit

/-- Splits a text before the first character that does not satisfy `p`. -/
def spanOf (p : Char → Bool) (t : Text) : Text × Text := (t.takeWhile p, t.dropWhile p)

/-- A digit, or a character that divides digits. -/
def isDigitPart (c : Char) : Bool := c.isDigit || c == '_'

/-- A digit to base sixteen, or a character that divides digits. -/
def isHexPart (c : Char) : Bool :=
  c.isDigit || ('a' ≤ c && c ≤ 'f') || ('A' ≤ c && c ≤ 'F') || c == '_'

/-- Splits off one character of the given ones. -/
def takeOne (cs : List Char) : Text → Text × Text
  | c :: t => if cs.contains c then ([c], t) else ([], c :: t)
  | [] => ([], [])

/-- Splits off an exponent that starts with one of the given letters. -/
def takeExponent (letters : List Char) (t : Text) : Text × Text :=
  match takeOne letters t with
  | ([], _) => ([], t)
  | (e, t₁) =>
    let (sign, t₂) := takeOne ['+', '-'] t₁
    let (digits, t₃) := spanOf isDigitPart t₂
    if digits.isEmpty then ([], t) else (e ++ sign ++ digits, t₃)

/-- Splits off a point and the digits after it. -/
def takeFraction (p : Char → Bool) : Text → Text × Text
  | '.' :: t =>
    let (digits, rest) := spanOf p t
    ('.' :: digits, rest)
  | t => ([], t)

/-- Splits off a number literal. -/
def takeNumber (t : Text) : Text × Text :=
  let (radix, t₁) :=
    match t with
    | '0' :: x :: t' => if x == 'x' || x == 'X' then (['0', x], t') else ([], t)
    | _ => ([], t)
  let digit := if radix.isEmpty then isDigitPart else isHexPart
  let (whole, t₂) := spanOf digit t₁
  -- a binary literal has a letter after its first digit
  let (mark, t₂) := if whole == ['0'] then takeOne ['b', 'B', 'o', 'O'] t₂ else ([], t₂)
  let (more, t₂) := if mark.isEmpty then ([], t₂) else spanOf isDigitPart t₂
  let (fraction, t₃) := takeFraction digit t₂
  let (exponent, t₄) := takeExponent (if radix.isEmpty then ['e', 'E', 'p', 'P'] else ['p', 'P']) t₃
  let (suffix, t₅) := takeOne ['l', 'L', 'f', 'F', 'd', 'D'] t₄
  (radix ++ whole ++ mark ++ more ++ fraction ++ exponent ++ suffix, t₅)

/-- How a piece of a string ends. -/
inductive StringEnd where
  | closed
  /-- At an expression inside the string. -/
  | expression
  | unclosed
  deriving DecidableEq, Repr

/-- Splits off a piece of a string after its opening: up to its closing quotes, which are three for
a text block, or up to an expression inside it. -/
def takeString (block : Bool) : Text → Text × StringEnd × Text
  | [] => ([], .unclosed, [])
  | '\\' :: '{' :: t => (['\\', '{'], .expression, t)
  | '\\' :: c :: t =>
    let (s, e, r) := takeString block t
    ('\\' :: c :: s, e, r)
  | '"' :: '"' :: '"' :: t => if block then (['"', '"', '"'], .closed, t) else (['"'], .closed, '"' :: '"' :: t)
  | '"' :: t =>
    if block then
      let (s, e, r) := takeString block t
      ('"' :: s, e, r)
    else (['"'], .closed, t)
  | c :: t =>
    let (s, e, r) := takeString block t
    (c :: s, e, r)

/-- Splits off a character literal after its opening quote. -/
def takeCharacter : Text → Text × Text
  | [] => ([], [])
  | '\\' :: c :: t =>
    let (s, r) := takeCharacter t
    ('\\' :: c :: s, r)
  | '\'' :: t => (['\''], t)
  | c :: t =>
    let (s, r) := takeCharacter t
    (c :: s, r)

/-- Splits off a block comment after its opening. -/
def takeBlockComment : Text → Text × Text
  | [] => ([], [])
  | '*' :: '/' :: t => (['*', '/'], t)
  | c :: t =>
    let (s, r) := takeBlockComment t
    (c :: s, r)

/-- The symbols of more than one character, a longer one before those it starts with. -/
def longSymbols : List Text :=
  ["...", "<<=", "->", "::", "++", "--", "&&", "||", "==", "!=", "<=", "<<", "+=", "-=", "*=", "/=",
   "&=", "|=", "^=", "%="].map String.toList

/-- Splits off a symbol. -/
def takeSymbol (t : Text) : Text × Text :=
  match longSymbols.findSome? fun s => (Text.stripPrefix? s t).map fun r => (s, r) with
  | some found => found
  | none => (t.take 1, t.drop 1)

/-! ## The tokens of a source -/

/-- An expression inside a string that is being read: how many braces are open in it, and whether
the string is a text block. -/
structure Hole where
  braces : Nat
  block : Bool
  deriving DecidableEq, Repr

/-- Tokens and comments. -/
structure Lexemes where
  tokens : List Token
  comments : List Node
  deriving Repr

/-- The tokens of the string piece `opening ++ rest`, by how it ends. -/
def stringToken (block first : Bool) (e : StringEnd) : TokenKind × List Hole → TokenKind × List Hole
  | (_, holes) =>
    match e, first with
    | .expression, true => (.stringHead, ⟨0, block⟩ :: holes)
    | .expression, false => (.stringMiddle, ⟨0, block⟩ :: holes)
    | _, true => (.string, holes)
    | _, false => (.stringTail, holes)

/-- The next token of a source that starts with no blank and no comment: its kind, its text, what
follows, and the expressions inside strings that are open after it. -/
def nextToken (holes : List Hole) (t : Text) : TokenKind × Text × Text × List Hole :=
  match t with
  | '"' :: '"' :: '"' :: r =>
    let (s, e, r) := takeString true r
    let (kind, holes) := stringToken true true e (.string, holes)
    (kind, '"' :: '"' :: '"' :: s, r, holes)
  | '"' :: r =>
    let (s, e, r) := takeString false r
    let (kind, holes) := stringToken false true e (.string, holes)
    (kind, '"' :: s, r, holes)
  | '\'' :: r =>
    let (s, r) := takeCharacter r
    (.character, '\'' :: s, r, holes)
  | '}' :: r =>
    match holes with
    | ⟨0, block⟩ :: outer =>
      let (s, e, r) := takeString block r
      let (kind, holes) := stringToken block false e (.stringTail, outer)
      (kind, '}' :: s, r, holes)
    | ⟨n + 1, block⟩ :: outer => (.symbol, ['}'], r, ⟨n, block⟩ :: outer)
    | [] => (.symbol, ['}'], r, [])
  | '{' :: r =>
    match holes with
    | ⟨n, block⟩ :: outer => (.symbol, ['{'], r, ⟨n + 1, block⟩ :: outer)
    | [] => (.symbol, ['{'], r, [])
  | c :: r =>
    if isNameStart c then
      let (s, r) := spanOf isNamePart (c :: r)
      (.word, s, r, holes)
    else if c.isDigit || (c == '.' && (r.head?.map Char.isDigit).getD false) then
      let (s, r) := takeNumber (c :: r)
      (.number, s, r, holes)
    else
      let (s, r) := takeSymbol (c :: r)
      (.symbol, s, r, holes)
  | [] => (.finish, [], [], holes)

/-- A comment as a node. -/
def commentNode (kind : Kind) (start : Nat) (text : Text) : Node :=
  ⟨kind, none, ⟨start, start + Text.byteSize text⟩, text, none, []⟩

/-- The tokens and comments of a source from byte offset `start` on, where the token before ended at
`previous`. Each step takes at least one character, so `fuel` of one more than there are characters
is enough. -/
def tokenizeFrom : Nat → Nat → Nat → List Hole → Text → Lexemes
  | 0, _, _, _, _ => ⟨[], []⟩
  | fuel + 1, start, previous, holes, t =>
    let comment (kind : Kind) (text rest : Text) : Lexemes :=
      let found := tokenizeFrom fuel (start + Text.byteSize text) previous holes rest
      { found with comments := commentNode kind start text :: found.comments }
    match t with
    | [] => ⟨[⟨.finish, [], start, previous, []⟩], []⟩
    | '/' :: '/' :: r =>
      let (s, rest) := spanOf (· != '\n') r
      comment .lineComment ('/' :: '/' :: s) rest
    | '/' :: '*' :: r =>
      let (s, rest) := takeBlockComment r
      comment .blockComment ('/' :: '*' :: s) rest
    | c :: r =>
      if Text.isBlank c then tokenizeFrom fuel (start + c.utf8Size) previous holes r
      else
        let (kind, s, rest, holes) := nextToken holes (c :: r)
        let stop := start + Text.byteSize s
        let found := tokenizeFrom fuel stop stop holes rest
        { found with tokens := ⟨kind, s, start, previous, c :: r⟩ :: found.tokens }

/-- The mark some editors put at the start of a source. -/
def byteOrderMark : Char := Char.ofNat 0xFEFF

/-- The tokens and comments of a source. A byte order mark at its start is passed over. -/
def tokenize (source : Text) : Lexemes :=
  match source with
  | c :: t =>
    if c = byteOrderMark then tokenizeFrom (t.length + 1) c.utf8Size 0 [] t
    else tokenizeFrom (t.length + 2) 0 0 [] (c :: t)
  | [] => tokenizeFrom 1 0 0 [] []

end SqlInjection.Java
