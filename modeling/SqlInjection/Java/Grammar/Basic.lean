import SqlInjection.Java.Token

/-!
# Reading trees from tokens

A `Parse` reads a value off the front of a list of tokens or fails; a failed alternative takes
nothing. `close` makes a node of what was read since a token. The parts of Java that hold one
another, such as expressions and blocks, are collected in `Grammar`: each rule is written against a
`Grammar` for the parts one level down, so that the rules need no recursion of their own.
-/

namespace SqlInjection.Java

/-- Reads a value off the front of a list of tokens. -/
abbrev Parse := StateT (List Token) Option

namespace Parse

/-- The next token, which is not taken. -/
def peek : Parse Token := fun ts => ts.head?.map fun t => (t, ts)

/-- Takes the next token if it satisfies `p`. -/
def takeIf (p : Token → Bool) : Parse Token
  | t :: ts => if p t then some (t, ts) else none
  | [] => none

/-- Takes the given word. -/
def word (w : String) : Parse Unit := do let _ ← takeIf (·.isWord w)

/-- Takes the given symbol. -/
def symbol (s : String) : Parse Unit := do let _ ← takeIf (·.isSymbol s)

/-- Reads a list if there is one, and else the empty list. -/
def orEmpty {α : Type} (p : Parse (List α)) : Parse (List α) := p <|> pure []

/-- Whether `p` can be read next; takes it if so. -/
def test {α : Type} (p : Parse α) : Parse Bool := (p *> pure true) <|> pure false

/-- Reads values for as long as it can, at most `fuel` of them. -/
def manyUpTo {α : Type} (p : Parse α) : Nat → Parse (List α)
  | 0 => pure []
  | fuel + 1 => (do let a ← p; let as ← manyUpTo p fuel; pure (a :: as)) <|> pure []

/-- Reads values for as long as it can. Each takes a token, so there are no more of them than there
are tokens. -/
def many {α : Type} (p : Parse α) : Parse (List α) := fun ts => manyUpTo p ts.length ts

/-- Reads values for as long as it can, and at least one. -/
def some1 {α : Type} (p : Parse α) : Parse (List α) := do
  let a ← p
  let as ← many p
  pure (a :: as)

/-- Goes on from a value for as long as it can, at most `fuel` times. -/
def extendUpTo {α : Type} (step : α → Parse α) : Nat → α → Parse α
  | 0, a => pure a
  | fuel + 1, a => (step a >>= extendUpTo step fuel) <|> pure a

/-- Goes on from a value for as long as it can. -/
def extend {α : Type} (step : α → Parse α) (a : α) : Parse α :=
  fun ts => extendUpTo step ts.length a ts

/-- Reads values divided by a symbol, the first by a rule of its own. -/
def separatedFrom {α : Type} (s : String) (first rest : Parse α) : Parse (List α) := do
  let a ← first
  let as ← many (symbol s *> rest)
  pure (a :: as)

/-- Reads values divided by a symbol. -/
def separated {α : Type} (s : String) (p : Parse α) : Parse (List α) := separatedFrom s p p

/-- Reads a list of no or one value. -/
def maybe {α : Type} (p : Parse α) : Parse (List α) := orEmpty (do let a ← p; pure [a])

end Parse

open Parse

/-- The brace that opens a block. -/
def openBrace : String := "\x7b"

/-- The brace that closes a block. -/
def closeBrace : String := "\x7d"

/-! ## Nodes -/

/-- A node of what was read since `start`, with an operator. -/
def closeOperator (start : Token) (kind : Kind) (operator : Option Text) (children : List Node) :
    Parse Node := fun ts => do
  let next ← ts.head?
  let (text, _) ← Text.splitAt? start.source (next.previousStop - start.start)
  pure (⟨kind, none, ⟨start.start, next.previousStop⟩, text, operator, children⟩, ts)

/-- A node of what was read since `start`. -/
def close (start : Token) (kind : Kind) (children : List Node) : Parse Node :=
  closeOperator start kind none children

/-- A node of one token that satisfies `p`. -/
def leaf (kind : Kind) (p : Token → Bool) : Parse Node := do
  let t ← takeIf p
  pure ⟨kind, none, ⟨t.start, t.stop⟩, t.text, none, []⟩

/-! ## Names -/

/-- The words that are no names. -/
def reservedWords : List Text :=
  ["abstract", "assert", "boolean", "break", "byte", "case", "catch", "char", "class", "continue",
   "default", "do", "double", "else", "enum", "extends", "final", "finally", "float", "for", "if",
   "implements", "import", "instanceof", "int", "interface", "long", "native", "new", "package",
   "private", "protected", "public", "return", "short", "static", "strictfp", "super", "switch",
   "synchronized", "this", "throw", "throws", "transient", "try", "void", "volatile", "while",
   "true", "false", "null"].map String.toList

/-- Whether a token is a name. -/
def isName (t : Token) : Bool := t.kind == .word && !reservedWords.contains t.text

/-- A name. -/
def identifier : Parse Node := leaf .identifier isName

/-- A name, or names divided by points. -/
def qualifiedName : Parse Node := do
  let start ← peek
  let first ← identifier
  extend (fun scope => do
    symbol "."
    let name ← identifier
    close start .qualifiedName [scope, name.playing .name]) first

/-! ## The parts that hold one another -/

/-- Where an expression stands. -/
inductive Slot where
  /-- Before a token that goes on with what the expression belongs to. -/
  | inner
  /-- At the end of what the expression belongs to. -/
  | final
  /-- To the right of an operator. -/
  | operand
  /-- In a case label, where an arrow ends the expression. -/
  | label
  deriving DecidableEq, Repr

/-- Readers for the parts of Java that hold one another. A statement is a list because an empty
statement leaves no node. -/
structure Grammar where
  expression : Slot → Parse Node
  statement : Parse (List Node)
  block : Parse Node
  classBody : Parse Node
  declaration : Parse Node
  type : Parse Node
  elementValue : Parse Node

end SqlInjection.Java
