import SqlInjection.Text.Basic

/-!
# JSON values and their text

Values as they are written in reports and sent as feedback. Fields keep their order. `compact` writes
a value on one line, `pretty` with one item a line, each level two spaces further in.
-/

namespace SqlInjection

/-- A JSON value. -/
inductive JsonValue where
  | null
  | bool (b : Bool)
  | number (n : Nat)
  | text (t : Text)
  | list (items : List JsonValue)
  | fields (entries : List (String × JsonValue))
  deriving Repr, Inhabited

namespace JsonValue

/-- A value that may be missing. -/
def ofOption {α : Type} (f : α → JsonValue) : Option α → JsonValue
  | some a => f a
  | none => null

/-! ## Texts and numbers -/

/-- A digit to base sixteen. -/
def hexDigit (n : Nat) : Char := Nat.digitChar n

/-- A character inside a quoted text. Quotes, backslashes and control characters are escaped. -/
def escapeChar (c : Char) : Text :=
  if c = '"' then ['\\', '"']
  else if c = '\\' then ['\\', '\\']
  else if c = '\n' then ['\\', 'n']
  else if c = '\r' then ['\\', 'r']
  else if c = '\t' then ['\\', 't']
  else if c = Char.ofNat 8 then ['\\', 'b']
  else if c = Char.ofNat 12 then ['\\', 'f']
  else if c.toNat < 0x20 then
    ['\\', 'u', '0', '0', hexDigit (c.toNat / 16), hexDigit (c.toNat % 16)]
  else [c]

/-- A text in quotes. -/
def quoted (t : Text) : Text := '"' :: t.flatMap escapeChar ++ ['"']

/-- A value that holds no other, or nothing for one that may. -/
def atom? : JsonValue → Option Text
  | null => some "null".toList
  | bool b => some (if b then "true".toList else "false".toList)
  | number n => some (Nat.toDigits 10 n)
  | text t => some (quoted t)
  | list [] => some "[]".toList
  | fields [] => some ['{', '}']
  | _ => none

/-! ## On one line -/

mutual

/-- The value on one line. -/
def compact : JsonValue → Text
  | list items => '[' :: compactItems items ++ [']']
  | fields entries => '{' :: compactFields entries ++ ['}']
  | v => (atom? v).getD []

/-- Items divided by commas. -/
def compactItems : List JsonValue → Text
  | [] => []
  | [v] => compact v
  | v :: vs => compact v ++ ',' :: compactItems vs

/-- Fields divided by commas. -/
def compactFields : List (String × JsonValue) → Text
  | [] => []
  | [(k, v)] => quoted k.toList ++ ':' :: compact v
  | (k, v) :: rest => quoted k.toList ++ ':' :: compact v ++ ',' :: compactFields rest

end

/-! ## On lines -/

/-- The start of a line, `depth` levels in. -/
def newLine (depth : Nat) : Text := '\n' :: List.replicate (2 * depth) ' '

mutual

/-- The value with one item a line, where the value itself stands `depth` levels in. -/
def prettyAt (depth : Nat) : JsonValue → Text
  | list (v :: vs) => '[' :: prettyItems (depth + 1) (v :: vs) ++ newLine depth ++ [']']
  | fields (e :: es) => '{' :: prettyFields (depth + 1) (e :: es) ++ newLine depth ++ ['}']
  | v => (atom? v).getD []

/-- Items on lines of their own. -/
def prettyItems (depth : Nat) : List JsonValue → Text
  | [] => []
  | [v] => newLine depth ++ prettyAt depth v
  | v :: vs => newLine depth ++ prettyAt depth v ++ ',' :: prettyItems depth vs

/-- Fields on lines of their own. -/
def prettyFields (depth : Nat) : List (String × JsonValue) → Text
  | [] => []
  | [(k, v)] => newLine depth ++ quoted k.toList ++ ':' :: ' ' :: prettyAt depth v
  | (k, v) :: rest =>
    newLine depth ++ quoted k.toList ++ ':' :: ' ' :: prettyAt depth v ++
      ',' :: prettyFields depth rest

end

/-- The value with one item a line. -/
def pretty (v : JsonValue) : Text := prettyAt 0 v

end JsonValue

end SqlInjection
