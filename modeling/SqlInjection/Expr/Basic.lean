import SqlInjection.Text.Blank

/-!
# String-building expressions

The expressions the inspections reason over: literals, references with what they resolve to, chains
of one binary operator, calls, and anything else as an unknown value. Each keeps the text it was
written as and where that stands.

The constructors `Expr.ofText`, `Expr.ofChain` and so on build expressions that stand nowhere in
particular, with the text they would be written as.
-/

namespace SqlInjection

/-- How an expression is written, and where. -/
structure Written where
  text : Text
  span : Span
  deriving DecidableEq, Repr, Inhabited

/-- The value of a literal. -/
inductive LiteralValue where
  /-- A string, with its escapes decoded. -/
  | text (value : Text)
  /-- A number as it is written. -/
  | number (digits : Text)
  | bool (value : Bool)
  /-- A character as it is written, quotes included. -/
  | char (quoted : Text)
  | null
  deriving DecidableEq, Repr

/-- What a name refers to. -/
inductive RefKind where
  /-- A local variable or a parameter. -/
  | variable
  | field
  deriving DecidableEq, Repr

/-- A string-building expression. -/
inductive Expr where
  | literal (value : LiteralValue) (written : Written)
  /-- A reference, with its declared type and the value it is known to have. -/
  | ref (kind : RefKind) (name : Text) (type : Option Text) (value : Option Expr)
      (written : Written)
  /-- The operands of a chain of one binary operator, from left to right. -/
  | chain (operator : Text) (operands : List Expr) (written : Written)
  /-- A method call, or the creation of an object when `creates` holds. -/
  | call (receiver : Option Expr) (name : Text) (args : List Expr) (creates : Bool)
      (written : Written)
  /-- A value of which at most the type is known. -/
  | unknown (type : Option Text) (written : Written)
  deriving Repr

namespace Expr

/-- How the expression is written, and where. -/
def written : Expr → Written
  | literal _ w | ref _ _ _ _ w | chain _ _ w | call _ _ _ _ w | unknown _ w => w

/-- The text the expression is written as. -/
def sourceText (e : Expr) : Text := e.written.text

/-- Where the expression stands. -/
def span (e : Expr) : Span := e.written.span

/-- The expression with another text. -/
def withText (t : Text) : Expr → Expr
  | literal v w => literal v { w with text := t }
  | ref k n ty v w => ref k n ty v { w with text := t }
  | chain op es w => chain op es { w with text := t }
  | call r n as c w => call r n as c { w with text := t }
  | unknown ty w => unknown ty { w with text := t }

/-- The value of a string literal. -/
def literalText? : Expr → Option Text
  | literal (.text v) _ => some v
  | _ => none

/-- The operator of concatenation. -/
def plus : Text := ['+']

/-- Whether the expression is a chain of concatenations. -/
def isPlusChain : Expr → Bool
  | chain op _ _ => op == plus
  | _ => false

/-- Whether the expression is a call or a creation. -/
def isCall : Expr → Bool
  | call .. => true
  | _ => false

/-! ## Expressions that stand nowhere -/

/-- A text that stands nowhere. -/
def nowhere (t : Text) : Written := ⟨t, ⟨0, 0⟩⟩

/-- A string literal. -/
def ofText (v : Text) : Expr :=
  literal (.text v) (nowhere ('"' :: Text.replace ['"'] ['\\', '"'] v ++ ['"']))

/-- A literal of another kind, written as it is. -/
def ofLiteral (v : LiteralValue) : Expr :=
  literal v (nowhere
    (match v with
      | .text t | .number t | .char t => t
      | .bool b => if b then "true".toList else "false".toList
      | .null => "null".toList))

/-- A reference, written as its name. -/
def ofRef (kind : RefKind) (name : Text) (type : Option Text) (value : Option Expr) : Expr :=
  ref kind name type value (nowhere name)

/-- A chain, written with plus signs between its operands. -/
def ofChain (operator : Text) (operands : List Expr) : Expr :=
  chain operator operands (nowhere (Text.join " + ".toList (operands.map sourceText)))

/-- A call, written with its receiver and its arguments. -/
def ofCall (receiver : Option Expr) (name : Text) (args : List Expr) (creates : Bool) : Expr :=
  let shown := name ++ '(' :: Text.join ", ".toList (args.map sourceText) ++ [')']
  call receiver name args creates
    (nowhere (match receiver with
      | some r => r.sourceText ++ '.' :: shown
      | none => shown))

/-- A value of unknown type. -/
def ofUnknown (type : Option Text) (t : Text) : Expr := unknown type (nowhere t)

end Expr

end SqlInjection
