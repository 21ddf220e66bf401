import SqlInjection.Java.Grammar.Types

/-!
# Expressions

Expressions are read by levels of precedence, from the loosest operator to the tightest, and below
them operands: prefixed, cast and plain ones, lambda expressions and assignments.
-/

namespace SqlInjection.Java

open Parse

/-! ## Literals and arguments -/

/-- A string. Expressions inside it are its children. -/
def stringLiteral (g : Grammar) : Parse Node :=
  leaf .stringLiteral (·.kind == .string) <|> do
    let start ← peek
    let _ ← takeIf (·.kind == .stringHead)
    let first ← g.expression .inner
    let more ← many (do let _ ← takeIf (·.kind == .stringMiddle); g.expression .inner)
    let _ ← takeIf (·.kind == .stringTail)
    close start .stringLiteral (first :: more)

/-- A literal. -/
def literal (g : Grammar) : Parse Node :=
  stringLiteral g <|> leaf .numberLiteral (·.kind == .number) <|>
    leaf .characterLiteral (·.kind == .character) <|> leaf .trueLiteral (·.isWord "true") <|>
    leaf .falseLiteral (·.isWord "false") <|> leaf .nullLiteral (·.isWord "null")

/-- Arguments in parentheses. -/
def argumentList (g : Grammar) : Parse Node := do
  let start ← peek
  symbol "("
  let found ← orEmpty (separatedFrom "," (g.expression .inner) (g.expression .final))
  symbol ")"
  close start .arguments found

/-- An expression in parentheses. -/
def parenthesized (g : Grammar) : Parse Node := do
  let start ← peek
  symbol "("
  let inside ← g.expression .inner
  symbol ")"
  close start .parenthesized [inside]

/-! ## Creations -/

/-- What stands after `new` where an object is created. -/
def creationParts (g : Grammar) : Parse (List Node) := do
  let arguments ← maybe (typeArguments g)
  let annotations ← many (annotationOf g)
  let type ← simpleType g
  let actual ← argumentList g
  let body ← maybe g.classBody
  pure (arguments ++ annotations ++
    type.playing .type :: actual.playing .arguments :: body)

/-- What stands after `new` where an array is created. -/
def arrayParts (g : Grammar) : Parse (List Node) := do
  let annotations ← many (annotationOf g)
  let type ← simpleType g
  let sized : Parse (List Node) := do
    let sizes ← some1 (do
      symbol "["
      let size ← g.expression .inner
      symbol "]"
      pure size)
    let dims ← maybe (dimensions g)
    pure (sizes ++ dims)
  let filled : Parse (List Node) := do
    let dims ← dimensions g
    let value ← initialValue g .final
    pure [dims, value.playing .value]
  let rest ← sized <|> filled
  pure (annotations ++ type.playing .type :: rest)

/-- The creation of an object or an array. -/
def creation (g : Grammar) : Parse Node := do
  let start ← peek
  word "new"
  (creationParts g >>= close start .creation) <|> (arrayParts g >>= close start .arrayCreation)

/-! ## Switches -/

/-- A part of a record pattern, nested no deeper than `fuel`. -/
def patternPart (g : Grammar) : Nat → Parse Node
  | 0 => failure
  | fuel + 1 =>
    (do
      let start ← peek
      let type ← namedType g
      symbol "("
      let parts ← orEmpty (separated "," (patternPart g fuel))
      symbol ")"
      close start .pattern (type :: parts)) <|>
    (do
      let start ← peek
      let type ← plainType g
      let name ← identifier
      close start .pattern [type, name]) <|>
    leaf .pattern (·.isWord "_")

/-- A pattern that takes a record apart. -/
def recordPattern (g : Grammar) : Parse Node := fun ts =>
  (do
    let start ← peek
    let type ← namedType g
    symbol "("
    let parts ← orEmpty (separated "," (patternPart g ts.length))
    symbol ")"
    close start .pattern (type :: parts) : Parse Node) ts

/-- A pattern that tests a type and names the value. The word that starts a guard is no such
name. -/
def typePattern (g : Grammar) : Parse Node := do
  let start ← peek
  let type ← plainType g
  let name ← leaf .identifier fun t => isName t && !t.isWord "when"
  close start .pattern [type, name]

/-- The end of a case label, where an arrow or a colon follows. -/
def labelEnd : Parse Unit := do
  let t ← peek
  if t.isSymbol "->" || t.isSymbol ":" then pure () else failure

/-- A condition on a case label. -/
def guardClause (g : Grammar) : Parse Node := do
  let start ← peek
  word "when"
  let condition ← g.expression .label
  close start .guard [condition]

/-- The label of a case. -/
def switchLabel (g : Grammar) : Parse Node := do
  let start ← peek
  let patterns : Parse (List Node) := do
    word "case"
    let pattern ← recordPattern g <|> typePattern g
    let guards ← maybe (guardClause g)
    labelEnd
    pure (pattern :: guards)
  let values : Parse (List Node) := do
    word "case"
    let values ← separated "," ((some <$> g.expression .label) <|> (do word "default"; pure none))
    let guards ← maybe (guardClause g)
    labelEnd
    pure (values.filterMap id ++ guards)
  let children ← patterns <|> values <|> (do word "default"; pure [])
  close start .switchLabel children

/-- A throw statement. -/
def throwStatement (g : Grammar) : Parse Node := do
  let start ← peek
  word "throw"
  let value ← g.expression .inner
  symbol ";"
  close start .statement [value]

/-- An expression that stands as a statement. -/
def expressionStatement (g : Grammar) : Parse Node := do
  let start ← peek
  let value ← g.expression .inner
  symbol ";"
  close start .expressionStatement [value]

/-- A case that is one rule. -/
def switchRule (g : Grammar) : Parse Node := do
  let start ← peek
  let label ← switchLabel g
  symbol "->"
  let body ← throwStatement g <|> g.block <|> expressionStatement g
  close start .switchRule [label, body]

/-- A case that is a list of statements. -/
def switchGroup (g : Grammar) : Parse Node := do
  let start ← peek
  let labels ← some1 (do let l ← switchLabel g; symbol ":"; pure l)
  let statements ← many g.statement
  close start .switchGroup (labels ++ statements.flatten)

/-- The cases of a switch. -/
def switchBlock (g : Grammar) : Parse Node := do
  let start ← peek
  symbol openBrace
  let cases ← some1 (switchRule g) <|> many (switchGroup g)
  symbol closeBrace
  close start .switchBlock cases

/-- A switch. -/
def switchOf (g : Grammar) : Parse Node := do
  let start ← peek
  word "switch"
  let value ← parenthesized g
  let cases ← switchBlock g
  close start .switch [value, cases.playing .body]

/-! ## Primary expressions -/

/-- What a reference to a method names: a method, or the creation of an object. -/
def referenceTarget (g : Grammar) : Parse (List Node) := do
  symbol "::"
  let arguments ← maybe (typeArguments g)
  let name ← (do word "new"; pure []) <|> (do let n ← identifier; pure [n])
  pure (arguments ++ name)

/-- A type where an expression may stand: before `::` or before `.class`. -/
def typeExpression (g : Grammar) : Parse Node := do
  let start ← peek
  let type ← plainType g
  (do
    let target ← referenceTarget g
    close start .methodReference (type :: target)) <|>
  (do
    symbol "."
    word "class"
    close start .classLiteral [type])

/-- A name, or a call by a name. -/
def nameOrCall (g : Grammar) : Parse Node := do
  let start ← peek
  let name ← identifier
  match ← optional (argumentList g) with
  | some actual => close start .call [name.playing .name, actual.playing .arguments]
  | none => pure name

/-- The keyword for the object of the surrounding class. -/
def thisNode : Parse Node := leaf .thisRef (·.isWord "this")

/-- The keyword for the object of the surrounding class as one of the class above. -/
def superNode : Parse Node := leaf .superRef (·.isWord "super")

/-- What stands after an object and a point, where a member is named: a call or a field. -/
def memberOf (g : Grammar) (start : Token) (object : Node) (between : List Node) : Parse Node := do
  let arguments ← maybe (typeArguments g)
  let name ← identifier
  match ← optional (argumentList g) with
  | some actual =>
    close start .call (object.playing .object :: between ++ arguments ++
      [name.playing .name, actual.playing .arguments])
  | none =>
    if arguments.isEmpty then
      close start .fieldAccess (object.playing .object :: between ++ [name.playing .field])
    else failure

/-- What may stand after a primary expression and a point. -/
def afterPoint (g : Grammar) (start : Token) (object : Node) : Parse Node :=
  memberOf g start object [] <|>
    (do
      let above ← superNode
      symbol "."
      memberOf g start object [above]) <|>
    (do
      let this ← thisNode
      close start .fieldAccess [object.playing .object, this.playing .field]) <|>
    (do
      word "new"
      let parts ← creationParts g
      close start .creation (object :: parts)) <|>
    (do
      word "class"
      close start .classLiteral [object]) <|>
    (do
      let text ← stringLiteral g
      close start .template [object, text])

/-- Goes on with a primary expression by one step. -/
def primaryStep (g : Grammar) (start : Token) (object : Node) : Parse Node :=
  (do
    symbol "."
    afterPoint g start object) <|>
  (do
    symbol "["
    let index ← g.expression .inner
    symbol "]"
    close start .arrayAccess [object, index]) <|>
  (do
    let target ← referenceTarget g
    close start .methodReference (object :: target))

/-- The keyword `super` with the member it names. -/
def superMember (g : Grammar) : Parse Node := do
  let start ← peek
  let above ← superNode
  (do
    symbol "."
    memberOf g start above []) <|>
  (do
    let target ← referenceTarget g
    close start .methodReference (above :: target))

/-- A primary expression. -/
def primary (g : Grammar) : Parse Node := do
  let start ← peek
  let first ← literal g <|> typeExpression g <|> nameOrCall g <|> thisNode <|> superMember g <|>
    creation g <|> parenthesized g
  extend (primaryStep g start) first

/-! ## Operators -/

/-- The operator that starts at the next token. Signs that stand for greater-than make one operator
with what touches them. -/
def operatorText : Parse Text := do
  let first ← takeIf (·.kind == .symbol)
  if first.text = ['>'] then
    let (text, _) ← extend (fun (text, stop) => do
      let t ← takeIf fun t => t.start == stop && (t.isSymbol ">" || t.isSymbol "=") &&
        (text == ['>'] || text == ['>', '>'] || (text == ['>', '>', '>'] && t.isSymbol "="))
      pure (text ++ t.text, t.stop)) (first.text, first.stop)
    pure text
  else pure first.text

/-- One of the given operators. -/
def operatorAmong (operators : List String) : Parse Text := do
  let o ← operatorText
  if operators.any (·.toList == o) then pure o else failure

/-- The operators that assign. -/
def assignmentOperators : List String :=
  ["=", "+=", "-=", "*=", "/=", "&=", "|=", "^=", "%=", "<<=", ">>=", ">>>="]

/-- The operators with two operands, from the loosest level to the tightest. -/
def binaryLevels : List (List String) :=
  [["||"], ["&&"], ["|"], ["^"], ["&"], ["==", "!="], ["<", ">", "<=", ">="], ["<<", ">>", ">>>"],
   ["+", "-"], ["*", "/", "%"]]

/-! ## Operands -/

/-- The parameters of a lambda expression. A name stands without parentheses. -/
def lambdaParameters (g : Grammar) : Parse Node := identifier <|> inferredParameters <|> parameterList g

/-- A lambda expression. -/
def lambda (g : Grammar) : Parse Node := do
  let start ← peek
  let params ← lambdaParameters g
  symbol "->"
  let body ← g.block <|> g.expression .final
  close start .lambda [params.playing .parameters, body.playing .body]

/-- Whether an expression that is no number may start with a token. -/
def startsCastValue (t : Token) : Bool :=
  match t.kind with
  | .word => isName t || ["true", "false", "null", "this", "super", "new", "switch"].any t.isWord ||
      primitiveTypes.any t.isWord
  | .symbol => ["(", "!", "~"].any t.isSymbol
  | .finish | .stringMiddle | .stringTail => false
  | _ => true

/-- Goes on if a cast to a type may end here. After a word that is a type any operand follows; after
a name a sign belongs to a sum. -/
def castEnd (types : List Node) : Parse Unit := do
  let t ← peek
  let primitive := types.any fun n => primitiveTypes.any (·.toList == n.text)
  if primitive || startsCastValue t then pure () else failure

/-- A cast of the operand that `operand` reads. -/
def castOf (g : Grammar) (operand : Parse Node) : Parse Node := do
  let start ← peek
  symbol "("
  let types ← separated "&" g.type
  symbol ")"
  castEnd types
  let value ← operand
  close start .cast (types.map (·.playing .type) ++ [value.playing .value])

/-- Goes on if a name in parentheses, a sign and an operand are a cast and not a sum. They are one
at the start of an expression, if no operator takes the operand from the sum; where the expression
ends what it belongs to, they are one only if an operator follows. -/
def signedCastEnd (slot : Slot) : Parse Unit := do
  let t ← peek
  let among (levels : List (List String)) : Bool := levels.any (·.any t.isSymbol)
  let follows := among binaryLevels || t.isSymbol "?" || t.isWord "instanceof"
  if among [["*", "/", "%"]] then failure
  else match slot with
    | .inner => pure ()
    | .final => if follows then pure () else failure
    | .operand | .label => failure

/-- A cast to a name of an operand with a sign, which `operand` reads. -/
def signedCastOf (g : Grammar) (slot : Slot) (operand : Parse Node) : Parse Node := do
  let start ← peek
  symbol "("
  let type ← namedType g
  symbol ")"
  let sign ← peek
  if sign.isSymbol "+" || sign.isSymbol "-" then
    let value ← operand
    signedCastEnd slot
    close start .cast [type.playing .type, value.playing .value]
  else failure

/-- Whether an assignment may have the node on its left side. -/
def isAssignable (n : Node) : Bool :=
  n.kind == .identifier || n.kind == .fieldAccess || n.kind == .arrayAccess

/-- Goes on with a primary expression to an assignment or to an operator after it. -/
def afterPrimary (g : Grammar) (start : Token) (target : Node) : Parse Node :=
  (do
    let operator ← operatorAmong assignmentOperators
    if isAssignable target then
      let value ← g.expression .final
      closeOperator start .assignment (some operator) [target.playing .left, value.playing .right]
    else failure) <|>
  extend (fun n => do
    symbol "++" <|> symbol "--"
    close start .update [n]) target

/-- An operand; `fuel` bounds how many operators stand in front of it. In a case label an arrow
belongs to the label. -/
def operandUpTo (g : Grammar) (slot : Slot) : Nat → Parse Node
  | 0 => failure
  | fuel + 1 => do
    let start ← peek
    if ["+", "-", "!", "~"].any start.isSymbol then
      let _ ← operatorText
      let value ← operandUpTo g .operand fuel
      close start .unary [value]
    else if ["++", "--"].any start.isSymbol then
      let _ ← operatorText
      let value ← operandUpTo g .operand fuel
      close start .update [value]
    else
      (if slot = .label then failure else lambda g) <|>
        castOf g (operandUpTo g .operand fuel) <|>
        signedCastOf g slot (operandUpTo g .operand fuel) <|> switchOf g <|>
        (do
          let first ← primary g
          afterPrimary g start first)

/-- An operand; no more operators stand in front of it than there are tokens. -/
def operand (g : Grammar) (slot : Slot) : Parse Node := fun ts => operandUpTo g slot ts.length ts

/-! ## Levels of precedence -/

/-- A test of a type, after the value. -/
def instanceTest (g : Grammar) (start : Token) (value : Node) : Parse Node := do
  word "instanceof"
  let _ ← optional (word "final")
  (do
    let pattern ← recordPattern g
    close start .instanceTest [value, pattern]) <|>
  (do
    let type ← g.type
    let name ← maybe identifier
    close start .instanceTest (value :: type :: name))

/-- An expression with operators of the given levels. Operators of one level group to the left. -/
def binaryExpression (g : Grammar) : List (List String) → Slot → Parse Node
  | [], slot => operand g slot
  | operators :: tighter, slot => do
    let start ← peek
    let first ← binaryExpression g tighter slot
    let right := if slot = .label then Slot.label else Slot.operand
    extend (fun left =>
      (do
        let operator ← operatorAmong operators
        let value ← binaryExpression g tighter right
        closeOperator start .binary (some operator)
          [left.playing .left, value.playing .right]) <|>
      (if operators.contains "<" then instanceTest g start left else failure)) first

/-- An expression. The condition of a choice is all that stands before its question mark. -/
def expressionOf (g : Grammar) (slot : Slot) : Parse Node := do
  let start ← peek
  let condition ← binaryExpression g binaryLevels slot
  (do
    symbol "?"
    let yes ← g.expression .inner
    symbol ":"
    let no ← g.expression (if slot = .label then .label else .final)
    close start .ternary [condition, yes, no]) <|> pure condition

end SqlInjection.Java
