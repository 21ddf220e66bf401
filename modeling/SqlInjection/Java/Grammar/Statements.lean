import SqlInjection.Java.Grammar.Expressions

/-!
# Statements
-/

namespace SqlInjection.Java

open Parse

/-- A node for the statement that `parts` reads. -/
def statementNode (parts : Parse (List Node)) : Parse Node := do
  let start ← peek
  let children ← parts
  close start .statement children

/-- Statements in braces. -/
def blockOf (g : Grammar) : Parse Node := do
  let start ← peek
  symbol openBrace
  let statements ← many g.statement
  symbol closeBrace
  close start .block statements.flatten

/-! ## Variables -/

/-- Declared local variables. -/
def localVariables (g : Grammar) : Parse Node := do
  let start ← peek
  let mods ← maybe (modifiers g)
  let type ← plainType g
  let declared ← declarators g
  symbol ";"
  close start .localVariables (mods ++ type.playing .type :: declared)

/-! ## Choices and loops -/

/-- A choice by a condition. -/
def ifStatement (g : Grammar) : Parse Node := statementNode do
  word "if"
  let condition ← parenthesized g
  let yes ← g.statement
  let no ← orEmpty (word "else" *> g.statement)
  pure (condition :: yes ++ no)

/-- A loop with the condition in front. -/
def whileStatement (g : Grammar) : Parse Node := statementNode do
  word "while"
  let condition ← parenthesized g
  let body ← g.statement
  pure (condition :: body.map (·.playing .body))

/-- A loop with the condition at the end. -/
def doStatement (g : Grammar) : Parse Node := statementNode do
  word "do"
  let body ← g.statement
  word "while"
  let condition ← parenthesized g
  symbol ";"
  pure (body.map (·.playing .body) ++ [condition])

/-- A loop over the elements of a collection. -/
def enhancedFor (g : Grammar) : Parse Node := do
  let start ← peek
  word "for"
  symbol "("
  let mods ← maybe (modifiers g)
  let type ← plainType g
  let name ← declaredName g
  symbol ":"
  let value ← g.expression .inner
  symbol ")"
  let body ← g.statement
  close start .enhancedFor
    (mods ++ type.playing .type :: name ++ value.playing .value :: body.map (·.playing .body))

/-- Expressions divided by commas, or none. -/
def expressionList (g : Grammar) : Parse (List Node) :=
  orEmpty (separatedFrom "," (g.expression .inner) (g.expression .final))

/-- A loop with a start, a condition and a step. -/
def forStatement (g : Grammar) : Parse Node := statementNode do
  word "for"
  symbol "("
  let first ← (do let v ← localVariables g; pure [v]) <|> (do
    let values ← expressionList g
    symbol ";"
    pure values)
  let condition ← maybe (g.expression .inner)
  symbol ";"
  let steps ← expressionList g
  symbol ")"
  let body ← g.statement
  pure (first ++ condition ++ steps ++ body.map (·.playing .body))

/-! ## Exceptions and resources -/

/-- The types that a clause catches. -/
def catchTypes (g : Grammar) : Parse Node := do
  let start ← peek
  let types ← separated "|" (plainType g)
  close start .typeList types

/-- The variable of a clause that catches. Its types play no part by which they can be found. -/
def catchParameter (g : Grammar) : Parse Node := do
  let start ← peek
  let mods ← maybe (modifiers g)
  let types ← catchTypes g
  let name ← declaredName g
  close start .catchParameter (mods ++ types :: name)

/-- A clause that catches. -/
def catchClause (g : Grammar) : Parse Node := do
  let start ← peek
  word "catch"
  symbol "("
  let caught ← catchParameter g
  symbol ")"
  let body ← g.block
  close start .catchClause [caught, body.playing .body]

/-- The clause that always runs. -/
def finallyClause (g : Grammar) : Parse Node := do
  let start ← peek
  word "finally"
  let body ← g.block
  close start .finallyClause [body]

/-- A resource: a declared one, or an expression that names one. -/
def resource (g : Grammar) : Parse Node := do
  let start ← peek
  (do
    let mods ← maybe (modifiers g)
    let type ← plainType g
    let name ← declaredName g
    symbol "="
    let value ← g.expression .final
    close start .resource (mods ++ type.playing .type :: name ++ [value.playing .value])) <|>
  (do
    let value ← primary g
    close start .resource [value])

/-- The resources of a statement that closes them. -/
def resources (g : Grammar) : Parse Node := do
  let start ← peek
  symbol "("
  let found ← separated ";" (resource g)
  let _ ← optional (symbol ";")
  symbol ")"
  close start .resources found

/-- A statement that catches or closes. -/
def tryStatement (g : Grammar) : Parse Node := statementNode do
  word "try"
  let held ← maybe (resources g)
  let body ← g.block
  let catches ← many (catchClause g)
  let last ← maybe (finallyClause g)
  pure (held ++ body.playing .body :: catches ++ last)

/-! ## Other statements -/

/-- A statement of a word and an optional name. -/
def jumpStatement (w : String) : Parse Node := statementNode do
  word w
  let label ← maybe identifier
  symbol ";"
  pure label

/-- A return. -/
def returnStatement (g : Grammar) : Parse Node := statementNode do
  word "return"
  let value ← maybe (g.expression .inner)
  symbol ";"
  pure value

/-- The value of a switch. -/
def yieldStatement (g : Grammar) : Parse Node := statementNode do
  word "yield"
  let value ← g.expression .inner
  symbol ";"
  pure [value]

/-- An assertion. -/
def assertStatement (g : Grammar) : Parse Node := statementNode do
  word "assert"
  let condition ← g.expression .inner
  let detail ← maybe (symbol ":" *> g.expression .inner)
  symbol ";"
  pure (condition :: detail)

/-- A statement that holds a lock. -/
def synchronizedStatement (g : Grammar) : Parse Node := statementNode do
  word "synchronized"
  let lock ← parenthesized g
  let body ← g.block
  pure [lock, body.playing .body]

/-- A statement with a label. -/
def labeledStatement (g : Grammar) : Parse Node := statementNode do
  let label ← identifier
  symbol ":"
  let body ← g.statement
  pure (label :: body)

/-- The statements that a word of their own starts, by that word. -/
def statementRules (g : Grammar) : List (String × Parse Node) :=
  [("if", ifStatement g), ("while", whileStatement g), ("do", doStatement g),
   ("for", enhancedFor g <|> forStatement g), ("try", tryStatement g),
   ("break", jumpStatement "break"), ("continue", jumpStatement "continue"),
   ("return", returnStatement g), ("yield", yieldStatement g), ("assert", assertStatement g),
   ("throw", throwStatement g), ("switch", switchOf g <* notEnd),
   ("synchronized", synchronizedStatement g)]
where
  /-- A switch is a statement by itself unless something goes on with it. -/
  notEnd : Parse Unit := do
    let t ← peek
    if t.isSymbol "." then failure else pure ()

/-- A statement. -/
def statementOf (g : Grammar) : Parse (List Node) := do
  let start ← peek
  if start.isSymbol ";" then
    symbol ";"
    pure []
  else if start.isSymbol openBrace then
    let b ← g.block
    pure [b]
  else
    let byWord : Parse Node :=
      match (statementRules g).find? fun rule => start.isWord rule.1 with
      | some rule => rule.2
      | none => failure
    let n ← byWord <|> g.declaration <|> localVariables g <|> labeledStatement g <|>
      expressionStatement g
    pure [n]

end SqlInjection.Java
