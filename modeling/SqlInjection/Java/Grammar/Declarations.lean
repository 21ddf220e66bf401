import SqlInjection.Java.Grammar.Statements

/-!
# Declarations

Packages, imports, types and their members. `parseTree?` reads a whole source.
-/

namespace SqlInjection.Java

open Parse

/-! ## Members -/

/-- The body of a constructor, which may start with a call of another constructor. -/
def constructorBody (g : Grammar) : Parse Node := do
  let start ← peek
  symbol openBrace
  let first ← maybe (do
    let at' ← peek
    let arguments ← maybe (typeArguments g)
    let target ← (do let t ← thisNode <|> superNode; pure [t]) <|> (do
      let object ← primary g
      symbol "."
      let inner ← maybe (typeArguments g)
      let above ← superNode
      pure (object.playing .object :: inner ++ [above]))
    let actual ← argumentList g
    symbol ";"
    close at' .explicitConstructorCall (arguments ++ target ++ [actual.playing .arguments]))
  let statements ← many g.statement
  symbol closeBrace
  close start .block (first ++ statements.flatten)

/-- A constructor. -/
def constructorDeclaration (g : Grammar) : Parse Node := do
  let start ← peek
  let mods ← maybe (modifiers g)
  let generics ← maybe (typeParameters g)
  let name ← identifier
  let params ← parameterList g
  let thrown ← maybe (typesAfter g "throws")
  let body ← constructorBody g
  close start .constructorDeclaration (mods ++ generics ++
    [name.playing .name, params.playing .parameters] ++ thrown ++ [body.playing .body])

/-- A constructor of a record that leaves out the parameters. -/
def compactConstructorDeclaration (g : Grammar) : Parse Node := do
  let start ← peek
  let mods ← maybe (modifiers g)
  let name ← identifier
  let body ← g.block
  close start .compactConstructorDeclaration (mods ++ [name.playing .name, body.playing .body])

/-- A method. -/
def methodDeclaration (g : Grammar) : Parse Node := do
  let start ← peek
  let mods ← maybe (modifiers g)
  let generics ← maybe (typeParameters g)
  let annotations ← many (annotationOf g)
  let type ← plainType g
  let name ← identifier
  let params ← parameterList g
  let dims ← maybe (dimensions g)
  let thrown ← maybe (typesAfter g "throws")
  let body ← (do let b ← g.block; pure [b.playing .body]) <|> (do symbol ";"; pure [])
  close start .methodDeclaration (mods ++ generics ++ annotations ++
    [type.playing .type, name.playing .name, params.playing .parameters] ++ dims ++ thrown ++ body)

/-- Fields, as nodes of the given kind. -/
def fieldDeclaration (g : Grammar) (kind : Kind) : Parse Node := do
  let start ← peek
  let mods ← maybe (modifiers g)
  let type ← plainType g
  let declared ← declarators g
  symbol ";"
  close start kind (mods ++ type.playing .type :: declared)

/-- A block that runs when a class is loaded. -/
def staticBlock (g : Grammar) : Parse Node := do
  let start ← peek
  word "static"
  let body ← g.block
  close start .staticBlock [body]

/-- An element of an annotation type. -/
def annotationElement (g : Grammar) : Parse Node := do
  let start ← peek
  let mods ← maybe (modifiers g)
  let type ← plainType g
  let name ← identifier
  symbol "("
  symbol ")"
  let dims ← maybe (dimensions g)
  let value ← maybe (word "default" *> g.elementValue)
  symbol ";"
  close start .annotationElement (mods ++ [type.playing .type, name.playing .name] ++ dims ++
    value.map (·.playing .value))

/-- A member of a type, whose fields are nodes of the given kind. A semicolon leaves no node. -/
def member (g : Grammar) (fields : Kind) : Parse (List Node) :=
  (do symbol ";"; pure []) <|>
    (fun n => [n]) <$> (g.block <|> staticBlock g <|> g.declaration <|>
      compactConstructorDeclaration g <|> constructorDeclaration g <|> methodDeclaration g <|>
      fieldDeclaration g fields)

/-! ## Bodies -/

/-- Members in braces. -/
def bodyOf (kind : Kind) (item : Parse (List Node)) : Parse Node := do
  let start ← peek
  symbol openBrace
  let members ← many item
  symbol closeBrace
  close start kind members.flatten

/-- The body of a class. -/
def classBodyOf (g : Grammar) : Parse Node := bodyOf .classBody (member g .fieldDeclaration)

/-- The body of an interface. -/
def interfaceBody (g : Grammar) : Parse Node := bodyOf .interfaceBody (member g .constantDeclaration)

/-- The body of an annotation type. -/
def annotationTypeBody (g : Grammar) : Parse Node :=
  bodyOf .annotationTypeBody
    ((fun n => [n]) <$> annotationElement g <|> member g .constantDeclaration)

/-- A constant of an enum. -/
def enumConstant (g : Grammar) : Parse Node := do
  let start ← peek
  let mods ← maybe (modifiers g)
  let name ← identifier
  let actual ← maybe (argumentList g)
  let body ← maybe g.classBody
  close start .enumConstant (mods ++ name.playing .name :: actual.map (·.playing .arguments) ++
    body.map (·.playing .body))

/-- The members of an enum after its constants. -/
def enumMembers (g : Grammar) : Parse Node := do
  let start ← peek
  symbol ";"
  let members ← many (member g .fieldDeclaration)
  close start .enumMembers members.flatten

/-- The body of an enum. -/
def enumBody (g : Grammar) : Parse Node := do
  let start ← peek
  symbol openBrace
  let constants ← orEmpty (separated "," (enumConstant g))
  let _ ← optional (symbol ",")
  let members ← maybe (enumMembers g)
  symbol closeBrace
  close start .enumBody (constants ++ members)

/-! ## Types -/

/-- A class. -/
def classDeclaration (g : Grammar) (start : Token) (mods : List Node) : Parse Node := do
  word "class"
  let name ← identifier
  let generics ← maybe (typeParameters g)
  let above ← maybe (typesAfter g "extends")
  let interfaces ← maybe (typesAfter g "implements")
  let permitted ← maybe (typesAfter g "permits")
  let body ← g.classBody
  close start .classDeclaration (mods ++ name.playing .name :: generics ++ above ++ interfaces ++
    permitted ++ [body.playing .body])

/-- An interface. -/
def interfaceDeclaration (g : Grammar) (start : Token) (mods : List Node) : Parse Node := do
  word "interface"
  let name ← identifier
  let generics ← maybe (typeParameters g)
  let above ← maybe (typesAfter g "extends")
  let permitted ← maybe (typesAfter g "permits")
  let body ← interfaceBody g
  close start .interfaceDeclaration (mods ++ name.playing .name :: generics ++ above ++ permitted ++
    [body.playing .body])

/-- An enum. -/
def enumDeclaration (g : Grammar) (start : Token) (mods : List Node) : Parse Node := do
  word "enum"
  let name ← identifier
  let interfaces ← maybe (typesAfter g "implements")
  let body ← enumBody g
  close start .enumDeclaration (mods ++ name.playing .name :: interfaces ++ [body.playing .body])

/-- A record. -/
def recordDeclaration (g : Grammar) (start : Token) (mods : List Node) : Parse Node := do
  word "record"
  let name ← identifier
  let generics ← maybe (typeParameters g)
  let params ← parameterList g
  let interfaces ← maybe (typesAfter g "implements")
  let body ← g.classBody
  close start .recordDeclaration (mods ++ name.playing .name :: generics ++
    params.playing .parameters :: interfaces ++ [body.playing .body])

/-- An annotation type. -/
def annotationTypeDeclaration (g : Grammar) (start : Token) (mods : List Node) : Parse Node := do
  symbol "@"
  word "interface"
  let name ← identifier
  let body ← annotationTypeBody g
  close start .annotationTypeDeclaration (mods ++ [name.playing .name, body.playing .body])

/-! ## Sources -/

/-- The package of a source. -/
def packageDeclaration (start : Token) (mods : List Node) : Parse Node := do
  word "package"
  let name ← qualifiedName
  symbol ";"
  close start .packageDeclaration (mods ++ [name])

/-- An import. -/
def importDeclaration (start : Token) : Parse Node := do
  word "import"
  let _ ← optional (word "static")
  let name ← qualifiedName
  let _ ← optional (symbol "." *> symbol "*")
  symbol ";"
  close start .importDeclaration [name]

/-- A module, whose directives are passed over. -/
def moduleDeclaration (start : Token) (mods : List Node) : Parse Node := do
  let _ ← optional (word "open")
  word "module"
  let name ← qualifiedName
  symbol openBrace
  let _ ← many (takeIf fun t => t.kind != .finish && !t.isSymbol closeBrace)
  symbol closeBrace
  close start .moduleDeclaration (mods ++ [name])

/-- A declaration that is no member by itself. -/
def declarationOf (g : Grammar) : Parse Node := do
  let start ← peek
  let mods ← maybe (modifiers g)
  classDeclaration g start mods <|> interfaceDeclaration g start mods <|>
    enumDeclaration g start mods <|> recordDeclaration g start mods <|>
    annotationTypeDeclaration g start mods <|> packageDeclaration start mods <|>
    (if mods.isEmpty then importDeclaration start else failure) <|> moduleDeclaration start mods

/-- The rules, for parts nested no deeper than `fuel`. -/
def grammar : Nat → Grammar
  | 0 => ⟨fun _ => failure, failure, failure, failure, failure, failure, failure⟩
  | fuel + 1 =>
    { expression := fun slot ts => expressionOf (grammar fuel) slot ts
      statement := fun ts => statementOf (grammar fuel) ts
      block := fun ts => blockOf (grammar fuel) ts
      classBody := fun ts => classBodyOf (grammar fuel) ts
      declaration := fun ts => declarationOf (grammar fuel) ts
      type := fun ts => typeOf (grammar fuel) ts
      elementValue := fun ts => elementValueOf (grammar fuel) ts }

/-- The declarations and statements of a source, up to its end. -/
def programItems (g : Grammar) : Parse (List Node) := do
  let items ← many ((fun n => [n]) <$> g.declaration <|> (fun n => [n]) <$> methodDeclaration g <|>
    g.statement)
  let _ ← takeIf (·.kind == .finish)
  pure items.flatten

/-- The tree of a source, if its text follows the rules. A part that holds another takes a token of
its own within a few steps, so a small multiple of the number of tokens bounds the nesting. -/
def parseTree? (source : Text) : Option Node :=
  let found := tokenize source
  let items := programItems (grammar (4 * found.tokens.length + 4)) found.tokens
  items.map fun (children, _) =>
    let program : Node :=
      ⟨.program, none, ⟨0, Text.byteSize source⟩, source, none, children⟩
    found.comments.foldl (fun tree comment => Node.withComment comment tree) program

end SqlInjection.Java
