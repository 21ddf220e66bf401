import SqlInjection.Java.Grammar.Declarations

/-!
# Java sources

A source with its tree, and what can be asked of a place in it: what encloses it, whether it stands
in a call, and the name of its location.
-/

namespace SqlInjection.Java

/-- A Java source and its tree. -/
structure Source where
  text : Text
  root : Node
  deriving Repr

namespace Source

/-- The source of a text that follows the rules of the language. -/
def parse? (text : Text) : Option Source := (parseTree? text).map fun root => ⟨text, root⟩

/-- All places of the source, in document order. -/
def places (s : Source) : List Place := s.root.places

/-- The imported names as they are written. -/
def imports (s : Source) : List Text :=
  (s.root.children.filter (·.kind == .importDeclaration)).map fun n =>
    Text.trim (Text.replace "static ".toList []
      (Text.trimEndMatches [';'] (Text.trimStartMatches "import".toList n.text)))

/-- The name of the package. -/
def package? (s : Source) : Option Text := do
  let declaration ← s.root.children.find? (·.kind == .packageDeclaration)
  let name ← declaration.children.find? fun n =>
    n.kind == .qualifiedName || n.kind == .identifier
  pure name.text

end Source

/-! ## Kinds of declarations -/

/-- Methods and constructors. -/
def Kind.isCallable : Kind → Bool
  | .methodDeclaration | .constructorDeclaration | .compactConstructorDeclaration => true
  | _ => false

/-- Declarations of types that may hold fields. -/
def Kind.isType : Kind → Bool
  | .classDeclaration | .interfaceDeclaration | .enumDeclaration | .recordDeclaration => true
  | _ => false

/-- Statements, and declarations that stand like statements. -/
def Kind.isStatement : Kind → Bool
  | .localVariables | .fieldDeclaration | .constantDeclaration | .explicitConstructorCall
  | .expressionStatement | .enhancedFor | .statement => true
  | _ => false

/-- Where the search for a surrounding statement or call ends. -/
def Kind.endsSearch : Kind → Bool
  | .classBody | .program => true
  | _ => false

namespace Place

/-- The kind of the node. -/
def kind (p : Place) : Kind := p.node.kind

/-- The text of the node. -/
def text (p : Place) : Text := p.node.text

/-- The byte offset where the node starts. -/
def start (p : Place) : Nat := p.node.span.start

/-- The byte offset where the node ends. -/
def stop (p : Place) : Nat := p.node.span.stop

/-- The nearest method or constructor. -/
def callable? (p : Place) : Option Place := p.selfAndEnclosing.find? (·.kind.isCallable)

/-- The nearest statement or field declaration within the nearest class body. -/
def statement? (p : Place) : Option Place :=
  (p.selfAndEnclosing.takeWhile (!·.kind.endsSearch)).find? (·.kind.isStatement)

/-- The arguments of a call or a creation, comments left out. -/
def arguments (p : Place) : List Place :=
  match p.child? .arguments with
  | some args => args.children.filter (!·.node.isComment)
  | none => []

/-! ## Calls -/

/-- Whether the place is a call of the method that fills in a template. -/
def isFormatCall (p : Place) : Bool :=
  p.kind == .call && p.node.childText? .name == some "format".toList &&
    (p.node.childText? .object == some "String".toList ||
      p.node.childText? .object == some "java.lang.String".toList)

/-- The calls around a place, the innermost first. -/
def calls (p : Place) : List Place :=
  (p.enclosing.takeWhile (!·.kind.endsSearch)).filter (·.kind == .call)

/-- Whether the place is part of a call whose name satisfies `excluded`. A call that fills in a
template counts for the call around it. -/
def insideCall (p : Place) (excluded : Text → Bool) : Bool :=
  let named (c : Place) : Bool := ((c.node.childText? .name).map excluded).getD false
  match p.calls with
  | [] => false
  | c :: outer =>
    if c.isFormatCall then
      match outer with
      | [] => false
      | d :: _ => named d
    else named c

end Place

/-! ## Names of locations -/

/-- A parameter as it is named in a location. -/
def parameterName (n : Node) : Text :=
  let type := (n.childText? .type).getD []
  let name := (n.childText? .name).getD n.text
  Text.trim (type ++ ' ' :: name)

/-- The parameters of a method as they are named in a location. -/
def parameterNames (params : Node) : Text :=
  Text.join ", ".toList ((params.children.filter fun n =>
    n.kind == .parameter || n.kind == .spreadParameter).map parameterName)

namespace Source

/-- The qualified name of the innermost type around a place. -/
def className? (s : Source) (p : Place) : Option Text :=
  let names := (p.selfAndEnclosing.filter (·.kind.isType)).filterMap (·.node.childText? .name)
  if names.isEmpty then none
  else
    let nested := Text.join ['.'] names.reverse
    some (match s.package? with
      | some package => package ++ '.' :: nested
      | none => nested)

/-- The name of a place: its class, and the method with its parameters or the field it is in. -/
def locationName (s : Source) (p : Place) : Text :=
  match s.className? p with
  | none => "null".toList
  | some type =>
    match p.callable? with
    | some method =>
      let name := (method.node.childText? .name).getD []
      let params := ((method.node.child? .parameters).map parameterNames).getD []
      let signature := name ++ '(' :: params ++ [')']
      match method.node.childText? .type with
      | some result => type ++ ' ' :: result ++ ' ' :: signature
      | none => type ++ ' ' :: signature
    | none =>
      let field := do
        let f ← p.selfAndEnclosing.find? (·.kind == .fieldDeclaration)
        let d ← f.node.child? .declarator
        d.childText? .name
      match field with
      | some name => type ++ ' ' :: name
      | none => type

end Source

end SqlInjection.Java
