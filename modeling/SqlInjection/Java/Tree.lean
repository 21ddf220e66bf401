import SqlInjection.Text.Basic

/-!
# Java syntax trees

A Java source as a tree of named nodes. A node knows its kind, the part it plays in its parent, its
bytes and its text; comments are nodes like any other. Punctuation and keywords are not in the tree;
of operators, the text is kept with the node they belong to.

A `Place` is a node together with the nodes around it, so that questions about what encloses a node
have an answer. `Node.places` lists the places of a tree in document order.
-/

namespace SqlInjection.Java

/-- The kinds of nodes. -/
inductive Kind where
  | program
  | packageDeclaration
  | importDeclaration
  | moduleDeclaration
  | classDeclaration
  | interfaceDeclaration
  | enumDeclaration
  | recordDeclaration
  | annotationTypeDeclaration
  | classBody
  | interfaceBody
  | enumBody
  /-- The members of an enum after its constants. -/
  | enumMembers
  | enumConstant
  | annotationTypeBody
  | annotationElement
  | methodDeclaration
  | constructorDeclaration
  | compactConstructorDeclaration
  | staticBlock
  | fieldDeclaration
  /-- A field of an interface. -/
  | constantDeclaration
  | localVariables
  | declarator
  | parameters
  | inferredParameters
  | parameter
  | spreadParameter
  | receiverParameter
  | modifiers
  /-- An annotation without arguments. -/
  | markerUse
  /-- An annotation with arguments. -/
  | annotationUse
  | annotationArguments
  | elementPair
  | elementArray
  | identifier
  | qualifiedName
  | typeUse
  | typeParameters
  | typeList
  | dimensions
  | stringLiteral
  | numberLiteral
  | trueLiteral
  | falseLiteral
  | characterLiteral
  | nullLiteral
  | parenthesized
  | fieldAccess
  | arrayAccess
  | binary
  | assignment
  | unary
  | update
  | ternary
  | instanceTest
  | lambda
  | methodReference
  | classLiteral
  | call
  | creation
  | arrayCreation
  | arrayInitializer
  | cast
  | switch
  | template
  | thisRef
  | superRef
  | arguments
  | block
  | expressionStatement
  | enhancedFor
  /-- Any other statement. -/
  | statement
  | explicitConstructorCall
  | catchClause
  | catchParameter
  | finallyClause
  | resources
  | resource
  | switchBlock
  | switchGroup
  | switchRule
  | switchLabel
  | pattern
  | guard
  | lineComment
  | blockComment
  deriving DecidableEq, Repr, Inhabited

/-- The parts a node may play in its parent. -/
inductive Role where
  | name
  | type
  | value
  | body
  | declarator
  | left
  | right
  | object
  | field
  | arguments
  | parameters
  | key
  deriving DecidableEq, Repr

/-- A node of a syntax tree. -/
structure Node where
  kind : Kind
  /-- The part the node plays in its parent. -/
  role : Option Role
  span : Span
  text : Text
  /-- The operator of a binary expression or an assignment. -/
  operator : Option Text
  children : List Node
  deriving Repr

namespace Node

/-- The node in a part of its parent. -/
def playing (n : Node) (r : Role) : Node := { n with role := some r }

/-- The first child that plays a part. -/
def child? (n : Node) (r : Role) : Option Node := n.children.find? (·.role == some r)

/-- The text of the child that plays a part. -/
def childText? (n : Node) (r : Role) : Option Text := (n.child? r).map Node.text

/-- Whether the node is a comment. -/
def isComment (n : Node) : Bool := n.kind == .lineComment || n.kind == .blockComment

end Node

/-- A node and the nodes around it, the innermost first. -/
structure Place where
  node : Node
  around : List Node
  deriving Repr

namespace Place

/-- The places of the children. -/
def children (p : Place) : List Place := p.node.children.map fun n => ⟨n, p.node :: p.around⟩

/-- The place of the first child that plays a part. -/
def child? (p : Place) (r : Role) : Option Place :=
  (p.node.child? r).map fun n => ⟨n, p.node :: p.around⟩

/-- The place of the node around. -/
def parent? (p : Place) : Option Place :=
  match p.around with
  | [] => none
  | n :: ns => some ⟨n, ns⟩

/-- The places of the nodes in a list of nodes, each inside all that follow it. -/
def outward : List Node → List Place
  | [] => []
  | n :: ns => ⟨n, ns⟩ :: outward ns

/-- The places around, the innermost first. -/
def enclosing (p : Place) : List Place := outward p.around

/-- The place itself and the places around, the innermost first. -/
def selfAndEnclosing (p : Place) : List Place := p :: p.enclosing

end Place

mutual

/-- The places of a node and all nodes below it, in document order. -/
def Node.placesIn (around : List Node) : Node → List Place
  | ⟨kind, role, span, text, operator, children⟩ =>
    let self : Node := ⟨kind, role, span, text, operator, children⟩
    ⟨self, around⟩ :: placesInAll (self :: around) children

/-- The places of several nodes and all nodes below them, in document order. -/
def placesInAll (around : List Node) : List Node → List Place
  | [] => []
  | n :: ns => n.placesIn around ++ placesInAll around ns

end

/-- The places of a tree, in document order. -/
def Node.places (root : Node) : List Place := root.placesIn []

/-- The place itself and all places below it, in document order. -/
def Place.below (p : Place) : List Place := p.node.placesIn p.around

/-! ## Comments -/

/-- Whether `b` lies inside `a` and touches neither of its ends. -/
def strictlyInside (a b : Span) : Bool := a.start < b.start && b.stop < a.stop

mutual

/-- The tree with a comment put in the innermost node around it. -/
def Node.withComment (comment n : Node) : Node :=
  match n with
  | ⟨kind, role, span, text, operator, children⟩ =>
    ⟨kind, role, span, text, operator, insertComment comment children⟩
termination_by structural n

/-- The nodes with a comment put inside the one around it, or else in its place between them. -/
def insertComment (comment : Node) (ns : List Node) : List Node :=
  match ns with
  | [] => [comment]
  | n :: ns =>
    if strictlyInside n.span comment.span then Node.withComment comment n :: ns
    else if n.span.start < comment.span.start then n :: insertComment comment ns
    else comment :: n :: ns
termination_by structural ns

end

end SqlInjection.Java
