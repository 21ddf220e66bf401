import SqlInjection.Java.Source

/-!
# Declarations that a name refers to

Names are looked up by the text of the source alone: a local variable declared before the use, a
parameter, a field of a type around the use. What happens to a variable between its declaration and
its use is found in the same way.
-/

namespace SqlInjection.Java

/-- The last part of a type's name, without type arguments and brackets. -/
def simpleTypeName (type : Text) : Text :=
  let base := Text.trimEndMatches "[]".toList (Text.trim (type.takeWhile (· != '<')))
  (base.reverse.takeWhile (· != '.')).reverse

namespace Place

/-- The simple name of the declared type. -/
def declaredType? (p : Place) : Option Text := (p.node.childText? .type).map simpleTypeName

/-- Whether the place declares the given name. -/
def declares (p : Place) (name : Text) : Bool := p.node.childText? .name == some name

end Place

/-! ## Local variables -/

/-- A local variable: its type and, unless it is declared by a loop, a catch or a resource, its
declaration. -/
structure LocalVariable where
  type : Option Text
  declarator : Option Place
  deriving Repr

/-- The local variable that a place in a method declares, if it declares `name` before `use`. -/
def localVariable? (name : Text) (use : Nat) (p : Place) : Option LocalVariable :=
  match p.kind with
  | .declarator =>
    match p.parent? with
    | some declaration =>
      if declaration.kind == .localVariables && p.declares name && p.stop ≤ use then
        some ⟨declaration.declaredType?, some p⟩
      else none
    | none => none
  | .enhancedFor | .catchParameter | .resource =>
    if p.declares name then some ⟨p.declaredType?, none⟩ else none
  | _ => none

/-- The last local variable of a method that is declared before `use`. -/
def Place.localBefore? (method : Place) (name : Text) (use : Nat) : Option LocalVariable :=
  ((method.below.takeWhile (·.start < use)).filterMap (localVariable? name use)).getLast?

/-! ## Parameters -/

/-- The type of a parameter, if it has the given name. -/
def parameterType? (name : Text) (p : Place) : Option (Option Text) :=
  match p.kind with
  | .parameter => if p.declares name then some p.declaredType? else none
  | .spreadParameter =>
    match p.children.find? (·.kind == .declarator) with
    | some d => if d.declares name then some none else none
    | none => none
  | .identifier => if p.text == name then some none else none
  | _ => none

/-- The type of the parameter with the given name, among those of a method or lambda expression. -/
def Place.parameterIn? (callable : Place) (name : Text) : Option (Option Text) := do
  let params ← callable.child? .parameters
  if params.kind == .identifier then parameterType? name params
  else params.children.findSome? (parameterType? name)

/-- The type of the parameter that a name stands for: of a lambda expression around the use, the
innermost first, or of the method. -/
def Place.parameter? (use method : Place) (name : Text) : Option (Option Text) :=
  let lambdas := (use.enclosing.takeWhile (!·.kind.isCallable)).filter (·.kind == .lambda)
  (lambdas.findSome? (·.parameterIn? name)).or (method.parameterIn? name)

/-! ## Fields -/

/-- The members of a type. Those of an enum after its constants count like the others. -/
def Place.members (type : Place) : List Place :=
  match type.child? .body with
  | some body => body.children.flatMap fun m => if m.kind == .enumMembers then m.children else [m]
  | none => []

/-- The declaration of a field of a type. -/
def Place.fieldOf? (type : Place) (name : Text) : Option Place :=
  let fields := type.members.filter fun m =>
    m.kind == .fieldDeclaration || m.kind == .constantDeclaration
  (fields.flatMap fun m => m.children.filter (·.node.role == some .declarator)).find?
    (·.declares name)

/-- The declaration of a field of a type around the use, the innermost first. -/
def Place.field? (use : Place) (name : Text) : Option Place :=
  (use.enclosing.filter (·.kind.isType)).findSome? (·.fieldOf? name)

/-- The first type of a tree with the given name. -/
def Node.typeNamed? (root : Node) (name : Text) : Option Place :=
  root.places.find? fun p => p.kind.isType && p.declares name

/-! ## Changes of a variable -/

/-- The places of a kind in a method that lie between two byte offsets. -/
def Place.between (method : Place) (kind : Kind) (start stop : Nat) : List Place :=
  method.below.filter fun p => p.kind == kind && start ≤ p.start && p.stop ≤ stop

/-- The assignments to a variable between two byte offsets. -/
def Place.assignmentsTo (method : Place) (name : Text) (start stop : Nat) : List Place :=
  (method.between .assignment start stop).filter fun p =>
    match p.node.child? .left with
    | some l => l.kind == .identifier && l.text == name
    | none => false

/-- The name that a chain of calls starts from, and its calls, the first one first. Each receiver
is written shorter than its call, so the length of the text bounds the chain. -/
def callChain : Nat → Place → Option (Text × List Place)
  | 0, _ => none
  | fuel + 1, p =>
    match p.kind with
    | .call => do
      let object ← p.child? .object
      let (name, calls) ← callChain fuel object
      pure (name, calls ++ [p])
    | .identifier => some (p.text, [])
    | _ => none

/-- What a call does to a builder: the argument it appends, or nothing if it does anything else. -/
def appended? (call : Place) : Option Place :=
  match call.node.childText? .name, call.arguments with
  | some name, [arg] => if name == "append".toList then some arg else none
  | _, _ => none

/-- What the statements between two byte offsets do to a builder, call by call. -/
def Place.appendsTo (method : Place) (name : Text) (start stop : Nat) : List (Option Place) :=
  (method.between .expressionStatement start stop).flatMap fun statement =>
    match statement.children.head?.bind fun p => callChain (p.text.length + 1) p with
    | some (target, calls) => if target == name then calls.map appended? else []
    | none => []

end SqlInjection.Java
