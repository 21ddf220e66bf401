import SqlInjection.Expr.Fragment
import SqlInjection.Java.Scope
import SqlInjection.Java.StringLiteral

/-!
# Expressions of a source

`Source.lower` reads the string-building expression at a place. Names are replaced by what is known
of their values: the initial value of a field, the initial value of a local variable that nothing
assigns before the use, the text of one that is only assigned constants, and a builder with all that
is appended to it before the use.

A chain of names is followed for `maxDepth` steps. What is appended to a builder starts a new chain,
so a source whose names refer to each other in a circle through a builder has no expression; this is
`SourceFault.endless`.
-/

namespace SqlInjection.Java

/-- Why a source cannot be read through. -/
inductive SourceFault where
  /-- The indentation of a text block ends inside a character. -/
  | cutsCharacter
  /-- Names refer to each other without end. -/
  | endless
  /-- A statement consists of blanks only. -/
  | blankStatement
  deriving DecidableEq, Repr

/-- The result of reading an expression. -/
abbrev Lowered := Except SourceFault

theorem bind_eq_ok {α β : Type} {x : Lowered α} {f : α → Lowered β} {b : β}
    (h : x >>= f = .ok b) : ∃ a, x = .ok a ∧ f a = .ok b := by
  cases x with
  | error fault => cases h
  | ok a => exact ⟨a, rfl, h⟩

theorem map_eq_ok {α β : Type} {x : Lowered α} {f : α → β} {b : β} (h : f <$> x = .ok b) :
    ∃ a, x = .ok a ∧ f a = b := by
  cases x with
  | error fault => cases h
  | ok a => exact ⟨a, rfl, Except.ok.inj h⟩

theorem exists_of_mem_mapM {α β : Type} {f : α → Lowered β} {as : List α} {bs : List β}
    (h : as.mapM f = .ok bs) : ∀ b ∈ bs, ∃ a ∈ as, f a = .ok b := by
  induction as generalizing bs with
  | nil =>
    obtain rfl := Except.ok.inj h
    simp
  | cons a as ih =>
    rw [List.mapM_cons] at h
    obtain ⟨b, hb, h⟩ := bind_eq_ok h
    obtain ⟨cs, hcs, h⟩ := bind_eq_ok h
    obtain rfl := Except.ok.inj h
    refine List.forall_mem_cons.2 ⟨⟨a, List.mem_cons_self, hb⟩, fun c hc => ?_⟩
    obtain ⟨a', ha', hf⟩ := ih hcs c hc
    exact ⟨a', List.mem_cons_of_mem a ha', hf⟩

/-- How many names may stand for one another in a row. -/
def maxDepth : Nat := 12

/-- Reads the expression at a place, with the number of names followed so far. -/
abbrev Reader := Place → Nat → Lowered Expr

/-- How a place is written. -/
def Place.written (p : Place) : Written := ⟨p.text, p.node.span⟩

/-- A value of which nothing is known. -/
def Place.unknown (p : Place) : Expr := .unknown none p.written

/-! ## Local variables -/

/-- The text of an expression that is constant throughout. -/
def constantText (read : Reader) (p : Place) (depth : Nat) : Lowered (Option Text) := do
  let e ← read p (depth + 1)
  pure ((e.fragments.mapM Fragment.constant?).map List.flatten)

/-- The text of a variable after assignments of constants, from its text before them. -/
def assignedText (read : Reader) (depth : Nat) (text : Text) : List Place → Lowered (Option Text)
  | [] => pure (some text)
  | a :: rest =>
    match a.node.operator, a.child? .right with
    | some ['='], some value => do
      match ← constantText read value depth with
      | some t => assignedText read depth t rest
      | none => pure none
    | some ['+', '='], some value => do
      match ← constantText read value depth with
      | some t => assignedText read depth (text ++ t) rest
      | none => pure none
    | _, _ => pure none

/-- The expressions appended to a builder, or nothing if it is changed in any other way. -/
def appendedValues (read : Reader) : List (Option Place) → Lowered (Option (List Expr))
  | [] => pure (some [])
  | none :: _ => pure none
  | some p :: rest => do
    let e ← read p 0
    let es ← appendedValues read rest
    pure (es.map (e :: ·))

/-- A builder with one more expression appended. -/
def appendTo (builder arg : Expr) : Expr :=
  .call (some builder) "append".toList [arg] false
    ⟨builder.sourceText ++ ".append(".toList ++ arg.sourceText ++ [')'], arg.span⟩

/-- The types of builders whose changes are followed. -/
def followedBuilders : List Text := ["StringBuilder".toList, "StringBuffer".toList]

/-- Whether changes of a variable of this type are followed as those of a builder. -/
def isFollowedBuilder (type : Option Text) : Bool := type.any fun t => followedBuilders.contains t

/-- The value of a builder at a use. -/
def builderValue (read : Reader) (method declarator : Place) (name : Text) (use depth : Nat) :
    Lowered (Option Expr) :=
  match method.assignmentsTo name declarator.stop use, declarator.child? .value with
  | [], some value => do
    let first ← read value (depth + 1)
    let appended ← appendedValues read (method.appendsTo name declarator.stop use)
    pure (appended.map (·.foldl appendTo first))
  | _, _ => pure none

/-- The value of a variable that is no builder at a use. -/
def assignedValue (read : Reader) (method declarator : Place) (name : Text) (use depth : Nat) :
    Lowered (Option Expr) :=
  match method.assignmentsTo name declarator.stop use, declarator.child? .value with
  | _, none => pure none
  | [], some value => some <$> read value (depth + 1)
  | assignments, some value => do
    match ← constantText read value depth with
    | none => pure none
    | some first =>
      let text ← assignedText read depth first assignments
      pure (text.map fun t => .literal (.text t) ⟨literalOf t, declarator.node.span⟩)

/-- The value of a local variable at a use. -/
def localValue (read : Reader) (method : Place) (v : LocalVariable) (use depth : Nat) :
    Lowered (Option Expr) :=
  match v.declarator with
  | none => pure none
  | some declarator =>
    match declarator.node.childText? .name with
    | none => pure none
    | some name =>
      if isFollowedBuilder v.type then builderValue read method declarator name use depth
      else assignedValue read method declarator name use depth

/-! ## Names -/

/-- A reference to a field. -/
def fieldReference (read : Reader) (declarator : Place) (w : Written) (depth : Nat) :
    Lowered Expr := do
  let value ← (declarator.child? .value).mapM fun v => read v (depth + 1)
  pure (.ref .field ((declarator.node.childText? .name).getD [])
    (declarator.parent?.bind (·.declaredType?)) value w)

/-- The field a name stands for, or else an unknown value. -/
def readFieldName (read : Reader) (p : Place) (depth : Nat) : Lowered Expr :=
  match p.field? p.text with
  | some declarator => fieldReference read declarator p.written depth
  | none => pure p.unknown

/-- What a name stands for: a local variable, a parameter, a field or an unknown value. -/
def readName (read : Reader) (p : Place) (depth : Nat) : Lowered Expr :=
  match p.callable? with
  | none => readFieldName read p depth
  | some method =>
    match method.localBefore? p.text p.start with
    | some v => do
      let value ← localValue read method v p.start depth
      pure (.ref .variable p.text v.type value p.written)
    | none =>
      match p.parameter? method p.text with
      | some type => pure (.ref .variable p.text type none p.written)
      | none => readFieldName read p depth

/-- A field that is named by its object or its type. -/
def readFieldAccess (root : Node) (read : Reader) (p : Place) (depth : Nat) : Lowered Expr :=
  match p.node.child? .object, p.node.childText? .field with
  | some object, some name =>
    let declarator :=
      match object.kind with
      | .thisRef => p.field? name
      | .identifier => (root.typeNamed? object.text).bind (·.fieldOf? name)
      | _ => none
    match declarator with
    | some d => fieldReference read d p.written depth
    | none => pure (.ref .field name none none p.written)
  | _, _ => pure p.unknown

/-! ## Other expressions -/

/-- The operands that an operand on the left side adds to a chain: its own, if it is a chain of the
same operator, or itself. -/
def leftOperands (operator : Text) (side : Place) (e : Expr) : List Expr :=
  match e with
  | .chain op operands _ =>
    if side.kind == .binary && op == operator then operands else [e]
  | _ => [e]

/-- A chain of one operator. -/
def readChain (read : Reader) (p : Place) (depth : Nat) : Lowered Expr := do
  let operator := p.node.operator.getD []
  let left ← match p.child? .left with
    | some l => do pure (leftOperands operator l (← read l depth))
    | none => pure []
  let right ← match p.child? .right with
    | some r => do pure [← read r depth]
    | none => pure []
  pure (.chain operator (left ++ right) p.written)

/-- A call. -/
def readCall (read : Reader) (p : Place) (depth : Nat) : Lowered Expr := do
  let receiver ← (p.child? .object).mapM (read · depth)
  let args ← p.arguments.mapM (read · depth)
  pure (.call receiver ((p.node.childText? .name).getD []) args false p.written)

/-- The creation of an object. -/
def readCreation (read : Reader) (p : Place) (depth : Nat) : Lowered Expr := do
  let args ← p.arguments.mapM (read · depth)
  pure (.call none (p.declaredType?.getD []) args true p.written)

/-- A string literal. -/
def readString (p : Place) : Lowered Expr :=
  match decodeLiteral? p.text with
  | some value => pure (.literal (.text value) p.written)
  | none => throw .cutsCharacter

/-- The expression at a place, where `read` reads the expressions it is made of. -/
def readPlace (root : Node) (read : Reader) (p : Place) (depth : Nat) : Lowered Expr :=
  if depth > maxDepth then pure p.unknown
  else match p.kind with
    | .stringLiteral => readString p
    | .numberLiteral => pure (.literal (.number p.text) p.written)
    | .trueLiteral => pure (.literal (.bool true) p.written)
    | .falseLiteral => pure (.literal (.bool false) p.written)
    | .characterLiteral => pure (.literal (.char p.text) p.written)
    | .nullLiteral => pure (.literal .null p.written)
    | .parenthesized =>
      match p.children.head? with
      | some inside => read inside depth
      | none => pure p.unknown
    | .identifier => readName read p depth
    | .fieldAccess => readFieldAccess root read p depth
    | .binary => readChain read p depth
    | .call => readCall read p depth
    | .creation => readCreation read p depth
    | .cast => pure (.unknown p.declaredType? p.written)
    | _ => pure p.unknown

/-- The expression at a place, read through at most `fuel` places. -/
def readWithin (root : Node) : Nat → Reader
  | 0, _, _ => throw .endless
  | fuel + 1, p, depth => readPlace root (readWithin root fuel) p depth

namespace Source

/-- Reading goes from a place and a depth to others, and never back to where it was unless it has no
end; so the number of places times the number of depths is enough. -/
def readingBound (s : Source) : Nat := s.places.length * (maxDepth + 2) + 1

/-- The expression at a place. -/
def lower (s : Source) (p : Place) : Lowered Expr := readWithin s.root s.readingBound p 0

end Source

end SqlInjection.Java
