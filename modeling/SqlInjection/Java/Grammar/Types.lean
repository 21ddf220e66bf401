import SqlInjection.Java.Grammar.Basic

/-!
# Annotations, types and parameters
-/

namespace SqlInjection.Java

open Parse

/-! ## Annotations -/

/-- A named element of an annotation. -/
def elementPair (g : Grammar) : Parse Node := do
  let start ← peek
  let key ← identifier
  symbol "="
  let value ← g.elementValue
  close start .elementPair [key.playing .key, value.playing .value]

/-- What stands between the parentheses of an annotation: named elements, one value, or nothing. -/
def annotationElements (g : Grammar) : Parse (List Node) :=
  separated "," (elementPair g) <|> (do let v ← g.elementValue; pure [v]) <|> pure []

/-- The arguments of an annotation. -/
def annotationArguments (g : Grammar) : Parse Node := do
  let start ← peek
  symbol "("
  let elements ← annotationElements g
  symbol ")"
  close start .annotationArguments elements

/-- An annotation, with arguments or without. -/
def annotationOf (g : Grammar) : Parse Node := do
  let start ← peek
  symbol "@"
  let name ← qualifiedName
  match ← optional (annotationArguments g) with
  | some arguments =>
    close start .annotationUse [name.playing .name, arguments.playing .arguments]
  | none => close start .markerUse [name.playing .name]

/-- A value of an annotation's element: an array of values, an annotation or an expression. -/
def elementValueOf (g : Grammar) : Parse Node := do
  let start ← peek
  if start.isSymbol openBrace then
    symbol openBrace
    let values ← orEmpty (separated "," g.elementValue)
    let _ ← optional (symbol ",")
    symbol closeBrace
    close start .elementArray values
  else annotationOf g <|> g.expression .inner

/-- The words that are modifiers. -/
def modifierWords : List String :=
  ["public", "protected", "private", "abstract", "static", "final", "strictfp", "default",
   "synchronized", "native", "transient", "volatile", "sealed"]

/-- A modifier that is one word, or two words joined by a hyphen. -/
def modifierWord : Parse Unit :=
  (do let _ ← takeIf fun t => modifierWords.any t.isWord) <|>
    (do word "non"; symbol "-"; word "sealed")

/-- One modifier or more. The annotations among them are nodes. -/
def modifiers (g : Grammar) : Parse Node := do
  let start ← peek
  let found ← some1 ((some <$> annotationOf g) <|> (do modifierWord; pure none))
  close start .modifiers (found.filterMap id)

/-! ## Types -/

/-- The words that are types. -/
def primitiveTypes : List String :=
  ["byte", "short", "int", "long", "char", "float", "double", "boolean", "void"]

/-- A word that is a type. -/
def primitiveType : Parse Node := leaf .typeUse fun t => primitiveTypes.any t.isWord

/-- An unknown type, with a bound or without. -/
def wildcard (g : Grammar) : Parse Node := do
  let start ← peek
  let annotations ← many (annotationOf g)
  symbol "?"
  let bound ← maybe ((word "extends" <|> word "super") *> g.type)
  close start .typeUse (annotations ++ bound)

/-- Type arguments. -/
def typeArguments (g : Grammar) : Parse Node := do
  let start ← peek
  symbol "<"
  let types ← orEmpty (separated "," (wildcard g <|> g.type))
  symbol ">"
  close start .typeList types

/-- A type that is a name, or names divided by points, each with type arguments or without. -/
def namedType (g : Grammar) : Parse Node := do
  let start ← peek
  let _ ← identifier
  let arguments ← maybe (typeArguments g)
  let more ← many (do
    symbol "."
    let annotations ← many (annotationOf g)
    let _ ← identifier
    let arguments ← maybe (typeArguments g)
    pure (annotations ++ arguments))
  close start .typeUse (arguments ++ more.flatten)

/-- A type that is no array. -/
def simpleType (g : Grammar) : Parse Node := primitiveType <|> namedType g

/-- Empty brackets, one pair or more. -/
def dimensions (g : Grammar) : Parse Node := do
  let start ← peek
  let annotations ← some1 (do
    let annotations ← many (annotationOf g)
    symbol "["
    symbol "]"
    pure annotations)
  close start .dimensions annotations.flatten

/-- A type without annotations in front. -/
def plainType (g : Grammar) : Parse Node := do
  let start ← peek
  let element ← simpleType g
  match ← optional (dimensions g) with
  | some dims => close start .typeUse [element, dims]
  | none => pure element

/-- A type. -/
def typeOf (g : Grammar) : Parse Node := do
  let start ← peek
  match ← many (annotationOf g) with
  | [] => plainType g
  | annotations => do
    let type ← plainType g
    close start .typeUse (annotations ++ [type])

/-- A type parameter, with bounds or without. -/
def typeParameter (g : Grammar) : Parse Node := do
  let start ← peek
  let annotations ← many (annotationOf g)
  let _ ← identifier
  let bounds ← orEmpty (word "extends" *> separated "&" g.type)
  close start .typeUse (annotations ++ bounds)

/-- Type parameters. -/
def typeParameters (g : Grammar) : Parse Node := do
  let start ← peek
  symbol "<"
  let parameters ← separated "," (typeParameter g)
  symbol ">"
  close start .typeParameters parameters

/-- Types after a word, divided by commas. -/
def typesAfter (g : Grammar) (w : String) : Parse Node := do
  let start ← peek
  word w
  let types ← separated "," g.type
  close start .typeList types

/-! ## Declared names and parameters -/

/-- A declared name, with brackets or without. -/
def declaredName (g : Grammar) : Parse (List Node) := do
  let name ← identifier
  let dims ← maybe (dimensions g)
  pure (name.playing .name :: dims)

/-- The initial value of a variable: an array of values or an expression. -/
def initializer (g : Grammar) : Nat → Slot → Parse Node
  | 0, _ => failure
  | fuel + 1, slot => do
    let start ← peek
    if start.isSymbol openBrace then
      symbol openBrace
      let values ← orEmpty (separatedFrom "," (initializer g fuel .inner) (initializer g fuel .final))
      let _ ← optional (symbol ",")
      symbol closeBrace
      close start .arrayInitializer values
    else g.expression slot

/-- The initial value of a variable; arrays are nested no deeper than there are tokens. -/
def initialValue (g : Grammar) (slot : Slot) : Parse Node :=
  fun ts => initializer g ts.length slot ts

/-- A declared variable, with an initial value or without. -/
def declarator (g : Grammar) : Parse Node := do
  let start ← peek
  let name ← declaredName g
  let value ← maybe (symbol "=" *> initialValue g .final)
  close start .declarator (name ++ value.map (·.playing .value))

/-- Declared variables. -/
def declarators (g : Grammar) : Parse (List Node) := do
  let found ← separated "," (declarator g)
  pure (found.map (·.playing .declarator))

/-- A parameter with a type. -/
def parameter (g : Grammar) : Parse Node := do
  let start ← peek
  let mods ← maybe (modifiers g)
  let type ← plainType g
  let name ← declaredName g
  close start .parameter (mods ++ type.playing .type :: name)

/-- A parameter that takes any number of arguments. -/
def spreadParameter (g : Grammar) : Parse Node := do
  let start ← peek
  let mods ← maybe (modifiers g)
  let type ← plainType g
  symbol "..."
  let annotations ← many (annotationOf g)
  let named ← declarator g
  close start .spreadParameter (mods ++ type :: annotations ++ [named])

/-- The parameter that names the object a method is called on. -/
def receiverParameter (g : Grammar) : Parse Node := do
  let start ← peek
  let annotations ← many (annotationOf g)
  let type ← plainType g
  let scopes ← many (do let n ← identifier; symbol "."; pure n)
  word "this"
  close start .receiverParameter (annotations ++ type :: scopes)

/-- Parameters with types, in parentheses. -/
def parameterList (g : Grammar) : Parse Node := do
  let start ← peek
  symbol "("
  let found ← orEmpty (separated "," (receiverParameter g <|> parameter g <|> spreadParameter g))
  symbol ")"
  close start .parameters found

/-- Parameters without types, in parentheses. -/
def inferredParameters : Parse Node := do
  let start ← peek
  symbol "("
  let names ← separated "," identifier
  symbol ")"
  close start .inferredParameters names

end SqlInjection.Java
