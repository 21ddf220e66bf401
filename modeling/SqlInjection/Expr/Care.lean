import SqlInjection.Expr.Basic

/-!
# Expressions that carry text

A number or a boolean cannot change the shape of a query. `Expr.carriesText` holds of the
expressions that may carry text someone else chose; where the type is unknown it is taken to be
text.
-/

namespace SqlInjection

/-- The names of the string builders. -/
def builderTypes : List Text :=
  ["StringBuilder".toList, "java.lang.StringBuilder".toList, "StringBuffer".toList,
   "java.lang.StringBuffer".toList]

/-- The names of the types that carry text. -/
def textTypes : List Text :=
  ["String".toList, "java.lang.String".toList] ++ builderTypes ++ ["CharSequence".toList]

/-- The methods whose result is a number whatever they are called on. -/
def numericMethods : List Text :=
  ["size".toList, "length".toList, "ordinal".toList, "hashCode".toList, "intValue".toList,
   "longValue".toList, "compareTo".toList, "indexOf".toList, "count".toList]

/-- Whether a declared type is that of a string builder. -/
def isBuilderType : Option Text → Bool
  | some t => builderTypes.contains t
  | none => false

/-- What is known of the elements of a collection. -/
inductive ElementType where
  | known (name : Text)
  | unknown
  deriving DecidableEq, Repr

/-- Whether elements of the type carry text. -/
def ElementType.carriesText : ElementType → Bool
  | known t => textTypes.contains t
  | unknown => true

/-- The element type of a type written `T[]` or `C<T>`; `none` for any other. -/
def elementTypeOf (type : Text) : Option ElementType :=
  let t := Text.trim type
  match Text.stripSuffix? "[]".toList t with
  | some e => some (.known (Text.trim e))
  | none =>
    match (Text.cut? '<' t).bind fun (_, ps) => Text.stripSuffix? ['>'] ps with
    | some ps =>
      if ps.any fun c => c == ',' || c == '<' || c == '?' then some .unknown
      else some (.known (Text.trim ps))
    | none => none

/-- The element type of an expression that refers to a collection. -/
def elementType? : Expr → Option ElementType
  | .ref _ _ (some type) _ _ => elementTypeOf type
  | _ => none

/-- Whether a join of the arguments carries text: it does unless every collection among them has
known elements of another kind. -/
def joinCarriesText (args : List Expr) : Bool :=
  let elements := args.filterMap elementType?
  elements.isEmpty || elements.any ElementType.carriesText

/-- Whether a name is written as constants are. -/
def isConstantName (name : Text) : Bool :=
  name.any Char.isUpper && name.all fun c => c.isUpper || c.isDigit || c == '_'

/-- The part of a qualified name after its last dot. -/
def lastSegment (name : Text) : Text := (name.reverse.takeWhile (· != '.')).reverse

/-- Whether the result of a call carries text. A call on a constant gives fixed text. -/
def callCarriesText (receiver : Option Expr) (name : Text) (args : List Expr) (creates : Bool) :
    Bool :=
  if creates then builderTypes.contains name || name == "String".toList
  else if name = "join".toList then joinCarriesText args
  else if numericMethods.contains name then false
  else !isConstantName (lastSegment ((receiver.map Expr.sourceText).getD []))

mutual

/-- Whether the expression may carry text. -/
def Expr.carriesText : Expr → Bool
  | .literal (.text _) _ => true
  | .literal .. => false
  | .ref _ _ none value _ => valueCarriesText value
  | .ref _ _ (some t) value _ =>
    if t = "var".toList then valueCarriesText value else textTypes.contains t
  | .chain op operands _ => op == Expr.plus && someCarriesText operands
  | .call receiver name args creates _ => callCarriesText receiver name args creates
  | .unknown none _ => true
  | .unknown (some t) _ => textTypes.contains t

/-- Whether a value may carry text; one that is not known may. -/
def valueCarriesText : Option Expr → Bool
  | none => true
  | some e => e.carriesText

/-- Whether one of the expressions may carry text. -/
def someCarriesText : List Expr → Bool
  | [] => false
  | e :: es => e.carriesText || someCarriesText es

end

end SqlInjection
