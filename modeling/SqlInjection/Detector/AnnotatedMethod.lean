import SqlInjection.Detector.Basic
import SqlInjection.Template.Binding

/-!
# Statements in annotations

The methods of a mapper interface carry their statements in annotations. Interpolations where values
stand are flagged; if the statement is written in literals only, it is replaced by one literal that
binds the values.
-/

namespace SqlInjection

/-- What is said of a statement in an annotation. -/
def annotatedMethodMessage : String :=
  "MyBatis annotation interpolates $\x7b\x7d into a value position; use #\x7b\x7d parameters"

/-- The names of the annotations that carry statements. -/
def statementAnnotations : List Text := ["Select", "Delete", "Update", "Insert"].map String.toList

/-- The package of those annotations. -/
def annotationPackage : Text := "org.apache.ibatis.annotations".toList

/-- Whether an import brings in the annotation with a simple name. -/
def bringsIn (simple imported : Text) : Bool :=
  match Text.stripPrefix? (annotationPackage ++ ['.']) imported with
  | some rest => rest == simple || rest == ['*']
  | none => false

/-- Whether an annotation with this name carries a statement. -/
def carriesStatement (imports : List Text) (name : Text) : Bool :=
  let simple := (name.reverse.takeWhile (· != '.')).reverse
  statementAnnotations.contains simple &&
    (Text.startsWith name annotationPackage || imports.any (bringsIn simple))

/-- The value of an annotation that has one element: the element, or what it is given by the name
`value`. -/
def annotationValue? (p : Java.Place) : Option Java.Place := do
  let arguments ← p.child? .arguments
  match arguments.children.filter (!·.node.isComment) with
  | [element] =>
    if element.kind == .elementPair then
      if element.node.childText? .key == some "value".toList then element.child? .value else none
    else some element
  | _ => none

/-- The value of an annotation that carries a statement. -/
def statementValue? (imports : List Text) (p : Java.Place) : Option Java.Place := do
  let name ← p.node.childText? .name
  if carriesStatement imports name then annotationValue? p else none

/-! ## The text of a statement -/

/-- The text of an expression: of a literal, of a concatenation, or of what a name stands for. -/
def Expr.statementText? : Expr → Option Text
  | .literal v w => (Expr.literal v w).literalText?
  | .chain op es w =>
    if (Expr.chain op es w).isPlusChain then some (apparent (Expr.chain op es w).fragments) else none
  | .ref _ _ _ (some value) _ => value.statementText?
  | _ => none

/-- Whether an expression is a literal or a concatenation of literals. -/
def Expr.isLiteralOnly : Expr → Bool
  | .chain op es w =>
    (Expr.chain op es w).isPlusChain && es.all fun e => e.literalText?.isSome
  | e => e.literalText?.isSome

/-- The statement of an annotation, and whether it can be replaced by one literal. -/
structure StatementContent where
  text : Text
  literalOnly : Bool
  deriving DecidableEq, Repr

/-- The texts of several expressions put together. Nothing is read past one that has no text. -/
def joinedText (s : Java.Source) : List Java.Place → Java.Lowered (Option Text)
  | [] => pure (some [])
  | p :: rest => do
    match (← s.lower p).statementText? with
    | some t => pure ((← joinedText s rest).map (t ++ ·))
    | none => pure none

/-- The statement that an annotation's value holds. The elements of an array are put together. -/
def statementContent (s : Java.Source) (value : Java.Place) :
    Java.Lowered (Option StatementContent) :=
  if value.kind == .elementArray then do
    let text ← joinedText s (value.children.filter (!·.node.isComment))
    pure (text.map fun t => ⟨t, false⟩)
  else do
    let e ← s.lower value
    pure (e.statementText?.map fun t => ⟨t, e.isLiteralOnly⟩)

/-- A statement with what stands around its body. -/
structure StatementBody where
  head : Text
  body : Text
  tail : Text
  /-- Whether the body stands in a script element, where further elements are understood. -/
  scripted : Bool
  deriving DecidableEq, Repr

/-- The tag that opens a script. -/
def scriptOpening : Text := "<script>".toList

/-- The tag that closes a script. -/
def scriptClosing : Text := "</script>".toList

/-- The body of a script that a text consists of, blanks around it aside. -/
def scriptBody? (t : Text) : Option StatementBody := do
  let inside ← Text.stripPrefix? scriptOpening (Text.trim t)
  let body ← Text.stripSuffix? scriptClosing inside
  pure
    { head := t.takeWhile Text.isBlank ++ scriptOpening
      body
      tail := scriptClosing ++ (t.reverse.takeWhile Text.isBlank).reverse
      scripted := true }

/-- The body of a statement: of the script it consists of, or the whole of it. A statement of blanks
has none, unlike the empty one. -/
def statementBody (t : Text) : Java.Lowered StatementBody :=
  if !t.isEmpty && Text.blank t then throw .blankStatement
  else pure ((scriptBody? t).getD ⟨[], t, [], false⟩)

/-- The binder for a body. Outside a script no elements may be inserted, and entities stand for
themselves. -/
def StatementBody.binder (b : StatementBody) (ignore : IgnoreList) : Binder :=
  ⟨ignore, b.scripted, b.scripted⟩

/-! ## Detection -/

/-- The fix for a statement that can be replaced by one literal. -/
def literalFix (value : Java.Place) (b : StatementBody) (r : Binder.Outcome)
    (advice : Option Edit) : Fix :=
  let edits :=
    if r.text = b.body then []
    else [⟨value.node.span, Java.literalOf (b.head ++ r.text ++ b.tail)⟩]
  if r.complete then Fix.binding edits else (Fix.binding edits).withAdvisory advice

/-- The detection for an annotation, if there is one. -/
def inspectAnnotated (c : Settings) (s : Java.Source) (p : Java.Place) :
    Java.Lowered (Option Detection) := do
  match statementValue? s.imports p with
  | none => pure none
  | some value =>
    match ← statementContent s value with
    | none => pure none
    | some content =>
      let b ← statementBody content.text
      let r := b.binder c.ignore
      if (r.remainingRisk b.body).isRisky then
        let advice ← Java.adviseAbove s ((p.callable?.map Java.Place.start).getD p.start)
        pure (some
          { inspection := .annotatedMethod
            message := annotatedMethodMessage.toList
            span := p.node.span
            flagged := p.text
            location := s.locationName p
            fix :=
              if content.literalOnly then literalFix value b (r.fix b.body) advice
              else Fix.advisory advice })
      else pure none

/-- The detections for the annotations of a source. -/
def detectAnnotated (c : Settings) (s : Java.Source) : Java.Lowered (List Detection) := do
  let found ← (s.places.filter (·.kind == .annotationUse)).mapM (inspectAnnotated c s)
  pure (found.filterMap id)

end SqlInjection
