import SqlInjection.Clause.Statement
import SqlInjection.Detector.Basic

/-!
# Statements built by concatenation

Every concatenation that is not part of a larger one is inspected as a whole. It is flagged if it
reads like a statement and a part that carries text stands where a value stands, or if it builds a
format template with a placeholder there.
-/

namespace SqlInjection

/-- What is said of a concatenation. -/
def concatenationMessage : String :=
  "SQL built by string concatenation; use parameter placeholders"

/-- What is said of a format template. -/
def formatMessage : String := "SQL built with a format template; use parameter placeholders"

namespace Java

/-- Whether a place is a concatenation. -/
def Place.isPlus (p : Place) : Bool := p.kind == .binary && p.node.operator == some Expr.plus

/-- Whether a place is an operand of a concatenation, perhaps in parentheses. -/
def Place.isNestedOperand (p : Place) : Bool :=
  match p.enclosing.dropWhile (·.kind == .parenthesized) with
  | parent :: _ => parent.isPlus
  | [] => false

/-- The concatenations of a source that are inspected. -/
def Source.concatenations (s : Source) : List Place :=
  s.places.filter fun p => p.isPlus && !p.isNestedOperand

end Java

/-- Whether a format placeholder occurs in a text. -/
def hasPlaceholder (t : Text) : Bool := !(occurrences formatPattern t).isEmpty

/-- Whether fragments build a format template with a placeholder where a value stands. -/
def buildsRiskyTemplate (fs : List Fragment) : Bool :=
  let built := shape fs
  hasPlaceholder built && isFilteredStatement (apparent fs) &&
    (templateRisk formatPattern built).isRisky

/-- Whether a text reads like a statement, by the settings. -/
def Settings.readsAsStatement (c : Settings) (t : Text) : Bool :=
  if c.requireStatement then isFilteredStatement t else mentionsVerb t

/-- What is to be said of the fragments of a concatenation. -/
def concatenationVerdict (fs : List Fragment) : Option String :=
  if fs.any Fragment.carriesText && (chainRisk fs).isRisky then some concatenationMessage
  else if buildsRiskyTemplate fs then some formatMessage
  else none

/-- The detection for a concatenation, if there is one. Concatenations that are only logged are left
alone. -/
def inspectConcatenation (c : Settings) (s : Java.Source) (p : Java.Place) :
    Java.Lowered (Option Detection) := do
  let fs := (← s.lower p).fragments
  if !c.readsAsStatement (apparent fs) || p.insideCall c.logs then pure none
  else
    match concatenationVerdict fs with
    | some message => some <$> Java.advisoryDetection .concatenation message s p
    | none => pure none

/-- The detections for the concatenations of a source. -/
def detectConcatenations (c : Settings) (s : Java.Source) : Java.Lowered (List Detection) := do
  let found ← s.concatenations.mapM (inspectConcatenation c s)
  pure (found.filterMap id)

end SqlInjection
