import SqlInjection.Detector.AnnotatedMethod
import SqlInjection.Detector.FormatTemplate
import SqlInjection.Detector.MapperDocument
import SqlInjection.Finding.Severity

/-!
# The engine

The inspections that are in use, with the severity that each reports. They run in turn over a source
file; one that meets a source it cannot read through reports nothing, and the others still run.
-/

namespace SqlInjection

/-- What an inspection of a source reports. -/
def reported (found : Java.Lowered (List Detection)) : List Detection :=
  match found with
  | .ok ds => ds
  | .error _ => []

/-- The detections of one inspection in a source file. -/
def Inspection.detect (i : Inspection) (c : Settings) (f : SourceFile) : List Detection :=
  match i, f with
  | concatenation, .java s => reported (detectConcatenations c s)
  | formatTemplate, .java s => reported (detectFormatCalls c s)
  | annotatedMethod, .java s => reported (detectAnnotated c s)
  | mapperDocument, .mapper d => detectInMapper c d
  | _, _ => []

/-- The inspections in use, and what they consult. -/
structure Engine where
  inspections : List (Inspection × Severity)
  settings : Settings
  deriving Repr

namespace Engine

/-- The names of the inspections in use. -/
def names (e : Engine) : List String := e.inspections.map fun (i, _) => i.name

/-- The severity that an inspection reports. -/
def severity (e : Engine) (i : Inspection) : Severity :=
  ((e.inspections.find? fun (j, _) => j == i).map Prod.snd).getD .high

/-- The detections in a source file, inspection by inspection. -/
def run (e : Engine) (f : SourceFile) : List Detection :=
  e.inspections.flatMap fun (i, _) => i.detect e.settings f

end Engine

end SqlInjection
