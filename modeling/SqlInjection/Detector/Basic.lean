import SqlInjection.Detector.Settings
import SqlInjection.Edit.Fix
import SqlInjection.Finding.Fingerprint
import SqlInjection.Java.Lowering
import SqlInjection.Mapper.Document

/-!
# Detections

An inspection reads one source file and reports detections: what was flagged, where, and what can be
done about it.
-/

namespace SqlInjection

/-- The inspections. -/
inductive Inspection where
  /-- Statements built by concatenation. -/
  | concatenation
  /-- Statements built by filling in a format template. -/
  | formatTemplate
  /-- Statements in the annotations of a mapper's methods. -/
  | annotatedMethod
  /-- Statements in a mapper document. -/
  | mapperDocument
  deriving DecidableEq, Repr

namespace Inspection

/-- All inspections, in the order in which they run. -/
def all : List Inspection := [concatenation, formatTemplate, annotatedMethod, mapperDocument]

/-- The name of an inspection in reports and settings. -/
def name : Inspection → String
  | concatenation => "polyadic-sqli"
  | formatTemplate => "format-string-sqli"
  | annotatedMethod => "mybatis-annotation-sqli"
  | mapperDocument => "mybatis-xml-sqli"

end Inspection

/-- A flagged location. -/
structure Detection where
  inspection : Inspection
  message : Text
  span : Span
  flagged : Text
  /-- The name of the location. -/
  location : Text
  fix : Fix
  deriving Repr

namespace Detection

/-- The fingerprint of a detection. -/
def fingerprint (d : Detection) : UInt32 := SqlInjection.fingerprint d.location d.flagged

end Detection

/-- A source file that can be inspected. -/
inductive SourceFile where
  | java (source : Java.Source)
  | mapper (document : Mapper.Document)
  deriving Repr

/-- The text of a source file. -/
def SourceFile.text : SourceFile → Text
  | java s => s.text
  | mapper d => d.source

namespace Java

/-- The advisory comment above the line where byte offset `n` lies. -/
def adviseAbove (s : Source) (n : Nat) : Lowered (Option Edit) :=
  match adviseAt? .java s.text n with
  | some edit => pure edit
  | none => throw .cutsCharacter

/-- The detection at a place whose statement gets an advisory comment. -/
def advisoryDetection (i : Inspection) (message : String) (s : Source) (p : Place) :
    Lowered Detection := do
  let edit ← adviseAbove s ((p.statement?.map Place.start).getD p.start)
  pure
    { inspection := i
      message := message.toList
      span := p.node.span
      flagged := p.text
      location := s.locationName p
      fix := Fix.advisory edit }

end Java

end SqlInjection
