import SqlInjection.Detector.Basic
import SqlInjection.Project.Path

/-!
# Kinds of source files

The extension of a file decides how it is read. Of the documents, only mappers are inspected.
-/

namespace SqlInjection

/-- The kinds of source files. -/
inductive SourceKind where
  | java
  | xml
  deriving DecidableEq, Repr

namespace SourceKind

/-- The kind of file with an extension. -/
def ofExtension? (e : Text) : Option SourceKind :=
  if e = "java".toList then some java
  else if e = "xml".toList then some xml
  else none

/-- The kind of the file at a path. -/
def ofPath? (path : Text) : Option SourceKind := (Path.extension? path).bind ofExtension?

/-- The source file with a text, if it is one to inspect. -/
def read? (k : SourceKind) (text : Text) : Option SourceFile :=
  match k with
  | java => (Java.Source.parse? text).map .java
  | xml => (Mapper.Document.parse? text).map .mapper

end SourceKind

end SqlInjection
