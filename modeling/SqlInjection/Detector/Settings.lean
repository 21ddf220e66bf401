import SqlInjection.Template.Ignore
import SqlInjection.Text.Case

/-!
# Settings of the inspections

What a project may set for all inspections: the names that are left alone, the marks by which calls
for logging are known, and whether a concatenation is only reported when it reads like a whole
filtered statement.
-/

namespace SqlInjection

/-- Whether a method is one for logging or reporting: its name, in small letters, holds one of the
marks. -/
def isLogMethod (marks : List Text) (name : Text) : Bool :=
  marks.any (Text.contains (Text.lower name) ·)

/-- The marks in use unless a project gives its own. -/
def builtinLogMarks : List Text :=
  ["log", "trace", "debug", "info", "alarm", "warn", "error", "fatal", "ok", "succ", "fail",
   "print"].map String.toList

/-- What all inspections consult. -/
structure Settings where
  ignore : IgnoreList
  logMarks : List Text
  /-- Whether a concatenation has to read like a filtered statement. -/
  requireStatement : Bool
  deriving DecidableEq, Repr

namespace Settings

/-- The settings in use unless a project gives its own. -/
def builtin : Settings := ⟨IgnoreList.builtin, builtinLogMarks, true⟩

/-- Whether a method is one for logging. -/
def logs (s : Settings) (name : Text) : Bool := isLogMethod s.logMarks name

end Settings

end SqlInjection
