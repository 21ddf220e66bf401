import SqlInjection.Edit.Basic
import SqlInjection.Text.Blank
import SqlInjection.Text.Line

/-!
# Fixes

What is offered for a finding: edits that bind the values, or an advisory comment on a line of its
own above the code. The comment is offered once: where the line above already is that comment,
nothing is inserted.
-/

namespace SqlInjection

/-- What the edits of a fix achieve. -/
inductive FixStatus where
  /-- The values are bound. -/
  | fixed
  /-- Someone has to look at the code. -/
  | unresolved
  deriving DecidableEq, Repr, Inhabited

/-- The word for a status in reports. -/
def FixStatus.name : FixStatus → String
  | .fixed => "fixed"
  | .unresolved => "unresolved"

/-- Edits for one finding and what they achieve. -/
structure Fix where
  edits : List Edit
  status : FixStatus
  deriving DecidableEq, Repr

namespace Fix

/-- A change that binds the values. -/
def binding (edits : List Edit) : Fix := ⟨edits, .fixed⟩

/-- A comment only, unless it is in place already. -/
def advisory (edit : Option Edit) : Fix := ⟨edit.toList, .unresolved⟩

/-- A change that leaves something for someone to look at. -/
def withAdvisory (f : Fix) (edit : Option Edit) : Fix := ⟨f.edits ++ edit.toList, .unresolved⟩

/-- What a report says to do. -/
def suggestion (f : Fix) : String :=
  match f.status with
  | .fixed => "rewrite the template to bound parameters"
  | .unresolved => "bind the values as parameters by hand"

end Fix

/-- The wording of the comment. -/
def advisoryWording : Text :=
  ("sqlsentry: possible SQL injection; " ++
    "bind values as parameters instead of concatenating them").toList

/-- How a comment is written on a line of its own. -/
inductive CommentStyle where
  | java
  | xml
  deriving DecidableEq, Repr

/-- The comment in a style. -/
def CommentStyle.comment : CommentStyle → Text
  | .java => "// ".toList ++ advisoryWording
  | .xml => "<!-- ".toList ++ advisoryWording ++ " -->".toList

/-- The edit that puts the comment above the line that byte offset `n` lies in; no edit when it is
there already. The outer `none` says that the offset lies inside a character. -/
def adviseAt? (style : CommentStyle) (source : Text) (n : Nat) : Option (Option Edit) :=
  (Text.lineAt? source n).map fun (before, line) =>
    if !before.isEmpty && Text.trim (Text.lastLine before) == style.comment then none
    else some (Edit.insert (Text.byteSize before)
      (Text.indentOf line ++ style.comment ++ ['\n']))

end SqlInjection
