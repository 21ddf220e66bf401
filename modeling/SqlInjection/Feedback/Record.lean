import SqlInjection.Edit.Fix

/-!
# Records of findings

A record tells of a finding and of what became of it. Records are told apart by their signs, which
are the fingerprints of the findings. A batch is a list of records in the order of their signs.
-/

namespace SqlInjection.Feedback

/-- What became of a finding. -/
inductive Status where
  /-- Nothing so far. -/
  | open
  | fixed
  /-- A fix left it to someone to look at. -/
  | unresolved
  deriving DecidableEq, Repr

namespace Status

/-- The word for a status. -/
def name : Status → String
  | .open => "open"
  | .fixed => "fixed"
  | .unresolved => "unresolved"

/-- The status that a word stands for. -/
def ofName? (word : Text) : Option Status :=
  [Status.open, .fixed, .unresolved].find? fun s => s.name.toList == word

/-- The status that a fix leads to. -/
def ofFix : FixStatus → Status
  | .fixed => .fixed
  | .unresolved => .unresolved

end Status

/-- A record of a finding. -/
structure Record where
  project : Text
  location : Text
  message : Text
  flagged : Text
  sign : UInt32
  status : Status
  deriving DecidableEq, Repr

/-- Records in the order of their signs, at most one for each sign. -/
abbrev Batch := List Record

namespace Batch

/-- The record with a sign. -/
def find? (sign : UInt32) (b : Batch) : Option Record := List.find? (·.sign == sign) b

/-- The batch with a record in its place; a record of the same sign gives way to it. -/
def insert (r : Record) : Batch → Batch
  | [] => [r]
  | s :: b =>
    if r.sign < s.sign then r :: s :: b
    else if r.sign = s.sign then r :: b
    else s :: insert r b

end Batch

end SqlInjection.Feedback
