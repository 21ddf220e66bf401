import SqlInjection.Text.Case

/-!
# Severities
-/

namespace SqlInjection

/-- How severe a finding is. -/
inductive Severity where
  | info
  | low
  | medium
  | high
  | critical
  deriving DecidableEq, Repr, Inhabited

namespace Severity

/-- All severities, the most severe first. -/
def all : List Severity := [critical, high, medium, low, info]

/-- The word for a severity. -/
def name : Severity → String
  | info => "info"
  | low => "low"
  | medium => "medium"
  | high => "high"
  | critical => "critical"

/-- The severity that a word stands for, in letters of any case. -/
def ofName? (word : Text) : Option Severity :=
  all.find? fun s => s.name.toList == Text.lower word

end Severity

end SqlInjection
