import SqlInjection.Detector.Engine

/-!
# Findings

A finding is a detection as it is reported.
-/

namespace SqlInjection

/-- A detection as it is reported. -/
structure Finding where
  id : Text := []
  detector : Text := []
  severity : Severity := .info
  title : Text := []
  description : Text := []
  file : Text := []
  lineStart : Option Nat := none
  lineEnd : Option Nat := none
  location : Text := []
  flagged : Text := []
  fingerprint : Nat := 0
  suggestion : Option Text := none
  fixStatus : Option FixStatus := none
  category : Option Text := none
  weakness : Option Text := none
  deriving DecidableEq, Repr

/-- The report of a detection in a file. -/
def Detection.toFinding (d : Detection) (file source : Text) (severity : Severity) : Finding :=
  let first := Text.lineNumber source d.span.start
  { id := findingId d.inspection.name.toList file first d.flagged
    detector := d.inspection.name.toList
    severity
    title := "Possible SQL injection".toList
    description := d.message
    file
    lineStart := some first
    lineEnd := some (Text.lineNumber source d.span.stop)
    location := d.location
    flagged := d.flagged
    fingerprint := d.fingerprint.toNat
    suggestion := some d.fix.suggestion.toList
    fixStatus := some d.fix.status
    category := some "security".toList
    weakness := some "CWE-89".toList }

/-- How many findings there are of each severity, in all, and with a fix. -/
structure Summary where
  critical : Nat
  high : Nat
  medium : Nat
  low : Nat
  info : Nat
  total : Nat
  fixable : Nat
  deriving DecidableEq, Repr

/-- The summary of findings. -/
def Summary.of (fs : List Finding) : Summary :=
  let count (s : Severity) : Nat := fs.countP (·.severity == s)
  { critical := count .critical
    high := count .high
    medium := count .medium
    low := count .low
    info := count .info
    total := fs.length
    fixable := fs.countP (·.fixStatus == some .fixed) }

end SqlInjection
