import SqlInjection.Feedback.Store
import SqlInjection.Finding.Basic
import SqlInjection.Project.Walk

/-!
# Scans

A scan inspects the source files of a project. It keeps, for each file with something to report, the
text of the file and the detections that have not been reviewed.
-/

namespace SqlInjection

/-- What a scan found in one file. -/
structure FileScan where
  /-- The location of the file below the root of the project. -/
  location : Location
  source : Text
  detections : List Detection

/-- What a scan found. -/
structure Scan where
  filesScanned : Nat
  /-- The files with detections, in the order of their locations. -/
  files : List FileScan

namespace FileScan

/-- The path of the file below the root of the project. -/
def path (f : FileScan) : Text := Path.ofParts f.location

/-- The findings in a file. -/
def findings (engine : Engine) (f : FileScan) : List Finding :=
  f.detections.map fun d => d.toFinding f.path f.source (engine.severity d.inspection)

end FileScan

/-- The record of a detection that nothing has been done about. -/
def Detection.record (d : Detection) (project : Text) : Feedback.Record :=
  ⟨project, d.location, d.message, d.flagged, d.fingerprint, .open⟩

/-- What is detected in a file, if it is a text and one to inspect. -/
def inspectFile? (engine : Engine) (location : Location) (content : ByteArray) :
    Option FileScan := do
  let text ← Text.decode? content
  let kind ← SourceKind.ofPath? (Path.ofParts location)
  let file ← kind.read? text
  return ⟨location, text, engine.run file⟩

namespace Scan

/-- The scan before anything is scanned. -/
def empty : Scan := ⟨0, []⟩

/-- The number of detections. -/
def size (s : Scan) : Nat := (s.files.flatMap (·.detections)).length

/-- The findings of a scan. -/
def findings (engine : Engine) (s : Scan) : List Finding := s.files.flatMap (·.findings engine)

/-- What a scan tells the store: each detection is recorded. -/
def operations (project : Text) (s : Scan) : List Feedback.Operation :=
  s.files.flatMap fun f => f.detections.map fun d => .record (d.record project)

end Scan

namespace FileScan

/-- The scan of a file without the detections that have been reviewed. -/
def dropAllowed (allowed : AllowList) (f : FileScan) : FileScan :=
  { f with detections := f.detections.filter fun d => !allowed.allows d.fingerprint }

end FileScan

namespace Project

/-- Scans a project with these settings, where `inspect` tells what is detected in a file. -/
def scanBy (inspect : Location → ByteArray → Option FileScan) (p : Project)
    (config : ProjectConfig) : Scan :=
  let files := p.sourceFiles config
  let scanned := files.filterMap fun (l, b) => inspect l b
  let reported := scanned.map (·.dropAllowed config.allowList)
  ⟨files.length, reported.filter fun f => !f.detections.isEmpty⟩

/-- Scans a project with these settings. -/
def scan (p : Project) (config : ProjectConfig) : Scan :=
  p.scanBy (inspectFile? config.engine) config

end Project

end SqlInjection
