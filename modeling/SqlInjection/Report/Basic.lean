import SqlInjection.Finding.Basic
import SqlInjection.Json.Basic
import SqlInjection.Project.Path
import SqlInjection.Report.Format
import SqlInjection.Report.Style

/-!
# Reports

A report tells the findings of a scan, as a text for people, with the findings of one file together
and the files in the order of their paths, or as JSON for programs.
-/

namespace SqlInjection

/-- What a scan has found. -/
structure Report where
  id : Text
  time : Text
  root : Text
  filesScanned : Nat
  findings : List Finding
  deriving Repr

/-! ## JSON -/

/-- A finding as JSON. -/
def Finding.toJson (f : Finding) : JsonValue :=
  .fields [("id", .text f.id), ("detector", .text f.detector),
    ("severity", .text f.severity.name.toList), ("title", .text f.title),
    ("description", .text f.description), ("file", .text f.file),
    ("line_start", .ofOption .number f.lineStart), ("line_end", .ofOption .number f.lineEnd),
    ("fqname", .text f.location), ("flagged_text", .text f.flagged),
    ("fingerprint", .number f.fingerprint), ("suggested_fix", .ofOption .text f.suggestion),
    ("fix_status", .ofOption (fun s => .text s.name.toList) f.fixStatus),
    ("category", .ofOption .text f.category), ("cwe_id", .ofOption .text f.weakness)]

/-- A summary as JSON. -/
def Summary.toJson (s : Summary) : JsonValue :=
  .fields [("critical", .number s.critical), ("high", .number s.high), ("medium", .number s.medium),
    ("low", .number s.low), ("info", .number s.info), ("total", .number s.total),
    ("fixable", .number s.fixable)]

namespace Report

/-- The summary of a report. -/
def summary (r : Report) : Summary := Summary.of r.findings

/-- A report as JSON. -/
def toJson (r : Report) : JsonValue :=
  .fields [("scan_id", .text r.id), ("generated_at", .text r.time), ("root", .text r.root),
    ("files_scanned", .number r.filesScanned), ("findings_summary", r.summary.toJson),
    ("findings", .list (r.findings.map Finding.toJson))]

/-! ## Text -/

/-- The findings of one file, under the first spelling of its path. -/
structure FileGroup where
  file : Text
  findings : List Finding
  deriving Repr

/-- The groups with one more finding, in the order of their paths. -/
def addToGroups (f : Finding) : List FileGroup → List FileGroup
  | [] => [⟨f.file, [f]⟩]
  | g :: gs =>
    match Path.compare f.file g.file with
    | .lt => ⟨f.file, [f]⟩ :: g :: gs
    | .eq => { g with findings := g.findings ++ [f] } :: gs
    | .gt => g :: addToGroups f gs

/-- The findings, file by file. -/
def byFile (fs : List Finding) : List FileGroup := fs.foldl (fun gs f => addToGroups f gs) []

/-- The letter of a severity, in its style. -/
def severityTag (shown : Bool) : Severity → Text
  | .critical => Style.paint { colour := some .red, emphasis := [.bold] } shown "[C]".toList
  | .high => Colour.red.style.paint shown "[H]".toList
  | .medium => Colour.yellow.style.paint shown "[M]".toList
  | .low => Colour.blue.style.paint shown "[L]".toList
  | .info => Emphasis.dim.style.paint shown "[I]".toList

/-- What a fix can do for a finding. -/
def fixLabel (shown : Bool) : Option FixStatus → Text
  | some .fixed => Colour.green.style.paint shown "autofix".toList
  | some .unresolved => Colour.yellow.style.paint shown "manual".toList
  | none => []

/-- A text with spaces before it, so that it has at least `width` characters. -/
def padLeft (width : Nat) (t : Text) : Text := List.replicate (width - t.length) ' ' ++ t

/-- A finding on two lines. -/
def findingLines (shown : Bool) (f : Finding) : Text :=
  let line := match f.lineStart with
    | some n => decimal n
    | none => ['?']
  let word (w : String) : Text := Emphasis.dim.style.paint shown w.toList
  "  ".toList ++ padLeft 5 line ++ "  ".toList ++ severityTag shown f.severity ++ "  ".toList ++
    f.description ++ "  ".toList ++ fixLabel shown f.fixStatus ++ "\n         ".toList ++
    word "at" ++ ' ' :: f.location ++ "  ".toList ++ word "fingerprint" ++
    ' ' :: hexDigits 8 f.fingerprint ++ ['\n']

/-- The findings of one file, under its path. -/
def groupLines (shown : Bool) (g : FileGroup) : Text :=
  Style.paint { emphasis := [.bold, .underlined] } shown g.file ++
    '\n' :: g.findings.flatMap (findingLines shown) ++ ['\n']

/-- A report as a text. -/
def toText (shown : Bool) (r : Report) : Text :=
  let rule : Text := List.replicate 38 '─'
  let head := '\n' :: Emphasis.bold.style.paint shown "sqlsentry scan".toList ++
    '\n' :: Emphasis.dim.style.paint shown rule ++ "\nFiles scanned: ".toList ++
    decimal r.filesScanned ++ "  Findings: ".toList ++ decimal r.summary.total ++
    "  Auto-fixable: ".toList ++ decimal r.summary.fixable ++ "\n\n".toList
  if r.findings.isEmpty then
    head ++ Colour.green.style.paint shown "No SQL injection risks found.".toList ++ ['\n']
  else
    head ++ (byFile r.findings).flatMap (groupLines shown) ++
      Emphasis.dim.style.paint shown
        "Run `sqlsentry fix` to apply rewrites and advisory comments.".toList ++ ['\n']

/-- A report in a format. -/
def render (format : ReportFormat) (shown : Bool) (r : Report) : Text :=
  match format with
  | .text => r.toText shown
  | .json => r.toJson.pretty

end Report

end SqlInjection
