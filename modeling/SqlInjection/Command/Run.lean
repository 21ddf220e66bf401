import SqlInjection.Command.Help
import SqlInjection.Config.Initial
import SqlInjection.Project.Session
import SqlInjection.Report.Basic

/-!
# Running commands

What the program does in a file tree: what it prints, which files it writes, and the code it ends
with. `run` does what the arguments ask for.
-/

namespace SqlInjection

/-- Where the program runs. -/
structure World where
  tree : FileTree
  /-- The working directory. -/
  working : Location
  /-- Whether styles are shown. -/
  styled : Bool
  /-- The name of the next scan, and its time. -/
  scanId : Text
  time : Text

/-- What the program did. -/
structure Outcome where
  code : Nat
  output : Text
  errors : Text
  tree : FileTree

/-- Why a command failed: what it could not do, and what stood in its way. -/
structure CommandFault where
  message : Text
  cause : Option FileFault

/-- What is said of a failed command. -/
def CommandFault.render (f : CommandFault) : Text :=
  let cause := match f.cause with
    | some c => "\n\nCaused by:\n    ".toList ++ c.message.toList
    | none => []
  "Error: ".toList ++ f.message ++ cause ++ ['\n']

namespace World

/-- The world's outcome when nothing is printed or written. -/
def done (w : World) : Outcome := ⟨0, [], [], w.tree⟩

/-- The mark of success. -/
def checkMark (w : World) : Text := Colour.green.style.paint w.styled ['✓']

/-- The project at a path. -/
def project (w : World) (path : Text) : Except CommandFault Project :=
  match w.tree.resolve w.working path with
  | .error e => .error ⟨"Path does not exist: ".toList ++ path, some e⟩
  | .ok root =>
    if w.tree.isDirectory root then .ok ⟨w.tree, root⟩
    else .error ⟨"Path is not a directory: ".toList ++ root.absolutePath, none⟩

/-! ## Commands -/

/-- Scans a project and writes the report, to a file if one is given. -/
def scan (w : World) (path : Text) (format : ReportFormat) (output : Option Text)
    (failOnFindings : Bool) : Except CommandFault Outcome := do
  let p ← w.project path
  let config := p.config
  let scan := p.scan config
  let report : Report :=
    ⟨w.scanId, w.time, p.root.absolutePath, scan.filesScanned, scan.findings config.engine⟩
  let rendered := report.render format w.styled
  let code := if failOnFindings && !report.findings.isEmpty then 1 else 0
  match output with
  | none => return { w.done with code, output := rendered }
  | some out =>
    match w.tree.target w.working out with
    | .error e => .error ⟨"Failed to write report to ".toList ++ out, some e⟩
    | .ok l =>
      let told := w.checkMark ++ " Report written to ".toList ++
        Colour.cyan.style.paint w.styled out ++ ['\n']
      return ⟨code, [], told, w.tree.put l (Text.encode rendered)⟩

/-- What is said of fixes. -/
def fixLines (w : World) (dryRun : Bool) (s : FixSummary) : Text :=
  let paint (style : Style) (t : Text) : Text := style.paint w.styled t
  let count (c : Colour) (n : Nat) : Text := paint c.style (decimal n)
  let total (c : Colour) (n : Nat) : Text :=
    paint { colour := some c, emphasis := [.bold] } (decimal n)
  let verb := paint Emphasis.bold.style
    (if dryRun then "Would change".toList else "Changed".toList)
  let line (c : FileChange) : Text :=
    verb ++ ' ' :: paint Colour.cyan.style (Path.ofParts c.location) ++ "  ".toList ++
      count .green c.fixed ++ " rewritten, ".toList ++ count .yellow c.unresolved ++
      " advisory\n".toList
  if s.changes.isEmpty then w.checkMark ++ " Nothing to fix\n".toList
  else
    s.changes.flatMap line ++ '\n' :: total .green s.fixed ++ " fixed, ".toList ++
      total .yellow s.unresolved ++ " need manual attention across ".toList ++
      decimal s.changes.length ++ " file(s)\n".toList ++
      if dryRun then paint Emphasis.dim.style "Dry run: no files were written.".toList ++ ['\n']
      else []

/-- Scans a project and fixes what was found. -/
def fix (w : World) (path : Text) (dryRun : Bool) : Except CommandFault Outcome := do
  let p ← w.project path
  let (fixed, r) := p.fix (p.scan p.config) dryRun
  match r.outcome with
  | .ok s => return { w.done with output := w.fixLines dryRun s, tree := fixed.tree }
  | .error l =>
    let file := p.root ++ l
    let fault : CommandFault :=
      ⟨"Failed to write ".toList ++ file.absolutePath, p.tree.writeFault? file⟩
    return { w.done with code := 1, errors := fault.render, tree := fixed.tree }

/-- Writes the settings file that a project starts with, unless there is one. -/
def init (w : World) (path : Text) : Except CommandFault Outcome := do
  let p ← w.project path
  let file := p.root ++ [projectConfigFile]
  let shown := Colour.cyan.style.paint w.styled file.absolutePath ++ ['\n']
  if w.tree.isFile file || w.tree.isDirectory file then
    return { w.done with output := w.checkMark ++ " Already initialized at ".toList ++ shown }
  else
    return { w.done with
      output := w.checkMark ++ " Created ".toList ++ shown
      tree := w.tree.put file (Text.encode initialConfig) }

/-- Does what is asked for. -/
def perform (w : World) (a : Arguments) : Except CommandFault Outcome :=
  match a.command with
  | .scan format output failOnFindings => w.scan a.path format output failOnFindings
  | .fix dryRun => w.fix a.path dryRun
  | .init => w.init a.path

/-- Tells what is wrong with arguments, or what they ask to be told. -/
def refuse (w : World) (f : Command.UsageFault) : Outcome :=
  if f.isAnswer then { w.done with output := f.message }
  else { w.done with code := 2, errors := f.message }

/-- Does what is asked for, or tells why not. -/
def carryOut (w : World) (a : Arguments) : Outcome :=
  match w.perform a with
  | .ok o => o
  | .error f => { w.done with code := 1, errors := f.render }

/-- Does what the arguments ask for. -/
def run (w : World) (args : List Text) : Outcome :=
  match Arguments.parse args with
  | .error f => w.refuse f
  | .ok a => w.carryOut a

end World

end SqlInjection
