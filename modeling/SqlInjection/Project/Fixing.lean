import SqlInjection.Project.Scan

/-!
# Fixing

The fixes of a scan are applied file by file. A changed file is written first; only then is each of
its detections resolved. If a file cannot be written, nothing of it or of the files after it is done.
A dry run does nothing and tells the same.
-/

namespace SqlInjection

/-- What fixing does, in order. -/
inductive FixEffect where
  /-- Writes a file, at its location below the root of the project. -/
  | write (location : Location) (text : Text)
  /-- Tells what became of a detection. -/
  | resolve (sign : UInt32) (status : Feedback.Status)
  deriving DecidableEq, Repr

/-- How a file is changed. -/
structure FileChange where
  location : Location
  fixed : Nat
  unresolved : Nat
  text : Text
  deriving DecidableEq, Repr

/-- What fixing has come to. -/
structure FixSummary where
  changes : List FileChange
  fixed : Nat
  unresolved : Nat
  deriving DecidableEq, Repr

namespace FileScan

/-- The text of a file with all fixes. Fixes start and end between characters, so they can always be
applied. -/
def fixedText (f : FileScan) : Text :=
  (applyEdits? f.source (f.detections.flatMap fun d => d.fix.edits)).getD f.source

/-- Whether fixing changes a file. -/
def isChanged (f : FileScan) : Bool := f.fixedText != f.source

/-- The number of detections that are fixed. -/
def fixed (f : FileScan) : Nat := f.detections.countP (·.fix.status == .fixed)

/-- The number of detections that are left to someone to look at. -/
def unresolved (f : FileScan) : Nat := f.detections.length - f.fixed

/-- How a file is changed, if it is. -/
def change? (f : FileScan) : Option FileChange :=
  if f.isChanged then some ⟨f.location, f.fixed, f.unresolved, f.fixedText⟩ else none

/-- What fixing one file does. -/
def effects (f : FileScan) : List FixEffect :=
  (if f.isChanged then [.write f.location f.fixedText] else []) ++
    f.detections.map fun d => .resolve d.fingerprint (Feedback.Status.ofFix d.fix.status)

end FileScan

/-- What fixing no file comes to. -/
def FixSummary.empty : FixSummary := ⟨[], 0, 0⟩

/-- The summary with a file before all others. -/
def FixSummary.withFile (f : FileScan) (s : FixSummary) : FixSummary :=
  ⟨f.change?.toList ++ s.changes, f.fixed + s.fixed, f.unresolved + s.unresolved⟩

/-- What fixing did, and what it came to or which file could not be written. -/
structure FixRun where
  effects : List FixEffect
  outcome : Except Location FixSummary

/-- Fixes files, each given with whether it can be written. -/
def fixFiles (dryRun : Bool) : List (FileScan × Bool) → FixRun
  | [] => ⟨[], .ok FixSummary.empty⟩
  | (f, writable) :: fs =>
    if !dryRun && f.isChanged && !writable then ⟨[], .error f.location⟩
    else
      let rest := fixFiles dryRun fs
      ⟨(if dryRun then [] else f.effects) ++ rest.effects,
        rest.outcome.map (FixSummary.withFile f)⟩

/-- Applies the fixes of a scan, where `writable` tells which files can be written. -/
def Scan.fix (s : Scan) (dryRun : Bool) (writable : Location → Bool) : FixRun :=
  fixFiles dryRun (s.files.map fun f => (f, writable f.location))

namespace FixRun

/-- What fixing tells the store. -/
def operations (r : FixRun) : List Feedback.Operation :=
  r.effects.filterMap fun
    | .write _ _ => none
    | .resolve sign status => some (.resolve sign status)

end FixRun

namespace Project

/-- Whether the file at a location below the root can be written. -/
def isWritable (p : Project) (l : Location) : Bool := (p.tree.writeFault? (p.root ++ l)).isNone

/-- The project after the writes among some effects. -/
def afterEffects (p : Project) (effects : List FixEffect) : Project :=
  effects.foldl (fun p e => match e with
    | .write l text => { p with tree := p.tree.put (p.root ++ l) (Text.encode text) }
    | .resolve _ _ => p) p

/-- Applies the fixes of a scan to a project. -/
def fix (p : Project) (s : Scan) (dryRun : Bool) : Project × FixRun :=
  let r := s.fix dryRun p.isWritable
  (p.afterEffects r.effects, r)

end Project

end SqlInjection
