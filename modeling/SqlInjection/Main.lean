import Std.Time.DateTime.Timestamp
import SqlInjection.Command.Run
import SqlInjection.Report.Stamp

/-!
# The program

Reads the files that a command may need, does what the arguments ask for, prints what is told and
writes the files that have changed.
-/

namespace SqlInjection

/-- The location of an absolute path. -/
def locationOf (path : String) : Location := Path.parts path.toList

/-- The path of a location. -/
def pathOf (l : Location) : String := String.ofList l.absolutePath

/-- What a file holds; nothing if it cannot be read. -/
def readFile (path : String) : IO ByteArray := do
  try IO.FS.readBinFile path catch _ => return ByteArray.empty

/-- Whether there is something at a path, and whether it is a directory. -/
def look (path : String) : IO (Option Bool) := do
  try
    let real ← IO.FS.realPath path
    return some (← real.isDir)
  catch _ => return none

/-- Reads a file, if there is one, into a tree. -/
def readInto (t : FileTree) (path : String) : IO FileTree := do
  if (← look path) == some false then return t.add (locationOf path) (← readFile path) else return t

/-- Reads all files below a directory. Of a repository only what it leaves out is read, and links to
directories are not followed. -/
partial def readBelow (directory : String) (t : FileTree) : IO FileTree := do
  let entries ← try (← IO.FS.realPath directory).readDir catch _ => return t
  let mut t := t.makeDirectory (locationOf directory)
  for entry in entries do
    let path := directory ++ "/" ++ entry.fileName
    if entry.fileName == ".git" then t ← readInto t (path ++ "/info/exclude")
    else if (← look path) == some true then
      if (← entry.path.symlinkMetadata).type == .dir then t ← readBelow path t
    else t ← readInto t path
  return t

/-- Reads the ignore files of the directories above a location. -/
def readAbove (l : Location) (t : FileTree) : IO FileTree :=
  (FileTree.directoriesAbove l).foldlM (fun t directory =>
    ignoreFiles.foldlM (fun t file => readInto t (pathOf (directory ++ file))) t) t

/-- The directory of a path to write to. -/
def directoryOf (path : Text) : Text :=
  match Text.cut? '/' path.reverse with
  | some (_, front) => (front.reverse ++ ['/'])
  | none => Path.same

/-- Notes a directory in a tree, if there is one at a path. -/
def noteDirectory (t : FileTree) (path : Text) : IO FileTree := do
  if (← look (String.ofList path)) == some true then
    return t.makeDirectory (locationOf (← IO.FS.realPath (String.ofList path)).toString)
  else return t

/-- Reads what a command may need. -/
def readWorld (a : Arguments) : IO (World × Arguments) := do
  let working := (← IO.currentDir).toString
  let mut t := FileTree.empty.makeDirectory (locationOf working)
  let mut path := a.path
  if let some isDirectory ← look (String.ofList a.path) then
    let root := (← IO.FS.realPath (String.ofList a.path)).toString
    path := root.toList
    t ← readAbove (locationOf root) t
    t ← if isDirectory then readBelow root t else readInto t root
  if let .scan _ (some out) _ := a.command then
    t ← noteDirectory t (directoryOf out)
    t ← noteDirectory t out
  let world : World :=
    { tree := t
      working := locationOf working
      styled := ← (← IO.getStdout).isTty
      scanId := scanName (← IO.rand 0 (scanNames - 1))
      time := timeStamp (← Std.Time.Timestamp.now).toNanosecondsSinceUnixEpoch.val.toNat }
  return (world, { a with path })

/-- Writes the files that have changed. -/
def writeChanges (before after : FileTree) : IO Unit := do
  for (l, b) in after.files do
    unless before.content? l == some b do IO.FS.writeBinFile (pathOf l) b

/-- Prints what is told, and gives the code to end with. -/
def finish (o : Outcome) : IO UInt32 := do
  IO.print (String.ofList o.output)
  IO.eprint (String.ofList o.errors)
  return o.code.toUInt32

end SqlInjection

open SqlInjection

/-- Does what the arguments ask for. -/
def main (args : List String) : IO UInt32 := do
  match Arguments.parse (args.map String.toList) with
  | .error f => finish (World.refuse ⟨FileTree.empty, [], false, [], []⟩ f)
  | .ok a =>
    let (world, a) ← readWorld a
    let o := world.carryOut a
    writeChanges world.tree o.tree
    finish o
