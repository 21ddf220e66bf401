import SqlInjection.Project.Path
import SqlInjection.Text.Bytes

/-!
# File trees

A file tree is the files and directories below a top directory. A location is the list of names that
lead from the top to one of them.

* `FileTree.resolve` finds what a path leads to from a working directory.
* `FileTree.writeFault?` tells why a file cannot be written, and `FileTree.put` writes it.
-/

namespace SqlInjection

/-- The names that lead from the top directory to a file or directory. -/
abbrev Location := List Text

namespace Location

/-- The order of locations, name by name. -/
def compare : Location → Location → Ordering
  | [], [] => .eq
  | [], _ :: _ => .lt
  | _ :: _, [] => .gt
  | a :: s, b :: t => (Text.compare a b).then (compare s t)

/-- The location relative to a directory, if it lies below it. -/
def below? : Location → Location → Option Location
  | [], l => some l
  | _ :: _, [] => none
  | d :: ds, n :: ns => if d = n then below? ds ns else none

/-- The absolute path of a location. -/
def absolutePath (l : Location) : Text := '/' :: Path.ofParts l

end Location

/-- Why a path leads nowhere, or a file cannot be written. -/
inductive FileFault where
  | missing
  | notDirectory
  | isDirectory
  deriving DecidableEq, Repr

/-- What is said of a fault. -/
def FileFault.message : FileFault → String
  | missing => "No such file or directory (os error 2)"
  | notDirectory => "Not a directory (os error 20)"
  | isDirectory => "Is a directory (os error 21)"

/-- The files of a tree, with what they hold, and its directories besides the top. -/
structure FileTree where
  files : List (Location × ByteArray)
  directories : List Location

namespace FileTree

/-- The tree that holds nothing. -/
def empty : FileTree := ⟨[], []⟩

/-- What a file holds. -/
def content? (t : FileTree) (l : Location) : Option ByteArray := t.files.lookup l

/-- The text of a file, if it holds one. -/
def text? (t : FileTree) (l : Location) : Option Text := (t.content? l).bind Text.decode?

/-- Whether a location is that of a file. -/
def isFile (t : FileTree) (l : Location) : Bool := (t.content? l).isSome

/-- Whether a location is that of a directory. -/
def isDirectory (t : FileTree) (l : Location) : Bool := l.isEmpty || t.directories.contains l

/-! ## Paths -/

/-- What is wrong with looking for something inside a location, if anything is. -/
def enter (t : FileTree) (l : Location) : Except FileFault Unit :=
  if t.isDirectory l then .ok ()
  else if t.isFile l then .error .notDirectory
  else .error .missing

/-- Follows the parts of a path from a location. -/
def follow (t : FileTree) (l : Location) : List Text → Except FileFault Location
  | [] => .ok l
  | p :: ps => do
    t.enter l
    if p.isEmpty || p == Path.same then t.follow l ps
    else if p = Path.above then t.follow l.dropLast ps
    else
      let next := l ++ [p]
      if t.isDirectory next || t.isFile next then t.follow next ps else .error .missing

/-- Where a path starts, and its parts from there: an absolute path starts at the top. -/
def start (working : Location) (path : Text) : Location × List Text :=
  match Text.splitOn '/' path with
  | [] :: p :: ps => ([], p :: ps)
  | ps => (working, ps)

/-- The location that a path leads to from a working directory. -/
def resolve (t : FileTree) (working : Location) (path : Text) : Except FileFault Location :=
  let (l, ps) := start working path
  t.follow l ps

/-- The location of the file that is written at a path. All but the last part has to lead to a
directory, and the last part has to be a name, without a slash after it, that is not that of a
directory. -/
def target (t : FileTree) (working : Location) (path : Text) : Except FileFault Location := do
  let (l, ps) := start working path
  let named := (ps.reverse.dropWhile List.isEmpty).reverse
  let directory ← t.follow l named.dropLast
  t.enter directory
  match named.getLast? with
  | none => .error .isDirectory
  | some name =>
    let file := directory ++ [name]
    if named.length < ps.length || name == Path.same || name == Path.above || t.isDirectory file
    then .error .isDirectory
    else .ok file

/-! ## Changes -/

/-- The tree with a file that holds the given bytes, whether or not there was one. -/
def put (t : FileTree) (l : Location) (b : ByteArray) : FileTree :=
  if t.isFile l then
    { t with files := t.files.map fun (k, old) => if k = l then (k, b) else (k, old) }
  else { t with files := t.files ++ [(l, b)] }

/-- What is wrong with writing a file at a location, if anything is: its directory has to be there,
and it must not be a directory itself. -/
def writeFault? (t : FileTree) (l : Location) : Option FileFault :=
  if t.isDirectory l then some .isDirectory
  else match t.enter l.dropLast with
    | .ok _ => none
    | .error e => some e

/-- The tree with a directory, and the directories above it. -/
def makeDirectory (t : FileTree) (l : Location) : FileTree :=
  let above := (List.range (l.length + 1)).map l.take
  { t with directories := t.directories ++ above.filter fun d => !t.isDirectory d }

/-- The tree with a file, and the directories above it. -/
def add (t : FileTree) (l : Location) (b : ByteArray) : FileTree :=
  (t.makeDirectory l.dropLast).put l b

/-- The tree without a file. -/
def erase (t : FileTree) (l : Location) : FileTree :=
  { t with files := t.files.filter fun (k, _) => k != l }

end FileTree

end SqlInjection
