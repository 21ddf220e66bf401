import SqlInjection.Project.FileTree
import SqlInjection.Repository.Config
import SqlInjection.Repository.Refspec

/-!
# The remote of a repository

A project belongs to the repository in its directory or in the nearest directory above it. The
repository is told by the address of its remote `origin`.
-/

namespace SqlInjection.Repository

/-- The names of what a repository is made of. -/
def directoryName : Text := ".git".toList

/-- Whether a directory holds a repository. -/
def holdsRepository (t : FileTree) (l : Location) : Bool :=
  t.isFile (l ++ ["HEAD".toList]) && t.isDirectory (l ++ ["objects".toList]) &&
    t.isDirectory (l ++ ["refs".toList])

/-- The directory that a file in the place of a repository leads to. -/
def linked? (t : FileTree) (directory : Location) (file : Text) : Option Location := do
  let path ← Text.stripPrefix? "gitdir:".toList (Text.dropEndWhile isSpace file)
  (t.resolve directory (path.dropWhile isSpace)).toOption

/-- The repository of a directory: inside it, linked from it, or the directory itself. -/
def repositoryOf? (t : FileTree) (directory : Location) : Option Location :=
  let inside := directory ++ [directoryName]
  let place := match t.text? inside with
    | some file => linked? t directory file
    | none => some inside
  (place.toList ++ [directory]).find? (holdsRepository t)

/-- The repository that a location belongs to. -/
def find? (t : FileTree) (l : Location) : Option Location :=
  ((List.range (l.length + 1)).map l.take).reverse.findSome? (repositoryOf? t)

/-- The settings of a repository, if they are well formed. A repository without settings has none. A
repository of a later form cannot be read. -/
def settingsOf? (t : FileTree) (repository : Location) : Option (List Setting) := do
  let file ← match t.content? (repository ++ ["config".toList]) with
    | some b => Text.decode? b
    | none => some []
  let settings ← settings? file
  match lookup? settings "core.repositoryformatversion".toList with
  | some v => if v = ['0'] || v = ['1'] then some settings else none
  | none => some settings

/-- The beginnings of addresses that stand for others: what they stand for, and the beginnings. -/
def abbreviations (settings : List Setting) : List (Text × Text) :=
  settings.filterMap fun (name, v) => do
    let rest ← Text.stripPrefix? "url.".toList name
    let base ← Text.stripSuffix? ".insteadof".toList rest
    return (base, v)

/-- An address with the longest beginning that stands for another one replaced. -/
def fullAddress (settings : List Setting) (address : Text) : Text :=
  let longest := (abbreviations settings).foldl (fun best (base, v) =>
    if Text.startsWith address v && (best.map fun b : Text × Text => b.2.length).getD 0 < v.length
    then some (base, v) else best) none
  match longest with
  | some (base, v) => base ++ address.drop v.length
  | none => address

/-- The address of the remote `origin`, by the settings of a repository. -/
def originOf? (settings : List Setting) : Option Text := do
  let address ← lookup? settings "remote.origin.url".toList
  let rules := settings.filter fun s => s.1 == "remote.origin.fetch".toList
  if address.isEmpty || !rules.all (fun s => isFetchRule s.2) then none
  else return fullAddress settings address

/-- The address of the remote `origin` of the repository that a location belongs to. -/
def origin? (t : FileTree) (l : Location) : Option Text := do
  let repository ← find? t l
  originOf? (← settingsOf? t repository)

end SqlInjection.Repository
