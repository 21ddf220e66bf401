import SqlInjection.Config.Project
import SqlInjection.Project.IgnoreFile
import SqlInjection.Project.SourceKind

/-!
# The source files of a project

A scan reads the source files below a directory that neither ignore files nor the settings of the
project leave out, in the order of their locations.
-/

namespace SqlInjection

/-- A project: a directory in a file tree. -/
structure Project where
  tree : FileTree
  root : Location

namespace Project

/-- The name of a project is that of its directory. -/
def name (p : Project) : Text := p.root.getLast?.getD "unknown".toList

/-- The settings of a project. -/
def config (p : Project) : ProjectConfig :=
  ProjectConfig.load (p.tree.text? (p.root ++ [projectConfigFile]))

/-- The files below the root, by their locations from there. -/
def filesBelow (p : Project) : List (Location × ByteArray) :=
  p.tree.files.filterMap fun (l, b) => (Location.below? p.root l).map (·, b)

/-- Whether a scan with these settings reads the file at a location below the root. -/
def reads (p : Project) (config : ProjectConfig) (below : Location) : Bool :=
  let path := Path.ofParts below
  (SourceKind.ofPath? path).isSome && !config.excludes path &&
    p.tree.isReached p.root (p.root ++ below)

/-- The files that a scan with these settings reads, by their locations below the root. -/
def sourceFiles (p : Project) (config : ProjectConfig) : List (Location × ByteArray) :=
  (p.filesBelow.filter fun f => p.reads config f.1).mergeSort
    fun a b => Location.compare a.1 b.1 != .gt

end Project

end SqlInjection
