import SqlInjection.Text.Basic

/-!
# Paths

A path is a text whose parts are divided by slashes. Empty parts and parts that stand for the same
directory do not count, except that a path may start at the root or at the same directory.

`Path.compare` orders paths part by part. Two spellings of one path are equal in this order.
-/

namespace SqlInjection.Path

/-- The part that stands for the same directory. -/
def same : Text := ['.']

/-- The part that stands for the directory above. -/
def above : Text := ['.', '.']

/-- The parts of a path. -/
def parts (path : Text) : List Text :=
  (Text.splitOn '/' path).filter fun p => !p.isEmpty && p != same

/-- The path with the given parts. -/
def ofParts (ps : List Text) : Text := Text.join ['/'] ps

/-- The last part of a path, if it is a name. -/
def name? (path : Text) : Option Text :=
  match (parts path).getLast? with
  | some p => if p = above then none else some p
  | none => none

/-- What stands after the last point of a name; a point at its front does not count. -/
def nameExtension? (name : Text) : Option Text :=
  match Text.cut? '.' name.reverse with
  | some (after, before) => if before.isEmpty then none else some after.reverse
  | none => none

/-- The extension of the last part of a path. -/
def extension? (path : Text) : Option Text := (name? path).bind nameExtension?

/-! ## Order -/

/-- What a path is made of, in this order. -/
inductive Component where
  /-- The slash at the front of a path. -/
  | root
  /-- The same directory, at the front of a path. -/
  | same
  | above
  | name (n : Text)
  deriving DecidableEq, Repr

/-- What a path is made of. -/
def components (path : Text) : List Component :=
  let front := match Text.splitOn '/' path with
    | [] => []
    | first :: more =>
      if first.isEmpty then (if more.isEmpty then [] else [Component.root])
      else if first = Path.same then [Component.same]
      else []
  front ++ (parts path).map fun p => if p = Path.above then .above else .name p

/-- The place of a component among the kinds of components. -/
def Component.rank : Component → Nat
  | root => 0
  | same => 1
  | above => 2
  | name _ => 3

/-- The order of components: by kind, and names by their bytes. -/
def Component.compare : Component → Component → Ordering
  | name a, name b => Text.compare a b
  | a, b => Ord.compare a.rank b.rank

/-- The order of lists of components. -/
def compareComponents : List Component → List Component → Ordering
  | [], [] => .eq
  | [], _ :: _ => .lt
  | _ :: _, [] => .gt
  | a :: s, b :: t => (Component.compare a b).then (compareComponents s t)

/-- The order of paths. -/
def compare (a b : Text) : Ordering := compareComponents (components a) (components b)

end SqlInjection.Path
