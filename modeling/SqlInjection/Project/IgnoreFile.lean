import SqlInjection.Project.FileTree
import SqlInjection.Project.Glob
import SqlInjection.Text.Blank

/-!
# Ignore files

An ignore file has one rule a line. The last rule that matches decides. Each directory may have four
ignore files; of those of one kind the one in the nearest directory decides, and a kind decides before
the kinds after it.
-/

namespace SqlInjection

/-- What an ignore file says of a path. -/
inductive Verdict where
  | skip
  | keep
  deriving DecidableEq, Repr

/-- A rule of an ignore file. -/
structure IgnoreRule where
  verdict : Verdict
  onlyDirectories : Bool
  glob : Glob
  deriving DecidableEq, Repr

namespace IgnoreRule

/-- A line without the blanks at its end, unless the last of them is escaped. -/
def trimmed (line : Text) : Text :=
  if Text.endsWith line ['\\', ' '] then line else Text.trimEnd line

/-- The pattern of a line without its marks, as one of paths from the directory of the file on: a
name alone may stand in any directory, and what is below a directory is not the directory. -/
def fullPattern (anchored : Bool) (pattern : Text) : Text :=
  let double := "**".toList
  let anywhere := !anchored && !pattern.any (· == '/') && pattern != double
  let pattern := if anywhere then double ++ '/' :: pattern else pattern
  if Text.endsWith pattern ('/' :: double) then pattern ++ ['/', '*'] else pattern

/-- Reads a rule. Blank lines, comments and malformed patterns are no rules. -/
def parse? (line : Text) : Option IgnoreRule := do
  if line.head? = some '#' then none
  let line := trimmed line
  if line.isEmpty then none
  let (verdict, anchored, line) := match line with
    | '\\' :: '!' :: s => (Verdict.skip, false, '!' :: s)
    | '\\' :: '#' :: s => (Verdict.skip, false, '#' :: s)
    | '!' :: '/' :: s => (Verdict.keep, true, s)
    | '!' :: s => (Verdict.keep, false, s)
    | '/' :: s => (Verdict.skip, true, s)
    | s => (Verdict.skip, false, s)
  let onlyDirectories := line.getLast? == some '/'
  let pattern :=
    if onlyDirectories then
      let body := line.dropLast
      if body.getLast? = some '\\' then body.dropLast else body
    else line
  let glob ← Glob.parse? (fullPattern anchored pattern)
  return ⟨verdict, onlyDirectories, glob⟩

/-- Whether a rule matches a path. -/
def covers (r : IgnoreRule) (path : Text) (isDirectory : Bool) : Bool :=
  (!r.onlyDirectories || isDirectory) && r.glob.covers path

end IgnoreRule

/-! ## Files -/

/-- The lines of a file, up to the first one that is no text. -/
def readableLines (b : ByteArray) : List Text :=
  (((splitLines b.toList).map fun l => Text.decode? ⟨l.toArray⟩).takeWhile Option.isSome).filterMap id
where
  /-- The lines of a list of bytes, without the bytes that end them. -/
  splitLines : List UInt8 → List (List UInt8)
    | [] => [[]]
    | 13 :: 10 :: s => [] :: splitLines s
    | 10 :: s => [] :: splitLines s
    | b :: s => match splitLines s with
      | [] => [[b]]
      | l :: ls => (b :: l) :: ls

/-- The mark that a text in UTF-8 may start with. -/
def byteOrderMark : Char := Char.ofNat 0xFEFF

/-- The rules of a file. -/
def ignoreRules (b : ByteArray) : List IgnoreRule :=
  match readableLines b with
  | [] => []
  | l :: ls => (l.dropWhile (· == byteOrderMark) :: ls).filterMap IgnoreRule.parse?

/-- What rules say of a path: the last one that matches decides. -/
def verdictOf (rules : List IgnoreRule) (path : Text) (isDirectory : Bool) : Option Verdict :=
  (rules.reverse.find? (·.covers path isDirectory)).map IgnoreRule.verdict

/-- The kinds of ignore files, as their locations below a directory. The first kind decides
first. -/
def ignoreFiles : List Location :=
  [[".sqlsentryignore"], [".ignore"], [".gitignore"], [".git", "info", "exclude"]].map
    (·.map String.toList)

namespace FileTree

/-- What the ignore file of one kind in a directory says of a location below the directory. -/
def verdictIn (t : FileTree) (directory file : Location) (l : Location) : Option Verdict := do
  let content ← t.content? (directory ++ file)
  let below ← Location.below? directory l
  verdictOf (ignoreRules content) (Path.ofParts below) (t.isDirectory l)

/-- The directories above a location, the nearest first. -/
def directoriesAbove (l : Location) : List Location :=
  ((List.range l.length).map l.take).reverse

/-- What the ignore files say of a location. -/
def verdict (t : FileTree) (l : Location) : Option Verdict :=
  ignoreFiles.findSome? fun file =>
    (directoriesAbove l).findSome? fun directory => t.verdictIn directory file l

/-- Whether a location is skipped. A name that starts with a point is skipped if no ignore file says
anything of it. -/
def isSkipped (t : FileTree) (l : Location) : Bool :=
  match t.verdict l with
  | some .skip => true
  | some .keep => false
  | none => (l.getLast?.bind List.head?) == some '.'

/-- Whether a walk from a directory comes to a location below it: nothing on the way is skipped. -/
def isReached (t : FileTree) (root l : Location) : Bool :=
  match Location.below? root l with
  | none => false
  | some below =>
    (List.range below.length).all fun n => !t.isSkipped (root ++ below.take (n + 1))

end FileTree

end SqlInjection
