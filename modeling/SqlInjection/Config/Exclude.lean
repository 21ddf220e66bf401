import SqlInjection.Text.Basic

/-!
# Excluded paths

A project may leave paths out by patterns. A pattern has one of four forms, told apart in this
order: a directory anywhere between two double stars; a beginning and an end around a double star; a
beginning and an end around a star; or a beginning.
-/

namespace SqlInjection

/-- The double star with a slash after it. -/
def starsSlash : Text := "**/".toList

/-- The double star with a slash before it. -/
def slashStars : Text := "/**".toList

/-- Whether a path has a directory with this name, at its front or further on. -/
def holdsDirectory (name path : Text) : Bool :=
  Text.contains path ('/' :: name ++ ['/']) || Text.startsWith path (name ++ ['/'])

/-- Whether a path starts with one text and ends with another; they may overlap. -/
def startsAndEnds (path start stop : Text) : Bool :=
  Text.startsWith path start && Text.endsWith path stop

/-- Whether a pattern covers a path. -/
def patternCovers (pattern path : Text) : Bool :=
  if Text.startsWith pattern starsSlash && Text.endsWith pattern slashStars then
    holdsDirectory (Text.trimEndMatches slashStars (Text.trimStartMatches starsSlash pattern)) path
  else match Text.splitAround "**".toList pattern with
    | [start, stop] =>
      startsAndEnds path (Text.dropEndWhile (· == '/') start) (stop.dropWhile (· == '/'))
    | _ =>
      match Text.splitOn '*' pattern with
      | [start, stop] => startsAndEnds path start stop
      | _ => Text.startsWith path pattern

/-- The directories that are always left out. -/
def builtinExcluded : List Text := ["target/", "build/", "node_modules/", ".git/"].map String.toList

/-- Whether a path is left out, given the patterns of the project. Backslashes count as slashes. -/
def isExcluded (patterns : List Text) (path : Text) : Bool :=
  let path := path.map fun c => if c = '\\' then '/' else c
  builtinExcluded.any (fun d => Text.startsWith path d || Text.contains path ('/' :: d)) ||
    patterns.any (patternCovers · path)

end SqlInjection
