import SqlInjection.Text.Basic

/-!
# Settings of a repository

A repository keeps its settings in sections of lines `name = value`. A section may have a second name
in quotes. Names are looked up without regard to letter case, second names with regard to it.

`settings?` gives each setting under its full name, the names of its section and its own joined by
points, in the order of the file.
-/

namespace SqlInjection.Repository

/-- A setting: its full name and its value. A setting without a value has the empty one. -/
abbrev Setting := Text × Text

/-- The blanks between the parts of a line. -/
def isSpace (c : Char) : Bool := c == ' ' || (9 ≤ c.toNat && c.toNat ≤ 13)

/-- The characters of names. -/
def isNameChar (c : Char) : Bool := c.isAlphanum || c == '-'

/-! ## Values -/

/-- A line up to its comment. A comment does not start inside quotes or behind a backslash. -/
def uncommentedFrom (quoted escaped : Bool) (before : Option Char) : Text → Text
  | [] => []
  | c :: t =>
    let quoted := if c = '"' && before.any (· != '\\') then !quoted else quoted
    if (c = ';' || c = '#') && !quoted && !escaped then []
    else c :: uncommentedFrom quoted (c == '\\' && !escaped) (some c) t

/-- A line without its comment and the blanks at its end. -/
def uncommented (line : Text) : Text :=
  Text.dropEndWhile isSpace (uncommentedFrom false false none line)

/-- The character that an escaped one stands for. -/
def unescapedChar? (c : Char) : Option Char :=
  if c = 'n' then some '\n'
  else if c = 't' then some '\t'
  else if c = 'b' then some (Char.ofNat 8)
  else if c = '"' || c = '\\' then some c
  else none

/-- A value without its quotes and escapes, and whether it goes on in the next line. -/
def unescape? : Text → Option (Text × Bool)
  | [] => some ([], false)
  | '\\' :: c :: t => do
    let d ← unescapedChar? c
    let (v, more) ← unescape? t
    return (d :: v, more)
  | ['\\'] => some ([], true)
  | c :: t => do
    let (v, more) ← unescape? t
    return (if c = '"' then v else c :: v, more)

/-- A value whose lines so far go on, and the lines behind it. -/
def continuation? : List Text → Option (Text × List Text)
  | [] => some ([], [])
  | line :: lines =>
    let line := uncommented line
    if line.isEmpty then continuation? lines
    else do
      let (v, more) ← unescape? line
      if more then
        let (w, lines) ← continuation? lines
        return (v ++ w, lines)
      else return (v, lines)

/-- The value that starts in a line, and the lines behind it. -/
def value? (line : Text) (lines : List Text) : Option (Text × List Text) := do
  let (v, more) ← unescape? (line.dropWhile isSpace)
  if more then
    let (w, lines) ← continuation? lines
    return (v ++ w, lines)
  else return (v, lines)

/-- A setting without its section, and the lines behind it. -/
def setting? (line : Text) (lines : List Text) : Option (Setting × List Text) := do
  let line := uncommented line
  let name := line.takeWhile isNameChar
  if name.isEmpty then none
  match (line.dropWhile isNameChar).dropWhile isSpace with
  | [] => return ((name.map Char.toLower, []), lines)
  | '=' :: t =>
    let (v, lines) ← value? t lines
    return ((name.map Char.toLower, v), lines)
  | _ => none

/-! ## Sections -/

/-- The second name of a section behind its first quote, and what is left behind the bracket. -/
def secondName? : Text → Option (Text × Text)
  | '"' :: ']' :: t => some ([], t)
  | '\\' :: c :: t => do
    let (name, t) ← secondName? t
    return (c :: name, t)
  | c :: t => do
    if c = '"' || c = '\\' then none
    let (name, t) ← secondName? t
    return (c :: name, t)
  | [] => none

/-- The name of a section behind its bracket, and what is left behind the closing one. -/
def sectionName? : Text → Option (Text × Text)
  | [] => none
  | c :: t =>
    if isSpace c then
      match t.dropWhile isSpace with
      | '"' :: t => do
        let (name, t) ← secondName? t
        return ('.' :: name, t)
      | _ => none
    else if isNameChar c || c == '.' then
      match t with
      | ']' :: t => some ([c.toLower], t)
      | t => do
        let (name, t) ← sectionName? t
        return (c.toLower :: name, t)
    else none

/-- The settings from a line on, in at most `fuel` steps. -/
def settingsFrom? (fuel : Nat) (name : Text) (lines : List Text) : Option (List Setting) :=
  match fuel, lines with
  | 0, _ => some []
  | _ + 1, [] => some []
  | fuel + 1, line :: lines =>
    match line.dropWhile isSpace with
    | [] => settingsFrom? fuel name lines
    | '#' :: _ => settingsFrom? fuel name lines
    | ';' :: _ => settingsFrom? fuel name lines
    | '[' :: t => do
      let (name, t) ← sectionName? t
      settingsFrom? fuel (name ++ ['.']) (t :: lines)
    | line => do
      let ((key, v), lines) ← setting? line lines
      let rest ← settingsFrom? fuel name lines
      return (name ++ key, v) :: rest

/-- The settings in a file, if it is well formed. -/
def settings? (file : Text) : Option (List Setting) :=
  settingsFrom? (2 * file.length + 1) [] (Text.splitOn '\n' file)

/-- The value of a setting: the last one that is given. -/
def lookup? (settings : List Setting) (name : Text) : Option Text := settings.reverse.lookup name

end SqlInjection.Repository
