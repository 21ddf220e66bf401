import SqlInjection.Digest.Word

/-!
# Glob patterns

Patterns of paths, as ignore files write them. A pattern is matched against the bytes of a whole path:

* `?` stands for one byte and `*` for any number of bytes, none of them a slash;
* `**` between slashes, at the front or at the end stands for any number of directories;
* `[...]` stands for one byte of a class;
* `{...,...}` stands for one of its branches. A branch without a pattern in it does not count;
* a backslash takes away the meaning of the character after it.

A bracket that is not closed stands for itself, and so do all brackets after it.
-/

namespace SqlInjection

namespace Glob

/-- What a pattern without branches is made of. -/
inductive Token where
  | literal (c : Char)
  | oneByte
  | anyName
  | oneOf (negated : Bool) (ranges : List (Char × Char))
  /-- Directories at the front of a path. -/
  | leading
  /-- Directories at the end of a path. -/
  | trailing
  /-- Directories between two slashes. -/
  | inner
  | anything
  deriving DecidableEq, Repr

/-! ## Matching -/

/-- The bytes of a character. -/
def charBytes (c : Char) : List UInt8 := String.utf8EncodeChar c

/-- The byte of a slash. -/
def slash : UInt8 := 47

/-- What is left of a list at every place. -/
def suffixes : List UInt8 → List (List UInt8)
  | [] => [[]]
  | b :: s => (b :: s) :: suffixes s

/-- What is left behind every slash. -/
def behindSlashes : List UInt8 → List (List UInt8)
  | [] => []
  | b :: s => if b = slash then s :: behindSlashes s else behindSlashes s

/-- What is left after any number of bytes that are no slashes. -/
def behindName : List UInt8 → List (List UInt8)
  | [] => [[]]
  | b :: s => (b :: s) :: if b = slash then [] else behindName s

/-- The ranges of bytes that a range of characters stands for: its bytes one by one, except that the
last byte of its first character and the first byte of its last character are the ends of a range. -/
def byteRanges (r : Char × Char) : List (UInt8 × UInt8) :=
  let single (b : UInt8) : UInt8 × UInt8 := (b, b)
  let low := charBytes r.1
  let high := charBytes r.2
  if r.1 = r.2 then low.map single
  else match low.getLast?, high with
    | some l, h :: more => low.dropLast.map single ++ (l, h) :: more.map single
    | _, _ => []

/-- Whether a class contains a byte. -/
def classContains (negated : Bool) (ranges : List (Char × Char)) (b : UInt8) : Bool :=
  (ranges.flatMap byteRanges).any (fun (l, h) => l ≤ b && b ≤ h) != negated

/-- What can be left of a path after a token. -/
def Token.rests (t : Token) (s : List UInt8) : List (List UInt8) :=
  match t, s with
  | .literal c, s => if (charBytes c).isPrefixOf s then [s.drop (charBytes c).length] else []
  | .oneByte, b :: s => if b = slash then [] else [s]
  | .oneByte, [] => []
  | .anyName, s => behindName s
  | .oneOf negated ranges, b :: s => if classContains negated ranges b then [s] else []
  | .oneOf _ _, [] => []
  | .leading, s => s :: behindSlashes s
  | .trailing, b :: s => if b = slash then suffixes s else []
  | .trailing, [] => []
  | .inner, b :: s => if b = slash then s :: behindSlashes s else []
  | .inner, [] => []
  | .anything, s => suffixes s

/-- Whether a list of tokens matches a path. -/
def tokensMatch (ts : List Token) (path : List UInt8) : Bool :=
  (ts.foldl (fun rests t => (rests.flatMap t.rests).eraseDups) [path]).any List.isEmpty

/-! ## Reading -/

/-- What a pattern is made of: tokens and choices between lists of tokens. -/
inductive Part where
  | one (t : Token)
  | choice (branches : List (List Token))
  deriving DecidableEq, Repr

/-- The lists of tokens that parts stand for. -/
def expand : List Part → List (List Token)
  | [] => [[]]
  | .one t :: ps => (expand ps).map (t :: ·)
  | .choice branches :: ps => branches.flatMap fun b => (expand ps).map (b ++ ·)

/-- The choice between branches. -/
def choiceOf (branches : List (List Part)) : Part :=
  let given := (branches.map expand).filter (· != [[]])
  .choice (if given.isEmpty then [[]] else given.flatten)

/-- The branches of a group so far: those that are closed, and the one under way. -/
structure Group where
  closed : List (List Part)
  current : List Part

/-- A pattern as far as it has been read: the groups around this point, the innermost first, and
whether a bracket was not closed. -/
structure Reading where
  top : Group
  around : List Group
  unclosed : Bool

namespace Reading

/-- The reading before anything is read. -/
def start : Reading := ⟨⟨[], []⟩, [], false⟩

/-- The reading with one more part. -/
def push (r : Reading) (p : Part) : Reading :=
  { r with top := { r.top with current := r.top.current ++ [p] } }

/-- The reading with one more token. -/
def token (r : Reading) (t : Token) : Reading := r.push (.one t)

/-- The reading with a token that takes the place of the last part, unless that is one of the tokens
for directories at the front or at the end, which stay. -/
def directories (r : Reading) (t : Token) : Reading :=
  match r.top.current.getLast? with
  | some (.one .leading) => r
  | some (.one .trailing) => r
  | _ => { r with top := { r.top with current := r.top.current.dropLast ++ [.one t] } }

end Reading

/-- Why a class cannot be read. -/
inductive ClassFault where
  | unclosed
  /-- A range whose last character comes before its first. -/
  | reversed
  deriving DecidableEq, Repr

/-- Reads the rest of a class behind the ranges read so far, the last one first. `waits` tells that the
last range waits for its end. -/
def readRanges (first : Bool) (waits : Bool) (ranges : List (Char × Char)) :
    Text → Except ClassFault (List (Char × Char) × Text)
  | [] => .error .unclosed
  | c :: s =>
    if c = ']' && !first then
      .ok ((if waits then ('-', '-') :: ranges else ranges).reverse, s)
    else if c = '-' && !first && !waits then readRanges false true ranges s
    else match waits, ranges with
      | true, (low, _) :: more =>
        if c < low then .error .reversed else readRanges false false ((low, c) :: more) s
      | _, _ => readRanges false false ((c, c) :: ranges) s

/-- Reads a class behind its bracket. -/
def readClass (s : Text) : Except ClassFault (Token × Text) := do
  let (negated, s) := match s with
    | '!' :: s => (true, s)
    | '^' :: s => (true, s)
    | s => (false, s)
  let (ranges, s) ← readRanges true false [] s
  return (.oneOf negated ranges, s)

/-- Reads two stars, behind which `s` is left: the reading, the character read last, and what is left
then. -/
def readStars (r : Reading) (before : Option Char) (s : Text) : Reading × Char × Text :=
  let plain := ((r.token .anyName).token .anyName, '*', s)
  let inGroup := !r.around.isEmpty
  if r.top.current.isEmpty then
    match s with
    | [] => (r.token .leading, '*', [])
    | '/' :: s => (r.token .leading, '/', s)
    | _ => plain
  else if before != some '/' && (!inGroup || (before != some ',' && before != some '{')) then plain
  else match s with
    | [] => (r.directories .trailing, '*', [])
    | '/' :: s => (r.directories .inner, '/', s)
    | c :: _ => if inGroup && (c == ',' || c == '}') then (r.directories .trailing, '*', s) else plain

/-- Reads a pattern from behind the character `before` on, in at most `fuel` steps. -/
def readFrom (fuel : Nat) (r : Reading) (before : Option Char) (s : Text) : Option Reading :=
  match fuel, s with
  | 0, _ => some r
  | _ + 1, [] => some r
  | fuel + 1, c :: s =>
    match c, s with
    | '?', _ => readFrom fuel (r.token .oneByte) (some c) s
    | '*', '*' :: s =>
      let (r, last, s) := readStars r before s
      readFrom fuel r (some last) s
    | '*', _ => readFrom fuel (r.token .anyName) (some c) s
    | '{', _ => readFrom fuel { r with top := ⟨[], []⟩, around := r.top :: r.around } (some c) s
    | '}', _ =>
      match r.around with
      | [] => none
      | g :: gs =>
        let part := choiceOf (r.top.closed ++ [r.top.current])
        readFrom fuel ({ r with top := g, around := gs }.push part) (some c) s
    | ',', _ =>
      if r.around.isEmpty then readFrom fuel (r.token (.literal c)) (some c) s
      else
        readFrom fuel { r with top := ⟨r.top.closed ++ [r.top.current], []⟩ } (some c) s
    | '\\', d :: s => readFrom fuel (r.token (.literal d)) (some d) s
    | '\\', [] => none
    | '[', _ =>
      if r.unclosed then readFrom fuel (r.token (.literal c)) (some c) s
      else match readClass s with
        | .ok (t, s) => readFrom fuel (r.token t) (some ']') s
        | .error .unclosed =>
          readFrom fuel ({ r with unclosed := true }.token (.literal c)) (some c) s
        | .error .reversed => none
    | _, _ => readFrom fuel (r.token (.literal c)) (some c) s

end Glob

/-- A pattern of paths, as the lists of tokens it stands for. -/
structure Glob where
  branches : List (List Glob.Token)
  deriving DecidableEq, Repr

namespace Glob

/-- Reads a pattern. A group has to be closed, and a backslash has to stand before something. Two
stars alone match everything. -/
def parse? (pattern : Text) : Option Glob := do
  let r ← readFrom (pattern.length + 1) Reading.start none pattern
  if r.around.isEmpty then
    if r.top.current = [.one .leading] then some ⟨[[.anything]]⟩
    else some ⟨expand r.top.current⟩
  else none

/-- Whether a pattern matches a path. -/
def covers (g : Glob) (path : Text) : Bool :=
  g.branches.any (tokensMatch · (path.flatMap charBytes))

end Glob

end SqlInjection
