import SqlInjection.Toml.Table

/-!
# Settings files

`parse?` reads a whole settings file: its keys and values, line by line, under the headers of the
tables they belong to.
-/

namespace SqlInjection.Toml

open Scan

/-! ## Values -/

/-- How deep lists and tables may be nested. -/
def maxNesting : Nat := 80

/-- The table of the assignments inside braces. -/
def inlineTable? (as : List Assignment) : Option Value :=
  (as.foldlM (fun es a => Entries.assign a .header es) []).map fun es => .table (toValues es)

/-- A value, nested no deeper than `fuel`. -/
def valueWithin : Nat → Scan Value
  | 0 => failure
  | fuel + 1 => do
    let list : Scan Value := do
      lit "["
      let items ← (do
        let items ← separated "," (do
          spaces
          let v ← valueWithin fuel
          spaces
          pure v)
        let _ ← optional (lit ",")
        pure items) <|> pure []
      spaces
      lit "]"
      pure (.list items)
    let table : Scan Value := do
      lit "\x7b"
      blanks
      let as ← (separated "," (do
        let path ← key
        lit "="
        blanks
        let value ← valueWithin fuel
        blanks
        pure ⟨path, value⟩)) <|> pure []
      lit "\x7d"
      match inlineTable? as with
      | some v => pure v
      | none => failure
    (.text <$> string) <|> list <|> table <|> (lit "true" *> pure (.boolean true)) <|>
      (lit "false" *> pure (.boolean false)) <|> date <|> decimal <|> integer

/-- A value. -/
def value : Scan Value := valueWithin maxNesting

/-! ## Lines -/

/-- A line of a settings file that says something. -/
inductive Line where
  | assignment (a : Assignment)
  | table (path : List Text)
  /-- One more table of a list. -/
  | item (path : List Text)
  deriving Repr

/-- A line of a settings file. -/
def line : Scan Line := do
  let item : Scan Line := do
    lit "[["
    let path ← key
    lit "]]"
    pure (.item path)
  let table : Scan Line := do
    lit "["
    let path ← key
    lit "]"
    pure (.table path)
  let assignment : Scan Line := do
    let path ← key
    lit "="
    blanks
    let v ← value
    pure (.assignment ⟨path, v⟩)
  let found ← item <|> table <|> assignment
  lineRest
  pure found

/-- The mark some editors put at the start of a file. -/
def byteOrderMark : Text := [Char.ofNat 0xFEFF]

/-- All lines of a settings file that say something. -/
def lines : Scan (List Line) := do
  let start : Scan Unit := fun t => (Text.stripPrefix? byteOrderMark t).map fun r => ((), r)
  let _ ← optional start
  let found ← many (spaces *> line)
  spaces
  atEnd
  pure found

/-! ## Documents -/

/-- What has been read: all entries, and the path of the table that is open. -/
structure Progress where
  entries : Entries
  current : List Text
  deriving Repr

/-- Takes in one more line. An assignment belongs to the table that is open. -/
def Progress.step (p : Progress) : Line → Option Progress
  | .table path =>
    (Entries.openAt Entries.openTable path p.entries).map fun es => ⟨es, path⟩
  | .item path =>
    (Entries.openAt Entries.openItem path p.entries).map fun es => ⟨es, path⟩
  | .assignment a =>
    (Entries.changeAt .inner (Entries.assign a) .header p.current p.entries).map fun es =>
      { p with entries := es }

/-- The table that a settings file is. -/
def parse? (source : Text) : Option Value := do
  let (found, _) ← lines source
  let progress ← found.foldlM Progress.step ⟨[], []⟩
  pure (.table (toValues progress.entries))

end SqlInjection.Toml
