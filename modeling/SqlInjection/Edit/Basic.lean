import SqlInjection.Text.Basic

/-!
# Edits

An edit replaces a range of bytes of a source. The edits of a source are applied together, the last
one first, so that no edit sees offsets moved by another. Equal edits count once, and an edit that
overlaps one already applied, or reaches past the end, is dropped.
-/

namespace SqlInjection

/-- Replaces the bytes of `span` by `replacement`. -/
structure Edit where
  span : Span
  replacement : Text
  deriving DecidableEq, Repr

namespace Edit

/-- The edit that inserts `t` at byte offset `n`. -/
def insert (n : Nat) (t : Text) : Edit := ⟨⟨n, n⟩, t⟩

/-- Edits are ordered by start, then by end, then by replacement. -/
def compare (a b : Edit) : Ordering :=
  (Ord.compare a.span.start b.span.start).then
    ((Ord.compare a.span.stop b.span.stop).then (Text.compare a.replacement b.replacement))

/-- The edits in order, each once. -/
def normalize (es : List Edit) : List Edit :=
  (es.mergeSort fun a b => (compare a b).isLE).foldr
    (fun e acc => if acc.head? = some e then acc else e :: acc) []

end Edit

/-- A source with its end already edited: `left` is still as it was, `done` is final. -/
structure Splice where
  left : Text
  done : Text
  deriving DecidableEq, Repr

/-- One more edit, when it lies in the part still as it was; `none` when it cuts a character. -/
def Splice.apply? (s : Splice) (e : Edit) : Option Splice :=
  if e.span.start ≤ e.span.stop ∧ e.span.stop ≤ Text.byteSize s.left then do
    let (l, kept) ← Text.splitAt? s.left e.span.stop
    let (left, _) ← Text.splitAt? l e.span.start
    return ⟨left, e.replacement ++ kept ++ s.done⟩
  else some s

/-- The source after all edits; `none` when an edit that is applied cuts a character. -/
def applyEdits? (source : Text) (es : List Edit) : Option Text :=
  ((Edit.normalize es).reverse.foldlM Splice.apply? ⟨source, []⟩).map fun s => s.left ++ s.done

end SqlInjection
