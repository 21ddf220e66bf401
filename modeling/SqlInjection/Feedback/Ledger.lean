import SqlInjection.Feedback.Record

/-!
# The ledger

The ledger keeps the records that wait for the next batch, and the first record of every sign it has
seen. A sign is recorded once. A status that comes when its record still waits is written into it;
one that comes later makes the record wait again.

Whenever a record starts to wait while more than `threshold` others do, those are drained as a
batch first.
-/

namespace SqlInjection.Feedback

/-- The records that wait, and the first record of every sign. -/
structure Ledger where
  pending : Batch
  seen : Batch
  deriving DecidableEq, Repr

namespace Ledger

/-- The ledger before anything is recorded. -/
def empty : Ledger := ⟨[], []⟩

/-- A ledger after an operation, and the batch that was drained to make room. -/
structure Change where
  ledger : Ledger
  drained : Batch
  deriving DecidableEq, Repr

/-- Lets a record wait. -/
def enqueue (threshold : Nat) (r : Record) (l : Ledger) : Change :=
  if l.pending.length > threshold then ⟨{ l with pending := [r] }, l.pending⟩
  else ⟨{ l with pending := Batch.insert r l.pending }, []⟩

/-- Records a finding, unless its sign has been seen. -/
def record (threshold : Nat) (r : Record) (l : Ledger) : Change :=
  match Batch.find? r.sign l.seen with
  | some _ => ⟨l, []⟩
  | none => enqueue threshold r { l with seen := Batch.insert r l.seen }

/-- Tells what became of a finding. A sign that has not been seen is ignored. -/
def resolve (threshold : Nat) (sign : UInt32) (status : Status) (l : Ledger) : Change :=
  match Batch.find? sign l.pending, Batch.find? sign l.seen with
  | some r, _ => ⟨{ l with pending := Batch.insert { r with status } l.pending }, []⟩
  | none, some r => enqueue threshold { r with status } l
  | none, none => ⟨l, []⟩

/-- Drains all records that wait. -/
def flush (l : Ledger) : Change := ⟨{ l with pending := [] }, l.pending⟩

end Ledger

end SqlInjection.Feedback
