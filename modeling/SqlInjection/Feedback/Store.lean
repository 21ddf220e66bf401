import SqlInjection.Feedback.Ledger

/-!
# The store

A store is a ledger with an outbox for the batches that it drains by itself or on demand. The ledger
does not depend on the outbox: without one, or after the other side has hung up, batches are dropped.
-/

namespace SqlInjection.Feedback

/-- What can be asked of a store. -/
inductive Operation where
  | record (r : Record)
  | resolve (sign : UInt32) (status : Status)
  /-- Drains what waits and gives it back. -/
  | flush
  /-- Drains what waits into the outbox. -/
  | dispatch
  deriving DecidableEq, Repr

/-- A ledger after an operation, the batches it drained for the outbox, and the batch it gave
back. -/
structure Outcome where
  ledger : Ledger
  outgoing : List Batch
  returned : Option Batch
  deriving DecidableEq, Repr

/-- The batches to send: a batch without records is none. -/
def toSend (b : Batch) : List Batch := if b.isEmpty then [] else [b]

/-- The effect of an operation on a ledger. -/
def Ledger.step (threshold : Nat) (op : Operation) (l : Ledger) : Outcome :=
  match op with
  | .record r =>
    let c := l.record threshold r
    ⟨c.ledger, toSend c.drained, none⟩
  | .resolve sign status =>
    let c := l.resolve threshold sign status
    ⟨c.ledger, toSend c.drained, none⟩
  | .flush =>
    let c := l.flush
    ⟨c.ledger, [], some c.drained⟩
  | .dispatch =>
    let c := l.flush
    ⟨c.ledger, toSend c.drained, none⟩

/-- Where the batches of a store go. -/
inductive Outbox where
  | absent
  | live
  /-- The other side takes no more batches. -/
  | hungUp
  deriving DecidableEq, Repr

/-- A ledger, the number of records that may wait, and an outbox. -/
structure Store where
  ledger : Ledger
  threshold : Nat
  outbox : Outbox
  deriving DecidableEq, Repr

namespace Store

/-- A store before anything is recorded. -/
def new (threshold : Nat) (outbox : Outbox) : Store := ⟨Ledger.empty, threshold, outbox⟩

/-- What a store sent and gave back. -/
structure Delivery where
  sent : List Batch
  returned : Option Batch
  deriving DecidableEq, Repr

/-- The effect of an operation on a store. -/
def step (s : Store) (op : Operation) : Store × Delivery :=
  let o := s.ledger.step s.threshold op
  ({ s with ledger := o.ledger }, ⟨if s.outbox = .live then o.outgoing else [], o.returned⟩)

/-- The effect of operations on a store, one after another. -/
def run (s : Store) : List Operation → Store × List Delivery
  | [] => (s, [])
  | op :: ops =>
    let (s, d) := s.step op
    let (s, ds) := s.run ops
    (s, d :: ds)

theorem run_append (s : Store) (ops ops' : List Operation) :
    s.run (ops ++ ops') =
      (((s.run ops).1.run ops').1, (s.run ops).2 ++ ((s.run ops).1.run ops').2) := by
  induction ops generalizing s with
  | nil => rfl
  | cons op ops ih => simp [run, ih]

/-- The store after the other side of its outbox, if it has one, has hung up. -/
def hangUp (s : Store) : Store :=
  { s with outbox := if s.outbox = .absent then .absent else .hungUp }

/-- The number of records that wait. -/
def size (s : Store) : Nat := s.ledger.pending.length

end Store

end SqlInjection.Feedback
