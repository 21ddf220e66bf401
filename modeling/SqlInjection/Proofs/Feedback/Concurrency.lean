import Mathlib.Algebra.BigOperators.Group.Finset.Piecewise
import Mathlib.Data.Fintype.Basic
import Mathlib.Data.List.Nodup
import SqlInjection.Proofs.Feedback.History

/-!
# Clients that share a store

Several clients use one store at the same time. An operation works on the ledger under a lock, which
is one step; a batch that it drains for the outbox is handed over in a later step, when the lock is
free again and other clients may have drained batches of their own. `System.move?` is one such step,
and a list of moves is an interleaving.

Every drained record carries the turn of the locked section that drained it, so that two copies of
one record are told apart. `concurrent_as_sequential` says of every moment of every interleaving:

* the operations took the lock in an order that keeps the order of each client;
* the ledger is that of a store which performs them one after another in this order;
* what calls have given back is what that store gives back;
* each record drained so far is in exactly one place: in a client's hand, sent, or given back;
* when no client has anything in hand, all that was handed out and all that waits is, up to its
  order, what that store hands out and keeps.

`Serial` is the invariant; `Serial.lock` and `Serial.handOver` are the two kinds of steps.
-/

namespace SqlInjection.Feedback

/-! ## Systems -/

/-- A batch, and the turn of the locked section that drained it. -/
structure Parcel where
  turn : Nat
  batch : Batch
  deriving DecidableEq, Repr

/-- The records of a parcel, each with the turn at which it was drained. -/
def Parcel.records (p : Parcel) : List (Nat × Record) := p.batch.map (p.turn, ·)

/-- The operations that a client has still to issue, and the batches that it has drained for the
outbox and not handed over. -/
structure Client where
  left : List Operation
  hand : List Parcel
  deriving DecidableEq, Repr

/-- The records that a client has in hand. -/
def Client.holds (c : Client) : List (Nat × Record) := c.hand.flatMap Parcel.records

/-- Clients with a ledger and an outbox. -/
structure System (ι : Type) where
  ledger : Ledger
  clients : ι → Client
  /-- What the outbox has received. -/
  sent : List Parcel
  /-- What operations have given back. -/
  returned : List Parcel
  /-- The operations in the order in which they took the lock, each with its client. -/
  locked : List (ι × Operation)

/-- One step of one client. -/
inductive Move (ι : Type) where
  /-- The client issues its next operation, up to the end of the locked section. -/
  | lock (i : ι)
  /-- The client hands a batch over to the outbox. -/
  | handOver (i : ι)
  deriving DecidableEq, Repr

namespace System

variable {ι : Type}

/-- Clients that are about to start. -/
def start (programs : ι → List Operation) : System ι where
  ledger := Ledger.empty
  clients i := ⟨programs i, []⟩
  sent := []
  returned := []
  locked := []

/-- The operations in the order in which they took the lock. -/
def order (s : System ι) : List Operation := s.locked.map Prod.snd

/-- No client is in the middle of an operation. -/
def Idle (s : System ι) : Prop := ∀ i, (s.clients i).hand = []

variable [DecidableEq ι]

/-- The operations of one client that have taken the lock. -/
def issued (s : System ι) (i : ι) : List Operation :=
  (s.locked.filter fun e => e.1 = i).map Prod.snd

/-- A client performs the locked section of its next operation. -/
def lock (threshold : Nat) (s : System ι) (i : ι) (op : Operation) (left : List Operation) :
    System ι :=
  let o := s.ledger.step threshold op
  let turn := s.locked.length
  { s with
    ledger := o.ledger
    clients := Function.update s.clients i ⟨left, o.outgoing.map (⟨turn, ·⟩)⟩
    returned := s.returned ++ o.returned.toList.map (⟨turn, ·⟩)
    locked := s.locked ++ [(i, op)] }

/-- A client hands a batch over to the outbox, and has the rest in hand. -/
def handOver (s : System ι) (i : ι) (p : Parcel) (rest : Client) : System ι :=
  { s with clients := Function.update s.clients i rest, sent := s.sent ++ [p] }

/-- One step of a client. It issues no operation before the last one has come to its end. -/
def move? (threshold : Nat) (s : System ι) : Move ι → Option (System ι)
  | .lock i =>
    match s.clients i with
    | ⟨op :: left, []⟩ => some (s.lock threshold i op left)
    | _ => none
  | .handOver i =>
    match s.clients i with
    | ⟨left, p :: hand⟩ => some (s.handOver i p ⟨left, hand⟩)
    | _ => none

/-- The steps of an interleaving, one after another. -/
def run? (threshold : Nat) (s : System ι) : List (Move ι) → Option (System ι)
  | [] => some s
  | m :: ms => (s.move? threshold m).bind fun s => s.run? threshold ms

end System

/-! ## What a store hands out, turn by turn -/

namespace Store

/-- The records that `f` takes from the deliveries of a run, each with its turn. -/
def turns (f : Delivery → List Record) (ds : List Delivery) : List (Nat × Record) :=
  ds.zipIdx.flatMap fun d => (f d.1).map (d.2, ·)

theorem turns_concat (f : Delivery → List Record) (ds : List Delivery) (d : Delivery) :
    turns f (ds ++ [d]) = turns f ds ++ (f d).map (ds.length, ·) := by
  simp [turns, List.zipIdx_append]

theorem map_snd_turns (f : Delivery → List Record) (ds : List Delivery) :
    (turns f ds).map Prod.snd = ds.flatMap f := by
  induction ds using List.reverseRecOn with
  | nil => rfl
  | append_singleton ds d ih => simp [turns_concat, ih, Function.comp_def]

/-- No record is drained twice at one turn. -/
theorem nodup_turns {ds : List Delivery} (h : ∀ d ∈ ds, d.records.Nodup) :
    (turns Delivery.records ds).Nodup := by
  induction ds using List.reverseRecOn with
  | nil => exact List.nodup_nil
  | append_singleton ds d ih =>
    rw [turns_concat]
    refine List.Nodup.append (ih fun x hx => h x (by simp [hx])) ?_ ?_
    · exact (h d (by simp)).map fun _ _ heq => (Prod.mk.inj heq).2
    · intro x hx hx'
      obtain ⟨r, -, rfl⟩ := List.mem_map.1 hx'
      obtain ⟨⟨d', turn⟩, hd', hmem⟩ := List.mem_flatMap.1 hx
      obtain ⟨r', -, heq⟩ := List.mem_map.1 hmem
      have hlt := List.snd_lt_of_mem_zipIdx hd'
      simp at heq hlt
      omega

theorem run_concat (s : Store) (ops : List Operation) (op : Operation) :
    s.run (ops ++ [op]) =
      (((s.run ops).1.step op).1, (s.run ops).2 ++ [((s.run ops).1.step op).2]) :=
  run_append s ops [op]

theorem length_run (s : Store) (ops : List Operation) : (s.run ops).2.length = ops.length := by
  induction ops generalizing s with
  | nil => rfl
  | cons a ops ih => simp [run, ih]

/-- Operations change nothing of a store but its ledger. -/
theorem run_eq (s : Store) (ops : List Operation) :
    (s.run ops).1 = { s with ledger := (s.run ops).1.ledger } := by
  induction ops generalizing s with
  | nil => rfl
  | cons a ops ih => exact ih (s.step a).1

end Store

theorem Batch.Ordered.nodup {b : Batch} (hb : Ordered b) : b.Nodup :=
  hb.imp fun h heq => UInt32.ne_of_lt h (congrArg Record.sign heq)

namespace Ledger

theorem nodup_drained_enqueue {l : Ledger} (hl : Batch.Ordered l.pending) (threshold : Nat)
    (r : Record) : (l.enqueue threshold r).drained.Nodup := by
  unfold enqueue
  split
  · exact hl.nodup
  · exact List.nodup_nil

/-- Every operation keeps the waiting records in order and drains none of them twice. -/
theorem ordered_step {l : Ledger} (hl : Batch.Ordered l.pending) (threshold : Nat)
    (op : Operation) :
    Batch.Ordered (l.step threshold op).ledger.pending ∧
      ((l.step threshold op).outgoing.flatten ++ (l.step threshold op).returned.getD []).Nodup := by
  cases op with
  | record r =>
    simp only [step, record, flatten_toSend, Option.getD_none, List.append_nil]
    split
    · exact ⟨hl, List.nodup_nil⟩
    · have hl' : Batch.Ordered { l with seen := l.seen.insert r }.pending := hl
      exact ⟨ordered_enqueue hl' threshold r, nodup_drained_enqueue hl' threshold r⟩
  | resolve sign status =>
    simp only [step, resolve, flatten_toSend, Option.getD_none, List.append_nil]
    split
    · exact ⟨hl.insert _, List.nodup_nil⟩
    · exact ⟨ordered_enqueue hl threshold _, nodup_drained_enqueue hl threshold _⟩
    · exact ⟨hl, List.nodup_nil⟩
  | flush => exact ⟨List.Pairwise.nil, by simpa [step, flush] using hl.nodup⟩
  | dispatch => exact ⟨List.Pairwise.nil, by simpa [step, flush] using hl.nodup⟩

end Ledger

/-- Every run of a store with a live outbox hands out no record twice at one turn. -/
theorem Store.nodup_records {s : Store} (hlive : s.outbox = .live)
    (hs : Batch.Ordered s.ledger.pending) (ops : List Operation) :
    ∀ d ∈ (s.run ops).2, d.records.Nodup := by
  induction ops generalizing s with
  | nil => simp [run]
  | cons op ops ih =>
    obtain ⟨hordered, hnodup⟩ := Ledger.ordered_step hs s.threshold op
    intro d hd
    rcases List.mem_cons.1 hd with rfl | hd
    · simpa [step, hlive, Delivery.records] using hnodup
    · exact ih (s := (s.step op).1) hlive hordered d hd

/-! ## The invariant -/

/-- The records that a delivery sends. -/
def Store.Delivery.sentRecords (d : Store.Delivery) : List Record := d.sent.flatten

/-- The records that a delivery gives back. -/
def Store.Delivery.returnedRecords (d : Store.Delivery) : List Record := d.returned.getD []

variable {ι : Type} [Fintype ι] [DecidableEq ι]

/-- The number of clients' copies of a record, the outbox's copies of it included. -/
def System.outgoing (s : System ι) (x : Nat × Record) : Nat :=
  ∑ i, (s.clients i).holds.count x + (s.sent.flatMap Parcel.records).count x

/-- A system whose ledger and whose drained records are those of a store that performs the
operations one after another, in the order in which they took the lock. -/
structure Serial (threshold : Nat) (programs : ι → List Operation) (s : System ι) : Prop where
  issued : ∀ i, s.issued i ++ (s.clients i).left = programs i
  ledger : s.ledger = ((Store.new threshold .live).run s.order).1.ledger
  returned : s.returned.flatMap Parcel.records =
    Store.turns Store.Delivery.returnedRecords ((Store.new threshold .live).run s.order).2
  outgoing : ∀ x, s.outgoing x =
    (Store.turns Store.Delivery.sentRecords ((Store.new threshold .live).run s.order).2).count x

theorem sum_update_add (f : ι → Nat) (i : ι) (n : Nat) :
    ∑ j, Function.update f i n j + f i = ∑ j, f j + n := by
  rw [Finset.sum_update_of_mem (Finset.mem_univ i), ← Finset.add_sum_erase _ f (Finset.mem_univ i),
    Finset.sdiff_singleton_eq_erase]
  omega

theorem flatMap_records_map (turn : Nat) (bs : List Batch) :
    (bs.map (Parcel.mk turn)).flatMap Parcel.records = bs.flatten.map (turn, ·) := by
  induction bs with
  | nil => rfl
  | cons b bs ih => simp [ih, Parcel.records]

theorem map_snd_records (ps : List Parcel) :
    (ps.flatMap Parcel.records).map Prod.snd = ps.flatMap Parcel.batch := by
  simp [List.map_flatMap, Parcel.records, Function.comp_def]

/-- What a client has in hand changes the number of copies by as much as it has more or less. -/
theorem sum_holds_update (clients : ι → Client) (i : ι) (c : Client) (x : Nat × Record) :
    ∑ j, (Function.update clients i c j).holds.count x + (clients i).holds.count x =
      ∑ j, (clients j).holds.count x + c.holds.count x := by
  have h : ∀ j, (Function.update clients i c j).holds.count x =
      Function.update (fun j => (clients j).holds.count x) i (c.holds.count x) j :=
    fun j => Function.apply_update (fun _ (c : Client) => c.holds.count x) clients i c j
  simp only [h]
  exact sum_update_add _ i _

namespace Serial

variable {threshold : Nat} {programs : ι → List Operation} {s : System ι}

theorem start : Serial threshold programs (System.start programs) where
  issued i := rfl
  ledger := rfl
  returned := rfl
  outgoing x := by simp [System.outgoing, System.start, Client.holds, System.order, Store.run,
    Store.turns]

/-- A locked section is one more operation of the store. -/
theorem lock (hs : Serial threshold programs s) {i : ι} {op : Operation} {left : List Operation}
    (hi : s.clients i = ⟨op :: left, []⟩) :
    Serial threshold programs (s.lock threshold i op left) := by
  have horder : (s.lock threshold i op left).order = s.order ++ [op] := by
    simp [System.order, System.lock]
  have hstore : ((Store.new threshold .live).run s.order).1 = ⟨s.ledger, threshold, .live⟩ := by
    rw [Store.run_eq, ← hs.ledger]
    rfl
  have hturn : ((Store.new threshold .live).run s.order).2.length = s.locked.length := by
    simp [Store.length_run, System.order]
  constructor
  · intro j
    have hj := hs.issued j
    by_cases h : j = i
    · subst h
      simpa [System.issued, System.lock, hi] using hj
    · simpa [System.issued, System.lock, h, Ne.symm h] using hj
  · rw [horder, Store.run_concat, hstore]
    rfl
  · rw [horder, Store.run_concat, Store.turns_concat, ← hs.returned, hstore, hturn]
    have hflat : (s.ledger.step threshold op).returned.toList.flatten =
        (s.ledger.step threshold op).returned.getD [] := by
      cases (s.ledger.step threshold op).returned <;> simp
    simp [System.lock, flatMap_records_map, hflat, Store.step, Store.Delivery.returnedRecords]
  · intro x
    rw [horder, Store.run_concat, Store.turns_concat, List.count_append, ← hs.outgoing x, hstore,
      hturn]
    have hsum := sum_holds_update s.clients i
      ⟨left, (s.ledger.step threshold op).outgoing.map (⟨s.locked.length, ·⟩)⟩ x
    simp only [hi, Client.holds, List.flatMap_nil, List.count_nil, flatMap_records_map] at hsum
    simp only [System.outgoing, System.lock, Client.holds, Store.step, Store.Delivery.sentRecords,
      if_pos]
    omega

/-- Handing a batch over changes only where it is. -/
theorem handOver (hs : Serial threshold programs s) {i : ι} {p : Parcel} {left : List Operation}
    {hand : List Parcel} (hi : s.clients i = ⟨left, p :: hand⟩) :
    Serial threshold programs (s.handOver i p ⟨left, hand⟩) := by
  constructor
  · intro j
    have hj := hs.issued j
    by_cases h : j = i
    · subst h
      simpa [System.issued, System.handOver, hi] using hj
    · simpa [System.issued, System.handOver, h] using hj
  · exact hs.ledger
  · exact hs.returned
  · intro x
    refine Eq.trans ?_ (hs.outgoing x)
    have hsum := sum_holds_update s.clients i ⟨left, hand⟩ x
    simp only [hi, Client.holds, List.flatMap_cons, List.count_append] at hsum
    simp [System.outgoing, System.handOver, Client.holds, List.count_append]
    omega

/-- Every move of a client keeps the invariant. -/
theorem move? (hs : Serial threshold programs s) {m : Move ι} {t : System ι}
    (ht : s.move? threshold m = some t) : Serial threshold programs t := by
  cases m with
  | lock i =>
    simp only [System.move?] at ht
    split at ht
    next op left hi => exact Option.some.inj ht ▸ hs.lock hi
    next => cases ht
  | handOver i =>
    simp only [System.move?] at ht
    split at ht
    next left p hand hi => exact Option.some.inj ht ▸ hs.handOver hi
    next => cases ht

theorem run? (hs : Serial threshold programs s) {ms : List (Move ι)} {t : System ι}
    (ht : s.run? threshold ms = some t) : Serial threshold programs t := by
  induction ms generalizing s with
  | nil => exact Option.some.inj ht ▸ hs
  | cons m ms ih =>
    obtain ⟨u, hu, ht⟩ := Option.bind_eq_some_iff.1 ht
    exact ih (hs.move? hu) ht

/-- A drained record is in one place. -/
theorem count_eq (hs : Serial threshold programs s) (x : Nat × Record) :
    s.outgoing x + (s.returned.flatMap Parcel.records).count x =
      (Store.turns Store.Delivery.records ((Store.new threshold .live).run s.order).2).count x := by
  rw [hs.outgoing, hs.returned]
  generalize ((Store.new threshold .live).run s.order).2 = ds
  induction ds using List.reverseRecOn with
  | nil => rfl
  | append_singleton ds d ih =>
    simp only [Store.turns_concat, List.count_append, Store.Delivery.records, List.map_append,
      Store.Delivery.sentRecords, Store.Delivery.returnedRecords] at ih ⊢
    omega

/-- When no client has anything in hand, what was sent and given back is all that was drained. -/
theorem perm_of_idle (hs : Serial threshold programs s) (hidle : s.Idle) :
    (s.sent.flatMap Parcel.records ++ s.returned.flatMap Parcel.records).Perm
      (Store.turns Store.Delivery.records ((Store.new threshold .live).run s.order).2) := by
  refine List.perm_iff_count.2 fun x => ?_
  have hhands : ∑ i, (s.clients i).holds.count x = 0 :=
    Finset.sum_eq_zero fun i _ => by simp [Client.holds, hidle i]
  rw [← hs.count_eq x, List.count_append, System.outgoing, hhands, Nat.zero_add]

end Serial

/-! ## Every interleaving -/

/-- At every moment of every interleaving, the clients have issued their operations in order, the
ledger and what was given back are those of a store that performs these operations one after another
in the order of the lock, and each record that this store hands out is in one place: in the hand of
a client, sent, or given back. When no client has anything in hand, all that was sent and given back
and all that waits is what this store hands out and keeps. -/
theorem concurrent_as_sequential (threshold : Nat) (programs : ι → List Operation)
    (moves : List (Move ι)) {s : System ι}
    (h : (System.start programs).run? threshold moves = some s) :
    let store := Store.new threshold .live
    let drained := Store.turns Store.Delivery.records (store.run s.order).2
    (∀ i, s.issued i ++ (s.clients i).left = programs i) ∧
      s.ledger = (store.run s.order).1.ledger ∧
      s.returned.flatMap Parcel.records =
        Store.turns Store.Delivery.returnedRecords (store.run s.order).2 ∧
      (∀ x, ∑ i, (s.clients i).holds.count x + (s.sent.flatMap Parcel.records).count x +
        (s.returned.flatMap Parcel.records).count x = if x ∈ drained then 1 else 0) ∧
      (s.Idle → (s.sent.flatMap Parcel.batch ++ s.returned.flatMap Parcel.batch ++
        s.ledger.pending).Perm (store.delivered s.order)) := by
  intro store drained
  have hs : Serial threshold programs s := Serial.start.run? h
  refine ⟨hs.issued, hs.ledger, hs.returned, ?_, ?_⟩
  · intro x
    have hordered : Batch.Ordered store.ledger.pending := List.Pairwise.nil
    have hnodup : drained.Nodup := Store.nodup_turns (Store.nodup_records rfl hordered s.order)
    refine (hs.count_eq x).trans ?_
    split
    next hx => exact List.count_eq_one_of_mem hnodup hx
    next hx => exact List.count_eq_zero_of_not_mem hx
  · intro hidle
    have hrecords := (hs.perm_of_idle hidle).map Prod.snd
    rw [List.map_append, map_snd_records, map_snd_records, Store.map_snd_turns] at hrecords
    rw [hs.ledger]
    exact hrecords.append_right _

/-- A record that is only a sign. -/
def bareRecord (sign : UInt32) : Record := ⟨[], [], [], [], sign, .open⟩

/-- Two clients of a store that drains whenever something waits. -/
def twoPrograms : Fin 2 → List Operation
  | 0 => [.record (bareRecord 1), .record (bareRecord 2), .flush]
  | 1 => [.record (bareRecord 3), .resolve 1 .fixed]

/-- The second client drains a batch while the first has one in hand, hands it over first and makes
the record that the first still has in hand wait again. -/
def twoBatchesInFlight : List (Move (Fin 2)) :=
  [.lock 0, .lock 0, .lock 1, .handOver 1, .lock 1, .handOver 0, .lock 0, .handOver 1]

theorem concurrent_as_sequential_twoBatchesInFlight :
    ∃ s, (System.start twoPrograms).run? 0 twoBatchesInFlight = some s ∧ s.Idle ∧
      (s.sent.flatMap Parcel.batch ++ s.returned.flatMap Parcel.batch ++ s.ledger.pending).Perm
        ((Store.new 0 .live).delivered s.order) ∧
      (s.sent.flatMap Parcel.batch).map Record.sign = [2, 1, 3] := by
  have h : ((System.start twoPrograms).run? 0 twoBatchesInFlight).any (fun s =>
      (∀ i, (s.clients i).hand = []) ∧
        (s.sent.flatMap Parcel.batch).map Record.sign = [2, 1, 3]) = true := by decide +kernel
  obtain ⟨s, hs, h⟩ := (Option.any_eq_true _ _).1 h
  obtain ⟨hidle, hsigns⟩ := of_decide_eq_true h
  obtain ⟨-, -, -, -, hperm⟩ := concurrent_as_sequential 0 twoPrograms twoBatchesInFlight hs
  exact ⟨s, hs, hidle, hperm hidle, hsigns⟩

end SqlInjection.Feedback
