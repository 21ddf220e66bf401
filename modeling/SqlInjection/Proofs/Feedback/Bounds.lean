import SqlInjection.Proofs.Feedback.Concurrency

/-!
# The bounds of a ledger

Records start to wait in two ways: when they are recorded, and when a status comes for a sign that
was drained before. Both ask whether there is room before the record is let in, so one record more
than the threshold may wait. `ledger_bounds` says what holds after every sequence of operations, at
any time of which the other side of the outbox may hang up:

* a sign that waits has been seen, and its two records differ in their status at most;
* at most `threshold + 1` records wait, and a batch that is drained to make room has exactly as many;
* batches that are sent or given back are in the order of their signs, and none that is sent is empty;
* the ledger does not depend on the outbox.

`Bounded` is the invariant. `Bounded.enqueue` is the step that both ways share, and `Bounded.step`
the step of any operation.
-/

namespace SqlInjection.Feedback

/-! ## Batches that a record is put in -/

namespace Batch

theorem length_insert_le (r : Record) (b : Batch) : (insert r b).length ≤ b.length + 1 := by
  induction b with
  | nil => exact Nat.le_refl _
  | cons s b ih =>
    rw [insert]
    split
    · exact Nat.le_refl _
    · split
      · exact Nat.le_succ _
      · exact Nat.succ_le_succ ih

/-- A record that takes the place of another makes a batch no longer. -/
theorem length_insert_of_find? {b : Batch} (hb : Ordered b) {r s : Record}
    (h : find? r.sign b = some s) : (insert r b).length = b.length := by
  induction b with
  | nil => cases h
  | cons u b ih =>
    obtain ⟨hu, hrest⟩ := List.pairwise_cons.1 hb
    rw [insert]
    split
    · next hlt =>
      -- the sign is smaller than all that are there
      have hnone : copies r.sign (u :: b) = [] := by
        refine copies_eq_nil_of_lt fun v hv => ?_
        rcases List.mem_cons.1 hv with rfl | hv
        · exact hlt
        · exact UInt32.lt_trans hlt (hu v hv)
      rw [find?_eq_head?_copies, hnone] at h
      cases h
    · split
      · rfl
      · next hne =>
        have hfind : find? r.sign b = some s := by
          simpa [find?, List.find?_cons, Ne.symm hne] using h
        rw [List.length_cons, ih hrest hfind, List.length_cons]

end Batch

/-! ## The invariant -/

/-- Two records that differ in their status at most. -/
def Record.Alike (r s : Record) : Prop := { r with status := s.status } = s

/-- A ledger in which each sign stands once, the signs that wait have been seen with records that are
alike, and one record more than the threshold waits at most. -/
structure Bounded (threshold : Nat) (l : Ledger) : Prop where
  pending_ordered : Batch.Ordered l.pending
  seen_ordered : Batch.Ordered l.seen
  known : ∀ sign, ∀ r ∈ Batch.find? sign l.pending, ∃ first ∈ Batch.find? sign l.seen, r.Alike first
  few : l.pending.length ≤ threshold + 1

namespace Bounded

variable {threshold : Nat} {l : Ledger}

theorem empty (threshold : Nat) : Bounded threshold Ledger.empty where
  pending_ordered := .nil
  seen_ordered := .nil
  known := by simp [Ledger.empty, Batch.find?]
  few := Nat.zero_le _

/-- A record that takes its place among those that wait is known, if it has been seen. -/
theorem known_insert (h : Bounded threshold l) {r first : Record}
    (hfirst : Batch.find? r.sign l.seen = some first) (halike : r.Alike first) (sign : UInt32) :
    ∀ s ∈ Batch.find? sign (Batch.insert r l.pending),
      ∃ first ∈ Batch.find? sign l.seen, s.Alike first := by
  rw [Batch.find?_insert h.pending_ordered]
  split
  · next hsign =>
    rintro s ⟨⟩
    exact ⟨first, hsign ▸ hfirst, halike⟩
  · exact h.known sign

/-- A record that has been seen may start to wait, whether there is room or not. -/
theorem enqueue (h : Bounded threshold l) {r first : Record}
    (hfirst : Batch.find? r.sign l.seen = some first) (halike : r.Alike first) :
    Bounded threshold (l.enqueue threshold r).ledger := by
  unfold Ledger.enqueue
  split
  · refine ⟨List.pairwise_singleton _ _, h.seen_ordered, fun sign s hs => ?_, by simp⟩
    obtain rfl : r = s := List.mem_singleton.1 (List.mem_of_find?_eq_some hs) |>.symm
    obtain rfl : r.sign = sign := Batch.sign_eq_of_find? hs
    exact ⟨first, hfirst, halike⟩
  · next hroom =>
    have hlength := Batch.length_insert_le r l.pending
    exact ⟨h.pending_ordered.insert r, h.seen_ordered, h.known_insert hfirst halike,
      show (Batch.insert r l.pending).length ≤ threshold + 1 by omega⟩

/-- A sign that is seen for the first time does not wait. -/
theorem insert_seen (h : Bounded threshold l) {r : Record}
    (hnew : Batch.find? r.sign l.seen = none) :
    Bounded threshold { l with seen := Batch.insert r l.seen } where
  pending_ordered := h.pending_ordered
  seen_ordered := h.seen_ordered.insert r
  known sign s hs := by
    obtain ⟨first, hfirst, halike⟩ := h.known sign s hs
    rw [Batch.find?_insert h.seen_ordered]
    split
    · next hsign =>
      rw [← hsign, hnew] at hfirst
      cases hfirst
    · exact ⟨first, hfirst, halike⟩
  few := h.few

theorem record (h : Bounded threshold l) (r : Record) :
    Bounded threshold (l.record threshold r).ledger := by
  unfold Ledger.record
  split
  · exact h
  · next hnew =>
    have hseen : Batch.find? r.sign (Batch.insert r l.seen) = some r := by
      rw [Batch.find?_insert h.seen_ordered, if_pos rfl]
    exact (h.insert_seen hnew).enqueue hseen rfl

theorem resolve (h : Bounded threshold l) (sign : UInt32) (status : Status) :
    Bounded threshold (l.resolve threshold sign status).ledger := by
  unfold Ledger.resolve
  split
  · next r hr =>
    obtain rfl : r.sign = sign := Batch.sign_eq_of_find? hr
    obtain ⟨first, hfirst, halike⟩ := h.known r.sign r hr
    have hlength := Batch.length_insert_of_find? (r := { r with status }) h.pending_ordered hr
    exact ⟨h.pending_ordered.insert _, h.seen_ordered,
      h.known_insert (r := { r with status }) hfirst halike, hlength ▸ h.few⟩
  · next first hwaits hfirst =>
    obtain rfl : first.sign = sign := Batch.sign_eq_of_find? hfirst
    exact h.enqueue (r := { first with status }) hfirst rfl
  · exact h

theorem flush (h : Bounded threshold l) : Bounded threshold l.flush.ledger where
  pending_ordered := .nil
  seen_ordered := h.seen_ordered
  known := by simp [Ledger.flush, Batch.find?]
  few := Nat.zero_le _

/-- **Every operation keeps a ledger bounded.** -/
theorem step (h : Bounded threshold l) (op : Operation) :
    Bounded threshold (l.step threshold op).ledger := by
  cases op with
  | record r => exact h.record r
  | resolve sign status => exact h.resolve sign status
  | flush => exact h.flush
  | dispatch => exact h.flush

/-! ## The batches of one operation -/

/-- What is drained to make room is all that waits, and that is one record more than the
threshold. -/
theorem drained_enqueue (h : Bounded threshold l) (r : Record) :
    (l.enqueue threshold r).drained = [] ∨
      (l.enqueue threshold r).drained = l.pending ∧ l.pending.length = threshold + 1 := by
  have hfew := h.few
  unfold Ledger.enqueue
  split
  · exact Or.inr ⟨rfl, by omega⟩
  · exact Or.inl rfl

/-- What an operation drains is nothing or all that waits. Unless it is asked to, it drains one
record more than the threshold. -/
theorem outgoing_step (h : Bounded threshold l) {op : Operation} {b : Batch}
    (hb : b ∈ (l.step threshold op).outgoing) :
    b = l.pending ∧ b ≠ [] ∧ (op ≠ .dispatch → b.length = threshold + 1) := by
  have hsend : ∀ {c : Batch}, b ∈ toSend c → b = c ∧ b ≠ [] := by
    intro c hc
    unfold toSend at hc
    split at hc
    · cases hc
    · next hne =>
      obtain rfl := List.mem_singleton.1 hc
      exact ⟨rfl, by simpa using hne⟩
  have hroom : ∀ {c : Batch}, b ∈ toSend c →
      (c = [] ∨ c = l.pending ∧ l.pending.length = threshold + 1) →
      b = l.pending ∧ b ≠ [] ∧ (op ≠ .dispatch → b.length = threshold + 1) := by
    rintro c hc (rfl | ⟨rfl, hlength⟩)
    · cases hc
    · obtain ⟨rfl, hne⟩ := hsend hc
      exact ⟨rfl, hne, fun _ => hlength⟩
  cases op with
  | record r =>
    refine hroom hb ?_
    unfold Ledger.record
    split
    · exact Or.inl rfl
    · next hnew => exact (h.insert_seen hnew).drained_enqueue r
  | resolve sign status =>
    refine hroom hb ?_
    unfold Ledger.resolve
    split
    · exact Or.inl rfl
    · exact h.drained_enqueue _
    · exact Or.inl rfl
  | flush => cases hb
  | dispatch =>
    obtain ⟨rfl, hne⟩ := hsend hb
    exact ⟨rfl, hne, fun hop => absurd rfl hop⟩

theorem returned_step {op : Operation} {b : Batch} (hb : b ∈ (l.step threshold op).returned) :
    b = l.pending := by
  cases op with
  | flush => exact (Option.some.inj hb).symm
  | record r => cases hb
  | resolve sign status => cases hb
  | dispatch => cases hb

end Bounded

/-! ## Runs during which the other side hangs up -/

/-- What may happen to a store. -/
inductive StoreEvent where
  | perform (op : Operation)
  /-- The other side of the outbox takes no more batches from now on. -/
  | hangUp
  deriving DecidableEq, Repr

/-- The operations among events. -/
def performed (events : List StoreEvent) : List Operation :=
  events.filterMap fun
    | .perform op => some op
    | .hangUp => none

/-- A ledger after operations. -/
def Ledger.after (threshold : Nat) (l : Ledger) (ops : List Operation) : Ledger :=
  ops.foldl (fun l op => (l.step threshold op).ledger) l

namespace Store

/-- A store after an event. -/
def next (s : Store) : StoreEvent → Store
  | .perform op => (s.step op).1
  | .hangUp => s.hangUp

/-- A store after events. -/
def after (s : Store) (events : List StoreEvent) : Store := events.foldl next s

theorem after_spec (s : Store) (events : List StoreEvent) : (s.after events).threshold = s.threshold ∧
    (s.after events).ledger = s.ledger.after s.threshold (performed events) := by
  induction events generalizing s with
  | nil => exact ⟨rfl, rfl⟩
  | cons e events ih => cases e <;> exact ih _

end Store

theorem Bounded.after {threshold : Nat} {l : Ledger} (h : Bounded threshold l)
    (ops : List Operation) : Bounded threshold (l.after threshold ops) := by
  induction ops generalizing l with
  | nil => exact h
  | cons op ops ih => exact ih (h.step op)

/-- **The bounds of a ledger.** After any operations, each sign stands at most once among the records
that wait and among those that were seen; a record that waits is found under its sign, which has been
seen with a record like it; and one record more than the threshold waits at most. An operation that
is not asked to drains that many records or none; what is sent or given back is in the order of the
signs, and nothing empty is sent. The ledger is the same for every outbox, and whenever its other
side hangs up. -/
theorem ledger_bounds (threshold : Nat) (outbox : Outbox) (events : List StoreEvent) :
    let store := (Store.new threshold outbox).after events
    let l := store.ledger
    (Batch.Ordered l.pending ∧ Batch.Ordered l.seen) ∧
      (∀ sign, ∀ r ∈ Batch.find? sign l.pending, r.sign = sign ∧
        ∃ first ∈ Batch.find? sign l.seen, { r with status := first.status } = first) ∧
      l.pending.length ≤ threshold + 1 ∧
      (∀ op, op ≠ .dispatch → ∀ b ∈ (l.step threshold op).outgoing, b.length = threshold + 1) ∧
      (∀ op, ∀ b ∈ (store.step op).2.sent ++ (store.step op).2.returned.toList, Batch.Ordered b) ∧
      (∀ op, [] ∉ (store.step op).2.sent) ∧
      ∀ outbox' events', performed events' = performed events →
        ((Store.new threshold outbox').after events').ledger = l := by
  intro store l
  obtain ⟨hthreshold, hledger⟩ := Store.after_spec (Store.new threshold outbox) events
  have h : Bounded threshold l := by
    rw [show l = _ from hledger]
    exact (Bounded.empty threshold).after _
  have hsent : ∀ op, ∀ b ∈ (store.step op).2.sent, b ∈ (l.step threshold op).outgoing := by
    intro op b hb
    rw [← show store.threshold = threshold from hthreshold]
    simp only [Store.step] at hb
    split at hb
    · exact hb
    · cases hb
  refine ⟨⟨h.pending_ordered, h.seen_ordered⟩, ?_, h.few, ?_, ?_, ?_, ?_⟩
  · exact fun sign r hr => ⟨Batch.sign_eq_of_find? hr, h.known sign r hr⟩
  · exact fun op hop b hb => (h.outgoing_step hb).2.2 hop
  · intro op b hb
    rcases List.mem_append.1 hb with hb | hb
    · exact (h.outgoing_step (hsent op b hb)).1 ▸ h.pending_ordered
    · exact Bounded.returned_step (Option.mem_toList.1 hb) ▸ h.pending_ordered
  · exact fun op hb => (h.outgoing_step (hsent op [] hb)).2.1 rfl
  · intro outbox' events' heq
    rw [(Store.after_spec (Store.new threshold outbox') events').2, heq]
    exact hledger.symm

/-- A sign that waits again after it was drained, and another that is drained with it to make room;
the outbox of one store is hung up between the two, and the other has none. -/
theorem ledger_bounds_hungUp :
    let events : List StoreEvent := [.perform (.record (bareRecord 9)), .perform .dispatch,
      .perform (.record (bareRecord 4)), .hangUp, .perform (.resolve 9 .fixed)]
    let store := (Store.new 1 .live).after events
    let l := store.ledger
    store.outbox = .hungUp ∧
      (l.step 1 (.record (bareRecord 2))).outgoing = [l.pending] ∧ l.pending.length = 2 ∧
      Batch.find? 9 l.pending = some { bareRecord 9 with status := .fixed } ∧
      (∃ first ∈ Batch.find? 9 l.seen,
        { bareRecord 9 with status := first.status } = first) ∧
      ((Store.new 1 .absent).after (events.filter (· ≠ .hangUp))).ledger = l := by
  intro events store l
  have hfind : Batch.find? 9 l.pending = some { bareRecord 9 with status := .fixed } := by decide
  have hout : (l.step 1 (.record (bareRecord 2))).outgoing = [l.pending] := by decide
  obtain ⟨-, hknown, -, hdrained, -, -, hsame⟩ := ledger_bounds 1 .live events
  exact ⟨by decide, hout,
    hdrained (.record (bareRecord 2)) (by decide) l.pending (by rw [hout]; exact List.mem_cons_self),
    hfind, (hknown 9 _ hfind).2, hsame .absent _ (by decide)⟩

end SqlInjection.Feedback
