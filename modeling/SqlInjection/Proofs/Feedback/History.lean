import Mathlib.Data.List.TakeWhile
import SqlInjection.Feedback.Store

/-!
# The history of a sign

A store hands its records out in batches, some by itself, some when it is asked to, and a sign may
be handed out more than once: every status that comes after its record has left makes the record
wait again. `Store.delivered` is all that a store hands out over a run, followed by what still
waits. For a store with a live outbox, `delivered_history` says what it holds of each sign:

* a sign is there exactly when it was recorded, and each copy is its first record up to the status;
* the last copy has the status that was told last after that record;
* there is one copy, and one more for each status that came while the sign was known but not
  waiting.

The proof follows the run. `Tracks` ties the waiting and the seen records to the operations so far,
`Tracks.step` says that every operation keeps it, and `Tracks.run` that every run does.
-/

namespace SqlInjection.Feedback

/-! ## Batches in order -/

namespace Batch

/-- The records of a sign among records. -/
def copies (sign : UInt32) (rs : List Record) : List Record := rs.filter (·.sign == sign)

/-- In the order of the signs, no sign twice. -/
def Ordered (b : Batch) : Prop := b.Pairwise (·.sign < ·.sign)

@[simp] theorem copies_append (sign : UInt32) (rs ss : List Record) :
    copies sign (rs ++ ss) = copies sign rs ++ copies sign ss := List.filter_append ..

theorem find?_eq_head?_copies (sign : UInt32) (b : Batch) :
    find? sign b = (copies sign b).head? := List.head?_filter.symm

theorem sign_eq_of_find? {sign : UInt32} {b : Batch} {r : Record} (h : find? sign b = some r) :
    r.sign = sign := by
  have := List.find?_some h
  simpa using this

theorem copies_eq_nil_of_lt {sign : UInt32} {b : Batch} (h : ∀ r ∈ b, sign < r.sign) :
    copies sign b = [] := by
  rw [copies, List.filter_eq_nil_iff]
  intro r hr
  have hlt := h r hr
  simpa using (UInt32.ne_of_lt hlt).symm

/-- In an ordered batch a sign has the copy that is found, and no other. -/
theorem copies_eq_toList_find? {b : Batch} (hb : Ordered b) (sign : UInt32) :
    copies sign b = (find? sign b).toList := by
  induction b with
  | nil => rfl
  | cons s b ih =>
    obtain ⟨hs, hb⟩ := List.pairwise_cons.1 hb
    by_cases h : s.sign = sign
    · have hrest : copies sign b = [] := copies_eq_nil_of_lt (h ▸ hs)
      simp only [copies] at hrest
      simp [copies, find?, h, hrest]
    · simpa [copies, find?, h] using ih hb

theorem mem_of_mem_insert {r s : Record} {b : Batch} (h : s ∈ insert r b) : s = r ∨ s ∈ b := by
  induction b with
  | nil => simpa [insert] using h
  | cons u b ih =>
    simp only [insert] at h
    split at h
    · simpa using h
    · split at h
      · rcases List.mem_cons.1 h with rfl | h
        · exact Or.inl rfl
        · exact Or.inr (List.mem_cons_of_mem u h)
      · rcases List.mem_cons.1 h with rfl | h
        · exact Or.inr List.mem_cons_self
        · exact (ih h).imp id (List.mem_cons_of_mem u)

theorem Ordered.insert {b : Batch} (hb : Ordered b) (r : Record) : Ordered (insert r b) := by
  induction b with
  | nil => simp [Batch.insert, Ordered]
  | cons s b ih =>
    obtain ⟨hs, hrest⟩ := List.pairwise_cons.1 hb
    simp only [Batch.insert]
    split
    · rename_i hlt
      refine List.pairwise_cons.2 ⟨?_, hb⟩
      intro u hu
      rcases List.mem_cons.1 hu with rfl | hu
      · exact hlt
      · exact UInt32.lt_trans hlt (hs u hu)
    · rename_i hle
      split
      · rename_i heq
        exact List.pairwise_cons.2 ⟨fun u hu => heq ▸ hs u hu, hrest⟩
      · rename_i hne
        refine List.pairwise_cons.2 ⟨?_, ih hrest⟩
        intro u hu
        rcases mem_of_mem_insert hu with rfl | hu
        · exact UInt32.lt_of_le_of_ne (UInt32.not_lt.1 hle) (Ne.symm hne)
        · exact hs u hu

/-- A record takes the place of the copy of its sign and leaves the other signs alone. -/
theorem copies_insert {b : Batch} (hb : Ordered b) (r : Record) (sign : UInt32) :
    copies sign (insert r b) = if r.sign = sign then [r] else copies sign b := by
  induction b with
  | nil => by_cases h : r.sign = sign <;> simp [insert, copies, h]
  | cons s b ih =>
    obtain ⟨hs, hrest⟩ := List.pairwise_cons.1 hb
    have hgone : ∀ u : UInt32, u ≤ s.sign → copies u b = [] := fun u hu =>
      copies_eq_nil_of_lt fun v hv => UInt32.lt_of_le_of_lt hu (hs v hv)
    simp only [insert]
    split
    · rename_i hlt
      by_cases h : r.sign = sign
      · have hne : s.sign ≠ sign := h ▸ (UInt32.ne_of_lt hlt).symm
        have := hgone sign (UInt32.le_of_lt (h ▸ hlt))
        simp_all [copies]
      · simp [copies, h]
    · split
      · rename_i heq
        by_cases h : r.sign = sign
        · have := hgone sign (UInt32.le_of_eq (h ▸ heq))
          simp_all [copies]
        · have hne : s.sign ≠ sign := heq ▸ h
          simp [copies, h, hne]
      · rename_i hne
        have := ih hrest
        by_cases h : r.sign = sign
        · have hs' : s.sign ≠ sign := fun hs' => hne (h.trans hs'.symm)
          simp_all [copies]
        · by_cases hs' : s.sign = sign <;> simp_all [copies]

theorem find?_insert {b : Batch} (hb : Ordered b) (r : Record) (sign : UInt32) :
    find? sign (insert r b) = if r.sign = sign then some r else find? sign b := by
  rw [find?_eq_head?_copies, copies_insert hb, find?_eq_head?_copies]
  split <;> rfl

end Batch

/-! ## What the operations say of a sign -/

/-- The record of a sign that an operation brings. -/
def recordOf? (sign : UInt32) : Operation → Option Record
  | .record r => if r.sign = sign then some r else none
  | _ => none

/-- The status of a sign that an operation tells. -/
def statusOf? (sign : UInt32) : Operation → Option Status
  | .resolve s status => if s = sign then some status else none
  | _ => none

/-- The first record of a sign. -/
def firstRecord? (sign : UInt32) (ops : List Operation) : Option Record :=
  ops.findSome? (recordOf? sign)

/-- The statuses of a sign told after its first record, in order. -/
def statusesTold (sign : UInt32) (ops : List Operation) : List Status :=
  (ops.dropWhile fun op => (recordOf? sign op).isNone).filterMap (statusOf? sign)

theorem firstRecord?_concat (sign : UInt32) (ops : List Operation) (op : Operation) :
    firstRecord? sign (ops ++ [op]) = (firstRecord? sign ops).or (recordOf? sign op) := by
  simp [firstRecord?, List.findSome?_append]

theorem recordOf?_of_firstRecord?_eq_none {sign : UInt32} {ops : List Operation}
    (h : firstRecord? sign ops = none) : ∀ op ∈ ops, recordOf? sign op = none := by
  simpa [firstRecord?, List.findSome?_eq_none_iff] using h

theorem isSome_firstRecord?_iff (sign : UInt32) (ops : List Operation) :
    (firstRecord? sign ops).isSome ↔ ∃ r, .record r ∈ ops ∧ r.sign = sign := by
  rw [firstRecord?, List.findSome?_isSome_iff]
  constructor
  · rintro ⟨op, hop, h⟩
    cases op with
    | record r =>
      by_cases hr : r.sign = sign
      · exact ⟨r, hop, hr⟩
      · simp [recordOf?, hr] at h
    | resolve | flush | dispatch => simp [recordOf?] at h
  · rintro ⟨r, hop, hr⟩
    exact ⟨.record r, hop, by simp [recordOf?, hr]⟩

/-- Before its first record nothing told of a sign counts. -/
theorem statusesTold_concat_of_none {sign : UInt32} {ops : List Operation}
    (h : firstRecord? sign ops = none) (op : Operation) :
    statusesTold sign (ops ++ [op]) = [] := by
  have hops : ops.dropWhile (fun op => (recordOf? sign op).isNone) = [] := by
    rw [List.dropWhile_eq_nil_iff]
    intro x hx
    simp [recordOf?_of_firstRecord?_eq_none h x hx]
  rw [statusesTold, List.dropWhile_append, hops]
  cases op with
  | record r => by_cases hr : r.sign = sign <;> simp [recordOf?, hr, statusOf?]
  | resolve | flush | dispatch => simp [recordOf?]

theorem statusesTold_concat_of_some {sign : UInt32} {ops : List Operation} {r : Record}
    (h : firstRecord? sign ops = some r) (op : Operation) :
    statusesTold sign (ops ++ [op]) = statusesTold sign ops ++ (statusOf? sign op).toList := by
  obtain ⟨x, hx, hr⟩ := List.exists_of_findSome?_eq_some h
  have hops : ops.dropWhile (fun op => (recordOf? sign op).isNone) ≠ [] := by
    intro hnil
    have hnone := List.dropWhile_eq_nil_iff.1 hnil x hx
    simp [hr] at hnone
  rw [statusesTold, List.dropWhile_append, if_neg (by simpa using hops), List.filterMap_append]
  cases h' : statusOf? sign op <;> simp [statusesTold, h']

/-! ## What one operation does to the copies of a sign -/

/-- The records that a store sends or gives back at one operation. -/
def Store.Delivery.records (d : Store.Delivery) : List Record :=
  d.sent.flatten ++ d.returned.getD []

@[simp] theorem flatten_toSend (b : Batch) : (toSend b).flatten = b := by
  unfold toSend
  split
  · rename_i h
    simpa using h.symm
  · simp

namespace Ledger

/-- A sign that is known but does not wait. -/
def Handed (sign : UInt32) (l : Ledger) : Prop :=
  (Batch.find? sign l.seen).isSome ∧ Batch.find? sign l.pending = none

instance (sign : UInt32) (l : Ledger) : Decidable (l.Handed sign) :=
  inferInstanceAs (Decidable (_ ∧ _))

/-- Whatever is drained to make room, a record that starts to wait comes after all that waited. -/
theorem copies_enqueue {l : Ledger} (hl : Batch.Ordered l.pending) (threshold : Nat) (r : Record)
    (sign : UInt32) (hr : r.sign = sign → Batch.find? sign l.pending = none) (out : List Record) :
    Batch.copies sign (out ++ (l.enqueue threshold r).drained ++
        (l.enqueue threshold r).ledger.pending) =
      Batch.copies sign (out ++ l.pending) ++ if r.sign = sign then [r] else [] := by
  unfold enqueue
  split
  · by_cases h : r.sign = sign <;> simp [Batch.copies, h]
  · rw [List.append_nil, Batch.copies_append, Batch.copies_insert hl, Batch.copies_append]
    by_cases h : r.sign = sign
    · simp [h, Batch.copies_eq_toList_find? hl, hr h]
    · simp [h]

theorem ordered_enqueue {l : Ledger} (hl : Batch.Ordered l.pending) (threshold : Nat) (r : Record) :
    Batch.Ordered (l.enqueue threshold r).ledger.pending := by
  unfold enqueue
  split
  · exact List.pairwise_singleton _ _
  · exact hl.insert r

@[simp] theorem seen_enqueue (l : Ledger) (threshold : Nat) (r : Record) :
    (l.enqueue threshold r).ledger.seen = l.seen := by
  unfold enqueue
  split <;> rfl

end Ledger

/-! ## The invariant -/

/-- The copies of a sign agree with its history: its first record, the statuses told after that, and
the number of times it was made to wait again. -/
structure Accounts (first : Record) (told : List Status) (again : Nat) (rs : List Record) :
    Prop where
  same : ∀ r ∈ rs, { r with status := first.status } = first
  status : rs.getLast?.map Record.status = some (told.getLast?.getD first.status)
  length : rs.length = 1 + again

namespace Accounts

variable {first : Record} {told : List Status} {again : Nat} {rs : List Record}

theorem start (r : Record) : Accounts r [] 0 [r] where
  same := by simp
  status := by simp
  length := by simp

/-- A status that finds the last copy waiting is written into it. -/
theorem amend {r : Record} (h : Accounts first told again (rs ++ [r])) (status : Status) :
    Accounts first (told ++ [status]) again (rs ++ [{ r with status }]) where
  same := by
    intro s hs
    rcases List.mem_append.1 hs with hs | hs
    · exact h.same s (List.mem_append_left _ hs)
    · obtain rfl := List.mem_singleton.1 hs
      exact h.same r (by simp)
  status := by simp
  length := by simpa using h.length

/-- A status that comes later makes one more copy of the first record. -/
theorem requeue (h : Accounts first told again rs) (status : Status) :
    Accounts first (told ++ [status]) (again + 1) (rs ++ [{ first with status }]) where
  same := by
    intro s hs
    rcases List.mem_append.1 hs with hs | hs
    · exact h.same s hs
    · obtain rfl := List.mem_singleton.1 hs
      rfl
  status := by simp
  length := by
    have := h.length
    simp only [List.length_append, List.length_cons, List.length_nil]
    omega

end Accounts

/-- The ledger after the operations `ops`, of which `out` has left: its batches are in order, a sign
is seen with its first record, and the copies of the sign agree with its history. -/
structure Tracks (sign : UInt32) (ops : List Operation) (again : Nat) (l : Ledger)
    (out : List Record) : Prop where
  pending_ordered : Batch.Ordered l.pending
  seen_ordered : Batch.Ordered l.seen
  seen : Batch.find? sign l.seen = firstRecord? sign ops
  unseen : firstRecord? sign ops = none → Batch.copies sign (out ++ l.pending) = [] ∧ again = 0
  accounts : ∀ first ∈ firstRecord? sign ops,
    Accounts first (statusesTold sign ops) again (Batch.copies sign (out ++ l.pending))

/-- Whether an operation makes a sign wait again. -/
def Ledger.requeued (sign : UInt32) (op : Operation) (l : Ledger) : Nat :=
  if (statusOf? sign op).isSome ∧ l.Handed sign then 1 else 0

namespace Tracks

variable {sign : UInt32} {ops : List Operation} {again : Nat} {l : Ledger} {out : List Record}

theorem empty (sign : UInt32) : Tracks sign [] 0 Ledger.empty [] where
  pending_ordered := List.Pairwise.nil
  seen_ordered := List.Pairwise.nil
  seen := rfl
  unseen _ := ⟨rfl, rfl⟩
  accounts := by simp [firstRecord?]

/-- An operation that does not speak of a sign, and keeps its copies and its seen record, keeps the
account of it. -/
theorem of_silent (h : Tracks sign ops again l out) {op : Operation} {l' : Ledger}
    {out' : List Record} (hp : Batch.Ordered l'.pending) (hs : Batch.Ordered l'.seen)
    (hseen : Batch.find? sign l'.seen = Batch.find? sign l.seen)
    (hcopies : Batch.copies sign (out' ++ l'.pending) = Batch.copies sign (out ++ l.pending))
    (hrecord : (firstRecord? sign ops).or (recordOf? sign op) = firstRecord? sign ops)
    (hstatus : firstRecord? sign ops ≠ none → statusOf? sign op = none) :
    Tracks sign (ops ++ [op]) again l' out' where
  pending_ordered := hp
  seen_ordered := hs
  seen := by rw [firstRecord?_concat, hrecord, hseen, h.seen]
  unseen := by
    rw [firstRecord?_concat, hrecord, hcopies]
    exact h.unseen
  accounts := by
    rw [firstRecord?_concat, hrecord, hcopies]
    intro first hfirst
    rw [statusesTold_concat_of_some hfirst, hstatus (by simp [Option.mem_def.1 hfirst])]
    simpa using h.accounts first hfirst

/-- A status of another sign keeps the account if it keeps the copies and the seen record. -/
theorem of_other (h : Tracks sign ops again l out) {s : UInt32} (hs : s ≠ sign) {status : Status}
    {l' : Ledger} {out' : List Record} (hp : Batch.Ordered l'.pending)
    (hseen' : Batch.Ordered l'.seen) (hseen : Batch.find? sign l'.seen = Batch.find? sign l.seen)
    (hcopies : Batch.copies sign (out' ++ l'.pending) = Batch.copies sign (out ++ l.pending)) :
    Tracks sign (ops ++ [.resolve s status]) (again + l.requeued sign (.resolve s status)) l'
      out' := by
  have hother : statusOf? sign (.resolve s status) = none := by simp [statusOf?, hs]
  have hzero : l.requeued sign (.resolve s status) = 0 := by simp [Ledger.requeued, hother]
  rw [hzero]
  exact h.of_silent hp hseen' hseen hcopies (by simp [recordOf?]) fun _ => hother

/-- A status of a recorded sign keeps the account if the copies agree with it. -/
theorem of_told (h : Tracks sign ops again l out) {first : Record}
    (hfirst : firstRecord? sign ops = some first) {status : Status} {again' : Nat} {l' : Ledger}
    {out' : List Record} (hp : Batch.Ordered l'.pending) (hseen' : Batch.Ordered l'.seen)
    (hseen : Batch.find? sign l'.seen = Batch.find? sign l.seen)
    (haccounts : Accounts first (statusesTold sign ops ++ [status]) again'
      (Batch.copies sign (out' ++ l'.pending))) :
    Tracks sign (ops ++ [.resolve sign status]) again' l' out' where
  pending_ordered := hp
  seen_ordered := hseen'
  seen := by rw [firstRecord?_concat, hfirst, Option.some_or, hseen, h.seen, hfirst]
  unseen := by simp [firstRecord?_concat, hfirst]
  accounts := by
    rw [firstRecord?_concat, hfirst, Option.some_or, statusesTold_concat_of_some hfirst]
    rintro _ ⟨⟩
    simpa [statusOf?] using haccounts

theorem find?_pending_eq_none (h : Tracks sign ops again l out)
    (hfirst : firstRecord? sign ops = none) : Batch.find? sign l.pending = none := by
  have hnil := (h.unseen hfirst).1
  rw [Batch.copies_append, List.append_eq_nil_iff] at hnil
  rw [Batch.find?_eq_head?_copies, hnil.2, List.head?_nil]

theorem record (h : Tracks sign ops again l out) (threshold : Nat) (r : Record) :
    Tracks sign (ops ++ [.record r]) again (l.record threshold r).ledger
      (out ++ (l.record threshold r).drained) := by
  unfold Ledger.record
  split
  · rename_i s hs
    refine h.of_silent h.pending_ordered h.seen_ordered rfl (by simp) ?_ (by simp [statusOf?])
    by_cases hr : r.sign = sign
    · rw [← h.seen, ← hr, hs, Option.some_or]
    · simp [recordOf?, hr]
  · rename_i hs
    set m : Ledger := { l with seen := Batch.insert r l.seen }
    have hnone : r.sign = sign → firstRecord? sign ops = none := by
      rintro rfl
      rw [← h.seen, hs]
    have hp := Ledger.ordered_enqueue (l := m) h.pending_ordered threshold r
    have hseen : Batch.Ordered (m.enqueue threshold r).ledger.seen := by
      rw [Ledger.seen_enqueue]
      exact h.seen_ordered.insert r
    have hfind : Batch.find? sign (m.enqueue threshold r).ledger.seen =
        if r.sign = sign then some r else Batch.find? sign l.seen := by
      rw [Ledger.seen_enqueue, Batch.find?_insert h.seen_ordered]
    have hcopies := Ledger.copies_enqueue (l := m) h.pending_ordered threshold r sign
      (fun hr => h.find?_pending_eq_none (hnone hr)) out
    by_cases hr : r.sign = sign
    · have hfirst : firstRecord? sign (ops ++ [.record r]) = some r := by
        simp [firstRecord?_concat, hnone hr, recordOf?, hr]
      obtain ⟨hnil, rfl⟩ := h.unseen (hnone hr)
      refine ⟨hp, hseen, by rw [hfind, if_pos hr, hfirst], by simp [hfirst], ?_⟩
      rw [hcopies, hnil, if_pos hr, List.nil_append, statusesTold_concat_of_none (hnone hr), hfirst]
      rintro first ⟨⟩
      exact Accounts.start r
    · refine h.of_silent hp hseen (by rw [hfind, if_neg hr]) ?_ (by simp [recordOf?, hr])
        (by simp [statusOf?])
      rw [hcopies, if_neg hr, List.append_nil]

/-- A status that finds its record waiting is written into it. -/
theorem amend (h : Tracks sign ops again l out) {s : UInt32} {r : Record}
    (hr : Batch.find? s l.pending = some r) (status : Status) :
    Tracks sign (ops ++ [.resolve s status]) (again + l.requeued sign (.resolve s status))
      { l with pending := Batch.insert { r with status } l.pending } out := by
  have hsign : r.sign = s := Batch.sign_eq_of_find? hr
  have hp := h.pending_ordered.insert { r with status }
  have hcopies := Batch.copies_insert h.pending_ordered { r with status } sign
  by_cases hs : s = sign
  · subst hs
    have hpending : Batch.copies s l.pending = [r] := by
      rw [Batch.copies_eq_toList_find? h.pending_ordered, hr, Option.toList_some]
    have hzero : l.requeued s (.resolve s status) = 0 := by
      simp [Ledger.requeued, Ledger.Handed, hr]
    obtain ⟨first, hfirst⟩ : ∃ first, firstRecord? s ops = some first := by
      refine Option.ne_none_iff_exists'.1 fun hnone => ?_
      rw [h.find?_pending_eq_none hnone] at hr
      cases hr
    have haccounts := h.accounts first hfirst
    rw [Batch.copies_append, hpending] at haccounts
    rw [hzero]
    refine h.of_told hfirst hp h.seen_ordered rfl ?_
    rw [Batch.copies_append, hcopies, if_pos hsign]
    exact haccounts.amend status
  · refine h.of_other hs hp h.seen_ordered rfl ?_
    rw [Batch.copies_append, hcopies, if_neg (hsign ▸ hs), Batch.copies_append]

/-- A status that comes when its record has left makes the record wait again. -/
theorem requeue (h : Tracks sign ops again l out) {s : UInt32} {r : Record}
    (hpending : Batch.find? s l.pending = none) (hseen : Batch.find? s l.seen = some r)
    (threshold : Nat) (status : Status) :
    Tracks sign (ops ++ [.resolve s status]) (again + l.requeued sign (.resolve s status))
      (l.enqueue threshold { r with status }).ledger
      (out ++ (l.enqueue threshold { r with status }).drained) := by
  have hsign : r.sign = s := Batch.sign_eq_of_find? hseen
  have hp := Ledger.ordered_enqueue h.pending_ordered threshold { r with status }
  have hkept := Ledger.seen_enqueue l threshold { r with status }
  have hcopies := Ledger.copies_enqueue h.pending_ordered threshold { r with status } sign
    (fun hr => by rw [← hpending, ← hsign, ← hr]) out
  by_cases hs : s = sign
  · subst hs
    have hone : l.requeued s (.resolve s status) = 1 := by
      simp [Ledger.requeued, Ledger.Handed, statusOf?, hpending, hseen]
    have hfirst : firstRecord? s ops = some r := by rw [← h.seen, hseen]
    rw [hone]
    refine h.of_told hfirst hp (hkept ▸ h.seen_ordered) (by rw [hkept]) ?_
    rw [hcopies, if_pos hsign]
    exact (h.accounts r hfirst).requeue status
  · refine h.of_other hs hp (hkept ▸ h.seen_ordered) (by rw [hkept]) ?_
    rw [hcopies, if_neg (hsign ▸ hs), List.append_nil]

/-- A status of a sign that was never recorded changes nothing. -/
theorem ignore (h : Tracks sign ops again l out) {s : UInt32}
    (hseen : Batch.find? s l.seen = none) (status : Status) :
    Tracks sign (ops ++ [.resolve s status]) (again + l.requeued sign (.resolve s status)) l
      out := by
  by_cases hs : s = sign
  · subst hs
    have hzero : l.requeued s (.resolve s status) = 0 := by
      simp [Ledger.requeued, Ledger.Handed, hseen]
    rw [hzero]
    exact h.of_silent h.pending_ordered h.seen_ordered rfl rfl (by simp [recordOf?])
      fun hfirst => absurd (h.seen.symm.trans hseen) hfirst
  · exact h.of_other hs h.pending_ordered h.seen_ordered rfl rfl

theorem resolve (h : Tracks sign ops again l out) (threshold : Nat) (s : UInt32)
    (status : Status) :
    Tracks sign (ops ++ [.resolve s status]) (again + l.requeued sign (.resolve s status))
      (l.resolve threshold s status).ledger (out ++ (l.resolve threshold s status).drained) := by
  unfold Ledger.resolve
  split
  · next r hr => simpa using h.amend hr status
  · next r hpending hseen => exact h.requeue hpending hseen threshold status
  · next _ hseen => simpa using h.ignore hseen status

theorem drain (h : Tracks sign ops again l out) {op : Operation}
    (hop : op = .flush ∨ op = .dispatch) :
    Tracks sign (ops ++ [op]) again l.flush.ledger (out ++ l.flush.drained) := by
  refine h.of_silent List.Pairwise.nil h.seen_ordered rfl (by simp [Ledger.flush]) ?_ ?_
  · rcases hop with rfl | rfl <;> simp [recordOf?]
  · rcases hop with rfl | rfl <;> simp [statusOf?]

/-- **Every operation keeps the account of a sign.** -/
theorem step (h : Tracks sign ops again l out) (threshold : Nat) (op : Operation) :
    Tracks sign (ops ++ [op]) (again + l.requeued sign op) (l.step threshold op).ledger
      (out ++ ((l.step threshold op).outgoing.flatten ++
        (l.step threshold op).returned.getD [])) := by
  cases op with
  | record r => simpa [Ledger.step, Ledger.requeued, statusOf?] using h.record threshold r
  | resolve s status => simpa [Ledger.step] using h.resolve threshold s status
  | flush => simpa [Ledger.step, Ledger.requeued, statusOf?] using h.drain (Or.inl rfl)
  | dispatch => simpa [Ledger.step, Ledger.requeued, statusOf?] using h.drain (Or.inr rfl)

end Tracks

/-! ## Runs -/

namespace Store

/-- The statuses of a sign in a run that come while it is known but does not wait. -/
def requeues (sign : UInt32) (s : Store) : List Operation → Nat
  | [] => 0
  | op :: ops => s.ledger.requeued sign op + requeues sign (s.step op).1 ops

/-- All records that a store hands out in a run, in order, and then those that still wait. -/
def delivered (s : Store) (ops : List Operation) : List Record :=
  (s.run ops).2.flatMap Delivery.records ++ (s.run ops).1.ledger.pending

end Store

/-- **Every run of a store with a live outbox keeps the account of a sign.** -/
theorem Tracks.run {sign : UInt32} {done : List Operation} {again : Nat} {s : Store}
    {out : List Record} (hlive : s.outbox = .live) (h : Tracks sign done again s.ledger out)
    (ops : List Operation) :
    Tracks sign (done ++ ops) (again + s.requeues sign ops) (s.run ops).1.ledger
      (out ++ (s.run ops).2.flatMap Store.Delivery.records) := by
  induction ops generalizing done again s out with
  | nil => simpa [Store.run, Store.requeues] using h
  | cons op ops ih =>
    have hstep := h.step s.threshold op
    have hrest := ih (s := (s.step op).1) (by simpa [Store.step] using hlive) hstep
    simpa [Store.run, Store.requeues, Store.step, Store.Delivery.records, hlive,
      Nat.add_assoc] using hrest

/-- **The history of a sign.** A store that starts empty and whose outbox is live hands out a sign,
or keeps it waiting, exactly when it was recorded. Each copy is the first record up to its status,
the last one has the status told last, and there is one more copy for each status that came while
the sign was known but did not wait. -/
theorem delivered_history (threshold : Nat) (ops : List Operation) (sign : UInt32) :
    let store := Store.new threshold .live
    let copies := Batch.copies sign (store.delivered ops)
    (copies ≠ [] ↔ ∃ r, .record r ∈ ops ∧ r.sign = sign) ∧
      ∀ first ∈ firstRecord? sign ops,
        (∀ r ∈ copies, { r with status := first.status } = first) ∧
        copies.getLast?.map Record.status =
          some ((statusesTold sign ops).getLast?.getD first.status) ∧
        copies.length = 1 + store.requeues sign ops := by
  intro store copies
  have h := (Tracks.empty sign).run (s := store) rfl ops
  simp only [List.nil_append, Nat.zero_add] at h
  refine ⟨?_, fun first hfirst => ?_⟩
  · rw [← isSome_firstRecord?_iff]
    cases hfirst : firstRecord? sign ops with
    | none =>
      have hnil : copies = [] := (h.unseen hfirst).1
      simp [hnil]
    | some first =>
      have hlength : copies.length = _ := (h.accounts first hfirst).length
      have hne : copies ≠ [] := List.ne_nil_of_length_pos (by omega)
      simp [hne]
  · have haccounts := h.accounts first hfirst
    exact ⟨haccounts.same, haccounts.status, haccounts.length⟩

/-- A record that was handed out before its status came is handed out once more. -/
theorem delivered_twice_after_dispatch :
    let r : Record := ⟨"demo".toList, "a.B".toList, "m".toList, "t".toList, 7, .open⟩
    let ops : List Operation := [.record r, .dispatch, .resolve 7 .fixed]
    let copies := Batch.copies 7 ((Store.new 30 .live).delivered ops)
    firstRecord? 7 ops = some r ∧ copies.length = 2 ∧
      copies.getLast?.map Record.status = some .fixed := by
  intro r ops copies
  have hfirst : firstRecord? 7 ops = some r := by decide
  obtain ⟨-, hstatus, hlength⟩ := (delivered_history 30 ops 7).2 r hfirst
  exact ⟨hfirst, hlength, hstatus⟩

end SqlInjection.Feedback
