import SqlInjection.Project.Session
import SqlInjection.Proofs.Feedback.History
import SqlInjection.Proofs.Project.FixRuns

/-!
# What a session tells the store

A session scans, fixes, and hands batches out, in any order, while the files of its project change.
For its store this is one operation after the other, and each has a reason (`Event`): a scan found a
detection in a file, or a run that fixes files got through a file with a detection.

What the store keeps and delivers is founded on these events (`Feedback.Record.Founded`): the sign
of a record is not on the allow-list and was found by a scan, and a status other than open was
earned by a detection in a file that a run got through. `records_founded` says this of every record,
at every point of every session that starts with an empty store, and of the events up to that point.
It does not matter what is detected in which file, so this is left open (`inspect`).
-/

namespace SqlInjection

/-! ## What every record of a store has in common -/

namespace Feedback

theorem Batch.forall_mem_insert {A : Record → Prop} {b : Batch} {r : Record} (hr : A r)
    (hb : ∀ s ∈ b, A s) : ∀ s ∈ Batch.insert r b, A s := by
  intro s hs
  rcases Batch.mem_of_mem_insert hs with rfl | hs
  · exact hr
  · exact hb s hs

/-- All records of a ledger are of a kind. -/
structure Ledger.All (A : Record → Prop) (l : Ledger) : Prop where
  pending : ∀ r ∈ l.pending, A r
  seen : ∀ r ∈ l.seen, A r

/-- An operation brings no other records than those of a kind, and makes none another kind. -/
def Operation.Keeps (A : Record → Prop) : Operation → Prop
  | .record r => A r
  | .resolve sign status => ∀ r, A r → r.sign = sign → A { r with status }
  | .flush | .dispatch => True

/-- All records are of a kind, those drained included. -/
structure Ledger.Change.All (A : Record → Prop) (c : Ledger.Change) : Prop where
  ledger : c.ledger.All A
  drained : ∀ r ∈ c.drained, A r

namespace Ledger.All

variable {A : Record → Prop} {l : Ledger}

theorem enqueue (h : l.All A) {r : Record} (hr : A r) (threshold : Nat) :
    (l.enqueue threshold r).All A := by
  unfold Ledger.enqueue
  split
  · exact ⟨⟨by simpa using hr, h.seen⟩, h.pending⟩
  · exact ⟨⟨Batch.forall_mem_insert hr h.pending, h.seen⟩, by simp⟩

theorem record (h : l.All A) {r : Record} (hr : A r) (threshold : Nat) :
    (l.record threshold r).All A := by
  unfold Ledger.record
  split
  · exact ⟨h, by simp⟩
  · have hseen : Ledger.All A { l with seen := Batch.insert r l.seen } :=
      ⟨h.pending, Batch.forall_mem_insert hr h.seen⟩
    exact hseen.enqueue hr threshold

theorem resolve (h : l.All A) {sign : UInt32} {status : Status}
    (hkeep : ∀ r, A r → r.sign = sign → A { r with status }) (threshold : Nat) :
    (l.resolve threshold sign status).All A := by
  unfold Ledger.resolve
  split
  · next r hfind =>
    have hmem := h.pending r (List.mem_of_find?_eq_some hfind)
    have hr := hkeep r hmem (Batch.sign_eq_of_find? hfind)
    exact ⟨⟨Batch.forall_mem_insert hr h.pending, h.seen⟩, by simp⟩
  · next r _ hfind =>
    have hmem := h.seen r (List.mem_of_find?_eq_some hfind)
    exact h.enqueue (hkeep r hmem (Batch.sign_eq_of_find? hfind)) threshold
  · exact ⟨h, by simp⟩

theorem flush (h : l.All A) : l.flush.All A := ⟨⟨by simp [Ledger.flush], h.seen⟩, h.pending⟩

end Ledger.All

/-- One operation keeps all records of a kind and delivers only such. -/
theorem Store.step_all {A : Record → Prop} {s : Store} (h : s.ledger.All A) {op : Operation}
    (hop : op.Keeps A) :
    (s.step op).1.ledger.All A ∧ ∀ r ∈ (s.step op).2.records, A r := by
  -- What is sent is what was drained, or nothing if the outbox is not live.
  have hsent : ∀ {c : Ledger.Change}, c.All A →
      ∀ r ∈ (if s.outbox = .live then toSend c.drained else []).flatten, A r := by
    intro c hc r hr
    split at hr
    · exact hc.drained r (by simpa using hr)
    · simp at hr
  cases op with
  | record r =>
    have hc := h.record hop s.threshold
    exact ⟨hc.ledger, by simpa [Store.step, Ledger.step, Delivery.records] using hsent hc⟩
  | resolve sign status =>
    have hc := h.resolve hop s.threshold
    exact ⟨hc.ledger, by simpa [Store.step, Ledger.step, Delivery.records] using hsent hc⟩
  | flush =>
    have hc := h.flush
    exact ⟨hc.ledger, by simpa [Store.step, Ledger.step, Delivery.records] using hc.drained⟩
  | dispatch =>
    have hc := h.flush
    exact ⟨hc.ledger, by simpa [Store.step, Ledger.step, Delivery.records] using hsent hc⟩

/-- Only a flush gives something back. -/
theorem Store.returned_run {s : Store} {ops : List Operation} (h : .flush ∉ ops) :
    ∀ d ∈ (s.run ops).2, d.returned = none := by
  induction ops generalizing s with
  | nil => simp [Store.run]
  | cons op ops ih =>
    obtain ⟨hop, hops⟩ := not_or.1 fun hmem => h (List.mem_cons.2 hmem)
    refine List.forall_mem_cons.2 ⟨?_, ih hops⟩
    cases op with
    | flush => exact absurd rfl hop
    | record | resolve | dispatch => rfl

end Feedback

open Feedback

/-! ## Events -/

/-- What a store is told during a session, and why. -/
inductive Event where
  /-- A scan of a project returned a detection in a file. -/
  | found (project : Text) (file : FileScan) (d : Detection)
  /-- A run that fixes files got through a file with a detection. -/
  | settled (file : FileScan) (d : Detection)
  | flush
  | dispatch

namespace Event

/-- What the store is told. -/
def operation : Event → Operation
  | .found project _ d => .record (d.record project)
  | .settled _ d =>
    .resolve d.fingerprint (if d.fix.status = .fixed then .fixed else .unresolved)
  | .flush => .flush
  | .dispatch => .dispatch

/-- A detection is one of its file, and a scan returns none that has been reviewed. -/
def Sound (config : ProjectConfig) : Event → Prop
  | .found _ f d => d ∈ f.detections ∧ d.fingerprint ∉ config.allowed
  | .settled f d => d ∈ f.detections
  | .flush | .dispatch => True

end Event

/-- What a record rests on, after these events.

* Its sign has not been reviewed.
* Its sign is that of a detection that a scan returned.
* If it tells of an outcome, a run that fixes files got through a file with a detection of its sign
  whose fix came to that outcome. -/
structure Feedback.Record.Founded (config : ProjectConfig) (past : List Event) (r : Record) :
    Prop where
  unreviewed : r.sign ∉ config.allowed
  found : ∃ project f d, .found project f d ∈ past ∧ d ∈ f.detections ∧ d.fingerprint = r.sign
  fixed : r.status = .fixed → ∃ f d, .settled f d ∈ past ∧ d ∈ f.detections ∧
    d.fingerprint = r.sign ∧ d.fix.status = .fixed
  unresolved : r.status = .unresolved → ∃ f d, .settled f d ∈ past ∧ d ∈ f.detections ∧
    d.fingerprint = r.sign ∧ d.fix.status = .unresolved

section Founded

variable {config : ProjectConfig} {past past' : List Event} {r : Record} {s : Store} {e : Event}

theorem Feedback.Record.Founded.mono (h : r.Founded config past) (hsub : past ⊆ past') :
    r.Founded config past' where
  unreviewed := h.unreviewed
  found := by
    obtain ⟨project, f, d, hmem, hd⟩ := h.found
    exact ⟨project, f, d, hsub hmem, hd⟩
  fixed hstatus := by
    obtain ⟨f, d, hmem, hd⟩ := h.fixed hstatus
    exact ⟨f, d, hsub hmem, hd⟩
  unresolved hstatus := by
    obtain ⟨f, d, hmem, hd⟩ := h.unresolved hstatus
    exact ⟨f, d, hsub hmem, hd⟩

/-- An event tells the store of founded records only. -/
theorem Event.keeps_operation (he : e.Sound config) :
    e.operation.Keeps (Record.Founded config (past ++ [e])) := by
  cases e with
  | found project f d => exact ⟨he.2, ⟨project, f, d, by simp, he.1, rfl⟩, nofun, nofun⟩
  | settled f d =>
    intro r hr hsign
    have hlast : .settled f d ∈ past ++ [.settled f d] := by simp
    refine ⟨hr.unreviewed, hr.found, fun hstatus => ⟨f, d, hlast, he, hsign.symm, ?_⟩,
      fun hstatus => ⟨f, d, hlast, he, hsign.symm, ?_⟩⟩
    · by_contra hfix
      simp [hfix] at hstatus
    · cases hfix : d.fix.status with
      | fixed => simp [hfix] at hstatus
      | unresolved => rfl
  | flush | dispatch => trivial

/-- One event keeps the records of a store founded and delivers founded records. -/
theorem Feedback.Store.step_founded (h : s.ledger.All (Record.Founded config past))
    (he : e.Sound config) :
    (s.step e.operation).1.ledger.All (Record.Founded config (past ++ [e])) ∧
      ∀ r ∈ (s.step e.operation).2.records, r.Founded config (past ++ [e]) := by
  have hmore : past ⊆ past ++ [e] := List.subset_append_left _ _
  exact Store.step_all ⟨fun r hr => (h.pending r hr).mono hmore,
    fun r hr => (h.seen r hr).mono hmore⟩ (Event.keeps_operation he)

/-- **What a store keeps and delivers is founded on the events up to then.** -/
theorem Feedback.Store.run_founded (h : s.ledger.All (Record.Founded config past))
    {es : List Event} (hes : ∀ e ∈ es, e.Sound config) :
    (s.run (es.map Event.operation)).1.ledger.All (Record.Founded config (past ++ es)) ∧
      ∀ (k : Nat) (d : Delivery), (s.run (es.map Event.operation)).2[k]? = some d →
        ∀ r ∈ d.records, r.Founded config (past ++ es.take (k + 1)) := by
  induction es generalizing s past with
  | nil => simpa [Store.run] using h
  | cons e es ih =>
    obtain ⟨hledger, hfirst⟩ := Store.step_founded h (hes e List.mem_cons_self)
    obtain ⟨hend, hrest⟩ := ih hledger fun e' he' => hes e' (List.mem_cons_of_mem e he')
    rw [List.append_assoc, List.singleton_append] at hend
    refine ⟨hend, fun k d hd => ?_⟩
    cases k with
    | zero =>
      obtain rfl := Option.some.inj hd
      exact hfirst
    | succ k =>
      have hr := hrest k d hd
      rwa [List.append_assoc, List.singleton_append] at hr

end Founded

/-! ## Sessions task by task -/

/-- The files of a scan that a run gets through which fixes them in a project. -/
def Project.processes (p : Project) (scan : Scan) : List FileScan :=
  scan.files.takeWhile fun f => !f.isChanged || p.isWritable f.location

/-- What a run tells that is not a dry run: the outcome of each detection in the files that it gets
through. -/
theorem Project.operations_fix (p : Project) (scan : Scan) :
    (p.fix scan false).2.operations = (p.processes scan).flatMap fun f =>
      f.detections.map fun d =>
        .resolve d.fingerprint (if d.fix.status = .fixed then .fixed else .unresolved) := by
  refine (FixRun.finishes_of_effects ?_).told
  show (fixFiles false _).effects = _
  rw [fixFiles_false, List.takeWhile_map, List.map_map]
  exact congrArg (List.flatMap FileScan.effects) (List.map_id _)

section Inspection

variable (inspect : Location → ByteArray → Option FileScan)

/-- A scan reports no detection that has been reviewed. -/
theorem Project.not_mem_allowed_of_scanBy {p : Project} {config : ProjectConfig} {f : FileScan}
    (hf : f ∈ (p.scanBy inspect config).files) {d : Detection} (hd : d ∈ f.detections) :
    d.fingerprint ∉ config.allowed := by
  obtain ⟨hf, -⟩ := List.mem_filter.1 hf
  obtain ⟨g, -, rfl⟩ := List.mem_map.1 hf
  simpa [AllowList.allows, ProjectConfig.allowList] using (List.mem_filter.1 hd).2

namespace Session

variable {config : ProjectConfig} {s : Session}

/-- The events of a task. -/
def eventsOf (config : ProjectConfig) (s : Session) : Task → List Event
  | .change _ | .fix true => []
  | .scan => (s.project.scanBy inspect config).files.flatMap fun f =>
    f.detections.map (.found s.project.name f)
  | .fix false => (s.project.processes s.scan).flatMap fun f => f.detections.map (.settled f)
  | .flush => [.flush]
  | .dispatch => [.dispatch]

/-- The events of several tasks. -/
def events (config : ProjectConfig) (s : Session) : List Task → List Event
  | [] => []
  | t :: ts => s.eventsOf inspect config t ++ (s.stepBy inspect config t).1.events config ts

/-- The session after some tasks, with these settings, and what each of them came to. -/
def runBy (config : ProjectConfig) (s : Session) : List Task → Session × List TaskResult
  | [] => (s, [])
  | t :: ts =>
    let (s, result) := s.stepBy inspect config t
    let (s, results) := s.runBy config ts
    (s, result :: results)

theorem sound_of_mem_eventsOf (t : Task) : ∀ e ∈ s.eventsOf inspect config t, e.Sound config := by
  intro e he
  match t with
  | .change _ | .fix true => cases he
  | .scan =>
    obtain ⟨f, hf, he⟩ := List.mem_flatMap.1 he
    obtain ⟨d, hd, rfl⟩ := List.mem_map.1 he
    exact ⟨hd, Project.not_mem_allowed_of_scanBy inspect hf hd⟩
  | .fix false =>
    obtain ⟨f, hf, he⟩ := List.mem_flatMap.1 he
    obtain ⟨d, hd, rfl⟩ := List.mem_map.1 he
    exact hd
  | .flush | .dispatch =>
    obtain rfl := List.mem_singleton.1 he
    trivial

theorem sound_of_mem_events (ts : List Task) :
    ∀ e ∈ s.events inspect config ts, e.Sound config := by
  induction ts generalizing s with
  | nil => nofun
  | cons t ts ih => exact List.forall_mem_append.2 ⟨sound_of_mem_eventsOf inspect t, ih⟩

/-- What a task tells the store. -/
def operations (config : ProjectConfig) (s : Session) : Task → List Operation
  | .change _ => []
  | .scan => (s.project.scanBy inspect config).operations s.project.name
  | .fix dryRun => (s.project.fix s.scan dryRun).2.operations
  | .flush => [.flush]
  | .dispatch => [.dispatch]

theorem map_operation_eventsOf (config : ProjectConfig) (s : Session) (t : Task) :
    (s.eventsOf inspect config t).map Event.operation = s.operations inspect config t := by
  match t with
  | .change _ | .flush | .dispatch => rfl
  | .scan =>
    rw [eventsOf, List.map_flatMap]
    simp only [List.map_map]
    rfl
  | .fix true =>
    show [] = FixRun.operations (fixFiles true _)
    rw [fixFiles_true]
    rfl
  | .fix false =>
    rw [operations, Project.operations_fix, eventsOf, List.map_flatMap]
    simp only [List.map_map]
    rfl

theorem stepBy_eq (config : ProjectConfig) (s : Session) (t : Task) :
    let run := s.store.run (s.operations inspect config t)
    (s.stepBy inspect config t).1.store = run.1 ∧
      (s.stepBy inspect config t).2.sent = run.2.flatMap (·.sent) ∧
      (s.stepBy inspect config t).2.returned = run.2.findSome? (·.returned) := by
  cases t <;> exact ⟨rfl, rfl, rfl⟩

/-- A task gives back what the store gives back meanwhile; no task tells it more than one flush. -/
theorem filterMap_returned (config : ProjectConfig) (s : Session) (t : Task) :
    (s.store.run (s.operations inspect config t)).2.filterMap (·.returned) =
      (s.stepBy inspect config t).2.returned.toList := by
  rw [(stepBy_eq inspect config s t).2.2]
  by_cases hflush : .flush ∈ s.operations inspect config t
  · have hone : s.operations inspect config t = [.flush] := by
      rw [← map_operation_eventsOf] at hflush
      obtain ⟨e, he, hop⟩ := List.mem_map.1 hflush
      match t with
      | .change _ | .fix true => cases he
      | .scan | .fix false =>
        obtain ⟨f, -, he⟩ := List.mem_flatMap.1 he
        obtain ⟨d, -, rfl⟩ := List.mem_map.1 he
        cases hop
      | .flush => rfl
      | .dispatch =>
        obtain rfl := List.mem_singleton.1 he
        cases hop
    rw [hone]
    rfl
  · have hnone := Store.returned_run (s := s.store) hflush
    rw [List.filterMap_eq_nil_iff.2 hnone, List.findSome?_eq_none_iff.2 hnone]
    rfl

/-- For its store, the tasks of a session come to these operations, one after the other. -/
structure Tells (config : ProjectConfig) (s : Session) (ts : List Task) (ops : List Operation) :
    Prop where
  store : (s.runBy inspect config ts).1.store = (s.store.run ops).1
  sent : (s.runBy inspect config ts).2.flatMap (·.sent) = (s.store.run ops).2.flatMap (·.sent)
  returned : (s.runBy inspect config ts).2.filterMap (·.returned) =
    (s.store.run ops).2.filterMap (·.returned)

theorem tells_events (config : ProjectConfig) (s : Session) (ts : List Task) :
    s.Tells inspect config ts ((s.events inspect config ts).map Event.operation) := by
  induction ts generalizing s with
  | nil => exact ⟨rfl, rfl, rfl⟩
  | cons t ts ih =>
    obtain ⟨hstore, hsent, -⟩ := stepBy_eq inspect config s t
    obtain ⟨hlast, hsents, hreturned⟩ := ih (s.stepBy inspect config t).1
    rw [hstore] at hlast hsents hreturned
    rw [events, List.map_append, map_operation_eventsOf]
    refine ⟨?_, ?_, ?_⟩ <;> rw [Store.run_append]
    · exact hlast
    · rw [List.flatMap_append, ← hsent, ← hsents]
      rfl
    · rw [List.filterMap_append, filterMap_returned, ← hreturned]
      show List.filterMap _ ((s.stepBy inspect config t).2 :: _) = _
      rw [List.filterMap_cons]
      cases (s.stepBy inspect config t).2.returned <;> rfl

end Session

end Inspection

/-- **What a session keeps and delivers is founded on what it did.** The settings stay the same;
what is detected in a file, the project, the limit and the outbox of the store, which is empty at
first, and the tasks are arbitrary. For the store they come to events, one after the other; and
after the first `k` of them each record that waits, and each record that is delivered at the next,
is founded on the events up to then. -/
theorem records_founded (inspect : Location → ByteArray → Option FileScan)
    (config : ProjectConfig) (project : Project) (threshold : Nat) (outbox : Outbox)
    (tasks : List Task) :
    let start := Session.start project (Store.new threshold outbox)
    let events := start.events inspect config tasks
    let ops := events.map Event.operation
    start.Tells inspect config tasks ops ∧
      (∀ k, ∀ r ∈ (start.store.run (ops.take k)).1.ledger.pending,
        r.Founded config (events.take k)) ∧
      ∀ (k : Nat) (d : Store.Delivery), (start.store.run ops).2[k]? = some d →
        ∀ r ∈ d.records, r.Founded config (events.take (k + 1)) := by
  intro start events ops
  have hempty : start.store.ledger.All (Record.Founded config []) := ⟨nofun, nofun⟩
  have hsound : ∀ e ∈ events, e.Sound config := Session.sound_of_mem_events inspect tasks
  refine ⟨start.tells_events inspect config tasks, fun k => ?_, (Store.run_founded hempty hsound).2⟩
  have hsoundFirst : ∀ e ∈ events.take k, e.Sound config := fun e he =>
    hsound e (List.mem_of_mem_take he)
  have hfirst := (Store.run_founded hempty hsoundFirst).1.pending
  rwa [List.map_take] at hfirst

/-- A project with one mapper document, which has one interpolation. -/
def oneMapperProject : Project :=
  let source := "<!DOCTYPE mapper SYSTEM \"mybatis.org/mapper.dtd\">" ++
    "<mapper><select>where id = $\x7bid\x7d</select></mapper>"
  ⟨⟨[(["a.xml".toList], Text.encode source.toList)], []⟩, []⟩

/-- The scan of this project, by the one file that it reads. -/
theorem scan_oneMapperProject (inspect : Location → ByteArray → Option FileScan) :
    oneMapperProject.scanBy inspect .builtin =
      let scanned := oneMapperProject.tree.files.filterMap fun (l, b) => inspect l b
      let reported := scanned.map (·.dropAllowed (ProjectConfig.allowList .builtin))
      ⟨1, reported.filter fun f => !f.detections.isEmpty⟩ := by
  have hreads : (oneMapperProject.filesBelow.filter fun f => oneMapperProject.reads .builtin f.1) =
      oneMapperProject.tree.files := rfl
  have hfiles : oneMapperProject.sourceFiles .builtin = oneMapperProject.tree.files := by
    rw [Project.sourceFiles, hreads]
    exact List.mergeSort_singleton _
  rw [Project.scanBy, hfiles]
  rfl

/-- The document is scanned, fixed, and reported: the record that the third event delivers has the
status of the fix, and it is founded. -/
theorem records_founded_oneMapper :
    let start := Session.start oneMapperProject (Store.new 0 .live)
    let inspect := inspectFile? (ProjectConfig.engine .builtin)
    let events := start.events inspect .builtin [.scan, .fix false, .flush]
    ∃ d, (start.store.run (events.map Event.operation)).2[2]? = some d ∧
      ∃ r ∈ d.records, r.status = .fixed ∧ r.Founded .builtin (events.take 3) := by
  intro start inspect events
  have hcheck : ((start.store.run (events.map Event.operation)).2[2]?.any fun d =>
      d.records.any fun r => r.status == .fixed) = true := by
    simp only [start, inspect, events, Session.events, Session.eventsOf, Session.stepBy,
      Session.start, scan_oneMapperProject]
    decide +kernel
  simp only [Option.any_eq_true, List.any_eq_true, beq_iff_eq] at hcheck
  obtain ⟨d, hd, r, hr, hstatus⟩ := hcheck
  obtain ⟨-, -, hfounded⟩ :=
    records_founded inspect .builtin oneMapperProject 0 .live [.scan, .fix false, .flush]
  exact ⟨d, hd, r, hr, hstatus, hfounded 2 d hd r hr⟩

end SqlInjection
