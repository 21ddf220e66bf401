import SqlInjection.Project.Fixing

/-!
# Sessions

A session works on one project with one store. It remembers its last scan, which is what it fixes.
Its settings are given, or read anew from the project for each task.
-/

namespace SqlInjection

/-- A project, a store, and the last scan. -/
structure Session where
  project : Project
  store : Feedback.Store
  scan : Scan

/-- What a session does. -/
inductive Task where
  /-- Someone changes the files of the project. -/
  | change (tree : FileTree)
  | scan
  | fix (dryRun : Bool)
  | flush
  | dispatch

/-- What a task came to. -/
structure TaskResult where
  /-- The batches that were sent meanwhile. -/
  sent : List Feedback.Batch := []
  /-- The batch that a flush gave back. -/
  returned : Option Feedback.Batch := none
  /-- What fixing did. -/
  run : Option FixRun := none

namespace Session

/-- The session before anything is done. -/
def start (project : Project) (store : Feedback.Store) : Session := ⟨project, store, Scan.empty⟩

/-- Tells the store something. -/
def tell (s : Session) (ops : List Feedback.Operation) : Session × TaskResult :=
  let (store, deliveries) := s.store.run ops
  ({ s with store },
    { sent := deliveries.flatMap (·.sent), returned := deliveries.findSome? (·.returned) })

/-- The effect of a task, with these settings, where `inspect` tells what is detected in a file. -/
def stepBy (inspect : Location → ByteArray → Option FileScan) (config : ProjectConfig)
    (s : Session) : Task → Session × TaskResult
  | .change tree => ({ s with project := { s.project with tree } }, {})
  | .scan =>
    let scan := s.project.scanBy inspect config
    { s with scan }.tell (scan.operations s.project.name)
  | .fix dryRun =>
    let (project, run) := s.project.fix s.scan dryRun
    let (s, result) := { s with project }.tell run.operations
    (s, { result with run := some run })
  | .flush => s.tell [.flush]
  | .dispatch => s.tell [.dispatch]

/-- The effect of a task, with the settings that the project has by then. -/
def step (s : Session) (t : Task) : Session × TaskResult :=
  let config := s.project.config
  s.stepBy (inspectFile? config.engine) config t

end Session

end SqlInjection
