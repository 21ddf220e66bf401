import SqlInjection.Feedback.Store
import SqlInjection.Json.Basic

/-!
# What is sent

Batches are sent with the repository, the user and the version of the program they come from.
-/

namespace SqlInjection.Feedback

/-- The version of the program. -/
def programVersion : Text := "0.3.0".toList

/-- The form of what is sent. -/
def contentType : Text := "application/json; charset=UTF-8".toList

/-- Who sends. -/
structure Sender where
  repository : Option Text
  user : Text
  version : Text := programVersion
  deriving DecidableEq, Repr

/-- A record as it is sent. -/
def Record.toJson (r : Record) : JsonValue :=
  .fields [("project_name", .text r.project), ("fqname", .text r.location),
    ("message", .text r.message), ("elem_text", .text r.flagged),
    ("sign", .number r.sign.toNat), ("status", .text r.status.name.toList)]

/-- A batch as it is sent. -/
def payload (s : Sender) (b : Batch) : JsonValue :=
  .fields [("git_info", .text (s.repository.getD "null".toList)), ("user", .text s.user),
    ("plugin_version", .text s.version), ("vulns", .list (b.map Record.toJson))]

/-- All that a service sends: while it works, and when it ends. -/
def sentByService (threshold : Nat) (ops : List Operation) : List Batch :=
  ((Store.new threshold .live).run (ops ++ [.dispatch])).2.flatMap Store.Delivery.sent

end SqlInjection.Feedback
