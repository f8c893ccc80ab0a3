import TaskTree.Instant.Parse
import TaskTree.Node.OfValue

/-!
# Log entries

The execution log of a task is plain data until it is asked for.  An entry is a
map of which ten keys are known; its time has to be written in the internet
date-time format and its plan has to be a program.
-/

namespace TaskTree

/-- A record of an execution log. -/
structure LogEntry where
  details : EntryDetails
  plan : Option Node

namespace LogEntry

/-- The entry as a program tree. -/
def toNode (entry : LogEntry) : Node :=
  .logEntry entry.details entry.plan

/-- The instant that a value gives in the internet date-time format. -/
def instant? (value : Value) : Option Instant :=
  value.stringText?.bind fun text => Instant.ofStrict? text.toList

/-- What the map of a log entry says besides its time and its plan. -/
def detailsOf (entries : Entries) (timestamp : Option Instant) : EntryDetails where
  stage := entries.keyword? "stage"
  agent := entries.keyword? "agent"
  timestamp := timestamp
  status := entries.keyword? "status"
  derivedFrom := entries.keyword? "derived-from"
  result := entries.keyword? "result"
  error := entries.keyword? "error"
  executingStep := entries.keyword? "executing-step"
  executedStep := entries.keyword? "executed-step"

/-- The time of a log entry, if it gives one. -/
def timestampOf (entries : Entries) : Except ParseError (Option Instant) :=
  match entries.keyword? "timestamp" with
  | none => .ok none
  | some value =>
      match instant? value with
      | some instant => .ok (some instant)
      | none => .error ⟨.invalidTimestamp, .map entries⟩

/-- The plan of a log entry, if it gives one. -/
def planOf (entries : Entries) : Except ParseError (Option Node) :=
  match entries.keyword? "plan" with
  | none => .ok none
  | some value => (Node.ofValue value).map some

/-- Understands a value as a log entry. -/
def ofValue : Value → Except ParseError LogEntry
  | .map entries => do
      let timestamp ← timestampOf entries
      let plan ← planOf entries
      return { details := detailsOf entries timestamp, plan }
  | value => .error ⟨.unparseable, value⟩

/-- Understands every one of some values as a log entry. -/
def ofValues : List Value → Except ParseError (List LogEntry)
  | [] => .ok []
  | value :: values => do
      let entry ← ofValue value
      let entries ← ofValues values
      return entry :: entries

end LogEntry

/-- The entries of a task's execution log. -/
def TaskDetails.logEntries (details : TaskDetails) : Except ParseError (List LogEntry) :=
  match details.executionLog with
  | none => .ok []
  | some (.list items) => LogEntry.ofValues items
  | some (.vector items) => LogEntry.ofValues items
  | some log => .error ⟨.unparseable, log⟩

end TaskTree
