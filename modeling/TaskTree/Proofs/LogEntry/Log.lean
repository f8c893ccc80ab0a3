import TaskTree.Proofs.LogEntry.Meaning
import TaskTree.Proofs.Node.Outline

/-!
# Logs

A log is understood entry by entry, in order, and the first entry that does not fit decides
how it is refused.  Only ten keys of an entry are looked at: maps that agree on them cannot be
told apart by more than the fragment in a refusal.

**Results.**
* `LogEntry.ofValue_agree`: the known keys decide what a map is understood as.
* `LogEntry.ofValues_eq_ok_iff`, `LogEntry.ofValues_eq_error`: entries one after the other.
* `TaskDetails.logEntries_laws`: that, and what the log of a task is understood as.
-/

namespace TaskTree
namespace LogEntry

section TwoMaps

/-- The keys of a log entry. -/
def keys : List String :=
  ["stage", "agent", "timestamp", "status", "derived-from", "plan", "result", "error",
    "executing-step", "executed-step"]

variable {a b : Entries}

theorem timestampOf_agree
    (h : a.keyword? "timestamp" = b.keyword? "timestamp") :
    Corresponds ParseError.SameFault Eq (timestampOf a) (timestampOf b) := by
  rw [timestampOf, timestampOf, h]
  split
  · exact .ok rfl
  · split
    · exact .ok rfl
    · -- the fragment is the whole map, so that only the reasons agree
      exact .error rfl

/-- Maps that give the same under the known keys are understood as the same entry, or refused for
the same reason. -/
theorem ofValue_agree
    (h : ∀ key ∈ keys, a.keyword? key = b.keyword? key) :
    Corresponds ParseError.SameFault Eq (ofValue (.map a)) (ofValue (.map b)) := by
  simp only [keys, List.forall_mem_cons] at h
  obtain ⟨hstage, hagent, htime, hstatus, hderived, hplan, hresult, herror, hexecuting, hexecuted,
    -⟩ := h
  have hdetails : detailsOf a = detailsOf b := by
    funext timestamp
    simp only [detailsOf, hstage, hagent, hstatus, hderived, hresult, herror, hexecuting, hexecuted]
  have hplans : planOf a = planOf b := by
    rw [planOf, planOf, hplan]
  refine (timestampOf_agree htime).bind fun timestamp timestamp' hsame => ?_
  obtain rfl := hsame
  rw [hdetails, hplans]
  cases planOf b with
  | ok plan => exact .ok rfl
  | error e => exact .error rfl

end TwoMaps

section ManyEntries

variable {values : List Value}

/-- Values are understood one after the other. -/
theorem ofValues_eq_mapM
    (values : List Value) :
    ofValues values = values.mapM ofValue := by
  induction values with
  | nil => rfl
  | cons value values ih => rw [ofValues, List.mapM_cons, ih]

/-- There is one entry for each value, in the same order. -/
theorem ofValues_eq_ok_iff
    {entries : List LogEntry} :
    ofValues values = .ok entries ↔ List.Forall₂ Gives values entries := by
  simp only [ofValues_eq_mapM, mapM_eq_ok_iff, ofValue_eq_ok_iff_gives]

theorem exists_ofValues_iff :
    (∃ entries, ofValues values = .ok entries) ↔ ∀ value ∈ values, Fits value := by
  simp only [ofValues_eq_mapM, exists_mapM_iff, exists_ofValue_iff]

/-- Values are refused as the first of them that does not fit. -/
theorem ofValues_eq_error
    {before after : List Value} {value : Value} {e : ParseError}
    (hbefore : ∀ v ∈ before, Fits v)
    (h : Refused value e) :
    ofValues (before ++ value :: after) = .error e := by
  rw [ofValues_eq_mapM]
  exact mapM_eq_error_iff.2 ⟨before, value, after, rfl,
    fun v hv => exists_ofValue_iff.2 (hbefore v hv), ofValue_eq_error_iff.2 h⟩

/-- A value that does not fit is refused. -/
theorem exists_refused
    {value : Value}
    (h : ¬ Fits value) :
    ∃ e, Refused value e := by
  cases hvalue : ofValue value with
  | ok entry => exact absurd (exists_ofValue_iff.1 ⟨entry, hvalue⟩) h
  | error e => exact ⟨e, ofValue_eq_error_iff.1 hvalue⟩

end ManyEntries

end LogEntry

namespace TaskDetails

theorem logEntries_of_items
    {details : TaskDetails} {items : List Value}
    (h : details.executionLog = some (.list items) ∨
      details.executionLog = some (.vector items)) :
    details.logEntries = LogEntry.ofValues items := by
  rcases h with h | h <;> rw [logEntries, h]

theorem logEntries_unparseable
    {details : TaskDetails} {log : Value}
    (h : details.executionLog = some log)
    (hlog : ∀ items, log ≠ .list items ∧ log ≠ .vector items) :
    details.logEntries = .error ⟨.unparseable, log⟩ := by
  rw [logEntries, h]
  cases log with
  | list items => exact absurd rfl (hlog items).1
  | vector items => exact absurd rfl (hlog items).2
  | _ => rfl

/-- The log of a task gives one entry for each value in it, in order, exactly if all of them fit,
and is refused as the first that does not.  Without a log there are no entries, and a log that is no
collection is refused itself.  Of a map only the known keys count. -/
theorem logEntries_laws :
    (∀ details : TaskDetails,
      (details.executionLog = none → details.logEntries = .ok []) ∧
      (∀ log, details.executionLog = some log →
        (∀ items, log ≠ .list items ∧ log ≠ .vector items) →
          details.logEntries = .error ⟨.unparseable, log⟩) ∧
      ∀ items,
        details.executionLog = some (.list items) ∨
            details.executionLog = some (.vector items) →
          (∀ entries, details.logEntries = .ok entries ↔
            List.Forall₂ LogEntry.Gives items entries) ∧
          ((∃ entries, details.logEntries = .ok entries) ↔ ∀ value ∈ items, LogEntry.Fits value) ∧
          ∀ before value after, items = before ++ value :: after →
            (∀ v ∈ before, LogEntry.Fits v) → ¬ LogEntry.Fits value →
              ∃ e, LogEntry.Refused value e ∧ details.logEntries = .error e) ∧
    ∀ a b : Entries, (∀ key ∈ LogEntry.keys, a.keyword? key = b.keyword? key) →
      Corresponds ParseError.SameFault Eq (LogEntry.ofValue (.map a))
        (LogEntry.ofValue (.map b)) := by
  refine ⟨fun details => ⟨fun hnone => ?_, fun log => logEntries_unparseable,
    fun items hitems => ?_⟩, fun a b => LogEntry.ofValue_agree⟩
  · rw [logEntries, hnone]
  · rw [logEntries_of_items hitems]
    refine ⟨fun entries => LogEntry.ofValues_eq_ok_iff, LogEntry.exists_ofValues_iff, ?_⟩
    rintro before value after rfl hbefore hvalue
    obtain ⟨e, he⟩ := LogEntry.exists_refused hvalue
    exact ⟨e, he, LogEntry.ofValues_eq_error hbefore he⟩

/-- A log whose second entry has a number as its time, a form without arguments as its plan, and an
entry behind it that is no map. -/
def withBadEntries : TaskDetails :=
  { TaskDetails.empty with
    executionLog := some (.vector
      [.map [(.keyword "note", .nil), (.keyword "stage", .nil)],
        .map [(.keyword "plan", .list [.symbol "log-step"]), (.keyword "timestamp", .integer 0)],
        .nil]) }

/-- The second entry is refused for its time, whatever its plan is, and the first one is understood
as it would be without the key that is not known. -/
theorem logEntries_laws_badEntries :
    withBadEntries.logEntries
        = .error ⟨.invalidTimestamp,
            .map [(.keyword "plan", .list [.symbol "log-step"]),
              (.keyword "timestamp", .integer 0)]⟩ ∧
      Corresponds ParseError.SameFault Eq
        (LogEntry.ofValue (.map [(.keyword "note", .nil), (.keyword "stage", .nil)]))
        (LogEntry.ofValue (.map [(.keyword "stage", .nil)])) := by
  constructor
  · have hgood : LogEntry.Fits (.map [(.keyword "note", .nil), (.keyword "stage", .nil)]) :=
      ⟨_, rfl, nofun, nofun⟩
    have hbad : ¬ LogEntry.Fits (.map [(.keyword "plan", .list [.symbol "log-step"]),
        (.keyword "timestamp", .integer 0)]) := by
      rintro ⟨_, ⟨⟩, htime, -⟩
      obtain ⟨_, _, ⟨⟩, -⟩ := htime _ rfl
    obtain ⟨e, he, hlog⟩ := ((logEntries_laws.1 withBadEntries).2.2 _ (.inr rfl)).2.2 [_] _ [_] rfl
      (List.forall_mem_singleton.2 hgood) hbad
    rw [hlog]
    cases he with
    | noMap h => exact absurd rfl (h _)
    | badTime => rfl
    | badPlan htime =>
        obtain ⟨_, _, ⟨⟩, -⟩ := LogEntry.exists_givesTime_iff.1 ⟨_, htime⟩ _ rfl
  · refine logEntries_laws.2 _ _ ?_
    simp only [LogEntry.keys, List.forall_mem_cons]
    exact ⟨rfl, rfl, rfl, rfl, rfl, rfl, rfl, rfl, rfl, rfl, nofun⟩

end TaskDetails
end TaskTree
