import TaskTree.Proofs.LogEntry.Meaning
import TaskTree.Proofs.Node.WellFormed

/-!
# Log entries given back

A log entry is given back as a map of the keys that are set.  Everything in it is found
again: the plan is a program that gives itself back, and the rest is carried as it is.
Only the time is rewritten.  It is moved to universal time and written anew, and the
move can lead out of the years of four digits: from the first hours of the year 0 into
the year -1, from the last hours of the year 9999 into the year 10000.  Such a year is
written with a sign, which the format of a time does not admit.

**Results.**
* `LogEntry.timestampOf_entries`, `LogEntry.planOf_entries`: the time and the plan in that map.
* `LogEntry.ofValue_toValue_iff_plainYear`: the entries that are understood again from their own
  maps.
-/

namespace TaskTree

section EntryMaps

variable (details : EntryDetails) (plan : Option Value)

/-- The plan of a log entry is found in its map. -/
theorem EntryDetails.keyword?_plan_entries :
    (details.entries plan).keyword? "plan" = plan := by
  simp [EntryDetails.entries]

/-- The time of a log entry is found in its map, written as text. -/
theorem EntryDetails.keyword?_timestamp_entries :
    (details.entries plan).keyword? "timestamp"
      = details.timestamp.map fun t => .string t.offsetText := by
  simp [EntryDetails.entries]

/-- What else a log entry records is found in its map. -/
theorem LogEntry.detailsOf_entries
    (timestamp : Option Instant) :
    LogEntry.detailsOf (details.entries plan) timestamp = { details with timestamp } := by
  simp [LogEntry.detailsOf, EntryDetails.entries]

end EntryMaps

namespace LogEntry

/-- The map that is written for a log entry. -/
def entries (entry : LogEntry) : Entries :=
  entry.details.entries (entry.plan.map Node.toValue)

theorem toValue_toNode
    (entry : LogEntry) :
    entry.toNode.toValue = .map entry.entries := by
  rcases entry with ⟨details, plan⟩
  cases plan <;> rfl

/-- The time of a written entry is read again exactly if its year has four digits. -/
theorem timestampOf_entries
    (entry : LogEntry) :
    timestampOf entry.entries =
      if ∀ t ∈ entry.details.timestamp, t.HasPlainYear then .ok entry.details.timestamp
      else .error ⟨.invalidTimestamp, .map entry.entries⟩ := by
  rw [timestampOf, entries, EntryDetails.keyword?_timestamp_entries]
  cases entry.details.timestamp with
  | none => simp
  | some t =>
      have hread : instant? (.string t.offsetText) = if t.HasPlainYear then some t else none := by
        rw [instant?, Value.stringText?, Option.bind_some, Instant.ofStrict?_offsetText]
      simp only [Option.map_some, hread, Option.mem_def, Option.some.injEq, forall_eq']
      by_cases hyear : t.HasPlainYear
      · simp only [if_pos hyear]
      · simp only [if_neg hyear]

section Understood

variable {given : Entries} {entry : LogEntry}

/-- A time that was read lies in one of the years that the format can give. -/
theorem year_of_timestampOf
    {t : Instant}
    (h : timestampOf given = .ok (some t)) :
    -1 ≤ t.date.year ∧ t.date.year ≤ 10000 := by
  cases timestampOf_eq_ok_iff.1 h with
  | present _ htext => exact Instant.year_of_ofStrict? htext.ofStrict?_eq

/-- The plan that was understood is understood again from the value that is written for it. -/
theorem planOf_entries
    (h : planOf given = .ok entry.plan) :
    planOf entry.entries = .ok entry.plan := by
  have hfound := EntryDetails.keyword?_plan_entries entry.details (entry.plan.map Node.toValue)
  refine planOf_eq_ok_iff.2 ?_
  generalize hplan : entry.plan = plan at h hfound
  cases planOf_eq_ok_iff.1 h with
  | absent => exact .absent (by rwa [entries, hplan])
  | present _ hnode =>
      have hdenotes := (Node.ofValue_eq_ok_iff.1 hnode).wellFormed.denotes_toValue
      exact .present (by rwa [entries, hplan]) (Node.ofValue_eq_ok_iff.2 hdenotes)

end Understood

/-- An entry that was understood is understood again from its own map exactly if its time has a
year of four digits.  Otherwise the year is -1 or 10000, and the time is refused. -/
theorem ofValue_toValue_iff_plainYear
    {value : Value} {entry : LogEntry}
    (h : ofValue value = .ok entry) :
    (ofValue entry.toNode.toValue = .ok entry ↔
        ∀ t ∈ entry.details.timestamp, t.HasPlainYear) ∧
      ∀ t ∈ entry.details.timestamp, ¬ t.HasPlainYear →
        (t.date.year = -1 ∨ t.date.year = 10000) ∧
          ofValue entry.toNode.toValue = .error ⟨.invalidTimestamp, entry.toNode.toValue⟩ := by
  obtain ⟨given, rfl, htime, hplan, -⟩ := ofValue_eq_ok_iff.1 h
  have hrefused : (¬ ∀ t ∈ entry.details.timestamp, t.HasPlainYear) →
      ofValue entry.toNode.toValue = .error ⟨.invalidTimestamp, entry.toNode.toValue⟩ := by
    intro hyear
    rw [toValue_toNode, ofValue, timestampOf_entries, if_neg hyear]
    rfl
  refine ⟨⟨fun hback => ?_, fun hyear => ?_⟩, fun t ht hyear => ⟨?_, ?_⟩⟩
  · by_contra hyear
    rw [hrefused hyear] at hback
    cases hback
  · have hread := timestampOf_entries entry
    rw [if_pos hyear] at hread
    refine ofValue_eq_ok_iff.2
      ⟨entry.entries, toValue_toNode entry, hread, planOf_entries hplan, ?_⟩
    rw [entries, detailsOf_entries]
  · rw [Option.mem_def.1 ht] at htime
    have hrange := year_of_timestampOf htime
    unfold Instant.HasPlainYear at hyear
    omega
  · exact hrefused fun hall => hyear (hall t ht)

/-- A leap second that comes an hour later in universal time, in the next year. -/
def atTurnOfYear : LogEntry where
  details := { EntryDetails.empty with
    timestamp := do return ⟨← Date.of? 2024 1 1, ← Clock.of? 0 59 60 250000000⟩
    result := some .nil }
  plan := some (.call [.symbol ⟨"f"⟩])

/-- The first moment of the year 0 an hour east of universal time. -/
def beforeYearZero : LogEntry where
  details := { EntryDetails.empty with
    timestamp := do return ⟨← Date.of? (-1) 12 31, ← Clock.of? 23 0 0 0⟩ }
  plan := none

/-- A time that moves into the next year comes back, and one that moves out of the years of four
digits is refused. -/
theorem ofValue_toValue_of_movedTimes :
    (ofValue
          (.map
            [(.keyword "timestamp", .string "2023-12-31t23:59:60.25-01:00"),
              (.keyword "result", .nil), (.keyword "plan", .list [.symbol "f"])])
        = .ok atTurnOfYear ∧
      ofValue atTurnOfYear.toNode.toValue = .ok atTurnOfYear) ∧
    (ofValue (.map [(.keyword "timestamp", .string "0000-01-01T00:00:00+01:00")])
        = .ok beforeYearZero ∧
      ofValue beforeYearZero.toNode.toValue
        = .error ⟨.invalidTimestamp, beforeYearZero.toNode.toValue⟩) := by
  have hturn : Instant.ofStrict? "2023-12-31t23:59:60.25-01:00".toList
      = atTurnOfYear.details.timestamp := by
    decide
  have hzero : Instant.ofStrict? "0000-01-01T00:00:00+01:00".toList
      = beforeYearZero.details.timestamp := by
    decide
  refine ⟨⟨?turn, (ofValue_toValue_iff_plainYear ?turn).1.2 ?plain⟩,
    ⟨?zero, ((ofValue_toValue_iff_plainYear ?zero).2 _ rfl ?signed).2⟩⟩
  case turn => exact ofValue_eq_ok_iff.2 ⟨_, rfl, timestampOf_eq_ok rfl hturn, rfl, rfl⟩
  case zero => exact ofValue_eq_ok_iff.2 ⟨_, rfl, timestampOf_eq_ok rfl hzero, rfl, rfl⟩
  case plain =>
    rintro t ⟨⟩
    decide
  case signed => decide

end LogEntry

end TaskTree
