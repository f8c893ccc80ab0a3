import TaskTree.LogEntry
import TaskTree.Proofs.Except
import TaskTree.Proofs.Instant.Strict

/-!
# Log entries

An entry of a log is a map.  If it gives a time, the time is a text in the internet date-time
format, and if it gives a plan, the plan is a program; what else is known of it is carried as
it is.  A bad time is found before a bad plan.

**Results.**
* `LogEntry.detailsOf_eq_iff`: which part of an entry stands under which key.
* `LogEntry.ofValue_eq_ok_iff`, `LogEntry.ofValue_eq_ok_iff_gives`: when a value is understood as a
  log entry, and as which.
* `LogEntry.ofValue_eq_error_iff`: why a value is refused.
-/

namespace TaskTree

/-- What an entry carries as it is, with the keys under which a map gives it. -/
def EntryDetails.carried (details : EntryDetails) : List (String × Option Value) :=
  [("stage", details.stage), ("agent", details.agent), ("status", details.status),
    ("derived-from", details.derivedFrom), ("result", details.result),
    ("error", details.error), ("executing-step", details.executingStep),
    ("executed-step", details.executedStep)]

namespace LogEntry

section Meaning

/-- The time that a map gives, if it gives one. -/
inductive GivesTime (given : Entries) : Option Instant → Prop
  | absent
      (h : given.keyword? "timestamp" = none) :
      GivesTime given none
  | present
      {text : String} {t : Instant}
      (hfound : given.keyword? "timestamp" = some (.string text))
      (htext : Instant.DateTimeText t text.toList) :
      GivesTime given (some t)

/-- The program that a map gives as a plan, if it gives one. -/
inductive GivesPlan (given : Entries) : Option Node → Prop
  | absent
      (h : given.keyword? "plan" = none) :
      GivesPlan given none
  | present
      {plan : Value} {node : Node}
      (hfound : given.keyword? "plan" = some plan)
      (hplan : Node.ofValue plan = .ok node) :
      GivesPlan given (some node)

/-- The entry that a map gives: its time, its plan, and what stands under the other known keys, if
anything does. -/
inductive Gives : Value → LogEntry → Prop
  | intro
      {given : Entries} {entry : LogEntry}
      (htime : GivesTime given entry.details.timestamp)
      (hplan : GivesPlan given entry.plan)
      (hcarried : ∀ field ∈ entry.details.carried, given.keyword? field.1 = field.2) :
      Gives (.map given) entry

/-- Why a value gives no entry.  A bad time counts whatever the plan is. -/
inductive Refused : Value → ParseError → Prop
  | noMap
      {value : Value}
      (h : ∀ given, value ≠ .map given) :
      Refused value ⟨.unparseable, value⟩
  | badTime
      {given : Entries}
      (h : ∀ timestamp, ¬ GivesTime given timestamp) :
      Refused (.map given) ⟨.invalidTimestamp, .map given⟩
  | badPlan
      {given : Entries} {timestamp : Option Instant} {plan : Value} {e : ParseError}
      (htime : GivesTime given timestamp)
      (hfound : given.keyword? "plan" = some plan)
      (hplan : Node.ofValue plan = .error e) :
      Refused (.map given) e

/-- A map whose time, if it gives one, is in the format and whose plan, if it gives one, is a
program. -/
def Fits (value : Value) : Prop :=
  ∃ given : Entries, value = .map given ∧
    (∀ time, given.keyword? "timestamp" = some time →
      ∃ text t, time = .string text ∧ Instant.DateTimeText t text.toList) ∧
    ∀ plan, given.keyword? "plan" = some plan → ∃ node, Node.ofValue plan = .ok node

end Meaning

section Parts

variable {given : Entries}

theorem exists_givesTime_iff :
    (∃ timestamp, GivesTime given timestamp) ↔
      ∀ time, given.keyword? "timestamp" = some time →
        ∃ text t, time = .string text ∧ Instant.DateTimeText t text.toList := by
  constructor
  · rintro ⟨_, habsent | ⟨hfound, htext⟩⟩ time htime
    · cases habsent.symm.trans htime
    · obtain rfl := Option.some.inj (hfound.symm.trans htime)
      exact ⟨_, _, rfl, htext⟩
  · intro h
    cases hfound : given.keyword? "timestamp" with
    | none => exact ⟨none, .absent hfound⟩
    | some time =>
        obtain ⟨text, t, rfl, htext⟩ := h time hfound
        exact ⟨some t, .present hfound htext⟩

theorem exists_givesPlan_iff :
    (∃ plan, GivesPlan given plan) ↔
      ∀ plan, given.keyword? "plan" = some plan → ∃ node, Node.ofValue plan = .ok node := by
  constructor
  · rintro ⟨_, habsent | ⟨hfound, hnode⟩⟩ plan hplan
    · cases habsent.symm.trans hplan
    · obtain rfl := Option.some.inj (hfound.symm.trans hplan)
      exact ⟨_, hnode⟩
  · intro h
    cases hfound : given.keyword? "plan" with
    | none => exact ⟨none, .absent hfound⟩
    | some plan =>
        obtain ⟨node, hnode⟩ := h plan hfound
        exact ⟨some node, .present hfound hnode⟩

theorem instant?_eq_some_iff
    {value : Value} {t : Instant} :
    instant? value = some t ↔
      ∃ text, value = .string text ∧ Instant.DateTimeText t text.toList := by
  constructor
  · intro h
    obtain ⟨text, hvalue, hread⟩ := Option.bind_eq_some_iff.1 h
    cases value with
    | string =>
        cases hvalue
        exact ⟨text, rfl, Instant.ofStrict?_eq_some_iff.1 hread⟩
    | _ => cases hvalue
  · rintro ⟨text, rfl, htext⟩
    exact Instant.ofStrict?_eq_some_iff.2 htext

theorem timestampOf_eq_ok
    {entries : Entries} {text : String} {t : Instant}
    (hfound : entries.keyword? "timestamp" = some (.string text))
    (hread : Instant.ofStrict? text.toList = some t) :
    timestampOf entries = .ok (some t) := by
  rw [timestampOf, hfound]
  simp only [instant?, Value.stringText?, Option.bind_some, hread]

theorem timestampOf_eq_ok_iff
    {timestamp : Option Instant} :
    timestampOf given = .ok timestamp ↔ GivesTime given timestamp := by
  constructor
  · intro h
    unfold timestampOf at h
    split at h
    · next habsent =>
      cases h
      exact .absent habsent
    · next hfound =>
      split at h
      · next hread =>
        cases h
        obtain ⟨text, rfl, htext⟩ := instant?_eq_some_iff.1 hread
        exact .present hfound htext
      · cases h
  · rintro (habsent | ⟨hfound, htext⟩)
    · rw [timestampOf, habsent]
    · exact timestampOf_eq_ok hfound (Instant.ofStrict?_eq_some_iff.2 htext)

/-- The details of an entry are its time and what the map gives under the keys of what is carried. -/
theorem detailsOf_eq_iff
    {timestamp : Option Instant} {details : EntryDetails} :
    detailsOf given timestamp = details ↔
      details.timestamp = timestamp ∧
        ∀ field ∈ details.carried, given.keyword? field.1 = field.2 := by
  simp only [EntryDetails.carried, List.forall_mem_cons, List.not_mem_nil, false_implies,
    implies_true, and_true]
  constructor
  · rintro rfl
    exact ⟨rfl, rfl, rfl, rfl, rfl, rfl, rfl, rfl, rfl⟩
  · rintro ⟨rfl, hstage, hagent, hstatus, hderived, hresult, herror, hexecuting, hexecuted⟩
    rw [detailsOf, hstage, hagent, hstatus, hderived, hresult, herror, hexecuting, hexecuted]

/-- A time is refused in one way only. -/
theorem timestampOf_eq_error_iff
    {e : ParseError} :
    timestampOf given = .error e ↔
      (∀ timestamp, ¬ GivesTime given timestamp) ∧ e = ⟨.invalidTimestamp, .map given⟩ := by
  have hreason : ∀ e, timestampOf given = .error e → e = ⟨.invalidTimestamp, .map given⟩ := by
    intro e h
    unfold timestampOf at h
    split at h
    · cases h
    · split at h <;> cases h
      rfl
  constructor
  · intro h
    refine ⟨fun timestamp htime => ?_, hreason e h⟩
    rw [timestampOf_eq_ok_iff.2 htime] at h
    cases h
  · rintro ⟨hnone, rfl⟩
    cases h : timestampOf given with
    | ok timestamp => exact absurd (timestampOf_eq_ok_iff.1 h) (hnone timestamp)
    | error e => rw [hreason e h]

theorem planOf_eq_ok_iff
    {plan : Option Node} :
    planOf given = .ok plan ↔ GivesPlan given plan := by
  constructor
  · intro h
    unfold planOf at h
    split at h
    · next habsent =>
      cases h
      exact .absent habsent
    · next value hfound =>
      cases hvalue : Node.ofValue value with
      | error e =>
          rw [hvalue] at h
          cases h
      | ok node =>
          rw [hvalue] at h
          cases h
          exact .present hfound hvalue
  · rintro (habsent | ⟨hfound, hplan⟩)
    · rw [planOf, habsent]
    · rw [planOf, hfound]
      simp only [hplan]
      rfl

/-- A plan is refused for the reason for which it is no program. -/
theorem planOf_eq_error_iff
    {e : ParseError} :
    planOf given = .error e ↔
      ∃ plan, given.keyword? "plan" = some plan ∧ Node.ofValue plan = .error e := by
  constructor
  · intro h
    unfold planOf at h
    split at h
    · cases h
    · next value hfound =>
      cases hvalue : Node.ofValue value with
      | error e' =>
          rw [hvalue] at h
          cases h
          exact ⟨value, hfound, hvalue⟩
      | ok node =>
          rw [hvalue] at h
          cases h
  · rintro ⟨plan, hfound, hplan⟩
    rw [planOf, hfound]
    simp only [hplan]
    rfl

end Parts

section OneEntry

variable {value : Value}

/-- A value is understood as a log entry if it is a map that gives the entry's time, plan and
remaining parts. -/
theorem ofValue_eq_ok_iff
    {entry : LogEntry} :
    ofValue value = .ok entry ↔
      ∃ entries, value = .map entries ∧
        timestampOf entries = .ok entry.details.timestamp ∧
          planOf entries = .ok entry.plan ∧
            detailsOf entries entry.details.timestamp = entry.details := by
  constructor
  · intro h
    cases value with
    | map entries =>
        obtain ⟨timestamp, htime, h⟩ := ok_of_bind_eq_ok h
        obtain ⟨plan, hplan, h⟩ := ok_of_bind_eq_ok h
        cases h
        exact ⟨entries, rfl, htime, hplan, rfl⟩
    | _ => cases h
  · rintro ⟨entries, rfl, htime, hplan, hdetails⟩
    rw [ofValue, htime, ok_bind_eq, hplan, ok_bind_eq, hdetails]
    rfl

theorem ofValue_eq_ok_iff_gives
    {entry : LogEntry} :
    ofValue value = .ok entry ↔ Gives value entry := by
  rw [ofValue_eq_ok_iff]
  constructor
  · rintro ⟨given, rfl, htime, hplan, hdetails⟩
    exact .intro (timestampOf_eq_ok_iff.1 htime) (planOf_eq_ok_iff.1 hplan)
      (detailsOf_eq_iff.1 hdetails).2
  · rintro ⟨htime, hplan, hcarried⟩
    exact ⟨_, rfl, timestampOf_eq_ok_iff.2 htime, planOf_eq_ok_iff.2 hplan,
      detailsOf_eq_iff.2 ⟨rfl, hcarried⟩⟩

theorem ofValue_eq_error_iff
    {e : ParseError} :
    ofValue value = .error e ↔ Refused value e := by
  constructor
  · intro h
    cases value with
    | map given =>
        rcases bind_eq_error_iff.1 h with h | ⟨timestamp, htime, h⟩
        · obtain ⟨hnone, rfl⟩ := timestampOf_eq_error_iff.1 h
          exact .badTime hnone
        · rcases bind_eq_error_iff.1 h with h | ⟨plan, -, h⟩
          · obtain ⟨plan, hfound, hplan⟩ := planOf_eq_error_iff.1 h
            exact .badPlan (timestampOf_eq_ok_iff.1 htime) hfound hplan
          · cases h
    | _ =>
        cases h
        exact .noMap nofun
  · intro h
    cases h with
    | noMap h =>
        cases value with
        | map given => exact absurd rfl (h given)
        | _ => rfl
    | badTime h =>
        rw [ofValue, timestampOf_eq_error_iff.2 ⟨h, rfl⟩]
        rfl
    | badPlan htime hfound hplan =>
        rw [ofValue, timestampOf_eq_ok_iff.2 htime, ok_bind_eq,
          planOf_eq_error_iff.2 ⟨_, hfound, hplan⟩]
        rfl

/-- The values that fit are those that are understood. -/
theorem exists_ofValue_iff :
    (∃ entry, ofValue value = .ok entry) ↔ Fits value := by
  simp only [ofValue_eq_ok_iff_gives]
  constructor
  · rintro ⟨_, ⟨htime, hplan, -⟩⟩
    exact ⟨_, rfl, exists_givesTime_iff.1 ⟨_, htime⟩, exists_givesPlan_iff.1 ⟨_, hplan⟩⟩
  · rintro ⟨given, rfl, htime, hplan⟩
    obtain ⟨timestamp, htime⟩ := exists_givesTime_iff.2 htime
    obtain ⟨plan, hplan⟩ := exists_givesPlan_iff.2 hplan
    obtain ⟨-, hcarried⟩ := detailsOf_eq_iff.1 (Eq.refl (detailsOf given timestamp))
    exact ⟨⟨_, plan⟩, .intro htime hplan hcarried⟩

end OneEntry

end LogEntry
end TaskTree
