import TaskTree.Value.Equality

/-!
# The parts of a value

The parts of a collection are its items, or its keys and values.  A property
holds everywhere in a value when it holds of the value itself and everywhere in
its parts, so at every depth.

**Results.**
* `Value.induction_parts`: induction over values by their parts.
* `Value.everywhere_iff`: one step of a property that holds everywhere.
* `Entries.forall_mem_ofList`: what is stored in a map was put there.
* `Entries.Distinct.ofList_eq`: entries without equal keys are stored as they stand.
-/

namespace TaskTree

namespace Value

/-- The items of a list or vector, the keys and values of a map. -/
def parts : Value → List Value
  | .list items => items
  | .vector items => items
  | .map entries => entries.flatMap fun e => [e.1, e.2]
  | _ => []

/-- The parts of a map are its keys and its values. -/
theorem forall_mem_parts_map
    {p : Value → Prop} {entries : Entries} :
    (∀ part ∈ parts (.map entries), p part) ↔ ∀ e ∈ entries, p e.1 ∧ p e.2 := by
  simp only [parts, List.forall_mem_flatMap, List.forall_mem_cons, List.not_mem_nil, false_implies,
    implies_true, and_true]

theorem sizeOf_lt_of_mem_parts
    {value part : Value}
    (h : part ∈ value.parts) :
    sizeOf part < sizeOf value := by
  cases value with
  | list items =>
      have hitem : sizeOf part < sizeOf items := List.sizeOf_lt_of_mem h
      simp
      omega
  | vector items =>
      have hitem : sizeOf part < sizeOf items := List.sizeOf_lt_of_mem h
      simp
      omega
  | map entries =>
      obtain ⟨⟨key, value⟩, he, hpart⟩ := List.mem_flatMap.1 h
      have hentry : sizeOf (key, value) < sizeOf entries := List.sizeOf_lt_of_mem he
      have hpart : part = key ∨ part = value := by simpa using hpart
      rcases hpart with rfl | rfl
      · simp at hentry ⊢
        omega
      · simp at hentry ⊢
        omega
  | _ => cases h

/-- Whatever holds of a value as soon as it holds of its parts holds of every value. -/
@[elab_as_elim]
theorem induction_parts
    {P : Value → Prop}
    (step : ∀ value, (∀ part ∈ value.parts, P part) → P value)
    (value : Value) :
    P value :=
  (measure sizeOf).wf.induction value fun v ih =>
    step v fun part hpart => ih part (sizeOf_lt_of_mem_parts hpart)

/-- The property holds of a value and of what stands in it at every depth. -/
inductive Everywhere (p : Value → Prop) : Value → Prop
  | intro
      {value : Value}
      (here : p value)
      (parts : ∀ part ∈ value.parts, Everywhere p part) :
      Everywhere p value

section Everywhere

variable {p q : Value → Prop}

theorem everywhere_iff
    {value : Value} :
    value.Everywhere p ↔ p value ∧ ∀ part ∈ value.parts, part.Everywhere p :=
  ⟨fun ⟨here, parts⟩ => ⟨here, parts⟩, fun ⟨here, parts⟩ => ⟨here, parts⟩⟩

theorem everywhere_list
    {items : List Value} :
    Everywhere p (.list items) ↔ p (.list items) ∧ ∀ item ∈ items, item.Everywhere p :=
  everywhere_iff

theorem everywhere_vector
    {items : List Value} :
    Everywhere p (.vector items) ↔ p (.vector items) ∧ ∀ item ∈ items, item.Everywhere p :=
  everywhere_iff

theorem everywhere_map
    {entries : Entries} :
    Everywhere p (.map entries) ↔
      p (.map entries) ∧ ∀ e ∈ entries, e.1.Everywhere p ∧ e.2.Everywhere p := by
  exact everywhere_iff.trans (and_congr_right fun _ => forall_mem_parts_map)

/-- A value without parts has a property everywhere as soon as it has it. -/
theorem Everywhere.of_parts_eq_nil
    {value : Value}
    (here : p value)
    (hparts : value.parts = []) :
    value.Everywhere p :=
  ⟨here, by simp [hparts]⟩

theorem Everywhere.imp
    {value : Value}
    (h : value.Everywhere p)
    (himp : ∀ v, p v → q v) :
    value.Everywhere q := by
  induction h with
  | intro here _ ih => exact ⟨himp _ here, ih⟩

/-- What holds everywhere in a value holds everywhere in whatever stands in it. -/
theorem Everywhere.everywhere
    {value : Value}
    (h : value.Everywhere p) :
    value.Everywhere fun v => v.Everywhere p := by
  induction h with
  | intro here parts ih => exact ⟨⟨here, parts⟩, ih⟩

theorem everywhere_and
    {value : Value} :
    value.Everywhere (fun v => p v ∧ q v) ↔ value.Everywhere p ∧ value.Everywhere q := by
  constructor
  · intro h
    exact ⟨h.imp fun _ hv => hv.1, h.imp fun _ hv => hv.2⟩
  · rintro ⟨hp, hq⟩
    induction hp with
    | intro here _ ih =>
        rcases hq with ⟨here', parts'⟩
        exact ⟨⟨here, here'⟩, fun part hpart => ih part hpart (parts' part hpart)⟩

end Everywhere

end Value

namespace Entries

/-- The keys of a map, in order. -/
def keys (entries : Entries) : List Value :=
  entries.map Prod.fst

/-- No key equals one that stands after it. -/
def Distinct (entries : Entries) : Prop :=
  entries.keys.Pairwise fun earlier later => (earlier == later) = false

theorem insert_eq_append
    {entries : Entries} {key value : Value}
    (h : ∀ key' ∈ keys entries, (key' == key) = false) :
    entries.insert key value = entries ++ [(key, value)] := by
  induction entries with
  | nil => rfl
  | cons entry entries ih =>
      have hhead : (entry.1 == key) = false := h entry.1 List.mem_cons_self
      have htail := ih fun key' hkey => h key' (List.mem_cons_of_mem _ hkey)
      simp [insert, hhead, htail]

theorem keys_insert_of_mem
    {entries : Entries} {key value key' : Value}
    (hmem : key' ∈ entries.keys)
    (hequal : (key' == key) = true) :
    (entries.insert key value).keys = entries.keys := by
  induction entries with
  | nil => cases hmem
  | cons entry entries ih =>
      by_cases hhead : (entry.1 == key) = true
      · simp [insert, hhead, keys]
      · have hmem : key' ∈ keys entries := by
          rcases List.mem_cons.1 hmem with rfl | hmem
          · exact absurd hequal hhead
          · exact hmem
        have htail := ih hmem
        simp only [keys] at htail
        simp [insert, hhead, keys, htail]

theorem Distinct.insert
    {entries : Entries}
    (h : entries.Distinct)
    (key value : Value) :
    (entries.insert key value).Distinct := by
  by_cases hmem : ∃ key' ∈ entries.keys, (key' == key) = true
  · rcases hmem with ⟨key', hmem, hequal⟩
    rw [Distinct, keys_insert_of_mem hmem hequal]
    exact h
  · have hnew : ∀ key' ∈ entries.keys, (key' == key) = false := by
      simpa using hmem
    rw [insert_eq_append hnew, Distinct, keys, List.map_append]
    exact List.pairwise_append.2 ⟨h, by simp, by simpa [keys] using hnew⟩

/-- What is put into a map one after the other leaves no two equal keys. -/
theorem distinct_ofList
    (entries : List (Value × Value)) :
    (ofList entries).Distinct :=
  List.foldlRecOn entries _ List.Pairwise.nil fun _ h e _ => h.insert e.1 e.2

/-- Entries without equal keys are stored as they stand. -/
theorem Distinct.ofList_eq
    {entries : List (Value × Value)}
    (h : Distinct entries) :
    ofList entries = entries := by
  have hfold : ∀ stored : Entries, Distinct (stored ++ entries) →
      entries.foldl (fun stored e => stored.insert e.1 e.2) stored = stored ++ entries := by
    clear h
    induction entries with
    | nil => simp
    | cons e entries ih =>
        intro stored h
        have hnew : ∀ key ∈ stored.keys, (key == e.1) = false := by
          intro key hkey
          rw [Distinct, keys, List.map_append, List.pairwise_append] at h
          exact h.2.2 key hkey e.1 (by simp)
        have hstep := ih (stored ++ [e]) (by simpa using h)
        simpa [insert_eq_append hnew] using hstep
  exact hfold [] h

theorem mem_insert
    {entries : Entries} {key value : Value} {e : Value × Value}
    (h : e ∈ entries.insert key value) :
    (e.1 = key ∨ ∃ v, (e.1, v) ∈ entries) ∧ (e.2 = value ∨ ∃ k, (k, e.2) ∈ entries) := by
  induction entries with
  | nil =>
      obtain rfl := List.mem_singleton.1 h
      exact ⟨.inl rfl, .inl rfl⟩
  | cons entry entries ih =>
      rcases entry with ⟨key', value'⟩
      simp only [insert] at h
      split at h
      · rcases List.mem_cons.1 h with rfl | he
        · exact ⟨.inr ⟨value', List.mem_cons_self⟩, .inl rfl⟩
        · exact ⟨.inr ⟨e.2, List.mem_cons_of_mem _ he⟩, .inr ⟨e.1, List.mem_cons_of_mem _ he⟩⟩
      · rcases List.mem_cons.1 h with rfl | he
        · exact ⟨.inr ⟨value', List.mem_cons_self⟩, .inr ⟨key', List.mem_cons_self⟩⟩
        · obtain ⟨hkey, hvalue⟩ := ih he
          refine ⟨hkey.imp_right ?_, hvalue.imp_right ?_⟩
          · exact fun ⟨v, hv⟩ => ⟨v, List.mem_cons_of_mem _ hv⟩
          · exact fun ⟨k, hk⟩ => ⟨k, List.mem_cons_of_mem _ hk⟩

/-- A property of all keys and values that are put into a map holds in the map. -/
theorem forall_mem_ofList
    {p : Value → Prop} {entries : List (Value × Value)}
    (h : ∀ e ∈ entries, p e.1 ∧ p e.2) :
    ∀ e ∈ ofList entries, p e.1 ∧ p e.2 := by
  refine List.foldlRecOn (motive := fun stored : Entries => ∀ e ∈ stored, p e.1 ∧ p e.2) entries _
    (List.forall_mem_nil _) fun stored hstored entry hentry e he => ?_
  obtain ⟨hkey, hvalue⟩ := h entry hentry
  obtain ⟨hfst, hsnd⟩ := mem_insert he
  constructor
  · rcases hfst with hfst | ⟨v, hv⟩
    · exact hfst ▸ hkey
    · exact (hstored _ hv).1
  · rcases hsnd with hsnd | ⟨k, hk⟩
    · exact hsnd ▸ hvalue
    · exact (hstored _ hk).2

end Entries

end TaskTree
