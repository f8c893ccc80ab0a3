import TaskTree.Proofs.Value.Equality
import TaskTree.Proofs.Value.Json

/-!
# Values that come from a JSON text

Reading numbers from JSON gives some number always, but a map is taken as its
entries are written, with every key as often as it stands there.  With a repeated
key a map need not even equal itself.  `Value.refilled` puts the entries of every map
in again, one after the other; the maps without equal keys are those that this does
not change, and for them equality is an equivalence again.

**Results.**
* `Value.someNumber_of_ofJson?`: no number that comes from JSON is none.
* `Value.refilled_eq_iff`: which values are not changed by filling their maps again.
* `Value.decoded_laws`: the laws of equality for what comes from two texts.
-/

namespace TaskTree

namespace Json

variable {α : Type} {decode : Json → Option α}

theorem of_within
    {room : Nat} {json : Json} {a : α}
    (h : within room decode json = some a) :
    decode json = some a := by
  rw [within] at h
  split at h
  · exact h
  · cases h

/-- Every item of a decoded list was decoded. -/
theorem exists_of_items?
    {json : Json} {as : List α}
    (h : items? decode json = some as) :
    ∀ a ∈ as, ∃ item, decode item = some a := by
  cases json with
  | array items =>
      rw [items?] at h
      induction items generalizing as with
      | nil =>
          rw [List.mapM_nil] at h
          cases h
          simp
      | cons item items ih =>
          rw [List.mapM_cons] at h
          obtain ⟨a, ha, h⟩ := Option.bind_eq_some_iff.1 h
          obtain ⟨rest, hrest, h⟩ := Option.bind_eq_some_iff.1 h
          cases h
          exact List.forall_mem_cons.2 ⟨⟨item, ha⟩, ih hrest⟩
  | _ => cases h

end Json

namespace Value

section Numbers

theorem exists_of_entryOfJson?
    {decode : Json → Option Value} {json : Json} {e : Value × Value}
    (h : entryOfJson? decode json = some e) :
    ∃ key value, decode key = some e.1 ∧ decode value = some e.2 := by
  unfold entryOfJson? at h
  split at h
  · next key value =>
    obtain ⟨k, hkey, h⟩ := Option.bind_eq_some_iff.1 h
    obtain ⟨v, hvalue, h⟩ := Option.bind_eq_some_iff.1 h
    cases h
    exact ⟨key, value, hkey, hvalue⟩
  · cases h

/-- Numbers that come from JSON are some number. -/
theorem someNumber_of_ofJson?
    {room : Nat} {held : Bool} {json : Json} {value : Value}
    (h : ofJson? room held json = some value) :
    value.Everywhere SomeNumber := by
  induction room using Nat.strong_induction_on generalizing held json value with
  | _ room ih =>
      cases room with
      | zero =>
          rw [ofJson?] at h
          cases h
      | succ room =>
          rw [ofJson?] at h
          obtain ⟨variant, hvariant, h⟩ := Option.bind_eq_some_iff.1 h
          dsimp only at h
          split at h
          -- whole numbers, numbers, lists, vectors and maps; what is left has no parts
          case h_4 =>
            obtain ⟨n, -, rfl⟩ := Option.map_eq_some_iff.1 h
            exact .of_parts_eq_nil trivial rfl
          case h_5 =>
            obtain ⟨x, hx, rfl⟩ := Option.map_eq_some_iff.1 h
            exact .of_parts_eq_nil (Numeral.isNaN_of_stepwise? hx) rfl
          case h_9 =>
            obtain ⟨items, hitems, rfl⟩ := Option.map_eq_some_iff.1 h
            refine everywhere_list.2 ⟨trivial, fun item hitem => ?_⟩
            obtain ⟨json, hjson⟩ := Json.exists_of_items? (Json.of_within hitems) item hitem
            exact ih (room - 1) (by omega) hjson
          case h_10 =>
            obtain ⟨items, hitems, rfl⟩ := Option.map_eq_some_iff.1 h
            refine everywhere_vector.2 ⟨trivial, fun item hitem => ?_⟩
            obtain ⟨json, hjson⟩ := Json.exists_of_items? (Json.of_within hitems) item hitem
            exact ih (room - 1) (by omega) hjson
          case h_11 =>
            obtain ⟨entries, hentries, rfl⟩ := Option.map_eq_some_iff.1 h
            refine everywhere_map.2 ⟨trivial, fun e he => ?_⟩
            obtain ⟨json, hjson⟩ := Json.exists_of_items? (Json.of_within hentries) e he
            obtain ⟨key, value, hkey, hvalue⟩ := exists_of_entryOfJson? (Json.of_within hjson)
            exact ⟨ih (room - 2) (by omega) hkey, ih (room - 2) (by omega) hvalue⟩
          case h_12 => cases h
          all_goals
            cases h
            exact .of_parts_eq_nil trivial rfl

end Numbers

section Refilled

mutual

/-- The value with the entries of every map in it put in again, one after the other. -/
def refilled : Value → Value
  | .list items => .list (refilledItems items)
  | .vector items => .vector (refilledItems items)
  | .map entries => .map (Entries.ofList (refilledEntries entries))
  | value => value

/-- Every item, refilled. -/
def refilledItems : List Value → List Value
  | [] => []
  | item :: items => item.refilled :: refilledItems items

/-- Every key and every value, refilled. -/
def refilledEntries : List (Value × Value) → List (Value × Value)
  | [] => []
  | (key, value) :: entries => (key.refilled, value.refilled) :: refilledEntries entries

end

theorem refilledItems_eq_map
    (items : List Value) :
    refilledItems items = items.map refilled := by
  induction items with
  | nil => rfl
  | cons item items ih => rw [refilledItems, ih, List.map_cons]

theorem refilledEntries_eq_map
    (entries : List (Value × Value)) :
    refilledEntries entries = entries.map fun e => (e.1.refilled, e.2.refilled) := by
  induction entries with
  | nil => rfl
  | cons e entries ih => rw [refilledEntries, ih, List.map_cons]

/-- A refilled value has distinct keys everywhere, and no other numbers than before. -/
theorem regular_refilled
    {value : Value}
    (h : value.Everywhere SomeNumber) :
    value.refilled.Regular := by
  induction h with
  | @intro value here parts ih =>
      cases value with
      | list items =>
          rw [refilled, refilledItems_eq_map, regular_list]
          exact List.forall_mem_map.2 ih
      | vector items =>
          rw [refilled, refilledItems_eq_map, regular_vector]
          exact List.forall_mem_map.2 ih
      | map entries =>
          rw [refilled, refilledEntries_eq_map, regular_map]
          refine ⟨Entries.distinct_ofList _, Entries.forall_mem_ofList ?_⟩
          exact List.forall_mem_map.2 (forall_mem_parts_map.1 ih)
      | _ => exact regular_of_parts_eq_nil here rfl

/-- Values with distinct keys are not changed. -/
theorem refilled_eq
    {value : Value}
    (h : value.Everywhere DistinctKeys) :
    value.refilled = value := by
  induction h with
  | @intro value here parts ih =>
      cases value with
      | list items =>
          rw [refilled, refilledItems_eq_map]
          exact congrArg list ((List.map_congr_left ih).trans (List.map_id' items))
      | vector items =>
          rw [refilled, refilledItems_eq_map]
          exact congrArg vector ((List.map_congr_left ih).trans (List.map_id' items))
      | map entries =>
          have hentries : entries.map (fun e => (e.1.refilled, e.2.refilled)) = entries := by
            refine (List.map_congr_left fun e he => ?_).trans (List.map_id' entries)
            obtain ⟨hkey, hvalue⟩ := forall_mem_parts_map.1 ih e he
            rw [hkey, hvalue]
          rw [refilled, refilledEntries_eq_map, hentries, Entries.Distinct.ofList_eq here]
      | _ => rfl

/-- Exactly the values with distinct keys are not changed. -/
theorem refilled_eq_iff
    {value : Value}
    (h : value.Everywhere SomeNumber) :
    value.refilled = value ↔ value.Everywhere DistinctKeys := by
  constructor
  · intro heq
    exact heq ▸ (everywhere_and.1 (regular_refilled h)).2
  · exact refilled_eq

end Refilled

section Texts

/-- The value that a JSON text holds. -/
def ofJsonText? (text : String) : Option Value :=
  (Json.parse text).toOption.bind decode?

/-- A value is read back from its JSON text, with the entries of its maps as they stand. -/
theorem ofJsonText?_written
    {value : Value}
    (h : value.Portable)
    (hdepth : value.toJson.depth < 128)
    (pretty : Bool) :
    ofJsonText? (value.toJson.written pretty) = some value := by
  have hread : decode? value.toJson = some value :=
    ofJson?_toJson h (Nat.le_of_lt_succ hdepth) false
  rw [ofJsonText?, Json.parse_written value.standard_toJson, Except.toOption, Option.bind_some,
    hread]

theorem someNumber_of_ofJsonText?
    {text : String} {value : Value}
    (h : ofJsonText? text = some value) :
    value.Everywhere SomeNumber := by
  obtain ⟨json, -, hdecode⟩ := Option.bind_eq_some_iff.1 h
  exact someNumber_of_ofJson? hdecode

/-- Of two values that come from JSON texts: one has distinct keys everywhere exactly when filling
its maps again does not change it; with distinct keys a value equals itself, and the first equals
the second exactly when the second equals the first; and so it is in any case once their maps are
filled again. -/
theorem decoded_laws
    {text text' : String} {a b : Value}
    (ha : ofJsonText? text = some a)
    (hb : ofJsonText? text' = some b) :
    (a.Everywhere DistinctKeys ↔ a.refilled = a) ∧
      (a.Everywhere DistinctKeys → (a == a) = true) ∧
        (a.Everywhere DistinctKeys → b.Everywhere DistinctKeys →
          ((a == b) = true ↔ (b == a) = true)) ∧
          ((a.refilled == a.refilled) = true ∧
            ((a.refilled == b.refilled) = true ↔ (b.refilled == a.refilled) = true)) := by
  have hnumber := someNumber_of_ofJsonText? ha
  have hnumber' := someNumber_of_ofJsonText? hb
  have hsymm : ∀ {v w : Value}, v.Regular → w.Regular → ((v == w) = true ↔ (w == v) = true) :=
    fun hv hw => ⟨equivalenceOn_regular.symm hv hw, equivalenceOn_regular.symm hw hv⟩
  refine ⟨(refilled_eq_iff hnumber).symm, fun hdistinct => ?_, fun hdistinct hdistinct' => ?_,
    equivalenceOn_regular.refl (regular_refilled hnumber),
    hsymm (regular_refilled hnumber) (regular_refilled hnumber')⟩
  · exact equivalenceOn_regular.refl (everywhere_and.2 ⟨hnumber, hdistinct⟩)
  · exact hsymm (everywhere_and.2 ⟨hnumber, hdistinct⟩) (everywhere_and.2 ⟨hnumber', hdistinct'⟩)

/-- A map with two values under one key. -/
def repeatedKey : Value :=
  .map [(.keyword "k", .integer 1), (.keyword "k", .integer 2)]

/-- The map comes from a text, and does not equal itself until it is filled again. -/
theorem decoded_laws_of_repeatedKey :
    ofJsonText? (repeatedKey.toJson.written false) = some repeatedKey ∧
      (repeatedKey == repeatedKey) = false ∧
        (repeatedKey.refilled == repeatedKey.refilled) = true := by
  have hportable : repeatedKey.Portable := by
    have hatom : ∀ v : Value, v.parts = [] → v.FiniteNumber ∧ v.NumberComesBack → v.Portable :=
      fun _ hparts here => .of_parts_eq_nil here hparts
    refine everywhere_map.2 ⟨⟨trivial, trivial⟩, ?_⟩
    simp only [List.forall_mem_cons, List.not_mem_nil, false_implies, implies_true, and_true]
    exact ⟨⟨hatom _ rfl ⟨trivial, trivial⟩, hatom _ rfl ⟨trivial, trivial⟩⟩,
      hatom _ rfl ⟨trivial, trivial⟩, hatom _ rfl ⟨trivial, trivial⟩⟩
  have hdecoded := ofJsonText?_written hportable (by decide) false
  refine ⟨hdecoded, ?_, (decoded_laws hdecoded hdecoded).2.2.2.1⟩
  simp [repeatedKey, BEq.beq, equals, storedIn, finds]

end Texts

end Value

end TaskTree
