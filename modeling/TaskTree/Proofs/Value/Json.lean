import TaskTree.Proofs.Json.Decoding
import TaskTree.Proofs.Json.Reading
import TaskTree.Proofs.Source.Reading

/-!
# Values read back from JSON

The tree of a value is one that has a text, and the value is found in it again
if there is room for all its levels.  Floating-point numbers are the exception:
one that is not finite becomes `null`, and reading a number rounds more than
once, so that each number has to come back by itself.

**Results.**
* `Value.standard_toJson`: the tree of a value has a text.
* `Value.ofJson?_toJson`: a value is found in its tree.
-/

namespace TaskTree

theorem Json.Standard.ofVariant
    {payload : Json}
    (tag : String)
    (h : payload.Standard) :
    (Json.ofVariant tag payload).Standard := by
  refine .object ?_
  simp [h, Json.Standard.string]

namespace Value

/-- What is written for a finite number is read as this number again, although reading rounds more
than once. -/
def NumberComesBack : Value → Prop
  | .float x => x.isFinite = true → (Numeral.ofFloat Json.numbers x).stepwise? = some x
  | _ => True

/-- JSON can carry the value: every floating-point number in it is finite and comes back. -/
def Portable (value : Value) : Prop :=
  value.Everywhere fun v => v.FiniteNumber ∧ v.NumberComesBack

theorem itemsToJson_eq_map
    (items : List Value) :
    itemsToJson items = items.map toJson := by
  induction items with
  | nil => rfl
  | cons item items ih => rw [itemsToJson, ih, List.map_cons]

theorem entriesToJson_eq_map
    (entries : List (Value × Value)) :
    entriesToJson entries = entries.map fun e => .array [e.1.toJson, e.2.toJson] := by
  induction entries with
  | nil => rfl
  | cons e entries ih => rw [entriesToJson, ih, List.map_cons]

/-- A finite number is written as a number. -/
theorem ofFloat_of_isFinite
    {x : Float}
    (h : x.isFinite = true) :
    Json.ofFloat x = .number (Numeral.ofFloat Json.numbers x) := by
  obtain ⟨hnan, hinf⟩ := isFinite_iff.1 h
  rw [Json.ofFloat, hnan, hinf]
  rfl

theorem standard_ofFloat
    (x : Float) :
    (Json.ofFloat x).Standard := by
  unfold Json.ofFloat
  split
  · exact .null
  · exact .number (Numeral.standard_ofFloat _ x)

/-- The tree of a value has a text. -/
theorem standard_toJson
    (value : Value) :
    value.toJson.Standard := by
  induction value using induction_parts with
  | step value ih =>
      cases value with
      | nil => exact .object (by simp [Json.Standard.string])
      | boolean flag => exact Json.Standard.ofVariant _ (.bool flag)
      | integer n => exact Json.Standard.ofVariant _ (.number (Numeral.standard_ofInt _))
      | float x => exact Json.Standard.ofVariant _ (standard_ofFloat x)
      | string text => exact Json.Standard.ofVariant _ (.string text)
      | symbol name => exact Json.Standard.ofVariant _ (.string name)
      | keyword name => exact Json.Standard.ofVariant _ (.string name)
      | list items =>
          refine Json.Standard.ofVariant _ (.array ?_)
          rw [itemsToJson_eq_map]
          exact List.forall_mem_map.2 ih
      | vector items =>
          refine Json.Standard.ofVariant _ (.array ?_)
          rw [itemsToJson_eq_map]
          exact List.forall_mem_map.2 ih
      | map entries =>
          refine Json.Standard.ofVariant _ (.array ?_)
          rw [entriesToJson_eq_map]
          refine List.forall_mem_map.2 fun e he => .array ?_
          obtain ⟨hkey, hvalue⟩ := forall_mem_parts_map.1 ih e he
          simp [hkey, hvalue]

/-- A tree has one level at least. -/
theorem one_le_depth_toJson
    (value : Value) :
    1 ≤ value.toJson.depth := by
  cases value <;> simp [toJson, Json.ofVariant, Json.depth]

/-- A key and its value are found one level further in. -/
theorem within_entryOfJson?
    {room : Nat} {held : Bool} {e : Value × Value}
    (hdepth : Json.depth (.array [e.1.toJson, e.2.toJson]) ≤ room - 1)
    (hkey : e.1.toJson.depth ≤ room - 2 → ofJson? (room - 2) held e.1.toJson = some e.1)
    (hvalue : e.2.toJson.depth ≤ room - 2 → ofJson? (room - 2) held e.2.toJson = some e.2) :
    Json.within (room - 1) (entryOfJson? (ofJson? (room - 2) held))
        (.array [e.1.toJson, e.2.toJson])
      = some e := by
  obtain ⟨hroom, hparts⟩ := Json.depth_array_le_iff.1 hdepth
  have htwo : room - 1 - 1 = room - 2 := by omega
  rw [htwo] at hparts
  rw [Json.within_eq hroom, entryOfJson?, hkey (hparts _ (by simp)), hvalue (hparts _ (by simp))]
  rfl

/-- A value is found in its tree, if there is room for the tree. -/
theorem ofJson?_toJson
    {value : Value} {room : Nat}
    (h : value.Portable)
    (hdepth : value.toJson.depth ≤ room)
    (held : Bool) :
    ofJson? room held value.toJson = some value := by
  induction h generalizing room with
  | @intro value here parts ih =>
      have hpos := value.one_le_depth_toJson
      obtain ⟨room, rfl⟩ : ∃ r, room = r + 1 := ⟨room - 1, by omega⟩
      cases value with
      | float x =>
          obtain ⟨hfinite, hback⟩ := here
          rw [toJson, ofFloat_of_isFinite hfinite, ofJson?]
          exact congrArg (Option.map float) (hback hfinite)
      | integer n =>
          rw [toJson, ofJson?]
          exact congrArg (Option.map integer) (Json.integer?_ofInt n)
      | list items =>
          rw [toJson, itemsToJson_eq_map] at hdepth ⊢
          rw [Json.depth_ofVariant, Nat.add_le_add_iff_right] at hdepth
          rw [ofJson?]
          exact congrArg (Option.map list)
            (Json.within_items?_map hdepth fun item hitem => ih item hitem)
      | vector items =>
          rw [toJson, itemsToJson_eq_map] at hdepth ⊢
          rw [Json.depth_ofVariant, Nat.add_le_add_iff_right] at hdepth
          rw [ofJson?]
          exact congrArg (Option.map vector)
            (Json.within_items?_map hdepth fun item hitem => ih item hitem)
      | map entries =>
          rw [toJson, entriesToJson_eq_map] at hdepth ⊢
          rw [Json.depth_ofVariant, Nat.add_le_add_iff_right] at hdepth
          rw [ofJson?]
          refine congrArg (Option.map map) (Json.within_items?_map hdepth fun e he hentry => ?_)
          obtain ⟨hkey, hvalue⟩ := forall_mem_parts_map.1 ih e he
          exact within_entryOfJson? hentry hkey hvalue
      | _ =>
          rw [toJson, ofJson?]
          rfl

/-- One half is written as `0.5`. -/
theorem ofFloat_half :
    Numeral.ofFloat Json.numbers (Float.ofBits 0x3FE0000000000000)
      = ⟨false, ['0'], ['5'], none⟩ := by
  have hbits : (Float.ofBits 0x3FE0000000000000).toBits = 0x3FE0000000000000 := by decide
  have hsearch : Binary.searchGrids .toEven (Binary.ofBits 0x3FE0000000000000) 18
      ((Binary.ofBits 0x3FE0000000000000).magnitude - 1) = some (5, -1) := by decide
  have hshortest : Binary.shortest .toEven (Binary.ofBits 0x3FE0000000000000) = (5, -1) := by
    rw [Binary.shortest, hsearch, Option.getD_some, Binary.stripZeros, if_neg (by decide)]
  rw [Numeral.ofFloat, hbits]
  dsimp only [Json.numbers]
  rw [hshortest]
  rfl

/-- One half comes back. -/
theorem portable_half :
    Portable (.float (Float.ofBits 0x3FE0000000000000)) := by
  refine .of_parts_eq_nil ⟨show Float.isFinite _ = true by decide, fun _ => ?_⟩ rfl
  rw [ofFloat_half, Numeral.stepwise?]
  simp only [Numeral.absorb]
  rw [Numeral.rescale?]
  rfl

end Value
end TaskTree
