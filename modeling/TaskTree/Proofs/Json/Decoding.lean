import TaskTree.Value.Json
import TaskTree.Proofs.Decimal.Numeral

/-!
# Taking apart what was put together

The levels of a tree are counted, and each decoder finds in its own kind of tree
what was put there: the tag and payload of a variant, the items of a list, the
part of a record that may be missing.

**Results.**
* `Json.depth_array_le_iff`, `Json.depth_object_le_iff`: the levels of a tree and of its parts.
* `Json.items?_map`, `Json.optional?_ofOption`: what each decoder finds.
-/

namespace TaskTree
namespace Json

mutual

/-- The number of levels of lists and objects. -/
def depth : Json → Nat
  | .array items => itemsDepth items + 1
  | .object fields => fieldsDepth fields + 1
  | _ => 0

/-- The number of levels of the deepest item. -/
def itemsDepth : List Json → Nat
  | [] => 0
  | item :: items => max item.depth (itemsDepth items)

/-- The number of levels of the deepest field. -/
def fieldsDepth : List (String × Json) → Nat
  | [] => 0
  | (_, value) :: fields => max value.depth (fieldsDepth fields)

end

section Depth

variable {room : Nat} {items : List Json} {fields : List (String × Json)}

theorem itemsDepth_le_iff :
    itemsDepth items ≤ room ↔ ∀ item ∈ items, item.depth ≤ room := by
  induction items with
  | nil => simp [itemsDepth]
  | cons item items ih => rw [itemsDepth, Nat.max_le, ih, List.forall_mem_cons]

theorem fieldsDepth_le_iff :
    fieldsDepth fields ≤ room ↔ ∀ f ∈ fields, f.2.depth ≤ room := by
  induction fields with
  | nil => simp [fieldsDepth]
  | cons f fields ih => rw [fieldsDepth, Nat.max_le, ih, List.forall_mem_cons]

/-- A list needs one level more than its items. -/
theorem depth_array_le_iff :
    depth (.array items) ≤ room ↔ 1 ≤ room ∧ ∀ item ∈ items, item.depth ≤ room - 1 := by
  rw [depth, ← itemsDepth_le_iff]
  omega

/-- An object needs one level more than its fields. -/
theorem depth_object_le_iff :
    depth (.object fields) ≤ room ↔ 1 ≤ room ∧ ∀ f ∈ fields, f.2.depth ≤ room - 1 := by
  rw [depth, ← fieldsDepth_le_iff]
  omega

theorem depth_object_le_succ_iff :
    depth (.object fields) ≤ room + 1 ↔ ∀ f ∈ fields, f.2.depth ≤ room := by
  simp [depth_object_le_iff]

/-- A variant needs one level more than its payload. -/
theorem depth_ofVariant
    (tag : String) (payload : Json) :
    (ofVariant tag payload).depth = payload.depth + 1 := by
  simp [ofVariant, depth, fieldsDepth]

end Depth

section Decoders

variable {α : Type} {encode : α → Json} {decode : Json → Option α}

theorem within_eq
    {room : Nat}
    (h : 1 ≤ room)
    (decode : Json → Option α) (json : Json) :
    within room decode json = decode json := by
  rw [within, if_pos h]

/-- Items that are decoded one by one are decoded together. -/
theorem items?_map
    {as : List α}
    (h : ∀ a ∈ as, decode (encode a) = some a) :
    items? decode (.array (as.map encode)) = some as := by
  rw [items?]
  induction as with
  | nil => rfl
  | cons a as ih =>
      have hrest := ih fun a' ha' => h a' (List.mem_cons_of_mem _ ha')
      simp [h a List.mem_cons_self, hrest]

/-- Each item has to be found within the levels that the list leaves. -/
theorem items?_map_of_depth
    {room : Nat} {as : List α}
    (hdepth : depth (.array (as.map encode)) ≤ room)
    (h : ∀ a ∈ as, (encode a).depth ≤ room - 1 → decode (encode a) = some a) :
    items? decode (.array (as.map encode)) = some as := by
  obtain ⟨-, hitems⟩ := depth_array_le_iff.1 hdepth
  exact items?_map fun a ha => h a ha (hitems (encode a) (List.mem_map_of_mem ha))

theorem within_items?_map
    {room : Nat} {as : List α}
    (hdepth : depth (.array (as.map encode)) ≤ room)
    (h : ∀ a ∈ as, (encode a).depth ≤ room - 1 → decode (encode a) = some a) :
    within room (items? decode) (.array (as.map encode)) = some as := by
  rw [within_eq (depth_array_le_iff.1 hdepth).1]
  exact items?_map_of_depth hdepth h

/-- A part that may be missing is told from `null` as long as no part is `null` itself. -/
theorem optional?_ofOption
    {part : Option α}
    (hnull : ∀ a, encode a ≠ .null)
    (h : ∀ a, part = some a → decode (encode a) = some a) :
    optional? decode (some (ofOption encode part)) = some part := by
  cases part with
  | none => rfl
  | some a =>
      rw [ofOption, optional?.eq_def]
      split
      · next heq => cases heq
      · next heq => exact absurd (Option.some.inj heq) (hnull a)
      · next heq =>
        cases heq
        rw [h a rfl]
        rfl

/-- An integer of 64 bits is found in its own number. -/
theorem integer?_ofInt
    (n : Int64) :
    integer? (Numeral.ofInt n.toInt) = some n := by
  have hvalue : int64? n.toInt = some n := int64?_eq_some_iff.2 rfl
  have hsign : ¬ ((Numeral.ofInt n.toInt).negative = true ∧ n.toInt = 0) := by
    simp only [Numeral.ofInt, decide_eq_true_eq]
    omega
  rw [integer?, Numeral.wholeValue_ofInt, if_pos ⟨rfl, hsign⟩, hvalue]

end Decoders

end Json
end TaskTree
