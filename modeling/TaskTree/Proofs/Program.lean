import TaskTree.Program
import TaskTree.Proofs.Except

/-!
# The programs of a text

A text has programs when all of its forms can be read and every one of them is
understood.  Otherwise reading it fails, or the first form that is not understood does.

**Results.**
* `Node.ofValues_eq_mapM`: values are understood one after the other.
* `Node.parse_eq_error_iff`, `Node.parseAll_eq_ok_iff`, `Node.parseAll_eq_error_iff`: what becomes
  of a text.
-/

namespace TaskTree
namespace Node

/-- Values are understood one after the other. -/
theorem ofValues_eq_mapM
    (values : List Value) :
    ofValues values = values.mapM ofValue := by
  induction values with
  | nil => rfl
  | cons value values ih => rw [ofValues, List.mapM_cons, ih]

/-- Values are refused as the first of them that is. -/
theorem ofValues_eq_error_iff
    {values : List Value} {e : ParseError} :
    ofValues values = .error e ↔
      ∃ before value after, values = before ++ value :: after ∧
        (∀ v ∈ before, ∃ node, ofValue v = .ok node) ∧ ofValue value = .error e := by
  rw [ofValues_eq_mapM, mapM_eq_error_iff]

/-- Values are understood if every one of them is. -/
theorem exists_ofValues_iff
    {values : List Value} :
    (∃ nodes, ofValues values = .ok nodes) ↔
      ∀ value ∈ values, ∃ node, ofValue value = .ok node := by
  rw [ofValues_eq_mapM, exists_mapM_iff]

theorem ofValues_append
    {values values' : List Value} {nodes nodes' : List Node}
    (h : ofValues values = .ok nodes)
    (h' : ofValues values' = .ok nodes') :
    ofValues (values ++ values') = .ok (nodes ++ nodes') := by
  rw [ofValues_eq_mapM] at h h'
  rw [ofValues_eq_mapM, List.mapM_append, h, h']
  rfl

variable {source : String}

theorem parse_eq_ok_iff_ofValue
    {node : Node} :
    parse source = .ok node ↔
      ∃ value, Value.read source = .ok value ∧ ofValue value = .ok node := by
  constructor
  · intro h
    obtain ⟨value, hread, h⟩ := ok_of_bind_eq_ok h
    exact ⟨value, mapError_eq_ok_iff.1 hread, mapError_eq_ok_iff.1 h⟩
  · rintro ⟨value, hread, h⟩
    rw [parse, mapError_eq_ok_iff.2 hread, ok_bind_eq]
    exact mapError_eq_ok_iff.2 h

theorem parse_eq_error_iff
    {error : Error} :
    parse source = .error error ↔
      (∃ e, Value.read source = .error e ∧ .read source e = error) ∨
        ∃ value e, Value.read source = .ok value ∧ ofValue value = .error e ∧
          .parse source e = error := by
  rw [parse, bind_eq_error_iff, mapError_eq_error_iff]
  refine or_congr_right ⟨?_, ?_⟩
  · rintro ⟨value, hread, h⟩
    obtain ⟨e, he, rfl⟩ := mapError_eq_error_iff.1 h
    exact ⟨value, e, mapError_eq_ok_iff.1 hread, he, rfl⟩
  · rintro ⟨value, e, hread, he, rfl⟩
    exact ⟨value, mapError_eq_ok_iff.2 hread, mapError_eq_error_iff.2 ⟨e, he, rfl⟩⟩

theorem parseAll_eq_ok_iff
    {nodes : List Node} :
    parseAll source = .ok nodes ↔
      ∃ values, Value.readAll source = .ok values ∧ ofValues values = .ok nodes := by
  constructor
  · intro h
    obtain ⟨values, hread, h⟩ := ok_of_bind_eq_ok h
    exact ⟨values, mapError_eq_ok_iff.1 hread, mapError_eq_ok_iff.1 h⟩
  · rintro ⟨values, hread, h⟩
    rw [parseAll, mapError_eq_ok_iff.2 hread, ok_bind_eq]
    exact mapError_eq_ok_iff.2 h

theorem parseAll_eq_error_iff
    {error : Error} :
    parseAll source = .error error ↔
      (∃ e, Value.readAll source = .error e ∧ .read source e = error) ∨
        ∃ values e, Value.readAll source = .ok values ∧ ofValues values = .error e ∧
          .parse source e = error := by
  rw [parseAll, bind_eq_error_iff, mapError_eq_error_iff]
  refine or_congr_right ⟨?_, ?_⟩
  · rintro ⟨values, hread, h⟩
    obtain ⟨e, he, rfl⟩ := mapError_eq_error_iff.1 h
    exact ⟨values, e, mapError_eq_ok_iff.1 hread, he, rfl⟩
  · rintro ⟨values, e, hread, he, rfl⟩
    exact ⟨values, mapError_eq_ok_iff.2 hread, mapError_eq_error_iff.2 ⟨e, he, rfl⟩⟩

end Node
end TaskTree
