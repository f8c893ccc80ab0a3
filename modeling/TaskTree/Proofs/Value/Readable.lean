import TaskTree.Proofs.Source.Forms

/-!
# Readable values

A value is readable when its names are spelled as what they are, its numbers are
finite and its maps have no equal keys.  Readable values are read from their own
text.

**Results.**
* `Value.read_written`: a readable value is read back from its text.
-/

namespace TaskTree

namespace Value

/-- At every depth, names are spelled as what they are, numbers are finite and keys distinct. -/
def Readable (value : Value) : Prop :=
  value.Everywhere fun v => v.Spelled ∧ v.FiniteNumber ∧ v.DistinctKeys

/-- A readable value is read back from its text. -/
theorem read_written
    {value : Value}
    (h : value.Readable) :
    read value.written = .ok value := by
  obtain ⟨hspelled, hunchanged⟩ := everywhere_and.1 h
  rw [read_written_of_spelled hspelled, respelled_eq hunchanged]

/-- A symbol that looks like a sign, a negative zero, an escaped text and a map with two keys. -/
theorem read_written_of_nested :
    Readable
        (.list
          [.symbol "-", .float (Float.ofBits 0x8000000000000000), .string "\"\n",
            .map [(.keyword ":k", .vector []), (.integer (-1), .nil)]]) ∧
      read
          (written
            (.list
              [.symbol "-", .float (Float.ofBits 0x8000000000000000), .string "\"\n",
                .map [(.keyword ":k", .vector []), (.integer (-1), .nil)]])) =
        .ok
          (.list
            [.symbol "-", .float (Float.ofBits 0x8000000000000000), .string "\"\n",
              .map [(.keyword ":k", .vector []), (.integer (-1), .nil)]]) := by
  refine ⟨?readable, read_written ?readable⟩
  have hname : IsSymbolName "-" :=
    ⟨by decide, by decide, by decide, by simp +contextual [startsWithDigit], by decide⟩
  have hkeys : Entries.Distinct [(.keyword ":k", .vector []), (.integer (-1), .nil)] := by
    simp [Entries.Distinct, Entries.keys, BEq.beq, equals]
  refine everywhere_list.2 ⟨⟨trivial, trivial, trivial⟩, ?_⟩
  simp only [List.forall_mem_cons, List.not_mem_nil, false_imp_iff, implies_true, and_true]
  refine ⟨.of_parts_eq_nil ⟨hname, trivial, trivial⟩ rfl,
    .of_parts_eq_nil ⟨trivial, rfl, trivial⟩ rfl,
    .of_parts_eq_nil ⟨trivial, trivial, trivial⟩ rfl,
    everywhere_map.2 ⟨⟨trivial, trivial, hkeys⟩, ?_⟩⟩
  simp only [List.forall_mem_cons, List.not_mem_nil, false_imp_iff, implies_true, and_true]
  have hkey : IsRun ":k".toList := by decide
  exact ⟨⟨.of_parts_eq_nil ⟨hkey, trivial, trivial⟩ rfl,
      .of_parts_eq_nil ⟨trivial, trivial, trivial⟩ rfl⟩,
    .of_parts_eq_nil ⟨trivial, trivial, trivial⟩ rfl,
    .of_parts_eq_nil ⟨trivial, trivial, trivial⟩ rfl⟩

end Value

end TaskTree
