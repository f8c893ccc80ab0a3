import TaskTree.Proofs.Except
import TaskTree.Source.InPlace

/-!
# Reading in place goes on and ends

Whatever is read at an index takes at least one byte, although the index goes back twice on the
way through a number: to the sign, if no digit follows it, and to the mark of a power of ten, if
no digits follow that.  So a number of steps in proportion to the bytes that are left is enough,
and no offset that is reported lies behind the end of the text.

None of this depends on the index lying between two characters.

**Results.**
* `InPlace.ends_extent?`: the index goes back no further than to where the number starts.
* `InPlace.ends_value`, `InPlace.ends_items`: reading a form, or the items of a collection.
* `InPlace.ends_readAll`, `InPlace.ends_read`: reading a text.
-/

namespace TaskTree
namespace InPlace

variable {source : String} {p : Char → Bool} {fuel i : Nat}

/-- Reading stops with a report about a place in the text, or because it would cut a character
apart, but never for want of steps. -/
inductive StopsWithin (source : String) : Stop → Prop
  | reported
      {notice : Notice}
      (h : notice.offset ≤ source.utf8ByteSize) :
      StopsWithin source (.reported notice)
  | misplaced : StopsWithin source .misplaced

/-- The second index lies behind the first one, and in the text. -/
def Behind (source : String) (i j : Nat) : Prop :=
  i < j ∧ j ≤ source.utf8ByteSize

/-- The second index does not lie before the first one, and it lies in the text. -/
def From (source : String) (i j : Nat) : Prop :=
  i ≤ j ∧ j ≤ source.utf8ByteSize

section Bytes

theorem peek?_eq_none_iff :
    peek? source i = none ↔ source.utf8ByteSize ≤ i := by
  rw [peek?, Option.map_eq_none_iff, getElem?_eq_none_iff, Nat.not_lt]
  rfl

theorem lt_of_peek?
    {c : Char}
    (h : peek? source i = some c) :
    i < source.utf8ByteSize := by
  by_contra hlt
  rw [peek?_eq_none_iff.2 (Nat.le_of_not_lt hlt)] at h
  cases h

theorem lt_of_looksAt
    (h : looksAt source p i = true) :
    i < source.utf8ByteSize := by
  obtain ⟨c, hc, -⟩ := (Option.any_eq_true p _).1 h
  exact lt_of_peek? hc

theorem advance_of_lt
    (h : i < source.utf8ByteSize) :
    advance source i = i + 1 :=
  if_pos h

theorem ends_report
    {α : Type} {P : α → Prop}
    (message : String)
    (hi : i ≤ source.utf8ByteSize) :
    Ends (StopsWithin source) P (report message i) :=
  .error (.reported hi)

end Bytes

section Separators

/-- The end of a line lies behind every byte of the line. -/
theorem ends_skipLine
    (hi : i ≤ source.utf8ByteSize)
    (hfuel : source.utf8ByteSize - i < fuel) :
    Ends (fun _ => False)
      (fun j => From source i j ∧ (i < source.utf8ByteSize → i < j))
      (skipLine source fuel i) := by
  induction fuel generalizing i with
  | zero => omega
  | succ fuel ih =>
      rw [skipLine]
      cases hc : peek? source i with
      | none =>
          have hend := peek?_eq_none_iff.1 hc
          exact .ok ⟨⟨Nat.le_refl i, hi⟩, fun h => by omega⟩
      | some c =>
          have hlt := lt_of_peek? hc
          simp only [advance_of_lt hlt]
          split
          · exact .ok ⟨⟨by omega, hlt⟩, fun _ => by omega⟩
          · exact (ih hlt (by omega)).imp (fun _ h => h)
              fun j ⟨⟨hij, hj⟩, _⟩ => ⟨⟨by omega, hj⟩, fun _ => by omega⟩

theorem ends_skip
    (hi : i ≤ source.utf8ByteSize)
    (hfuel : source.utf8ByteSize - i + 2 ≤ fuel) :
    Ends (fun _ => False) (From source i) (skip source fuel i) := by
  induction fuel generalizing i with
  | zero => omega
  | succ fuel ih =>
      rw [skip]
      cases hc : peek? source i with
      | none => exact .ok ⟨Nat.le_refl i, hi⟩
      | some c =>
          have hlt := lt_of_peek? hc
          dsimp only
          split
          · rw [advance_of_lt hlt]
            exact (ih hlt (by omega)).imp (fun _ h => h) fun j ⟨hij, hj⟩ => ⟨by omega, hj⟩
          · split
            · refine (ends_skipLine hi (by omega)).bind fun j ⟨⟨hij, hj⟩, hbehind⟩ => ?_
              have hnext := hbehind hlt
              exact (ih hj (by omega)).imp (fun _ h => h) fun k ⟨hjk, hk⟩ => ⟨by omega, hk⟩
            · exact .ok ⟨Nat.le_refl i, hi⟩

theorem ends_skipWhile
    (hi : i ≤ source.utf8ByteSize)
    (hfuel : source.utf8ByteSize - i < fuel) :
    Ends (fun _ => False) (fun j => From source i j ∧ (looksAt source p i = true → i < j))
      (skipWhile source p fuel i) := by
  induction fuel generalizing i with
  | zero => omega
  | succ fuel ih =>
      rw [skipWhile]
      split
      · next hlooks =>
        have hlt := lt_of_looksAt hlooks
        rw [advance_of_lt hlt]
        exact (ih hlt (by omega)).imp (fun _ h => h)
          fun j ⟨⟨hij, hj⟩, _⟩ => ⟨⟨by omega, hj⟩, fun _ => hij⟩
      · next hlooks => exact .ok ⟨⟨Nat.le_refl i, hi⟩, fun h => absurd h hlooks⟩

end Separators

section Atoms

/-- A piece between an index and itself is empty. -/
theorem eq_empty_of_piece?_self
    {text : String}
    (h : piece? source i i = some text) :
    text = "" := by
  unfold piece? at h
  split at h
  · cases h
    refine String.toByteArray_inj.1 ?_
    simp
  · cases h

theorem ends_cut
    {start stop : Nat} :
    Ends (StopsWithin source) (fun text => start = stop → text = "")
      (cut source start stop) := by
  unfold cut
  cases h : piece? source start stop with
  | none => exact .error .misplaced
  | some text =>
      refine .ok fun heq => ?_
      subst heq
      exact eq_empty_of_piece?_self h

theorem ends_takeRun
    (hi : i ≤ source.utf8ByteSize)
    (hfuel : source.utf8ByteSize - i < fuel) :
    Ends (StopsWithin source) (fun run => From source i run.2 ∧ (i = run.2 → run.1 = ""))
      (takeRun source fuel i) := by
  refine ((ends_skipWhile hi hfuel).imp (fun _ h => h.elim) fun _ h => h.1).bind
    fun stop hstop => ?_
  exact ends_cut.bind fun text htext => .ok ⟨hstop, htext⟩

theorem ends_keyword
    (hi : i < source.utf8ByteSize)
    (hfuel : source.utf8ByteSize - i < fuel) :
    Ends (StopsWithin source) (fun read => Behind source i read.2) (keyword source fuel i) := by
  rw [keyword, advance_of_lt hi]
  refine (ends_takeRun hi (by omega)).bind fun run ⟨⟨hrun, hstop⟩, _⟩ => ?_
  dsimp only
  split
  · exact ends_report _ hstop
  · exact .ok ⟨hrun, hstop⟩

theorem ends_word
    (hi : i ≤ source.utf8ByteSize)
    (hfuel : source.utf8ByteSize - i < fuel) :
    Ends (StopsWithin source) (fun read => Behind source i read.2) (word source fuel i) := by
  rw [word]
  refine (ends_takeRun hi hfuel).bind fun run ⟨⟨hrun, hstop⟩, hempty⟩ => ?_
  dsimp only
  split
  · exact ends_report _ hstop
  · next hname =>
    refine .ok ⟨Nat.lt_of_le_of_ne hrun fun heq => ?_, hstop⟩
    rw [hempty heq] at hname
    exact hname rfl

theorem from_skipSign
    (hi : i ≤ source.utf8ByteSize) :
    From source i (skipSign source i) := by
  unfold skipSign
  split
  · next hlooks =>
    have hlt := lt_of_looksAt hlooks
    rw [advance_of_lt hlt]
    exact ⟨by omega, hlt⟩
  · exact ⟨Nat.le_refl i, hi⟩

theorem ends_skipFraction
    (hi : i ≤ source.utf8ByteSize)
    (hfuel : source.utf8ByteSize - i < fuel) :
    Ends (fun _ => False) (fun fraction => From source i fraction.2)
      (skipFraction source fuel i) := by
  unfold skipFraction
  split
  · next hlooks =>
    have hlt := lt_of_looksAt (Bool.and_eq_true_iff.1 hlooks).1
    rw [advance_of_lt hlt]
    exact (ends_skipWhile hlt (by omega)).bind fun j ⟨⟨hij, hj⟩, _⟩ => .ok ⟨by omega, hj⟩
  · exact .ok ⟨Nat.le_refl i, hi⟩

theorem ends_skipPower
    (hi : i ≤ source.utf8ByteSize)
    (hfuel : source.utf8ByteSize - i < fuel) :
    Ends (fun _ => False) (fun power => From source i power.2) (skipPower source fuel i) := by
  unfold skipPower
  split
  · next hlooks =>
    have hlt := lt_of_looksAt hlooks
    obtain ⟨hsign, hend⟩ := @from_skipSign source (i + 1) hlt
    rw [advance_of_lt hlt]
    dsimp only
    split
    · exact (ends_skipWhile hend (by omega)).bind fun j ⟨⟨hij, hj⟩, _⟩ => .ok ⟨by omega, hj⟩
    · exact .ok ⟨Nat.le_refl i, hi⟩
  · exact .ok ⟨Nat.le_refl i, hi⟩

/-- The places of a numeral lie in order behind its start. -/
structure Extent.Within (source : String) (start : Nat) (extent : Extent) : Prop where
  mark : start < extent.mark
  stop : From source extent.mark extent.stop

/-- Where the index goes back, it does not go back to before the start of the number. -/
theorem ends_extent?
    (hi : i ≤ source.utf8ByteSize)
    (hfuel : source.utf8ByteSize - i < fuel) :
    Ends (fun _ => False) (fun found => ∀ extent ∈ found, extent.Within source i)
      (extent? source fuel i) := by
  obtain ⟨hsign, hend⟩ := from_skipSign hi
  unfold extent?
  dsimp only
  split
  · next hlooks =>
    refine (ends_skipWhile hend (by omega)).bind fun j ⟨⟨hij, hj⟩, hdigit⟩ => ?_
    have hlt := hdigit hlooks
    refine (ends_skipFraction hj (by omega)).bind fun fraction ⟨hmark, hfraction⟩ => ?_
    refine (ends_skipPower hfraction (by omega)).bind fun power hpower => ?_
    refine .ok fun extent hextent => ?_
    cases hextent
    exact ⟨Nat.lt_of_le_of_lt hsign (Nat.lt_of_lt_of_le hlt hmark), hpower⟩
  · exact .ok nofun

theorem ends_number
    (hi : i ≤ source.utf8ByteSize)
    (hfuel : source.utf8ByteSize - i < fuel) :
    Ends (StopsWithin source) (fun read => Behind source i read.2) (number source fuel i) := by
  rw [number]
  refine ((ends_extent? hi hfuel).imp (fun _ h => h.elim) fun _ h => h).bind fun found hfound => ?_
  cases found with
  | none => exact ends_word hi hfuel
  | some extent =>
      obtain ⟨hmark, hstop, hend⟩ := hfound extent rfl
      have hbehind : Behind source i extent.stop := ⟨by omega, hend⟩
      dsimp only
      split
      · exact ends_report _ hend
      · refine ends_cut.bind fun text _ => ?_
        split
        · split
          · exact .ok hbehind
          · exact ends_report _ hend
        · split
          · exact .ok hbehind
          · exact ends_report _ hend

end Atoms

section Strings

theorem ends_collect
    {bytes : ByteArray}
    (hi : i ≤ source.utf8ByteSize)
    (hfuel : source.utf8ByteSize - i < fuel) :
    Ends (StopsWithin source) (fun read => Behind source i read.2)
      (collect source fuel i bytes) := by
  induction fuel generalizing i bytes with
  | zero => omega
  | succ fuel ih =>
      rw [collect]
      cases hc : peek? source i with
      | none => exact ends_report _ hi
      | some c =>
          have hlt := lt_of_peek? hc
          simp only [advance_of_lt hlt]
          split
          · exact .ok ⟨by omega, hlt⟩
          · split
            · cases hletter : peek? source (i + 1) with
              | none => exact ends_report _ hlt
              | some letter =>
                  have hnext := lt_of_peek? hletter
                  simp only [advance_of_lt hnext]
                  split
                  · exact (ih hnext (by omega)).imp (fun _ h => h)
                      fun read ⟨hij, hj⟩ => ⟨by omega, hj⟩
                  · exact ends_report _ hnext
            · exact (ih hlt (by omega)).imp (fun _ h => h) fun read ⟨hij, hj⟩ => ⟨by omega, hj⟩

theorem ends_string
    (hi : i < source.utf8ByteSize)
    (hfuel : source.utf8ByteSize - i < fuel) :
    Ends (StopsWithin source) (fun read => Behind source i read.2) (string source fuel i) := by
  rw [string, advance_of_lt hi]
  refine (ends_collect hi (by omega)).bind fun read ⟨hij, hj⟩ => ?_
  dsimp only
  split
  · exact .ok ⟨by omega, hj⟩
  · exact ends_report _ hj

end Strings

section Forms

theorem ends_enclosed
    {bracket : Bracket} {items : List Value}
    (hi : i ≤ source.utf8ByteSize) :
    Ends (StopsWithin source) (fun _ => True) (enclosed bracket items i) := by
  unfold enclosed
  split
  · exact .ok trivial
  · exact .ok trivial
  · split
    · exact .ok trivial
    · exact ends_report _ hi

theorem ends_atom
    {c : Char}
    (hi : i < source.utf8ByteSize)
    (hfuel : source.utf8ByteSize - i < fuel) :
    Ends (StopsWithin source) (fun read => Behind source i read.2) (atom source fuel i c) := by
  unfold atom
  split
  · exact ends_string hi hfuel
  · split
    · exact ends_keyword hi hfuel
    · split
      · exact ends_number (Nat.le_of_lt hi) hfuel
      · exact ends_word (Nat.le_of_lt hi) hfuel

theorem ends_skip_within
    (hi : i ≤ source.utf8ByteSize)
    (hfuel : source.utf8ByteSize - i + 2 ≤ fuel) :
    Ends (StopsWithin source) (From source i) (skip source fuel i) :=
  (ends_skip hi hfuel).imp (fun _ h => h.elim) fun _ h => h

mutual

/-- A form takes at least one byte, and twice as many steps as there are bytes left are enough for
it, with a few more. -/
theorem ends_value :
    ∀ {fuel i : Nat}, i ≤ source.utf8ByteSize → 2 * (source.utf8ByteSize - i) + 3 ≤ fuel →
      Ends (StopsWithin source) (fun read => Behind source i read.2) (value source fuel i)
  | 0, _, _, hfuel => by omega
  | fuel + 1, i, hi, hfuel => by
      rw [value]
      refine (ends_skip_within hi (by omega)).bind fun j ⟨hij, hj⟩ => ?_
      cases hc : peek? source j with
      | none => exact ends_report _ hj
      | some c =>
          have hlt := lt_of_peek? hc
          dsimp only
          split
          · rw [advance_of_lt hlt]
            refine (ends_items hlt (by omega)).bind fun read ⟨hstart, hstop⟩ => ?_
            exact (ends_enclosed hj).bind fun value _ => .ok ⟨by omega, hstop⟩
          · split
            · exact ends_report _ hj
            · exact (ends_atom hlt (by omega)).imp (fun _ h => h)
                fun read ⟨hstart, hstop⟩ => ⟨by omega, hstop⟩

/-- The items of a collection take at least the byte of its closing bracket. -/
theorem ends_items :
    ∀ {bracket : Bracket} {before : List Value} {fuel i : Nat}, i ≤ source.utf8ByteSize →
      2 * (source.utf8ByteSize - i) + 4 ≤ fuel →
      Ends (StopsWithin source) (fun read => Behind source i read.2)
        (items source bracket fuel i before)
  | _, _, 0, _, _, hfuel => by omega
  | bracket, before, fuel + 1, i, hi, hfuel => by
      rw [items]
      refine (ends_skip_within hi (by omega)).bind fun j ⟨hij, hj⟩ => ?_
      cases hc : peek? source j with
      | none => exact ends_report _ hj
      | some c =>
          have hlt := lt_of_peek? hc
          dsimp only
          split
          · rw [advance_of_lt hlt]
            exact .ok ⟨by omega, hlt⟩
          · refine (ends_value hj (by omega)).bind fun item ⟨hstart, hstop⟩ => ?_
            exact (ends_items hstop (by omega)).imp (fun _ h => h)
              fun read ⟨hnext, hend⟩ => ⟨by omega, hend⟩

end

theorem ends_forms
    {before : List Value}
    (hi : i ≤ source.utf8ByteSize)
    (hfuel : 2 * (source.utf8ByteSize - i) + 4 ≤ fuel) :
    Ends (StopsWithin source) (fun _ => True) (forms source fuel i before) := by
  induction fuel generalizing i before with
  | zero => omega
  | succ fuel ih =>
      rw [forms]
      refine (ends_skip_within hi (by omega)).bind fun j ⟨hij, hj⟩ => ?_
      split
      · exact .ok trivial
      · exact (ends_value hj (by omega)).bind fun form ⟨hstart, hstop⟩ => ih hstop (by omega)

end Forms

section Texts

variable (source : String)

theorem ends_readAll :
    Ends (StopsWithin source) (fun _ => True) (readAll source) :=
  ends_forms (Nat.zero_le _) (by rw [allowance]; omega)

theorem ends_first :
    Ends (StopsWithin source) (fun found => found.2 ≤ source.utf8ByteSize) (first source) := by
  unfold first
  refine (ends_skip_within (Nat.zero_le _) (by rw [allowance]; omega)).bind fun i ⟨_, hi⟩ => ?_
  split
  · exact .ok hi
  · refine (ends_value hi (by rw [allowance]; omega)).bind fun form ⟨_, hstop⟩ => ?_
    exact (ends_skip_within hstop (by rw [allowance]; omega)).bind fun j ⟨_, hj⟩ => .ok hj

theorem ends_read :
    Ends (StopsWithin source) (fun _ => True) (read source) := by
  refine (ends_first source).bind fun found hfound => ?_
  rcases found with ⟨_ | form, i⟩
  · exact ends_report _ hfound
  · dsimp only
    split
    · exact ends_report _ hfound
    · exact .ok trivial

end Texts

end InPlace
end TaskTree
