import TaskTree.Proofs.InPlace.Progress
import TaskTree.Proofs.Source.Places

/-!
# Bytes and characters

A character below 128 is one byte, its own number; the bytes of every other character are 128 or
more.  So a byte below 128 is always a character of its own, and whoever looks for one of those
characters can look at bytes.  `Left source i pending s` says what stands in a text from an index
on: first the bytes of a character that has been cut apart, and then the characters of `s`.
Where nothing is pending, the index lies between two characters.

**Results.**
* `InPlace.Left.next`, `InPlace.At.low`, `InPlace.At.high`: what is left behind a byte.
* `InPlace.isValid_iff`: the indices between two characters.
* `InPlace.cut_run`: what is cut out between two such indices.
-/

namespace TaskTree

section Characters

variable {c : Char} {b : UInt8}

theorem toNat_ofUInt8
    (b : UInt8) :
    (Char.ofUInt8 b).toNat = b.toNat :=
  UInt8.toNat_toUInt32 b

theorem toUInt8_ofUInt8
    (b : UInt8) :
    (Char.ofUInt8 b).toUInt8 = b :=
  UInt8.toUInt8_toUInt32 b

/-- A character below 128 is one byte. -/
theorem utf8EncodeChar_low
    (h : c.toNat < 128) :
    String.utf8EncodeChar c = [c.toUInt8] :=
  String.utf8EncodeChar_eq_singleton
    (Char.utf8Size_eq_one_iff.2 (UInt32.le_iff_toNat_le.2 (Nat.le_of_lt_succ h)))

theorem high_ofNat
    {n : Nat}
    (hlow : 128 ≤ n)
    (hhigh : n < 256) :
    128 ≤ (UInt8.ofNat n).toNat := by
  rw [UInt8.toNat_ofNat', Nat.mod_eq_of_lt hhigh]
  exact hlow

/-- All bytes of any other character are 128 or more. -/
theorem high_of_mem_utf8EncodeChar
    (h : 128 ≤ c.toNat)
    (hb : b ∈ String.utf8EncodeChar c) :
    128 ≤ b.toNat := by
  have hlow : ¬ c.val.toNat ≤ 127 := Nat.not_le.2 h
  unfold String.utf8EncodeChar at hb
  simp only [if_neg hlow] at hb
  split at hb
  · simp only [List.mem_cons, List.not_mem_nil, or_false] at hb
    rcases hb with rfl | rfl <;> exact high_ofNat (by omega) (by omega)
  · split at hb
    · simp only [List.mem_cons, List.not_mem_nil, or_false] at hb
      rcases hb with rfl | rfl | rfl <;> exact high_ofNat (by omega) (by omega)
    · simp only [List.mem_cons, List.not_mem_nil, or_false] at hb
      rcases hb with rfl | rfl | rfl | rfl <;> exact high_ofNat (by omega) (by omega)

theorem leadingByte_eq
    {bytes : List UInt8}
    (h : String.utf8EncodeChar c = b :: bytes) :
    leadingByte c = Char.ofUInt8 b := by
  unfold leadingByte
  rw [h]
  dsimp only
  rw [← toNat_ofUInt8, Char.ofNat_toNat]

theorem leadingByte_low
    (h : c.toNat < 128) :
    leadingByte c = c := by
  rw [leadingByte_eq (utf8EncodeChar_low h), ← Char.toNat_inj, toNat_ofUInt8]
  exact Nat.mod_eq_of_lt (by have : c.toNat = c.val.toNat := rfl; omega)

theorem leadingByte_high
    (h : 128 ≤ c.toNat) :
    128 ≤ (leadingByte c).toNat := by
  obtain ⟨b, bytes, hbytes⟩ := List.exists_cons_of_ne_nil (@String.utf8EncodeChar_ne_nil c)
  rw [leadingByte_eq hbytes, toNat_ofUInt8]
  exact high_of_mem_utf8EncodeChar h (by rw [hbytes]; exact List.mem_cons_self)

theorem Text.length_flatMap_utf8EncodeChar
    (s : List Char) :
    (s.flatMap String.utf8EncodeChar).length = byteLength s := by
  induction s with
  | nil => rfl
  | cons c s ih =>
      rw [List.flatMap_cons, List.length_append, String.length_utf8EncodeChar, ih, byteLength_cons]

theorem toList_toByteArray
    (source : String) :
    source.toByteArray.data.toList = source.toList.flatMap String.utf8EncodeChar := by
  rw [← String.utf8Encode_toList, List.utf8Encode, List.toList_data_toByteArray]

end Characters

namespace InPlace

/-- What is left of a text at an index: the pending bytes of a character that began before it, and
some characters. -/
structure Left (source : String) (i : Nat) (pending : List UInt8) (s : List Char) : Prop where
  bytes : ∃ before : List UInt8, before.length = i ∧
    source.toByteArray.data.toList = before ++ (pending ++ s.flatMap String.utf8EncodeChar)
  high : ∀ b ∈ pending, 128 ≤ b.toNat
  suffix : s <:+ source.toList

/-- The characters that are left of a text at an index between two characters. -/
abbrev At (source : String) (i : Nat) (s : List Char) : Prop :=
  Left source i [] s

section Places

variable {source : String} {i j : Nat} {b : UInt8} {pending : List UInt8} {c : Char}
variable {s run rest : List Char}

theorem at_zero
    (source : String) :
    At source 0 source.toList :=
  ⟨⟨[], rfl, toList_toByteArray source⟩, List.forall_mem_nil _, List.suffix_rfl⟩

theorem at_end
    (source : String) :
    At source source.utf8ByteSize [] :=
  ⟨⟨source.toByteArray.data.toList, rfl, (List.append_nil _).symm⟩, List.forall_mem_nil _,
    List.nil_suffix⟩

theorem Left.drop
    (h : Left source i pending s) :
    source.toByteArray.data.toList.drop i = pending ++ s.flatMap String.utf8EncodeChar := by
  obtain ⟨before, rfl, hbytes⟩ := h.bytes
  rw [hbytes, List.drop_left]

theorem Left.index
    (h : Left source i pending s) :
    i + (pending.length + Text.byteLength s) = source.utf8ByteSize := by
  obtain ⟨before, rfl, hbytes⟩ := h.bytes
  have hlength := congrArg List.length hbytes
  rw [List.length_append, List.length_append, Text.length_flatMap_utf8EncodeChar] at hlength
  exact hlength.symm

theorem At.index
    (h : At source i s) :
    i + Text.byteLength s = source.utf8ByteSize := by
  simpa using Left.index h

theorem Left.peek?_eq
    (h : Left source i pending s) :
    peek? source i = (pending ++ s.flatMap String.utf8EncodeChar).head?.map Char.ofUInt8 := by
  obtain ⟨before, rfl, hbytes⟩ := h.bytes
  have hbyte : source.toByteArray[before.length]? = source.toByteArray.data[before.length]? := rfl
  rw [peek?, hbyte, ← Array.getElem?_toList, hbytes,
    List.getElem?_append_right (Nat.le_refl _), Nat.sub_self, List.head?_eq_getElem?]

/-- A pending byte is passed over. -/
theorem Left.next
    (h : Left source i (b :: pending) s) :
    peek? source i = some (Char.ofUInt8 b) ∧ 128 ≤ (Char.ofUInt8 b).toNat ∧
      Left source (advance source i) pending s := by
  have hpeek : peek? source i = some (Char.ofUInt8 b) := h.peek?_eq
  obtain ⟨hb, hpending⟩ := List.forall_mem_cons.1 h.high
  obtain ⟨before, rfl, hbytes⟩ := h.bytes
  refine ⟨hpeek, by rwa [toNat_ofUInt8], ⟨before ++ [b], ?_, ?_⟩, hpending, h.suffix⟩
  · rw [advance_of_lt (lt_of_peek? hpeek), List.length_append]
    rfl
  · rw [hbytes]
    simp only [List.append_assoc, List.cons_append, List.nil_append]

theorem At.peek?_nil
    (h : At source i []) :
    peek? source i = none :=
  h.peek?_eq

/-- The byte at an index between two characters is the first byte of the second one. -/
theorem At.peek?_cons
    (h : At source i (c :: s)) :
    peek? source i = some (leadingByte c) := by
  obtain ⟨b, bytes, hbytes⟩ := List.exists_cons_of_ne_nil (@String.utf8EncodeChar_ne_nil c)
  rw [h.peek?_eq, List.nil_append, List.flatMap_cons, hbytes, leadingByte_eq hbytes]
  rfl

/-- A character below 128 is passed over with its byte. -/
theorem At.low
    (h : At source i (c :: s))
    (hc : c.toNat < 128) :
    At source (advance source i) s := by
  have hlt := lt_of_peek? h.peek?_cons
  obtain ⟨before, rfl, hbytes⟩ := h.bytes
  rw [List.nil_append, List.flatMap_cons, utf8EncodeChar_low hc] at hbytes
  refine ⟨⟨before ++ [c.toUInt8], ?_, ?_⟩, List.forall_mem_nil _,
    (List.suffix_cons c s).trans h.suffix⟩
  · rw [advance_of_lt hlt, List.length_append]
    rfl
  · rw [hbytes, List.append_assoc]
    rfl

/-- The bytes of any other character are passed over one by one. -/
theorem At.high
    (h : At source i (c :: s))
    (hc : 128 ≤ c.toNat) :
    Left source i (String.utf8EncodeChar c) s := by
  obtain ⟨before, rfl, hbytes⟩ := h.bytes
  exact ⟨⟨before, rfl, hbytes⟩, fun _ => high_of_mem_utf8EncodeChar hc,
    (List.suffix_cons c s).trans h.suffix⟩

/-- What stands between two indices. -/
theorem extract_run
    (hi : At source i (run ++ rest))
    (hj : At source j rest) :
    source.toByteArray.extract i j = run.utf8Encode := by
  have hlength : j - i = (run.flatMap String.utf8EncodeChar).length := by
    have hstart := hi.index
    have hstop := hj.index
    rw [Text.byteLength_append] at hstart
    rw [Text.length_flatMap_utf8EncodeChar]
    omega
  refine ByteArray.ext (Array.toList_inj.1 ?_)
  rw [ByteArray.data_extract, Array.toList_extract, List.extract_eq_take_drop, hi.drop, hlength,
    List.nil_append, List.flatMap_append, List.take_left, List.utf8Encode,
    List.toList_data_toByteArray]

/-- An index lies between two characters if some characters are left there. -/
theorem isValid_iff :
    String.Pos.Raw.IsValid source ⟨i⟩ ↔ ∃ s, At source i s := by
  constructor
  · intro h
    have hle : i ≤ source.utf8ByteSize := h.le_rawEndPos
    obtain ⟨before, hbefore⟩ := h.isValidUTF8_extract_zero
    obtain ⟨s, hs⟩ := h.isValidUTF8_extract_utf8ByteSize
    have hbytes : source.toByteArray = (before ++ s).utf8Encode := by
      rw [List.utf8Encode_append, ← hbefore, ← hs, ByteArray.extract_append_extract,
        Nat.zero_min, Nat.max_eq_right hle]
      exact ByteArray.extract_zero_size.symm
    have hsource : source.toList = before ++ s := by
      rw [← String.toByteArray_ofList, String.toByteArray_inj] at hbytes
      rw [hbytes, String.toList_ofList]
    have hlength : (before.flatMap String.utf8EncodeChar).length = i := by
      have hsize := congrArg ByteArray.size hbefore
      rw [ByteArray.size_extract, Nat.sub_zero, List.utf8Encode, List.size_toByteArray] at hsize
      rw [← hsize]
      exact Nat.min_eq_left hle
    refine ⟨s, ⟨_, hlength, ?_⟩, List.forall_mem_nil _, ⟨before, hsource.symm⟩⟩
    rw [toList_toByteArray, hsource, List.flatMap_append]
    rfl
  · rintro ⟨s, h⟩
    have hindex := h.index
    refine String.Pos.Raw.isValid_iff_isValidUTF8_extract_utf8ByteSize.2 ⟨?_, s, ?_⟩
    · exact (show i ≤ source.utf8ByteSize by omega)
    · exact extract_run (by rwa [List.append_nil]) (at_end source)

theorem At.isValid
    (h : At source i s) :
    String.Pos.Raw.IsValid source ⟨i⟩ :=
  isValid_iff.2 ⟨s, h⟩

/-- Between two characters, the characters in between are cut out. -/
theorem cut_run
    (hi : At source i (run ++ rest))
    (hj : At source j rest) :
    cut source i j = .ok (String.ofList run) := by
  have hle : i ≤ j := by
    have hstart := hi.index
    have hstop := hj.index
    rw [Text.byteLength_append] at hstart
    omega
  rw [cut, piece?, dif_pos ⟨hle, hi.isValid, hj.isValid⟩]
  refine congrArg Except.ok (String.toByteArray_inj.1 ?_)
  rw [String.toByteArray_ofList]
  exact extract_run hi hj

end Places

end InPlace
end TaskTree
