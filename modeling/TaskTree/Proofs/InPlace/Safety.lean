import TaskTree.Proofs.InPlace.OneForm
import TaskTree.Proofs.Source.Faults

/-!
# Reading in place is safe

Between two characters, reading in place cuts no character apart and meets no fault that only a
mistake of the reader could bring about.  Together with the progress that is made at every index,
this says how every single step of the reader ends.

**Results.**
* `InPlace.reading_ends`: every repetition of the reader ends, within the text.
* `InPlace.reading_safe`: all pieces are cut out between characters, and no internal fault is
  reported.
-/

namespace TaskTree
namespace InPlace

open Progress

variable {source : String} {fuel i : Nat} {s : List Char} {c : Char}

/-- A text without forms is one of separators and comments. -/
theorem readAll_eq_nil_iff :
    Value.readAll source = .ok [] ↔ Splits source.toList [] := by
  rw [Value.readAll_eq_ok_iff_derives]
  constructor
  · rintro ⟨ts, hsplits, hderives⟩
    cases hderives
    exact hsplits
  · exact fun hsplits => ⟨[], hsplits, .nil⟩

section Ending

/-- From an index on, every part of the reader ends within the given steps, and within the text:
what is read takes at least one byte, and a number is never left before its start. -/
structure EndsFrom (source : String) (i fuel : Nat) : Prop where
  skip : ∃ j, skip source fuel i = .ok j ∧ From source i j
  extent : ∃ found, extent? source fuel i = .ok found ∧ ∀ extent ∈ found, extent.Within source i
  number : Ends (StopsWithin source) (fun found => Behind source i found.2) (number source fuel i)
  collect (bytes : ByteArray) :
    Ends (StopsWithin source) (fun found => Behind source i found.2) (collect source fuel i bytes)
  value : Ends (StopsWithin source) (fun found => Behind source i found.2) (value source fuel i)
  items (bracket : Bracket) (before : List Value) :
    Ends (StopsWithin source) (fun found => Behind source i found.2)
      (items source bracket fuel i before)
  forms (before : List Value) :
    Ends (StopsWithin source) (fun _ => True) (forms source fuel i before)

theorem endsFrom
    (hi : i ≤ source.utf8ByteSize)
    (hfuel : 2 * (source.utf8ByteSize - i) + 4 ≤ fuel) :
    EndsFrom source i fuel where
  skip := (ends_skip hi (by omega)).exists_ok
  extent := (ends_extent? hi (by omega)).exists_ok
  number := ends_number hi (by omega)
  collect _ := ends_collect hi (by omega)
  value := ends_value hi (by omega)
  items _ _ := ends_items hi hfuel
  forms _ := ends_forms hi hfuel

/-- The offset of an error lies in the text. -/
theorem offset_le
    {α : Type} {read : Except Stop α} {found : Except ReadError α} {e : ReadError}
    (hends : Ends (StopsWithin source) (fun _ => True) read)
    (heq : read = found.mapError fun e => .reported e.notice)
    (h : found = .error e) :
    e.offset ≤ source.utf8ByteSize := by
  subst h
  cases hends.of_eq_error heq with
  | reported h => exact h

end Ending

section Safety

/-- Reading stops with a fault that is not internal, or for want of steps. -/
inductive StopsSafely : Stop → Prop
  | reported
      {notice : Notice}
      (h : notice.message ∉ ReadFault.internal) :
      StopsSafely (.reported notice)
  | exhausted : StopsSafely .exhausted

theorem message_not_internal
    {fault : ReadFault}
    (h : fault.inForms = true) :
    fault.message ∉ ReadFault.internal := fun hmem =>
  ReadFault.message_ne h (List.mem_cons_of_mem _ (List.mem_cons_of_mem _ hmem))

theorem message_unexpectedEnd_ne
    {fault : ReadFault}
    (h : fault.inForms = true) :
    fault.message ≠ "unexpected end of input" := fun heq =>
  ReadFault.message_ne h (heq ▸ List.mem_cons_self)

/-- Where nothing but separators is left, there is no form. -/
theorem At.value_end
    {P : ReadFailure → Prop} {Q : Value × Nat → Prop}
    (h : At source i s)
    (hskip : skipSeparators s = [])
    (hfailure : P ⟨.unexpectedEnd, []⟩) :
    Ends (StopsAt source P) Q (InPlace.value source fuel i) := by
  cases fuel with
  | zero => exact .error .exhausted
  | succ fuel =>
      rw [InPlace.value]
      refine h.skip.bind fun j hj => ?_
      rw [hskip] at hj
      rw [hj.peek?_nil]
      exact hj.report .unexpectedEnd rfl hfailure

/-- From between two characters, a form is read up to such a place again, and safely. -/
theorem At.value_safe
    (h : At source i s) :
    Ends StopsSafely (fun found => String.Pos.Raw.IsValid source ⟨found.2⟩)
      (InPlace.value source fuel i) := by
  have hsafe : Ends (StopsAt source fun failure => failure.fault.message ∉ ReadFault.internal)
      (fun found => String.Pos.Raw.IsValid source ⟨found.2⟩) (InPlace.value source fuel i) := by
    cases hskip : skipSeparators s with
    | nil => exact h.value_end hskip (by decide)
    | cons c rest =>
        refine (h.value hskip).imp (fun stop hstop => hstop.imp fun failure hfailure => ?_) ?_
        · have hforms : Token.forms (Token.ofText s) = .error failure :=
            hfailure step start (begins_step.awaits c)
          exact message_not_internal (Token.inForms_of_forms hforms)
        · rintro found ⟨rest', hrest, -⟩
          exact hrest.isValid
  refine hsafe.imp (fun stop hstop => ?_) fun _ hfound => hfound
  cases hstop with
  | reported hmessage => exact .reported hmessage
  | exhausted => exact .exhausted

/-- From an index on, all pieces of the text are cut out between two characters, the bytes of every
closed literal are those of a text, and no internal fault is reported. -/
structure SafeFrom (source : String) (i fuel : Nat) : Prop where
  run : ∀ stop, skipWhile source isSymbolChar fuel i = .ok stop →
    String.Pos.Raw.IsValid source ⟨stop⟩
  extent : ∀ extent, extent? source fuel i = .ok (some extent) →
    String.Pos.Raw.IsValid source ⟨extent.stop⟩
  literal : ∀ bytes stop, collect source fuel i ByteArray.empty = .ok (bytes, stop) →
    bytes.IsValidUTF8 ∧ String.Pos.Raw.IsValid source ⟨stop⟩
  value : Ends StopsSafely (fun found => String.Pos.Raw.IsValid source ⟨found.2⟩)
    (value source fuel i)

theorem At.safeFrom
    (h : At source i s) :
    SafeFrom source i fuel where
  run stop hstop := by
    have hrun := (At.skipWhile (P := fun _ => True) ignoresHigh_isSymbolChar h).of_eq_ok hstop
    exact hrun.isValid
  extent extent hextent := by
    obtain ⟨-, hfound⟩ := (At.extent? (P := fun _ => True) h).of_eq_ok hextent
    exact (hfound extent rfl).1.isValid
  literal bytes stop hbytes := by
    have hcollect : Collects source _ (Quoted.decode s)
        (InPlace.collect source fuel i ByteArray.empty) := Left.collect h
    obtain ⟨text, rest, -, hrest, hcollected⟩ := hcollect.of_eq_ok hbytes
    exact ⟨⟨text, eq_utf8Encode hcollected⟩, hrest.isValid⟩
  value := h.value_safe

end Safety

/-- Wherever it starts, reading a form takes at least one byte, or reports an offset within the
text, and it does not go back to before its start.  Steps in proportion to what is left of the text
are always enough, so reading a text ends, and errors lie in the text. -/
theorem reading_ends
    (source : String) :
    (∀ i fuel, i ≤ source.utf8ByteSize → 2 * (source.utf8ByteSize - i) + 4 ≤ fuel →
        EndsFrom source i fuel ∧
          (String.Pos.Raw.IsValid source ⟨i⟩ → value source fuel i ≠ .error .misplaced)) ∧
      readAll source = (Value.readAll source).mapError (fun e => .reported e.notice) ∧
      read source = (Value.read source).mapError (fun e => .reported e.notice) ∧
      ∀ e, Value.readAll source = .error e ∨ Value.read source = .error e →
        e.offset ≤ source.utf8ByteSize := by
  refine ⟨fun i fuel hi hfuel => ⟨endsFrom hi hfuel, fun hvalid hmisplaced => ?_⟩,
    readAll_eq source, read_eq source, fun e he => ?_⟩
  · obtain ⟨s, hs⟩ := isValid_iff.1 hvalid
    cases hs.value_safe.of_eq_error hmisplaced
  · rcases he with he | he
    · exact offset_le (ends_readAll source) (readAll_eq source) he
    · exact offset_le (ends_read source) (read_eq source) he

/-- From between two characters, the reader never cuts a character apart, every closed literal has
the bytes of a text, and no fault is reported that stands for a mistake of the reader.  That there
is no form is reported only when one form of a text of separators is asked for. -/
theorem reading_safe
    (source : String) :
    (∀ i fuel, String.Pos.Raw.IsValid source ⟨i⟩ → SafeFrom source i fuel) ∧
      readAll source = (Value.readAll source).mapError (fun e => .reported e.notice) ∧
      read source = (Value.read source).mapError (fun e => .reported e.notice) ∧
      (∀ e, Value.readAll source = .error e →
        e.notice.message ∉ "unexpected end of input" :: ReadFault.internal) ∧
      ∀ e, Value.read source = .error e →
        e.notice.message ∉ ReadFault.internal ∧
          (e.notice.message = "unexpected end of input" ↔ Splits source.toList []) := by
  refine ⟨fun i fuel hvalid => ?_, readAll_eq source, read_eq source, fun e he => ?_,
    fun e he => ?_⟩
  · obtain ⟨s, hs⟩ := isValid_iff.1 hvalid
    exact hs.safeFrom
  · have hmessage := ReadFault.message_ne (Value.inForms_of_readAll he)
    exact fun hmem => hmessage (List.mem_cons.2 ((List.mem_cons.1 hmem).imp_right
      (List.mem_cons_of_mem _)))
  · rw [← readAll_eq_nil_iff]
    cases firstForm source with
    | absent _ hread hall =>
        cases he.symm.trans hread
        exact ⟨(by decide : ReadFault.unexpectedEnd.message ∉ ReadFault.internal),
          fun _ => hall, fun _ => rfl⟩
    | unreadable _ hread hall =>
        cases he.symm.trans hread
        have hfault := Value.inForms_of_readAll hall
        refine ⟨message_not_internal hfault, fun hmessage => ?_, fun hnone => ?_⟩
        · exact absurd hmessage (message_unexpectedEnd_ne hfault)
        · cases hnone.symm.trans hall
    | only _ hread => cases he.symm.trans hread
    | followed hfirst _ _ _ hread =>
        cases he.symm.trans hread
        refine ⟨(by decide : ReadFault.trailingInput.message ∉ ReadFault.internal),
          fun hmessage => ?_, fun hnone => absurd hnone (readAll_ne_nil hfirst)⟩
        exact absurd hmessage
          (by decide : ReadFault.trailingInput.message ≠ "unexpected end of input")

end InPlace
end TaskTree
