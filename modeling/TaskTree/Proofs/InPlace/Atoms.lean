import TaskTree.Proofs.InPlace.Bytes
import TaskTree.Proofs.Source.Faults
import TaskTree.Proofs.Source.Numbers

/-!
# Atoms in place

Every scanner that moves over bytes stops between two characters, where the scanner of the same
kind that takes characters stops.  For the longest runs this is so since no byte of a character
above 127 is told from the others.

**Results.**
* `InPlace.At.skip`, `InPlace.At.skipWhile`: separators, and runs of characters.
* `InPlace.At.number`, `InPlace.Left.collect`: numbers, with the places to which the index goes
  back, and the bytes of a literal.
* `InPlace.At.atom`: a form without parts is read as the token of its first character.
-/

namespace TaskTree
namespace InPlace

/-- Reading stops with a failure that has a property, located in the text, or for want of steps. -/
inductive StopsAt (source : String) (P : ReadFailure → Prop) : Stop → Prop
  | reported
      {failure : ReadFailure}
      (h : P failure) :
      StopsAt source P (.reported (failure.locate source.toList).notice)
  | exhausted : StopsAt source P .exhausted

/-- A property of characters that does not tell those above 127 apart. -/
def IgnoresHigh (p : Char → Bool) : Prop :=
  ∀ c d : Char, 128 ≤ c.toNat → 128 ≤ d.toNat → p c = p d

variable {source : String} {P P' : ReadFailure → Prop} {p : Char → Bool} {fuel i j : Nat}
variable {pending : List UInt8} {b : UInt8} {c d : Char} {s : List Char}

section Reports

variable {α : Type} {Q : α → Prop}

theorem StopsAt.imp
    {stop : Stop}
    (h : StopsAt source P stop)
    (hfailure : ∀ failure, P failure → P' failure) :
    StopsAt source P' stop := by
  cases h with
  | reported h => exact .reported (hfailure _ h)
  | exhausted => exact .exhausted

theorem At.offset
    (h : At source i s) :
    Text.byteLength source.toList - Text.byteLength s = i := by
  have hindex := h.index
  rw [Text.byteLength_toList]
  omega

/-- What is reported at an index is the failure with what is left there. -/
theorem At.report
    (h : At source i s)
    (fault : ReadFault)
    (hconsumed : fault.consumed = 0)
    (hfailure : P ⟨fault, s⟩) :
    Ends (StopsAt source P) Q (report fault.message i) := by
  have hnotice : (ReadFailure.locate source.toList ⟨fault, s⟩).notice = ⟨fault.message, i⟩ := by
    simp only [ReadFailure.locate, ReadError.notice, hconsumed, h.offset, Nat.add_zero]
  rw [InPlace.report, ← hnotice]
  exact .error (.reported hfailure)

end Reports

section Characters

theorem ignoresHigh_of_low
    (h : ∀ c, p c = true → c.toNat < 128) :
    IgnoresHigh p := by
  have hhigh : ∀ c : Char, 128 ≤ c.toNat → p c = false := fun c hc =>
    Bool.eq_false_iff.2 fun hp => Nat.not_lt.2 hc (h c hp)
  intro c d hc hd
  rw [hhigh c hc, hhigh d hd]

theorem ne_of_high
    (hc : 128 ≤ c.toNat)
    (hd : d.toNat < 128) :
    c ≠ d := by
  rintro rfl
  omega

theorem low_of_isSeparator
    (h : isSeparator c = true) :
    c.toNat < 128 := by
  simp only [isSeparator, Bool.or_eq_true, beq_iff_eq] at h
  rcases h with ((((rfl | rfl) | rfl) | rfl) | rfl) | rfl <;> decide

theorem low_of_isDelimiter
    (h : isDelimiter c = true) :
    c.toNat < 128 := by
  simp only [isDelimiter, Bool.or_eq_true, beq_iff_eq] at h
  rcases h with ((((((rfl | rfl) | rfl) | rfl) | rfl) | rfl) | rfl) | rfl <;> decide

theorem low_of_isDigit
    (h : c.isDigit = true) :
    c.toNat < 128 :=
  Nat.lt_of_le_of_lt (Char.isDigit_iff_toNat.1 h).2 (by decide)

/-- All characters above 127 are symbol characters. -/
theorem isSymbolChar_high
    (h : 128 ≤ c.toNat) :
    isSymbolChar c = true := by
  refine isSymbolChar_iff.2 ⟨Bool.eq_false_iff.2 fun hc => ?_, Bool.eq_false_iff.2 fun hc => ?_⟩
  · exact Nat.not_lt.2 h (low_of_isSeparator hc)
  · exact Nat.not_lt.2 h (low_of_isDelimiter hc)

theorem ignoresHigh_isSymbolChar :
    IgnoresHigh isSymbolChar := by
  intro c d hc hd
  rw [isSymbolChar_high hc, isSymbolChar_high hd]

theorem ignoresHigh_isSeparator :
    IgnoresHigh isSeparator :=
  ignoresHigh_of_low fun _ => low_of_isSeparator

theorem ignoresHigh_isDigit :
    IgnoresHigh Char.isDigit :=
  ignoresHigh_of_low fun _ => low_of_isDigit

theorem IgnoresHigh.leadingByte
    (hp : IgnoresHigh p)
    (c : Char) :
    p (leadingByte c) = p c := by
  by_cases hc : c.toNat < 128
  · rw [leadingByte_low hc]
  · exact hp _ _ (leadingByte_high (Nat.le_of_not_lt hc)) (Nat.le_of_not_lt hc)

/-- A character below 128 is found where its byte is found. -/
theorem leadingByte_eq_iff
    (hd : d.toNat < 128) :
    leadingByte c = d ↔ c = d := by
  by_cases hc : c.toNat < 128
  · rw [leadingByte_low hc]
  · have hhigh := leadingByte_high (Nat.le_of_not_lt hc)
    constructor
    · rintro rfl
      omega
    · rintro rfl
      omega

theorem leadingByte_ne
    (hd : d.toNat < 128)
    (h : c ≠ d) :
    leadingByte c ≠ d :=
  (leadingByte_eq_iff hd).not.2 h

/-- The byte of a character is passed over, and what is left of the character is pending. -/
theorem At.next
    (h : At source i (c :: s)) :
    ∃ pending, String.utf8EncodeChar c = (leadingByte c).toUInt8 :: pending ∧
      (pending ≠ [] → 128 ≤ c.toNat) ∧ Left source (advance source i) pending s := by
  by_cases hc : c.toNat < 128
  · refine ⟨[], ?_, fun hne => absurd rfl hne, h.low hc⟩
    rw [leadingByte_low hc, utf8EncodeChar_low hc]
  · have hhigh := Nat.le_of_not_lt hc
    obtain ⟨b, pending, hbytes⟩ := List.exists_cons_of_ne_nil (@String.utf8EncodeChar_ne_nil c)
    have hleft := h.high hhigh
    rw [hbytes] at hleft
    refine ⟨pending, ?_, fun _ => hhigh, hleft.next.2.2⟩
    rw [hbytes, leadingByte_eq hbytes, toUInt8_ofUInt8]

/-- Whether there is a byte with a property is whether there is such a character. -/
theorem At.looksAt
    (hp : IgnoresHigh p)
    (h : At source i s) :
    looksAt source p i = s.head?.any p := by
  rw [InPlace.looksAt]
  cases s with
  | nil => rw [h.peek?_nil]; rfl
  | cons c s =>
      rw [h.peek?_cons]
      exact hp.leadingByte c

end Characters

section Separators

/-- The line of a comment is passed over with all that is left of it. -/
theorem Left.skipLine
    (h : Left source i pending s) :
    Ends (StopsAt source P)
      (fun j => ∃ rest, At source j rest ∧ skipSeparators rest = skipComment s)
      (skipLine source fuel i) := by
  induction fuel generalizing i pending s with
  | zero => exact .error .exhausted
  | succ fuel ih =>
      rw [InPlace.skipLine]
      cases pending with
      | cons b pending =>
          obtain ⟨hpeek, hhigh, hnext⟩ := h.next
          have hne : Char.ofUInt8 b ≠ '\n' := ne_of_high hhigh (by decide)
          simp only [hpeek, if_neg hne]
          exact ih hnext
      | nil =>
          cases s with
          | nil =>
              rw [At.peek?_nil h]
              exact .ok ⟨[], h, rfl⟩
          | cons c s =>
              rw [At.peek?_cons h]
              dsimp only
              rw [skipComment]
              by_cases hc : c = '\n'
              · subst hc
                rw [if_pos rfl, if_pos ((leadingByte_eq_iff (by decide)).2 rfl)]
                exact .ok ⟨s, At.low h (by decide), rfl⟩
              · obtain ⟨pending, -, -, hnext⟩ := At.next h
                rw [if_neg hc, if_neg (leadingByte_ne (by decide) hc)]
                exact ih hnext

/-- Separators and comments are passed over. -/
theorem At.skip
    (h : At source i s) :
    Ends (StopsAt source P) (fun j => At source j (skipSeparators s)) (skip source fuel i) := by
  induction fuel generalizing i s with
  | zero => exact .error .exhausted
  | succ fuel ih =>
      rw [InPlace.skip]
      cases s with
      | nil =>
          rw [h.peek?_nil]
          exact .ok h
      | cons c s =>
          rw [h.peek?_cons]
          dsimp only
          rw [ignoresHigh_isSeparator.leadingByte, skipSeparators]
          by_cases hseparator : isSeparator c = true
          · rw [if_pos hseparator, if_pos hseparator]
            exact ih (h.low (low_of_isSeparator hseparator))
          · rw [if_neg hseparator, if_neg hseparator]
            by_cases hc : c = ';'
            · subst hc
              rw [if_pos rfl, if_pos ((leadingByte_eq_iff (by decide)).2 rfl)]
              refine (Left.skipLine h).bind ?_
              rintro j ⟨rest, hrest, hskip⟩
              rw [skipComment, if_neg (by decide)] at hskip
              rw [← hskip]
              exact ih hrest
            · rw [if_neg hc, if_neg (leadingByte_ne (by decide) hc)]
              exact .ok h

end Separators

section Runs

/-- The bytes of a run are passed over with the run. -/
theorem Left.skipWhile
    (hp : IgnoresHigh p)
    (h : Left source i pending s)
    (hpending : pending ≠ [] → ∀ c : Char, 128 ≤ c.toNat → p c = true) :
    Ends (StopsAt source P) (fun j => At source j (s.dropWhile p)) (skipWhile source p fuel i) := by
  induction fuel generalizing i pending s with
  | zero => exact .error .exhausted
  | succ fuel ih =>
      rw [InPlace.skipWhile]
      cases pending with
      | cons b pending =>
          obtain ⟨hpeek, hhigh, hnext⟩ := h.next
          have hall := hpending (List.cons_ne_nil b pending)
          rw [InPlace.looksAt, hpeek, Option.any_some, if_pos (hall _ hhigh)]
          exact ih hnext fun _ => hall
      | nil =>
          rw [At.looksAt hp h]
          cases s with
          | nil => exact .ok h
          | cons c s =>
              rw [List.head?_cons, Option.any_some, List.dropWhile_cons]
              by_cases hc : p c = true
              · obtain ⟨pending, -, hhigh, hnext⟩ := At.next h
                rw [if_pos hc, if_pos hc]
                exact ih hnext fun hne d hd => (hp d c hd (hhigh hne)).trans hc
              · rw [if_neg hc, if_neg hc]
                exact .ok h

/-- A run of characters is passed over. -/
theorem At.skipWhile
    (hp : IgnoresHigh p)
    (h : At source i s) :
    Ends (StopsAt source P) (fun j => At source j (s.dropWhile p)) (skipWhile source p fuel i) :=
  Left.skipWhile hp h fun hne => absurd rfl hne

/-- The run of symbol characters is cut out. -/
theorem At.takeRun
    (h : At source i s) :
    Ends (StopsAt source P)
      (fun run => run.1 = String.ofList (s.takeWhile isSymbolChar) ∧
        At source run.2 (s.dropWhile isSymbolChar))
      (takeRun source fuel i) := by
  refine (At.skipWhile ignoresHigh_isSymbolChar h).bind fun stop hstop => ?_
  rw [← s.takeWhile_append_dropWhile (p := isSymbolChar)] at h
  rw [cut_run h hstop]
  exact .ok ⟨rfl, hstop⟩

end Runs

section Numbers

theorem startsWithDigit_eq
    (s : List Char) :
    startsWithDigit s = s.head?.any Char.isDigit := by
  cases s <;> rfl

theorem At.looksAt_digit
    (h : At source i s) :
    InPlace.looksAt source Char.isDigit i = startsWithDigit s :=
  (h.looksAt ignoresHigh_isDigit).trans (startsWithDigit_eq s).symm

/-- A sign is passed over. -/
theorem At.skipSign
    (h : At source i s) :
    At source (skipSign source i) (takeSign s).2 := by
  have hsign : IgnoresHigh fun c => c == '-' || c == '+' := by
    refine ignoresHigh_of_low fun c hc => ?_
    rw [Bool.or_eq_true, beq_iff_eq, beq_iff_eq] at hc
    rcases hc with rfl | rfl <;> decide
  rw [InPlace.skipSign, h.looksAt hsign]
  cases s with
  | nil => exact h
  | cons c s =>
      by_cases hc : c = '-' ∨ c = '+'
      · rcases hc with rfl | rfl <;> exact h.low (by decide)
      · rw [takeSign_unsigned hc, if_neg]
        · exact h
        · rw [List.head?_cons, Option.any_some, Bool.or_eq_true, beq_iff_eq, beq_iff_eq]
          exact hc

/-- A point with digits behind it is passed over. -/
theorem At.skipFraction
    (h : At source i s) :
    Ends (StopsAt source P)
      (fun fraction => fraction.1 = !(Atom.takeFraction s).1.isEmpty ∧
        At source fraction.2 (Atom.takeFraction s).2)
      (skipFraction source fuel i) := by
  have hpoint : IgnoresHigh (· == '.') := by
    refine ignoresHigh_of_low fun c hc => ?_
    rw [beq_iff_eq.1 hc]
    decide
  rw [InPlace.skipFraction, h.looksAt hpoint]
  unfold Atom.takeFraction
  split
  · next rest =>
    have hrest : At source (advance source i) rest := h.low (by decide)
    have hdigit : InPlace.looksAt source Char.isDigit (i + 1) = startsWithDigit rest := by
      rw [← advance_of_lt (lt_of_peek? h.peek?_cons)]
      exact hrest.looksAt_digit
    rw [hdigit, List.head?_cons, Option.any_some, beq_self_eq_true, Bool.true_and]
    split
    · next hstarts =>
      refine (hrest.skipWhile ignoresHigh_isDigit).bind fun stop hstop => .ok ⟨?_, hstop⟩
      have hne := (digits_takeWhile hstarts).1
      simp [hne]
    · exact .ok ⟨rfl, h⟩
  · next hne =>
    rw [if_neg]
    · exact .ok ⟨rfl, h⟩
    · intro hhead
      cases s with
      | nil => cases hhead
      | cons c s =>
          rw [List.head?_cons, Option.any_some, Bool.and_eq_true, beq_iff_eq] at hhead
          exact hne s (by rw [hhead.1])

/-- A power of ten is passed over.  If there is none, the index stays at its mark. -/
theorem At.skipPower
    (h : At source i s) :
    Ends (StopsAt source P)
      (fun power => power.1 = (Atom.takeExponent s).1.isSome ∧
        At source power.2 (Atom.takeExponent s).2)
      (skipPower source fuel i) := by
  have hmark : IgnoresHigh fun c => c == 'e' || c == 'E' := by
    refine ignoresHigh_of_low fun c hc => ?_
    rw [Bool.or_eq_true, beq_iff_eq, beq_iff_eq] at hc
    rcases hc with rfl | rfl <;> decide
  rw [InPlace.skipPower, h.looksAt hmark]
  cases s with
  | nil => exact .ok ⟨rfl, h⟩
  | cons c s =>
      simp only [List.head?_cons, Option.any_some, Bool.or_eq_true, beq_iff_eq]
      unfold Atom.takeExponent
      dsimp only
      by_cases hc : c = 'e' ∨ c = 'E'
      · have hlow : c.toNat < 128 := by rcases hc with rfl | rfl <;> decide
        have hsign := (h.low hlow).skipSign
        rw [if_pos hc, hsign.looksAt_digit]
        by_cases hdigit : startsWithDigit (takeSign s).2 = true
        · rw [if_pos hdigit, if_pos ⟨hc, hdigit⟩]
          exact (hsign.skipWhile ignoresHigh_isDigit).bind fun stop hstop => .ok ⟨rfl, hstop⟩
        · rw [if_neg hdigit, if_neg fun hboth => hdigit hboth.2]
          exact .ok ⟨rfl, h⟩
      · rw [if_neg hc, if_neg fun hboth => hc hboth.1]
        exact .ok ⟨rfl, h⟩

/-- The longest numeral is found, and whether it has a point or a power of ten. -/
theorem At.extent?
    (h : At source i s) :
    Ends (StopsAt source P)
      (fun found => found.isSome = Atom.isNumeric s ∧
        ∀ extent ∈ found, At source extent.stop (Atom.takeNumeral s).2 ∧
          extent.decimal = !(Atom.takeNumeral s).1.isInteger)
      (extent? source fuel i) := by
  have hsign := h.skipSign
  rw [InPlace.extent?, Atom.isNumeric]
  dsimp only
  rw [hsign.looksAt_digit]
  split
  · next hdigit =>
    refine (hsign.skipWhile ignoresHigh_isDigit).bind fun whole hwhole => ?_
    refine hwhole.skipFraction.bind ?_
    rintro ⟨fraction, mark⟩ ⟨hfraction, hmark⟩
    refine hmark.skipPower.bind ?_
    rintro ⟨power, stop⟩ ⟨hpower, hstop⟩
    refine .ok ⟨hdigit.symm, ?_⟩
    rintro _ ⟨⟩
    refine ⟨hstop, ?_⟩
    dsimp only at hfraction hpower ⊢
    rw [hfraction, hpower, Atom.takeNumeral, Numeral.isInteger]
    simp
  · next hdigit =>
    refine .ok ⟨(Bool.eq_false_iff.2 hdigit).symm, ?_⟩
    rintro _ ⟨⟩

end Numbers

section Words

variable {run after : List Char}

/-- A run of symbol characters is read as it is by itself, up to what stands behind it. -/
abbrev ReadsRun (source : String) (run after : List Char) (read : Except Stop (Value × Nat)) :
    Prop :=
  Ends
    (StopsAt source fun failure => ∃ inner, Atom.value run = .error inner ∧
      failure = { inner with rest := inner.rest ++ after })
    (fun found => Atom.value run = .ok found.1 ∧ At source found.2 after) read

theorem isEmpty_ofList
    (s : List Char) :
    (String.ofList s).isEmpty = s.isEmpty := by
  rw [Bool.eq_iff_iff, String.isEmpty_iff, List.isEmpty_iff, String.ofList_eq_empty_iff]

/-- A keyword is read from its colon on. -/
theorem At.keyword
    (h : At source i (':' :: s)) :
    ReadsRun source (':' :: s.takeWhile isSymbolChar) (s.dropWhile isSymbolChar)
      (keyword source fuel i) := by
  refine (h.low (by decide)).takeRun.bind fun run ⟨hrun, hstop⟩ => ?_
  dsimp only
  rw [hrun, isEmpty_ofList]
  cases hname : s.takeWhile isSymbolChar with
  | nil => exact hstop.report .emptyKeyword rfl ⟨⟨.emptyKeyword, []⟩, rfl, rfl⟩
  | cons c name => exact .ok ⟨rfl, hstop⟩

/-- A run that is not empty is read as a word. -/
theorem At.word
    (h : At source i (run ++ after))
    (hrun : IsRun run)
    (hafter : EndsRun after) :
    Ends (StopsAt source P) (fun found => found.1 = Atom.word run ∧ At source found.2 after)
      (word source fuel i) := by
  have htake : Ends (StopsAt source P) _ (InPlace.takeRun source fuel i) := h.takeRun
  rw [takeWhile_run hrun.2 hafter, dropWhile_run hrun.2 hafter] at htake
  refine htake.bind fun found ⟨hfound, hstop⟩ => ?_
  dsimp only
  rw [hfound, isEmpty_ofList, if_neg (by simpa using hrun.1), String.toList_ofList]
  exact .ok ⟨rfl, hstop⟩

/-- The numeral that a run is, if nothing of the run is left behind it. -/
theorem numeral?_ofList
    {n : Numeral}
    (hnumeric : Atom.isNumeric run = true)
    (htake : Atom.takeNumeral run = (n, [])) :
    numeral? (String.ofList run) = some n := by
  rw [numeral?, String.toList_ofList, htake]
  exact if_pos ⟨hnumeric, rfl⟩

/-- A run that does not start with a colon is read as a number, or as a word. -/
theorem At.number
    (h : At source i (run ++ after))
    (hrun : IsRun run)
    (hcolon : run.head? ≠ some ':')
    (hafter : EndsRun after) :
    ReadsRun source run after (number source fuel i) := by
  refine h.extent?.bind fun found ⟨hsome, hextent⟩ => ?_
  rw [Atom.isNumeric_behind hafter] at hsome
  rw [Atom.takeNumeral_behind hafter] at hextent
  cases found with
  | none =>
      have hword := Atom.value_word hsome.symm hcolon
      refine (h.word hrun hafter).imp (fun _ hstop => hstop) fun found ⟨hfound, hstop⟩ => ?_
      exact ⟨by rw [hword, hfound], hstop⟩
  | some extent =>
      have hnumeric : Atom.isNumeric run = true := hsome.symm
      have hvalue := Atom.value_of_isNumeric hnumeric
      obtain ⟨hstop, hdecimal⟩ := hextent extent rfl
      rcases htake : Atom.takeNumeral run with ⟨n, rest⟩
      simp only [Atom.number, htake] at hvalue
      simp only [htake] at hstop hdecimal
      dsimp only
      rw [hstop.looksAt ignoresHigh_isSymbolChar]
      cases rest with
      | cons d rest =>
          have hsuffix := Atom.takeNumeral_suffix run
          rw [htake] at hsuffix
          have hd : isSymbolChar d = true := hrun.2 d (hsuffix.subset List.mem_cons_self)
          rw [List.cons_append, List.head?_cons, Option.any_some, if_pos hd]
          exact hstop.report .invalidNumber rfl ⟨_, hvalue, rfl⟩
      | nil =>
          have hends : after.head?.any isSymbolChar = false := by
            cases after with
            | nil => rfl
            | cons c after => exact endsRun_cons.1 hafter
          have hnumeral := numeral?_ofList hnumeric htake
          rw [List.nil_append] at hstop
          rw [List.nil_append, hends, if_neg Bool.false_ne_true, cut_run h hstop, ok_bind_eq,
            hdecimal]
          cases hinteger : n.isInteger with
          | false =>
              rw [hinteger] at hvalue
              rw [float?, hnumeral]
              exact .ok ⟨hvalue, hstop⟩
          | true =>
              have hfound : integer? (String.ofList run) = int64? n.wholeValue := by
                rw [integer?, hnumeral]
                exact if_pos hinteger
              rw [hinteger] at hvalue
              rw [hfound]
              cases hrange : int64? n.wholeValue with
              | none =>
                  rw [hrange] at hvalue
                  exact hstop.report .invalidInteger rfl ⟨_, hvalue, rfl⟩
              | some m =>
                  rw [hrange] at hvalue
                  exact .ok ⟨hvalue, hstop⟩

end Words

section Strings

variable {bytes collected : List UInt8} {decoded : Except ReadFailure (List Char × List Char)}
variable {found : Except Stop (ByteArray × Nat)} {buffer : ByteArray}

/-- The bytes of a literal are collected as its text is decoded, behind other bytes. -/
abbrev Collects (source : String) (collected : List UInt8)
    (decoded : Except ReadFailure (List Char × List Char))
    (found : Except Stop (ByteArray × Nat)) : Prop :=
  Ends (StopsAt source fun failure => decoded = .error failure)
    (fun read => ∃ text rest, decoded = .ok (text, rest) ∧ At source read.2 rest ∧
      read.1.data.toList = collected ++ text.flatMap String.utf8EncodeChar) found

/-- The first character of the text has been collected. -/
theorem Collects.cons
    (h : Collects source (collected ++ String.utf8EncodeChar c) decoded found) :
    Collects source collected (decoded.map fun (text, rest) => (c :: text, rest)) found := by
  refine h.imp (fun stop hstop => hstop.imp ?_) ?_
  · rintro failure rfl
    rfl
  · rintro read ⟨text, rest, rfl, hrest, hbytes⟩
    refine ⟨c :: text, rest, rfl, hrest, ?_⟩
    rw [hbytes, List.append_assoc, List.flatMap_cons]

theorem unescape?_leadingByte
    (c : Char) :
    Quoted.unescape? (leadingByte c) = Quoted.unescape? c := by
  have hlow : ∀ d : Char, 128 ≤ d.toNat → Quoted.unescape? d = none := by
    intro d hd
    unfold Quoted.unescape?
    split
    case h_6 => rfl
    all_goals exact absurd hd (by decide)
  by_cases hc : c.toNat < 128
  · rw [leadingByte_low hc]
  · rw [hlow c (Nat.le_of_not_lt hc), hlow _ (leadingByte_high (Nat.le_of_not_lt hc))]

/-- What an escape stands for, and its letter, have one byte each. -/
theorem low_of_unescape?
    (h : Quoted.unescape? c = some d) :
    c.toNat < 128 ∧ d.toNat < 128 := by
  unfold Quoted.unescape? at h
  split at h <;> cases h <;> decide

/-- An unknown escape is reported behind the byte of its letter. -/
theorem At.report_unknownEscape
    {α : Type} {Q : α → Prop}
    (h : At source i (c :: s))
    (hfailure : P ⟨.unknownEscape c, c :: s⟩) :
    Ends (StopsAt source P) Q
      (InPlace.report ("unknown escape: \\" ++ String.ofList [leadingByte c])
        (advance source i)) := by
  have hnotice : (ReadFailure.locate source.toList ⟨.unknownEscape c, c :: s⟩).notice
      = ⟨"unknown escape: \\" ++ String.ofList [leadingByte c], advance source i⟩ := by
    rw [advance_of_lt (lt_of_peek? h.peek?_cons)]
    simp only [ReadFailure.locate, ReadError.notice, ReadFault.message_unknownEscape,
      ReadFault.consumed, h.offset]
  rw [InPlace.report, ← hnotice]
  exact .error (.reported hfailure)

theorem Collects.of_push
    {b : UInt8}
    (h : Collects source ((buffer.push b).data.toList ++ bytes) decoded found) :
    Collects source (buffer.data.toList ++ b :: bytes) decoded found := by
  rwa [ByteArray.data_push, Array.toList_push, List.append_assoc, List.singleton_append] at h

theorem collect_plain
    (h : peek? source i = some c)
    (hquote : c ≠ '"')
    (hslash : c ≠ '\\') :
    collect source (fuel + 1) i buffer =
      collect source fuel (advance source i) (buffer.push c.toUInt8) := by
  simp only [collect, h, if_neg hquote, if_neg hslash]

/-- An escape is collected as the byte of the character that it stands for. -/
theorem At.collect_escape
    (h : At source i ('\\' :: s))
    (hrest : ∀ {i : Nat} {s : List Char} {buffer : ByteArray}, At source i s →
      Collects source (buffer.data.toList ++ []) (Quoted.decode s)
        (collect source fuel i buffer)) :
    Collects source buffer.data.toList (Quoted.decode ('\\' :: s))
      (collect source (fuel + 1) i buffer) := by
  have hslash : peek? source i = some '\\' := h.peek?_cons
  have hletter : At source (advance source i) s := h.low (by decide)
  rw [collect, hslash]
  cases s with
  | nil =>
      simp only [hletter.peek?_nil]
      exact hletter.report .incompleteEscape rfl rfl
  | cons letter s =>
      simp only [hletter.peek?_cons, unescape?_leadingByte]
      cases hdecoded : Quoted.unescape? letter with
      | none =>
          rw [Quoted.decode]
          simp only [hdecoded]
          exact hletter.report_unknownEscape rfl
      | some d =>
          obtain ⟨hlow, hd⟩ := low_of_unescape? hdecoded
          rw [Quoted.decode_letter hdecoded]
          refine Collects.cons ?_
          rw [utf8EncodeChar_low hd]
          exact Collects.of_push (hrest (hletter.low hlow))

/-- The bytes of a literal are collected from behind its opening quote. -/
theorem Left.collect
    (h : Left source i pending s) :
    Collects source (buffer.data.toList ++ pending) (Quoted.decode s)
      (collect source fuel i buffer) := by
  induction fuel generalizing i pending s buffer with
  | zero => exact .error .exhausted
  | succ fuel ih =>
      cases pending with
      | cons b pending =>
          obtain ⟨hpeek, hhigh, hnext⟩ := h.next
          have hquote : Char.ofUInt8 b ≠ '"' := ne_of_high hhigh (by decide)
          have hslash : Char.ofUInt8 b ≠ '\\' := ne_of_high hhigh (by decide)
          rw [collect_plain hpeek hquote hslash, toUInt8_ofUInt8]
          exact Collects.of_push (ih hnext)
      | nil =>
          rw [List.append_nil]
          cases s with
          | nil =>
              rw [InPlace.collect, At.peek?_nil h]
              exact At.report h .unterminatedString rfl rfl
          | cons c s =>
              by_cases hquote : c = '"'
              · subst hquote
                have hpeek : peek? source i = some '"' := At.peek?_cons h
                simp only [InPlace.collect, hpeek, if_pos, Quoted.decode_quote]
                exact .ok ⟨[], s, rfl, At.low h (by decide), (List.append_nil _).symm⟩
              · by_cases hslash : c = '\\'
                · subst hslash
                  exact At.collect_escape h ih
                · obtain ⟨pending, hbytes, -, hnext⟩ := At.next h
                  rw [collect_plain (At.peek?_cons h)
                    (leadingByte_ne (by decide) hquote) (leadingByte_ne (by decide) hslash),
                    Quoted.decode_plain hquote hslash]
                  refine Collects.cons ?_
                  rw [hbytes]
                  exact Collects.of_push (ih hnext)

/-- What starts with the given character is read as the token that starts there. -/
abbrev ReadsToken (source : String) (c : Char) (s : List Char)
    (read : Except Stop (Value × Nat)) : Prop :=
  Ends (StopsAt source fun failure => (Lexeme.next c s).1 = .broken failure)
    (fun found => ∃ rest, Lexeme.next c s = (.atom found.1, rest) ∧ At source found.2 rest) read

theorem eq_utf8Encode
    {bytes : ByteArray} {text : List Char}
    (h : bytes.data.toList = text.flatMap String.utf8EncodeChar) :
    bytes = text.utf8Encode := by
  refine ByteArray.ext (Array.toList_inj.1 ?_)
  rw [h, List.utf8Encode, List.toList_data_toByteArray]

/-- The bytes of a text are decoded to the text. -/
theorem fromUTF8?_utf8Encode
    (text : List Char) :
    String.fromUTF8? text.utf8Encode = some (String.ofList text) := by
  have hvalid : text.utf8Encode.IsValidUTF8 := ⟨text, rfl⟩
  rw [String.fromUTF8?, dif_pos hvalid]
  refine congrArg some (String.toByteArray_inj.1 ?_)
  rw [String.toByteArray_ofList]
  rfl

/-- A string is read from its opening quote on. -/
theorem At.string
    (h : At source i ('"' :: s)) :
    ReadsToken source '"' s (string source fuel i) := by
  have hcollect := @Left.collect source fuel _ [] s ByteArray.empty (h.low (by decide))
  refine (hcollect.imp (fun stop hstop => hstop.imp ?_) fun read hread => hread).bind ?_
  · intro failure hfailure
    simp only [Lexeme.next, hfailure]
  · rintro ⟨bytes, stop⟩ ⟨text, rest, htext, hrest, hbytes⟩
    have hencoded : bytes = text.utf8Encode := eq_utf8Encode hbytes
    dsimp only
    rw [hencoded, fromUTF8?_utf8Encode]
    refine .ok ⟨rest, ?_, hrest⟩
    simp only [Lexeme.next, htext]

end Strings

section Tokens

theorem ReadsRun.readsToken
    {read : Except Stop (Value × Nat)}
    (hc : isSymbolChar c = true)
    (h : ReadsRun source (c :: s.takeWhile isSymbolChar) (s.dropWhile isSymbolChar) read) :
    ReadsToken source c s read := by
  refine h.imp (fun stop hstop => hstop.imp ?_) fun found ⟨hvalue, hstop⟩ => ?_
  · rintro _ ⟨inner, hinner, rfl⟩
    rw [Lexeme.next_symbolChar_error hc hinner]
  · exact ⟨_, Lexeme.next_symbolChar hc hvalue, hstop⟩

/-- A form without parts is read as the token of its first character. -/
theorem At.atom
    (h : At source i (c :: s))
    (hc : c = '"' ∨ isSymbolChar c = true) :
    ReadsToken source c s (atom source fuel i (leadingByte c)) := by
  rw [InPlace.atom, ignoresHigh_isDigit.leadingByte]
  simp only [leadingByte_eq_iff (show '"'.toNat < 128 by decide),
    leadingByte_eq_iff (show ':'.toNat < 128 by decide),
    leadingByte_eq_iff (show '-'.toNat < 128 by decide),
    leadingByte_eq_iff (show '+'.toNat < 128 by decide)]
  by_cases hquote : c = '"'
  · subst hquote
    rw [if_pos rfl]
    exact h.string
  · have hsymbol := hc.resolve_left hquote
    rw [if_neg hquote]
    refine ReadsRun.readsToken hsymbol ?_
    by_cases hcolon : c = ':'
    · subst hcolon
      rw [if_pos rfl]
      exact h.keyword
    · have hsplit : c :: s = (c :: s.takeWhile isSymbolChar) ++ s.dropWhile isSymbolChar := by
        rw [List.cons_append, List.takeWhile_append_dropWhile]
      have hrun := isRun_takeWhile hsymbol s
      have hafter := endsRun_dropWhile s
      have hhead : (c :: s.takeWhile isSymbolChar).head? ≠ some ':' := by simpa using hcolon
      rw [hsplit] at h
      rw [if_neg hcolon]
      by_cases hnumber : c = '-' ∨ c = '+' ∨ c.isDigit = true
      · rw [if_pos hnumber]
        exact h.number hrun hhead hafter
      · have hsign : ¬ (c = '-' ∨ c = '+') := fun hsign =>
          hnumber (hsign.imp_right .inl)
        have hnumeric : Atom.isNumeric (c :: s.takeWhile isSymbolChar) = false := by
          rw [Atom.isNumeric, takeSign_unsigned hsign]
          exact Bool.eq_false_iff.2 fun hdigit => hnumber (.inr (.inr hdigit))
        have hword := Atom.value_word hnumeric hhead
        rw [if_neg hnumber]
        refine (h.word hrun hafter).imp (fun _ hstop => hstop) ?_
        rintro found ⟨hfound, hstop⟩
        exact ⟨by rw [hword, hfound], hstop⟩

end Tokens

end InPlace
end TaskTree
