import TaskTree.Proofs.InPlace.Atoms

/-!
# Reading in place agrees with reading tokens

Where reading in place finds a form, the tokens from there on add that form to what has been read,
and reading goes on behind it; where it fails, the tokens fail in the same way.  This holds for
every way of taking tokens into account that goes step by step within a form, so for all forms of
a text and for a single one.

**Results.**
* `InPlace.At.value`, `InPlace.At.items`: one form, and the items of a collection.
* `InPlace.readAll_eq`, `InPlace.read_eq`: both ways of reading a text give the same.
-/

namespace TaskTree

namespace Bracket

variable {bracket : Bracket} {c : Char}

theorem opened?_eq_some_iff :
    opened? c = some bracket ↔ c = bracket.opener := by
  constructor
  · intro h
    unfold opened? at h
    split at h <;> cases h <;> rfl
  · rintro rfl
    cases bracket <;> rfl

theorem closed?_eq_some_iff :
    closed? c = some bracket ↔ c = bracket.closer := by
  constructor
  · intro h
    unfold closed? at h
    split at h <;> cases h <;> rfl
  · rintro rfl
    cases bracket <;> rfl

theorem low_opener
    (bracket : Bracket) :
    bracket.opener.toNat < 128 := by
  cases bracket <;> decide

theorem low_closer
    (bracket : Bracket) :
    bracket.closer.toNat < 128 := by
  cases bracket <;> decide

theorem opened?_leadingByte
    (c : Char) :
    opened? (leadingByte c) = opened? c := by
  refine Option.ext fun bracket => ?_
  rw [opened?_eq_some_iff, opened?_eq_some_iff, InPlace.leadingByte_eq_iff bracket.low_opener]

theorem closed?_leadingByte
    (c : Char) :
    closed? (leadingByte c) = closed? c := by
  refine Option.ext fun bracket => ?_
  rw [closed?_eq_some_iff, closed?_eq_some_iff, InPlace.leadingByte_eq_iff bracket.low_closer]

/-- A token that is no bracket is a string or starts with a symbol character. -/
theorem quote_or_isSymbolChar
    (hseparator : isSeparator c = false)
    (hcomment : c ≠ ';')
    (hopened : opened? c = none)
    (hclosed : closed? c = none) :
    c = '"' ∨ isSymbolChar c = true := by
  by_cases hdelimiter : isDelimiter c = true
  · simp only [isDelimiter, Bool.or_eq_true, beq_iff_eq] at hdelimiter
    rcases hdelimiter with (hbracket | rfl) | rfl
    · rcases hbracket with ((((rfl | rfl) | rfl) | rfl) | rfl) | rfl
      all_goals first | exact absurd hopened (by decide) | exact absurd hclosed (by decide)
    · exact .inl rfl
    · exact absurd rfl hcomment
  · exact .inr (isSymbolChar_iff.2 ⟨hseparator, Bool.eq_false_iff.2 hdelimiter⟩)

end Bracket

namespace Progress

/-- A way of taking one more token into account. -/
abbrev Step : Type :=
  Progress → Token → Except ReadFailure Progress

/-- A text is taken into account token by token. -/
def readWith (f : Step) (progress : Progress) (s : List Char) : Except ReadFailure Progress :=
  (Token.ofText s).foldlM f progress

/-- Within a form, nothing else is done than to take the token into account. -/
def StepsWithin (f : Step) : Prop :=
  ∀ progress token, progress.unclosed ≠ [] → f progress token = progress.step token

/-- A form may start here with the given character. -/
structure Awaits (f : Step) (progress : Progress) (c : Char) : Prop where
  within : StepsWithin f
  first : ∀ token, f progress token = progress.step token
  other : ∀ inner ∈ progress.unclosed.head?, c ≠ inner.bracket.closer

/-- The first form of a text is read token by token. -/
structure Begins (f : Step) : Prop where
  within : StepsWithin f
  first : ∀ token, f start token = start.step token

theorem begins_step :
    Begins step :=
  ⟨fun _ _ _ => rfl, fun _ => rfl⟩

theorem begins_stepWithinForm :
    Begins stepWithinForm := by
  refine ⟨?_, fun _ => rfl⟩
  rintro ⟨forms, unclosed⟩ token hunclosed
  cases unclosed with
  | nil => exact absurd rfl hunclosed
  | cons inner outer => cases forms <;> rfl

theorem Begins.awaits
    {f : Step}
    (h : Begins f)
    (c : Char) :
    Awaits f start c :=
  ⟨h.within, h.first, nofun⟩

/-- After finished forms a further one may start. -/
theorem awaits_step
    (forms : List Value) (c : Char) :
    Awaits step ⟨forms, []⟩ c :=
  ⟨begins_step.within, fun _ => rfl, nofun⟩

section ReadWith

variable {f : Step} {progress : Progress} {s t rest : List Char} {c : Char}

theorem readWith_nil
    (h : skipSeparators s = []) :
    progress.readWith f s = .ok progress := by
  rw [readWith, Token.ofText_eq_nil h]
  rfl

/-- Separators before the first token make no difference. -/
theorem readWith_start
    (h : skipSeparators s = c :: rest) :
    progress.readWith f s = progress.readWith f (c :: rest) := by
  rw [readWith, readWith, Token.ofText_congr (h.trans (skipSeparators_start h).symm)]

theorem readWith_eq_bind
    (h : skipSeparators s = c :: rest) :
    progress.readWith f s =
      f progress ⟨(Lexeme.next c rest).1, c :: rest⟩ >>=
        fun next => next.readWith f (Lexeme.next c rest).2 := by
  rw [readWith, Token.ofText_eq_cons h, List.foldlM_cons]
  rfl

theorem Awaits.readWith_opening
    {bracket : Bracket}
    (h : Awaits f progress bracket.opener)
    (hskip : skipSeparators s = bracket.opener :: rest) :
    progress.readWith f s =
      readWith f ⟨progress.forms, ⟨bracket, bracket.opener :: rest, []⟩ :: progress.unclosed⟩
        rest := by
  rw [readWith_eq_bind hskip, h.first, Lexeme.next_opener]
  rfl

/-- A closing bracket where no collection of its kind is open. -/
theorem Awaits.readWith_closing
    {bracket : Bracket}
    (h : Awaits f progress bracket.closer)
    (hskip : skipSeparators s = bracket.closer :: rest) :
    progress.readWith f s = .error ⟨.unexpectedClosing, bracket.closer :: rest⟩ := by
  rw [readWith_eq_bind hskip, h.first, Lexeme.next_closer]
  rcases progress with ⟨forms, unclosed⟩
  cases unclosed with
  | nil => rfl
  | cons inner outer =>
      have hne : inner.bracket ≠ bracket := by
        rintro rfl
        exact h.other inner rfl rfl
      simp only [step, if_neg hne]
      rfl

theorem Awaits.readWith_atom
    {value : Value}
    (h : Awaits f progress c)
    (hskip : skipSeparators s = c :: t)
    (hnext : Lexeme.next c t = (.atom value, rest)) :
    progress.readWith f s = (progress.add value).readWith f rest := by
  rw [readWith_eq_bind hskip, h.first, hnext]
  rfl

theorem Awaits.readWith_broken
    {failure : ReadFailure}
    (h : Awaits f progress c)
    (hskip : skipSeparators s = c :: rest)
    (hnext : (Lexeme.next c rest).1 = .broken failure) :
    progress.readWith f s = .error failure := by
  rw [readWith_eq_bind hskip, h.first, hnext]
  rfl

/-- The closing bracket of the innermost collection adds its value. -/
theorem StepsWithin.readWith_closing
    {forms : List Value} {inner : OpenCollection} {outer : List OpenCollection}
    (h : StepsWithin f) :
    readWith f ⟨forms, inner :: outer⟩ (inner.bracket.closer :: rest) =
      inner.close >>= fun value => (add ⟨forms, outer⟩ value).readWith f rest := by
  obtain ⟨hseparator, hcomment, -⟩ := inner.bracket.closer_separates
  rw [readWith_eq_bind (skipSeparators_token hseparator hcomment),
    h _ _ (List.cons_ne_nil inner outer), Lexeme.next_closer]
  simp only [step, if_pos]
  cases inner.close <;> rfl

end ReadWith

end Progress

namespace InPlace

open Progress

variable {source : String} {fuel i : Nat} {s rest : List Char} {c : Char} {bracket : Bracket}

/-- The form that starts with the given character is read, or fails, as the tokens do. -/
abbrev ReadsForm (source : String) (s : List Char) (c : Char)
    (read : Except Stop (Value × Nat)) : Prop :=
  Ends
    (StopsAt source fun failure => ∀ f progress, Awaits f progress c →
      progress.readWith f s >>= finish = .error failure)
    (fun found => ∃ rest, At source found.2 rest ∧ ∀ f progress, Awaits f progress c →
      progress.readWith f s = (progress.add found.1).readWith f rest) read

/-- A form may stand behind separators. -/
theorem ReadsForm.of_skip
    {read : Except Stop (Value × Nat)}
    (hskip : skipSeparators s = c :: rest)
    (h : ReadsForm source (c :: rest) c read) :
    ReadsForm source s c read := by
  refine h.imp (fun stop hstop => hstop.imp fun failure hfailure f progress hawaits => ?_) ?_
  · rw [readWith_start hskip]
    exact hfailure f progress hawaits
  · rintro found ⟨rest', hrest, hread⟩
    refine ⟨rest', hrest, fun f progress hawaits => ?_⟩
    rw [readWith_start hskip]
    exact hread f progress hawaits

/-- The items up to the closing bracket are read, or fail, as the tokens do. -/
abbrev ReadsItems (source : String) (s : List Char) (bracket : Bracket) (before : List Value)
    (read : Except Stop (List Value × Nat)) : Prop :=
  Ends
    (StopsAt source fun failure => ∀ f forms start outer, StepsWithin f →
      readWith f ⟨forms, ⟨bracket, start, before⟩ :: outer⟩ s >>= finish = .error failure)
    (fun found => ∃ rest, At source found.2 rest ∧ ∀ f forms start outer, StepsWithin f →
      readWith f ⟨forms, ⟨bracket, start, before⟩ :: outer⟩ s =
        readWith f ⟨forms, ⟨bracket, start, found.1.reverse⟩ :: outer⟩ (bracket.closer :: rest))
    read

/-- A collection is enclosed as an open one is closed. -/
theorem At.enclosed
    {items : List Value}
    (h : At source i s) :
    Ends
      (StopsAt source fun failure =>
        OpenCollection.close ⟨bracket, s, items.reverse⟩ = .error failure)
      (fun value => OpenCollection.close ⟨bracket, s, items.reverse⟩ = .ok value)
      (enclosed bracket items i) := by
  cases bracket with
  | round => exact .ok (by rw [OpenCollection.close, List.reverse_reverse])
  | square => exact .ok (by rw [OpenCollection.close, List.reverse_reverse])
  | curly =>
      simp only [InPlace.enclosed, OpenCollection.close, List.reverse_reverse]
      split
      · exact .ok rfl
      · exact h.report .unevenMap rfl rfl

mutual

/-- A form is read in place as its tokens are. -/
theorem At.value :
    ∀ {fuel i : Nat} {s rest : List Char} {c : Char},
      At source i s → skipSeparators s = c :: rest → ReadsForm source s c (value source fuel i)
  | 0, _, _, _, _, _, _ => .error .exhausted
  | fuel + 1, i, s, rest, c, h, hskip => by
      obtain ⟨hseparator, hcomment⟩ := token_of_skipSeparators hskip
      rw [InPlace.value]
      refine h.skip.bind fun j hj => ?_
      rw [hskip] at hj
      rw [hj.peek?_cons]
      dsimp only
      rw [Bracket.opened?_leadingByte, Bracket.closed?_leadingByte]
      cases hopened : Bracket.opened? c with
      | some bracket =>
          obtain rfl := Bracket.opened?_eq_some_iff.1 hopened
          have hitems : ReadsItems source rest bracket []
              (InPlace.items source bracket fuel (advance source j) []) :=
            At.items (hj.low bracket.low_opener)
          dsimp only
          refine (hitems.imp (fun stop hstop => hstop.imp ?_) fun _ h => h).bind ?_
          · intro failure hfailure f progress hawaits
            rw [hawaits.readWith_opening hskip]
            exact hfailure f _ _ _ hawaits.within
          · rintro ⟨items, stop⟩ ⟨rest', hrest, hread⟩
            have hall : ∀ f progress, Awaits f progress bracket.opener →
                progress.readWith f s =
                  OpenCollection.close ⟨bracket, bracket.opener :: rest, items.reverse⟩ >>=
                    fun value => (progress.add value).readWith f rest' := by
              intro f progress hawaits
              rw [hawaits.readWith_opening hskip, hread f _ _ _ hawaits.within]
              exact hawaits.within.readWith_closing
            refine (hj.enclosed.imp (fun stop hstop => hstop.imp ?_) fun _ h => h).bind ?_
            · intro failure hfailure f progress hawaits
              rw [hall f progress hawaits, hfailure]
              rfl
            · intro value hvalue
              refine .ok ⟨rest', hrest, fun f progress hawaits => ?_⟩
              rw [hall f progress hawaits, hvalue]
              rfl
      | none =>
          dsimp only
          cases hclosed : Bracket.closed? c with
          | some bracket =>
              obtain rfl := Bracket.closed?_eq_some_iff.1 hclosed
              refine hj.report .unexpectedClosing rfl fun f progress hawaits => ?_
              rw [hawaits.readWith_closing hskip]
              rfl
          | none =>
              have hatom : ReadsToken source c rest (InPlace.atom source fuel j (leadingByte c)) :=
                hj.atom (Bracket.quote_or_isSymbolChar hseparator hcomment hopened hclosed)
              refine hatom.imp (fun stop hstop => hstop.imp ?_) ?_
              · intro failure hfailure f progress hawaits
                rw [hawaits.readWith_broken hskip hfailure]
                rfl
              · rintro found ⟨rest', hnext, hrest⟩
                exact ⟨rest', hrest, fun f progress hawaits =>
                  hawaits.readWith_atom hskip hnext⟩

/-- The items of a collection are read in place as their tokens are. -/
theorem At.items :
    ∀ {fuel i : Nat} {s : List Char} {bracket : Bracket} {before : List Value},
      At source i s → ReadsItems source s bracket before (items source bracket fuel i before)
  | 0, _, _, _, _, _ => .error .exhausted
  | fuel + 1, i, s, bracket, before, h => by
      rw [InPlace.items]
      refine h.skip.bind fun j hj => ?_
      cases hskip : skipSeparators s with
      | nil =>
          rw [hskip] at hj
          rw [hj.peek?_nil]
          refine hj.report .unterminatedCollection rfl fun f forms start outer _ => ?_
          rw [readWith_nil hskip]
          rfl
      | cons c rest =>
          rw [hskip] at hj
          rw [hj.peek?_cons]
          dsimp only
          rw [Bracket.closed?_leadingByte]
          by_cases hclosed : Bracket.closed? c = some bracket
          · obtain rfl := Bracket.closed?_eq_some_iff.1 hclosed
            rw [if_pos hclosed]
            refine .ok ⟨rest, hj.low bracket.low_closer, fun f forms start outer _ => ?_⟩
            rw [List.reverse_reverse, readWith_start hskip]
          · rw [if_neg hclosed]
            have hawaits : ∀ f forms start outer, StepsWithin f →
                Awaits f ⟨forms, ⟨bracket, start, before⟩ :: outer⟩ c := by
              refine fun f forms start outer hwithin =>
                ⟨hwithin, fun token => hwithin _ _ (List.cons_ne_nil _ _), ?_⟩
              rintro _ ⟨⟩
              exact fun hc => hclosed (Bracket.closed?_eq_some_iff.2 hc)
            have hvalue : ReadsForm source s c (InPlace.value source fuel j) :=
              .of_skip hskip (At.value hj (skipSeparators_start hskip))
            refine (hvalue.imp (fun stop hstop => hstop.imp ?_) fun _ h => h).bind ?_
            · exact fun failure hfailure f forms start outer hwithin =>
                hfailure f _ (hawaits f forms start outer hwithin)
            · rintro ⟨item, stop⟩ ⟨rest', hrest, hread⟩
              have hall : ∀ f forms start outer, StepsWithin f →
                  readWith f ⟨forms, ⟨bracket, start, before⟩ :: outer⟩ s =
                    readWith f ⟨forms, ⟨bracket, start, item :: before⟩ :: outer⟩ rest' :=
                fun f forms start outer hwithin =>
                  hread f _ (hawaits f forms start outer hwithin)
              refine (At.items hrest).imp (fun stop hstop => hstop.imp ?_) ?_
              · intro failure hfailure f forms start outer hwithin
                rw [hall f forms start outer hwithin]
                exact hfailure f forms start outer hwithin
              · rintro found ⟨rest'', hrest', hread'⟩
                refine ⟨rest'', hrest', fun f forms start outer hwithin => ?_⟩
                rw [hall f forms start outer hwithin]
                exact hread' f forms start outer hwithin

end

/-- Every form up to the end is read in place as the tokens are. -/
theorem At.forms
    {before : List Value}
    (h : At source i s) :
    Ends
      (StopsAt source fun failure => readWith step ⟨before, []⟩ s >>= finish = .error failure)
      (fun values => readWith step ⟨before, []⟩ s >>= finish = .ok values)
      (forms source fuel i before) := by
  induction fuel generalizing i s before with
  | zero => exact .error .exhausted
  | succ fuel ih =>
      rw [InPlace.forms]
      refine h.skip.bind fun j hj => ?_
      cases hskip : skipSeparators s with
      | nil =>
          rw [hskip] at hj
          rw [if_pos (peek?_eq_none_iff.1 hj.peek?_nil), readWith_nil hskip]
          exact .ok rfl
      | cons c rest =>
          rw [hskip] at hj
          have hawaits := awaits_step before c
          have hvalue : ReadsForm source s c (InPlace.value source fuel j) :=
            .of_skip hskip (hj.value (skipSeparators_start hskip))
          rw [if_neg (Nat.not_le.2 (lt_of_peek? hj.peek?_cons))]
          refine (hvalue.imp (fun stop hstop => hstop.imp ?_) fun _ h => h).bind ?_
          · exact fun failure hfailure => hfailure step _ hawaits
          · rintro ⟨form, stop⟩ ⟨rest', hrest, hread⟩
            rw [hread step _ hawaits]
            exact ih hrest

section Texts

variable (source : String)

/-- A reader that does not run out of steps, and stops where the tokens fail, gives what the tokens
give. -/
theorem eq_mapError
    {α : Type} {read : Except Stop α} {tokens : Except ReadFailure α}
    (hsteps : Ends (StopsWithin source) (fun _ => True) read)
    (hread : Ends (StopsAt source fun failure => tokens = .error failure)
      (fun found => tokens = .ok found) read) :
    read = (tokens.mapError (·.locate source.toList)).mapError fun e => .reported e.notice := by
  cases hread with
  | ok h => rw [h]; rfl
  | error h =>
      cases h with
      | reported h => rw [h]; rfl
      | exhausted =>
          cases hsteps with
          | error h => cases h

/-- All forms of a text are read in place as they are read from its tokens. -/
theorem readAll_eq :
    readAll source = (Value.readAll source).mapError fun e => .reported e.notice :=
  eq_mapError source (ends_readAll source) (at_zero source).forms

theorem form_eq_bind
    (s : List Char) :
    Token.form (Token.ofText s) =
      (readWith stepWithinForm start s >>= finish) >>= fun forms =>
        match forms with
        | form :: _ => .ok form
        | [] => .error ⟨.unexpectedEnd, []⟩ := by
  rw [bind_assoc]
  rfl

/-- What a text starts with: no form, or a form, from which its tokens go on. -/
def StartsWith (source : String) : Option Value × Nat → Prop
  | (none, i) => At source i [] ∧ skipSeparators source.toList = []
  | (some form, i) =>
      ∃ rest, At source i (skipSeparators rest) ∧ ∀ f, Begins f →
        readWith f start source.toList = readWith f ⟨[form], []⟩ rest

/-- The first form is read in place as its tokens are, whatever is done with what follows. -/
theorem ends_first_form :
    Ends
      (StopsAt source fun failure => ∀ f, Begins f →
        readWith f start source.toList >>= finish = .error failure)
      (StartsWith source) (first source) := by
  refine (at_zero source).skip.bind fun i hi => ?_
  cases hskip : skipSeparators source.toList with
  | nil =>
      rw [hskip] at hi
      rw [if_pos (peek?_eq_none_iff.1 hi.peek?_nil)]
      exact .ok ⟨hi, hskip⟩
  | cons c rest =>
      rw [hskip] at hi
      have hvalue : ReadsForm source source.toList c
          (InPlace.value source (allowance source) i) :=
        .of_skip hskip (hi.value (skipSeparators_start hskip))
      rw [if_neg (Nat.not_le.2 (lt_of_peek? hi.peek?_cons))]
      refine (hvalue.imp (fun stop hstop => hstop.imp ?_) fun _ h => h).bind ?_
      · exact fun failure hfailure f hf => hfailure f start (hf.awaits c)
      · rintro ⟨form, stop⟩ ⟨rest', hrest, hread⟩
        refine hrest.skip.bind fun j hj => .ok ⟨rest', hj, fun f hf => ?_⟩
        exact hread f start (hf.awaits c)

/-- A single form is read in place as the tokens are. -/
theorem ends_read_form :
    Ends (StopsAt source fun failure => Token.form (Token.ofText source.toList) = .error failure)
      (fun form => Token.form (Token.ofText source.toList) = .ok form) (read source) := by
  rw [form_eq_bind]
  refine ((ends_first_form source).imp (fun stop hstop => hstop.imp ?_) fun _ h => h).bind ?_
  · intro failure hfailure
    rw [hfailure _ begins_stepWithinForm]
    rfl
  · rintro ⟨_ | form, i⟩ hstart
    · obtain ⟨hi, hskip⟩ := hstart
      refine hi.report .unexpectedEnd rfl ?_
      rw [readWith_nil hskip]
      rfl
    · obtain ⟨rest, hi, hread⟩ := hstart
      rw [hread _ begins_stepWithinForm]
      dsimp only
      cases hskip : skipSeparators rest with
      | nil =>
          rw [hskip] at hi
          rw [if_neg (Nat.not_lt.2 (peek?_eq_none_iff.1 hi.peek?_nil)), readWith_nil hskip]
          exact .ok rfl
      | cons c rest' =>
          rw [hskip] at hi
          rw [if_pos (lt_of_peek? hi.peek?_cons), readWith_eq_bind hskip]
          exact hi.report .trailingInput rfl rfl

/-- A text of one form is read in place as it is read from its tokens. -/
theorem read_eq :
    read source = (Value.read source).mapError fun e => .reported e.notice :=
  eq_mapError source (ends_read source) (ends_read_form source)

end Texts

end InPlace
end TaskTree
