import Mathlib.Data.List.Forall2

/-!
# Computations that may fail

A sequence of steps succeeds when every step does, and fails as the first step that
does not.  Two computations correspond when both succeed with related results or
both fail with related errors.

**Results.**
* `mapM_eq_ok_iff`, `mapM_eq_error_iff`: a sequence of steps gives what they give, or fails as the
  first of them that fails.
* `Corresponds.bind`, `Corresponds.mapM`: corresponding steps make corresponding computations.
* `Ends.bind`, `Ends.foldlM`: what a computation gives and how it fails, from what its steps do.
-/

namespace TaskTree

section Except

variable {ε ε' α β : Type}

/-- Peels the first step off a computation that succeeds. -/
theorem ok_of_bind_eq_ok
    {x : Except ε α} {f : α → Except ε β} {b : β}
    (h : x >>= f = .ok b) :
    ∃ a, x = .ok a ∧ f a = .ok b := by
  cases x with
  | error e => cases h
  | ok a => exact ⟨a, rfl, h⟩

@[simp] theorem ok_bind_eq
    (a : α) (f : α → Except ε β) :
    (Except.ok a >>= f) = f a := by
  rfl

/-- A computation of two steps fails as its first step, or as its second. -/
theorem bind_eq_error_iff
    {x : Except ε α} {f : α → Except ε β} {e : ε} :
    x >>= f = .error e ↔ x = .error e ∨ ∃ a, x = .ok a ∧ f a = .error e := by
  cases x with
  | error e' =>
      constructor
      · rintro ⟨⟩
        exact .inl rfl
      · rintro (⟨⟨⟩⟩ | ⟨a, ⟨⟩, -⟩)
        rfl
  | ok a =>
      constructor
      · exact fun h => .inr ⟨a, rfl, h⟩
      · rintro (⟨⟨⟩⟩ | ⟨a, ⟨⟩, h⟩)
        exact h

theorem mapError_eq_error_iff
    {x : Except ε α} {f : ε → ε'} {e : ε'} :
    x.mapError f = .error e ↔ ∃ e', x = .error e' ∧ f e' = e := by
  cases x with
  | error e' =>
      constructor
      · rintro ⟨⟩
        exact ⟨e', rfl, rfl⟩
      · rintro ⟨_, ⟨⟩, rfl⟩
        rfl
  | ok a => exact ⟨nofun, nofun⟩

/-- Other errors leave success as it is. -/
theorem mapError_eq_ok_iff
    {x : Except ε α} {f : ε → ε'} {a : α} :
    x.mapError f = .ok a ↔ x = .ok a := by
  cases x with
  | error e => exact ⟨nofun, nofun⟩
  | ok a =>
      constructor
      · rintro ⟨⟩
        rfl
      · rintro ⟨⟩
        rfl

/-- A sequence of steps gives what they give, one after the other. -/
theorem mapM_eq_ok_iff
    {f : α → Except ε β} {l : List α} {bs : List β} :
    l.mapM f = .ok bs ↔ List.Forall₂ (fun a b => f a = .ok b) l bs := by
  induction l generalizing bs with
  | nil =>
      rw [List.mapM_nil, List.forall₂_nil_left_iff]
      constructor
      · rintro ⟨⟩
        rfl
      · rintro rfl
        rfl
  | cons a l ih =>
      rw [List.mapM_cons]
      constructor
      · intro h
        obtain ⟨b, ha, h⟩ := ok_of_bind_eq_ok h
        obtain ⟨bs, hl, h⟩ := ok_of_bind_eq_ok h
        cases h
        exact .cons ha (ih.1 hl)
      · rintro (_ | ⟨ha, hl⟩)
        rw [ha, ok_bind_eq, ih.2 hl]
        rfl

/-- A sequence of steps succeeds when every step does. -/
theorem exists_mapM_iff
    {f : α → Except ε β} {l : List α} :
    (∃ bs, l.mapM f = .ok bs) ↔ ∀ a ∈ l, ∃ b, f a = .ok b := by
  simp only [mapM_eq_ok_iff]
  induction l with
  | nil => exact ⟨fun _ => List.forall_mem_nil _, fun _ => ⟨[], .nil⟩⟩
  | cons a l ih =>
      rw [List.forall_mem_cons, ← ih]
      constructor
      · rintro ⟨_, _ | ⟨ha, hl⟩⟩
        exact ⟨⟨_, ha⟩, _, hl⟩
      · rintro ⟨⟨b, ha⟩, bs, hl⟩
        exact ⟨b :: bs, .cons ha hl⟩

/-- A sequence of steps fails as the first of them that fails. -/
theorem mapM_eq_error_iff
    {f : α → Except ε β} {l : List α} {e : ε} :
    l.mapM f = .error e ↔
      ∃ before a after, l = before ++ a :: after ∧ (∀ a' ∈ before, ∃ b, f a' = .ok b) ∧
        f a = .error e := by
  induction l with
  | nil => simp [pure, Except.pure]
  | cons a l ih =>
      rw [List.mapM_cons]
      constructor
      · intro h
        cases ha : f a with
        | error e' =>
            rw [ha] at h
            cases h
            exact ⟨[], a, l, rfl, by simp, ha⟩
        | ok b =>
            rw [ha, ok_bind_eq] at h
            cases hl : l.mapM f with
            | ok bs =>
                rw [hl] at h
                cases h
            | error e' =>
                rw [hl] at h
                cases h
                obtain ⟨before, a', after, rfl, hbefore, ha'⟩ := ih.1 hl
                exact ⟨a :: before, a', after, rfl, List.forall_mem_cons.2 ⟨⟨b, ha⟩, hbefore⟩, ha'⟩
      · rintro ⟨before, a', after, hsplit, hbefore, ha'⟩
        cases before with
        | nil =>
            obtain ⟨rfl, rfl⟩ := List.cons.inj hsplit
            rw [ha']
            rfl
        | cons a'' before =>
            obtain ⟨rfl, rfl⟩ := List.cons.inj hsplit
            obtain ⟨⟨b, hb⟩, hbefore⟩ := List.forall_mem_cons.1 hbefore
            rw [hb, ok_bind_eq, ih.2 ⟨before, a', after, rfl, hbefore, ha'⟩]
            rfl

end Except

/-- Both computations succeed with related results, or both fail with related errors. -/
inductive Corresponds {ε α β : Type} (E : ε → ε → Prop) (R : α → β → Prop) :
    Except ε α → Except ε β → Prop
  | ok {a : α} {b : β} (related : R a b) : Corresponds E R (.ok a) (.ok b)
  | error {e e' : ε} (related : E e e') : Corresponds E R (.error e) (.error e')

namespace Corresponds

variable {ε α β γ δ : Type} {E : ε → ε → Prop} {R : α → β → Prop} {S : γ → δ → Prop}

theorem refl
    (x : Except ε α) :
    Corresponds Eq Eq x x := by
  cases x with
  | ok a => exact .ok rfl
  | error e => exact .error rfl

theorem bind
    {x : Except ε α} {y : Except ε β} {f : α → Except ε γ} {g : β → Except ε δ}
    (h : Corresponds E R x y)
    (hnext : ∀ a b, R a b → Corresponds E S (f a) (g b)) :
    Corresponds E S (x >>= f) (y >>= g) := by
  cases h with
  | ok related => exact hnext _ _ related
  | error related => exact .error related

theorem map
    {x : Except ε α} {y : Except ε β} {f : α → γ} {g : β → δ}
    (h : Corresponds E R x y)
    (hnext : ∀ a b, R a b → S (f a) (g b)) :
    Corresponds E S (x.map f) (y.map g) := by
  cases h with
  | ok related => exact .ok (hnext _ _ related)
  | error related => exact .error related

theorem eq_error
    {x : Except ε α} {e : ε}
    (h : Corresponds Eq R x (.error e)) :
    x = .error e := by
  cases h with
  | error related => rw [related]

/-- The second computation goes on without failing. -/
theorem and_then
    {x : Except ε α} {y : Except ε β} {R' : α → δ → Prop} {g : β → δ}
    (h : Corresponds E R x y)
    (hnext : ∀ a b, R a b → R' a (g b)) :
    Corresponds E R' x (y >>= fun b => pure (g b)) := by
  cases h with
  | ok related => exact .ok (hnext _ _ related)
  | error related => exact .error related

/-- Two computations that correspond go on to corresponding ones, each with the same errors. -/
theorem square
    {x : Except ε α} {y : Except ε β} {x' : Except ε γ} {y' : Except ε δ}
    {F : α → γ → Prop} {G : β → δ → Prop}
    (h : Corresponds E R x y)
    (hx : Corresponds Eq F x x')
    (hy : Corresponds Eq G y y')
    (hnext : ∀ a b, R a b → ∀ c d, F a c → G b d → S c d) :
    Corresponds E S x' y' := by
  cases h with
  | ok related =>
      cases hx with
      | ok hc =>
          cases hy with
          | ok hd => exact .ok (hnext _ _ related _ _ hc hd)
  | error related =>
      cases hx with
      | error hx =>
          cases hy with
          | error hy => exact .error (hx ▸ hy ▸ related)

theorem symm
    {x : Except ε α} {y : Except ε β}
    (h : Corresponds E R x y) :
    Corresponds (fun e e' => E e' e) (fun b a => R a b) y x := by
  cases h with
  | ok related => exact .ok related
  | error related => exact .error related

theorem trans
    {x : Except ε α} {y : Except ε β} {z : Except ε γ}
    {E' E'' : ε → ε → Prop} {R' : β → γ → Prop} {R'' : α → γ → Prop}
    (h : Corresponds E R x y)
    (h' : Corresponds E' R' y z)
    (herror : ∀ {a b c}, E a b → E' b c → E'' a c)
    (hok : ∀ {a b c}, R a b → R' b c → R'' a c) :
    Corresponds E'' R'' x z := by
  cases h with
  | ok related =>
      cases h' with
      | ok related' => exact .ok (hok related related')
  | error related =>
      cases h' with
      | error related' => exact .error (herror related related')

theorem mapM
    {f : γ → Except ε α} {g : δ → Except ε β} {l : List γ} {l' : List δ}
    (h : List.Forall₂ (fun c d => Corresponds E R (f c) (g d)) l l') :
    Corresponds E (List.Forall₂ R) (l.mapM f) (l'.mapM g) := by
  induction h with
  | nil => exact .ok .nil
  | cons hhead _ ih =>
      rw [List.mapM_cons, List.mapM_cons]
      exact hhead.bind fun a b hab => ih.bind fun as bs habs => .ok (.cons hab habs)

end Corresponds

/-- The computation succeeds with a result that has one property, or fails with an error that has
the other. -/
inductive Ends {ε α : Type} (E : ε → Prop) (P : α → Prop) : Except ε α → Prop
  | ok {a : α} (h : P a) : Ends E P (.ok a)
  | error {e : ε} (h : E e) : Ends E P (.error e)

namespace Ends

variable {ε α β : Type} {E E' : ε → Prop} {P P' : α → Prop} {Q : β → Prop}

theorem bind
    {x : Except ε α} {f : α → Except ε β}
    (h : Ends E P x)
    (hnext : ∀ a, P a → Ends E Q (f a)) :
    Ends E Q (x >>= f) := by
  cases h with
  | ok h => exact hnext _ h
  | error h => exact .error h

theorem of_cases
    {x : Except ε α}
    (hok : ∀ a, x = .ok a → P a)
    (herror : ∀ e, x = .error e → E e) :
    Ends E P x := by
  cases x with
  | ok a => exact .ok (hok a rfl)
  | error e => exact .error (herror e rfl)

/-- What every step keeps is kept by a sequence of steps, which fails as one of them does. -/
theorem foldlM
    {f : β → α → Except ε β} {as : List α} {b : β}
    (h : Q b)
    (hstep : ∀ b a, Q b → a ∈ as → Ends E Q (f b a)) :
    Ends E Q (as.foldlM f b) := by
  induction as generalizing b with
  | nil => exact .ok h
  | cons a as ih =>
      rw [List.foldlM_cons]
      refine (hstep b a h List.mem_cons_self).bind fun next hnext => ih hnext ?_
      exact fun b a' hb ha' => hstep b a' hb (List.mem_cons_of_mem a ha')

theorem imp
    {x : Except ε α}
    (h : Ends E P x)
    (herror : ∀ e, E e → E' e)
    (hok : ∀ a, P a → P' a) :
    Ends E' P' x := by
  cases h with
  | ok h => exact .ok (hok _ h)
  | error h => exact .error (herror _ h)

/-- What cannot fail succeeds. -/
theorem exists_ok
    {x : Except ε α}
    (h : Ends (fun _ => False) P x) :
    ∃ a, x = .ok a ∧ P a := by
  cases h with
  | ok h => exact ⟨_, rfl, h⟩
  | error h => exact h.elim

theorem of_eq_ok
    {x : Except ε α} {a : α}
    (h : Ends E P x)
    (hx : x = .ok a) :
    P a := by
  subst hx
  cases h with
  | ok h => exact h

theorem of_eq_error
    {x : Except ε α} {e : ε}
    (h : Ends E P x)
    (hx : x = .error e) :
    E e := by
  subst hx
  cases h with
  | error h => exact h

end Ends

end TaskTree
