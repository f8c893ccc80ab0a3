import Mathlib.Data.Fintype.EquivFin
import Mathlib.Data.List.Forall2
import TaskTree.Proofs.Decimal.NaN
import TaskTree.Proofs.Source.Reading

/-!
# Equality of values is an equivalence

The equality of maps looks from one side only: as many entries, and each of the
first found in the second.  That it is an equivalence all the same holds as long
as no map has equal keys, and no floating-point number is none.  The keys that are
looked up may be maps again, so the three laws are proved together, for values
whose parts satisfy them already; for symmetry, entries that are matched one to
one and are equally many are all matched.

**Results.**
* `Value.beq_iff_alike`: equal values have the same shape and equal parts.
* `Value.equivalenceOn_regular`: equality of values is an equivalence.
* `Entries.get?_eq_some_iff`: a look-up finds the entry whose key is equal, wherever it stands.
* `Value.beq_laws`: the laws of equality, and equality of maps by what is found in them.
-/

namespace TaskTree

/-- A decided relation is an equivalence on the elements with a property. -/
structure EquivalenceOn {α : Type} (S : α → Prop) (r : α → α → Bool) : Prop where
  refl : ∀ {a}, S a → r a a = true
  symm : ∀ {a b}, S a → S b → r a b = true → r b a = true
  trans : ∀ {a b c}, S a → S b → S c → r a b = true → r b c = true → r a c = true

theorem EquivalenceOn.mono
    {α : Type} {S T : α → Prop} {r : α → α → Bool}
    (h : EquivalenceOn T r)
    (hsub : ∀ a, S a → T a) :
    EquivalenceOn S r where
  refl ha := h.refl (hsub _ ha)
  symm ha hb := h.symm (hsub _ ha) (hsub _ hb)
  trans ha hb hc := h.trans (hsub _ ha) (hsub _ hb) (hsub _ hc)

/-- Every entry is found in the store: what it has under the key is equal to the value. -/
def Entries.FoundIn (entries store : Entries) : Prop :=
  ∀ e ∈ entries, ∃ found, store.get? e.1 = some found ∧ (found == e.2) = true

namespace Value

/-- A floating-point number is some number. -/
def SomeNumber : Value → Prop
  | .float number => number.isNaN = false
  | _ => True

/-- At every depth, floating-point numbers are some number and no map has equal keys. -/
def Regular (value : Value) : Prop :=
  value.Everywhere fun v => v.SomeNumber ∧ v.DistinctKeys

section Shape

theorem itemsEqual_iff
    {as bs : List Value} :
    itemsEqual as bs = true ↔ List.Forall₂ (fun a b => (a == b) = true) as bs := by
  induction as generalizing bs with
  | nil => cases bs <;> simp [itemsEqual]
  | cons a as ih => cases bs <;> simp [itemsEqual, ih, BEq.beq]

theorem finds_iff
    {store : Entries} {key value : Value} :
    finds store key value = true ↔
      ∃ found, store.get? key = some found ∧ (found == value) = true := by
  induction store with
  | nil => simp [finds, Entries.get?]
  | cons entry store ih =>
      rcases entry with ⟨key', value'⟩
      by_cases hkey : key'.equals key = true
      · simp [finds, Entries.get?, BEq.beq, hkey]
      · simpa [finds, Entries.get?, BEq.beq, hkey] using ih

theorem storedIn_iff
    {store entries : Entries} :
    storedIn store entries = true ↔ entries.FoundIn store := by
  induction entries with
  | nil => simp [storedIn, Entries.FoundIn]
  | cons entry entries ih =>
      rcases entry with ⟨key, value⟩
      rw [storedIn, Bool.and_eq_true, finds_iff, ih, Entries.FoundIn, Entries.FoundIn,
        List.forall_mem_cons]

/-- Two values have the same shape and equal parts. -/
inductive Alike : Value → Value → Prop
  | nil : Alike .nil .nil
  | boolean (flag : Bool) : Alike (.boolean flag) (.boolean flag)
  | integer (number : Int64) : Alike (.integer number) (.integer number)
  | float {a b : Float} (same : (a == b) = true) : Alike (.float a) (.float b)
  | string (text : String) : Alike (.string text) (.string text)
  | symbol (name : String) : Alike (.symbol name) (.symbol name)
  | keyword (name : String) : Alike (.keyword name) (.keyword name)
  | list
      {as bs : List Value}
      (items : List.Forall₂ (fun a b => (a == b) = true) as bs) :
      Alike (.list as) (.list bs)
  | vector
      {as bs : List Value}
      (items : List.Forall₂ (fun a b => (a == b) = true) as bs) :
      Alike (.vector as) (.vector bs)
  | map
      {a b : Entries}
      (length : a.length = b.length)
      (found : a.FoundIn b) :
      Alike (.map a) (.map b)

/-- Equal values are those of the same shape with equal parts. -/
theorem beq_iff_alike
    {v w : Value} :
    (v == w) = true ↔ Alike v w := by
  change v.equals w = true ↔ Alike v w
  constructor
  · intro h
    cases v <;> cases w <;>
      simp only [equals, Bool.false_eq_true, beq_iff_eq, Bool.and_eq_true, itemsEqual_iff,
        storedIn_iff] at h
    case float.float => exact .float h
    case list.list => exact .list h
    case vector.vector => exact .vector h
    case map.map => exact .map h.1 h.2
    all_goals first | exact .nil | (subst h; constructor)
  · intro h
    cases h <;> simp_all [equals, itemsEqual_iff, storedIn_iff]

end Shape

end Value

/-- If every element of a list is matched in another, and no two with the same element, then the
other has at least as many; and if it has no more, then all of its elements are matched. -/
theorem matched_of_length_le
    {α : Type} {r : α → α → Prop} {a b : List α}
    (hmatch : ∀ x ∈ a, ∃ y ∈ b, r x y)
    (hone : a.Pairwise fun x x' => ∀ y, r x y → ¬ r x' y) :
    a.length ≤ b.length ∧ (b.length ≤ a.length → ∀ y ∈ b, ∃ x ∈ a, r x y) := by
  have hindex : ∀ i : Fin a.length, ∃ j : Fin b.length, r (a.get i) (b.get j) := by
    intro i
    obtain ⟨y, hy, hr⟩ := hmatch (a.get i) (List.get_mem a i)
    obtain ⟨j, rfl⟩ := List.get_of_mem hy
    exact ⟨j, hr⟩
  choose f hf using hindex
  have hinjective : f.Injective := by
    intro i i' heq
    rcases lt_trichotomy i i' with hlt | rfl | hlt
    · exact absurd (heq ▸ hf i') (List.pairwise_iff_get.1 hone i i' hlt _ (hf i))
    · rfl
    · exact absurd (heq ▸ hf i) (List.pairwise_iff_get.1 hone i' i hlt _ (hf i'))
  have hle : a.length ≤ b.length := by
    simpa using Fintype.card_le_of_injective f hinjective
  refine ⟨hle, fun hge y hy => ?_⟩
  -- an injection between as many indices is onto
  have hsurjective : f.Surjective :=
    (Finite.injective_iff_surjective_of_equiv (finCongr (hle.antisymm hge))).1 hinjective
  obtain ⟨j, rfl⟩ := List.get_of_mem hy
  obtain ⟨i, rfl⟩ := hsurjective j
  exact ⟨a.get i, List.get_mem a i, hf i⟩

theorem optionRel_iff
    {α β : Type} {r : α → β → Prop} {x : Option α} {y : Option β} :
    Option.Rel r x y ↔
      (∀ v, x = some v → ∃ w, y = some w ∧ r v w) ∧ ∀ w, y = some w → ∃ v, x = some v ∧ r v w := by
  cases x <;> cases y <;> simp

namespace Entries

theorem exists_of_get?_eq_some
    {entries : Entries} {key value : Value}
    (h : entries.get? key = some value) :
    ∃ key', (key', value) ∈ entries ∧ (key' == key) = true := by
  induction entries with
  | nil => cases h
  | cons e entries ih =>
      by_cases hkey : (e.1 == key) = true
      · rw [get?, if_pos hkey] at h
        cases h
        exact ⟨e.1, List.mem_cons_self, hkey⟩
      · rw [get?, if_neg hkey] at h
        obtain ⟨key', hmem, hequal⟩ := ih h
        exact ⟨key', List.mem_cons_of_mem _ hmem, hequal⟩

theorem of_get?_eq_some
    {S : Value → Prop} {entries : Entries} {key value : Value}
    (hentries : ∀ e ∈ entries, S e.1 ∧ S e.2)
    (h : entries.get? key = some value) :
    S value := by
  obtain ⟨k, hmem, -⟩ := exists_of_get?_eq_some h
  exact (hentries _ hmem).2

/-- An entry that has been found: an entry with an equal key and an equal value. -/
theorem FoundIn.matched
    {a b : Entries}
    (hab : a.FoundIn b) :
    ∀ e ∈ a, ∃ e' ∈ b, (e'.1 == e.1) = true ∧ (e'.2 == e.2) = true := by
  intro e he
  obtain ⟨v, hget, hvalue⟩ := hab e he
  obtain ⟨k, hmem, hkey⟩ := exists_of_get?_eq_some hget
  exact ⟨(k, v), hmem, hkey, hvalue⟩

section Equivalence

variable {S : Value → Prop} (h : EquivalenceOn S (· == ·))
include h

/-- Equal keys find the same. -/
theorem get?_congr
    {entries : Entries} {key key' : Value}
    (hentries : ∀ e ∈ entries, S e.1 ∧ S e.2)
    (hkey : S key)
    (hkey' : S key')
    (hequal : (key == key') = true) :
    entries.get? key = entries.get? key' := by
  induction entries with
  | nil => rfl
  | cons e entries ih =>
      obtain ⟨⟨he, -⟩, hentries⟩ := List.forall_mem_cons.1 hentries
      have hsame : (e.1 == key) = (e.1 == key') := by
        rw [Bool.eq_iff_iff]
        exact ⟨fun hhead => h.trans he hkey hkey' hhead hequal,
          fun hhead => h.trans he hkey' hkey hhead (h.symm hkey hkey' hequal)⟩
      simp only [get?, hsame, ih hentries]

/-- What is found under a key is the value of the entry with an equal key. -/
theorem get?_eq_some_iff
    {entries : Entries} {key value : Value}
    (hentries : ∀ e ∈ entries, S e.1 ∧ S e.2)
    (hdistinct : Distinct entries)
    (hkey : S key) :
    entries.get? key = some value ↔ ∃ key', (key', value) ∈ entries ∧ (key' == key) = true := by
  refine ⟨exists_of_get?_eq_some, ?_⟩
  rintro ⟨key', hmem, hequal⟩
  induction entries with
  | nil => cases hmem
  | cons e entries ih =>
      obtain ⟨⟨he, -⟩, hentries⟩ := List.forall_mem_cons.1 hentries
      obtain ⟨hhead, hdistinct⟩ := List.pairwise_cons.1 hdistinct
      rcases List.mem_cons.1 hmem with rfl | hmem
      · rw [get?, if_pos hequal]
      · have hlater : (e.1 == key') = false := hhead key' (List.mem_map_of_mem hmem)
        -- an earlier entry with an equal key would equal this one
        have hother : ¬ (e.1 == key) = true := by
          intro hfirst
          have hback := h.symm (hentries _ hmem).1 hkey hequal
          rw [h.trans he hkey (hentries _ hmem).1 hfirst hback] at hlater
          cases hlater
        rw [get?, if_neg hother]
        exact ih hentries hdistinct hmem

variable {a b c : Entries}

theorem get?_self
    (ha : ∀ e ∈ a, S e.1 ∧ S e.2)
    (hdistinct : Distinct a)
    {e : Value × Value}
    (he : e ∈ a) :
    a.get? e.1 = some e.2 :=
  (get?_eq_some_iff h ha hdistinct (ha e he).1).2 ⟨e.1, he, h.refl (ha e he).1⟩

theorem foundIn_self
    (ha : ∀ e ∈ a, S e.1 ∧ S e.2)
    (hdistinct : Distinct a) :
    a.FoundIn a :=
  fun e he => ⟨e.2, get?_self h ha hdistinct he, h.refl (ha e he).2⟩

theorem FoundIn.trans
    (ha : ∀ e ∈ a, S e.1 ∧ S e.2)
    (hb : ∀ e ∈ b, S e.1 ∧ S e.2)
    (hc : ∀ e ∈ c, S e.1 ∧ S e.2)
    (hab : a.FoundIn b)
    (hbc : b.FoundIn c) :
    a.FoundIn c := by
  intro e he
  obtain ⟨v, hget, hvalue⟩ := hab e he
  obtain ⟨k, hmem, hkey⟩ := exists_of_get?_eq_some hget
  obtain ⟨v', hget', hvalue'⟩ := hbc (k, v) hmem
  obtain ⟨k', hmem', -⟩ := exists_of_get?_eq_some hget'
  have hsame := get?_congr h hc (hb _ hmem).1 (ha e he).1 hkey
  exact ⟨v', hsame ▸ hget', h.trans (hc _ hmem').2 (hb _ hmem).2 (ha e he).2 hvalue' hvalue⟩

/-- The entries of a map are found in another exactly when the other has an equal value under every
key under which the map has a value. -/
theorem foundIn_iff_get?
    (ha : ∀ e ∈ a, S e.1 ∧ S e.2)
    (hb : ∀ e ∈ b, S e.1 ∧ S e.2)
    (hdistinct : Distinct a) :
    a.FoundIn b ↔ ∀ key value, S key → a.get? key = some value →
      ∃ found, b.get? key = some found ∧ (found == value) = true := by
  constructor
  · intro hab key value hkey hget
    obtain ⟨k, hmem, hequal⟩ := exists_of_get?_eq_some hget
    obtain ⟨found, hfound, hvalue⟩ := hab (k, value) hmem
    exact ⟨found, get?_congr h hb (ha _ hmem).1 hkey hequal ▸ hfound, hvalue⟩
  · intro hget e he
    exact hget e.1 e.2 (ha e he).1 (get?_self h ha hdistinct he)

/-- Entries without equal keys that are found in a map are no more than it has, and if it has no
more, its entries are found among them. -/
theorem FoundIn.length_le_and_symm
    (ha : ∀ e ∈ a, S e.1 ∧ S e.2)
    (hb : ∀ e ∈ b, S e.1 ∧ S e.2)
    (hdistinct : Distinct a)
    (hab : a.FoundIn b) :
    a.length ≤ b.length ∧ (b.length ≤ a.length → b.FoundIn a) := by
  have hmatch : ∀ e ∈ a, ∃ e' ∈ b, e' ∈ b ∧ (e'.1 == e.1) = true ∧ (e'.2 == e.2) = true :=
    fun e he => (hab.matched e he).imp fun e' he' => ⟨he'.1, he'⟩
  have hone : a.Pairwise fun e₁ e₂ => ∀ e',
      e' ∈ b ∧ (e'.1 == e₁.1) = true ∧ (e'.2 == e₁.2) = true →
        ¬ (e' ∈ b ∧ (e'.1 == e₂.1) = true ∧ (e'.2 == e₂.2) = true) := by
    refine List.Pairwise.imp_of_mem ?_ (List.pairwise_map.1 hdistinct)
    -- entries that are matched with the same one have equal keys
    rintro e₁ e₂ he₁ he₂ hne e' ⟨he', hkey₁, -⟩ ⟨-, hkey₂, -⟩
    have hback := h.symm (hb e' he').1 (ha e₁ he₁).1 hkey₁
    rw [h.trans (ha e₁ he₁).1 (hb e' he').1 (ha e₂ he₂).1 hback hkey₂] at hne
    cases hne
  obtain ⟨hle, hall⟩ := matched_of_length_le hmatch hone
  refine ⟨hle, fun hge e' he' => ?_⟩
  obtain ⟨e, he, -, hkey, hvalue⟩ := hall hge e' he'
  have hback := h.symm (hb e' he').1 (ha e he).1 hkey
  have hget := (get?_eq_some_iff h ha hdistinct (hb e' he').1).2 ⟨e.1, he, hback⟩
  exact ⟨e.2, hget, h.symm (hb e' he').2 (ha e he).2 hvalue⟩

/-- Two maps are equal when the entries of each are found in the other. -/
theorem equals_iff_foundIn
    (ha : ∀ e ∈ a, S e.1 ∧ S e.2)
    (hb : ∀ e ∈ b, S e.1 ∧ S e.2)
    (hdistinct : Distinct a)
    (hdistinct' : Distinct b) :
    a.equals b = true ↔ a.FoundIn b ∧ b.FoundIn a := by
  rw [equals, Value.beq_iff_alike]
  constructor
  · rintro ⟨⟩
    next hlength hab =>
    exact ⟨hab, (hab.length_le_and_symm h ha hb hdistinct).2 hlength.ge⟩
  · rintro ⟨hab, hba⟩
    have hle := (hab.length_le_and_symm h ha hb hdistinct).1
    have hge := (hba.length_le_and_symm h hb ha hdistinct').1
    exact .map (hle.antisymm hge) hab

/-- Two maps are equal when the same is found under every key. -/
theorem equals_iff_get?
    (ha : ∀ e ∈ a, S e.1 ∧ S e.2)
    (hb : ∀ e ∈ b, S e.1 ∧ S e.2)
    (hdistinct : Distinct a)
    (hdistinct' : Distinct b) :
    a.equals b = true ↔
      ∀ key, S key → Option.Rel (fun v w => (v == w) = true) (a.get? key) (b.get? key) := by
  rw [equals_iff_foundIn h ha hb hdistinct hdistinct', foundIn_iff_get? h ha hb hdistinct,
    foundIn_iff_get? h hb ha hdistinct']
  constructor
  · rintro ⟨hab, hba⟩ key hkey
    refine optionRel_iff.2 ⟨fun v hv => ?_, fun w hw => hba key w hkey hw⟩
    obtain ⟨w, hw, hequal⟩ := hab key v hkey hv
    exact ⟨w, hw, h.symm (of_get?_eq_some hb hw) (of_get?_eq_some ha hv) hequal⟩
  · intro hrel
    refine ⟨fun key v hkey hv => ?_, fun key w hkey hw => (optionRel_iff.1 (hrel key hkey)).2 w hw⟩
    obtain ⟨w, hw, hequal⟩ := (optionRel_iff.1 (hrel key hkey)).1 v hv
    exact ⟨w, hw, h.symm (of_get?_eq_some ha hv) (of_get?_eq_some hb hw) hequal⟩

/-- Distinct keys are unequal, whichever is compared with the other. -/
theorem Distinct.unequal
    (ha : ∀ e ∈ a, S e.1 ∧ S e.2)
    (hdistinct : Distinct a) :
    a.keys.Pairwise fun k k' => (k == k') = false ∧ (k' == k) = false := by
  have hkeys : ∀ k ∈ a.keys, S k := List.forall_mem_map.2 fun e he => (ha e he).1
  refine List.Pairwise.imp_of_mem ?_ hdistinct
  intro k k' hk hk' hne
  refine ⟨hne, Bool.eq_false_iff.2 fun hequal => ?_⟩
  rw [h.symm (hkeys k' hk') (hkeys k hk) hequal] at hne
  cases hne

/-- The order of the entries does not matter. -/
theorem equals_of_perm
    (ha : ∀ e ∈ a, S e.1 ∧ S e.2)
    (hdistinct : Distinct a)
    (hperm : a.Perm b) :
    Distinct b ∧ a.equals b = true := by
  have hb : ∀ e ∈ b, S e.1 ∧ S e.2 := fun e he => ha e (hperm.mem_iff.2 he)
  have hdistinct' : Distinct b :=
    ((Distinct.unequal h ha hdistinct).perm (hperm.map Prod.fst) And.symm).imp And.left
  refine ⟨hdistinct', (equals_iff_foundIn h ha hb hdistinct hdistinct').2 ⟨?_, ?_⟩⟩
  · intro e he
    have hget := get?_self h hb hdistinct' (hperm.mem_iff.1 he)
    exact ⟨e.2, hget, h.refl (ha e he).2⟩
  · intro e he
    have hget := get?_self h ha hdistinct (hperm.mem_iff.2 he)
    exact ⟨e.2, hget, h.refl (hb e he).2⟩

end Equivalence

end Entries

namespace Value

/-- A value that is regular itself and whose parts have a property. -/
def Over (S : Value → Prop) (value : Value) : Prop :=
  (value.SomeNumber ∧ value.DistinctKeys) ∧ ∀ part ∈ value.parts, S part

section Equivalence

variable {S : Value → Prop} (h : EquivalenceOn S (· == ·))
include h

theorem items_symm
    {as bs : List Value}
    (ha : ∀ a ∈ as, S a)
    (hb : ∀ b ∈ bs, S b)
    (hitems : List.Forall₂ (fun a b => (a == b) = true) as bs) :
    List.Forall₂ (fun a b => (a == b) = true) bs as := by
  induction hitems with
  | nil => exact .nil
  | cons hhead _ ih =>
      obtain ⟨ha, has⟩ := List.forall_mem_cons.1 ha
      obtain ⟨hb, hbs⟩ := List.forall_mem_cons.1 hb
      exact .cons (h.symm ha hb hhead) (ih has hbs)

theorem items_trans
    {as bs cs : List Value}
    (ha : ∀ a ∈ as, S a)
    (hb : ∀ b ∈ bs, S b)
    (hc : ∀ c ∈ cs, S c)
    (hab : List.Forall₂ (fun a b => (a == b) = true) as bs)
    (hbc : List.Forall₂ (fun a b => (a == b) = true) bs cs) :
    List.Forall₂ (fun a b => (a == b) = true) as cs := by
  induction hab generalizing cs with
  | nil => exact hbc
  | cons hhead _ ih =>
      rcases hbc with _ | ⟨hhead', htail'⟩
      obtain ⟨ha, has⟩ := List.forall_mem_cons.1 ha
      obtain ⟨hb, hbs⟩ := List.forall_mem_cons.1 hb
      obtain ⟨hc, hcs⟩ := List.forall_mem_cons.1 hc
      exact .cons (h.trans ha hb hc hhead hhead') (ih has hbs hcs htail')

/-- If equality is an equivalence on the parts, it is one on the regular values made of them. -/
theorem equivalenceOn_over :
    EquivalenceOn (Over S) (· == ·) where
  refl {a} ha := by
    obtain ⟨⟨hnumber, hdistinct⟩, hparts⟩ := ha
    refine beq_iff_alike.2 ?_
    cases a with
    | float number => exact .float (Number.beq_self hnumber)
    | list items => exact .list (List.forall₂_same.2 fun item hitem => h.refl (hparts item hitem))
    | vector items =>
        exact .vector (List.forall₂_same.2 fun item hitem => h.refl (hparts item hitem))
    | map entries =>
        have hentries := forall_mem_parts_map.1 hparts
        exact .map rfl (Entries.foundIn_self h hentries hdistinct)
    | _ => constructor
  symm {a b} ha hb hab := by
    obtain ⟨⟨-, hdistinct⟩, ha⟩ := ha
    obtain ⟨-, hb⟩ := hb
    refine beq_iff_alike.2 ?_
    cases beq_iff_alike.1 hab with
    | float same => exact .float (Number.beq_symm same)
    | list items => exact .list (items_symm h ha hb items)
    | vector items => exact .vector (items_symm h ha hb items)
    | map length found =>
        have hsymm := found.length_le_and_symm h (forall_mem_parts_map.1 ha)
          (forall_mem_parts_map.1 hb) hdistinct
        exact .map length.symm (hsymm.2 length.ge)
    | _ => constructor
  trans {a b c} ha hb hc hab hbc := by
    obtain ⟨-, ha⟩ := ha
    obtain ⟨-, hb⟩ := hb
    obtain ⟨-, hc⟩ := hc
    refine beq_iff_alike.2 ?_
    cases beq_iff_alike.1 hab with
    | float same =>
        cases beq_iff_alike.1 hbc with
        | float same' => exact .float (Number.beq_trans same same')
    | list items =>
        cases beq_iff_alike.1 hbc with
        | list items' => exact .list (items_trans h ha hb hc items items')
    | vector items =>
        cases beq_iff_alike.1 hbc with
        | vector items' => exact .vector (items_trans h ha hb hc items items')
    | map length found =>
        cases beq_iff_alike.1 hbc with
        | map length' found' =>
            have htrans := found.trans h (forall_mem_parts_map.1 ha) (forall_mem_parts_map.1 hb)
              (forall_mem_parts_map.1 hc) found'
            exact .map (length.trans length') htrans
    | _ => exact beq_iff_alike.1 hbc

end Equivalence

/-- Equality of regular values is an equivalence. -/
theorem equivalenceOn_regular :
    EquivalenceOn Regular (· == ·) := by
  -- the keys of a map are compared with the same equality, so all three laws go up together
  have hsized : ∀ n, EquivalenceOn (fun v : Value => v.Regular ∧ sizeOf v < n) (· == ·) := by
    intro n
    induction n with
    | zero => constructor <;> (intros; omega)
    | succ n ih =>
        refine (equivalenceOn_over ih).mono fun v hv => ?_
        obtain ⟨hhere, hparts⟩ := everywhere_iff.1 hv.1
        refine ⟨hhere, fun part hpart => ⟨hparts part hpart, ?_⟩⟩
        exact lt_of_lt_of_le (sizeOf_lt_of_mem_parts hpart) (Nat.le_of_lt_succ hv.2)
  constructor
  · intro a ha
    exact (hsized _).refl ⟨ha, Nat.lt_succ_self _⟩
  · intro a b ha hb
    exact (hsized (sizeOf a + sizeOf b + 1)).symm ⟨ha, by omega⟩ ⟨hb, by omega⟩
  · intro a b c ha hb hc
    exact (hsized (sizeOf a + sizeOf b + sizeOf c + 1)).trans
      ⟨ha, by omega⟩ ⟨hb, by omega⟩ ⟨hc, by omega⟩

section Regular

theorem regular_of_parts_eq_nil
    {value : Value}
    (hnumber : value.SomeNumber)
    (hparts : value.parts = []) :
    value.Regular :=
  .of_parts_eq_nil ⟨hnumber, distinctKeys_of_parts_eq_nil hparts⟩ hparts

@[simp] theorem regular_nil :
    Regular .nil :=
  regular_of_parts_eq_nil trivial rfl

@[simp] theorem regular_boolean
    (flag : Bool) :
    Regular (.boolean flag) :=
  regular_of_parts_eq_nil trivial rfl

@[simp] theorem regular_integer
    (number : Int64) :
    Regular (.integer number) :=
  regular_of_parts_eq_nil trivial rfl

@[simp] theorem regular_float
    {number : Float} :
    Regular (.float number) ↔ number.isNaN = false :=
  ⟨fun ⟨here, _⟩ => here.1, fun h => regular_of_parts_eq_nil h rfl⟩

@[simp] theorem regular_string
    (text : String) :
    Regular (.string text) :=
  regular_of_parts_eq_nil trivial rfl

@[simp] theorem regular_symbol
    (name : String) :
    Regular (.symbol name) :=
  regular_of_parts_eq_nil trivial rfl

@[simp] theorem regular_keyword
    (name : String) :
    Regular (.keyword name) :=
  regular_of_parts_eq_nil trivial rfl

@[simp] theorem regular_list
    {items : List Value} :
    Regular (.list items) ↔ ∀ item ∈ items, item.Regular :=
  everywhere_list.trans (and_iff_right ⟨trivial, trivial⟩)

@[simp] theorem regular_vector
    {items : List Value} :
    Regular (.vector items) ↔ ∀ item ∈ items, item.Regular :=
  everywhere_vector.trans (and_iff_right ⟨trivial, trivial⟩)

@[simp] theorem regular_map
    {entries : Entries} :
    Regular (.map entries) ↔
      Entries.Distinct entries ∧ ∀ e ∈ entries, e.1.Regular ∧ e.2.Regular := by
  rw [Regular, everywhere_map]
  exact and_congr_left fun _ => and_iff_right trivial

end Regular

/-- Equality of values, and of maps, is an equivalence.  Two maps are equal when the same is found
under every key, so in whatever order their entries stand. -/
theorem beq_laws :
    EquivalenceOn Regular (· == ·) ∧
      EquivalenceOn (fun entries => Regular (.map entries)) Entries.equals ∧
        (∀ a b : Entries, Regular (.map a) → Regular (.map b) →
          (a.equals b = true ↔ ∀ key, key.Regular →
            Option.Rel (fun v w => (v == w) = true) (a.get? key) (b.get? key))) ∧
          ∀ a b : Entries, Regular (.map a) → a.Perm b → a.equals b = true := by
  have h := equivalenceOn_regular
  refine ⟨h, ⟨fun ha => h.refl ha, fun ha hb => h.symm ha hb, fun ha hb hc => h.trans ha hb hc⟩,
    fun a b ha hb => ?_, fun a b ha hperm => ?_⟩
  · obtain ⟨hdistinct, ha⟩ := regular_map.1 ha
    obtain ⟨hdistinct', hb⟩ := regular_map.1 hb
    exact Entries.equals_iff_get? h ha hb hdistinct hdistinct'
  · obtain ⟨hdistinct, ha⟩ := regular_map.1 ha
    exact (Entries.equals_of_perm h ha hdistinct hperm).2

/-- A map with a map among its keys, and the same entries in the other order. -/
theorem beq_laws_swapped :
    Regular (.map [(.map [(.keyword "a", .nil)], .float 0.5), (.string "b", .vector [])]) ∧
      Entries.equals [(.map [(.keyword "a", .nil)], .float 0.5), (.string "b", .vector [])]
        [(.string "b", .vector []), (.map [(.keyword "a", .nil)], .float 0.5)] = true := by
  have hhalf : Regular (.float 0.5) := regular_float.2 (by decide +kernel)
  have hregular :
      Regular (.map [(.map [(.keyword "a", .nil)], .float 0.5), (.string "b", .vector [])]) := by
    simp [Entries.Distinct, Entries.keys, BEq.beq, equals, hhalf, -regular_float]
  exact ⟨hregular, beq_laws.2.2.2 _ _ hregular (List.Perm.swap _ _ _)⟩

end Value

end TaskTree
