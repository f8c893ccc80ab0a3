import Mathlib.Data.Set.Card
import TaskTree.Proofs.Node.Equality

/-!
# Maps as what has been stored

A map is made by storing values under keys one after the other.  A key that equals one
that is there already keeps the old key and its place and replaces the value.  So the keys
of a map are those that no key before them equals, in the order in which they came, and
what is found under a key is what was stored last under an equal one.

The scan for an equal key stops at the first that it meets, when a value is stored and when
it is looked up.  That both stop at the same entry rests on the laws of equality, so keys
and values are regular here.

**Results.**
* `Entries.get?_insert`, `Entries.keys_insert`: what one more entry changes.
* `Entries.get?_ofList`, `Entries.keys_ofList`: what is found in a map, and its keys.
* `Entries.ncard_classes`: a map has one entry for each class of equal keys.
* `Entries.ofList_laws`: all of it together.
-/

namespace TaskTree
namespace Entries

section Specification

/-- The value that was stored last under an equal key. -/
def last? (puts : List (Value × Value)) (key : Value) : Option Value :=
  (puts.reverse.find? fun put => put.1 == key).map Prod.snd

/-- The keys that no key before them equals, in order.  The first argument are keys that come
before all of them. -/
def newKeys (before : List Value) : List Value → List Value
  | [] => []
  | key :: keys =>
      if before.any (· == key) then newKeys (before ++ [key]) keys
      else key :: newKeys (before ++ [key]) keys

/-- The stored keys that equal the given one. -/
def classOf (puts : List (Value × Value)) (key : Value) : Set Value :=
  {k | k ∈ keys puts ∧ (k == key) = true}

/-- The classes of equal keys. -/
def classes (puts : List (Value × Value)) : Set (Set Value) :=
  {c | ∃ key ∈ keys puts, c = classOf puts key}

end Specification

section OneEntry

variable {entries : Entries} {key value : Value}

/-- A key is found if an equal one is there. -/
theorem isSome_get?
    (entries : Entries) (key : Value) :
    (entries.get? key).isSome = (keys entries).any (· == key) := by
  induction entries with
  | nil => rfl
  | cons e entries ih =>
      by_cases hkey : (e.1 == key) = true
      · simp [get?, keys, hkey]
      · simpa [get?, keys, hkey] using ih

/-- A new key comes last; otherwise the keys stay as they are. -/
theorem keys_insert
    (entries : Entries) (key value : Value) :
    keys (entries.insert key value) =
      if (keys entries).any (· == key) then keys entries else keys entries ++ [key] := by
  split
  · next h =>
    obtain ⟨key', hmem, hequal⟩ := List.any_eq_true.1 h
    exact keys_insert_of_mem hmem hequal
  · next h =>
    have hnew : ∀ key' ∈ keys entries, (key' == key) = false := by simpa using h
    rw [insert_eq_append hnew]
    simp [keys]

/-- The value is found under every key that equals the one under which it was stored, and under
the other keys what was found before. -/
theorem get?_insert
    (hentries : ∀ k ∈ keys entries, k.Regular)
    (hkey : key.Regular)
    {key' : Value}
    (hkey' : key'.Regular) :
    (entries.insert key value).get? key' =
      if key == key' then some value else entries.get? key' := by
  have h := Value.equivalenceOn_regular
  induction entries with
  | nil => rfl
  | cons e entries ih =>
      obtain ⟨he, hentries⟩ := List.forall_mem_cons.1 hentries
      by_cases hfirst : (e.1 == key) = true
      · have hsame : (e.1 == key') = (key == key') := by
          rw [Bool.eq_iff_iff]
          exact ⟨h.trans hkey he hkey' (h.symm he hkey hfirst), h.trans he hkey hkey' hfirst⟩
        simp only [insert, hfirst, if_true, get?, hsame]
        split <;> rfl
      · by_cases hfound : (e.1 == key') = true
        · -- this entry is found, so its key is not the one of the new entry
          have hother : ¬ (key == key') = true := fun hequal =>
            hfirst (h.trans he hkey' hkey hfound (h.symm hkey hkey' hequal))
          simp only [insert, hfirst, get?, hfound, if_true, if_neg hother, Bool.false_eq_true,
            if_false]
        · simp only [insert, hfirst, get?, hfound, ih hentries, Bool.false_eq_true, if_false]

end OneEntry

section Stored

variable {puts : List (Value × Value)} {put : Value × Value} {key : Value}

@[simp] theorem ofList_append_singleton :
    ofList (puts ++ [put]) = (ofList puts).insert put.1 put.2 := by
  simp [ofList]

@[simp] theorem last?_append_singleton :
    last? (puts ++ [put]) key = if put.1 == key then some put.2 else last? puts key := by
  simp only [last?, List.reverse_append, List.reverse_singleton, List.singleton_append,
    List.find?_cons]
  split <;> simp_all

/-- Something was stored under a key if an equal key was there. -/
theorem isSome_last?
    (puts : List (Value × Value)) (key : Value) :
    (last? puts key).isSome = (keys puts).any (· == key) := by
  rw [last?, Option.isSome_map, List.isSome_find?, List.any_reverse, keys, List.any_map]
  rfl

theorem newKeys_append_singleton
    (before keys : List Value) (key : Value) :
    newKeys before (keys ++ [key]) =
      newKeys before keys ++ if (before ++ keys).any (· == key) then [] else [key] := by
  induction keys generalizing before with
  | nil => simp [newKeys]
  | cons k keys ih =>
      simp only [List.cons_append, newKeys, ih]
      split <;> simp

/-- No key is stored that was not given. -/
theorem mem_keys_of_mem_ofList
    {k : Value}
    (h : k ∈ keys (ofList puts)) :
    k ∈ keys puts := by
  induction puts using List.reverseRecOn with
  | nil => cases h
  | append_singleton puts put ih =>
      rw [ofList_append_singleton, keys_insert] at h
      rw [keys, List.map_append]
      split at h
      · exact List.mem_append_left _ (ih h)
      · exact (List.mem_append.1 h).elim (fun h => List.mem_append_left _ (ih h))
          (List.mem_append_right _)

/-- What is found under a key is what was stored last under an equal one.  If no equal one was
given, the key that is looked up may be any value. -/
theorem get?_ofList
    (hputs : ∀ k ∈ keys puts, k.Regular)
    (hkey : key.Regular ∨ ∀ k ∈ keys puts, (k == key) = false) :
    (ofList puts).get? key = last? puts key := by
  rcases hkey with hkey | hnone
  · induction puts using List.reverseRecOn with
    | nil => rfl
    | append_singleton puts put ih =>
        rw [keys, List.map_append, List.forall_mem_append] at hputs
        obtain ⟨hputs, hput⟩ := hputs
        have hstored : ∀ k ∈ keys (ofList puts), k.Regular := fun k hk =>
          hputs k (mem_keys_of_mem_ofList hk)
        rw [ofList_append_singleton, get?_insert hstored (hput _ (by simp)) hkey, ih hputs,
          last?_append_singleton]
  · have hget : (ofList puts).get? key = none := by
      rw [← Option.not_isSome_iff_eq_none, isSome_get?, List.any_eq_true]
      rintro ⟨k, hk, hequal⟩
      rw [hnone k (mem_keys_of_mem_ofList hk)] at hequal
      cases hequal
    have hlast : last? puts key = none := by
      rw [← Option.not_isSome_iff_eq_none, isSome_last?, List.any_eq_true]
      rintro ⟨k, hk, hequal⟩
      rw [hnone k hk] at hequal
      cases hequal
    rw [hget, hlast]

/-- An equal key is stored exactly if one was given. -/
theorem any_keys_ofList
    (hputs : ∀ k ∈ keys puts, k.Regular)
    (hkey : key.Regular) :
    (keys (ofList puts)).any (· == key) = (keys puts).any (· == key) := by
  rw [← isSome_get?, get?_ofList hputs (.inl hkey), isSome_last?]

/-- The keys of a map are the new ones among those that were given. -/
theorem keys_ofList
    (hputs : ∀ k ∈ keys puts, k.Regular) :
    keys (ofList puts) = newKeys [] (keys puts) := by
  induction puts using List.reverseRecOn with
  | nil => rfl
  | append_singleton puts put ih =>
      have hkeys : keys (puts ++ [put]) = keys puts ++ [put.1] := by simp [keys]
      rw [hkeys, List.forall_mem_append] at hputs
      obtain ⟨hputs, hput⟩ := hputs
      rw [hkeys, ofList_append_singleton, keys_insert,
        any_keys_ofList hputs (hput _ (List.mem_singleton_self _)), ih hputs,
        newKeys_append_singleton, List.nil_append]
      split <;> simp

/-- An entry of a map without equal keys is found under its key. -/
theorem get?_of_mem
    {entries : Entries} {e : Value × Value}
    (hentries : ∀ k ∈ keys entries, k.Regular)
    (hdistinct : Distinct entries)
    (he : e ∈ entries) :
    entries.get? e.1 = some e.2 := by
  induction entries with
  | nil => cases he
  | cons first entries ih =>
      obtain ⟨hfirst, hentries⟩ := List.forall_mem_cons.1 hentries
      obtain ⟨hhead, hdistinct⟩ := List.pairwise_cons.1 hdistinct
      rcases List.mem_cons.1 he with rfl | he
      · rw [get?, if_pos (Value.equivalenceOn_regular.refl hfirst)]
      · have hother : (first.1 == e.1) = false := hhead e.1 (List.mem_map_of_mem he)
        rw [get?, if_neg (by simp [hother])]
        exact ih hentries hdistinct he

/-- No two keys of the map are equal, whichever is compared with the other. -/
theorem unequal_ofList
    (hputs : ∀ k ∈ keys puts, k.Regular) :
    (keys (ofList puts)).Pairwise fun k k' => (k == k') = false ∧ (k' == k) = false := by
  refine List.Pairwise.imp_of_mem ?_ (distinct_ofList puts)
  intro k k' hk hk' hne
  have hregular := hputs k (mem_keys_of_mem_ofList hk)
  have hregular' := hputs k' (mem_keys_of_mem_ofList hk')
  refine ⟨hne, Bool.eq_false_iff.2 fun hequal => ?_⟩
  rw [Value.equivalenceOn_regular.symm hregular' hregular hequal] at hne
  cases hne

/-- A map has one entry for each class of equal keys. -/
theorem ncard_classes
    (hputs : ∀ k ∈ keys puts, k.Regular) :
    (classes puts).ncard = (ofList puts).length := by
  have h := Value.equivalenceOn_regular
  have hstored : ∀ k ∈ keys (ofList puts), k.Regular := fun k hk =>
    hputs k (mem_keys_of_mem_ofList hk)
  have himage : classes puts = classOf puts '' {k | k ∈ keys (ofList puts)} := by
    ext c
    constructor
    · rintro ⟨key, hkey, rfl⟩
      have hregular := hputs key hkey
      -- the key that stands for the class is the stored one
      have hgiven : (keys puts).any (· == key) = true :=
        List.any_eq_true.2 ⟨key, hkey, h.refl hregular⟩
      rw [← any_keys_ofList hputs hregular] at hgiven
      obtain ⟨k, hk, hequal⟩ := List.any_eq_true.1 hgiven
      refine ⟨k, hk, Set.ext fun k' => and_congr_right fun hk' => ?_⟩
      exact ⟨fun h' => h.trans (hputs k' hk') (hstored k hk) hregular h' hequal,
        fun h' => h.trans (hputs k' hk') hregular (hstored k hk) h'
          (h.symm (hstored k hk) hregular hequal)⟩
    · rintro ⟨k, hk, rfl⟩
      exact ⟨k, mem_keys_of_mem_ofList hk, rfl⟩
  have hinjective : Set.InjOn (classOf puts) {k | k ∈ keys (ofList puts)} := by
    intro k hk k' hk' hsame
    have hself : k ∈ classOf puts k := ⟨mem_keys_of_mem_ofList hk, h.refl (hstored k hk)⟩
    rw [hsame] at hself
    by_contra hne
    have : Std.Symm fun k k' : Value => (k == k') = false ∧ (k' == k) = false :=
      ⟨fun _ _ h => h.symm⟩
    have hunequal := (unequal_ofList hputs).forall hk hk' hne
    rw [hself.2] at hunequal
    cases hunequal.1
  have hnodup : (keys (ofList puts)).Nodup := by
    refine (List.Pairwise.and_mem.1 (unequal_ofList hputs)).imp ?_
    rintro k k' ⟨hk, -, hne, -⟩ rfl
    rw [h.refl (hstored k hk)] at hne
    cases hne
  classical
  rw [himage, hinjective.ncard_image, ← List.coe_toFinset, Set.ncard_coe_finset,
    List.toFinset_card_of_nodup hnodup, keys, List.length_map]

end Stored

/-- A map keeps its keys in the order in which they first came.  No two of them are equal; under a
key what was stored last under an equal one is found, and this is what the entries hold; there are
as many of them as classes of equal keys; a keyword is looked up like any other key; and storing
the entries of a map again gives the map. -/
theorem ofList_laws
    {puts : List (Value × Value)}
    (hputs : ∀ k ∈ keys puts, k.Regular) :
    ((keys (ofList puts)).Pairwise fun k k' => (k == k') = false ∧ (k' == k) = false) ∧
      (∀ key, (key.Regular ∨ ∀ k ∈ keys puts, (k == key) = false) →
        (ofList puts).get? key = last? puts key) ∧
      (keys (ofList puts) = newKeys [] (keys puts) ∧
        ∀ e ∈ ofList puts, last? puts e.1 = some e.2) ∧
      (ofList puts).length = (classes puts).ncard ∧
      (∀ name, (ofList puts).keyword? name = (ofList puts).get? (.keyword name)) ∧
      ofList (ofList puts) = ofList puts := by
  have hstored : ∀ k ∈ keys (ofList puts), k.Regular := fun k hk =>
    hputs k (mem_keys_of_mem_ofList hk)
  refine ⟨unequal_ofList hputs, fun key hkey => get?_ofList hputs hkey, ⟨keys_ofList hputs, ?_⟩,
    (ncard_classes hputs).symm, fun name => keyword?_eq_get? _ name,
    (distinct_ofList puts).ofList_eq⟩
  intro e he
  rw [← get?_ofList hputs (.inl (hstored e.1 (List.mem_map_of_mem he)))]
  exact get?_of_mem hstored (distinct_ofList puts) he

/-- Both zeros are one key, and so are a map and the same entries in the other order. -/
theorem ofList_laws_zeros :
    (∀ k ∈ keys [(.float 0, .nil), (.map [(.nil, .nil), (.float 1, .nil)], .nil),
        (.float (-0), .boolean true), (.map [(.float 1, .nil), (.nil, .nil)], .vector [])],
      k.Regular) ∧
      (ofList [(.float 0, .nil), (.map [(.nil, .nil), (.float 1, .nil)], .nil),
        (.float (-0), .boolean true),
        (.map [(.float 1, .nil), (.nil, .nil)], .vector [])]).get? (.float 0) =
          some (.boolean true) := by
  have hzero : Value.Regular (.float 0) := Value.regular_float.2 (by decide +kernel)
  have hnegative : Value.Regular (.float (-0)) := Value.regular_float.2 (by decide +kernel)
  have hone : Value.Regular (.float 1) := Value.regular_float.2 (by decide +kernel)
  have hregular : ∀ k ∈ keys [(.float 0, .nil), (.map [(.nil, .nil), (.float 1, .nil)], .nil),
      (.float (-0), .boolean true), (.map [(.float 1, .nil), (.nil, .nil)], .vector [])],
      k.Regular := by
    simp [Entries.Distinct, Entries.keys, BEq.beq, Value.equals, hzero, hnegative, hone,
      -Value.regular_float]
  refine ⟨hregular, ?_⟩
  have hequal : ((-0 : Float) == 0) = true := by decide +kernel
  rw [(ofList_laws hregular).2.1 (.float 0) (.inl (hregular _ (by simp [keys])))]
  simp only [last?, List.reverse_cons, List.reverse_nil, List.nil_append, List.cons_append,
    List.find?_cons, BEq.beq, Value.equals]
  rw [show Float.beq (-0) 0 = true from hequal]
  rfl

end Entries
end TaskTree
