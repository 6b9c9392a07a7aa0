import Mathlib.Data.Set.Card
import Mathlib.Order.Interval.Finset.Nat
import Mathlib.Tactic

/-!
# Probing — tables with open addressing

Each key has an order in which the places of the table are looked at (`ProbeOrder`).  A search goes
along it, passes over deleted places and ends at a free place, at the key, or after every place.

`Probed` is what makes the end of such a search mean something: a key lies in one place, and no place
before it, in the order of that key, is free.  Entering at any place the search has passed, writing
over a value and deleting keep it, and change what the table holds, read as a finite map
(`contents`), as they should.
-/

namespace Lib

/-- One place of a table. -/
inductive Place (κ ν : Type) where
  | free
  | deleted
  | used (key : κ) (val : ν)

/-- For each key, an order of the places that comes to each of them once. -/
structure ProbeOrder (κ ι : Type) where
  places : Finset ι
  seq : κ → ℕ → ι
  mem : ∀ k j, seq k j ∈ places
  inj : ∀ k, Set.InjOn (seq k) (Set.Iio places.card)

namespace ProbeOrder

variable {κ ι : Type} (P : ProbeOrder κ ι)

/-- Every place is looked at. -/
theorem exists_seq_eq (k : κ) {i : ι} (hi : i ∈ P.places) :
    ∃ j < P.places.card, P.seq k j = i := by
  classical
  have hsub : (Finset.range P.places.card).image (P.seq k) ⊆ P.places := by
    intro x hx
    rcases Finset.mem_image.1 hx with ⟨j, _, rfl⟩
    exact P.mem k j
  have hcard : ((Finset.range P.places.card).image (P.seq k)).card = P.places.card := by
    rw [Finset.card_image_of_injOn, Finset.card_range]
    rw [Finset.coe_range]
    exact P.inj k
  have hall := Finset.eq_of_subset_of_card_le hsub hcard.ge
  rw [← hall] at hi
  rcases Finset.mem_image.1 hi with ⟨j, hj, heq⟩
  exact ⟨j, Finset.mem_range.1 hj, heq⟩

end ProbeOrder

section Table

variable {κ ν ι : Type} (P : ProbeOrder κ ι) (T : ι → Place κ ν)

/-- A key lies in one place, and the search for it comes there before it meets a free place. -/
structure Probed : Prop where
  unique : ∀ i ∈ P.places, ∀ j ∈ P.places, ∀ k v w, T i = .used k v → T j = .used k w → i = j
  reached : ∀ i ∈ P.places, ∀ k v, T i = .used k v →
    ∃ j < P.places.card, P.seq k j = i ∧ ∀ m < j, T (P.seq k m) ≠ .free

/-- The first `j` places of the search for `k` are not free and do not hold `k`. -/
def Passed (k : κ) (j : ℕ) : Prop :=
  ∀ m < j, T (P.seq k m) ≠ .free ∧ ∀ v, T (P.seq k m) ≠ .used k v

/-- `k` is stored with the value `v`. -/
def Holds (S : Finset ι) (T : ι → Place κ ν) (k : κ) (v : ν) : Prop :=
  ∃ i ∈ S, T i = .used k v

open Classical in
/-- The table as a finite map. -/
noncomputable def contents (S : Finset ι) (T : ι → Place κ ν) (k : κ) : Option ν :=
  if h : ∃ v, Holds S T k v then some h.choose else none

open Classical in
/-- The places in use. -/
noncomputable def usedPlaces (S : Finset ι) (T : ι → Place κ ν) : Finset ι :=
  S.filter fun i => ∃ k v, T i = .used k v

variable {P T}

theorem Passed.zero (k : κ) : Passed P T k 0 := by
  intro m hm
  exact absurd hm (Nat.not_lt_zero m)

theorem Passed.succ {k : κ} {j : ℕ} (h : Passed P T k j) (hfree : T (P.seq k j) ≠ .free)
    (hkey : ∀ v, T (P.seq k j) ≠ .used k v) : Passed P T k (j + 1) := by
  intro m hm
  rcases Nat.lt_succ_iff_lt_or_eq.1 hm with hlt | rfl
  · exact h m hlt
  · exact ⟨hfree, hkey⟩

theorem mem_usedPlaces {S : Finset ι} {i : ι} :
    i ∈ usedPlaces S T ↔ i ∈ S ∧ ∃ k v, T i = .used k v := by
  simp only [usedPlaces, Finset.mem_filter]

theorem contents_eq_none_iff {S : Finset ι} {k : κ} :
    contents S T k = none ↔ ∀ v, ¬ Holds S T k v := by
  unfold contents
  split
  · rename_i h
    exact ⟨fun hnone => absurd hnone (Option.some_ne_none _), fun hno => absurd h.choose_spec (hno _)⟩
  · rename_i h
    exact ⟨fun _ v hv => h ⟨v, hv⟩, fun _ => rfl⟩

theorem Passed.not_holds {k : κ} (h : Passed P T k P.places.card) (v : ν) :
    ¬ Holds P.places T k v := by
  rintro ⟨i, hi, hT⟩
  rcases P.exists_seq_eq k hi with ⟨j, hj, rfl⟩
  exact (h j hj).2 v hT

/-- A search that has looked at every place has not missed its key. -/
theorem Passed.contents_none {k : κ} (h : Passed P T k P.places.card) :
    contents P.places T k = none := by
  rw [contents_eq_none_iff]
  exact h.not_holds

namespace Probed

theorem contents_eq_some_iff (hP : Probed P T) {k : κ} {v : ν} :
    contents P.places T k = some v ↔ Holds P.places T k v := by
  unfold contents
  split
  · rename_i h
    -- a key lies in one place, so it has one value
    have huniq : ∀ w, Holds P.places T k w → w = h.choose := by
      rintro w ⟨i, hi, hTi⟩
      rcases h.choose_spec with ⟨j, hj, hTj⟩
      have hij := hP.unique i hi j hj k w h.choose hTi hTj
      rw [hij, hTj] at hTi
      cases hTi
      rfl
    constructor
    · intro heq
      rw [← Option.some.inj heq]
      exact h.choose_spec
    · intro hv
      rw [huniq v hv]
  · rename_i h
    constructor
    · intro heq
      cases heq
    · intro hv
      exact absurd ⟨v, hv⟩ h

theorem contents_of_used (hP : Probed P T) {i : ι} {k : κ} {v : ν} (hi : i ∈ P.places)
    (hT : T i = .used k v) : contents P.places T k = some v :=
  hP.contents_eq_some_iff.2 ⟨i, hi, hT⟩

/-- A search that ends at a free place has not missed its key. -/
theorem contents_none_of_free (hP : Probed P T) {k : κ} {j : ℕ} (hpass : Passed P T k j)
    (hfree : T (P.seq k j) = .free) : contents P.places T k = none := by
  rw [contents_eq_none_iff]
  rintro v ⟨i, hi, hT⟩
  rcases hP.reached i hi k v hT with ⟨m, hm, rfl, hbefore⟩
  rcases Nat.lt_trichotomy m j with hlt | rfl | hgt
  · exact (hpass m hlt).2 v hT
  · rw [hfree] at hT
    cases hT
  · exact hbefore j hgt hfree

end Probed

/-! ## Changes of one place -/

/-- Tables that agree on every key but one. -/
theorem contents_eq_update [DecidableEq κ] {T' : ι → Place κ ν} (hP : Probed P T)
    (hP' : Probed P T') {k : κ} {r : Option ν} (hk : contents P.places T' k = r)
    (hother : ∀ k' ≠ k, ∀ u, Holds P.places T' k' u ↔ Holds P.places T k' u) :
    contents P.places T' = Function.update (contents P.places T) k r := by
  funext k'
  by_cases hkk : k' = k
  · rw [hkk, Function.update_self, hk]
  · rw [Function.update_of_ne hkk]
    apply Option.ext
    intro u
    rw [hP'.contents_eq_some_iff, hP.contents_eq_some_iff, hother k' hkk u]

section Update

variable [DecidableEq ι]

/-- What the table holds is what its places hold, for tables that differ in one place. -/
theorem holds_update_iff {i : ι} (hi : i ∈ P.places) (p : Place κ ν) (k : κ) (v : ν) :
    Holds P.places (Function.update T i p) k v ↔
      p = .used k v ∨ ∃ j ∈ P.places, j ≠ i ∧ T j = .used k v := by
  constructor
  · rintro ⟨j, hj, hT⟩
    by_cases hji : j = i
    · subst hji
      rw [Function.update_self] at hT
      exact Or.inl hT
    · rw [Function.update_of_ne hji] at hT
      exact Or.inr ⟨j, hj, hji, hT⟩
  · rintro (rfl | ⟨j, hj, hji, hT⟩)
    · exact ⟨i, hi, Function.update_self ..⟩
    · exact ⟨j, hj, by rw [Function.update_of_ne hji, hT]⟩

/-- A place that is not free before and not free after leaves every way as it is. -/
theorem update_ne_free {i j : ι} {p : Place κ ν} (hp : p ≠ .free) (hT : T j ≠ .free) :
    Function.update T i p j ≠ .free := by
  by_cases hji : j = i
  · subst hji
    rw [Function.update_self]
    exact hp
  · rw [Function.update_of_ne hji]
    exact hT

namespace Probed

/-- Entering a key that the table does not hold, at a place its search has come to. -/
theorem enter [DecidableEq κ] (hP : Probed P T) {k : κ} {j : ℕ} (hnone : contents P.places T k = none)
    (hj : j < P.places.card) (hbefore : ∀ m < j, T (P.seq k m) ≠ .free)
    (hplace : ∀ k' v', T (P.seq k j) ≠ .used k' v') (v : ν) :
    Probed P (Function.update T (P.seq k j) (.used k v)) ∧
      contents P.places (Function.update T (P.seq k j) (.used k v)) =
        Function.update (contents P.places T) k (some v) := by
  set i := P.seq k j with hi
  have himem : i ∈ P.places := P.mem k j
  have hno : ∀ x ∈ P.places, ∀ w, T x ≠ .used k w := by
    intro x hx w hT
    rw [contents_eq_none_iff] at hnone
    exact hnone w ⟨x, hx, hT⟩
  have hP' : Probed P (Function.update T i (.used k v)) := by
    refine ⟨?_, ?_⟩
    -- a second place with the key would have had it before
    · intro x hx y hy k' a b hTx hTy
      by_cases hxi : x = i
      · by_cases hyi : y = i
        · rw [hxi, hyi]
        · rw [hxi, Function.update_self] at hTx
          rw [Function.update_of_ne hyi] at hTy
          cases hTx
          exact absurd hTy (hno y hy b)
      · rw [Function.update_of_ne hxi] at hTx
        by_cases hyi : y = i
        · rw [hyi, Function.update_self] at hTy
          cases hTy
          exact absurd hTx (hno x hx a)
        · rw [Function.update_of_ne hyi] at hTy
          exact hP.unique x hx y hy k' a b hTx hTy
    · intro x hx k' a hTx
      by_cases hxi : x = i
      · rw [hxi, Function.update_self] at hTx
        cases hTx
        refine ⟨j, hj, ?_, ?_⟩
        · rw [hxi, hi]
        · intro m hm
          exact update_ne_free (by intro h; cases h) (hbefore m hm)
      · rw [Function.update_of_ne hxi] at hTx
        rcases hP.reached x hx k' a hTx with ⟨n, hn, hseq, hway⟩
        refine ⟨n, hn, hseq, ?_⟩
        intro m hm
        exact update_ne_free (by intro h; cases h) (hway m hm)
  -- of another key nothing has been overwritten: the place held none
  refine ⟨hP', contents_eq_update hP hP' ?_ ?_⟩
  · exact hP'.contents_of_used himem (Function.update_self ..)
  · intro k' hk w
    rw [holds_update_iff himem]
    constructor
    · rintro (heq | ⟨y, hy, _, hT⟩)
      · cases heq
        exact absurd rfl hk
      · exact ⟨y, hy, hT⟩
    · rintro ⟨y, hy, hT⟩
      refine Or.inr ⟨y, hy, ?_, hT⟩
      rintro rfl
      exact hplace k' w hT

/-- Writing over the value of a key. -/
theorem assign [DecidableEq κ] (hP : Probed P T) {i : ι} (hi : i ∈ P.places) {k : κ} {v : ν}
    (hT : T i = .used k v) (w : ν) :
    Probed P (Function.update T i (.used k w)) ∧
      contents P.places (Function.update T i (.used k w)) =
        Function.update (contents P.places T) k (some w) := by
  -- the places have the same keys as before
  have hkey : ∀ x k' a, Function.update T i (.used k w) x = .used k' a → ∃ b, T x = .used k' b := by
    intro x k' a hx
    by_cases hxi : x = i
    · rw [hxi, Function.update_self] at hx
      cases hx
      exact ⟨v, by rw [hxi, hT]⟩
    · rw [Function.update_of_ne hxi] at hx
      exact ⟨a, hx⟩
  have hP' : Probed P (Function.update T i (.used k w)) := by
    refine ⟨?_, ?_⟩
    · intro x hx y hy k' a b hTx hTy
      rcases hkey x k' a hTx with ⟨a', hTx'⟩
      rcases hkey y k' b hTy with ⟨b', hTy'⟩
      exact hP.unique x hx y hy k' a' b' hTx' hTy'
    · intro x hx k' a hTx
      rcases hkey x k' a hTx with ⟨a', hTx'⟩
      rcases hP.reached x hx k' a' hTx' with ⟨n, hn, hseq, hway⟩
      refine ⟨n, hn, hseq, ?_⟩
      intro m hm
      exact update_ne_free (by intro h; cases h) (hway m hm)
  refine ⟨hP', contents_eq_update hP hP' ?_ ?_⟩
  · exact hP'.contents_of_used hi (Function.update_self ..)
  · intro k' hk u
    rw [holds_update_iff hi]
    constructor
    · rintro (heq | ⟨y, hy, _, hTy⟩)
      · cases heq
        exact absurd rfl hk
      · exact ⟨y, hy, hTy⟩
    · rintro ⟨y, hy, hTy⟩
      refine Or.inr ⟨y, hy, ?_, hTy⟩
      rintro rfl
      rw [hT] at hTy
      cases hTy
      exact hk rfl

/-- Deleting a key leaves a mark, so that the ways over its place stay open. -/
theorem delete [DecidableEq κ] (hP : Probed P T) {i : ι} (hi : i ∈ P.places) {k : κ} {v : ν}
    (hT : T i = .used k v) :
    Probed P (Function.update T i .deleted) ∧
      contents P.places (Function.update T i .deleted) = Function.update (contents P.places T) k none := by
  have hold : ∀ x k' a, Function.update T i .deleted x = .used k' a → x ≠ i ∧ T x = .used k' a := by
    intro x k' a hx
    by_cases hxi : x = i
    · rw [hxi, Function.update_self] at hx
      cases hx
    · rw [Function.update_of_ne hxi] at hx
      exact ⟨hxi, hx⟩
  have hP' : Probed P (Function.update T i (.deleted : Place κ ν)) := by
    refine ⟨?_, ?_⟩
    · intro x hx y hy k' a b hTx hTy
      exact hP.unique x hx y hy k' a b (hold x k' a hTx).2 (hold y k' b hTy).2
    · intro x hx k' a hTx
      rcases hP.reached x hx k' a (hold x k' a hTx).2 with ⟨n, hn, hseq, hway⟩
      refine ⟨n, hn, hseq, ?_⟩
      intro m hm
      exact update_ne_free (by intro h; cases h) (hway m hm)
  refine ⟨hP', contents_eq_update hP hP' ?_ ?_⟩
  · rw [contents_eq_none_iff]
    rintro w ⟨x, hx, hTx⟩
    rcases hold x k w hTx with ⟨hxi, hTx⟩
    exact hxi (hP.unique x hx i hi k w v hTx hT)
  · intro k' hk u
    constructor
    · rintro ⟨y, hy, hTy⟩
      exact ⟨y, hy, (hold y k' u hTy).2⟩
    · rintro ⟨y, hy, hTy⟩
      refine ⟨y, hy, ?_⟩
      rw [Function.update_of_ne, hTy]
      rintro rfl
      rw [hT] at hTy
      cases hTy
      exact hk rfl

end Probed

end Update

/-! ## How many places are in use -/

theorem probed_of_free (hfree : ∀ i ∈ P.places, T i = .free) : Probed P T := by
  refine ⟨?_, ?_⟩
  · intro i hi j _ k v w hTi _
    rw [hfree i hi] at hTi
    cases hTi
  · intro i hi k v hTi
    rw [hfree i hi] at hTi
    cases hTi

theorem contents_of_free (hfree : ∀ i ∈ P.places, T i = .free) (k : κ) :
    contents P.places T k = none := by
  rw [contents_eq_none_iff]
  rintro v ⟨i, hi, hT⟩
  rw [hfree i hi] at hT
  cases hT

theorem usedPlaces_subset {S : Finset ι} : usedPlaces S T ⊆ S := by
  intro i hi
  exact (mem_usedPlaces.1 hi).1

/-- Where no place is free and not all are in use, the search comes over a deleted one. -/
theorem exists_deleted {k : κ} (hfree : ∀ m < P.places.card, T (P.seq k m) ≠ .free)
    (hroom : (usedPlaces P.places T).card < P.places.card) :
    ∃ m < P.places.card, T (P.seq k m) = .deleted := by
  rcases Finset.exists_mem_notMem_of_card_lt_card hroom with ⟨i, hi, hnot⟩
  rcases P.exists_seq_eq k hi with ⟨m, hm, rfl⟩
  refine ⟨m, hm, ?_⟩
  cases hT : T (P.seq k m) with
  | free => exact absurd hT (hfree m hm)
  | deleted => rfl
  | used k' v' => exact absurd (mem_usedPlaces.2 ⟨hi, k', v', hT⟩) hnot

theorem Passed.card_eq {k : κ} (h : Passed P T k P.places.card)
    (hdel : ∀ m < P.places.card, T (P.seq k m) ≠ .deleted) :
    (usedPlaces P.places T).card = P.places.card := by
  by_contra hne
  have hlt := lt_of_le_of_ne (Finset.card_le_card usedPlaces_subset) hne
  rcases exists_deleted (fun m hm => (h m hm).1) hlt with ⟨m, hm, hT⟩
  exact hdel m hm hT

/-- The keys and the places in use are the same in number. -/
theorem Probed.exists_bijOn (hP : Probed P T) :
    ∃ key : ι → Option κ, Set.InjOn key (usedPlaces P.places T : Set ι) ∧
      some '' {k | contents P.places T k ≠ none} = key '' (usedPlaces P.places T : Set ι) := by
  have hkeys : ∀ i, ∃ k : Option κ, i ∈ usedPlaces P.places T →
      ∃ k' v, k = some k' ∧ T i = .used k' v := by
    intro i
    by_cases hi : i ∈ usedPlaces P.places T
    · rcases (mem_usedPlaces.1 hi).2 with ⟨k, v, hT⟩
      exact ⟨some k, fun _ => ⟨k, v, rfl, hT⟩⟩
    · exact ⟨none, fun h => absurd h hi⟩
  choose key hkey using hkeys
  refine ⟨key, ?_, ?_⟩
  · intro i hi j hj heq
    rcases hkey i hi with ⟨k, v, hki, hTi⟩
    rcases hkey j hj with ⟨k', v', hkj, hTj⟩
    rw [hki, hkj] at heq
    cases heq
    exact hP.unique i (mem_usedPlaces.1 hi).1 j (mem_usedPlaces.1 hj).1 k v v' hTi hTj
  · apply Set.Subset.antisymm
    · rintro _ ⟨k, hk, rfl⟩
      rcases Option.ne_none_iff_exists'.1 hk with ⟨v, hv⟩
      rcases hP.contents_eq_some_iff.1 hv with ⟨i, hi, hT⟩
      have hmem : i ∈ usedPlaces P.places T := mem_usedPlaces.2 ⟨hi, k, v, hT⟩
      rcases hkey i hmem with ⟨k', v', heq, hT'⟩
      rw [hT] at hT'
      cases hT'
      exact ⟨i, hmem, heq⟩
    · rintro _ ⟨i, hi, rfl⟩
      rcases hkey i hi with ⟨k, v, heq, hT⟩
      refine ⟨k, ?_, heq.symm⟩
      rw [Set.mem_ofPred_eq, hP.contents_of_used (mem_usedPlaces.1 hi).1 hT]
      exact Option.some_ne_none v

theorem Probed.finite_keys (hP : Probed P T) : {k | contents P.places T k ≠ none}.Finite := by
  rcases hP.exists_bijOn with ⟨key, _, himage⟩
  apply Set.Finite.of_finite_image _ (Option.some_injective κ).injOn
  rw [himage]
  exact (usedPlaces P.places T).finite_toSet.image key

theorem Probed.ncard_keys (hP : Probed P T) :
    {k | contents P.places T k ≠ none}.ncard = (usedPlaces P.places T).card := by
  rcases hP.exists_bijOn with ⟨key, hinj, himage⟩
  calc {k | contents P.places T k ≠ none}.ncard
      = (some '' {k | contents P.places T k ≠ none}).ncard :=
        (Set.ncard_image_of_injective _ (Option.some_injective κ)).symm
    _ = (key '' (usedPlaces P.places T : Set ι)).ncard := by rw [himage]
    _ = (usedPlaces P.places T : Set ι).ncard := Set.InjOn.ncard_image hinj
    _ = (usedPlaces P.places T).card := Set.ncard_coe_finset _

section Update

variable [DecidableEq ι]

theorem usedPlaces_update_used {S : Finset ι} {i : ι} (hi : i ∈ S) (k : κ) (v : ν) :
    usedPlaces S (Function.update T i (.used k v)) = insert i (usedPlaces S T) := by
  ext j
  rw [mem_usedPlaces, Finset.mem_insert, mem_usedPlaces]
  by_cases hji : j = i
  · rw [hji, Function.update_self]
    exact ⟨fun _ => Or.inl rfl, fun _ => ⟨hi, k, v, rfl⟩⟩
  · rw [Function.update_of_ne hji]
    exact ⟨fun h => Or.inr h, fun h => h.resolve_left hji⟩

theorem usedPlaces_update_deleted {S : Finset ι} (i : ι) :
    usedPlaces S (Function.update T i .deleted) = (usedPlaces S T).erase i := by
  ext j
  rw [mem_usedPlaces, Finset.mem_erase, mem_usedPlaces]
  by_cases hji : j = i
  · rw [hji, Function.update_self]
    constructor
    · rintro ⟨_, k, v, h⟩
      cases h
    · rintro ⟨h, _⟩
      exact absurd rfl h
  · rw [Function.update_of_ne hji]
    exact ⟨fun h => ⟨hji, h⟩, fun h => h.2⟩

end Update

end Table

end Lib
