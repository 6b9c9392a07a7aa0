import CanmvK230.Env.Hashtable

/-!
# HashVars — the table read as the variables

The order in which `hsearch_r` looks at the places comes to each of them once, because the size is a
prime (`envProbe`).  `HtabInv` is what every call keeps; under it a search ends at the variable, or
at a place for a new one (`hsearchFirst_spec`).

`enterVars` and `deleteVars` say what `hsearch_r` and `hdelete_r` do to the variables, `runVars` what a
run of calls does, and `runCalls_refines` that the table does the same.
-/

namespace CanmvK230
namespace Env

open Lib

/-! ## The order of the places -/

structure TableSize (size : Nat) : Prop where
  prime : size.Prime
  five_le : 5 ≤ size

/-- The place looked at in round `j`. -/
def probeSeq (size : Nat) (key : List UInt8) (j : Nat) : Nat :=
  (probeNext size (secondHash size (firstHash size key)))^[j] (firstHash size key)

theorem firstHash_bounds {size : Nat} (hs : TableSize size) (key : List UInt8) :
    1 ≤ firstHash size key ∧ firstHash size key < size := by
  have h5 := hs.five_le
  have hlt := Nat.mod_lt (hashKey key).toNat (by omega : size > 0)
  unfold firstHash
  simp only
  split <;> omega

theorem secondHash_bounds {size : Nat} (hs : TableSize size) (hval : Nat) :
    1 ≤ secondHash size hval ∧ secondHash size hval < size := by
  have h5 := hs.five_le
  have hlt := Nat.mod_lt hval (by omega : size - 2 > 0)
  unfold secondHash
  omega

theorem probeNext_bounds {size d idx : Nat} (hd : 1 ≤ d ∧ d < size)
    (hidx : 1 ≤ idx ∧ idx ≤ size) : 1 ≤ probeNext size d idx ∧ probeNext size d idx ≤ size := by
  unfold probeNext
  split <;> omega

theorem probeNext_modEq {size d : Nat} (idx : Nat) (hd : d < size) :
    probeNext size d idx + d ≡ idx [MOD size] := by
  unfold probeNext
  split
  · have heq : size + idx - d + d = idx + size := by omega
    rw [heq]
    exact Nat.add_modEq_right
  · have heq : idx - d + d = idx := by omega
    rw [heq]

theorem probeSeq_zero (size : Nat) (key : List UInt8) : probeSeq size key 0 = firstHash size key :=
  rfl

theorem probeSeq_succ (size : Nat) (key : List UInt8) (j : Nat) :
    probeSeq size key (j + 1) =
      probeNext size (secondHash size (firstHash size key)) (probeSeq size key j) :=
  Function.iterate_succ_apply' ..

theorem probeSeq_bounds {size : Nat} (hs : TableSize size) (key : List UInt8) (j : Nat) :
    1 ≤ probeSeq size key j ∧ probeSeq size key j ≤ size := by
  induction j with
  | zero =>
      have hb := firstHash_bounds hs key
      rw [probeSeq_zero]
      omega
  | succ j ih =>
      rw [probeSeq_succ]
      exact probeNext_bounds (secondHash_bounds hs _) ih

theorem probeSeq_modEq {size : Nat} (hs : TableSize size) (key : List UInt8) (j : Nat) :
    probeSeq size key j + j * secondHash size (firstHash size key) ≡ firstHash size key
      [MOD size] := by
  induction j with
  | zero =>
      rw [probeSeq_zero, Nat.zero_mul, Nat.add_zero]
  | succ j ih =>
      have hd := (secondHash_bounds hs (firstHash size key)).2
      set d := secondHash size (firstHash size key) with hdef
      calc probeSeq size key (j + 1) + (j + 1) * d
          = probeNext size d (probeSeq size key j) + d + j * d := by
            rw [probeSeq_succ, ← hdef]
            ring
        _ ≡ probeSeq size key j + j * d [MOD size] :=
            (probeNext_modEq _ hd).add_right _
        _ ≡ firstHash size key [MOD size] := ih

theorem eq_of_modEq_of_bounds {size a b : Nat} (ha : 1 ≤ a ∧ a ≤ size) (hb : 1 ≤ b ∧ b ≤ size)
    (h : a ≡ b [MOD size]) : a = b := by
  -- the places are a full set of residues that starts at one
  have h' : a - 1 ≡ b - 1 [MOD size] := by
    apply Nat.ModEq.add_right_cancel' 1
    rw [Nat.sub_add_cancel ha.1, Nat.sub_add_cancel hb.1]
    exact h
  have heq := h'.eq_of_lt_of_lt (by omega) (by omega)
  omega

/-- Rounds that are less than `size` apart look at different places. -/
theorem probeSeq_inj {size : Nat} (hs : TableSize size) (key : List UInt8) :
    Set.InjOn (probeSeq size key) (Set.Iio size) := by
  have hkey : ∀ i j, i ≤ j → j < size → probeSeq size key i = probeSeq size key j → i = j := by
    intro i j hij hj heq
    have hmod : i * secondHash size (firstHash size key) ≡
        j * secondHash size (firstHash size key) [MOD size] := by
      apply Nat.ModEq.add_left_cancel' (probeSeq size key i)
      calc probeSeq size key i + i * secondHash size (firstHash size key)
          ≡ firstHash size key [MOD size] := probeSeq_modEq hs key i
        _ ≡ probeSeq size key j + j * secondHash size (firstHash size key) [MOD size] :=
            (probeSeq_modEq hs key j).symm
        _ = probeSeq size key i + j * secondHash size (firstHash size key) := by rw [heq]
    have hd := secondHash_bounds hs (firstHash size key)
    have hdvd := (Nat.modEq_iff_dvd' (Nat.mul_le_mul_right _ hij)).1 hmod
    rw [← Nat.sub_mul] at hdvd
    rcases (Nat.Prime.dvd_mul hs.prime).1 hdvd with h | h
    · have := Nat.eq_zero_of_dvd_of_lt h (by omega)
      omega
    · have := Nat.eq_zero_of_dvd_of_lt h hd.2
      omega
  intro i hi j hj heq
  rcases Nat.le_total i j with h | h
  · exact hkey i j h hj heq
  · exact (hkey j i h hi heq.symm).symm

/-- After `size` rounds the search is where it began. -/
theorem probeSeq_size {size : Nat} (hs : TableSize size) (key : List UInt8) :
    probeSeq size key size = firstHash size key := by
  have hb := firstHash_bounds hs key
  apply eq_of_modEq_of_bounds (probeSeq_bounds hs key size) (by omega)
  exact Nat.add_modulus_mul_modEq_iff.1 (probeSeq_modEq hs key size)

def envProbe {size : Nat} (hs : TableSize size) : ProbeOrder (List UInt8) Nat where
  places := Finset.Icc 1 size
  seq := probeSeq size
  mem k j := Finset.mem_Icc.2 (probeSeq_bounds hs k j)
  inj k := by
    rw [Nat.card_Icc, Nat.add_sub_cancel]
    exact probeSeq_inj hs k

theorem card_places {size : Nat} (hs : TableSize size) : (envProbe hs).places.card = size := by
  show (Finset.Icc 1 size).card = size
  rw [Nat.card_Icc, Nat.add_sub_cancel]

/-! ## The invariant of the table -/

def placeOf (node : EnvEntryNode) : Place (List UInt8) EnvEntry :=
  if 0 < node.used then
    .used node.entry.key node.entry
  else if node.used = usedFree then
    .free
  else
    .deleted

def HsearchData.places (htab : HsearchData) (idx : Nat) : Place (List UInt8) EnvEntry :=
  placeOf (htab.table idx)

abbrev EnvVars := List UInt8 → Option EnvEntry

noncomputable def HsearchData.vars (htab : HsearchData) : EnvVars :=
  contents (Finset.Icc 1 htab.size) htab.places

structure HtabInv (htab : HsearchData) : Prop where
  size : TableSize htab.size
  probed : Probed (envProbe size) htab.places
  hashed : ∀ idx, 0 < (htab.table idx).used →
    (htab.table idx).used = firstHash htab.size (htab.table idx).entry.key
  marked : ∀ idx, (htab.table idx).used ≤ 0 →
    (htab.table idx).used = usedFree ∨ (htab.table idx).used = usedDeleted
  cleared : ∀ idx, (htab.table idx).used ≤ 0 → (htab.table idx).entry.flags = 0
  filled : htab.filled = (usedPlaces (Finset.Icc 1 htab.size) htab.places).card

theorem places_eq_free_iff {htab : HsearchData} {idx : Nat} :
    htab.places idx = .free ↔ (htab.table idx).used = usedFree := by
  unfold HsearchData.places placeOf
  split
  · rename_i h
    constructor
    · intro heq
      cases heq
    · intro heq
      rw [heq] at h
      exact absurd h (by decide)
  · split
    · rename_i h
      exact ⟨fun _ => h, fun _ => rfl⟩
    · rename_i h
      constructor
      · intro heq
        cases heq
      · intro heq
        exact absurd heq h

theorem places_eq_used_iff {htab : HsearchData} {idx : Nat} {key : List UInt8} {e : EnvEntry} :
    htab.places idx = .used key e ↔
      0 < (htab.table idx).used ∧ (htab.table idx).entry = e ∧ e.key = key := by
  unfold HsearchData.places placeOf
  split
  · rename_i h
    constructor
    · intro heq
      cases heq
      exact ⟨h, rfl, rfl⟩
    · rintro ⟨_, rfl, rfl⟩
      rfl
  · rename_i h
    have hno : (if (htab.table idx).used = usedFree then Place.free else Place.deleted) ≠
        Place.used key e := by
      intro heq
      split at heq <;> cases heq
    exact ⟨fun heq => absurd heq hno, fun heq => absurd heq.1 h⟩

namespace HtabInv

variable {htab : HsearchData} (hinv : HtabInv htab)
include hinv

theorem places_eq_deleted_iff (idx : Nat) :
    htab.places idx = .deleted ↔ (htab.table idx).used = usedDeleted := by
  unfold HsearchData.places placeOf
  split
  · rename_i h
    constructor
    · intro heq
      cases heq
    · intro heq
      rw [heq] at h
      exact absurd h (by decide)
  · rename_i h
    rcases hinv.marked idx (by omega) with hfree | hdel
    · rw [hfree, if_pos rfl]
      constructor
      · intro heq
        cases heq
      · intro heq
        exact absurd heq (by decide)
    · rw [hdel, if_neg (by decide)]
      exact ⟨fun _ => rfl, fun _ => rfl⟩

/-- What `_compare_and_overwrite_entry` compares is whether the place holds the key. -/
theorem match_iff {idx : Nat} {key : List UInt8} :
    ((htab.table idx).used = (firstHash htab.size key : Int) ∧ key = (htab.table idx).entry.key) ↔
      htab.places idx = .used key (htab.table idx).entry := by
  rw [places_eq_used_iff]
  constructor
  · rintro ⟨hused, hkey⟩
    have hb := firstHash_bounds hinv.size key
    exact ⟨by omega, rfl, hkey.symm⟩
  · rintro ⟨hpos, _, hkey⟩
    refine ⟨?_, hkey.symm⟩
    rw [hinv.hashed idx hpos, hkey]

theorem vars_eq_some_iff {key : List UInt8} {e : EnvEntry} :
    htab.vars key = some e ↔ ∃ idx ∈ Finset.Icc 1 htab.size, htab.places idx = .used key e :=
  hinv.probed.contents_eq_some_iff

/-- An entry is stored under its own name. -/
theorem key_of_vars {key : List UInt8} {e : EnvEntry} (h : htab.vars key = some e) : e.key = key := by
  rcases hinv.vars_eq_some_iff.1 h with ⟨idx, _, hplace⟩
  exact (places_eq_used_iff.1 hplace).2.2

end HtabInv

/-! ## The search -/

section Search

variable (hooks : EnvHooks) {key : List UInt8} (data : List UInt8) (action : EnvAction)
  {htab : HsearchData} (flag : Nat) (hinv : HtabInv htab)
include hinv

theorem compare_of_ne {idx : Nat} (hno : ∀ e, htab.places idx ≠ .used key e) :
    compareAndOverwriteEntry hooks key data action htab flag (firstHash htab.size key) idx =
      none := by
  unfold compareAndOverwriteEntry
  simp only
  rw [if_neg]
  intro hmatch
  exact hno _ (hinv.match_iff.1 hmatch)

/-- What the search gives at a place that holds the key. -/
theorem compare_of_eq {idx : Nat} {e : EnvEntry} (hplace : htab.places idx = .used key e) :
    compareAndOverwriteEntry hooks key data action htab flag (firstHash htab.size key) idx =
      some (if action = .enter then
        if changeDenied hooks e (some data) .overwrite flag = true then
          HsearchRet.fail Errno.eperm htab
        else if doCallback e key (some data) .overwrite flag ≠ 0 then
          HsearchRet.fail Errno.einval htab
        else
          { ret := idx, retval := some idx, errno := none,
            htab := htab.setNode idx ((htab.table idx).withData data) }
      else
        { ret := idx, retval := some idx, errno := none, htab := htab }) := by
  have he := (places_eq_used_iff.1 hplace).2.1
  subst he
  unfold compareAndOverwriteEntry
  simp only
  rw [if_pos (hinv.match_iff.2 hplace)]
  split
  · split
    · rfl
    · split <;> rfl
  · rfl

omit hinv in
/-- The mark that the search keeps: none of the places so far is a deleted one, or this is one. -/
def FirstDeleted (htab : HsearchData) (key : List UInt8) (rounds firstDeleted : Nat) : Prop :=
  (firstDeleted = 0 ∧ ∀ m < rounds, htab.places (probeSeq htab.size key m) ≠ .deleted) ∨
    (firstDeleted ≠ 0 ∧ htab.places firstDeleted = .deleted ∧
      ∃ m < rounds, probeSeq htab.size key m = firstDeleted)

/-- A search that has ended without the variable: there is none, and unless the table is full the
place chosen for a new one is free or deleted and before every free place. -/
structure SearchStop (htab : HsearchData) (key : List UInt8) (idx firstDeleted : Nat) : Prop where
  absent : htab.vars key = none
  room : htab.filled ≠ htab.size → ∃ j < htab.size,
    probeSeq htab.size key j = (if firstDeleted ≠ 0 then firstDeleted else idx) ∧
    (∀ m < j, htab.places (probeSeq htab.size key m) ≠ .free) ∧
    ∀ k e, htab.places (probeSeq htab.size key j) ≠ .used k e

theorem firstDeleted_succ {j firstDeleted : Nat} (h : FirstDeleted htab key j firstDeleted) :
    FirstDeleted htab key (j + 1)
      (if (htab.table (probeSeq htab.size key j)).used = usedDeleted ∧ firstDeleted = 0 then
        probeSeq htab.size key j else firstDeleted) := by
  have hpos := (probeSeq_bounds hinv.size key j).1
  have hdel := hinv.places_eq_deleted_iff (probeSeq htab.size key j)
  split
  · rename_i hhere
    exact Or.inr ⟨by omega, hdel.2 hhere.1, j, Nat.lt_succ_self j, rfl⟩
  · rename_i hnot
    rcases h with ⟨hzero, hnone⟩ | ⟨hne, hplace, m, hm, hseq⟩
    · refine Or.inl ⟨hzero, ?_⟩
      intro m hm
      rcases Nat.lt_succ_iff_lt_or_eq.1 hm with hlt | rfl
      · exact hnone m hlt
      · intro hplace
        exact hnot ⟨hdel.1 hplace, hzero⟩
    · exact Or.inr ⟨hne, hplace, m, by omega, hseq⟩

theorem searchStop_of_free {j firstDeleted : Nat} (hj : j < htab.size)
    (hpass : Passed (envProbe hinv.size) htab.places key j)
    (hfirst : FirstDeleted htab key (j + 1) firstDeleted)
    (hfree : htab.places (probeSeq htab.size key j) = .free) :
    SearchStop htab key (probeSeq htab.size key j) firstDeleted := by
  refine ⟨hinv.probed.contents_none_of_free hpass hfree, ?_⟩
  intro _
  rcases hfirst with ⟨hzero, _⟩ | ⟨hne, hplace, m, hm, hseq⟩
  · rw [if_neg (by omega)]
    refine ⟨j, hj, rfl, fun m hm => (hpass m hm).1, ?_⟩
    intro k e heq
    rw [hfree] at heq
    cases heq
  · rw [if_pos hne]
    refine ⟨m, by omega, hseq, ?_, ?_⟩
    · intro n hn
      exact (hpass n (by omega)).1
    · intro k e heq
      rw [hseq, hplace] at heq
      cases heq

theorem searchStop_of_all {firstDeleted idx : Nat}
    (hpass : Passed (envProbe hinv.size) htab.places key htab.size)
    (hfirst : FirstDeleted htab key htab.size firstDeleted) :
    SearchStop htab key idx firstDeleted := by
  have hcard := card_places hinv.size
  have hpass' : Passed (envProbe hinv.size) htab.places key (envProbe hinv.size).places.card := by
    rw [hcard]
    exact hpass
  refine ⟨hpass'.contents_none, ?_⟩
  intro hroom
  rcases hfirst with ⟨_, hnone⟩ | ⟨hne, hplace, m, hm, hseq⟩
  · -- no free place and no deleted one: every place is in use
    have hfull := hpass'.card_eq (by
      intro m hm
      rw [hcard] at hm
      exact hnone m hm)
    rw [hcard] at hfull
    exact absurd (hinv.filled.trans hfull) hroom
  · rw [if_pos hne]
    refine ⟨m, hm, hseq, ?_, ?_⟩
    · intro n hn
      exact (hpass n (by omega)).1
    · intro k e heq
      rw [hseq, hplace] at heq
      cases heq

/-- The two ways a search ends. -/
inductive SearchEnd (hooks : EnvHooks) (key data : List UInt8) (action : EnvAction)
    (htab : HsearchData) (flag : Nat) : ProbeEnd → Prop
  | found {idx : Nat} {e : EnvEntry} {ret : HsearchRet} :
      idx ∈ Finset.Icc 1 htab.size → htab.places idx = .used key e →
      compareAndOverwriteEntry hooks key data action htab flag (firstHash htab.size key) idx =
        some ret → SearchEnd hooks key data action htab flag (.found ret)
  | stopped {idx firstDeleted : Nat} :
      SearchStop htab key idx firstDeleted →
      SearchEnd hooks key data action htab flag (.stopped idx firstDeleted)

theorem hsearchProbe_spec :
    ∀ (fuel j firstDeleted : Nat), j < htab.size → htab.size ≤ j + fuel →
      Passed (envProbe hinv.size) htab.places key (j + 1) →
      FirstDeleted htab key (j + 1) firstDeleted →
      ∃ probeEnd, hsearchProbe hooks key data action htab flag (firstHash htab.size key)
          (secondHash htab.size (firstHash htab.size key)) fuel (probeSeq htab.size key j)
          firstDeleted = some probeEnd ∧ SearchEnd hooks key data action htab flag probeEnd := by
  intro fuel
  induction fuel with
  | zero =>
      intro j firstDeleted hj hfuel
      omega
  | succ fuel ih =>
      intro j firstDeleted hj hfuel hpass hfirst
      simp only [hsearchProbe]
      rw [← probeSeq_succ]
      by_cases hlast : j + 1 = htab.size
      · -- the round that comes back to the first place
        rw [if_pos (by rw [hlast, probeSeq_size hinv.size])]
        refine ⟨_, rfl, SearchEnd.stopped ?_⟩
        rw [hlast] at hpass hfirst
        exact searchStop_of_all hinv hpass hfirst
      · have hback : probeSeq htab.size key (j + 1) ≠ firstHash htab.size key := by
          intro heq
          have h := probeSeq_inj hinv.size key (by simp only [Set.mem_Iio]; omega)
            (by simp only [Set.mem_Iio]; omega) (heq.trans (probeSeq_zero _ _).symm)
          omega
        rw [if_neg hback]
        have hfirst' := firstDeleted_succ hinv hfirst
        by_cases hkey : ∃ e, htab.places (probeSeq htab.size key (j + 1)) = .used key e
        · rcases hkey with ⟨e, hplace⟩
          have hcmp := compare_of_eq hooks data action flag hinv hplace
          rw [hcmp]
          exact ⟨_, rfl, SearchEnd.found
            (Finset.mem_Icc.2 (probeSeq_bounds hinv.size key (j + 1))) hplace hcmp⟩
        · rw [not_exists] at hkey
          rw [compare_of_ne hooks data action flag hinv hkey]
          by_cases hfree : (htab.table (probeSeq htab.size key (j + 1))).used = usedFree
          · simp only [hfree, ne_eq, not_true_eq_false, if_false]
            refine ⟨_, rfl, SearchEnd.stopped ?_⟩
            rw [hfree] at hfirst'
            exact searchStop_of_free hinv (by omega) hpass hfirst' (places_eq_free_iff.2 hfree)
          · simp only [ne_eq, hfree, not_false_eq_true, if_true]
            apply ih (j + 1) _ (by omega) (by omega) _ hfirst'
            exact hpass.succ (fun h => hfree (places_eq_free_iff.1 h)) hkey

theorem hsearchFirst_spec (key : List UInt8) :
    ∃ probeEnd, hsearchFirst hooks key data action htab flag = some probeEnd ∧
      SearchEnd hooks key data action htab flag probeEnd := by
  have hzero : FirstDeleted htab key 0 0 := Or.inl ⟨rfl, fun m hm => absurd hm (Nat.not_lt_zero m)⟩
  have hfirst := firstDeleted_succ hinv hzero
  rw [probeSeq_zero] at hfirst
  have h5 := hinv.size.five_le
  simp only [hsearchFirst]
  by_cases hfree : (htab.table (firstHash htab.size key)).used = usedFree
  · rw [if_neg (by rw [hfree]; decide)]
    refine ⟨_, rfl, SearchEnd.stopped ?_⟩
    rw [hfree, if_neg (by decide)] at hfirst
    have hstop := searchStop_of_free hinv (by omega : 0 < htab.size) (Passed.zero key) hfirst
      (by rw [probeSeq_zero]; exact places_eq_free_iff.2 hfree)
    rw [probeSeq_zero] at hstop
    exact hstop
  · rw [if_pos hfree]
    simp only [and_true] at hfirst
    by_cases hkey : ∃ e, htab.places (firstHash htab.size key) = .used key e
    · rcases hkey with ⟨e, hplace⟩
      have hcmp := compare_of_eq hooks data action flag hinv hplace
      rw [hcmp]
      have hb := firstHash_bounds hinv.size key
      exact ⟨_, rfl, SearchEnd.found (Finset.mem_Icc.2 ⟨hb.1, by omega⟩) hplace hcmp⟩
    · rw [not_exists] at hkey
      rw [compare_of_ne hooks data action flag hinv hkey]
      have hpass : Passed (envProbe hinv.size) htab.places key 1 :=
        (Passed.zero key).succ (fun h => hfree (places_eq_free_iff.1 h)) hkey
      exact hsearchProbe_spec hooks data action flag hinv htab.size 0 _ (by omega) (by omega) hpass hfirst

end Search

/-! ## What a call does to the variables -/

/-- The entry of a new variable; a place that is not in use has no flags. -/
def freshEntry (hooks : EnvHooks) (key data : List UInt8) : EnvEntry :=
  { key := key, data := data, callback := hooks.callbackInit key,
    flags := (hooks.flagsInit key).getD 0 }

def enterVars (hooks : EnvHooks) (full : Prop) [Decidable full] (vars : EnvVars)
    (key data : List UInt8) (flag : Nat) : Except Int EnvVars :=
  match vars key with
  | some e =>
      if changeDenied hooks e (some data) .overwrite flag = true then
        .error Errno.eperm
      else if doCallback e key (some data) .overwrite flag ≠ 0 then
        .error Errno.einval
      else
        .ok (Function.update vars key (some { e with data := data }))
  | none =>
      if full then
        .error Errno.enomem
      else if changeDenied hooks (freshEntry hooks key data) (some data) .create flag = true then
        .error Errno.eperm
      else if doCallback (freshEntry hooks key data) key (some data) .create flag ≠ 0 then
        .error Errno.einval
      else
        .ok (Function.update vars key (some (freshEntry hooks key data)))

def deleteVars (hooks : EnvHooks) (vars : EnvVars) (key : List UInt8) (flag : Nat) :
    Except Int EnvVars :=
  match vars key with
  | none => .error Errno.enoent
  | some e =>
      if changeDenied hooks e none .delete flag = true then
        .error Errno.eperm
      else if doCallback e key none .delete flag ≠ 0 then
        .error Errno.einval
      else
        .ok (Function.update vars key none)

/-! ## Changing one node -/

@[simp] theorem setNode_size (htab : HsearchData) (idx : Nat) (node : EnvEntryNode) :
    (htab.setNode idx node).size = htab.size := rfl

theorem places_setNode (htab : HsearchData) (idx : Nat) (node : EnvEntryNode) :
    (htab.setNode idx node).places = Function.update htab.places idx (placeOf node) := by
  funext i
  show placeOf (Function.update htab.table idx node i) = _
  by_cases hi : i = idx
  · rw [hi, Function.update_self, Function.update_self]
  · rw [Function.update_of_ne hi, Function.update_of_ne hi]
    rfl

namespace HtabInv

variable {htab : HsearchData}

/-- A node that is well formed by itself is put at a place. -/
theorem setNode (hinv : HtabInv htab) {idx : Nat} {node : EnvEntryNode} {filled : Nat}
    (hprobed : Probed (envProbe hinv.size) (Function.update htab.places idx (placeOf node)))
    (hhashed : 0 < node.used → node.used = firstHash htab.size node.entry.key)
    (hmarked : node.used ≤ 0 → node.used = usedFree ∨ node.used = usedDeleted)
    (hcleared : node.used ≤ 0 → node.entry.flags = 0)
    (hfilled : filled = (usedPlaces (Finset.Icc 1 htab.size)
      (Function.update htab.places idx (placeOf node))).card) :
    HtabInv { htab.setNode idx node with filled := filled } := by
  have hnode : ∀ i,
      Function.update htab.table idx node i = if i = idx then node else htab.table i := by
    intro i
    rw [Function.update_apply]
  have hplaces : HsearchData.places { htab.setNode idx node with filled := filled } =
      Function.update htab.places idx (placeOf node) := places_setNode htab idx node
  refine ⟨hinv.size, ?_, ?_, ?_, ?_, ?_⟩
  · rw [hplaces]
    exact hprobed
  · intro i
    show 0 < (Function.update htab.table idx node i).used →
      (Function.update htab.table idx node i).used =
        firstHash htab.size (Function.update htab.table idx node i).entry.key
    rw [hnode]
    split
    · exact hhashed
    · exact hinv.hashed i
  · intro i
    show (Function.update htab.table idx node i).used ≤ 0 →
      (Function.update htab.table idx node i).used = usedFree ∨
        (Function.update htab.table idx node i).used = usedDeleted
    rw [hnode]
    split
    · exact hmarked
    · exact hinv.marked i
  · intro i
    show (Function.update htab.table idx node i).used ≤ 0 →
      (Function.update htab.table idx node i).entry.flags = 0
    rw [hnode]
    split
    · exact hcleared
    · exact hinv.cleared i
  · rw [hplaces]
    exact hfilled

/-- Writing over the data of an entry. -/
theorem overwrite (hinv : HtabInv htab) {idx : Nat} (hidx : idx ∈ Finset.Icc 1 htab.size)
    {key : List UInt8} {e : EnvEntry} (hplace : htab.places idx = .used key e)
    (data : List UInt8) :
    HtabInv (htab.setNode idx ((htab.table idx).withData data)) ∧
      (htab.setNode idx ((htab.table idx).withData data)).vars =
        Function.update htab.vars key (some { e with data := data }) := by
  rcases places_eq_used_iff.1 hplace with ⟨hpos, rfl, rfl⟩
  have hplaceOf : placeOf ((htab.table idx).withData data) =
      .used (htab.table idx).entry.key { (htab.table idx).entry with data := data } := by
    unfold placeOf EnvEntryNode.withData
    simp only
    rw [if_pos hpos]
  rcases hinv.probed.assign hidx hplace { (htab.table idx).entry with data := data } with
    ⟨hprobed, hcontents⟩
  have hmem : idx ∈ usedPlaces (Finset.Icc 1 htab.size) htab.places :=
    mem_usedPlaces.2 ⟨hidx, _, _, hplace⟩
  constructor
  · apply hinv.setNode
    · rw [hplaceOf]
      exact hprobed
    · intro _
      exact hinv.hashed idx hpos
    · intro hle
      exact hinv.marked idx hle
    · intro hle
      exact absurd hpos (not_lt.2 hle)
    · rw [hplaceOf, usedPlaces_update_used hidx, Finset.insert_eq_of_mem hmem]
      exact hinv.filled
  · unfold HsearchData.vars
    rw [places_setNode, hplaceOf]
    exact hcontents

/-- `_hdelete` of the entry of a variable. -/
theorem remove (hinv : HtabInv htab) {idx : Nat} (hidx : idx ∈ Finset.Icc 1 htab.size)
    {key : List UInt8} {e : EnvEntry} (hplace : htab.places idx = .used key e) :
    HtabInv (hdeleteEntry htab idx) ∧
      (hdeleteEntry htab idx).vars = Function.update htab.vars key none := by
  have hmem : idx ∈ usedPlaces (Finset.Icc 1 htab.size) htab.places :=
    mem_usedPlaces.2 ⟨hidx, _, _, hplace⟩
  rcases hinv.probed.delete hidx hplace with ⟨hprobed, hcontents⟩
  constructor
  · apply hinv.setNode hprobed
    · intro hpos
      exact absurd hpos (show ¬ 0 < usedDeleted by decide)
    · intro _
      exact Or.inr rfl
    · intro _
      rfl
    · show htab.filled - 1 =
        (usedPlaces (Finset.Icc 1 htab.size) (Function.update htab.places idx .deleted)).card
      rw [usedPlaces_update_deleted, Finset.card_erase_of_mem hmem, ← hinv.filled]
  · show contents (Finset.Icc 1 htab.size) (htab.setNode idx _).places = _
    rw [places_setNode]
    exact hcontents

/-- A new entry at a place the search has come to. -/
theorem create (hinv : HtabInv htab) {key : List UInt8} (hnone : htab.vars key = none) {j : Nat}
    (hj : j < htab.size) (hway : ∀ m < j, htab.places (probeSeq htab.size key m) ≠ .free)
    (hplace : ∀ k e, htab.places (probeSeq htab.size key j) ≠ .used k e) {e : EnvEntry}
    (hkey : e.key = key) :
    HtabInv (htab.addEntry (probeSeq htab.size key j) (firstHash htab.size key) e) ∧
      (htab.addEntry (probeSeq htab.size key j) (firstHash htab.size key) e).vars =
        Function.update htab.vars key (some e) ∧
      (htab.addEntry (probeSeq htab.size key j) (firstHash htab.size key) e).places
        (probeSeq htab.size key j) = .used key e := by
  have hpos : 0 < ((firstHash htab.size key : Nat) : Int) := by
    have hb := (firstHash_bounds hinv.size key).1
    omega
  have hplaceOf : placeOf { used := firstHash htab.size key, entry := e } = .used key e := by
    rw [placeOf, if_pos hpos, hkey]
  -- so `filled` grows by one
  have hnot : probeSeq htab.size key j ∉ usedPlaces (Finset.Icc 1 htab.size) htab.places := by
    intro hmem
    rcases (mem_usedPlaces.1 hmem).2 with ⟨k, e', h⟩
    exact hplace k e' h
  have hidx : probeSeq htab.size key j ∈ Finset.Icc 1 htab.size :=
    Finset.mem_Icc.2 (probeSeq_bounds hinv.size key j)
  rcases hinv.probed.enter hnone (by rw [card_places]; exact hj) hway hplace e with
    ⟨hprobed, hcontents⟩
  refine ⟨?_, ?_, ?_⟩
  · apply hinv.setNode
    · rw [hplaceOf]
      exact hprobed
    · intro _
      rw [hkey]
    · intro hle
      exact absurd hpos (not_lt.2 hle)
    · intro hle
      exact absurd hpos (not_lt.2 hle)
    · rw [hplaceOf, usedPlaces_update_used hidx, Finset.card_insert_of_notMem hnot, ← hinv.filled]
  · show contents (Finset.Icc 1 htab.size) (htab.setNode _ _).places = _
    rw [places_setNode, hplaceOf]
    exact hcontents
  · show (htab.setNode _ _).places _ = _
    rw [places_setNode, Function.update_self, hplaceOf]

end HtabInv

/-! ## The calls -/

/-- What a call that enters a variable gives back, by what it does to the variables. -/
inductive Entered (htab : HsearchData) (key : List UInt8) (out : HsearchRet) :
    Except Int EnvVars → Prop
  | ok {vars : EnvVars} {idx : Nat} : out.htab.vars = vars → 0 < out.ret → out.retval = some idx →
      out.errno = none → vars key = some (out.htab.table idx).entry →
      Entered htab key out (.ok vars)
  | error {err : Int} : out.htab.vars = htab.vars → out.ret = 0 → out.retval = none →
      out.errno = some err → Entered htab key out (.error err)

section Calls

variable (hooks : EnvHooks) {htab : HsearchData} (hinv : HtabInv htab)
include hinv

/-- A search for a variable leaves the table alone. -/
theorem hsearchR_find (key data : List UInt8) (flag : Nat) :
    ∃ out, hsearchR hooks key data .find htab flag = some out ∧ out.htab = htab ∧
      ((htab.vars key = none ∧ out.ret = 0 ∧ out.retval = none ∧ out.errno = some Errno.esrch) ∨
        ∃ idx ∈ Finset.Icc 1 htab.size, ∃ e, htab.places idx = .used key e ∧ out.ret = idx ∧
          out.retval = some idx ∧ out.errno = none) := by
  rcases hsearchFirst_spec hooks data .find flag hinv key with ⟨probeEnd, hfirst, hend⟩
  rw [hsearchR, hfirst]
  cases hend with
  | found hidx hplace hcmp =>
      rw [compare_of_eq hooks data .find flag hinv hplace] at hcmp
      cases hcmp
      exact ⟨_, rfl, rfl, Or.inr ⟨_, hidx, _, hplace, rfl, rfl, rfl⟩⟩
  | stopped hstop =>
      exact ⟨_, rfl, rfl, Or.inl ⟨hstop.absent, rfl, rfl, rfl⟩⟩

/-- A refused new variable leaves a deleted place behind and the variables as they were. -/
theorem refused_spec {key : List UInt8} (hnone : htab.vars key = none) {j : Nat}
    (hj : j < htab.size) (hway : ∀ m < j, htab.places (probeSeq htab.size key m) ≠ .free)
    (hplace : ∀ k e, htab.places (probeSeq htab.size key j) ≠ .used k e) {e : EnvEntry}
    (hkey : e.key = key) (err : Int) :
    HtabInv (hdeleteEntry (htab.addEntry (probeSeq htab.size key j) (firstHash htab.size key) e)
        (probeSeq htab.size key j)) ∧
      Entered htab key (HsearchRet.fail err (hdeleteEntry
        (htab.addEntry (probeSeq htab.size key j) (firstHash htab.size key) e)
        (probeSeq htab.size key j))) (.error err) := by
  have hidx : probeSeq htab.size key j ∈ Finset.Icc 1 htab.size :=
    Finset.mem_Icc.2 (probeSeq_bounds hinv.size key j)
  rcases hinv.create hnone hj hway hplace hkey with ⟨hinv', hvars, hused⟩
  rcases hinv'.remove hidx hused with ⟨hinv'', hvars'⟩
  refine ⟨hinv'', Entered.error ?_ rfl rfl rfl⟩
  show (hdeleteEntry _ _).vars = htab.vars
  rw [hvars', hvars, Function.update_idem, ← hnone, Function.update_eq_self]

theorem hsearchCreate_spec {key : List UInt8} (data : List UInt8) (flag : Nat)
    (hnone : htab.vars key = none) {j : Nat} (hj : j < htab.size)
    (hway : ∀ m < j, htab.places (probeSeq htab.size key m) ≠ .free)
    (hplace : ∀ k e, htab.places (probeSeq htab.size key j) ≠ .used k e) {out : HsearchRet}
    (hout : out = hsearchCreate hooks key data htab flag (firstHash htab.size key)
      (probeSeq htab.size key j)) :
    HtabInv out.htab ∧ out.htab.size = htab.size ∧
      Entered htab key out
        (if changeDenied hooks (freshEntry hooks key data) (some data) .create flag = true then
          .error Errno.eperm
        else if doCallback (freshEntry hooks key data) key (some data) .create flag ≠ 0 then
          .error Errno.einval
        else
          .ok (Function.update htab.vars key (some (freshEntry hooks key data)))) := by
  have hunused : (htab.table (probeSeq htab.size key j)).used ≤ 0 := by
    by_contra hpos
    rw [not_le] at hpos
    exact hplace _ _ (places_eq_used_iff.2 ⟨hpos, rfl, rfl⟩)
  -- the flags of a place that is not used are 0, so that nothing of an old entry is left in the new one
  have hfresh : freshEntry hooks key data =
      { key := key, data := data, callback := hooks.callbackInit key,
        flags := (hooks.flagsInit key).getD
          (htab.table (probeSeq htab.size key j)).entry.flags } := by
    rw [hinv.cleared _ hunused, freshEntry]
  simp only [hsearchCreate, ← hfresh] at hout
  have hrefused := fun err => refused_spec hinv hnone hj hway hplace
    (show (freshEntry hooks key data).key = key from rfl) err
  by_cases hdenied : changeDenied hooks (freshEntry hooks key data) (some data) .create flag = true
  · rw [if_pos hdenied] at hout ⊢
    rw [hout]
    exact ⟨(hrefused Errno.eperm).1, rfl, (hrefused Errno.eperm).2⟩
  · rw [if_neg hdenied] at hout ⊢
    by_cases hcallback : doCallback (freshEntry hooks key data) key (some data) .create flag ≠ 0
    · rw [if_pos hcallback] at hout ⊢
      rw [hout]
      exact ⟨(hrefused Errno.einval).1, rfl, (hrefused Errno.einval).2⟩
    · rw [if_neg hcallback] at hout ⊢
      rw [hout]
      rcases hinv.create hnone hj hway hplace
        (show (freshEntry hooks key data).key = key from rfl) with ⟨hinv', hvars, hused⟩
      refine ⟨hinv', rfl, Entered.ok hvars Int.zero_lt_one rfl rfl ?_⟩
      rw [Function.update_self, (places_eq_used_iff.1 hused).2.1]

/-- A call that enters a variable does to the variables what `enterVars` says. -/
theorem hsearchR_enter (key data : List UInt8) (flag : Nat) :
    ∃ out, hsearchR hooks key data .enter htab flag = some out ∧ HtabInv out.htab ∧
      out.htab.size = htab.size ∧
      Entered htab key out
        (enterVars hooks (htab.filled = htab.size) htab.vars key data flag) := by
  rcases hsearchFirst_spec hooks data .enter flag hinv key with ⟨probeEnd, hfirst, hend⟩
  rw [hsearchR, hfirst, Option.map_some]
  cases hend with
  | @found idx e ret hidx hplace hcmp =>
      rw [compare_of_eq hooks data .enter flag hinv hplace, if_pos rfl, Option.some.injEq] at hcmp
      have hvar : htab.vars key = some e := hinv.vars_eq_some_iff.2 ⟨idx, hidx, hplace⟩
      rw [enterVars, hvar]
      simp only
      refine ⟨_, rfl, ?_⟩
      rw [← hcmp]
      split
      · exact ⟨hinv, rfl, Entered.error rfl rfl rfl rfl⟩
      · split
        · exact ⟨hinv, rfl, Entered.error rfl rfl rfl rfl⟩
        · rcases hinv.overwrite hidx hplace data with ⟨hinv', hvars⟩
          have hpos := (Finset.mem_Icc.1 hidx).1
          refine ⟨hinv', rfl, Entered.ok hvars (by simp only; omega) rfl rfl ?_⟩
          rw [Function.update_self, ← (places_eq_used_iff.1 hplace).2.1]
          show _ = some (Function.update htab.table idx _ idx).entry
          rw [Function.update_self]
          rfl
  | @stopped idx firstDeleted hstop =>
      simp only [if_true]
      rw [enterVars, hstop.absent]
      simp only
      by_cases hfull : htab.filled = htab.size
      · rw [if_pos hfull, if_pos hfull]
        exact ⟨_, rfl, hinv, rfl, Entered.error rfl rfl rfl rfl⟩
      · rw [if_neg hfull, if_neg hfull]
        -- the first deleted place of the way, or the free one at its end
        rcases hstop.room hfull with ⟨j, hj, hseq, hway, hplace⟩
        refine ⟨_, rfl, ?_⟩
        apply hsearchCreate_spec hooks hinv data flag hstop.absent hj hway hplace
        rw [hseq]

/-- A deletion does to the variables what `deleteVars` says. -/
theorem hdeleteR_spec (key : List UInt8) (flag : Nat) :
    ∃ ret htab', hdeleteR hooks key htab flag = some (ret, htab') ∧ HtabInv htab' ∧
      htab'.size = htab.size ∧
      ((ret = 0 ∧ deleteVars hooks htab.vars key flag = .ok htab'.vars) ∨
        (htab' = htab ∧ ret < 0 ∧ deleteVars hooks htab.vars key flag = .error (-ret))) := by
  rcases hsearchR_find hooks hinv key [] 0 with
    ⟨out, hout, hhtab, ⟨hnone, _, hretval, _⟩ | ⟨idx, hidx, e, hplace, _, hretval, _⟩⟩
  · rw [hdeleteR, hout, Option.map_some, hretval, deleteVars, hnone]
    exact ⟨_, _, rfl, hinv, rfl, Or.inr ⟨rfl, by decide, rfl⟩⟩
  · have hvar : htab.vars key = some e := hinv.vars_eq_some_iff.2 ⟨idx, hidx, hplace⟩
    rw [hdeleteR, hout, Option.map_some, hretval, deleteVars, hvar]
    simp only
    rw [(places_eq_used_iff.1 hplace).2.1]
    by_cases hdenied : changeDenied hooks e none .delete flag = true
    · rw [if_pos hdenied, if_pos hdenied]
      exact ⟨_, _, rfl, hinv, rfl, Or.inr ⟨rfl, by decide, rfl⟩⟩
    · rw [if_neg hdenied, if_neg hdenied]
      by_cases hcallback : doCallback e key none .delete flag ≠ 0
      · rw [if_pos hcallback, if_pos hcallback]
        exact ⟨_, _, rfl, hinv, rfl, Or.inr ⟨rfl, by decide, rfl⟩⟩
      · rw [if_neg hcallback, if_neg hcallback]
        rcases hinv.remove hidx hplace with ⟨hinv', hvars⟩
        exact ⟨_, _, rfl, hinv', rfl, Or.inl ⟨rfl, by rw [hvars]⟩⟩

end Calls

/-! ## Runs of calls -/

inductive EnvCall where
  | find (key : List UInt8)
  | enter (key data : List UInt8) (flag : Nat)
  | delete (key : List UInt8) (flag : Nat)

/-- What the caller of `hsearch_r` has in hand: the entry, or `errno`. -/
def HsearchRet.result (out : HsearchRet) : Except Int (Option EnvEntry) :=
  match out.retval with
  | some idx => .ok (some (out.htab.table idx).entry)
  | none => .error (out.errno.getD 0)

def runCall (hooks : EnvHooks) (htab : HsearchData) :
    EnvCall → Option (Except Int (Option EnvEntry) × HsearchData)
  | .find key => (hsearchR hooks key [] .find htab 0).map fun out => (out.result, out.htab)
  | .enter key data flag =>
      (hsearchR hooks key data .enter htab flag).map fun out => (out.result, out.htab)
  | .delete key flag =>
      (hdeleteR hooks key htab flag).map fun r =>
        (if r.1 = 0 then .ok none else .error (-r.1), r.2)

def runCalls (hooks : EnvHooks) :
    List EnvCall → HsearchData → Option (List (Except Int (Option EnvEntry)) × HsearchData)
  | [], htab => some ([], htab)
  | call :: calls, htab => do
      let (result, htab) ← runCall hooks htab call
      let (results, htab) ← runCalls hooks calls htab
      return (result :: results, htab)

open Classical in
/-- A call on a finite map that holds at most `size` variables. -/
noncomputable def callVars (hooks : EnvHooks) (size : Nat) (vars : EnvVars) :
    EnvCall → Except Int (Option EnvEntry) × EnvVars
  | .find key =>
      match vars key with
      | some e => (.ok (some e), vars)
      | none => (.error Errno.esrch, vars)
  | .enter key data flag =>
      match enterVars hooks ({k | vars k ≠ none}.ncard = size) vars key data flag with
      | .ok vars' => (.ok (vars' key), vars')
      | .error err => (.error err, vars)
  | .delete key flag =>
      match deleteVars hooks vars key flag with
      | .ok vars' => (.ok none, vars')
      | .error err => (.error err, vars)

noncomputable def runVars (hooks : EnvHooks) (size : Nat) :
    List EnvCall → EnvVars → List (Except Int (Option EnvEntry)) × EnvVars
  | [], vars => ([], vars)
  | call :: calls, vars =>
      let r := runVars hooks size calls (callVars hooks size vars call).2
      ((callVars hooks size vars call).1 :: r.1, r.2)

/-- `filled` counts the variables. -/
theorem HtabInv.filled_eq {htab : HsearchData} (hinv : HtabInv htab) :
    htab.filled = {k | htab.vars k ≠ none}.ncard :=
  hinv.filled.trans hinv.probed.ncard_keys.symm

theorem HtabInv.finite_vars {htab : HsearchData} (hinv : HtabInv htab) :
    {k | htab.vars k ≠ none}.Finite :=
  hinv.probed.finite_keys

theorem HtabInv.filled_le {htab : HsearchData} (hinv : HtabInv htab) : htab.filled ≤ htab.size := by
  calc htab.filled
      = (usedPlaces (Finset.Icc 1 htab.size) htab.places).card := hinv.filled
    _ ≤ (Finset.Icc 1 htab.size).card := Finset.card_le_card usedPlaces_subset
    _ = htab.size := by rw [Nat.card_Icc, Nat.add_sub_cancel]

theorem enterVars_congr {hooks : EnvHooks} {full full' : Prop} [Decidable full] [Decidable full']
    (h : full ↔ full') (vars : EnvVars) (key data : List UInt8) (flag : Nat) :
    enterVars hooks full vars key data flag = enterVars hooks full' vars key data flag := by
  simp only [enterVars, h]

/-- One call on the table is one call on the variables. -/
theorem runCall_refines (hooks : EnvHooks) {htab : HsearchData} (hinv : HtabInv htab)
    (call : EnvCall) :
    ∃ result htab', runCall hooks htab call = some (result, htab') ∧ HtabInv htab' ∧
      htab'.size = htab.size ∧ callVars hooks htab.size htab.vars call = (result, htab'.vars) := by
  cases call with
  | find key =>
      rcases hsearchR_find hooks hinv key [] 0 with
        ⟨out, hout, hhtab, ⟨hnone, _, hretval, herrno⟩ | ⟨idx, hidx, e, hplace, _, hretval, _⟩⟩
      · refine ⟨out.result, out.htab, by rw [runCall, hout, Option.map_some], ?_, ?_, ?_⟩
        · rw [hhtab]
          exact hinv
        · rw [hhtab]
        · rw [callVars, hnone, HsearchRet.result, hretval, herrno, hhtab]
          rfl
      · have hvar : htab.vars key = some e := hinv.vars_eq_some_iff.2 ⟨idx, hidx, hplace⟩
        refine ⟨out.result, out.htab, by rw [runCall, hout, Option.map_some], ?_, ?_, ?_⟩
        · rw [hhtab]
          exact hinv
        · rw [hhtab]
        · rw [callVars, hvar, HsearchRet.result, hretval, hhtab]
          simp only
          rw [(places_eq_used_iff.1 hplace).2.1]
  | enter key data flag =>
      rcases hsearchR_enter hooks hinv key data flag with ⟨out, hout, hinv', hsize, hentered⟩
      refine ⟨out.result, out.htab, by rw [runCall, hout, Option.map_some], hinv', hsize, ?_⟩
      classical
      -- whether the table is full is seen from its variables
      have hfull : (htab.filled = htab.size) ↔ ({k | htab.vars k ≠ none}.ncard = htab.size) := by
        rw [hinv.filled_eq]
      rw [enterVars_congr hfull] at hentered
      rw [callVars]
      generalize hr : enterVars hooks ({k | htab.vars k ≠ none}.ncard = htab.size) htab.vars key data
        flag = r at hentered
      cases hentered with
      | ok hvars _ hretval _ hkey =>
          simp only
          rw [HsearchRet.result, hretval, hvars, hkey]
      | error hvars _ hretval herrno =>
          simp only
          rw [HsearchRet.result, hretval, herrno, hvars]
          rfl
  | delete key flag =>
      rcases hdeleteR_spec hooks hinv key flag with
        ⟨ret, htab', hout, hinv', hsize, ⟨hret, hvars⟩ | ⟨hhtab, hret, hvars⟩⟩
      · refine ⟨_, htab', by rw [runCall, hout, Option.map_some], hinv', hsize, ?_⟩
        rw [callVars, hvars, hret]
        rfl
      · refine ⟨_, htab', by rw [runCall, hout, Option.map_some], hinv', hsize, ?_⟩
        rw [callVars, hvars, hhtab]
        simp only
        rw [if_neg (by omega)]

/-- A run of calls on the table is a run of calls on the variables. -/
theorem runCalls_refines (hooks : EnvHooks) (calls : List EnvCall) :
    ∀ {htab : HsearchData}, HtabInv htab →
      ∃ results htab', runCalls hooks calls htab = some (results, htab') ∧ HtabInv htab' ∧
        htab'.size = htab.size ∧
        runVars hooks htab.size calls htab.vars = (results, htab'.vars) := by
  induction calls with
  | nil =>
      intro htab hinv
      exact ⟨_, _, rfl, hinv, rfl, rfl⟩
  | cons call calls ih =>
      intro htab hinv
      rcases runCall_refines hooks hinv call with ⟨result, htab1, hcall, hinv1, hsize1, hvars1⟩
      rcases ih hinv1 with ⟨results, htab2, hcalls, hinv2, hsize2, hvars2⟩
      refine ⟨result :: results, htab2, ?_, hinv2, hsize2.trans hsize1, ?_⟩
      · simp only [runCalls, hcall, hcalls, Option.bind_eq_bind, Option.bind_some, Option.pure_def]
      · rw [hsize1] at hvars2
        simp only [runVars, hvars1, hvars2]

/-- The table that `hcreate_r` makes. -/
theorem htabInv_new {size : Nat} (hs : TableSize size) :
    HtabInv { size := size, filled := 0, table := fun _ => emptyNode } ∧
      HsearchData.vars { size := size, filled := 0, table := fun _ => emptyNode } =
        fun _ => none := by
  have hfree : ∀ i ∈ (envProbe hs).places,
      HsearchData.places { size := size, filled := 0, table := fun _ => emptyNode } i = .free := by
    intro i _
    exact places_eq_free_iff.2 rfl
  refine ⟨⟨hs, probed_of_free hfree, ?_, ?_, ?_, ?_⟩, ?_⟩
  · intro idx hpos
    exact absurd hpos (show ¬ 0 < usedFree by decide)
  · intro idx _
    exact Or.inl rfl
  · intro idx _
    rfl
  · symm
    rw [Finset.card_eq_zero, Finset.eq_empty_iff_forall_notMem]
    intro i hi
    rcases mem_usedPlaces.1 hi with ⟨hmem, k, v, hused⟩
    rw [hfree i hmem] at hused
    cases hused
  · funext key
    exact contents_of_free hfree key

/-- From its creation on the table is a finite map with room for `size` variables: every run of
calls comes to an end, gives the results of the map, and leaves `filled` at the number of variables. -/
theorem hcreateR_runCalls (hooks : EnvHooks) {nel : Nat} (h2 : 2 ≤ nel) (hlt : nel < 2 ^ 29)
    (calls : List EnvCall) :
    ∃ htab results htab', hcreateR nel = some htab ∧ nel ≤ htab.size ∧
      runCalls hooks calls htab = some (results, htab') ∧
      runVars hooks htab.size calls (fun _ => none) = (results, htab'.vars) ∧
      htab'.filled = {k | htab'.vars k ≠ none}.ncard ∧ htab'.filled ≤ htab.size := by
  rcases hcreateR_spec h2 hlt with ⟨size, hcreate, hprime, h5, hle, _⟩
  rcases htabInv_new ⟨hprime, h5⟩ with ⟨hinv, hvars⟩
  rcases runCalls_refines hooks calls hinv with ⟨results, htab', hrun, hinv', hsize, hruns⟩
  rw [hvars] at hruns
  have hfilled := hinv'.filled_le
  rw [hsize] at hfilled
  exact ⟨_, results, htab', hcreate, hle, hrun, hruns, hinv'.filled_eq, hfilled⟩

theorem update_eq_some {key k : List UInt8} {e e' : EnvEntry}
    (h : Function.update (fun _ => none) key (some e) k = some e') : k = key ∧ e' = e := by
  by_cases hk : k = key
  · rw [hk, Function.update_self] at h
    exact ⟨hk, (Option.some.inj h).symm⟩
  · rw [Function.update_of_ne hk] at h
    cases h

def noHooks : EnvHooks :=
  { changeOk := none, callbackInit := fun _ => none, flagsInit := fun _ => none }

/-- The variable `a` is entered, found, deleted and no more found. -/
theorem hcreateR_runCalls_one :
    ∃ htab results htab', hcreateR 2 = some htab ∧ 2 ≤ htab.size ∧
      runCalls noHooks [.enter [97] [49] 0, .find [97], .delete [97] 0, .find [97]] htab =
        some (results, htab') ∧
      runVars noHooks htab.size [.enter [97] [49] 0, .find [97], .delete [97] 0, .find [97]]
        (fun _ => none) = (results, htab'.vars) ∧
      htab'.filled = {k | htab'.vars k ≠ none}.ncard ∧ htab'.filled ≤ htab.size :=
  hcreateR_runCalls noHooks (by decide) (by decide)
    [.enter [97] [49] 0, .find [97], .delete [97] 0, .find [97]]

/-! A table of five places with the variable `a=1`. -/

def new5 : HsearchData :=
  { size := 5, filled := 0, table := fun _ => emptyNode }

def oneVar : HsearchData :=
  new5.addEntry 3 3 (freshEntry noHooks [97] [49])

theorem new5_spec : HtabInv new5 ∧ new5.vars = fun _ => none :=
  htabInv_new ⟨by decide, le_refl 5⟩

/-- The table after `hsearch_r` has entered `a` with the value `data`. -/
theorem new5_enter (data : List UInt8) :
    HtabInv (new5.addEntry 3 3 (freshEntry noHooks [97] data)) ∧
      (new5.addEntry 3 3 (freshEntry noHooks [97] data)).vars =
        Function.update (fun _ => none) [97] (some (freshEntry noHooks [97] data)) := by
  rcases hsearchR_enter noHooks new5_spec.1 [97] data 0 with ⟨out, hout, hinv', _, hentered⟩
  have hrun : hsearchR noHooks [97] data .enter new5 0 =
      some { ret := 1, retval := some 3, errno := none,
             htab := new5.addEntry 3 3 (freshEntry noHooks [97] data) } := rfl
  obtain rfl := Option.some.inj (hout.symm.trans hrun)
  have henter : enterVars noHooks (new5.filled = new5.size) new5.vars [97] data 0 =
      .ok (Function.update (fun _ => none) [97] (some (freshEntry noHooks [97] data))) := by
    rw [new5_spec.2]
    rfl
  rw [henter] at hentered
  refine ⟨hinv', ?_⟩
  cases hentered with
  | ok hnew => exact hnew

theorem oneVar_spec :
    HtabInv oneVar ∧
      oneVar.vars = Function.update (fun _ => none) [97] (some (freshEntry noHooks [97] [49])) :=
  new5_enter [49]

theorem oneVar_eq_some {k : List UInt8} {e : EnvEntry} (h : oneVar.vars k = some e) :
    k = [97] ∧ e = freshEntry noHooks [97] [49] := by
  rw [oneVar_spec.2] at h
  exact update_eq_some h

/-! The same table with a backslash and a line feed for the value. -/

def escVar : HsearchData :=
  new5.addEntry 3 3 (freshEntry noHooks [97] [92, 10])

theorem escVar_spec :
    HtabInv escVar ∧
      escVar.vars = Function.update (fun _ => none) [97] (some (freshEntry noHooks [97] [92, 10])) :=
  new5_enter [92, 10]

theorem escVar_eq_some {k : List UInt8} {e : EnvEntry} (h : escVar.vars k = some e) :
    k = [97] ∧ e = freshEntry noHooks [97] [92, 10] := by
  rw [escVar_spec.2] at h
  exact update_eq_some h

/-! Tables of five places that calls have filled. -/

theorem htabInv_of_calls (calls : List EnvCall) {htab : HsearchData}
    (h : (runCalls noHooks calls new5).map Prod.snd = some htab) : HtabInv htab := by
  rcases runCalls_refines noHooks calls new5_spec.1 with ⟨results, htab', hrun, hinv, _, _⟩
  rw [hrun] at h
  rw [← Option.some.inj h]
  exact hinv

/-- Three names that begin at the same place. -/
def threeVars : HsearchData :=
  ((new5.addEntry 4 4 (freshEntry noHooks [98] [49])).addEntry 2 4 (freshEntry noHooks [103] [49])).addEntry
    5 4 (freshEntry noHooks [108] [49])

theorem htabInv_threeVars : HtabInv threeVars :=
  htabInv_of_calls [.enter [98] [49] 0, .enter [103] [49] 0, .enter [108] [49] 0] rfl

/-- `A` and two names of one byte that is not ASCII. -/
def cycleVars : HsearchData :=
  ((new5.addEntry 1 1 (freshEntry noHooks [65] [49])).addEntry 4 1 (freshEntry noHooks [150] [49])).addEntry
    2 1 (freshEntry noHooks [200] [49])

theorem htabInv_cycleVars : HtabInv cycleVars :=
  htabInv_of_calls [.enter [65] [49] 0, .enter [150] [49] 0, .enter [200] [49] 0] rfl

end Env
end CanmvK230
