import CanmvK230.Env.Export

/-!
# Complete — the names that the console offers (`env_complete`)

`env_complete` walks over the table with `hmatch_r`, whose loop stops in front of the last place, and takes
names as long as there is room in `cmdv` and in the buffer.

* `hmatchR_cons`: each call gives the next of the places that match, in their order.
* `envComplete_spec`: what is offered is a beginning of these names, sorted, inside the buffer, with dots
  behind it exactly if some of them had no room.
* `env_complete_all_iff`: without the dots every variable with the prefix is offered exactly if the one in
  the last place does not have it.
-/

namespace CanmvK230
namespace Env

open Lib

section Source

def chDollar : UInt8 := 36
def chOpen : UInt8 := 123
def chClose : UInt8 := 125

/-- What `var` points to behind the tests of `dollar_comp`; `none` is the return of 0. -/
def completePrefix (var : List UInt8) (dollarComp : Bool) : Option (List UInt8) :=
  if dollarComp = true then
    if var.headD 0 ≠ chDollar then
      none
    else if var.tail.headD 0 = chOpen then
      some var.tail.tail
    else if var.tail.headD 0 ≠ 0 then
      none
    else
      some var.tail
  else
    some var

/-- The text that `cmdv[found]` is set to. -/
def completeText (dollarComp : Bool) (key : List UInt8) : List UInt8 :=
  if dollarComp = true then [chDollar, chOpen] ++ key ++ [chClose] else key

/-- The loop of `env_complete`, with `found` texts in `cmdv` and `bufsz` bytes of the buffer left: the texts
that it adds, and whether it was left with an index. -/
def completeLoop (pat : List UInt8) (maxv : Int) (dollarComp : Bool) (htab : HsearchData) :
    Nat → Nat → Int → Int → Option (List (List UInt8) × Bool)
  | 0, _, _, _ => none
  | fuel + 1, idx, found, bufsz =>
      match hmatchR pat idx htab with
      | none => some ([], false)
      | some idx =>
          let key := (htab.table idx).entry.key
          let vallen : Int := key.length + 1
          if found ≥ maxv - 2 then
            some ([], true)
          else if bufsz < vallen + (if dollarComp = true then 3 else 0) then
            some ([], true)
          else
            let bufsz := if dollarComp = true then bufsz - 3 else bufsz
            (completeLoop pat maxv dollarComp htab fuel idx (found + 1) (bufsz - vallen)).map fun r =>
              (completeText dollarComp key :: r.1, r.2)

/-- `strcmp_compar` -/
def strcmpCompar (s1 s2 : List UInt8) : Bool :=
  strcmp s1 s2 ≤ 0

-- `"..."`
def dots : List UInt8 := [46, 46, 46]

/-- `env_complete`: the texts in `cmdv`, of which it returns the number. -/
def envComplete (var : List UInt8) (maxv bufsz : Int) (dollarComp : Bool) (htab : HsearchData) :
    Option (List (List UInt8)) :=
  match completePrefix var dollarComp with
  | none => some []
  | some pat =>
      (completeLoop pat maxv dollarComp htab (htab.size + 1) 0 0 bufsz).map fun r =>
        qsort strcmpCompar r.1 ++ if r.2 = true then [completeText dollarComp dots] else []

end Source

/-! ## The walk -/

section Walk

variable {pat : List UInt8} {htab : HsearchData}

/-- A variable that starts with `pat`. -/
def Matched (pat : List UInt8) (htab : HsearchData) (idx : Nat) : Prop :=
  0 < (htab.table idx).used ∧ pat.isPrefixOf (htab.table idx).entry.key = true

instance (pat : List UInt8) (htab : HsearchData) (idx : Nat) : Decidable (Matched pat htab idx) :=
  inferInstanceAs (Decidable (_ ∧ _))

/-- The places behind `last` that `hmatch_r` looks at and that match. -/
def matchedFrom (pat : List UInt8) (htab : HsearchData) (last : Nat) : List Nat :=
  (List.range' (last + 1) (htab.size - (last + 1))).filter fun idx => decide (Matched pat htab idx)

theorem mem_matchedFrom {last idx : Nat} :
    idx ∈ matchedFrom pat htab last ↔ last < idx ∧ idx < htab.size ∧ Matched pat htab idx := by
  unfold matchedFrom
  rw [List.mem_filter, List.mem_range'_1, decide_eq_true_eq]
  constructor
  · rintro ⟨⟨hlo, hhi⟩, hmatch⟩
    exact ⟨by omega, by omega, hmatch⟩
  · rintro ⟨hlo, hhi, hmatch⟩
    exact ⟨⟨by omega, by omega⟩, hmatch⟩

theorem matchedFrom_of_le {last : Nat} (h : htab.size ≤ last + 1) : matchedFrom pat htab last = [] := by
  unfold matchedFrom
  rw [Nat.sub_eq_zero_of_le h]
  rfl

theorem matchedFrom_of_lt {last : Nat} (h : last + 1 < htab.size) :
    matchedFrom pat htab last =
      if Matched pat htab (last + 1) then (last + 1) :: matchedFrom pat htab (last + 1)
      else matchedFrom pat htab (last + 1) := by
  have hlen : htab.size - (last + 1) = htab.size - (last + 1 + 1) + 1 := by omega
  unfold matchedFrom
  rw [hlen, List.range'_succ, List.filter_cons]
  simp only [decide_eq_true_eq]

theorem hmatchLoop_of_lt {idx : Nat} (fuel : Nat) (h : idx < htab.size) :
    hmatchLoop pat htab (fuel + 1) idx =
      if Matched pat htab idx then some idx else hmatchLoop pat htab fuel (idx + 1) := by
  rw [hmatchLoop, if_pos h]
  rfl

/-- One run of the loop of `hmatch_r`. -/
theorem hmatchLoop_spec :
    ∀ (fuel last : Nat), htab.size ≤ last + 1 + fuel →
      (hmatchLoop pat htab fuel (last + 1) = none ∧ matchedFrom pat htab last = []) ∨
      ∃ idx, hmatchLoop pat htab fuel (last + 1) = some idx ∧
        matchedFrom pat htab last = idx :: matchedFrom pat htab idx := by
  intro fuel
  induction fuel with
  | zero =>
      intro last hfuel
      exact Or.inl ⟨rfl, matchedFrom_of_le hfuel⟩
  | succ fuel ih =>
      intro last hfuel
      by_cases hlt : last + 1 < htab.size
      · rw [hmatchLoop_of_lt fuel hlt, matchedFrom_of_lt hlt]
        by_cases hmatch : Matched pat htab (last + 1)
        · rw [if_pos hmatch, if_pos hmatch]
          exact Or.inr ⟨last + 1, rfl, rfl⟩
        · rw [if_neg hmatch, if_neg hmatch]
          exact ih (last + 1) (by omega)
      · rw [hmatchLoop, if_neg hlt]
        exact Or.inl ⟨rfl, matchedFrom_of_le (by omega)⟩

/-- Each call gives the next place that matches. -/
theorem hmatchR_cons (pat : List UInt8) (htab : HsearchData) (last : Nat) :
    (hmatchR pat last htab = none ∧ matchedFrom pat htab last = []) ∨
    ∃ idx, hmatchR pat last htab = some idx ∧
      matchedFrom pat htab last = idx :: matchedFrom pat htab idx :=
  hmatchLoop_spec htab.size last (by omega)

/-- The bytes of the texts with their NULs. -/
def roomOf (texts : List (List UInt8)) : Int :=
  (texts.map fun text => (text.length : Int) + 1).sum

/-- What the loop gives of the places that match: a beginning of them, with room for the next one only if
there is none. -/
structure Offered (maxv : Int) (dollarComp : Bool) (htab : HsearchData) (places : List Nat)
    (found bufsz : Int) (taken : List Nat) (more : Bool) : Prop where
  prefixed : ∃ rest, places = taken ++ rest ∧ (more = true ↔ rest ≠ [])
  count : found + taken.length ≤ max found (maxv - 2)
  room : roomOf (taken.map fun idx => completeText dollarComp (htab.table idx).entry.key) ≤ max 0 bufsz

theorem length_completeText (dollarComp : Bool) (key : List UInt8) :
    ((completeText dollarComp key).length : Int) + 1 =
      key.length + 1 + if dollarComp = true then 3 else 0 := by
  unfold completeText
  split
  · rw [List.length_append, List.length_append]
    simp only [List.length_cons, List.length_nil]
    omega
  · omega

theorem completeLoop_spec (maxv : Int) (dollarComp : Bool) (fuel : Nat) :
    ∀ (idx : Nat) (found bufsz : Int), idx ≤ htab.size → htab.size < idx + fuel →
      ∃ taken more, completeLoop pat maxv dollarComp htab fuel idx found bufsz =
          some (taken.map fun idx => completeText dollarComp (htab.table idx).entry.key, more) ∧
        Offered maxv dollarComp htab (matchedFrom pat htab idx) found bufsz taken more := by
  induction fuel with
  | zero =>
      intro idx found bufsz hle hfuel
      omega
  | succ fuel ih =>
      intro idx found bufsz hle hfuel
      rw [completeLoop]
      rcases hmatchR_cons pat htab idx with ⟨hnone, hnil⟩ | ⟨next, hnext, hcons⟩
      · rw [hnone, hnil]
        refine ⟨[], false, rfl, ⟨[], rfl, by simp⟩, ?_, ?_⟩
        · exact le_max_of_le_left (by simp)
        · exact le_max_left _ _
      · have hmem : next ∈ matchedFrom pat htab idx := by
          rw [hcons]
          exact List.mem_cons_self
        rcases mem_matchedFrom.1 hmem with ⟨hlo, hhi, _⟩
        have hlen := length_completeText dollarComp (htab.table next).entry.key
        have hstop : Offered maxv dollarComp htab (matchedFrom pat htab idx) found bufsz [] true := by
          have hne : matchedFrom pat htab idx ≠ [] := by
            rw [hcons]
            exact List.cons_ne_nil _ _
          refine ⟨⟨_, rfl, iff_of_true rfl hne⟩, ?_, ?_⟩
          · exact le_max_of_le_left (by simp)
          · exact le_max_left _ _
        rw [hnext]
        dsimp only
        -- `cmdv` is full, or the buffer, or the name is taken
        by_cases hfull : found ≥ maxv - 2
        · rw [if_pos hfull]
          exact ⟨[], true, rfl, hstop⟩
        · rw [if_neg hfull]
          by_cases hroom : bufsz < ((htab.table next).entry.key.length : Int) + 1 +
              (if dollarComp = true then 3 else 0)
          · rw [if_pos hroom]
            exact ⟨[], true, rfl, hstop⟩
          · rw [if_neg hroom]
            rcases ih next (found + 1) ((if dollarComp = true then bufsz - 3 else bufsz) -
                ((htab.table next).entry.key.length + 1)) (by omega) (by omega) with
              ⟨taken, more, hrun, ⟨rest, hrest, hmore⟩, hcount, hused⟩
            refine ⟨next :: taken, more, by rw [hrun]; rfl, ⟨rest, ?_, hmore⟩, ?_, ?_⟩
            · rw [hcons, hrest, List.cons_append]
            · rw [List.length_cons]
              push_cast
              omega
            · rw [List.map_cons]
              simp only [roomOf, List.map_cons, List.sum_cons] at hused ⊢
              rw [hlen]
              by_cases hdollar : dollarComp = true
              · rw [if_pos hdollar] at hroom hused ⊢
                omega
              · rw [if_neg hdollar] at hroom hused ⊢
                omega

end Walk

/-! ## What is offered -/

section Offer

variable {htab : HsearchData} {var pat : List UInt8} {dollarComp : Bool}

/-- The names that match, in the order of their places. -/
theorem mem_names_iff {key : List UInt8} :
    key ∈ (matchedFrom pat htab 0).map (fun idx => (htab.table idx).entry.key) ↔
      ∃ idx e, 0 < idx ∧ idx < htab.size ∧ htab.places idx = .used key e ∧ pat <+: key := by
  rw [List.mem_map]
  constructor
  · rintro ⟨idx, hmem, rfl⟩
    rcases mem_matchedFrom.1 hmem with ⟨hlo, hhi, hused, hpre⟩
    exact ⟨idx, (htab.table idx).entry, hlo, hhi, places_eq_used_iff.2 ⟨hused, rfl, rfl⟩,
      List.isPrefixOf_iff_prefix.1 hpre⟩
  · rintro ⟨idx, e, hlo, hhi, hplace, hpre⟩
    rcases places_eq_used_iff.1 hplace with ⟨hused, rfl, rfl⟩
    exact ⟨idx, mem_matchedFrom.2 ⟨hlo, hhi, hused, List.isPrefixOf_iff_prefix.2 hpre⟩, rfl⟩

theorem prefixed_names {places taken rest : List Nat} (h : places = taken ++ rest) :
    taken.map (fun idx => (htab.table idx).entry.key) <+:
      places.map fun idx => (htab.table idx).entry.key := by
  rw [h, List.map_append]
  exact List.prefix_append _ _

/-- `env_complete` comes to an end. -/
theorem envComplete_spec (maxv bufsz : Int) (hpre : completePrefix var dollarComp = some pat) :
    ∃ taken more, envComplete var maxv bufsz dollarComp htab =
        some (qsort strcmpCompar
            ((taken.map fun idx => (htab.table idx).entry.key).map (completeText dollarComp)) ++
          if more = true then [completeText dollarComp dots] else []) ∧
      Offered maxv dollarComp htab (matchedFrom pat htab 0) 0 bufsz taken more := by
  rcases @completeLoop_spec pat htab maxv dollarComp (htab.size + 1) 0 0 bufsz (by omega) (by omega) with
    ⟨taken, more, hrun, hoffered⟩
  refine ⟨taken, more, ?_, hoffered⟩
  simp only [envComplete, hpre, hrun, Option.map_some, List.map_map]
  rfl

theorem ascii_completeText (dollarComp : Bool) {key : List UInt8} (h : Ascii key) :
    Ascii (completeText dollarComp key) := by
  unfold completeText
  split
  · intro c hc
    rw [List.mem_append, List.mem_append] at hc
    rcases hc with (hopen | hkey) | hclose
    · simp only [List.mem_cons, List.not_mem_nil, or_false] at hopen
      rcases hopen with rfl | rfl
      · exact ⟨by decide, by decide⟩
      · exact ⟨by decide, by decide⟩
    · exact h c hkey
    · rw [List.mem_singleton.1 hclose]
      exact ⟨by decide, by decide⟩
  · exact h

theorem completeText_inj (dollarComp : Bool) {key key' : List UInt8}
    (h : completeText dollarComp key = completeText dollarComp key') : key = key' := by
  unfold completeText at h
  split at h
  · exact List.append_cancel_left (List.append_cancel_right h)
  · exact h

theorem texts_sorted (dollarComp : Bool) {names : List (List UInt8)} (hascii : ∀ key ∈ names, Ascii key)
    (hnodup : names.Nodup) :
    (qsort strcmpCompar (names.map (completeText dollarComp))).Pairwise ByName := by
  refine qsort_byName id ?_ ?_
  · intro text htext
    rcases List.mem_map.1 htext with ⟨key, hkey, rfl⟩
    exact ascii_completeText dollarComp (hascii key hkey)
  · refine List.Pairwise.map _ ?_ hnodup
    intro key key' hne htext
    exact hne (completeText_inj dollarComp htext)

variable (hinv : HtabInv htab)
include hinv

/-- No name is there twice. -/
theorem nodup_names : ((matchedFrom pat htab 0).map fun idx => (htab.table idx).entry.key).Nodup := by
  have hnodup : (matchedFrom pat htab 0).Nodup := List.Nodup.filter _ List.nodup_range'
  rw [List.nodup_map_iff_inj_on hnodup]
  intro i hi j hj hkey
  rcases mem_matchedFrom.1 hi with ⟨hilo, hihi, hiused, _⟩
  rcases mem_matchedFrom.1 hj with ⟨hjlo, hjhi, hjused, _⟩
  exact hinv.probed.unique i (Finset.mem_Icc.2 ⟨hilo, hihi.le⟩) j (Finset.mem_Icc.2 ⟨hjlo, hjhi.le⟩) _ _ _
    (places_eq_used_iff.2 ⟨hiused, rfl, hkey⟩) (places_eq_used_iff.2 ⟨hjused, rfl, rfl⟩)

/-- A variable of this name can be offered, and is not in the last place. -/
theorem mem_names_iff_vars {key : List UInt8} :
    key ∈ (matchedFrom pat htab 0).map (fun idx => (htab.table idx).entry.key) ↔
      pat <+: key ∧ (∃ e, htab.vars key = some e) ∧ ∀ e, htab.places htab.size ≠ .used key e := by
  rw [mem_names_iff]
  have hfive := hinv.size.five_le
  constructor
  · rintro ⟨idx, e, hlo, hhi, hplace, hpre⟩
    have hin : idx ∈ Finset.Icc 1 htab.size := Finset.mem_Icc.2 ⟨hlo, hhi.le⟩
    refine ⟨hpre, ⟨e, hinv.vars_eq_some_iff.2 ⟨idx, hin, hplace⟩⟩, fun e' hlast => ?_⟩
    -- a name has one place only
    have hsame := hinv.probed.unique idx hin htab.size (Finset.mem_Icc.2 ⟨by omega, le_refl _⟩) key e e'
      hplace hlast
    omega
  · rintro ⟨hpre, ⟨e, hvar⟩, hlast⟩
    rcases hinv.vars_eq_some_iff.1 hvar with ⟨idx, hin, hplace⟩
    rcases Finset.mem_Icc.1 hin with ⟨hlo, hhi⟩
    have hne : idx ≠ htab.size := by
      rintro rfl
      exact hlast e hplace
    exact ⟨idx, e, hlo, by omega, hplace, hpre⟩

/-- What `env_complete` has done if it offers `names`, with dots behind them or not: they are variables with
the prefix, no name twice, the texts are in order, in the buffer, and with the `NULL` behind them in `cmdv`.
Without the dots nothing but a variable in the last place can be missing. -/
structure Completed (htab : HsearchData) (pat : List UInt8) (dollarComp : Bool) (maxv bufsz : Int)
    (names : List (List UInt8)) (more : Bool) : Prop where
  nodup : names.Nodup
  known : ∀ key ∈ names, pat <+: key ∧ ∃ e, htab.vars key = some e
  sorted : (∀ key ∈ names, Ascii key) →
    (qsort strcmpCompar (names.map (completeText dollarComp))).Pairwise ByName
  room : roomOf (names.map (completeText dollarComp)) ≤ max 0 bufsz
  count : 2 ≤ maxv → (names.length : Int) + (if more = true then 1 else 0) + 1 ≤ maxv
  all_iff : more = false →
    ((∀ key e, htab.vars key = some e → pat <+: key → key ∈ names) ↔
      ∀ key e, htab.places htab.size = .used key e → ¬ pat <+: key)

theorem env_complete_all_iff (maxv bufsz : Int) (hpre : completePrefix var dollarComp = some pat) :
    ∃ names more, envComplete var maxv bufsz dollarComp htab =
        some (qsort strcmpCompar (names.map (completeText dollarComp)) ++
          if more = true then [completeText dollarComp dots] else []) ∧
      Completed htab pat dollarComp maxv bufsz names more := by
  rcases @envComplete_spec htab var pat dollarComp maxv bufsz hpre with
    ⟨taken, more, hrun, ⟨rest, hrest, hmore⟩, hcount, hroom⟩
  have hsub := @prefixed_names htab _ _ _ hrest
  have hnodup := (nodup_names hinv).sublist hsub.sublist
  refine ⟨_, more, hrun, hnodup, ?_, fun hascii => texts_sorted dollarComp hascii hnodup, ?_, ?_, ?_⟩
  · intro key hkey
    rcases (mem_names_iff_vars hinv).1 (hsub.subset hkey) with ⟨hpat, hvar, _⟩
    exact ⟨hpat, hvar⟩
  · rwa [List.map_map]
  · intro h2
    rw [List.length_map]
    split <;> omega
  · intro hend
    -- nothing is left behind what was taken
    have hnil : rest = [] := by
      by_contra hne
      rw [hmore.2 hne] at hend
      cases hend
    rw [hnil, List.append_nil] at hrest
    rw [← hrest]
    constructor
    · intro hall key e hlast hpat
      have hin : htab.size ∈ Finset.Icc 1 htab.size :=
        Finset.mem_Icc.2 ⟨by have hfive := hinv.size.five_le; omega, le_refl _⟩
      have hmem := hall key e (hinv.vars_eq_some_iff.2 ⟨htab.size, hin, hlast⟩) hpat
      exact ((mem_names_iff_vars hinv).1 hmem).2.2 e hlast
    · intro hlast key e hvar hpat
      refine (mem_names_iff_vars hinv).2 ⟨hpat, ⟨e, hvar⟩, fun e' hplace => ?_⟩
      exact hlast key e' hplace hpat

end Offer

section Collision

/-- The third variable is in the last place, and is not offered. -/
theorem env_complete_last_place :
    envComplete [] 20 512 false threeVars = some [[98], [103]] ∧
      ∃ names, Completed threeVars [] false 20 512 names false ∧
        ¬ ∀ key e, threeVars.vars key = some e → [] <+: key → key ∈ names := by
  have hoffer : envComplete [] 20 512 false threeVars = some [[98], [103]] := by decide
  rcases @env_complete_all_iff threeVars [] [] false htabInv_threeVars 20 512 rfl with
    ⟨names, more, hrun, hdone⟩
  -- the texts do not end with the dots
  have hmore : more = false := by
    cases more with
    | false => rfl
    | true =>
        have hlast := congrArg (fun texts => texts.bind List.getLast?) (hoffer.symm.trans hrun)
        simp only [Option.bind_some, if_true, List.getLast?_concat] at hlast
        exact absurd hlast (by decide)
  subst hmore
  refine ⟨hoffer, names, hdone, fun hall => ?_⟩
  exact (hdone.all_iff rfl).1 hall [108] (freshEntry noHooks [108] [49]) rfl (List.nil_prefix)

end Collision

end Env
end CanmvK230
