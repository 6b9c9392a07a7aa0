import CanmvK230.Env.Linear

/-!
# Export — what `hexport_r` writes

Each variable is written once (`mem_exportEntries`, `exportEntries_keys`).  The lines come in the
order of the names if these are ASCII; `strcmp` keeps a difference in a `signed char`, and other names
can stand in a circle (`exportEntries_sorted`).

Pass 1 counts room for escapes only where the separator is not NUL, and pass 2 writes them always.  So
a buffer that pass 1 takes for big enough is written over its end by the backslashes of the values
(`hexportR_contained_iff`).
-/

namespace CanmvK230
namespace Env

open Lib

/-! ## `strcmp` -/

def Ascii (s : List UInt8) : Prop :=
  ∀ c ∈ s, c ≠ 0 ∧ c.toNat < 128

theorem charDiff_eq {c d : UInt8} (hc : c.toNat < 128) (hd : d.toNat < 128) :
    charDiff c d = (c.toNat : Int) - d.toNat := by
  have hci : c.toBitVec.toInt = c.toNat :=
    BitVec.toInt_eq_toNat_of_lt (by show 2 * c.toNat < 2 ^ 8; omega)
  have hdi : d.toBitVec.toInt = d.toNat :=
    BitVec.toInt_eq_toNat_of_lt (by show 2 * d.toNat < 2 ^ 8; omega)
  rw [charDiff, Int8.toInt, UInt8.toBitVec_toInt8, UInt8.toBitVec_sub, BitVec.toInt_sub, hci, hdi,
    Int.bmod_eq_of_le] <;> omega

theorem Ascii.cons {c : UInt8} {s : List UInt8} (h : Ascii (c :: s)) :
    (c ≠ 0 ∧ c.toNat < 128) ∧ Ascii s :=
  ⟨h c List.mem_cons_self, fun d hd => h d (List.mem_cons_of_mem c hd)⟩

theorem toNat_pos {c : UInt8} (h : c ≠ 0) : 0 < c.toNat := by
  rw [Nat.pos_iff_ne_zero]
  intro hzero
  exact h (UInt8.toNat_inj.1 hzero)

/-- The order of names: by the first character in which they differ, a prefix first. -/
def ByName (s t : List UInt8) : Prop :=
  List.Lex (fun c d : UInt8 => c.toNat < d.toNat) s t

theorem ByName.trans {s t u : List UInt8} (h : ByName s t) (h' : ByName t u) : ByName s u :=
  List.lex_trans (fun h1 h2 => Nat.lt_trans h1 h2) h h'

theorem zero_lt_ascii : (0 : UInt8).toNat < 128 := by decide

/-- On ASCII strings `strcmp` is the order of names. -/
theorem strcmp_spec {s t : List UInt8} (hs : Ascii s) (ht : Ascii t) :
    (strcmp s t < 0 ↔ ByName s t) ∧ (strcmp s t = 0 ↔ s = t) ∧ strcmp t s = -strcmp s t := by
  induction s generalizing t with
  | nil =>
      cases t with
      | nil =>
          refine ⟨⟨fun h => absurd h (by decide), fun h => ?_⟩, ⟨fun _ => rfl, fun _ => rfl⟩, rfl⟩
          exact absurd h List.not_lex_nil
      | cons d t =>
          rcases ht.cons with ⟨⟨hd0, hd⟩, _⟩
          have hpos := toNat_pos hd0
          have hdiff := charDiff_eq zero_lt_ascii hd
          have hdiff' := charDiff_eq hd zero_lt_ascii
          rw [show ((0 : UInt8).toNat : Int) = 0 from rfl] at hdiff hdiff'
          simp only [strcmp, hdiff, hdiff']
          refine ⟨⟨fun _ => List.Lex.nil, fun _ => by omega⟩, ⟨fun h => by omega, fun h => ?_⟩, ?_⟩
          · cases h
          · omega
  | cons c s ih =>
      rcases hs.cons with ⟨⟨hc0, hc⟩, hs'⟩
      cases t with
      | nil =>
          have hpos := toNat_pos hc0
          have hdiff := charDiff_eq zero_lt_ascii hc
          have hdiff' := charDiff_eq hc zero_lt_ascii
          rw [show ((0 : UInt8).toNat : Int) = 0 from rfl] at hdiff hdiff'
          simp only [strcmp, hdiff, hdiff']
          refine ⟨⟨fun h => by omega, fun h => ?_⟩, ⟨fun h => by omega, fun h => ?_⟩, ?_⟩
          · exact absurd h List.not_lex_nil
          · cases h
          · omega
      | cons d t =>
          rcases ht.cons with ⟨⟨_, hd⟩, ht'⟩
          rcases ih hs' ht' with ⟨hlt, heq, hneg⟩
          have hdiff := charDiff_eq hc hd
          have hdiff' := charDiff_eq hd hc
          simp only [strcmp, ByName, List.cons_lex_cons_iff]
          by_cases hcd : c = d
          · subst hcd
            have hzero : charDiff c c = 0 := by omega
            rw [hzero, if_neg (by decide), if_neg (by decide)]
            refine ⟨⟨fun h => Or.inr ⟨rfl, hlt.1 h⟩, ?_⟩, ⟨fun h => ?_, fun h => ?_⟩, hneg⟩
            · rintro (h | ⟨_, h⟩)
              · exact absurd h (Nat.lt_irrefl _)
              · exact hlt.2 h
            · rw [heq.1 h]
            · exact heq.2 (List.cons.inj h).2
          · have hne : c.toNat ≠ d.toNat := fun h => hcd (UInt8.toNat_inj.1 h)
            rw [if_pos (by omega), if_pos (by omega)]
            refine ⟨⟨fun h => Or.inl (by omega), ?_⟩, ⟨fun h => by omega, fun h => ?_⟩, by omega⟩
            · rintro (h | ⟨h, _⟩)
              · omega
              · exact absurd h hcd
            · exact absurd (List.cons.inj h).1 hcd

theorem strcmp_nonpos_iff {s t : List UInt8} (hs : Ascii s) (ht : Ascii t) :
    strcmp s t ≤ 0 ↔ ByName s t ∨ s = t := by
  rcases strcmp_spec hs ht with ⟨hlt, heq, _⟩
  rw [← hlt, ← heq]
  omega

/-- Names are in order one way or the other. -/
theorem strcmp_total {s t : List UInt8} (hs : Ascii s) (ht : Ascii t) :
    strcmp s t ≤ 0 ∨ strcmp t s ≤ 0 := by
  have hneg := (strcmp_spec hs ht).2.2
  omega

theorem strcmp_trans {s t u : List UInt8} (hs : Ascii s) (ht : Ascii t) (hu : Ascii u)
    (h : strcmp s t ≤ 0) (h' : strcmp t u ≤ 0) : strcmp s u ≤ 0 := by
  rw [strcmp_nonpos_iff hs ht] at h
  rw [strcmp_nonpos_iff ht hu] at h'
  rw [strcmp_nonpos_iff hs hu]
  rcases h with h | rfl
  · rcases h' with h' | rfl
    · exact Or.inl (h.trans h')
    · exact Or.inl h
  · exact h'

/-- Each of three names comes before the next, and the third before the first. -/
structure InCircle (s t u : List UInt8) : Prop where
  first : 0 < strcmp s u
  second : 0 < strcmp t s
  third : 0 < strcmp u t

theorem strcmp_self (s : List UInt8) : strcmp s s = 0 := by
  induction s with
  | nil => rfl
  | cons c s ih =>
      have hzero : charDiff c c = 0 := by
        rw [charDiff, sub_self]
        rfl
      rw [strcmp, if_neg (fun h => h hzero)]
      exact ih

theorem cmpkey_self (e : EnvEntry) : cmpkey e e = true := by
  rw [cmpkey, strcmp_self]
  rfl

theorem cmpkey_false {e e' : EnvEntry} (h : 0 < strcmp e.key e'.key) : cmpkey e e' = false := by
  rw [cmpkey, decide_eq_false_iff_not]
  omega

theorem ascii_singleton {c : UInt8} (h : c ≠ 0 ∧ c.toNat < 128) : Ascii [c] := by
  intro d hd
  rw [List.mem_singleton.1 hd]
  exact h

/-- `qsort` by ASCII names that all differ. -/
theorem qsort_byName {α : Type} (name : α → List UInt8) {list : List α}
    (hascii : ∀ x ∈ list, Ascii (name x)) (hne : list.Pairwise fun x y => name x ≠ name y) :
    (qsort (fun x y => decide (strcmp (name x) (name y) ≤ 0)) list).Pairwise
      (fun x y => ByName (name x) (name y)) := by
  have hsorted := qsort_sorted (fun x y => decide (strcmp (name x) (name y) ≤ 0)) list
    (by
      intro x hx y hy
      rw [decide_eq_true_eq, decide_eq_true_eq]
      exact strcmp_total (hascii x hx) (hascii y hy))
    (by
      intro x hx y hy z hz hxy hyz
      rw [decide_eq_true_eq] at hxy hyz ⊢
      exact strcmp_trans (hascii x hx) (hascii y hy) (hascii z hz) hxy hyz)
  have hperm := qsort_perm (fun x y => decide (strcmp (name x) (name y) ≤ 0)) list
  have hdiff := (hperm.pairwise_iff (fun h => Ne.symm h)).2 hne
  refine (hsorted.and hdiff).imp_of_mem ?_
  rintro x y hx hy ⟨hle, hxy⟩
  rw [decide_eq_true_eq, strcmp_nonpos_iff (hascii x (hperm.mem_iff.1 hx)) (hascii y (hperm.mem_iff.1 hy))] at hle
  exact hle.resolve_right hxy

/-! ## The entries -/

/-- The variables that the caller of `hexport_r` asks for. -/
def Wanted (flag argc : Nat) (matchEntry : EnvEntry → Bool) (e : EnvEntry) : Prop :=
  (argc = 0 ∨ matchEntry e = true) ∧ (flag &&& hHideDot = 0 ∨ e.key.head? ≠ some chDot)

/-- What pass 1 takes from the place `i + 1`. -/
theorem exportEntries_at {htab : HsearchData} {flag argc : Nat} {matchEntry : EnvEntry → Bool}
    {i : Nat} {e : EnvEntry} :
    (if 0 < (htab.table (i + 1)).used then
      if 0 < argc ∧ matchEntry (htab.table (i + 1)).entry = false then none
      else if flag &&& hHideDot ≠ 0 ∧ (htab.table (i + 1)).entry.key.head? = some chDot then none
      else some (htab.table (i + 1)).entry
    else none) = some e ↔
      htab.places (i + 1) = .used e.key e ∧ Wanted flag argc matchEntry e := by
  rw [places_eq_used_iff]
  by_cases hused : 0 < (htab.table (i + 1)).used
  · rw [if_pos hused]
    by_cases hmatch : 0 < argc ∧ matchEntry (htab.table (i + 1)).entry = false
    · rw [if_pos hmatch]
      constructor
      · intro h
        cases h
      · rintro ⟨⟨_, rfl, _⟩, hwant, _⟩
        rcases hwant with h | h
        · omega
        · rw [h] at hmatch
          exact absurd hmatch.2 (by decide)
    · rw [if_neg hmatch]
      by_cases hdot : flag &&& hHideDot ≠ 0 ∧
          (htab.table (i + 1)).entry.key.head? = some chDot
      · rw [if_pos hdot]
        constructor
        · intro h
          cases h
        · rintro ⟨⟨_, rfl, _⟩, _, hwant⟩
          rcases hwant with h | h
          · exact absurd h hdot.1
          · exact absurd hdot.2 h
      · rw [if_neg hdot, Option.some.injEq]
        constructor
        · rintro rfl
          refine ⟨⟨hused, rfl, rfl⟩, ?_, ?_⟩
          · by_cases h0 : argc = 0
            · exact Or.inl h0
            · refine Or.inr ?_
              by_contra hne
              exact hmatch ⟨by omega, Bool.eq_false_iff.2 hne⟩
          · by_contra hno
            rw [not_or, not_not] at hno
            exact hdot hno
        · rintro ⟨⟨_, rfl, _⟩, _⟩
          rfl
  · rw [if_neg hused]
    constructor
    · intro h
      cases h
    · rintro ⟨⟨h, _⟩, _⟩
      exact absurd h hused

section Entries

variable {htab : HsearchData} (hinv : HtabInv htab) {flag argc : Nat}
  {matchEntry : EnvEntry → Bool}
include hinv

/-- The list holds each variable that is asked for. -/
theorem mem_exportEntries {e : EnvEntry} :
    e ∈ exportEntries htab flag argc matchEntry ↔
      htab.vars e.key = some e ∧ Wanted flag argc matchEntry e := by
  unfold exportEntries
  rw [List.mem_filterMap, hinv.vars_eq_some_iff]
  constructor
  · rintro ⟨i, hi, hat⟩
    rw [List.mem_range] at hi
    rcases exportEntries_at.1 hat with ⟨hplace, hwant⟩
    exact ⟨⟨i + 1, Finset.mem_Icc.2 ⟨by omega, by omega⟩, hplace⟩, hwant⟩
  · rintro ⟨⟨idx, hidx, hplace⟩, hwant⟩
    rcases Finset.mem_Icc.1 hidx with ⟨h1, h2⟩
    rcases Nat.exists_eq_add_of_le' h1 with ⟨i, rfl⟩
    exact ⟨i, List.mem_range.2 (by omega), exportEntries_at.2 ⟨hplace, hwant⟩⟩

/-- And no name twice. -/
theorem exportEntries_keys :
    (exportEntries htab flag argc matchEntry).Pairwise (fun e e' => e.key ≠ e'.key) := by
  unfold exportEntries
  rw [List.pairwise_filterMap]
  refine List.Pairwise.imp_of_mem ?_ List.nodup_range
  intro i j hi hj hij e he e' he' hkey
  rw [List.mem_range] at hi hj
  have hpi := (exportEntries_at.1 he).1
  have hpj := (exportEntries_at.1 he').1
  rw [← hkey] at hpj
  have hidx := hinv.probed.unique (i + 1) (Finset.mem_Icc.2 ⟨by omega, by omega⟩) (j + 1)
    (Finset.mem_Icc.2 ⟨by omega, by omega⟩) e.key e e' hpi hpj
  omega

/-- The lines of ASCII names are in the order of the names; with three names in a circle no order of the
lines is one for `strcmp`. -/
theorem exportEntries_sorted :
    ((∀ e ∈ exportEntries htab flag argc matchEntry, Ascii e.key) →
      (qsort cmpkey (exportEntries htab flag argc matchEntry)).Pairwise
        (fun e e' => ByName e.key e'.key)) ∧
      ((∃ e1 ∈ exportEntries htab flag argc matchEntry,
        ∃ e2 ∈ exportEntries htab flag argc matchEntry,
        ∃ e3 ∈ exportEntries htab flag argc matchEntry, InCircle e1.key e2.key e3.key) →
        ∀ list : List EnvEntry, list.Perm (exportEntries htab flag argc matchEntry) →
          ¬ list.Pairwise (fun e e' => strcmp e.key e'.key ≤ 0)) := by
  constructor
  · intro hascii
    exact qsort_byName EnvEntry.key hascii (exportEntries_keys hinv)
  · rintro ⟨e1, h1, e2, h2, e3, h3, hcircle⟩ list hperm hsorted
    refine not_pairwise_of_cycle (hperm.mem_iff.2 h1) (hperm.mem_iff.2 h2) (hperm.mem_iff.2 h3)
      (cmpkey_false hcircle.second) (cmpkey_false hcircle.third) (cmpkey_false hcircle.first)
      cmpkey_self ?_
    exact hsorted.imp fun h => decide_eq_true h

omit hinv in
/-- `b`, `g` and `l`, of which `g` comes first in the table, and the names in a circle. -/
theorem exportEntries_sorted_three :
    (qsort cmpkey (exportEntries threeVars 0 0 fun _ => true)).Pairwise
        (fun e e' => ByName e.key e'.key) ∧
      ∀ list : List EnvEntry, list.Perm (exportEntries cycleVars 0 0 fun _ => true) →
        ¬ list.Pairwise (fun e e' => strcmp e.key e'.key ≤ 0) := by
  constructor
  · refine (exportEntries_sorted htabInv_threeVars).1 ?_
    rintro e he
    rw [show exportEntries threeVars 0 0 (fun _ => true) = [freshEntry noHooks [103] [49],
      freshEntry noHooks [98] [49], freshEntry noHooks [108] [49]] from rfl] at he
    simp only [List.mem_cons, List.not_mem_nil, or_false] at he
    rcases he with rfl | rfl | rfl
    · exact ascii_singleton (by decide)
    · exact ascii_singleton (by decide)
    · exact ascii_singleton (by decide)
  · have hlist : exportEntries cycleVars 0 0 (fun _ => true) = [freshEntry noHooks [65] [49],
      freshEntry noHooks [200] [49], freshEntry noHooks [150] [49]] := rfl
    refine (exportEntries_sorted htabInv_cycleVars).2 ?_
    rw [hlist]
    exact ⟨_, List.mem_cons_self, _, List.mem_of_getElem? (i := 2) rfl, _,
      List.mem_of_getElem? (i := 1) rfl, ⟨by decide, by decide, by decide⟩⟩

end Entries

/-! ## The room for the text -/

theorem length_escapeData (sep : UInt8) (data : List UInt8) :
    (escapeData sep data).length =
      (data.map fun c => if c = sep ∨ c = chBackslash then 2 else 1).sum := by
  unfold escapeData
  rw [List.length_flatMap]
  congr 2
  funext c
  split <;> rfl

/-- Escapes that pass 1 has made no room for. -/
def unplanned (sep : UInt8) (data : List UInt8) : Nat :=
  if sep = 0 then data.count chBackslash else 0

theorem length_escapeData_eq {sep : UInt8} {data : List UInt8} (hnul : (0 : UInt8) ∉ data) :
    (escapeData sep data).length = dataRoom sep data + unplanned sep data := by
  rw [length_escapeData]
  unfold dataRoom unplanned
  by_cases hsep : sep = 0
  · rw [if_pos hsep, if_pos hsep]
    subst hsep
    induction data with
    | nil => rfl
    | cons c data ih =>
        rw [List.mem_cons, not_or] at hnul
        have hc : c ≠ 0 := fun h => hnul.1 h.symm
        rw [List.map_cons, List.sum_cons, ih hnul.2, List.length_cons, List.count_cons]
        by_cases hb : c = chBackslash
        · rw [if_pos (Or.inr hb), if_pos (by rw [hb]; rfl)]
          omega
        · rw [if_neg (by rintro (h | h); exact hc h; exact hb h),
            if_neg (by rw [beq_iff_eq]; exact hb)]
          omega
  · rw [if_neg hsep, if_neg hsep, Nat.add_zero]

theorem length_exportLine {sep : UInt8} {e : EnvEntry} (hnul : (0 : UInt8) ∉ e.data) :
    (exportLine sep e).length = entryRoom sep e + unplanned sep e.data := by
  unfold exportLine entryRoom
  rw [List.length_append, List.length_append, List.length_cons, length_escapeData_eq hnul,
    List.length_singleton]
  omega

/-- The text is longer than pass 1 has counted by the escapes it has not planned for. -/
theorem length_exportText (sep : UInt8) (list : List EnvEntry)
    (hnul : ∀ e ∈ list, (0 : UInt8) ∉ e.data) :
    (exportText sep list).length = (list.map (entryRoom sep)).sum + 1 +
      (list.map fun e => unplanned sep e.data).sum := by
  have hlines : ((qsort cmpkey list).flatMap (exportLine sep)).length =
      (list.map fun e => (exportLine sep e).length).sum := by
    rw [List.length_flatMap]
    exact ((qsort_perm cmpkey list).map _).sum_eq
  have hsum : (list.map fun e => (exportLine sep e).length).sum =
      (list.map (entryRoom sep)).sum + (list.map fun e => unplanned sep e.data).sum := by
    rw [← List.sum_map_add]
    congr 1
    apply List.map_congr_left
    intro e he
    exact length_exportLine (hnul e he)
  rw [exportText, List.length_append, hlines, hsum, List.length_singleton]
  omega

/-- The buffer after an export that does not fail. -/
theorem hexportR_ok {htab : HsearchData} {sep : UInt8} {flag size argc : Nat}
    {matchEntry : EnvEntry → Bool} {size' : Nat} {res : List UInt8}
    (h : hexportR htab sep flag size argc matchEntry = .ok (size', res)) :
    (size = 0 ∨ size' = size) ∧
      res = exportText sep (exportEntries htab flag argc matchEntry) ++ List.replicate
        (size' - (exportText sep (exportEntries htab flag argc matchEntry)).length) 0 := by
  simp only [hexportR] at h
  split at h
  · cases h
  · cases h
    refine ⟨?_, rfl⟩
    by_cases hsize : size = 0
    · exact Or.inl hsize
    · rw [if_pos hsize]
      exact Or.inr rfl

/-- An export that does not fail stays in its buffer exactly when the buffer has room for the escapes
that pass 1 leaves out too.  It leaves them out where the separator is NUL. -/
theorem hexportR_contained_iff {htab : HsearchData} (hinv : HtabInv htab)
    (hnul : ∀ key e, htab.vars key = some e → (0 : UInt8) ∉ e.data) {sep : UInt8}
    {flag size argc : Nat} {matchEntry : EnvEntry → Bool} {size' : Nat} {res : List UInt8}
    (h : hexportR htab sep flag size argc matchEntry = .ok (size', res)) :
    (size = 0 ∨ size' = size) ∧ size' ≤ res.length ∧
      (res.length ≤ size' ↔
        ((exportEntries htab flag argc matchEntry).map (entryRoom sep)).sum + 1 +
          ((exportEntries htab flag argc matchEntry).map fun e => unplanned sep e.data).sum ≤
            size') := by
  have hlen := length_exportText sep (exportEntries htab flag argc matchEntry)
    (by
      intro e he
      exact hnul e.key e ((mem_exportEntries hinv).1 he).1)
  rcases hexportR_ok h with ⟨hsize, hres⟩
  rw [← hlen, hres, List.length_append, List.length_replicate]
  exact ⟨hsize, by omega, by omega⟩

theorem length_exportEntries {htab : HsearchData} (hinv : HtabInv htab)
    (matchEntry : EnvEntry → Bool) :
    (exportEntries htab 0 0 matchEntry).length = htab.filled := by
  have hwanted : ∀ e, Wanted 0 0 matchEntry e := fun e => ⟨Or.inl rfl, Or.inl rfl⟩
  have hnodup : ((exportEntries htab 0 0 matchEntry).map EnvEntry.key).Nodup :=
    List.pairwise_map.2 (exportEntries_keys hinv)
  have hkeys : {k | htab.vars k ≠ none} =
      (((exportEntries htab 0 0 matchEntry).map EnvEntry.key).toFinset : Set (List UInt8)) := by
    ext k
    rw [Set.mem_ofPred_eq, Finset.mem_coe, List.mem_toFinset, List.mem_map]
    constructor
    · intro hk
      rcases Option.ne_none_iff_exists'.1 hk with ⟨e, he⟩
      have hkey := hinv.key_of_vars he
      exact ⟨e, (mem_exportEntries hinv).2 ⟨by rw [hkey]; exact he, hwanted e⟩, hkey⟩
    · rintro ⟨e, he, rfl⟩
      rw [((mem_exportEntries hinv).1 he).1]
      exact Option.some_ne_none e
  rw [hinv.filled_eq, hkeys, Set.ncard_coe_finset, List.toFinset_card_of_nodup hnodup,
    List.length_map]

/-- The buffer of an export of all variables: the lines, the NUL and the rest of the cleared buffer. -/
theorem hexportR_lines {htab : HsearchData} (hinv : HtabInv htab) {sep : UInt8} {size size' : Nat}
    {matchEntry : EnvEntry → Bool} {res : List UInt8}
    (h : hexportR htab sep 0 size 0 matchEntry = .ok (size', res)) :
    ∃ (list : List EnvEntry) (n : Nat),
      res = list.flatMap (exportLine sep) ++ 0 :: List.replicate n 0 ∧
      (∀ e, e ∈ list ↔ htab.vars e.key = some e) ∧
      list.Pairwise (fun e e' => e.key ≠ e'.key) ∧ list.length = htab.filled ∧
      list.length ≤ (list.flatMap (exportLine sep)).length := by
  have hperm := qsort_perm cmpkey (exportEntries htab 0 0 matchEntry)
  have hok := (hexportR_ok h).2
  rw [exportText, List.append_assoc, List.singleton_append] at hok
  refine ⟨_, _, hok, ?_, ?_, ?_, ?_⟩
  · intro e
    rw [hperm.mem_iff, mem_exportEntries hinv]
    exact ⟨fun h => h.1, fun h => ⟨h, Or.inl rfl, Or.inl rfl⟩⟩
  · exact (hperm.pairwise_iff (fun h => Ne.symm h)).2 (exportEntries_keys hinv)
  · rw [hperm.length_eq, length_exportEntries hinv]
  -- a line has a byte at least
  · rw [List.length_flatMap]
    calc (qsort cmpkey (exportEntries htab 0 0 matchEntry)).length
        = ((qsort cmpkey (exportEntries htab 0 0 matchEntry)).map fun _ => 1).sum := by simp
      _ ≤ ((qsort cmpkey (exportEntries htab 0 0 matchEntry)).map fun e =>
            (exportLine sep e).length).sum := by
          apply List.sum_le_sum
          intro e _
          rw [exportLine]
          simp only [List.length_append, List.length_cons]
          omega

theorem escVar_nul (key : List UInt8) (e : EnvEntry) (h : escVar.vars key = some e) :
    (0 : UInt8) ∉ e.data := by
  rw [(escVar_eq_some h).2]
  decide

/-- The backslash of the value is escaped, and the buffer that pass 1 takes for big enough has no byte for
the escape. -/
theorem hexportR_contained_escVar :
    hexportR escVar 0 0 6 0 (fun _ => true) = .ok (6, [97, 61, 92, 92, 10, 0, 0]) ∧
      (6 = 0 ∨ 6 = 6) ∧ 6 ≤ ([97, 61, 92, 92, 10, 0, 0] : List UInt8).length ∧
      (([97, 61, 92, 92, 10, 0, 0] : List UInt8).length ≤ 6 ↔
        ((exportEntries escVar 0 0 fun _ => true).map (entryRoom 0)).sum + 1 +
          ((exportEntries escVar 0 0 fun _ => true).map fun e => unplanned 0 e.data).sum ≤ 6) :=
  ⟨rfl, hexportR_contained_iff escVar_spec.1 escVar_nul
    (show hexportR escVar 0 0 6 0 (fun _ => true) = .ok (6, [97, 61, 92, 92, 10, 0, 0]) from rfl)⟩

end Env
end CanmvK230
