import CanmvK230.Env.HashVars
import CanmvK230.Lib.ShellSort

/-!
# Linear — the environment as a text (`hexport_r`, `himport_r`)

`hexport_r` collects the entries in the order of the table, sorts them with `qsort` and `strcmp`, and
writes one line `name=value` for each, the value with escapes.  `himport_r` copies the text, adds a
NUL, and goes through it line by line; what it does with a line is `importLine`.

Positions in the text are kept as the rest of the copy from `dp` on.  The loop of `himport_r` writes
only behind `dp`, where it does not look again.
-/

namespace CanmvK230
namespace Env

open Lib

def chEq : UInt8 := 0x3d
def chBackslash : UInt8 := 0x5c
def chHash : UInt8 := 0x23
def chDot : UInt8 := 0x2e
def chCr : UInt8 := 0x0d
def chLf : UInt8 := 0x0a

def hNoclear : Nat := 1
def hForce : Nat := 2
def hHideDot : Nat := 8
def hProgrammatic : Nat := 512
def hDefault : Nat := 1024
def hExternal : Nat := 2048

/-! ## `lib/string.c` and `lib/qsort.c` -/

/-- The difference of two characters, as the `signed char` that `strcmp` keeps it in. -/
def charDiff (c d : UInt8) : Int :=
  (c - d).toInt8.toInt

def strcmp : List UInt8 → List UInt8 → Int
  | [], [] => 0
  | [], d :: _ => charDiff 0 d
  | c :: _, [] => charDiff c 0
  | c :: cs, d :: ct => if charDiff c d ≠ 0 then charDiff c d else strcmp cs ct

-- `do { wgap = 3 * wgap + 1; } while (wgap < (nel - 1) / 3)`
def firstGap (nel : Nat) : Nat → Nat → Nat
  | 0, wgap => wgap
  | fuel + 1, wgap =>
      if 3 * wgap + 1 < (nel - 1) / 3 then firstGap nel fuel (3 * wgap + 1) else 3 * wgap + 1

-- `do { ... wgap = (wgap - 1) / 3; } while (wgap)`, counted in elements
def qsortPasses {α : Type} (le : α → α → Bool) (nel : Nat) : Nat → Nat → (Nat → α) → Nat → α
  | 0, _, a => a
  | fuel + 1, wgap, a =>
      let a := gapPass le wgap (nel - wgap) wgap a
      if (wgap - 1) / 3 ≠ 0 then qsortPasses le nel fuel ((wgap - 1) / 3) a else a

/-- `qsort`; `le` is `comp(a, b) <= 0`. -/
def qsort {α : Type} (le : α → α → Bool) (list : List α) : List α :=
  match list with
  | [] => []
  | d :: _ =>
      let a := fun i => list.getD i d
      if 1 < list.length then
        (List.range list.length).map
          (qsortPasses le list.length list.length (firstGap list.length list.length 0) a)
      else
        (List.range list.length).map a

/-! ## `hexport_r` -/

def cmpkey (e1 e2 : EnvEntry) : Bool :=
  strcmp e1.key e2.key ≤ 0

section Export

/-- The entries that `hexport_r` takes: `matchEntry` is `match_entry` for the `argc` patterns of the
caller. -/
def exportEntries (htab : HsearchData) (flag argc : Nat) (matchEntry : EnvEntry → Bool) :
    List EnvEntry :=
  (List.range htab.size).filterMap fun i =>
    let node := htab.table (i + 1)
    if 0 < node.used then
      if 0 < argc ∧ matchEntry node.entry = false then
        none
      else if flag &&& hHideDot ≠ 0 ∧ node.entry.key.head? = some chDot then
        none
      else
        some node.entry
    else
      none

-- "check if escapes are needed": not where the separator is NUL
def dataRoom (sep : UInt8) (data : List UInt8) : Nat :=
  if sep = 0 then
    data.length
  else
    (data.map fun c => if c = sep ∨ c = chBackslash then 2 else 1).sum

def entryRoom (sep : UInt8) (e : EnvEntry) : Nat :=
  e.key.length + dataRoom sep e.data + 2

def escapeData (sep : UInt8) (data : List UInt8) : List UInt8 :=
  data.flatMap fun c => if c = sep ∨ c = chBackslash then [chBackslash, c] else [c]

def exportLine (sep : UInt8) (e : EnvEntry) : List UInt8 :=
  e.key ++ chEq :: escapeData sep e.data ++ [sep]

/-- What pass 2 writes. -/
def exportText (sep : UInt8) (list : List EnvEntry) : List UInt8 :=
  (qsort cmpkey list).flatMap (exportLine sep) ++ [0]

/-- The size returned and the bytes from `res` on: the cleared buffer and what is written over it. -/
def hexportR (htab : HsearchData) (sep : UInt8) (flag size argc : Nat)
    (matchEntry : EnvEntry → Bool) : Except Int (Nat × List UInt8) :=
  let list := exportEntries htab flag argc matchEntry
  let totlen := (list.map (entryRoom sep)).sum
  if size ≠ 0 ∧ size < totlen + 1 then
    .error Errno.enomem
  else
    let size := if size ≠ 0 then size else totlen + 1
    let text := exportText sep list
    .ok (size, text ++ List.replicate (size - text.length) 0)

end Export

/-! ## `himport_r` -/

section Import

variable (hooks : EnvHooks)

def isblank (c : UInt8) : Bool :=
  c == 0x20 || c == 0x09

/-- The name found in `vars` and taken out of it; no variables stand for all. -/
def dropVarFromSet (name : List UInt8) (vars : List (Option (List UInt8))) :
    Bool × List (Option (List UInt8)) :=
  if vars.length = 0 then
    (true, vars)
  else
    (vars.any (· = some name), vars.map fun v => if v = some name then none else v)

/-- The value from `dp` on, and the rest from its end on. -/
def importValue (sep : UInt8) : List UInt8 → List UInt8 × List UInt8
  | [] => ([], [])
  | c :: rest =>
      if c = 0 ∨ c = sep then
        ([], c :: rest)
      else
        match rest with
        | [] => ([c], [])
        | d :: rest' =>
            if c = chBackslash ∧ d ≠ 0 then
              let r := importValue sep rest'
              (d :: r.1, r.2)
            else
              let r := importValue sep (d :: rest')
              (c :: r.1, r.2)

/-- The text from `dp` on, with the variables still to be seen and the table. -/
structure ImportState where
  htab : HsearchData
  vars : List (Option (List UInt8))
  rest : List UInt8

/-- One round of the loop; `.error` is the return for an empty key, with the table as it is then. -/
def importLine (sep : UInt8) (flag : Nat) (st : ImportState) :
    Option (Except HsearchData ImportState) :=
  let rest := st.rest.dropWhile isblank
  if rest.headD 0 = chHash then
    some (.ok { st with rest := (rest.dropWhile fun c => c != 0 && c != sep).tail })
  else
    let name := rest.takeWhile fun c => c != chEq && c != 0 && c != sep
    let rest := rest.drop name.length
    let dp := rest.headD 0
    let dp1 := rest.tail.headD 0
    if dp = 0 ∨ dp1 = 0 ∨ dp = sep ∨ dp1 = sep then
      let rest := if dp = chEq then rest.tail.tail else rest.tail
      let drop := dropVarFromSet name st.vars
      if drop.1 = false then
        some (.ok { st with vars := drop.2, rest := rest })
      else
        (hdeleteR hooks name st.htab flag).map fun r =>
          .ok { htab := r.2, vars := drop.2, rest := rest }
    else
      let value := importValue sep rest.tail
      let rest := value.2.tail
      if name = [] then
        some (.error st.htab)
      else
        let drop := dropVarFromSet name st.vars
        if drop.1 = false then
          some (.ok { st with vars := drop.2, rest := rest })
        else
          (hsearchR hooks name value.1 .enter st.htab flag).map fun out =>
            .ok { htab := out.htab, vars := drop.2, rest := rest }

/-- `do { ... } while ((dp < data + size) && *dp)`; `slack` bytes of the copy are not below
`data + size`. -/
def importLoop (sep : UInt8) (flag slack : Nat) :
    Nat → ImportState → Option (Except HsearchData ImportState)
  | 0, _ => none
  | fuel + 1, st =>
      (importLine hooks sep flag st).bind fun r =>
        match r with
        | .error htab => some (.error htab)
        | .ok st =>
            if slack < st.rest.length ∧ st.rest.headD 0 ≠ 0 then
              importLoop sep flag slack fuel st
            else
              some (.ok st)

/-- What is written by the loop that removes carriage returns, and how many it ignores. -/
def stripCr : List UInt8 → List UInt8 × Nat
  | [] => ([], 0)
  | c :: rest =>
      if c = 0 then
        ([], 0)
      else
        let r := stripCr rest
        if c = chCr ∧ rest.head? = some chLf then (r.1, r.2 + 1) else (c :: r.1, r.2)

def envMinEntries : Nat := 64
def envMaxEntries : Nat := 512

def importEntries (size : Nat) : Nat :=
  if envMinEntries + size / 8 > envMaxEntries then envMaxEntries else envMinEntries + size / 8

/-- The variables that the text has not named are deleted. -/
def deleteVarsLeft (flag : Nat) : List (Option (List UInt8)) → HsearchData → Option HsearchData
  | [], htab => some htab
  | none :: vars, htab => deleteVarsLeft flag vars htab
  | some name :: vars, htab =>
      (hdeleteR hooks name htab flag).bind fun r => deleteVarsLeft flag vars r.2

/-- The table to import into: the old one is destroyed unless `H_NOCLEAR` is set or variables are
named, and where there is none, one is made. -/
def importTable (htab : Option HsearchData) (size flag nvars : Nat) : Option HsearchData :=
  match if flag &&& hNoclear = 0 ∧ nvars = 0 then none else htab with
  | some htab => some htab
  | none => hcreateR (importEntries size)

/-- The value returned, and the table. -/
def himportR (htab : Option HsearchData) (env : List UInt8) (sep : UInt8) (flag : Nat)
    (crlfIsLf : Bool) (vars : List (List UInt8)) : Option (Int × HsearchData) := do
  let htab ← importTable htab env.length flag vars.length
  if env.length = 0 then
    return (1, htab)
  let data := env ++ [0]
  let strip := if crlfIsLf = true then stripCr env else ([], 0)
  let st := { htab := htab, vars := vars.map some, rest := strip.1 ++ data.drop strip.1.length }
  let r ← importLoop hooks sep flag (strip.2 + 1) (data.length + 1) st
  match r with
  | .error htab => return (0, htab)
  | .ok st =>
      if flag &&& hNoclear ≠ 0 then
        return (1, st.htab)
      else
        let htab ← deleteVarsLeft hooks flag st.vars st.htab
        return (1, htab)

end Import

/-! ## The order of the lines -/

/-- The gaps of `qsort`. -/
inductive Gap : Nat → Prop
  | one : Gap 1
  | next {g : Nat} : Gap g → Gap (3 * g + 1)

theorem Gap.pos {g : Nat} (h : Gap g) : 1 ≤ g := by
  cases h <;> omega

theorem firstGap_spec {nel : Nat} (hnel : 1 < nel) :
    ∀ (fuel wgap : Nat), 1 ≤ fuel → wgap = 0 ∨ Gap wgap → 3 * wgap + 1 ≤ nel →
      Gap (firstGap nel fuel wgap) ∧ firstGap nel fuel wgap ≤ nel := by
  intro fuel
  induction fuel with
  | zero =>
      intro wgap hfuel
      omega
  | succ fuel ih =>
      intro wgap _ hgap hle
      have hnext : Gap (3 * wgap + 1) := by
        rcases hgap with rfl | hgap
        · exact Gap.one
        · exact Gap.next hgap
      rw [firstGap]
      split
      · rename_i hmore
        cases fuel with
        | zero => exact ⟨hnext, hle⟩
        | succ fuel => exact ih _ (by omega) (Or.inr hnext) (by omega)
      · exact ⟨hnext, hle⟩

section Qsort

variable {α : Type} (le : α → α → Bool)

theorem qsortPasses_rearranged {nel wgap : Nat} (hgap : Gap wgap) :
    ∀ (fuel : Nat) (a : Nat → α), wgap ≤ nel →
      Rearranged nel a (qsortPasses le nel fuel wgap a) := by
  induction hgap with
  | one =>
      intro fuel a hle
      cases fuel with
      | zero => exact Rearranged.refl nel a
      | succ fuel =>
          simp only [qsortPasses, Nat.sub_self, Nat.zero_div, ne_eq, not_true_eq_false, if_false]
          exact gapPass_rearranged le _ _ a (le_refl 1) (by omega)
  | @next g hg ih =>
      intro fuel a hle
      cases fuel with
      | zero => exact Rearranged.refl nel a
      | succ fuel =>
          have hthird : (3 * g + 1 - 1) / 3 = g := by omega
          have hpos := hg.pos
          simp only [qsortPasses, hthird, ne_eq, Nat.pos_iff_ne_zero.1 hpos, not_false_eq_true,
            if_true]
          exact (gapPass_rearranged le _ _ a (le_refl _) (by omega)).trans (ih fuel _ (by omega))

theorem qsortPasses_sorted {S : α → Prop} {le : α → α → Bool}
    (htotal : ∀ x y, S x → S y → le x y = true ∨ le y x = true)
    (htrans : ∀ x y z, S x → S y → S z → le x y = true → le y z = true → le x z = true)
    {nel wgap : Nat} (hgap : Gap wgap) :
    ∀ (fuel : Nat) (a : Nat → α), (∀ k, S (a k)) → 1 ≤ nel → wgap ≤ fuel →
      SortedTo le nel (qsortPasses le nel fuel wgap a) := by
  induction hgap with
  | one =>
      intro fuel a hS hnel hfuel
      rcases Nat.exists_eq_add_of_le' hfuel with ⟨m, rfl⟩
      simp only [qsortPasses, Nat.sub_self, Nat.zero_div, ne_eq, not_true_eq_false, if_false]
      have h := gapPass_sorted htotal htrans (nel - 1) 1 a hS (le_refl 1) (by
        intro p q hpq hq
        omega)
      rw [Nat.add_sub_cancel' hnel] at h
      exact h
  | @next g hg ih =>
      intro fuel a hS hnel hfuel
      have hpos := hg.pos
      rcases Nat.exists_eq_add_of_le' (by omega : 1 ≤ fuel) with ⟨m, rfl⟩
      have hthird : (3 * g + 1 - 1) / 3 = g := by omega
      simp only [qsortPasses, hthird, ne_eq, Nat.pos_iff_ne_zero.1 hpos, not_false_eq_true, if_true]
      exact ih m _ (gapPass_mem le _ _ _ a hS) hnel (by omega)

theorem map_getD_range (d : α) (list : List α) :
    (List.range list.length).map (fun i => list.getD i d) = list := by
  apply List.ext_getElem
  · rw [List.length_map, List.length_range]
  · intro i h1 h2
    rw [List.getElem_map, List.getElem_range, List.getD_eq_getElem _ _ h2]

/-- `qsort` puts out what it is given, whatever the comparison says. -/
theorem qsort_perm (list : List α) : (qsort le list).Perm list := by
  cases list with
  | nil => exact List.Perm.refl []
  | cons d rest =>
      simp only [qsort]
      split
      · rename_i hlen
        rcases firstGap_spec hlen (d :: rest).length 0 (by omega) (Or.inl rfl) (by omega) with
          ⟨hgap, hle⟩
        have h := (qsortPasses_rearranged le hgap (d :: rest).length
          (fun i => (d :: rest).getD i d) hle).perm
        rw [map_getD_range] at h
        exact h
      · rw [map_getD_range]

/-- `qsort` sorts, where the comparison is an order on what it is given. -/
theorem qsort_sorted (le : α → α → Bool) (list : List α)
    (htotal : ∀ x ∈ list, ∀ y ∈ list, le x y = true ∨ le y x = true)
    (htrans : ∀ x ∈ list, ∀ y ∈ list, ∀ z ∈ list,
      le x y = true → le y z = true → le x z = true) :
    (qsort le list).Pairwise (fun x y => le x y = true) := by
  cases list with
  | nil => exact List.Pairwise.nil
  | cons d rest =>
      simp only [qsort]
      split
      · rename_i hlen
        rcases firstGap_spec hlen (d :: rest).length 0 (by omega) (Or.inl rfl) (by omega) with
          ⟨hgap, hle⟩
        have hS : ∀ k, (d :: rest).getD k d ∈ d :: rest := by
          intro k
          by_cases hk : k < (d :: rest).length
          · rw [List.getD_eq_getElem _ _ hk]
            exact List.getElem_mem hk
          · rw [List.getD_eq_default _ _ (by omega)]
            exact List.mem_cons_self
        have htotal' : ∀ x y, x ∈ d :: rest → y ∈ d :: rest → le x y = true ∨ le y x = true :=
          fun x y hx hy => htotal x hx y hy
        have hsorted : SortedTo le (d :: rest).length (qsortPasses le (d :: rest).length
            (d :: rest).length (firstGap (d :: rest).length (d :: rest).length 0)
            (fun i => (d :: rest).getD i d)) :=
          qsortPasses_sorted htotal' (fun x y z hx hy hz => htrans x hx y hy z hz) hgap _ _ hS
            (by omega) hle
        rw [List.pairwise_map, List.pairwise_iff_getElem]
        intro i j hi hj hij
        rw [List.getElem_range, List.getElem_range]
        rw [List.length_range] at hj
        exact hsorted i j hij hj
      · rename_i hlen
        rw [map_getD_range]
        have hnil : rest = [] := by
          rw [List.length_cons] at hlen
          exact List.eq_nil_of_length_eq_zero (by omega)
        rw [hnil]
        exact List.pairwise_singleton _ d

end Qsort

end Env
end CanmvK230
