import CanmvK230.Env.Reimport

/-!
# LinearGet — a variable looked up in the text (`env_get_from_linear`)

Before the relocation there is no table, and `env_get` looks through the text itself.  It does not
undo the escapes, and has a buffer of its own for the value: it gives the value of the table for values
without a backslash that fit into the buffer, and for no others (`linear_get_eq_iff`).
-/

namespace CanmvK230
namespace Env

open Lib

section Source

/-- What is written to `buf`, which has `len` bytes: the value and the NUL behind it, as far as there is
room. -/
def linearBuf (len : Nat) (value : List UInt8) : List UInt8 :=
  let buf := (value ++ [0]).take len
  if len ≤ value.length then buf.set (len - 1) 0 else buf

/-- The loop of `env_get_from_linear` at the offset `pos`; the text behind it is `rest`, and the bytes
that are not given are NUL. -/
def linearLoop (configEnvSize : Nat) (name : List UInt8) (len : Nat) :
    Nat → Nat → List UInt8 → Option (Nat × List UInt8)
  | 0, _, _ => none
  | fuel + 1, pos, rest =>
      if rest.headD 0 = 0 then
        none
      else
        let line := rest.takeWhile (· != 0)
        if configEnvSize < pos + line.length then
          none
        else if line.take name.length = name ∧ line.getD name.length 0 = chEq then
          let value := line.drop (name.length + 1)
          some (value.length, linearBuf len value)
        else
          linearLoop configEnvSize name len fuel (pos + line.length + 1) (rest.drop (line.length + 1))

/-- The value returned and `buf`, or `none` for -1. -/
def envGetFromLinear (configEnvSize : Nat) (env name : List UInt8) (len : Nat) :
    Option (Nat × List UInt8) :=
  if name = [] then none else linearLoop configEnvSize name len (env.length + 1) 0 env

end Source

/-! ## The lines of an export -/

/-- A name that a caller looks up. -/
structure LookupName (name : List UInt8) : Prop where
  ne_nil : name ≠ []
  chars : ∀ c ∈ name, c ≠ chEq ∧ c ≠ 0

theorem Exportable.lookupName {name data : List UInt8} (h : Exportable 0 name data) :
    LookupName name :=
  ⟨h.key_ne, fun c hc => ⟨(h.key_chars c hc).1, (h.key_chars c hc).2.1⟩⟩

/-- The text of a line, without its NUL. -/
def lineText (e : EnvEntry) : List UInt8 :=
  e.key ++ chEq :: escapeData 0 e.data

theorem exportLine_nul (e : EnvEntry) : exportLine 0 e = lineText e ++ [0] := rfl

theorem lineText_ne_nul {e : EnvEntry} (h : Exportable 0 e.key e.data) : ∀ c ∈ lineText e, c ≠ 0 := by
  intro c hc
  rcases List.mem_append.1 hc with hkey | hrest
  · exact (h.key_chars c hkey).2.1
  · rcases List.mem_cons.1 hrest with rfl | hdata
    · decide
    · rcases List.mem_flatMap.1 hdata with ⟨d, hd, hmem⟩
      have hd0 : d ≠ 0 := by
        rintro rfl
        exact h.data_nul hd
      split at hmem
      · rcases List.mem_cons.1 hmem with rfl | hmem
        · decide
        · rw [List.mem_singleton.1 hmem]
          exact hd0
      · rw [List.mem_singleton.1 hmem]
        exact hd0

theorem takeWhile_line {e : EnvEntry} (h : Exportable 0 e.key e.data) (tail : List UInt8) :
    (lineText e ++ 0 :: tail).takeWhile (· != 0) = lineText e := by
  rw [List.takeWhile_append_of_pos, List.takeWhile_cons_of_neg (by decide), List.append_nil]
  intro c hc
  rw [bne_iff_ne]
  exact lineText_ne_nul h c hc

/-- The line is the one of the name. -/
theorem line_match_iff {e : EnvEntry} (h : Exportable 0 e.key e.data) {name : List UInt8}
    (hname : LookupName name) :
    ((lineText e).take name.length = name ∧ (lineText e).getD name.length 0 = chEq) ↔
      e.key = name := by
  constructor
  · rintro ⟨htake, hat⟩
    rcases lt_trichotomy e.key.length name.length with hlt | heq | hgt
    · -- the `=` of the line would be one of the name
      have hmem : chEq ∈ name := by
        rw [← htake]
        refine List.mem_of_getElem? (i := e.key.length) ?_
        rw [List.getElem?_take_of_lt hlt, lineText, List.getElem?_append_right (le_refl _),
          Nat.sub_self]
        rfl
      exact absurd rfl (hname.chars chEq hmem).1
    · rw [lineText, List.take_left' heq] at htake
      exact htake
    · -- the `=` behind the name would be one of the key
      rw [lineText, List.getD_append _ _ _ _ hgt, List.getD_eq_getElem _ _ hgt] at hat
      exact absurd hat (h.key_chars _ (List.getElem_mem hgt)).1
  · rintro rfl
    refine ⟨List.take_left' rfl, ?_⟩
    rw [lineText, List.getD_append_right _ _ _ _ (le_refl _), Nat.sub_self]
    rfl

theorem line_value (e : EnvEntry) :
    (lineText e).drop (e.key.length + 1) = escapeData 0 e.data := by
  rw [lineText, ← List.drop_drop, List.drop_left' rfl]
  rfl

/-- The loop finds the line of the name among the lines. -/
theorem linearLoop_lines (configEnvSize : Nat) {name : List UInt8} (hname : LookupName name)
    (len : Nat) (tail : List UInt8) :
    ∀ (list : List EnvEntry) (fuel pos : Nat), (∀ e ∈ list, Exportable 0 e.key e.data) →
      pos + (list.flatMap (exportLine 0)).length ≤ configEnvSize + 1 → list.length < fuel →
      linearLoop configEnvSize name len fuel pos (list.flatMap (exportLine 0) ++ 0 :: tail) =
        (list.find? (fun e => e.key == name)).map fun e =>
          ((escapeData 0 e.data).length, linearBuf len (escapeData 0 e.data)) := by
  intro list
  induction list with
  | nil =>
      intro fuel pos _ _ hfuel
      rcases Nat.exists_eq_add_of_le' (by omega : 1 ≤ fuel) with ⟨n, rfl⟩
      rw [List.flatMap_nil, List.nil_append, linearLoop, List.headD_cons, if_pos rfl]
      rfl
  | cons e list ih =>
      intro fuel pos hexp hfit hfuel
      rw [List.length_cons] at hfuel
      rcases Nat.exists_eq_add_of_le' (by omega : 1 ≤ fuel) with ⟨n, rfl⟩
      have he := hexp e List.mem_cons_self
      have htext : (e :: list).flatMap (exportLine 0) ++ 0 :: tail =
          lineText e ++ 0 :: (list.flatMap (exportLine 0) ++ 0 :: tail) := by
        rw [List.flatMap_cons, exportLine_nul, List.append_assoc, List.append_assoc]
        rfl
      have hhead : (lineText e ++ 0 :: (list.flatMap (exportLine 0) ++ 0 :: tail)).headD 0 ≠ 0 := by
        cases hkey : e.key with
        | nil => exact absurd hkey he.key_ne
        | cons c key =>
            rw [lineText, hkey]
            exact (he.key_chars c (by rw [hkey]; exact List.mem_cons_self)).2.1
      rw [List.flatMap_cons, exportLine_nul, List.length_append, List.length_append,
        List.length_singleton] at hfit
      rw [htext, linearLoop, if_neg hhead]
      simp only
      rw [takeWhile_line he, if_neg (by omega)]
      by_cases hkey : e.key = name
      · rw [if_pos ((line_match_iff he hname).2 hkey), List.find?_cons_of_pos (by rw [hkey]; simp),
          Option.map_some, ← hkey, line_value]
      -- the line of another variable is passed over
      · have hdrop : (lineText e ++ 0 :: (list.flatMap (exportLine 0) ++ 0 :: tail)).drop
            ((lineText e).length + 1) = list.flatMap (exportLine 0) ++ 0 :: tail := by
          rw [← List.drop_drop, List.drop_left' rfl]
          rfl
        rw [if_neg (fun h => hkey ((line_match_iff he hname).1 h)),
          List.find?_cons_of_neg (by simpa using hkey), hdrop]
        exact ih n _ (fun e' he' => hexp e' (List.mem_cons_of_mem e he')) (by omega) (by omega)

/-- Where the value has no character to escape, the escaped value has its length. -/
theorem length_escapeData_iff {data : List UInt8} (hnul : (0 : UInt8) ∉ data) :
    (escapeData 0 data).length = data.length ↔ chBackslash ∉ data := by
  have hlen := @length_escapeData_eq 0 _ hnul
  simp only [dataRoom, unplanned, if_true] at hlen
  rw [hlen, ← List.count_eq_zero]
  omega

/-- And then it is the value. -/
theorem escapeData_eq_iff {data : List UInt8} (hnul : (0 : UInt8) ∉ data) :
    escapeData 0 data = data ↔ chBackslash ∉ data := by
  constructor
  · intro h
    exact (length_escapeData_iff hnul).1 (congrArg List.length h)
  · intro h
    unfold escapeData
    rw [List.flatMap_congr (g := fun c => [c])]
    · exact List.flatMap_singleton' data
    · intro c hc
      rw [if_neg]
      rintro (rfl | rfl)
      · exact hnul hc
      · exact h hc

/-- What the lookup in the text of an export gives. -/
theorem envGetFromLinear_export {htab : HsearchData} (hinv : HtabInv htab)
    (hexp : AllExportable htab.vars) {size size' : Nat} {matchEntry : EnvEntry → Bool}
    {res : List UInt8} (h : hexportR htab 0 0 size 0 matchEntry = .ok (size', res))
    {configEnvSize : Nat} (hfit : res.length ≤ configEnvSize) {name : List UInt8}
    (hname : LookupName name) (len : Nat) :
    envGetFromLinear configEnvSize res name len = (htab.vars name).map fun e =>
      ((escapeData 0 e.data).length, linearBuf len (escapeData 0 e.data)) := by
  rcases hexportR_lines hinv h with ⟨list, n, hres, hmem, _, _, hlines⟩
  have hlen := congrArg List.length hres
  rw [List.length_append, List.length_cons] at hlen
  rw [envGetFromLinear, if_neg hname.ne_nil]
  conv => lhs; rw [hres]
  rw [linearLoop_lines configEnvSize hname len _ list _ 0
    (fun e he => hexp e.key e ((hmem e).1 he)) (by omega)
    (by rw [List.length_append, List.length_cons]; omega)]
  congr 1
  cases hvar : htab.vars name with
  | none =>
      rw [List.find?_eq_none]
      intro e he hkey
      rw [beq_iff_eq] at hkey
      rw [← hkey, (hmem e).1 he] at hvar
      cases hvar
  | some e =>
      have hkey := hinv.key_of_vars hvar
      cases hfind : list.find? (fun e => e.key == name) with
      | none =>
          rw [List.find?_eq_none] at hfind
          exact absurd (by rw [hkey]; simp) (hfind e ((hmem e).2 (by rw [hkey]; exact hvar)))
      | some e' =>
          have hkey' : e'.key = name := by
            have hp := List.find?_some hfind
            rwa [beq_iff_eq] at hp
          have hvar' := (hmem e').1 (List.mem_of_find?_eq_some hfind)
          rw [hkey', hvar, Option.some.injEq] at hvar'
          rw [hvar']

/-- The lookup in the text of an export gives the value that the table has if, and only if, the value has
no backslash and the buffer has room for it and the NUL. -/
theorem linear_get_eq_iff {htab : HsearchData} (hinv : HtabInv htab)
    (hexp : AllExportable htab.vars) {size size' : Nat} {matchEntry : EnvEntry → Bool}
    {res : List UInt8} (h : hexportR htab 0 0 size 0 matchEntry = .ok (size', res))
    {configEnvSize : Nat} (hfit : res.length ≤ configEnvSize) {name : List UInt8} {e : EnvEntry}
    (hvar : htab.vars name = some e) (len : Nat) :
    envGetFromLinear configEnvSize res name len = some (e.data.length, e.data ++ [0]) ↔
      chBackslash ∉ e.data ∧ e.data.length < len := by
  have hnul := (hexp name e hvar).data_nul
  rw [envGetFromLinear_export hinv hexp h hfit (hexp name e hvar).lookupName len, hvar,
    Option.map_some, Option.some.injEq, Prod.mk.injEq, length_escapeData_iff hnul]
  constructor
  · rintro ⟨hplain, hbuf⟩
    refine ⟨hplain, ?_⟩
    by_contra hlen
    -- a buffer that is too short has less than the value in it
    have hshort := congrArg List.length hbuf
    rw [(escapeData_eq_iff hnul).2 hplain, linearBuf, if_pos (not_lt.1 hlen), List.length_set,
      List.length_take, List.length_append, List.length_singleton] at hshort
    omega
  · rintro ⟨hplain, hlen⟩
    refine ⟨hplain, ?_⟩
    rw [(escapeData_eq_iff hnul).2 hplain, linearBuf, if_neg (by omega)]
    exact List.take_of_length_le (by rw [List.length_append, List.length_singleton]; omega)

theorem hexportR_oneVar :
    hexportR oneVar 0 0 64 0 (fun _ => true) =
      .ok (64, [97, 61, 49, 0, 0] ++ List.replicate 59 0) := rfl

/-- A value with a backslash, one without, and the same in a buffer that is a byte too short. -/
theorem linear_get_escVar :
    envGetFromLinear 64 ([97, 61, 92, 92, 10, 0, 0] ++ List.replicate 57 0) [97] 8 ≠
        some (2, [92, 10, 0]) ∧
      envGetFromLinear 64 ([97, 61, 49, 0, 0] ++ List.replicate 59 0) [97] 2 = some (1, [49, 0]) ∧
      envGetFromLinear 64 ([97, 61, 49, 0, 0] ++ List.replicate 59 0) [97] 1 ≠ some (1, [49, 0]) := by
  have hvar : oneVar.vars [97] = some (freshEntry noHooks [97] [49]) := by
    rw [oneVar_spec.2, Function.update_self]
  have hone := linear_get_eq_iff oneVar_spec.1 oneVar_exportable hexportR_oneVar (by decide : _ ≤ 64)
    hvar
  refine ⟨fun hget => ?_, (hone 2).2 ⟨by decide, by decide⟩, fun hget => ?_⟩
  · have hvar : escVar.vars [97] = some (freshEntry noHooks [97] [92, 10]) := by
      rw [escVar_spec.2, Function.update_self]
    have hesc := (linear_get_eq_iff escVar_spec.1 escVar_exportable
      (show hexportR escVar 0 0 64 0 (fun _ => true) =
        .ok (64, [97, 61, 92, 92, 10, 0, 0] ++ List.replicate 57 0) from rfl)
      (by decide : _ ≤ 64) hvar 8).1 hget
    exact hesc.1 List.mem_cons_self
  · exact absurd ((hone 1).1 hget).2 (by decide)

end Env
end CanmvK230
