import CanmvK230.Env.Export

/-!
# Reimport — a text read back

What `himport_r` does with a text is a list of acts, one for each line (`lineAct`); a line that
`hexport_r` has written enters its variable again (`lineAct_exportLine`).

So the variables of a table come back from its export as they were, with their flags and callbacks
looked up anew, exactly if their names and values are such as a text can name (`Exportable`), the checks
let them in, and the new table has room (`reimport_iff`).  A text names only such variables
(`lineAct_exportable`): no import brings in others (`himportR_keeps`).
-/

namespace CanmvK230
namespace Env

open Lib

/-- A variable that a line of a text can name. -/
structure Exportable (sep : UInt8) (key data : List UInt8) : Prop where
  key_ne : key ≠ []
  key_chars : ∀ c ∈ key, c ≠ chEq ∧ c ≠ 0 ∧ c ≠ sep
  key_head : ∀ c ∈ key.head?, isblank c = false ∧ c ≠ chHash
  data_ne : data ≠ []
  data_nul : (0 : UInt8) ∉ data

/-! ## Lines as acts -/

inductive LineAct where
  | skip
  | delete (name : List UInt8)
  | enter (name value : List UInt8)
  | emptyKey
  deriving DecidableEq, Repr

/-- What the line at the front of the text asks for, and the text behind it. -/
def lineAct (sep : UInt8) (text : List UInt8) : LineAct × List UInt8 :=
  let rest := text.dropWhile isblank
  if rest.headD 0 = chHash then
    (.skip, (rest.dropWhile fun c => c != 0 && c != sep).tail)
  else
    let name := rest.takeWhile fun c => c != chEq && c != 0 && c != sep
    let rest := rest.drop name.length
    if rest.headD 0 = 0 ∨ rest.tail.headD 0 = 0 ∨ rest.headD 0 = sep ∨ rest.tail.headD 0 = sep then
      (.delete name, if rest.headD 0 = chEq then rest.tail.tail else rest.tail)
    else
      let value := importValue sep rest.tail
      (if name = [] then .emptyKey else .enter name value.1, value.2.tail)

/-- An act on the table; an error is the end of the import. -/
def performAct (hooks : EnvHooks) (flag : Nat) (vars : List (Option (List UInt8)))
    (htab : HsearchData) :
    LineAct → Option (Except HsearchData (HsearchData × List (Option (List UInt8))))
  | .skip => some (.ok (htab, vars))
  | .emptyKey => some (.error htab)
  | .delete name =>
      if (dropVarFromSet name vars).1 = false then
        some (.ok (htab, (dropVarFromSet name vars).2))
      else
        (hdeleteR hooks name htab flag).map fun r => .ok (r.2, (dropVarFromSet name vars).2)
  | .enter name value =>
      if (dropVarFromSet name vars).1 = false then
        some (.ok (htab, (dropVarFromSet name vars).2))
      else
        (hsearchR hooks name value .enter htab flag).map fun out =>
          .ok (out.htab, (dropVarFromSet name vars).2)

theorem importLine_eq (hooks : EnvHooks) (sep : UInt8) (flag : Nat) (st : ImportState) :
    importLine hooks sep flag st =
      (performAct hooks flag st.vars st.htab (lineAct sep st.rest).1).map
        (Except.map fun r => { htab := r.1, vars := r.2, rest := (lineAct sep st.rest).2 }) := by
  unfold importLine lineAct
  simp only
  split
  · rfl
  · split
    · simp only [performAct]
      split
      · rfl
      · rw [Option.map_map]
        rfl
    · split
      · rfl
      · simp only [performAct]
        split
        · rfl
        · rw [Option.map_map]
          rfl

/-! ## A line that has been exported -/

theorem importValue_stop {sep c : UInt8} (h : c = 0 ∨ c = sep) (rest : List UInt8) :
    importValue sep (c :: rest) = ([], c :: rest) := by
  cases rest <;> rw [importValue, if_pos h]

theorem importValue_escape {sep d : UInt8} (hsep : sep ≠ chBackslash) (hd : d ≠ 0)
    (rest : List UInt8) :
    importValue sep (chBackslash :: d :: rest) =
      (d :: (importValue sep rest).1, (importValue sep rest).2) := by
  have hstop : ¬ (chBackslash = 0 ∨ chBackslash = sep) := by
    rintro (h | h)
    · exact absurd h (by decide)
    · exact hsep h.symm
  rw [importValue, if_neg hstop]
  simp only
  rw [if_pos ⟨trivial, hd⟩]

theorem importValue_plain {sep c d : UInt8} (hc : ¬ (c = 0 ∨ c = sep)) (hb : c ≠ chBackslash)
    (rest : List UInt8) :
    importValue sep (c :: d :: rest) =
      (c :: (importValue sep (d :: rest)).1, (importValue sep (d :: rest)).2) := by
  rw [importValue, if_neg hc]
  simp only
  rw [if_neg (fun h => hb h.1)]

theorem importValue_escapeData {sep : UInt8} (hsep : sep ≠ chBackslash) {data : List UInt8}
    (hnul : (0 : UInt8) ∉ data) (tail : List UInt8) :
    importValue sep (escapeData sep data ++ sep :: tail) = (data, sep :: tail) := by
  induction data with
  | nil =>
      exact importValue_stop (Or.inr rfl) tail
  | cons c data ih =>
      rw [List.mem_cons, not_or] at hnul
      have hc : c ≠ 0 := fun h => hnul.1 h.symm
      have hih := ih hnul.2
      have hcons : escapeData sep (c :: data) =
          (if c = sep ∨ c = chBackslash then [chBackslash, c] else [c]) ++ escapeData sep data := by
        rw [escapeData, List.flatMap_cons]
        rfl
      rw [hcons]
      by_cases hesc : c = sep ∨ c = chBackslash
      · rw [if_pos hesc]
        show importValue sep (chBackslash :: c :: (escapeData sep data ++ sep :: tail)) = _
        rw [importValue_escape hsep hc, hih]
      · rw [if_neg hesc]
        rw [not_or] at hesc
        show importValue sep (c :: (escapeData sep data ++ sep :: tail)) = _
        cases hrest : escapeData sep data ++ sep :: tail with
        | nil => exact absurd hrest (by simp)
        | cons d rest =>
            rw [importValue_plain (by rintro (h | h); exact hc h; exact hesc.1 h) hesc.2, ← hrest,
              hih]

/-- The value of a variable does not look like the end of its line. -/
theorem escapeData_head {sep : UInt8} (hsep : sep ≠ chBackslash) {data : List UInt8}
    (hne : data ≠ []) (hnul : (0 : UInt8) ∉ data) (tail : List UInt8) :
    (escapeData sep data ++ tail).headD 0 ≠ 0 ∧ (escapeData sep data ++ tail).headD 0 ≠ sep := by
  cases data with
  | nil => exact absurd rfl hne
  | cons c data =>
      rw [List.mem_cons, not_or] at hnul
      have hc : c ≠ 0 := fun h => hnul.1 h.symm
      rw [escapeData, List.flatMap_cons]
      by_cases hesc : c = sep ∨ c = chBackslash
      · rw [if_pos hesc]
        exact ⟨show chBackslash ≠ 0 by decide, fun h => hsep h.symm⟩
      · rw [if_neg hesc]
        rw [not_or] at hesc
        exact ⟨hc, hesc.1⟩

theorem lineAct_exportLine {sep : UInt8} (heq : sep ≠ chEq) (hsep : sep ≠ chBackslash)
    {e : EnvEntry} (h : Exportable sep e.key e.data) (tail : List UInt8) :
    lineAct sep (exportLine sep e ++ tail) = (.enter e.key e.data, tail) := by
  have hline : exportLine sep e ++ tail =
      e.key ++ chEq :: (escapeData sep e.data ++ sep :: tail) := by
    rw [exportLine]
    simp only [List.append_assoc, List.cons_append, List.nil_append]
  have hblank : (exportLine sep e ++ tail).dropWhile isblank = exportLine sep e ++ tail := by
    rw [hline]
    cases hkey : e.key with
    | nil => exact absurd hkey h.key_ne
    | cons c key =>
        rw [List.cons_append, List.dropWhile_cons_of_neg]
        rw [Bool.not_eq_true]
        exact (h.key_head c (by rw [hkey]; rfl)).1
  have hhash : (exportLine sep e ++ tail).headD 0 ≠ chHash := by
    rw [hline]
    cases hkey : e.key with
    | nil => exact absurd hkey h.key_ne
    | cons c key => exact (h.key_head c (by rw [hkey]; rfl)).2
  have hname : (exportLine sep e ++ tail).takeWhile
      (fun c => c != chEq && c != 0 && c != sep) = e.key := by
    rw [hline, List.takeWhile_append_of_pos, List.takeWhile_cons_of_neg, List.append_nil]
    · simp only [bne_self_eq_false, Bool.false_and, Bool.false_eq_true, not_false_eq_true]
    · intro c hc
      rcases h.key_chars c hc with ⟨h1, h2, h3⟩
      simp only [bne_iff_ne, ne_eq, h1, h2, h3, not_false_eq_true, Bool.and_eq_true, and_self]
  unfold lineAct
  simp only
  rw [hblank, if_neg hhash, hname, hline, List.drop_left]
  rcases escapeData_head hsep h.data_ne h.data_nul (sep :: tail) with ⟨h0, hs⟩
  simp only [List.headD_cons, List.tail_cons]
  rw [if_neg (by
    rintro (hz | hz | hz | hz)
    · exact absurd hz (by decide)
    · exact h0 hz
    · exact heq hz.symm
    · exact hs hz), if_neg h.key_ne, importValue_escapeData hsep h.data_nul]
  rfl

/-! ## Any line -/

theorem importValue_length (sep : UInt8) :
    ∀ (n : Nat) (text : List UInt8), text.length ≤ n →
      (importValue sep text).2.length ≤ text.length := by
  intro n
  induction n with
  | zero =>
      intro text hn
      have hnil := List.eq_nil_of_length_eq_zero (Nat.le_zero.1 hn)
      subst hnil
      exact le_refl _
  | succ n ih =>
      intro text hn
      cases text with
      | nil => exact le_refl _
      | cons c rest =>
          rw [List.length_cons] at hn
          by_cases hstop : c = 0 ∨ c = sep
          · rw [importValue_stop hstop]
          · cases rest with
            | nil =>
                rw [importValue, if_neg hstop]
                exact Nat.zero_le _
            | cons d rest =>
                rw [List.length_cons] at hn
                rw [importValue, if_neg hstop]
                simp only
                split
                · have h := ih rest (by omega)
                  simp only [List.length_cons]
                  omega
                · have h := ih (d :: rest) (by rw [List.length_cons]; omega)
                  simp only [List.length_cons] at h ⊢
                  omega

/-- Each round of the loop moves on. -/
theorem lineAct_length (sep : UInt8) {text : List UInt8} (hne : text ≠ []) :
    (lineAct sep text).2.length < text.length := by
  have hpos := List.length_pos_iff.2 hne
  have hblank : (text.dropWhile isblank).length ≤ text.length :=
    (List.dropWhile_sublist isblank).length_le
  unfold lineAct
  simp only
  generalize text.dropWhile isblank = rest at hblank
  by_cases hrest : rest = []
  · subst hrest
    exact hpos
  · have hrpos := List.length_pos_iff.2 hrest
    split
    · have h := (List.dropWhile_sublist (l := rest) (fun c => c != 0 && c != sep)).length_le
      simp only [List.length_tail]
      omega
    · generalize (rest.takeWhile fun c => c != chEq && c != 0 && c != sep).length = n
      have hdrop : (rest.drop n).length ≤ rest.length := by
        rw [List.length_drop]
        omega
      split
      · split
        · simp only [List.length_tail]
          omega
        · simp only [List.length_tail]
          omega
      · have h := importValue_length sep (rest.drop n).tail.length (rest.drop n).tail (le_refl _)
        simp only [List.length_tail] at h ⊢
        omega

theorem importValue_plain_mem (sep : UInt8) :
    ∀ (n : Nat) (text : List UInt8), text.length ≤ n → (0 : UInt8) ∉ (importValue sep text).1 := by
  intro n
  induction n with
  | zero =>
      intro text hn
      have hnil := List.eq_nil_of_length_eq_zero (Nat.le_zero.1 hn)
      subst hnil
      exact List.not_mem_nil
  | succ n ih =>
      intro text hn
      cases text with
      | nil => exact List.not_mem_nil
      | cons c rest =>
          rw [List.length_cons] at hn
          by_cases hstop : c = 0 ∨ c = sep
          · rw [importValue_stop hstop]
            exact List.not_mem_nil
          · have hc : c ≠ 0 := fun h => hstop (Or.inl h)
            cases rest with
            | nil =>
                rw [importValue, if_neg hstop, List.mem_singleton]
                exact fun h => hc h.symm
            | cons d rest =>
                rw [List.length_cons] at hn
                rw [importValue, if_neg hstop]
                simp only
                split
                · rename_i hesc
                  rw [List.mem_cons, not_or]
                  exact ⟨fun h => hesc.2 h.symm, ih rest (by omega)⟩
                · rw [List.mem_cons, not_or]
                  exact ⟨fun h => hc h.symm, ih (d :: rest) (by rw [List.length_cons]; omega)⟩

/-- What a line enters, a line can name. -/
theorem lineAct_exportable {sep : UInt8} {text : List UInt8} {name value tail : List UInt8}
    (h : lineAct sep text = (.enter name value, tail)) :
    Exportable sep name value ∧ Exportable 0 name value := by
  unfold lineAct at h
  simp only at h
  have hhead : ∀ c ∈ (text.dropWhile isblank).head?, isblank c = false := by
    intro c hc
    have hnot := List.head?_dropWhile_not isblank text
    rw [Option.mem_def] at hc
    rw [hc] at hnot
    exact hnot
  generalize text.dropWhile isblank = rest at h hhead
  split at h
  · cases h
  · rename_i hhash
    split at h
    · cases h
    · rename_i hval
      rw [not_or, not_or, not_or] at hval
      rcases hval with ⟨_, h1, _, h1s⟩
      generalize hword : (rest.takeWhile fun c => c != chEq && c != 0 && c != sep) = word at h h1 h1s
      by_cases hnil : word = []
      · rw [if_pos hnil] at h
        cases h
      · rw [if_neg hnil] at h
        rw [Prod.mk.injEq, LineAct.enter.injEq] at h
        rcases h with ⟨⟨rfl, rfl⟩, _⟩
        have hchars : ∀ c ∈ word, c ≠ chEq ∧ c ≠ 0 ∧ c ≠ sep := by
          intro c hc
          rw [← hword] at hc
          have hp := List.all_eq_true.1 List.all_takeWhile c hc
          simp only [bne_iff_ne, ne_eq, Bool.and_eq_true] at hp
          exact ⟨hp.1.1, hp.1.2, hp.2⟩
        -- the blanks are gone, and a `#` would have made the line a comment
        have hfirst : ∀ c ∈ word.head?, isblank c = false ∧ c ≠ chHash := by
          intro c hc
          rcases List.takeWhile_prefix (p := fun c => c != chEq && c != 0 && c != sep)
            (l := rest) with ⟨suffix, hsuffix⟩
          rw [hword] at hsuffix
          have hrest : rest.head? = some c := by
            rw [← hsuffix, List.head?_append_of_ne_nil _ hnil]
            exact hc
          refine ⟨hhead c hrest, ?_⟩
          rintro rfl
          apply hhash
          rw [List.headD_eq_head?_getD, hrest]
          rfl
        -- a line without a value would have deleted the variable
        have hne : (importValue sep (rest.drop word.length).tail).1 ≠ [] := by
          cases htail : (rest.drop word.length).tail with
          | nil =>
              rw [htail] at h1
              exact absurd rfl h1
          | cons c r =>
              rw [htail] at h1 h1s
              simp only [List.headD_cons] at h1 h1s
              have hstop : ¬ (c = 0 ∨ c = sep) := by
                rintro (hz | hz)
                · exact h1 hz
                · exact h1s hz
              cases r with
              | nil =>
                  rw [importValue, if_neg hstop]
                  exact List.cons_ne_nil _ _
              | cons d r =>
                  rw [importValue, if_neg hstop]
                  simp only
                  split <;> exact List.cons_ne_nil _ _
        have hnul := importValue_plain_mem sep _ _
          (le_refl (rest.drop word.length).tail.length)
        refine ⟨⟨hnil, hchars, hfirst, hne, hnul⟩, ⟨hnil, ?_, hfirst, hne, hnul⟩⟩
        intro c hc
        exact ⟨(hchars c hc).1, (hchars c hc).2.1, (hchars c hc).2.1⟩

/-! ## What an import keeps -/

def AllExportable (vars : EnvVars) : Prop :=
  ∀ key e, vars key = some e → Exportable 0 key e.data

theorem enterVars_mem {hooks : EnvHooks} {full : Prop} [Decidable full] {vars vars' : EnvVars}
    {key data : List UInt8} {flag : Nat} (h : enterVars hooks full vars key data flag = .ok vars')
    {k : List UInt8} {e : EnvEntry} (hk : vars' k = some e) :
    vars k = some e ∨ (k = key ∧ e.data = data) := by
  have hcases : ∃ e', vars' = Function.update vars key (some e') ∧ e'.data = data := by
    unfold enterVars at h
    split at h
    · split at h
      · cases h
      · split at h
        · cases h
        · cases h
          exact ⟨_, rfl, rfl⟩
    · split at h
      · cases h
      · split at h
        · cases h
        · split at h
          · cases h
          · cases h
            exact ⟨_, rfl, rfl⟩
  rcases hcases with ⟨e', rfl, hdata⟩
  by_cases hkey : k = key
  · subst hkey
    rw [Function.update_self, Option.some.injEq] at hk
    subst hk
    exact Or.inr ⟨rfl, hdata⟩
  · rw [Function.update_of_ne hkey] at hk
    exact Or.inl hk

theorem deleteVars_mem {hooks : EnvHooks} {vars vars' : EnvVars} {key : List UInt8} {flag : Nat}
    (h : deleteVars hooks vars key flag = .ok vars') {k : List UInt8} {e : EnvEntry}
    (hk : vars' k = some e) : vars k = some e := by
  have hcases : vars' = Function.update vars key none := by
    unfold deleteVars at h
    split at h
    · cases h
    · split at h
      · cases h
      · split at h
        · cases h
        · cases h
          rfl
  subst hcases
  by_cases hkey : k = key
  · subst hkey
    rw [Function.update_self] at hk
    cases hk
  · rw [Function.update_of_ne hkey] at hk
    exact hk

/-- A call to `hsearch_r` enters what it is called with, and nothing else. -/
theorem hsearchR_enter_keeps (hooks : EnvHooks) {htab : HsearchData} (hinv : HtabInv htab)
    (key data : List UInt8) (flag : Nat) :
    ∃ out, hsearchR hooks key data .enter htab flag = some out ∧ HtabInv out.htab ∧
      out.htab.size = htab.size ∧ ∀ k e, out.htab.vars k = some e →
        htab.vars k = some e ∨ (k = key ∧ e.data = data) := by
  rcases hsearchR_enter hooks hinv key data flag with ⟨out, hout, hinv', hsize, hentered⟩
  refine ⟨out, hout, hinv', hsize, ?_⟩
  intro k e hk
  generalize hr : enterVars hooks (htab.filled = htab.size) htab.vars key data flag = r at hentered
  cases hentered with
  | ok hvars _ _ _ _ =>
      rw [hvars] at hk
      exact enterVars_mem hr hk
  | error hvars _ _ _ =>
      rw [hvars] at hk
      exact Or.inl hk

theorem hdeleteR_keeps (hooks : EnvHooks) {htab : HsearchData} (hinv : HtabInv htab)
    (key : List UInt8) (flag : Nat) :
    ∃ r, hdeleteR hooks key htab flag = some r ∧ HtabInv r.2 ∧ r.2.size = htab.size ∧
      ∀ k e, r.2.vars k = some e → htab.vars k = some e := by
  rcases hdeleteR_spec hooks hinv key flag with
    ⟨ret, htab', hret, hinv', hsize, ⟨_, hvars⟩ | ⟨hhtab, _, _⟩⟩
  · exact ⟨_, hret, hinv', hsize, fun k e hk => deleteVars_mem hvars hk⟩
  · refine ⟨_, hret, hinv', hsize, fun k e hk => ?_⟩
    rw [hhtab] at hk
    exact hk

/-- The tables that an import goes through. -/
structure Imported (size : Nat) (htab : HsearchData) : Prop where
  inv : HtabInv htab
  size : htab.size = size
  exportable : AllExportable htab.vars

/-- A table of variables that are all such as `P` says. -/
structure Holds (P : List UInt8 → List UInt8 → Prop) (size : Nat) (htab : HsearchData) : Prop where
  inv : HtabInv htab
  size : htab.size = size
  all : ∀ key e, htab.vars key = some e → P key e.data

section Keeps

variable {P : List UInt8 → List UInt8 → Prop} {size : Nat}

theorem performAct_keeps (hooks : EnvHooks) (flag : Nat) (vars : List (Option (List UInt8)))
    {htab : HsearchData} (h : Holds P size htab) {act : LineAct}
    (hact : ∀ name value, act = .enter name value → P name value) :
    performAct hooks flag vars htab act = some (.error htab) ∨
      ∃ htab' vars', performAct hooks flag vars htab act = some (.ok (htab', vars')) ∧
        Holds P size htab' := by
  cases act with
  | skip => exact Or.inr ⟨htab, vars, rfl, h⟩
  | emptyKey => exact Or.inl rfl
  | delete name =>
      right
      rw [performAct]
      split
      · exact ⟨_, _, rfl, h⟩
      · rcases hdeleteR_keeps hooks h.inv name flag with ⟨r, hr, hinv', hsize, hvars⟩
        rw [hr]
        exact ⟨r.2, _, rfl, hinv', hsize.trans h.size, fun k e hk => h.all k e (hvars k e hk)⟩
  | enter name value =>
      right
      rw [performAct]
      split
      · exact ⟨_, _, rfl, h⟩
      · rcases hsearchR_enter_keeps hooks h.inv name value flag with
          ⟨out, hout, hinv', hsize, hvars⟩
        rw [hout]
        refine ⟨out.htab, _, rfl, hinv', hsize.trans h.size, ?_⟩
        intro k e hk
        rcases hvars k e hk with hold | ⟨rfl, hdata⟩
        · exact h.all k e hold
        · rw [hdata]
          exact hact k value rfl

/-- The loop comes to an end, with such a table. -/
theorem importLoop_keeps (hooks : EnvHooks) {sep : UInt8}
    (hP : ∀ name value, Exportable sep name value ∧ Exportable 0 name value → P name value)
    (flag slack : Nat) :
    ∀ (fuel : Nat) (st : ImportState), Holds P size st.htab → st.rest.length < fuel →
      (∃ htab', importLoop hooks sep flag slack fuel st = some (.error htab') ∧
        Holds P size htab') ∨
      ∃ st', importLoop hooks sep flag slack fuel st = some (.ok st') ∧ Holds P size st'.htab := by
  intro fuel
  induction fuel with
  | zero =>
      intro st _ hfuel
      exact absurd hfuel (Nat.not_lt_zero _)
  | succ fuel ih =>
      intro st h hfuel
      have hact : ∀ name value, (lineAct sep st.rest).1 = .enter name value → P name value := by
        intro name value heq
        exact hP name value (lineAct_exportable (Prod.ext heq rfl))
      rw [importLoop, importLine_eq]
      rcases performAct_keeps hooks flag st.vars h hact with herr | ⟨htab', vars', hok, h'⟩
      · rw [herr]
        exact Or.inl ⟨st.htab, rfl, h⟩
      · rw [hok]
        simp only [Option.map_some, Except.map, Option.bind_some]
        split
        · rename_i hmore
          apply ih _ h'
          by_cases hnil : st.rest = []
          · rw [hnil] at hmore
            have hlen : (lineAct sep []).2.length = 0 := by
              unfold lineAct
              simp only [List.dropWhile_nil, List.headD_nil, List.takeWhile_nil, List.length_nil,
                List.drop_nil, List.tail_nil, true_or, if_true]
              split
              · rfl
              · split <;> rfl
            rw [hlen] at hmore
            omega
          -- a line takes at least one byte of the text
          · have hlt := lineAct_length sep hnil
            simp only
            omega
        · exact Or.inr ⟨_, rfl, h'⟩

theorem deleteVarsLeft_keeps (hooks : EnvHooks) (flag : Nat) :
    ∀ (vars : List (Option (List UInt8))) (htab : HsearchData), Holds P size htab →
      ∃ htab', deleteVarsLeft hooks flag vars htab = some htab' ∧ Holds P size htab' := by
  intro vars
  induction vars with
  | nil =>
      intro htab h
      exact ⟨htab, rfl, h⟩
  | cons v vars ih =>
      intro htab h
      cases v with
      | none => exact ih htab h
      | some name =>
          rcases hdeleteR_keeps hooks h.inv name flag with ⟨r, hr, hinv', hsize, hvars⟩
          rw [deleteVarsLeft, hr]
          exact ih r.2 ⟨hinv', hsize.trans h.size, fun k e hk => h.all k e (hvars k e hk)⟩

end Keeps

theorem stripCr_length (text : List UInt8) :
    (stripCr text).1.length + (stripCr text).2 ≤ text.length := by
  induction text with
  | nil => exact le_refl 0
  | cons c text ih =>
      rw [stripCr]
      split
      · exact Nat.zero_le _
      · simp only
        split
        · simp only [List.length_cons]
          omega
        · simp only [List.length_cons]
          omega

theorem importEntries_bounds (size : Nat) : 64 ≤ importEntries size ∧ importEntries size ≤ 512 := by
  unfold importEntries envMinEntries envMaxEntries
  split <;> omega

/-- The table that an import without a table makes. -/
theorem hcreateR_import (size : Nat) :
    ∃ new, hcreateR (importEntries size) = some new ∧ HtabInv new ∧ new.vars = (fun _ => none) ∧
      new.filled = 0 ∧ importEntries size ≤ new.size ∧
      ∀ q, q.Prime → 5 ≤ q → importEntries size ≤ q → new.size ≤ q := by
  rcases importEntries_bounds size with ⟨h64, h512⟩
  rcases hcreateR_spec (by omega : 2 ≤ importEntries size) (by omega) with
    ⟨q, hq, hprime, h5, hle, hmin⟩
  rcases htabInv_new ⟨hprime, h5⟩ with ⟨hinv, hvars⟩
  exact ⟨_, hq, hinv, hvars, rfl, hle, fun r hr hr5 hrle => hmin r hr hr5 hrle⟩

/-- An import into a table that `importTable` gives. -/
theorem himportR_holds (hooks : EnvHooks) {P : List UInt8 → List UInt8 → Prop} {sep : UInt8}
    (hP : ∀ name value, Exportable sep name value ∧ Exportable 0 name value → P name value)
    {htab : Option HsearchData} {env : List UInt8} {flag : Nat} {vars : List (List UInt8)}
    {start : HsearchData} (htable : importTable htab env.length flag vars.length = some start)
    (hstart : Holds P start.size start) (crlfIsLf : Bool) :
    ∃ ret htab', himportR hooks htab env sep flag crlfIsLf vars = some (ret, htab') ∧
      Holds P start.size htab' := by
  unfold himportR
  simp only [Option.bind_eq_bind, Option.pure_def]
  rw [htable, Option.bind_some]
  by_cases hempty : env.length = 0
  · rw [if_pos hempty]
    exact ⟨_, start, rfl, hstart⟩
  · rw [if_neg hempty]
    set strip := if crlfIsLf = true then stripCr env else ([], 0) with hstrip
    have hlen : strip.1.length ≤ env.length := by
      have h := stripCr_length env
      rw [hstrip]
      split
      · omega
      · exact Nat.zero_le _
    -- without the carriage returns the text is no longer than before, and in front of the old end
    have hfuel : (strip.1 ++ (env ++ [0]).drop strip.1.length).length <
        (env ++ [0]).length + 1 := by
      simp only [List.length_append, List.length_drop, List.length_singleton]
      omega
    rcases importLoop_keeps hooks hP flag (strip.2 + 1) ((env ++ [0]).length + 1)
      { htab := start, vars := vars.map some, rest := strip.1 ++ (env ++ [0]).drop strip.1.length }
      hstart hfuel with ⟨htab', hloop, h'⟩ | ⟨st', hloop, h'⟩
    · rw [hloop]
      exact ⟨_, htab', rfl, h'⟩
    · rw [hloop]
      simp only [Option.bind_some]
      split
      · exact ⟨_, st'.htab, rfl, h'⟩
      · rcases deleteVarsLeft_keeps hooks flag st'.vars st'.htab h' with ⟨htab', hdel, h''⟩
        rw [hdel]
        exact ⟨_, htab', rfl, h''⟩

/-- Without `H_NOCLEAR` and without names, the table is a new one. -/
theorem importTable_fresh (htab : Option HsearchData) (size : Nat) {flag : Nat}
    (hflag : flag &&& hNoclear = 0) {new : HsearchData}
    (hnew : hcreateR (importEntries size) = some new) :
    importTable htab size flag 0 = some new := by
  rw [importTable, if_pos ⟨hflag, rfl⟩]
  exact hnew

theorem importTable_keeps {htab : Option HsearchData}
    (hold : ∀ h, htab = some h → HtabInv h ∧ AllExportable h.vars) (size flag nvars : Nat) :
    ∃ start, importTable htab size flag nvars = some start ∧
      (htab = some start ∨ hcreateR (importEntries size) = some start) ∧
      Holds (Exportable 0) start.size start := by
  unfold importTable
  split
  · rename_i h heq
    refine ⟨h, rfl, ?_⟩
    split at heq
    · cases heq
    · rcases hold h heq with ⟨hinv, hexp⟩
      exact ⟨Or.inl heq, hinv, rfl, hexp⟩
  · rcases hcreateR_import size with ⟨new, hnew, hinv, hvars, _⟩
    refine ⟨new, hnew, Or.inr hnew, hinv, rfl, ?_⟩
    intro k e hk
    rw [hvars] at hk
    cases hk

/-- Every import comes to an end, with a table whose variables a text can name. -/
theorem himportR_keeps (hooks : EnvHooks) {htab : Option HsearchData}
    (hold : ∀ h, htab = some h → HtabInv h ∧ AllExportable h.vars) (env : List UInt8)
    (sep : UInt8) (flag : Nat) (crlfIsLf : Bool) (vars : List (List UInt8)) :
    ∃ ret htab' start, himportR hooks htab env sep flag crlfIsLf vars = some (ret, htab') ∧
      (htab = some start ∨ hcreateR (importEntries env.length) = some start) ∧
      Imported start.size htab' := by
  rcases importTable_keeps hold env.length flag vars.length with ⟨start, htable, hfrom, hstart⟩
  rcases himportR_holds hooks (fun _ _ h => h.2) htable hstart crlfIsLf with ⟨ret, htab', hrun, h'⟩
  exact ⟨ret, htab', start, hrun, hfrom, h'.inv, h'.size, h'.all⟩

theorem exportable_a {sep : UInt8} {data : List UInt8} (hsep : sep ≠ 97) (hne : data ≠ [])
    (hnul : (0 : UInt8) ∉ data) : Exportable sep [97] data where
  key_ne := by decide
  key_chars c hc := by
    rw [List.mem_singleton.1 hc]
    exact ⟨by decide, by decide, hsep.symm⟩
  key_head c hc := by
    rw [← Option.some.inj hc]
    decide
  data_ne := hne
  data_nul := hnul

theorem oneVar_exportable (k : List UInt8) (e : EnvEntry) (h : oneVar.vars k = some e) :
    Exportable 0 k e.data := by
  rcases oneVar_eq_some h with ⟨rfl, rfl⟩
  exact exportable_a (by decide) (by decide) (by decide)

/-- `b=1` and the deletion of `a`, into the table with `a=1`. -/
theorem himportR_keeps_oneVar :
    ∃ ret htab' start, himportR noHooks (some oneVar) [98, 61, 49, 0, 97, 61, 0, 0] 0 hNoclear false
        [] = some (ret, htab') ∧
      (some oneVar = some start ∨ hcreateR (importEntries 8) = some start) ∧
      Imported start.size htab' :=
  himportR_keeps noHooks
    (by
      rintro h heq
      obtain rfl := Option.some.inj heq
      exact ⟨oneVar_spec.1, oneVar_exportable⟩)
    [98, 61, 49, 0, 97, 61, 0, 0] 0 hNoclear false []

/-! ## An export imported again -/

/-- The checks let a variable be created. -/
structure Accepts (hooks : EnvHooks) (flag : Nat) (key data : List UInt8) : Prop where
  changeOk : changeDenied hooks (freshEntry hooks key data) (some data) .create flag = false
  callback : doCallback (freshEntry hooks key data) key (some data) .create flag = 0

/-- The entries are entered one after the other. -/
def enterAll (hooks : EnvHooks) (flag : Nat) : List EnvEntry → HsearchData → Option HsearchData
  | [], htab => some htab
  | e :: list, htab =>
      (hsearchR hooks e.key e.data .enter htab flag).bind fun out =>
        enterAll hooks flag list out.htab

/-- A new variable is entered if the checks let it in and there is a place for it; else nothing changes. -/
theorem enter_new (hooks : EnvHooks) (flag : Nat) {htab : HsearchData} (hinv : HtabInv htab)
    {key : List UInt8} (hnone : htab.vars key = none) (data : List UInt8) :
    ∃ out, hsearchR hooks key data .enter htab flag = some out ∧ HtabInv out.htab ∧
      out.htab.size = htab.size ∧
      ((Accepts hooks flag key data ∧
          out.htab.vars = Function.update htab.vars key (some (freshEntry hooks key data)) ∧
          out.htab.filled = htab.filled + 1) ∨
        (¬ (Accepts hooks flag key data ∧ htab.filled < htab.size) ∧
          out.htab.vars = htab.vars)) := by
  rcases hsearchR_enter hooks hinv key data flag with ⟨out, hout, hinv', hsize, hentered⟩
  refine ⟨out, hout, hinv', hsize, ?_⟩
  have hle := hinv.filled_le
  by_cases hin : Accepts hooks flag key data ∧ htab.filled < htab.size
  · rcases hin with ⟨haccept, hroom⟩
    have henter : enterVars hooks (htab.filled = htab.size) htab.vars key data flag =
        .ok (Function.update htab.vars key (some (freshEntry hooks key data))) := by
      rw [enterVars, hnone]
      simp only
      rw [if_neg (by omega), haccept.changeOk, if_neg (by decide), haccept.callback,
        if_neg (by decide)]
    rw [henter] at hentered
    cases hentered with
    | ok hvars _ _ _ _ =>
        refine Or.inl ⟨haccept, hvars, ?_⟩
        have hkeys : {k | out.htab.vars k ≠ none} = insert key {k | htab.vars k ≠ none} := by
          ext k
          rw [Set.mem_insert_iff, Set.mem_ofPred_eq, Set.mem_ofPred_eq, hvars]
          by_cases hk : k = key
          · subst hk
            rw [Function.update_self]
            exact ⟨fun _ => Or.inl rfl, fun _ => Option.some_ne_none _⟩
          · rw [Function.update_of_ne hk]
            exact ⟨fun h => Or.inr h, fun h => h.resolve_left hk⟩
        rw [hinv'.filled_eq, hinv.filled_eq, hkeys]
        exact Set.ncard_insert_of_notMem (fun h => h hnone) hinv.finite_vars
  · refine Or.inr ⟨hin, ?_⟩
    -- one of the checks in front of the entry ends the call
    have herr : ∃ err, enterVars hooks (htab.filled = htab.size) htab.vars key data flag =
        .error err := by
      rw [enterVars, hnone]
      simp only
      split
      · exact ⟨_, rfl⟩
      · rename_i hfull
        split
        · exact ⟨_, rfl⟩
        · rename_i hdenied
          split
          · exact ⟨_, rfl⟩
          · rename_i hcallback
            exact absurd ⟨⟨Bool.eq_false_iff.2 hdenied, not_not.1 hcallback⟩, by omega⟩ hin
    rcases herr with ⟨err, herr⟩
    rw [herr] at hentered
    cases hentered with
    | error hvars _ _ _ => exact hvars

/-- All of the entries are in the table behind the calls if, and only if, the checks let each of them in
and there is a place for each. -/
theorem enterAll_spec (hooks : EnvHooks) (flag : Nat) :
    ∀ (list : List EnvEntry) (htab : HsearchData), HtabInv htab →
      list.Pairwise (fun e e' => e.key ≠ e'.key) → (∀ e ∈ list, htab.vars e.key = none) →
      ∃ htab', enterAll hooks flag list htab = some htab' ∧ HtabInv htab' ∧
        (∀ k, (∀ e ∈ list, e.key ≠ k) → htab'.vars k = htab.vars k) ∧
        ((∀ e ∈ list, htab'.vars e.key = some (freshEntry hooks e.key e.data)) ↔
          (∀ e ∈ list, Accepts hooks flag e.key e.data) ∧
            htab.filled + list.length ≤ htab.size) := by
  intro list
  induction list with
  | nil =>
      intro htab hinv _ _
      refine ⟨htab, rfl, hinv, fun _ _ => rfl, ?_⟩
      have hle := hinv.filled_le
      exact ⟨fun _ => ⟨fun e he => absurd he List.not_mem_nil, hle⟩,
        fun _ e he => absurd he List.not_mem_nil⟩
  | cons e list ih =>
      intro htab hinv hkeys hnew
      rcases List.pairwise_cons.1 hkeys with ⟨hne, hkeys'⟩
      have hbehind : ∀ e' ∈ list, e'.key ≠ e.key := fun e' he' => (hne e' he').symm
      rcases enter_new hooks flag hinv (hnew e List.mem_cons_self) e.data with
        ⟨out, hout, hinv', hsize, hcase⟩
      have hnew' : ∀ e' ∈ list, out.htab.vars e'.key = none := by
        intro e' he'
        rw [← hnew e' (List.mem_cons_of_mem e he')]
        rcases hcase with ⟨_, hvars, _⟩ | ⟨_, hvars⟩
        · rw [hvars, Function.update_of_ne (hbehind e' he')]
        · rw [hvars]
      rcases ih out.htab hinv' hkeys' hnew' with ⟨htab', hall, hinv'', hframe, hiff⟩
      refine ⟨htab', by rw [enterAll, hout, Option.bind_some, hall], hinv'', ?_, ?_⟩
      · intro k hk
        rw [hframe k (fun e' he' => hk e' (List.mem_cons_of_mem e he'))]
        rcases hcase with ⟨_, hvars, _⟩ | ⟨_, hvars⟩
        · rw [hvars, Function.update_of_ne (hk e List.mem_cons_self).symm]
        · rw [hvars]
      · rw [List.forall_mem_cons, List.forall_mem_cons, hiff, List.length_cons, hsize,
          hframe e.key hbehind]
        rcases hcase with ⟨haccept, hvars, hfilled⟩ | ⟨hrefused, hvars⟩
        · rw [hvars, Function.update_self, hfilled]
          constructor
          · rintro ⟨_, haccepts, hroom⟩
            exact ⟨⟨haccept, haccepts⟩, by omega⟩
          · rintro ⟨⟨_, haccepts⟩, hroom⟩
            exact ⟨rfl, haccepts, by omega⟩
        -- what has not been entered is not there later
        · rw [hvars, hnew e List.mem_cons_self]
          constructor
          · rintro ⟨h, _⟩
            cases h
          · rintro ⟨⟨haccept, _⟩, hroom⟩
            exact absurd ⟨haccept, by omega⟩ hrefused

theorem dropVarFromSet_nil (name : List UInt8) : dropVarFromSet name [] = (true, []) := rfl

/-- The loop goes through the lines and enters their variables. -/
theorem importLoop_lines (hooks : EnvHooks) {sep : UInt8} (heq : sep ≠ chEq)
    (hsep : sep ≠ chBackslash) (flag slack : Nat) {tail : List UInt8}
    (htail : tail.headD 0 = 0) (hslack : slack ≤ tail.length) :
    ∀ (list : List EnvEntry) (htab : HsearchData) (fuel : Nat), list ≠ [] →
      (∀ e ∈ list, Exportable sep e.key e.data) → list.length ≤ fuel →
      importLoop hooks sep flag slack fuel
          { htab := htab, vars := [], rest := list.flatMap (exportLine sep) ++ tail } =
        (enterAll hooks flag list htab).map fun htab' =>
          .ok { htab := htab', vars := [], rest := tail } := by
  intro list
  induction list with
  | nil =>
      intro htab fuel hne
      exact absurd rfl hne
  | cons e list ih =>
      intro htab fuel _ hexp hfuel
      rw [List.length_cons] at hfuel
      rcases Nat.exists_eq_add_of_le' (by omega : 1 ≤ fuel) with ⟨n, rfl⟩
      have hact := lineAct_exportLine heq hsep (hexp e List.mem_cons_self)
        (list.flatMap (exportLine sep) ++ tail)
      rw [List.flatMap_cons, List.append_assoc, importLoop, importLine_eq]
      simp only [hact, performAct, dropVarFromSet_nil, Bool.true_eq_false, if_false]
      rw [enterAll]
      cases hout : hsearchR hooks e.key e.data .enter htab flag with
      | none => rfl
      | some out =>
          simp only [Option.map_some, Except.map, Option.bind_some]
          by_cases hnil : list = []
          · subst hnil
            rw [List.flatMap_nil, List.nil_append, if_neg (fun h => h.2 htail), enterAll]
            rfl
          -- the next line begins with a name, which has no NUL
          · have hmore : slack < (list.flatMap (exportLine sep) ++ tail).length ∧
                (list.flatMap (exportLine sep) ++ tail).headD 0 ≠ 0 := by
              cases list with
              | nil => exact absurd rfl hnil
              | cons e' list =>
                  have he' := hexp e' (List.mem_cons_of_mem e List.mem_cons_self)
                  rw [List.flatMap_cons, List.append_assoc]
                  cases hkey : e'.key with
                  | nil => exact absurd hkey he'.key_ne
                  | cons c key =>
                      rw [exportLine, hkey]
                      refine ⟨?_, ?_⟩
                      · simp only [List.length_append, List.length_cons]
                        omega
                      · exact (he'.key_chars c (by rw [hkey]; exact List.mem_cons_self)).2.1
            rw [if_pos hmore]
            exact ih out.htab n hnil (fun e' he' => hexp e' (List.mem_cons_of_mem e he')) (by omega)

/-- An empty text asks for the variable without a name to be deleted, which there is not. -/
theorem importLoop_empty (hooks : EnvHooks) (sep : UInt8) (flag slack : Nat) {htab : HsearchData}
    (hinv : HtabInv htab) (hnone : htab.vars [] = none) {tail : List UInt8}
    (htail : tail.headD 0 = 0) (fuel : Nat) :
    importLoop hooks sep flag slack (fuel + 1) { htab := htab, vars := [], rest := 0 :: tail } =
      some (.ok { htab := htab, vars := [], rest := tail }) := by
  have hact : lineAct sep (0 :: tail) = (.delete [], tail) := by
    have hblank : (0 :: tail).dropWhile isblank = 0 :: tail :=
      List.dropWhile_cons_of_neg (by decide)
    have hname : (0 :: tail).takeWhile (fun c => c != chEq && c != 0 && c != sep) = [] :=
      List.takeWhile_cons_of_neg (by simp)
    unfold lineAct
    simp only [hblank, hname, List.length_nil, List.drop_zero, List.headD_cons, List.tail_cons]
    rw [if_neg (by decide), if_pos (Or.inl trivial), if_neg (by decide)]
  rcases hdeleteR_spec hooks hinv [] flag with
    ⟨ret, htab', hret, _, _, ⟨_, hvars⟩ | ⟨hhtab, _, _⟩⟩
  · rw [deleteVars, hnone] at hvars
    cases hvars
  · rw [importLoop, importLine_eq]
    simp only [hact, performAct, dropVarFromSet_nil, Bool.true_eq_false, if_false, hret, hhtab,
      Option.map_some, Except.map, Option.bind_some]
    rw [if_neg (fun h => h.2 htail)]

/-- The loop enters the lines of a text, whose end is the NUL, into an empty table. -/
theorem importLoop_text (hooks : EnvHooks) {sep : UInt8} (heq : sep ≠ chEq)
    (hsep : sep ≠ chBackslash) (flag n fuel : Nat) {new : HsearchData} (hinv : HtabInv new)
    (hvars : new.vars = fun _ => none) (hfilled : new.filled = 0) {list : List EnvEntry}
    (hkeys : list.Pairwise (fun e e' => e.key ≠ e'.key))
    (hexp : ∀ e ∈ list, Exportable sep e.key e.data) (hfuel : list.length ≤ fuel) :
    ∃ htab' rest, importLoop hooks sep flag 1 (fuel + 1)
        { htab := new, vars := [],
          rest := list.flatMap (exportLine sep) ++ (0 :: (List.replicate n 0 ++ [0])) } =
        some (.ok { htab := htab', vars := [], rest := rest }) ∧ HtabInv htab' ∧
      (∀ k, (∀ e ∈ list, e.key ≠ k) → htab'.vars k = none) ∧
      ((∀ e ∈ list, htab'.vars e.key = some (freshEntry hooks e.key e.data)) ↔
        (∀ e ∈ list, Accepts hooks flag e.key e.data) ∧ list.length ≤ new.size) := by
  have htail : (List.replicate n 0 ++ [0] : List UInt8).headD 0 = 0 := by
    cases n <;> rfl
  rcases enterAll_spec hooks flag list new hinv hkeys (fun e _ => by rw [hvars]) with
    ⟨htab', hall, hinv', hframe, hiff⟩
  rw [hfilled, Nat.zero_add] at hiff
  have hframe' : ∀ k, (∀ e ∈ list, e.key ≠ k) → htab'.vars k = none := by
    intro k hk
    rw [hframe k hk, hvars]
  by_cases hnil : list = []
  · subst hnil
    obtain rfl := Option.some.inj (show some new = some htab' from hall)
    refine ⟨new, List.replicate n 0 ++ [0], ?_, hinv, hframe', hiff⟩
    rw [List.flatMap_nil, List.nil_append]
    exact importLoop_empty hooks sep flag 1 hinv (by rw [hvars]) htail fuel
  · refine ⟨htab', 0 :: (List.replicate n 0 ++ [0]), ?_, hinv', hframe', hiff⟩
    rw [importLoop_lines hooks heq hsep flag 1 rfl (by simp) list new (fuel + 1) hnil hexp
      (by omega), hall]
    rfl

/-- The text of an export without `argc` is one of its lines, each of which the import takes. -/
theorem himportR_export (hooks : EnvHooks) {htab : HsearchData} (hinv : HtabInv htab) {sep : UInt8}
    (heq : sep ≠ chEq) (hsep : sep ≠ chBackslash)
    (hexp : ∀ k e, htab.vars k = some e → Exportable sep k e.data) {size size' : Nat}
    {matchEntry : EnvEntry → Bool} {res : List UInt8}
    (h : hexportR htab sep 0 size 0 matchEntry = .ok (size', res)) {flag : Nat}
    (hflag : flag &&& hNoclear = 0) (old : Option HsearchData) :
    ∃ htab' new, hcreateR (importEntries res.length) = some new ∧
      himportR hooks old res sep flag false [] = some (1, htab') ∧ HtabInv htab' ∧
      ((∀ k, htab'.vars k = (htab.vars k).map fun e => freshEntry hooks k e.data) ↔
        (∀ k e, htab.vars k = some e → Accepts hooks flag k e.data) ∧ htab.filled ≤ new.size) := by
  rcases hexportR_lines hinv h with ⟨list, n, hres, hmem, hkeys, hlength, hlines⟩
  have hin : ∀ {k e}, htab.vars k = some e → e ∈ list ∧ e.key = k := by
    intro k e hk
    have hkey := hinv.key_of_vars hk
    exact ⟨(hmem e).2 (by rw [hkey]; exact hk), hkey⟩
  have hrest : res ++ [0] =
      list.flatMap (exportLine sep) ++ (0 :: (List.replicate n 0 ++ [0])) := by
    rw [hres, List.append_assoc, List.cons_append]
  have hfuel : list.length ≤ (res ++ [0]).length := by
    rw [hrest, List.length_append]
    omega
  have hne : res.length ≠ 0 := by
    rw [hres, List.length_append, List.length_cons]
    omega
  rcases hcreateR_import res.length with ⟨new, hnew, hnewinv, hnewvars, hnewfilled, _, _⟩
  have htable := importTable_fresh old res.length hflag hnew
  rcases importLoop_text hooks heq hsep flag n (res ++ [0]).length hnewinv hnewvars hnewfilled hkeys
    (fun e he => hexp e.key e ((hmem e).1 he)) hfuel with
    ⟨htab', rest, hloop, hinv', hframe, hiff⟩
  refine ⟨htab', new, hnew, ?_, hinv', ?_⟩
  · rw [← hrest] at hloop
    unfold himportR
    simp only [Option.bind_eq_bind, Option.pure_def]
    rw [List.length_nil, htable, Option.bind_some, if_neg hne]
    simp only [Bool.false_eq_true, if_false, List.map_nil, List.length_nil, List.drop_zero,
      List.nil_append, Nat.zero_add]
    rw [hloop, Option.bind_some]
    simp only
    rw [if_neg (by rw [hflag]; decide)]
    rfl
  · rw [← hlength]
    -- the variables are the entries of the list
    have hvars : (∀ k, htab'.vars k = (htab.vars k).map fun e => freshEntry hooks k e.data) ↔
        ∀ e ∈ list, htab'.vars e.key = some (freshEntry hooks e.key e.data) := by
      constructor
      · intro hall e he
        rw [hall, (hmem e).1 he]
        rfl
      · intro hall k
        cases hk : htab.vars k with
        | none =>
            rw [hframe k]
            · rfl
            · rintro e he rfl
              rw [(hmem e).1 he] at hk
              cases hk
        | some e =>
            rcases hin hk with ⟨he, rfl⟩
            rw [hall e he]
            rfl
    rw [hvars, hiff]
    constructor
    · rintro ⟨haccept, hroom⟩
      refine ⟨?_, hroom⟩
      intro k e hk
      rcases hin hk with ⟨he, rfl⟩
      exact haccept e he
    · rintro ⟨haccept, hroom⟩
      exact ⟨fun e he => haccept e.key e ((hmem e).1 he), hroom⟩

/-- What it takes to bring the variables of a table back from a text of `len` bytes: a line can name
each, the checks let each in, and the new table has a place for each. -/
structure Reimportable (hooks : EnvHooks) (sep : UInt8) (flag len : Nat) (htab : HsearchData) :
    Prop where
  exportable : ∀ k e, htab.vars k = some e → Exportable sep k e.data
  accepts : ∀ k e, htab.vars k = some e → Accepts hooks flag k e.data
  room : ∀ new, hcreateR (importEntries len) = some new → htab.filled ≤ new.size

/-- The variables of a table come back from its export, their names and values as they were, their
flags and callbacks as for new variables, if, and only if, they are reimportable. -/
theorem reimport_iff (hooks : EnvHooks) {htab : HsearchData} (hinv : HtabInv htab) {sep : UInt8}
    (heq : sep ≠ chEq) (hsep : sep ≠ chBackslash) {size size' : Nat}
    {matchEntry : EnvEntry → Bool} {res : List UInt8}
    (h : hexportR htab sep 0 size 0 matchEntry = .ok (size', res)) {flag : Nat}
    (hflag : flag &&& hNoclear = 0) (old : Option HsearchData) :
    (∃ htab', himportR hooks old res sep flag false [] = some (1, htab') ∧ HtabInv htab' ∧
      ∀ k, htab'.vars k = (htab.vars k).map fun e => freshEntry hooks k e.data) ↔
      Reimportable hooks sep flag res.length htab := by
  constructor
  · rintro ⟨htab', himport, _, hvars⟩
    -- whatever the text is, the import leaves variables that a line has named
    have hexp : ∀ k e, htab.vars k = some e → Exportable sep k e.data := by
      rcases hcreateR_import res.length with ⟨new, hnew, hnewinv, hnewvars, _⟩
      have htable : importTable old res.length flag ([] : List (List UInt8)).length = some new :=
        importTable_fresh old res.length hflag hnew
      rcases himportR_holds (P := Exportable sep) hooks (fun _ _ h => h.1) htable
        ⟨hnewinv, rfl, by rw [hnewvars]; exact fun _ _ h => absurd h (by simp)⟩ false with
        ⟨ret, htab1, hrun, hholds⟩
      rw [himport, Option.some.injEq, Prod.mk.injEq] at hrun
      rcases hrun with ⟨_, rfl⟩
      intro k e hk
      exact hholds.all k (freshEntry hooks k e.data) (by rw [hvars, hk]; rfl)
    rcases himportR_export hooks hinv heq hsep hexp h hflag old with
      ⟨htab1, new, hnew, himport1, _, hiff⟩
    rw [himport, Option.some.injEq, Prod.mk.injEq] at himport1
    rcases himport1 with ⟨_, rfl⟩
    rcases hiff.1 hvars with ⟨haccept, hroom⟩
    refine ⟨hexp, haccept, fun new' hnew' => ?_⟩
    rw [hnew] at hnew'
    cases hnew'
    exact hroom
  · rintro ⟨hexp, haccept, hroom⟩
    rcases himportR_export hooks hinv heq hsep hexp h hflag old with
      ⟨htab', new, hnew, himport, hinv', hiff⟩
    exact ⟨htab', himport, hinv', hiff.2 ⟨haccept, hroom new hnew⟩⟩

theorem noHooks_accepts (flag : Nat) (k data : List UInt8) : Accepts noHooks flag k data :=
  ⟨rfl, rfl⟩

theorem escVar_exportable (k : List UInt8) (e : EnvEntry) (h : escVar.vars k = some e) :
    Exportable 0 k e.data := by
  rcases escVar_eq_some h with ⟨rfl, rfl⟩
  exact exportable_a (by decide) (by decide) (by decide)

/-- With a line feed for the separator, both characters of the value are escaped. -/
theorem hexportR_escVar :
    hexportR escVar chLf 0 0 0 (fun _ => true) = .ok (8, [97, 61, 92, 92, 92, 10, 10, 0]) := rfl

theorem reimport_escVar :
    ((∃ htab', himportR noHooks (some oneVar) [97, 61, 92, 92, 92, 10, 10, 0] chLf 0 false [] =
        some (1, htab') ∧ HtabInv htab' ∧
      ∀ k, htab'.vars k = (escVar.vars k).map fun e => freshEntry noHooks k e.data) ↔
      Reimportable noHooks chLf 0 8 escVar) ∧ Reimportable noHooks chLf 0 8 escVar := by
  refine ⟨reimport_iff noHooks escVar_spec.1 (by decide) (by decide) hexportR_escVar rfl (some oneVar),
    ?_, fun k e _ => noHooks_accepts 0 k e.data, ?_⟩
  · intro k e hk
    rcases escVar_eq_some hk with ⟨rfl, rfl⟩
    exact exportable_a (by decide) (by decide) (by decide)
  · intro new hnew
    rcases hcreateR_import 8 with ⟨new', hnew', hinv, _⟩
    obtain rfl := Option.some.inj (hnew.symm.trans hnew')
    have h5 := hinv.size.2
    have hone : escVar.filled = 1 := rfl
    omega

end Env
end CanmvK230
