import CanmvK230.Lib.Bytes
import CanmvK230.Env.Crc32
import CanmvK230.Env.Reimport

/-!
# Common — the environment between the table and its image (`env/common.c`, `cmd/nvedit.c`)

The image is an `env_t`: a check and `ENV_SIZE` bytes of text.  `env_export` writes it from the table,
`env_import` makes the table from it, and falls back to the default environment when the check or the
text is wrong.

Whatever imports and settings have made the variables, they come back from their image
(`env_export_import`), and an image that is wrong in a stretch of up to 32 bits of its text is
refused (`env_import_burst`).
-/

namespace CanmvK230
namespace Env

open Lib

def Errno.enomsg : Int := 42
def Errno.eio : Int := 5
def cmdRetUsage : Int := -1
def chDash : UInt8 := 0x2d
def chSpace : UInt8 := 0x20
def chForce : UInt8 := 0x66

/-- `ENV_SIZE`, `default_environment` and what the table calls back. -/
structure EnvSetup where
  hooks : EnvHooks
  envSize : Nat
  defaultEnvironment : List UInt8

/-- `env_htab` and the flags `GD_FLG_ENV_READY` and `GD_FLG_ENV_DEFAULT`. -/
structure EnvState where
  htab : Option HsearchData
  ready : Bool
  isDefault : Bool

section Source

variable (env : EnvSetup)

def envSetDefault (st : EnvState) (flags : Nat) : Option EnvState :=
  (himportR env.hooks st.htab env.defaultEnvironment 0 (flags ||| hDefault) false []).map fun r =>
    if r.1 = 0 then
      { st with htab := some r.2 }
    else
      { htab := some r.2, ready := true, isDefault := true }

/-- `ep->crc` -/
def readCrc (buf : List UInt8) : BitVec 32 :=
  BitVec.ofNat 32 (leNat (buf.take 4))

def crcField (crc : BitVec 32) : List UInt8 :=
  toLe 4 crc.toNat

/-- `ep->data` -/
def envData (buf : List UInt8) : List UInt8 :=
  (buf.drop 4).take env.envSize

/-- `env_import` of a buffer at the address `addr`. -/
def envImport (st : EnvState) (addr : Nat) (buf : List UInt8) (check : Bool) (flags : Nat) :
    Option (Int × EnvState) :=
  if check = true ∧ crc32 0 (addr + 4) (envData env buf) ≠ readCrc buf then
    (envSetDefault env st 0).map fun st => (-Errno.enomsg, st)
  else
    (himportR env.hooks st.htab (envData env buf) 0 flags false []).bind fun r =>
      if r.1 ≠ 0 then
        some (0, { st with htab := some r.2, ready := true })
      else
        (envSetDefault env { st with htab := some r.2 } 0).map fun st => (-Errno.eio, st)

/-- `env_export` into an `env_t` at the address `addr`: the value returned, the `env_t`, and what has
been written behind it. -/
def envExport (htab : HsearchData) (addr : Nat) : Int × List UInt8 × List UInt8 :=
  match hexportR htab 0 0 env.envSize 0 (fun _ => false) with
  | .error _ => (1, [], [])
  | .ok (_, res) =>
      (0, crcField (crc32 0 (addr + 4) (res.take env.envSize)) ++ res.take env.envSize,
        res.drop env.envSize)

def envGet (htab : HsearchData) (name : List UInt8) : Option (Option (List UInt8)) :=
  (hsearchR env.hooks name [] .find htab 0).map fun out =>
    out.retval.map fun idx => (out.htab.table idx).entry.data

/-- The options of `env set`, of which there is `-f`; `none` is the return of `CMD_RET_USAGE`. -/
def envSetOptions : List (List UInt8) → Nat → Option (List (List UInt8) × Nat)
  | [], flag => some ([], flag)
  | arg :: args, flag =>
      if arg.head? = some chDash then
        if arg.tail.all (· == chForce) = true then
          envSetOptions args (if arg.tail = [] then flag else flag ||| hForce)
        else
          none
      else
        some (arg :: args, flag)

/-- The values with a blank between them. -/
def joinValues : List (List UInt8) → List UInt8
  | [] => []
  | [v] => v
  | v :: vs => v ++ chSpace :: joinValues vs

/-- `_do_env_set` for the arguments behind the name of the command.  Without a name it looks for a
character in a `NULL` string. -/
inductive EnvSetRet where
  | returned (ret : Int) (htab : HsearchData)
  | nullName

def doEnvSet (htab : HsearchData) (args : List (List UInt8)) (flag : Nat) : Option EnvSetRet :=
  match envSetOptions args flag with
  | none => some (.returned cmdRetUsage htab)
  | some ([], _) => some .nullName
  | some (name :: values, flag) =>
      if chEq ∈ name then
        some (.returned 1 htab)
      else if values = [] then
        (hdeleteR env.hooks name htab flag).map fun r =>
          .returned (if r.1 ≠ 0 ∧ r.1 ≠ -Errno.enoent then 1 else 0) r.2
      else
        (hsearchR env.hooks name (joinValues values) .enter htab flag).map fun out =>
          .returned (if out.retval = none then 1 else 0) out.htab

/-- `env_set` -/
def envSet (st : EnvState) (htab : HsearchData) (name : List UInt8) (value : Option (List UInt8)) :
    Option EnvSetRet :=
  if st.ready = false then
    some (.returned 1 htab)
  else
    match value with
    | none => doEnvSet env htab [name] hProgrammatic
    | some value =>
        if value = [] then
          doEnvSet env htab [name] hProgrammatic
        else
          doEnvSet env htab [name, value] hProgrammatic

end Source

/-- `env_get` gives the value of the variable. -/
theorem envGet_eq (env : EnvSetup) {htab : HsearchData} (hinv : HtabInv htab)
    (name : List UInt8) :
    envGet env htab name = some ((htab.vars name).map EnvEntry.data) := by
  rcases hsearchR_find env.hooks hinv name [] 0 with
    ⟨out, hout, hhtab, ⟨hnone, _, hretval, _⟩ | ⟨idx, hidx, e, hplace, _, hretval, _⟩⟩
  · -- no slot holds the name
    rw [envGet, hout, Option.map_some, hretval, hnone]
    rfl
  · have hvar : htab.vars name = some e := hinv.vars_eq_some_iff.2 ⟨idx, hidx, hplace⟩
    rw [envGet, hout, Option.map_some, hretval, hvar, hhtab, Option.map_some, Option.map_some,
      (places_eq_used_iff.1 hplace).2.1]

/-! ## The image -/

theorem readCrc_crcField (crc : BitVec 32) (data : List UInt8) :
    readCrc (crcField crc ++ data) = crc := by
  have hlen : (crcField crc).length = 4 := length_toLe 4 _
  rw [readCrc, List.take_left' hlen, crcField, leNat_toLe_of_lt crc.isLt, BitVec.ofNat_toNat,
    BitVec.setWidth_eq]

section Image

variable (env : EnvSetup)

theorem envData_image (crc : BitVec 32) {data : List UInt8} (hdata : data.length ≤ env.envSize) :
    envData env (crcField crc ++ data) = data := by
  have hlen : (crcField crc).length = 4 := length_toLe 4 _
  rw [envData, List.drop_left' hlen, List.take_of_length_le hdata]

/-- The check of a buffer does not depend on where the buffer lies. -/
theorem crc32_addr (crc : BitVec 32) (addr addr' : Nat) (p : List UInt8) :
    crc32 crc addr p = crc32 crc addr' p := by
  rw [crc32_eq, crc32_eq]

/-- What an export that returns 0 has written. -/
theorem envExport_ok {env : EnvSetup} {htab : HsearchData} {addr : Nat} {image beyond : List UInt8}
    (h : envExport env htab addr = (0, image, beyond)) :
    ∃ size' res, hexportR htab 0 0 env.envSize 0 (fun _ => false) = .ok (size', res) ∧
      image = crcField (crc32 0 (addr + 4) (res.take env.envSize)) ++ res.take env.envSize ∧
      beyond = res.drop env.envSize := by
  unfold envExport at h
  split at h
  · cases h
  · rename_i size' res hres
    cases h
    exact ⟨size', res, hres, rfl, rfl⟩

/-- An image that has stayed in its `env_t`: the check is that of the text. -/
theorem envExport_contained {env : EnvSetup} (hpos : env.envSize ≠ 0) {htab : HsearchData}
    {addr : Nat} {image : List UInt8} (h : envExport env htab addr = (0, image, [])) :
    hexportR htab 0 0 env.envSize 0 (fun _ => false) = .ok (env.envSize, envData env image) ∧
      (envData env image).length = env.envSize ∧
      image = crcField (crc32 0 (addr + 4) (envData env image)) ++ envData env image := by
  rcases envExport_ok h with ⟨size', res, hres, himage, hbeyond⟩
  have hle : res.length ≤ env.envSize := List.drop_eq_nil_iff.1 hbeyond.symm
  rw [List.take_of_length_le hle] at himage
  have hdata : envData env image = res := by
    rw [himage]
    exact envData_image env _ hle
  rcases hexportR_ok hres with ⟨hsize, hok⟩
  have hsize' : size' = env.envSize := hsize.resolve_left hpos
  have hge : size' ≤ res.length := by
    rw [hok, List.length_append, List.length_replicate]
    omega
  rw [hdata]
  exact ⟨by rw [hres, hsize'], by omega, himage⟩

/-- Importing clears the table, so what it held does not matter. -/
theorem himportR_clears (hooks : EnvHooks) (htab : Option HsearchData) (text : List UInt8)
    (sep : UInt8) {flag : Nat} (hflag : flag &&& hNoclear = 0) (crlfIsLf : Bool) :
    himportR hooks htab text sep flag crlfIsLf [] = himportR hooks none text sep flag crlfIsLf [] := by
  have htable : importTable htab text.length flag ([] : List (List UInt8)).length =
      importTable none text.length flag ([] : List (List UInt8)).length := by
    rw [importTable, importTable, if_pos ⟨hflag, rfl⟩, if_pos ⟨hflag, rfl⟩]
  unfold himportR
  rw [htable]

/-- The image of a table gives its variables back, wherever it lies when it is imported. -/
theorem envImport_export {htab : HsearchData} (hinv : HtabInv htab)
    (hexp : AllExportable htab.vars) (hpos : env.envSize ≠ 0) {addr : Nat} {image : List UInt8}
    (h : envExport env htab addr = (0, image, [])) {flags : Nat} (hflag : flags &&& hNoclear = 0)
    (haccept : ∀ k e, htab.vars k = some e → Accepts env.hooks flags k e.data)
    (hroom : ∀ new, hcreateR (importEntries env.envSize) = some new → htab.filled ≤ new.size)
    (st : EnvState) (addr' : Nat) (check : Bool) :
    ∃ htab', envImport env st addr' image check flags =
        some (0, { st with htab := some htab', ready := true }) ∧ HtabInv htab' ∧
      ∀ k, htab'.vars k = (htab.vars k).map fun e => freshEntry env.hooks k e.data := by
  rcases envExport_contained hpos h with ⟨hres, hlen, himage⟩
  rcases himportR_export env.hooks hinv (by decide : (0 : UInt8) ≠ chEq)
    (by decide : (0 : UInt8) ≠ chBackslash) hexp hres hflag st.htab with
    ⟨htab', new, hnew, himport, hinv', hiff⟩
  have hvars := hiff.2 ⟨haccept, hroom new (by rwa [hlen] at hnew)⟩
  refine ⟨htab', ?_, hinv', hvars⟩
  have hcrc : crc32 0 (addr' + 4) (envData env image) = readCrc image := by
    have hread : readCrc image = crc32 0 (addr + 4) (envData env image) := by
      conv => lhs; rw [himage]
      exact readCrc_crcField _ _
    rw [hread]
    exact crc32_addr 0 _ _ _
  rw [envImport, if_neg (fun h => h.2 hcrc), himport, Option.bind_some,
    if_pos (show (1 : Int) ≠ 0 by decide)]

/-- Setting the default environment comes to an end. -/
theorem envSetDefault_total (st : EnvState) {flags : Nat} (hflag : flags &&& hNoclear = 0) :
    ∃ st', envSetDefault env st flags = some st' := by
  have hflag' : (flags ||| hDefault) &&& hNoclear = 0 := by
    rw [Nat.and_or_distrib_right, hflag]
    decide
  rcases @himportR_keeps env.hooks none (fun _ h => by cases h) env.defaultEnvironment 0
    (flags ||| hDefault) false [] with ⟨ret, htab', _, himport, _⟩
  rw [envSetDefault, himportR_clears env.hooks st.htab _ 0 hflag', himport]
  exact ⟨_, rfl⟩

/-- An image whose text has been changed within 32 bits one after the other is refused, and the
default environment set. -/
theorem env_import_burst {htab : HsearchData} (hpos : env.envSize ≠ 0) {addr : Nat}
    {image image' : List UInt8} (h : envExport env htab addr = (0, image, []))
    (hfield : image'.take 4 = image.take 4) {pre xs ys suf : List (BitVec 1)}
    (hbits : bufBits (envData env image) = pre ++ xs ++ suf)
    (hbits' : bufBits (envData env image') = pre ++ ys ++ suf) (hlen : xs.length = ys.length)
    (h32 : xs.length ≤ 32) (hne : xs ≠ ys) (st : EnvState) (addr' flags : Nat) :
    ∃ st', envSetDefault env st 0 = some st' ∧
      envImport env st addr' image' true flags = some (-Errno.enomsg, st') := by
  rcases envExport_contained hpos h with ⟨_, _, himage⟩
  rcases envSetDefault_total env st (Nat.zero_and hNoclear) with ⟨st', hst⟩
  refine ⟨st', hst, ?_⟩
  have hread : readCrc image' = crc32 0 (addr + 4) (envData env image) := by
    rw [readCrc, hfield, ← readCrc]
    conv => lhs; rw [himage]
    exact readCrc_crcField _ _
  have hdiff : crc32 0 (addr' + 4) (envData env image') ≠ readCrc image' := by
    rw [hread]
    exact (crc32_burst 0 _ _ hbits hbits' hlen h32 hne).symm
  rw [envImport, if_pos ⟨rfl, hdiff⟩, hst]
  rfl

/-- Eight bytes for the text, and `a=1` by default. -/
def tinySetup : EnvSetup :=
  { hooks := noHooks, envSize := 8, defaultEnvironment := [97, 61, 49, 0, 0] }

/-- The image of `a=1`, in which the value has become `3`. -/
def changedImage : List UInt8 :=
  (envExport tinySetup oneVar 0).2.1.take 4 ++ [97, 61, 51, 0, 0, 0, 0, 0]

theorem env_import_burst_one_bit :
    ∃ st', envSetDefault tinySetup { htab := none, ready := false, isDefault := false } 0 = some st' ∧
      envImport tinySetup { htab := none, ready := false, isDefault := false } 64 changedImage true 0 =
        some (-Errno.enomsg, st') :=
  env_import_burst tinySetup (by decide)
    (show envExport tinySetup oneVar 0 = (0, (envExport tinySetup oneVar 0).2.1, []) from rfl)
    (show changedImage.take 4 = (envExport tinySetup oneVar 0).2.1.take 4 from rfl)
    (show bufBits (envData tinySetup (envExport tinySetup oneVar 0).2.1) =
      bufBits [97, 61] ++ [1] ++ [0] ++ ([0, 0, 1, 1, 0, 0] ++ List.replicate 40 0) by decide)
    (show bufBits (envData tinySetup changedImage) =
      bufBits [97, 61] ++ [1] ++ [1] ++ ([0, 0, 1, 1, 0, 0] ++ List.replicate 40 0) by decide)
    (by decide) (by decide) (by decide) _ 64 0

end Image

/-! ## Runs -/

section Runs

variable (env : EnvSetup)

inductive EnvCommand where
  | importImage (addr : Nat) (buf : List UInt8) (check : Bool) (flags : Nat)
  | setDefault (flags : Nat)
  | set (name : List UInt8) (value : Option (List UInt8))

/-- One call from outside.  A call to `env_set` that has no table to work on, or that ends at a `NULL`
name, does not come back. -/
def runEnvCommand (st : EnvState) : EnvCommand → Option EnvState
  | .importImage addr buf check flags => (envImport env st addr buf check flags).map fun r => r.2
  | .setDefault flags => envSetDefault env st flags
  | .set name value =>
      match st.htab with
      | none => if st.ready = false then some st else none
      | some htab =>
          (envSet env st htab name value).bind fun r =>
            match r with
            | .returned _ htab => some { st with htab := some htab }
            | .nullName => none

def runEnvCommands : List EnvCommand → EnvState → Option EnvState
  | [], st => some st
  | cmd :: cmds, st => (runEnvCommand env st cmd).bind (runEnvCommands cmds)

/-- What a caller of `env_set` may give: no option for a name, and a variable that a text can name. -/
def EnvCommand.Settable : EnvCommand → Prop
  | .set name value =>
      name.head? ≠ some chDash ∧ ∀ v, value = some v → v ≠ [] → Exportable 0 name v
  | _ => True

/-- A table whose image fits into the table of its import. -/
structure KeptTable (htab : HsearchData) : Prop where
  inv : HtabInv htab
  exportable : AllExportable htab.vars
  size_le : ∀ new, hcreateR (importEntries env.envSize) = some new → htab.size ≤ new.size

/-- The states between calls. -/
structure Kept (st : EnvState) : Prop where
  table : ∀ htab, st.htab = some htab → KeptTable env htab
  ready : st.ready = true → st.htab ≠ none

variable {env}

/-- The table for a text of `ENV_SIZE` bytes is the largest that an import makes. -/
theorem hcreateR_largest (hsize : 3584 ≤ env.envSize) {size : Nat} {start new : HsearchData}
    (hstart : hcreateR (importEntries size) = some start)
    (hnew : hcreateR (importEntries env.envSize) = some new) : start.size ≤ new.size := by
  have hmax : importEntries env.envSize = 512 := by
    unfold importEntries envMinEntries envMaxEntries
    split <;> omega
  rcases hcreateR_import env.envSize with ⟨new', hnew', hinv, _, _, hle, _⟩
  rw [hnew] at hnew'
  cases hnew'
  rcases hcreateR_import size with ⟨start', hstart', _, _, _, _, hmin⟩
  rw [hstart] at hstart'
  cases hstart'
  have hbound := (importEntries_bounds size).2
  exact hmin new.size hinv.size.prime hinv.size.five_le (by omega)

theorem Kept.import (hsize : 3584 ≤ env.envSize) {st : EnvState} (h : Kept env st)
    (text : List UInt8) (flags : Nat) :
    ∃ ret htab', himportR env.hooks st.htab text 0 flags false [] = some (ret, htab') ∧
      KeptTable env htab' := by
  rcases himportR_keeps env.hooks
    (fun htab heq => ⟨(h.table htab heq).inv, (h.table htab heq).exportable⟩) text 0 flags false []
    with ⟨ret, htab', start, himport, hfrom, hkept⟩
  refine ⟨ret, htab', himport, hkept.inv, hkept.exportable, ?_⟩
  intro new hnew
  rw [hkept.size]
  rcases hfrom with hold | hfresh
  · exact (h.table start hold).size_le new hnew
  · exact hcreateR_largest hsize hfresh hnew

/-- A state with such a table. -/
theorem KeptTable.kept {htab : HsearchData} (h : KeptTable env htab) (ready isDefault : Bool) :
    Kept env { htab := some htab, ready := ready, isDefault := isDefault } := by
  refine ⟨?_, fun _ => Option.some_ne_none htab⟩
  intro htab' heq
  cases heq
  exact h

theorem Kept.setDefault (hsize : 3584 ≤ env.envSize) {st : EnvState} (h : Kept env st)
    (flags : Nat) : ∃ st', envSetDefault env st flags = some st' ∧ Kept env st' := by
  rcases h.import hsize env.defaultEnvironment (flags ||| hDefault) with
    ⟨ret, htab', himport, htable⟩
  rw [envSetDefault, himport, Option.map_some]
  split
  · exact ⟨_, rfl, htable.kept _ _⟩
  · exact ⟨_, rfl, htable.kept _ _⟩

theorem Kept.importImage (hsize : 3584 ≤ env.envSize) {st : EnvState} (h : Kept env st)
    (addr : Nat) (buf : List UInt8) (check : Bool) (flags : Nat) :
    ∃ r, envImport env st addr buf check flags = some r ∧ Kept env r.2 := by
  rw [envImport]
  split
  · rcases h.setDefault hsize 0 with ⟨st', hst, hkept⟩
    rw [hst]
    exact ⟨_, rfl, hkept⟩
  · rcases h.import hsize (envData env buf) flags with ⟨ret, htab', himport, htable⟩
    rw [himport, Option.bind_some]
    split
    · exact ⟨_, rfl, htable.kept _ _⟩
    · rcases (htable.kept st.ready st.isDefault).setDefault hsize 0 with ⟨st', hst, hkept⟩
      rw [hst]
      exact ⟨_, rfl, hkept⟩

theorem envSetOptions_name {name : List UInt8} (hname : name.head? ≠ some chDash)
    (values : List (List UInt8)) (flag : Nat) :
    envSetOptions (name :: values) flag = some (name :: values, flag) := by
  rw [envSetOptions, if_neg hname]

theorem doEnvSet_delete {htab : HsearchData} (h : KeptTable env htab) {name : List UInt8}
    (hname : name.head? ≠ some chDash) (flag : Nat) :
    ∃ ret htab', doEnvSet env htab [name] flag = some (.returned ret htab') ∧
      KeptTable env htab' := by
  rw [doEnvSet, envSetOptions_name hname]
  simp only
  split
  · exact ⟨_, htab, rfl, h⟩
  · rw [if_pos trivial]
    rcases hdeleteR_keeps env.hooks h.inv name flag with ⟨r, hr, hinv, hsize, hvars⟩
    rw [hr]
    refine ⟨_, r.2, rfl, hinv, fun k e hk => h.exportable k e (hvars k e hk), ?_⟩
    rw [hsize]
    exact h.size_le

theorem doEnvSet_enter {htab : HsearchData} (h : KeptTable env htab) {name value : List UInt8}
    (hname : name.head? ≠ some chDash) (hexp : Exportable 0 name value) (flag : Nat) :
    ∃ ret htab', doEnvSet env htab [name, value] flag = some (.returned ret htab') ∧
      KeptTable env htab' := by
  rw [doEnvSet, envSetOptions_name hname]
  simp only
  split
  · exact ⟨_, htab, rfl, h⟩
  · rw [if_neg (List.cons_ne_nil value []), joinValues]
    rcases hsearchR_enter_keeps env.hooks h.inv name value flag with
      ⟨out, hout, hinv, hsize, hvars⟩
    rw [hout]
    refine ⟨_, out.htab, rfl, hinv, ?_, by rw [hsize]; exact h.size_le⟩
    intro k e hk
    rcases hvars k e hk with hold | ⟨rfl, hdata⟩
    · exact h.exportable k e hold
    · rw [hdata]
      exact hexp

theorem envSet_keeps {st : EnvState} {htab : HsearchData} (h : KeptTable env htab)
    {name : List UInt8} {value : Option (List UInt8)}
    (hset : (EnvCommand.set name value).Settable) :
    ∃ ret htab', envSet env st htab name value = some (.returned ret htab') ∧
      KeptTable env htab' := by
  rcases hset with ⟨hname, hvalue⟩
  unfold envSet
  split
  · exact ⟨_, htab, rfl, h⟩
  · cases value with
    | none => exact doEnvSet_delete h hname hProgrammatic
    | some value =>
        simp only
        split
        · exact doEnvSet_delete h hname hProgrammatic
        · rename_i hne
          exact doEnvSet_enter h hname (hvalue value rfl hne) hProgrammatic

/-- One call keeps the tables. -/
theorem Kept.command (hsize : 3584 ≤ env.envSize) {st : EnvState} (h : Kept env st)
    {cmd : EnvCommand} (hset : cmd.Settable) :
    ∃ st', runEnvCommand env st cmd = some st' ∧ Kept env st' := by
  cases cmd with
  | importImage addr buf check flags =>
      rcases h.importImage hsize addr buf check flags with ⟨r, hr, hkept⟩
      rw [runEnvCommand, hr]
      exact ⟨r.2, rfl, hkept⟩
  | setDefault flags => exact h.setDefault hsize flags
  | set name value =>
      rw [runEnvCommand]
      cases hhtab : st.htab with
      | none =>
          have hready : st.ready = false := by
            rw [Bool.eq_false_iff]
            exact fun hr => h.ready hr hhtab
          simp only
          rw [if_pos hready]
          exact ⟨st, rfl, h⟩
      | some htab =>
          rcases @envSet_keeps env st htab (h.table htab hhtab) name value hset with
            ⟨ret, htab', hret, htable⟩
          simp only
          rw [hret]
          exact ⟨_, rfl, htable.kept _ _⟩

/-- And so does a run of calls. -/
theorem Kept.commands (hsize : 3584 ≤ env.envSize) {cmds : List EnvCommand}
    (hset : ∀ cmd ∈ cmds, cmd.Settable) :
    ∀ {st : EnvState}, Kept env st → ∃ st', runEnvCommands env cmds st = some st' ∧ Kept env st' := by
  induction cmds with
  | nil =>
      intro st h
      exact ⟨st, rfl, h⟩
  | cons cmd cmds ih =>
      intro st h
      rcases h.command hsize (hset cmd List.mem_cons_self) with ⟨st1, hst1, h1⟩
      rcases ih (fun cmd' hcmd' => hset cmd' (List.mem_cons_of_mem cmd hcmd')) h1 with
        ⟨st2, hst2, h2⟩
      exact ⟨st2, by rw [runEnvCommands, hst1, Option.bind_some, hst2], h2⟩

/-- The state before the first import. -/
def envStart : EnvState :=
  { htab := none, ready := false, isDefault := false }

theorem kept_start : Kept env envStart := by
  refine ⟨?_, ?_⟩
  · intro htab heq
    cases heq
  · intro hready
    cases hready

variable (env)

/-- Whatever imports and settings have made the variables, an image of them that has stayed in its
`env_t` gives them back. -/
theorem env_export_import (hsize : 3584 ≤ env.envSize) {cmds : List EnvCommand}
    (hset : ∀ cmd ∈ cmds, cmd.Settable) :
    ∃ st, runEnvCommands env cmds envStart = some st ∧
      ∀ htab addr image, st.htab = some htab → envExport env htab addr = (0, image, []) →
        ∀ flags, flags &&& hNoclear = 0 →
          (∀ k e, htab.vars k = some e → Accepts env.hooks flags k e.data) →
          ∀ st' addr' check, ∃ htab', envImport env st' addr' image check flags =
              some (0, { st' with htab := some htab', ready := true }) ∧
            ∀ k, htab'.vars k = (htab.vars k).map fun e => freshEntry env.hooks k e.data := by
  rcases Kept.commands hsize hset kept_start with ⟨st, hrun, hkept⟩
  refine ⟨st, hrun, ?_⟩
  intro htab addr image hhtab hexport flags hflag haccept st' addr' check
  have htable := hkept.table htab hhtab
  rcases envImport_export env htable.inv htable.exportable (by omega) hexport hflag haccept
    (fun new hnew => htable.inv.filled_le.trans (htable.size_le new hnew)) st' addr' check with
    ⟨htab', himport, _, hvars⟩
  exact ⟨htab', himport, hvars⟩

/-- 3584 bytes for the text, and `a=1` by default. -/
def pageSetup : EnvSetup :=
  { hooks := noHooks, envSize := 3584, defaultEnvironment := [97, 61, 49, 0, 0] }

def setTwo : List EnvCommand :=
  [.setDefault 0, .set [97] (some [50])]

theorem settable_setTwo : ∀ cmd ∈ setTwo, cmd.Settable := by
  simp only [setTwo, List.forall_mem_cons, EnvCommand.Settable, Option.some.injEq]
  refine ⟨trivial, ⟨by decide, ?_⟩, fun _ h => absurd h (by simp)⟩
  rintro v rfl _
  exact exportable_a (by decide) (by decide) (by decide)

theorem env_export_import_two :
    ∃ st, runEnvCommands pageSetup setTwo envStart = some st ∧
      ∀ htab addr image, st.htab = some htab → envExport pageSetup htab addr = (0, image, []) →
        ∀ flags, flags &&& hNoclear = 0 →
          (∀ k e, htab.vars k = some e → Accepts noHooks flags k e.data) →
          ∀ st' addr' check, ∃ htab', envImport pageSetup st' addr' image check flags =
              some (0, { st' with htab := some htab', ready := true }) ∧
            ∀ k, htab'.vars k = (htab.vars k).map fun e => freshEntry noHooks k e.data :=
  env_export_import pageSetup (by decide) settable_setTwo

end Runs

end Env
end CanmvK230
