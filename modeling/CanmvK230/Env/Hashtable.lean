import CanmvK230.Lib.Probing
import Mathlib.Data.UInt
import Mathlib.NumberTheory.Bertrand

/-!
# Hashtable — the table of the environment (`lib/hashtable.c`)

The variables lie in a table with double hashing: places `1` to `size` for a prime `size`, a mark
`USED_DELETED` where a variable has been, and place `0` unused because a hash is never zero.

`hcreate_r` finds a prime, so a search comes to every place and ends (`envProbe`, `hsearchR_isSome`).
What `hsearch_r` and `hdelete_r` do is then said of the variables alone (`enterVars`, `deleteVars`),
and a run of calls is a run of the finite map (`runCalls_refines`).

A callback is a function of what it is called with: the one of `.flags` and the one of `.callbacks`
set the flags and callbacks of other entries, and are not among them.
-/

namespace CanmvK230
namespace Env

open Lib

/-! ## `include/search.h` -/

inductive EnvOp where
  | create
  | delete
  | overwrite
  deriving DecidableEq, Repr

inductive EnvAction where
  | find
  | enter
  deriving DecidableEq, Repr

/-- `int (*callback)(const char *name, const char *value, enum env_op op, int flags)`; the value is
`NULL` for a deletion. -/
abbrev EnvCallback := List UInt8 → Option (List UInt8) → EnvOp → Nat → Int

structure EnvEntry where
  key : List UInt8
  data : List UInt8
  callback : Option EnvCallback
  flags : Int

structure EnvEntryNode where
  used : Int
  entry : EnvEntry

/-- A table that has been created; `table[0]` is there and not used. -/
structure HsearchData where
  size : Nat
  filled : Nat
  table : Nat → EnvEntryNode

/-- What the table calls back: `htab->change_ok`, and what `env_callback_init` and `env_flags_init`
find for a variable.  The first sets the callback whether it finds one or not, the second leaves the
flags where it finds none. -/
structure EnvHooks where
  changeOk : Option (EnvEntry → Option (List UInt8) → EnvOp → Nat → Int)
  callbackInit : List UInt8 → Option EnvCallback
  flagsInit : List UInt8 → Option Int

def Errno.eperm : Int := 1
def Errno.enoent : Int := 2
def Errno.esrch : Int := 3
def Errno.enomem : Int := 12
def Errno.einval : Int := 22

def usedFree : Int := 0
def usedDeleted : Int := -1

/-! ## `lib/hashtable.c` -/

/-- The divisor at which the loop of `isprime` ends. -/
def isprimeDiv (number : Nat) : Nat → Nat → Nat
  | 0, div => div
  | fuel + 1, div =>
      if div * div % 2 ^ 32 < number ∧ number % div ≠ 0 then
        isprimeDiv number fuel (div + 2)
      else
        div

def isprime (number : Nat) : Bool :=
  number % isprimeDiv number number 3 != 0

def nextPrime : Nat → Nat → Option Nat
  | 0, _ => none
  | fuel + 1, nel => if isprime nel = true then some nel else nextPrime fuel (nel + 2)

def emptyNode : EnvEntryNode :=
  { used := usedFree, entry := { key := [], data := [], callback := none, flags := 0 } }

def hcreateR (nel : Nat) : Option HsearchData :=
  (nextPrime (nel + 2) (nel ||| 1)).map fun size =>
    { size := size, filled := 0, table := fun _ => emptyNode }

section Source

variable (hooks : EnvHooks)

def doCallback (e : EnvEntry) (name : List UInt8) (value : Option (List UInt8)) (op : EnvOp)
    (flags : Nat) : Int :=
  match e.callback with
  | some callback => callback name value op flags
  | none => 0

-- `htab->change_ok != NULL && htab->change_ok(...)`
def changeDenied (e : EnvEntry) (newval : Option (List UInt8)) (op : EnvOp) (flag : Nat) : Bool :=
  match hooks.changeOk with
  | some changeOk => changeOk e newval op flag != 0
  | none => false

/-- What `hsearch_r` returns, with `*retval` as the index of its entry and `errno` where it is set. -/
structure HsearchRet where
  ret : Int
  retval : Option Nat
  errno : Option Int
  htab : HsearchData

def HsearchRet.fail (errno : Int) (htab : HsearchData) : HsearchRet :=
  { ret := 0, retval := none, errno := some errno, htab := htab }

def HsearchData.setNode (htab : HsearchData) (idx : Nat) (node : EnvEntryNode) : HsearchData :=
  { htab with table := Function.update htab.table idx node }

def EnvEntryNode.withData (node : EnvEntryNode) (data : List UInt8) : EnvEntryNode :=
  { node with entry := { node.entry with data := data } }

/-- `none` is the `-1` that keeps the search going. -/
def compareAndOverwriteEntry (key data : List UInt8) (action : EnvAction) (htab : HsearchData)
    (flag hval idx : Nat) : Option HsearchRet :=
  let node := htab.table idx
  if node.used = (hval : Int) ∧ key = node.entry.key then
    if action = .enter then
      if changeDenied hooks node.entry (some data) .overwrite flag = true then
        some (HsearchRet.fail Errno.eperm htab)
      else if doCallback node.entry key (some data) .overwrite flag ≠ 0 then
        some (HsearchRet.fail Errno.einval htab)
      else
        some { ret := idx, retval := some idx, errno := none,
               htab := htab.setNode idx (node.withData data) }
    else
      some { ret := idx, retval := some idx, errno := none, htab := htab }
  else
    none

/-- The string as a number: its length, then from the last character to the first. -/
def hashKey (key : List UInt8) : UInt32 :=
  key.foldr (fun c hval => (hval <<< 4) + c.toUInt32) (UInt32.ofNat key.length)

def firstHash (size : Nat) (key : List UInt8) : Nat :=
  let hval := (hashKey key).toNat % size
  if hval = 0 then hval + 1 else hval

def secondHash (size hval : Nat) : Nat :=
  1 + hval % (size - 2)

def probeNext (size hval2 idx : Nat) : Nat :=
  if idx ≤ hval2 then size + idx - hval2 else idx - hval2

/-- How the probing ends: with a result, or at a place with the first deleted one it has passed. -/
inductive ProbeEnd where
  | found (ret : HsearchRet)
  | stopped (idx firstDeleted : Nat)

-- `do { ... } while (htab->table[idx].used != USED_FREE)`
def hsearchProbe (key data : List UInt8) (action : EnvAction) (htab : HsearchData)
    (flag hval hval2 : Nat) : Nat → Nat → Nat → Option ProbeEnd
  | 0, _, _ => none
  | fuel + 1, idx, firstDeleted =>
      let idx := probeNext htab.size hval2 idx
      if idx = hval then
        some (.stopped idx firstDeleted)
      else
        let firstDeleted :=
          if (htab.table idx).used = usedDeleted ∧ firstDeleted = 0 then idx else firstDeleted
        match compareAndOverwriteEntry hooks key data action htab flag hval idx with
        | some ret => some (.found ret)
        | none =>
            if (htab.table idx).used ≠ usedFree then
              hsearchProbe key data action htab flag hval hval2 fuel idx firstDeleted
            else
              some (.stopped idx firstDeleted)

def hsearchFirst (key data : List UInt8) (action : EnvAction) (htab : HsearchData) (flag : Nat) :
    Option ProbeEnd :=
  let hval := firstHash htab.size key
  if (htab.table hval).used ≠ usedFree then
    let firstDeleted := if (htab.table hval).used = usedDeleted then hval else 0
    match compareAndOverwriteEntry hooks key data action htab flag hval hval with
    | some ret => some (.found ret)
    | none =>
        hsearchProbe hooks key data action htab flag hval (secondHash htab.size hval) htab.size hval
          firstDeleted
  else
    some (.stopped hval 0)

/-- `_hdelete` -/
def hdeleteEntry (htab : HsearchData) (idx : Nat) : HsearchData :=
  let node := htab.table idx
  { htab.setNode idx { used := usedDeleted, entry := { node.entry with flags := 0 } } with
    filled := htab.filled - 1 }

def HsearchData.addEntry (htab : HsearchData) (idx hval : Nat) (entry : EnvEntry) : HsearchData :=
  { htab.setNode idx { used := hval, entry := entry } with filled := htab.filled + 1 }

/-- The tail of `hsearch_r`: a new entry at the place `idx`. -/
def hsearchCreate (key data : List UInt8) (htab : HsearchData) (flag hval idx : Nat) : HsearchRet :=
  let old := (htab.table idx).entry
  let entry : EnvEntry :=
    { key := key, data := data, callback := hooks.callbackInit key,
      flags := (hooks.flagsInit key).getD old.flags }
  let htab' := htab.addEntry idx hval entry
  if changeDenied hooks entry (some data) .create flag = true then
    HsearchRet.fail Errno.eperm (hdeleteEntry htab' idx)
  else if doCallback entry key (some data) .create flag ≠ 0 then
    HsearchRet.fail Errno.einval (hdeleteEntry htab' idx)
  else
    { ret := 1, retval := some idx, errno := none, htab := htab' }

def hsearchR (key data : List UInt8) (action : EnvAction) (htab : HsearchData) (flag : Nat) :
    Option HsearchRet :=
  (hsearchFirst hooks key data action htab flag).map fun probeEnd =>
    match probeEnd with
    | .found ret => ret
    | .stopped idx firstDeleted =>
        if action = .enter then
          if htab.filled = htab.size then
            HsearchRet.fail Errno.enomem htab
          else
            hsearchCreate hooks key data htab flag (firstHash htab.size key)
              (if firstDeleted ≠ 0 then firstDeleted else idx)
        else
          HsearchRet.fail Errno.esrch htab

def hdeleteR (key : List UInt8) (htab : HsearchData) (flag : Nat) : Option (Int × HsearchData) :=
  (hsearchR hooks key [] .find htab 0).map fun ret =>
    match ret.retval with
    | none => (-Errno.enoent, htab)
    | some idx =>
        let entry := (htab.table idx).entry
        if changeDenied hooks entry none .delete flag = true then
          (-Errno.eperm, htab)
        else if doCallback entry key none .delete flag ≠ 0 then
          (-Errno.einval, htab)
        else
          (0, hdeleteEntry htab idx)

/-- `hmatch_r`: the next index after `lastIdx` whose key starts with `pat`. -/
def hmatchLoop (pat : List UInt8) (htab : HsearchData) : Nat → Nat → Option Nat
  | 0, _ => none
  | fuel + 1, idx =>
      if idx < htab.size then
        if 0 < (htab.table idx).used ∧ pat.isPrefixOf (htab.table idx).entry.key = true then
          some idx
        else
          hmatchLoop pat htab fuel (idx + 1)
      else
        none

def hmatchR (pat : List UInt8) (lastIdx : Nat) (htab : HsearchData) : Option Nat :=
  hmatchLoop pat htab htab.size (lastIdx + 1)

end Source

/-! ## The size of a table -/

/-- The loop of `isprime` ends at the first odd divisor, or behind the root. -/
structure IsprimeEnd (number div : Nat) : Prop where
  three_le : 3 ≤ div
  below : ∀ e, 2 ≤ e → e < div → ¬ e ∣ number
  last : div = 3 ∨ (div - 2) * (div - 2) < number
  ends : number % div = 0 ∨ number ≤ div * div

theorem isprimeDiv_spec {number : Nat} (hodd : ¬ 2 ∣ number) (hlt : number < 2 ^ 31) :
    ∀ (fuel div : Nat), 3 ≤ div → (∀ e, 2 ≤ e → e < div → ¬ e ∣ number) →
      (div = 3 ∨ (div - 2) * (div - 2) < number) → div % 2 = 1 → number < div + fuel →
      IsprimeEnd number (isprimeDiv number fuel div) := by
  intro fuel
  induction fuel with
  | zero =>
      intro div h3 hbelow hlast _ hfuel
      refine ⟨h3, hbelow, hlast, Or.inr ?_⟩
      simp only [isprimeDiv]
      nlinarith
  | succ fuel ih =>
      intro div h3 hbelow hlast hpar hfuel
      -- below the root of `2^31` the square does not wrap
      have hsmall : div < 46343 := by
        rcases hlast with rfl | hlast
        · omega
        · by_contra hge
          have h1 : 46341 ≤ div - 2 := by omega
          have h2 := Nat.mul_le_mul h1 h1
          omega
      have hsq : div * div < 2 ^ 32 := by
        have h1 : div ≤ 46342 := by omega
        have h2 := Nat.mul_le_mul h1 h1
        omega
      rw [isprimeDiv, Nat.mod_eq_of_lt hsq]
      split
      · rename_i hgo
        apply ih (div + 2) (by omega)
        · intro e h2 he hdvd
          rcases Nat.lt_or_ge e div with hlt' | hge
          · exact hbelow e h2 hlt' hdvd
          · rcases Nat.eq_or_lt_of_le hge with heq | hgt
            · rw [← heq] at hdvd
              exact hgo.2 (Nat.mod_eq_zero_of_dvd hdvd)
            · have heven : 2 ∣ e := by omega
              exact hodd (heven.trans hdvd)
        · rw [Nat.add_sub_cancel]
          exact Or.inr hgo.1
        · omega
        · omega
      · rename_i hstop
        refine ⟨h3, hbelow, hlast, ?_⟩
        by_contra hno
        rw [not_or, not_le] at hno
        exact hstop ⟨hno.2, hno.1⟩

theorem isprime_iff {number : Nat} (hodd : ¬ 2 ∣ number) (h5 : 5 ≤ number)
    (hlt : number < 2 ^ 31) : isprime number = true ↔ number.Prime := by
  have hend := isprimeDiv_spec hodd hlt number 3 (le_refl 3)
    (by
      intro e h2 he hdvd
      have : e = 2 := by omega
      exact hodd (this ▸ hdvd))
    (Or.inl rfl) (by omega) (by omega)
  set div := isprimeDiv number number 3 with hdiv
  have hproper : div < number := by
    rcases hend.last with h | h
    · omega
    · by_contra hge
      have h1 : number - 2 ≤ div - 2 := by omega
      have h2 := Nat.mul_le_mul h1 h1
      have h3 : number ≤ (number - 2) * (number - 2) := by
        obtain ⟨m, rfl⟩ := Nat.exists_eq_add_of_le h5
        have h4 : 5 + m - 2 = m + 3 := by omega
        rw [h4]
        nlinarith
      omega
  have hthree := hend.three_le
  rw [isprime, ← hdiv, bne_iff_ne]
  constructor
  · intro hmod
    have hroot : number ≤ div * div := hend.ends.resolve_left hmod
    by_contra hnot
    have hsq := Nat.minFac_sq_le_self (by omega) hnot
    have hmin2 := (Nat.minFac_prime (by omega : number ≠ 1)).two_le
    have hmindvd := Nat.minFac_dvd number
    have hge : div ≤ number.minFac := by
      by_contra hlt'
      exact hend.below _ hmin2 (by omega) hmindvd
    have hne : div ≠ number.minFac := by
      intro heq
      exact hmod (Nat.mod_eq_zero_of_dvd (heq ▸ hmindvd))
    have hgt : div + 1 ≤ number.minFac := by omega
    have := Nat.mul_le_mul hgt hgt
    nlinarith
  · intro hprime hmod
    rcases (Nat.dvd_prime hprime).1 (Nat.dvd_of_mod_eq_zero hmod) with h | h
    · omega
    · omega

theorem nextPrime_spec {p : Nat} (hp : p.Prime) (hp31 : p < 2 ^ 31) :
    ∀ (fuel nel : Nat), ¬ 2 ∣ nel → 3 ≤ nel → 5 ≤ p → nel ≤ p → p < nel + 2 * fuel →
      ∃ q, nextPrime fuel nel = some q ∧ q.Prime ∧ 5 ≤ q ∧ nel ≤ q ∧
        ∀ r, r.Prime → 5 ≤ r → nel ≤ r → q ≤ r := by
  intro fuel
  induction fuel with
  | zero =>
      intro nel _ _ _ hle hfuel
      omega
  | succ fuel ih =>
      intro nel hodd h3 h5 hle hfuel
      have hpodd : ¬ 2 ∣ p := by
        intro h2
        rcases (Nat.dvd_prime hp).1 h2 with h | h <;> omega
      rw [nextPrime]
      by_cases hsmall : nel = 3
      · -- `isprime(3)` is false
        subst hsmall
        have h3p : isprime 3 = false := by decide
        rw [h3p, if_neg (by decide)]
        rcases ih 5 (by decide) (by decide) h5 h5 (by omega) with ⟨q, hq, hqp, hq5, _, hqmin⟩
        exact ⟨q, hq, hqp, hq5, by omega, fun r hr hr5 _ => hqmin r hr hr5 hr5⟩
      · have hiff := isprime_iff hodd (by omega) (by omega : nel < 2 ^ 31)
        split
        · rename_i hyes
          exact ⟨nel, rfl, hiff.1 hyes, by omega, le_refl nel, fun r _ _ hr => hr⟩
        · rename_i hno
          have hnp : ¬ nel.Prime := fun h => hno (hiff.2 h)
          have hne : nel ≠ p := fun h => hnp (h ▸ hp)
          rcases ih (nel + 2) (by omega) (by omega) h5 (by omega) (by omega) with
            ⟨q, hq, hqp, hq5, hqle, hqmin⟩
          refine ⟨q, hq, hqp, hq5, by omega, ?_⟩
          intro r hr hr5 hrle
          apply hqmin r hr hr5
          have hner : nel ≠ r := fun h => hnp (h ▸ hr)
          have hrodd : ¬ 2 ∣ r := by
            intro h2
            rcases (Nat.dvd_prime hr).1 h2 with h | h <;> omega
          omega

theorem odd_or_one (n : Nat) : ¬ 2 ∣ (n ||| 1) ∧ n ≤ (n ||| 1) ∧ (n ||| 1) ≤ n + 1 ∧
    (n % 2 = 1 → n ||| 1 = n) := by
  have hbit : ∀ a, 2 * a ||| 1 = 2 * a + 1 := by
    intro a
    exact (Nat.two_pow_add_eq_or_of_lt (by decide : 1 < 2 ^ 1) a).symm
  rcases Nat.mod_two_eq_zero_or_one n with hmod | hmod
  · have hn : n = 2 * (n / 2) := by omega
    have heq : n ||| 1 = n + 1 := by
      rw [hn, hbit]
    rw [heq]
    omega
  · have hn : n = 2 * (n / 2) + 1 := by omega
    have heq : n ||| 1 = n := by
      rw [hn, ← hbit, Nat.or_assoc, Nat.or_self]
    rw [heq]
    omega

/-- `hcreate_r` makes the least prime from `nel` and from five on the size of an empty table. -/
theorem hcreateR_spec {nel : Nat} (h2 : 2 ≤ nel) (hlt : nel < 2 ^ 29) :
    ∃ q, hcreateR nel = some { size := q, filled := 0, table := fun _ => emptyNode } ∧ q.Prime ∧
      5 ≤ q ∧ nel ≤ q ∧ ∀ r, r.Prime → 5 ≤ r → nel ≤ r → q ≤ r := by
  rcases odd_or_one nel with ⟨hodd, hge, hle, hself⟩
  rcases Nat.exists_prime_lt_and_le_two_mul (nel + 2) (by omega) with ⟨p, hp, hplt, hple⟩
  rcases nextPrime_spec hp (by omega) (nel + 2) (nel ||| 1) hodd (by omega) (by omega) (by omega)
    (by omega) with ⟨q, hq, hqp, hq5, hqle, hqmin⟩
  refine ⟨q, ?_, hqp, hq5, by omega, ?_⟩
  · rw [hcreateR, hq, Option.map_some]
  · intro r hr hr5 hrle
    apply hqmin r hr hr5
    have hrodd : ¬ 2 ∣ r := by
      intro h
      rcases (Nat.dvd_prime hr).1 h with h | h <;> omega
    by_cases hpar : nel % 2 = 1
    · rw [hself hpar]
      exact hrle
    · omega

end Env
end CanmvK230
