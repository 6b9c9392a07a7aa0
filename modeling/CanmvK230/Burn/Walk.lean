import CanmvK230.Burn.MtdLog

/-!
# Walk — where the two loops of the NAND back end go

Both loops of `mtd_write_medium` go on while `mtd_block_isbad` is not zero, which it is for every bad
block, at the end of the device and behind it.  Nothing but a good block stops them: from the end of the
address space they start again at zero, and go around it for ever if the chip has no good block
(`skipBad_none`).  If it has one, both loops terminate (`skipDist` is the measure), and the data comes to
lie in the good blocks from the offset on, and then in turn in those of the whole device (`place`).

`skipBad_place` and `writeLoop_total` are the rules for the two loops.
-/

namespace CanmvK230
namespace Burn

open Lib

namespace Nand

variable {nand : Nand}

/-! ## Where the walk stops -/

/-- Where a search for a good block stops: at one of the device. -/
def Stop (nand : Nand) (off : Nat) : Prop :=
  off < nand.size ∧ nand.Good off

instance (off : Nat) : Decidable (nand.Stop off) :=
  inferInstanceAs (Decidable (_ ∧ _))

/-- For a block, `mtd_block_isbad` answers by the map in this state; at the end of the device and behind
it the answer is not zero. -/
def ReportsAt {μ : Type} (nand : Nand) (ops : MtdOps μ) (m : μ) : Prop :=
  ∀ ofs : UInt64, nand.erasesize ∣ ofs.toNat → (ops.blockIsbad m ofs = 0 ↔ nand.Stop ofs.toNat)

/-- `mtd_block_isbad` answers by the map in every state. -/
def ReportsBad {μ : Type} (nand : Nand) (ops : MtdOps μ) : Prop :=
  ∀ m, nand.ReportsAt ops m

/-- The chip has a good block. -/
def HasGood (nand : Nand) : Prop :=
  ∃ a, nand.Stop a

theorem stop_iff_good {off : Nat} (h : off < nand.size) : nand.Stop off ↔ nand.Good off :=
  and_iff_right h

/-- A good block, at its start. -/
theorem HasGood.block (h : nand.HasGood) : ∃ g, nand.erasesize ∣ g ∧ nand.Stop g := by
  rcases h with ⟨a, hlt, hgood⟩
  have hle := Nat.div_mul_le_self a nand.erasesize
  refine ⟨a / nand.erasesize * nand.erasesize, Dvd.intro_left _ rfl, by omega, ?_⟩
  rw [Nand.Good, Nat.mul_div_cancel _ nand.erasesize_pos]
  exact hgood

/-- A position of the walk: the start of a block, or a page of a good one. -/
def InWalk (nand : Nand) (off : Nat) : Prop :=
  nand.writesize ∣ off ∧ (nand.erasesize ∣ off ∨ nand.Stop off)

theorem inWalk_of_block {off : Nat} (h : nand.erasesize ∣ off) : nand.InWalk off :=
  ⟨dvd_trans nand.writesize_dvd h, Or.inl h⟩

theorem InWalk.here {off : Nat} (h : nand.InWalk off)
    (hstop : ¬ (nand.erasesize ∣ off ∧ ¬ nand.Stop off)) : nand.Stop off := by
  by_contra hno
  exact hstop ⟨h.2.resolve_right hno, hno⟩

/-- Behind a page of a good block the walk goes on, in the device. -/
theorem inWalk_page {off : Nat} (hpage : nand.writesize ∣ off) (hstop : nand.Stop off) :
    off + nand.writesize ≤ nand.size ∧ nand.InWalk (off + nand.writesize) := by
  have hfit := nand.page_le hpage hstop.1
  have hnext := nand.atPage_next ⟨hpage, Or.inr hstop.2⟩ hstop.2
  refine ⟨hfit, hnext.1, ?_⟩
  rcases hnext.2 with hblock | hgood
  · exact Or.inl hblock
  · rcases Nat.lt_or_eq_of_le hfit with hlt | heq
    · exact Or.inr ⟨hlt, hgood⟩
    · exact Or.inl (heq ▸ nand.erasesize_dvd)

/-- Behind a block of the address space is a block again. -/
theorem dvd_behind (hwhole : nand.erasesize ∣ 2 ^ 64) {off : Nat} (hblock : nand.erasesize ∣ off) :
    nand.erasesize ∣ (off + nand.erasesize) % 2 ^ 64 :=
  (Nat.dvd_mod_iff hwhole).2 (Dvd.dvd.add hblock (dvd_refl _))

/-- The address space ends behind a block, never inside one. -/
theorem behind_le (hwhole : nand.erasesize ∣ 2 ^ 64) {off : Nat} (hblock : nand.erasesize ∣ off)
    (hoff : off < 2 ^ 64) : off + nand.erasesize ≤ 2 ^ 64 := by
  have hle := Nat.le_of_dvd (Nat.sub_pos_of_lt hoff) (Nat.dvd_sub hwhole hblock)
  omega

/-! ## Where the data goes -/

theorem room_mono {off off' : Nat} (hle : off ≤ off') (hend : off' ≤ nand.size) :
    nand.room off' ≤ nand.room off := by
  have hroom : nand.room off =
      (nand.goodAddrs off (off' - off)).length + nand.room (off + (off' - off)) :=
    nand.room_eq (by omega)
  rw [Nat.add_sub_cancel' hle] at hroom
  omega

variable (nand) in
/-- The address to which byte `j` of the data goes, for a walk from `off`: the good bytes from there to
the end of the device, and then in turn those of the whole device. -/
def place (off j : Nat) : Option Nat :=
  match (nand.goodAddrs off (nand.size - off))[j]? with
  | some p => some p
  | none => (nand.goodAddrs 0 nand.size)[(j - nand.room off) % nand.room 0]?

theorem place_congr {off off' j j' : Nat}
    (haddrs : (nand.goodAddrs off (nand.size - off))[j]? =
      (nand.goodAddrs off' (nand.size - off'))[j']?)
    (hroom : j - nand.room off = j' - nand.room off') : nand.place off j = nand.place off' j' := by
  rw [place, place, haddrs, hroom]

/-- The first good page, and the ones behind it. -/
theorem place_page {off : Nat} (hpage : nand.writesize ∣ off) (hstop : nand.Stop off) :
    nand.place off 0 = some off ∧
      ∀ j, nand.place off (nand.writesize + j) = nand.place (off + nand.writesize) j := by
  have hfit := nand.page_le hpage hstop.1
  have hWpos := nand.writesize_pos
  have hall : ∀ a, off ≤ a → a < off + nand.writesize → nand.Good a :=
    fun a hle hlt => nand.good_of_page hpage hstop.2 hle hlt
  have haddrs : nand.goodAddrs off (nand.size - off) = List.range' off nand.writesize ++
      nand.goodAddrs (off + nand.writesize) (nand.size - (off + nand.writesize)) := by
    rw [show nand.size - off = nand.writesize + (nand.size - (off + nand.writesize)) by omega,
      goodAddrs_add, nand.goodAddrs_of_good hall]
  constructor
  · rw [place, haddrs, List.getElem?_append_left (by simpa using hWpos)]
    simp [hWpos]
  · intro j
    refine place_congr ?_ ?_
    · rw [haddrs, List.getElem?_append_right (by simp), List.length_range', Nat.add_sub_cancel_left]
    · rw [nand.room_of_page hpage hstop.1 hstop.2]
      omega

/-- A bad block takes no data. -/
theorem place_bad {off : Nat} (hblock : nand.erasesize ∣ off) (hlt : off < nand.size)
    (hbad : ¬ nand.Good off) (j : Nat) : nand.place (off + nand.erasesize) j = nand.place off j := by
  have hfit := nand.block_le hblock hlt
  have hroom := nand.room_of_bad hblock hlt hbad
  have hnone : nand.goodAddrs off nand.erasesize = [] := by
    refine nand.goodAddrs_of_bad ?_
    intro a h₁ h₂ hgood
    have hk := nand.good_add hblock (k := a - off) (by omega)
    rw [Nat.add_sub_cancel' h₁] at hk
    exact hbad (hk.1 hgood)
  refine place_congr ?_ (by rw [hroom])
  rw [show nand.size - off = nand.erasesize + (nand.size - (off + nand.erasesize)) by omega,
    goodAddrs_add, hnone, List.nil_append]

/-- From the end of the device on it is as from zero on. -/
theorem place_end {off : Nat} (hend : nand.size ≤ off) (j : Nat) :
    nand.place off j = nand.place 0 j := by
  have hempty : nand.goodAddrs off (nand.size - off) = [] := by
    rw [Nat.sub_eq_zero_of_le hend, goodAddrs]
    rfl
  have hlen : (nand.goodAddrs 0 nand.size).length = nand.room 0 := by
    rw [room, Nat.sub_zero]
  have hroom : nand.room off = 0 := by
    rw [room, hempty, List.length_nil]
  rw [place, place, hempty, hroom, Nat.sub_zero, Nat.sub_zero]
  simp only [List.getElem?_nil]
  by_cases hj : j < nand.room 0
  · -- the first turn over the device
    rw [Nat.mod_eq_of_lt hj, List.getElem?_eq_getElem (by rwa [hlen])]
  · have hnone : (nand.goodAddrs 0 nand.size)[j]? = none := List.getElem?_eq_none (by omega)
    rw [hnone, Nat.mod_eq_sub_mod (Nat.le_of_not_lt hj)]

/-- Every block that the walk passes over leaves the rest of the data where it goes. -/
theorem place_skip (hwhole : nand.erasesize ∣ 2 ^ 64) {off : Nat} (hoff : off < 2 ^ 64)
    (hblock : nand.erasesize ∣ off) (hbad : ¬ nand.Stop off) (j : Nat) :
    nand.place ((off + nand.erasesize) % 2 ^ 64) j = nand.place off j := by
  have hdev := nand.size_lt
  have hspace := behind_le hwhole hblock hoff
  by_cases hlt : off < nand.size
  · have hfit := nand.block_le hblock hlt
    rw [Nat.mod_eq_of_lt (by omega)]
    exact place_bad hblock hlt (mt (stop_iff_good hlt).2 hbad) j
  · rw [place_end (Nat.le_of_not_lt hlt)]
    rcases Nat.lt_or_eq_of_le hspace with hin | hwrap
    · rw [Nat.mod_eq_of_lt hin]
      exact place_end (by omega) j
    · rw [hwrap, Nat.mod_self]

/-- A block in front of which the data has `k` good bytes takes byte `k`. -/
theorem place_of_room {off b : Nat} (hblock : nand.erasesize ∣ b) (hle : off ≤ b)
    (hstop : nand.Stop b) : nand.place off (nand.room off - nand.room b) = some b := by
  have hlt := hstop.1
  have hlen : (nand.goodAddrs off (b - off)).length = nand.room off - nand.room b := by
    have hroom : nand.room off =
        (nand.goodAddrs off (b - off)).length + nand.room (off + (b - off)) :=
      nand.room_eq (by omega)
    rw [Nat.add_sub_cancel' hle] at hroom
    omega
  have haddrs : nand.goodAddrs off (nand.size - off) =
      nand.goodAddrs off (b - off) ++ nand.goodAddrs b (nand.size - b) := by
    rw [show nand.size - off = b - off + (nand.size - b) by omega, goodAddrs_add,
      Nat.add_sub_cancel' hle]
  have hfirst := (place_page (dvd_trans nand.writesize_dvd hblock) hstop).1
  have hpos : 0 < (nand.goodAddrs b (nand.size - b)).length := by
    have hWpos := nand.writesize_pos
    have hpage := nand.room_of_page (dvd_trans nand.writesize_dvd hblock) hlt hstop.2
    have hroom : (nand.goodAddrs b (nand.size - b)).length = nand.room b := rfl
    omega
  rw [place, List.getElem?_eq_getElem hpos] at hfirst
  rw [place, haddrs, List.getElem?_append_right hlen.le, hlen, Nat.sub_self,
    List.getElem?_eq_getElem hpos]
  exact hfirst

/-- The byte behind those of the last good block goes to the first good block of the device. -/
theorem place_around {off b : Nat} (hblock : nand.erasesize ∣ b) (hstop : nand.Stop b)
    (hfirst : nand.room 0 = nand.room b) : nand.place off (nand.room off) = some b := by
  have hzero := place_of_room hblock (Nat.zero_le b) hstop
  have hnone : (nand.goodAddrs off (nand.size - off))[nand.room off]? = none :=
    List.getElem?_eq_none le_rfl
  have hpos : 0 < (nand.goodAddrs 0 nand.size).length := by
    have hWpos := nand.writesize_pos
    have hpage := nand.room_of_page (dvd_trans nand.writesize_dvd hblock) hstop.1 hstop.2
    have hroom : (nand.goodAddrs 0 nand.size).length = nand.room 0 := by
      rw [room, Nat.sub_zero]
    omega
  rw [hfirst, Nat.sub_self, place, Nat.sub_zero, List.getElem?_eq_getElem hpos] at hzero
  rw [place, hnone, Nat.sub_self, Nat.zero_mod, List.getElem?_eq_getElem hpos]
  exact hzero

/-- In front of bad blocks only there is no room. -/
theorem room_to_end {off : Nat} (h : ∀ a, off ≤ a → ¬ nand.Stop a) : nand.room off = 0 := by
  rw [room, nand.goodAddrs_of_bad fun a h₁ h₂ hgood => h a h₁ ⟨by omega, hgood⟩, List.length_nil]

/-- On a chip with a good block every byte goes somewhere. -/
theorem exists_place (h : nand.HasGood) (off j : Nat) : ∃ p, nand.place off j = some p := by
  rcases h.block with ⟨g, hg, hstop⟩
  have hWpos := nand.writesize_pos
  have hpage := nand.room_of_page (dvd_trans nand.writesize_dvd hg) hstop.1 hstop.2
  have hmono := nand.room_mono (Nat.zero_le g) hstop.1.le
  have hlen : (nand.goodAddrs 0 nand.size).length = nand.room 0 := by
    rw [room, Nat.sub_zero]
  have hlt : (j - nand.room off) % nand.room 0 < (nand.goodAddrs 0 nand.size).length := by
    rw [hlen]
    exact Nat.mod_lt _ (by omega)
  rw [place]
  cases (nand.goodAddrs off (nand.size - off))[j]? with
  | some p => exact ⟨p, rfl⟩
  | none => exact ⟨_, List.getElem?_eq_getElem hlt⟩

/-- A range without a bad block takes its bytes as they stand. -/
theorem place_of_good {off len j : Nat} (hrange : off + len ≤ nand.size)
    (hgood : ∀ a, off ≤ a → a < off + len → nand.Good a) (hj : j < len) :
    nand.place off j = some (off + j) := by
  have haddrs : nand.goodAddrs off (nand.size - off) =
      List.range' off len ++ nand.goodAddrs (off + len) (nand.size - (off + len)) := by
    rw [show nand.size - off = len + (nand.size - (off + len)) by omega, goodAddrs_add,
      nand.goodAddrs_of_good hgood]
  rw [place, haddrs, List.getElem?_append_left (by rwa [List.length_range'])]
  simp [hj]

/-- The first good block from `lo` on. -/
theorem exists_first_good {lo a : Nat} (hblock : nand.erasesize ∣ lo) (hle : lo ≤ a)
    (hlt : a < nand.size) (hgood : nand.Good a) :
    ∃ b, nand.erasesize ∣ b ∧ lo ≤ b ∧ b ≤ a ∧ nand.Good b ∧ nand.room lo = nand.room b := by
  have hpos := nand.erasesize_pos
  have hexists : ∃ b, lo ≤ b ∧ nand.Good b := ⟨a, hle, hgood⟩
  have hfirst : ∃ b, (lo ≤ b ∧ nand.Good b) ∧ ∀ c < b, ¬ (lo ≤ c ∧ nand.Good c) :=
    ⟨Nat.find hexists, Nat.find_spec hexists, fun _ hc => Nat.find_min hexists hc⟩
  rcases hfirst with ⟨b, ⟨hlo, hgood'⟩, hmin⟩
  have hba : b ≤ a := Nat.le_of_not_lt fun h => hmin a h ⟨hle, hgood⟩
  -- it is the start of its block
  have hstart : b / nand.erasesize * nand.erasesize = b := by
    refine (Nat.div_mul_le_self _ _).eq_or_lt.resolve_right fun hlater => hmin _ hlater ⟨?_, ?_⟩
    · rw [← Nat.div_mul_cancel hblock]
      exact Nat.mul_le_mul_right _ (Nat.div_le_div_right hlo)
    · rw [Nand.Good, Nat.mul_div_cancel _ hpos]
      exact hgood'
  refine ⟨b, Dvd.intro_left _ hstart, hlo, hba, hgood', ?_⟩
  have hnone : nand.goodAddrs lo (b - lo) = [] :=
    nand.goodAddrs_of_bad fun c h₁ h₂ h => hmin c (by omega) ⟨h₁, h⟩
  have hroom : nand.room lo = (nand.goodAddrs lo (b - lo)).length + nand.room (lo + (b - lo)) :=
    nand.room_eq (by omega)
  rwa [hnone, List.length_nil, Nat.zero_add, Nat.add_sub_cancel' hlo] at hroom

/-- The good blocks from a block on hold whole pages. -/
theorem dvd_room (d : Nat) :
    ∀ off, nand.size - off ≤ d → nand.erasesize ∣ off → nand.writesize ∣ nand.room off := by
  have hpos := nand.erasesize_pos
  induction d with
  | zero =>
      intro off hd _
      have hroom := nand.room_le off
      rw [show nand.room off = 0 by omega]
      exact dvd_zero _
  | succ d ih =>
      intro off hd hblock
      by_cases hlt : off < nand.size
      · have hfit := nand.block_le hblock hlt
        have hrest := ih (off + nand.erasesize) (by omega) (Dvd.dvd.add hblock (dvd_refl _))
        by_cases hgood : nand.Good off
        · have hall : ∀ a, off ≤ a → a < off + nand.erasesize → nand.Good a := by
            intro a h₁ h₂
            have hk := nand.good_add hblock (k := a - off) (by omega)
            rw [Nat.add_sub_cancel' h₁] at hk
            exact hk.2 hgood
          rw [nand.room_eq hfit, nand.goodAddrs_of_good hall, List.length_range']
          exact Dvd.dvd.add nand.writesize_dvd hrest
        · rwa [nand.room_of_bad hblock hlt hgood] at hrest
      · have hroom := nand.room_le off
        rw [show nand.room off = 0 by omega]
        exact dvd_zero _

/-! ## Why the loops end -/

variable (nand) in
/-- The bytes from a block to the block `g`, around the address space. -/
def skipDist (g off : Nat) : Nat :=
  if nand.erasesize ∣ off then
    if off ≤ g then g - off else 2 ^ 64 - off + g
  else
    0

theorem skipDist_lt {g : Nat} (hg : g < nand.size) (off : Nat) : nand.skipDist g off < 2 ^ 64 := by
  have hdev := nand.size_lt
  unfold skipDist
  split
  · split
    · omega
    · omega
  · decide

/-- Every block that the walk passes over brings it closer. -/
theorem skipDist_behind (hwhole : nand.erasesize ∣ 2 ^ 64) {g off : Nat} (hg : nand.erasesize ∣ g)
    (hstop : nand.Stop g) (hoff : off < 2 ^ 64) (hblock : nand.erasesize ∣ off)
    (hbad : ¬ nand.Stop off) :
    nand.skipDist g ((off + nand.erasesize) % 2 ^ 64) < nand.skipDist g off := by
  have hdev := nand.size_lt
  have hpos := nand.erasesize_pos
  have hlt := hstop.1
  have hne : off ≠ g := fun heq => hbad (heq ▸ hstop)
  have hspace := behind_le hwhole hblock hoff
  rw [skipDist, if_pos (dvd_behind hwhole hblock), skipDist, if_pos hblock]
  by_cases hle : off ≤ g
  · -- the block `g` is not in front of the next one
    have hstep := Nat.le_of_dvd (by omega) (Nat.dvd_sub hg hblock)
    rw [Nat.mod_eq_of_lt (by omega), if_pos hle, if_pos (by omega)]
    omega
  · rw [if_neg hle]
    rcases Nat.lt_or_eq_of_le hspace with hin | hwrap
    · rw [Nat.mod_eq_of_lt hin, if_neg (by omega)]
      omega
    · rw [hwrap, Nat.mod_self, if_pos (Nat.zero_le g)]
      omega

theorem toNat_behind (nand : Nand) (off : UInt64) :
    (off + nand.mtd.erasesize.toUInt64).toNat = (off.toNat + nand.erasesize) % 2 ^ 64 := by
  rw [UInt64.toNat_add, nand.toNat_erasesize]

/-- One page less pays for a turn around the address space. -/
theorem fuel_next {turn n d d' fuel : Nat} (h : (n + 1) * turn + d < fuel + 1) (hd : d' < turn) :
    n * turn + d' < fuel := by
  rw [Nat.add_mul, Nat.one_mul] at h
  omega

theorem lt_loopBound_of_turns {n d : Nat} (hn : n < 2 ^ 64) (hd : d < 2 ^ 64) :
    n * 2 ^ 64 + d < loopBound := by
  have hturns : (n + 1) * 2 ^ 64 ≤ 2 ^ 64 * 2 ^ 64 := Nat.mul_le_mul_right _ hn
  have hbound : loopBound = 2 ^ 64 * 2 ^ 64 := by
    rw [loopBound, ← Nat.pow_add]
  rw [hbound]
  rw [Nat.add_mul, Nat.one_mul] at hturns
  exact lt_of_lt_of_le (Nat.add_lt_add_left hd _) hturns

theorem skipDist_lt_loopBound {g : Nat} (hg : g < nand.size) (off : Nat) :
    nand.skipDist g off < loopBound :=
  lt_of_le_of_lt (Nat.le_add_left _ _)
    (lt_loopBound_of_turns (n := 0) (by decide) (skipDist_lt hg off))

section Loops

variable {μ : Type} {ops : MtdOps μ}

/-- The search for a good block ends at one, from which on the data comes to lie as it would from the
start of the search. -/
theorem skipBad_place (hwhole : nand.erasesize ∣ 2 ^ 64) {m : μ} (hreports : nand.ReportsAt ops m)
    {g : Nat} (hg : nand.erasesize ∣ g) (hgood : nand.Stop g) (fuel : Nat) :
    ∀ off : UInt64, nand.erasesize ∣ off.toNat → nand.skipDist g off.toNat < fuel →
      ∃ off', mtdSkipBad nand.mtd ops fuel m off = some off' ∧ nand.InWalk off'.toNat ∧
        ∀ j, nand.place off'.toNat j = nand.place off.toNat j := by
  induction fuel with
  | zero =>
      intro off _ hfuel
      omega
  | succ fuel ih =>
      intro off hblock hfuel
      by_cases hzero : ops.blockIsbad m off = 0
      · exact ⟨off, by rw [mtdSkipBad, if_neg (not_not.2 hzero)], inWalk_of_block hblock, fun _ => rfl⟩
      · have hbad : ¬ nand.Stop off.toNat := mt (hreports off hblock).2 hzero
        have hnext := nand.toNat_behind off
        have hcloser := skipDist_behind hwhole hg hgood off.toNat_lt hblock hbad
        rcases ih (off + nand.mtd.erasesize.toUInt64)
          (by rw [hnext]; exact dvd_behind hwhole hblock) (by rw [hnext]; omega) with
          ⟨off', hskip, hwalk, hplace⟩
        refine ⟨off', by rw [mtdSkipBad, if_pos hzero, hskip], hwalk, fun j => ?_⟩
        rw [hplace j, hnext, place_skip hwhole off.toNat_lt hblock hbad]

/-- Where the search ends, the device has a good block. -/
theorem stop_of_skipBad (hwhole : nand.erasesize ∣ 2 ^ 64) {m : μ} (hreports : nand.ReportsAt ops m)
    (fuel : Nat) :
    ∀ {off off' : UInt64}, nand.erasesize ∣ off.toNat → mtdSkipBad nand.mtd ops fuel m off = some off' →
      nand.Stop off'.toNat := by
  induction fuel with
  | zero =>
      intro off off' _ h
      cases h
  | succ fuel ih =>
      intro off off' hblock h
      rw [mtdSkipBad] at h
      split at h
      · refine ih ?_ h
        rw [nand.toNat_behind]
        exact dvd_behind hwhole hblock
      · rename_i hzero
        cases h
        exact (hreports off hblock).1 (not_not.1 hzero)

/-- On a chip without a good block the search goes around the address space for ever. -/
theorem skipBad_none (hwhole : nand.erasesize ∣ 2 ^ 64) {m : μ} (hreports : nand.ReportsAt ops m)
    (hnone : ¬ nand.HasGood) (fuel : Nat) {off : UInt64} (hblock : nand.erasesize ∣ off.toNat) :
    mtdSkipBad nand.mtd ops fuel m off = none := by
  cases h : mtdSkipBad nand.mtd ops fuel m off with
  | none => rfl
  | some off' => exact absurd ⟨off'.toNat, stop_of_skipBad hwhole hreports fuel hblock h⟩ hnone

variable (nand ops) in
/-- What the write loop does with one page of the data: an empty one is left out. -/
def writePage (m : μ) (off : UInt64) (data : List UInt8) : Int × UInt64 × μ :=
  if mtdPageIsEmpty data = true then
    (0, nand.mtd.writesize.toUInt64, m)
  else
    ops.writeOob m off data

/-- One round of the write loop. -/
theorem writeLoop_round {m : μ} (hreports : nand.ReportsAt ops m) (fuel : Nat) {off remaining : UInt64}
    (datbuf : ByteMem) (ret : Int) (hne : remaining ≠ 0) (hdvd : nand.writesize ∣ remaining.toNat) :
    mtdWriteLoop nand.mtd ops (fuel + 1) m off remaining datbuf ret =
      if nand.erasesize ∣ off.toNat ∧ ¬ nand.Stop off.toNat then
        mtdWriteLoop nand.mtd ops fuel m (off + nand.mtd.erasesize.toUInt64) remaining datbuf ret
      else
        let written := nand.writePage ops m off (datbuf.read 0 nand.writesize)
        if written.1 ≠ 0 then
          some (written.1, written.2.2)
        else
          mtdWriteLoop nand.mtd ops fuel written.2.2 (off + written.2.1) (remaining - written.2.1)
            (datbuf.shift written.2.1.toNat) written.1 := by
  have hskips : (mtdIsAlignedWithBlockSize nand.mtd off = true ∧ ops.blockIsbad m off ≠ 0) ↔
      (nand.erasesize ∣ off.toNat ∧ ¬ nand.Stop off.toNat) := by
    rw [nand.isAlignedWithBlockSize_iff off]
    exact and_congr_right fun hblock => not_congr (hreports off hblock)
  by_cases hbad : nand.erasesize ∣ off.toNat ∧ ¬ nand.Stop off.toNat
  · rw [mtdWriteLoop, if_neg hne, if_pos (hskips.2 hbad), if_pos hbad]
  · rw [mtdWriteLoop, if_neg hne, if_neg (mt hskips.1 hbad), if_neg hbad]
    by_cases hempty : mtdPageIsEmpty (datbuf.read 0 nand.writesize) = true
    · simp only [nand.toNat_ioLen hdvd hne, nand.hasPages_mtd, writePage, hempty, and_self, if_true]
    · simp only [nand.toNat_ioLen hdvd hne, writePage, hempty, and_false, if_false, Bool.false_eq_true]

/-- The rule for the write loop on a chip with a good block: with an invariant of its position, of the
bytes that are done, of the last answer and of the device it returns, and each page is written at a
good one. -/
theorem writeLoop_total (hwhole : nand.erasesize ∣ 2 ^ 64) (hgood : nand.HasGood) {buf : ByteMem}
    {len : Nat} (hdvd : nand.writesize ∣ len) {J : Nat → Nat → Int → μ → Prop} {R : Int → μ → Prop}
    (hreports : ∀ off j ret m, J off j ret m → nand.ReportsAt ops m)
    (hskip : ∀ off j ret m, J off j ret m → off < 2 ^ 64 → nand.erasesize ∣ off → ¬ nand.Stop off →
      J ((off + nand.erasesize) % 2 ^ 64) j ret m)
    (hpage : ∀ (off : UInt64) j ret m, J off.toNat j ret m → nand.writesize ∣ off.toNat →
      nand.Stop off.toNat → nand.writesize ∣ j → j + nand.writesize ≤ len →
      let written := nand.writePage ops m off (buf.read j nand.writesize)
      if written.1 ≠ 0 then R written.1 written.2.2
      else written.2.1.toNat = nand.writesize ∧
        J (off.toNat + nand.writesize) (j + nand.writesize) 0 written.2.2)
    (hdone : ∀ off ret m, J off len ret m → R ret m) {m : μ} {off remaining : UInt64} {ret : Int}
    (hwalk : nand.InWalk off.toNat) (hrem : remaining.toNat = len) (hJ : J off.toNat 0 ret m) :
    ∃ ret' m', mtdWriteLoop nand.mtd ops loopBound m off remaining buf ret = some (ret', m') ∧
      R ret' m' := by
  rcases hgood.block with ⟨g, hg, hstop⟩
  have hWpos := nand.writesize_pos
  have hdev := nand.size_lt
  -- the induction is on the fuel, of which every page has enough for a turn around the address space
  have hloop : ∀ (fuel n : Nat) (m : μ) (off remaining : UInt64) (j : Nat) (ret : Int),
      remaining.toNat = n * nand.writesize → j + remaining.toNat = len → nand.InWalk off.toNat →
      J off.toNat j ret m → n * 2 ^ 64 + nand.skipDist g off.toNat < fuel →
      ∃ ret' m', mtdWriteLoop nand.mtd ops fuel m off remaining (buf.shift j) ret = some (ret', m') ∧
        R ret' m' := by
    intro fuel
    induction fuel with
    | zero =>
        intro n m off remaining j ret _ _ _ _ hfuel
        omega
    | succ fuel ih =>
        intro n m off remaining j ret hrem hsum hwalk hJ hfuel
        cases n with
        | zero =>
            have hzero : remaining = 0 := UInt64.toNat_inj.1 (by rw [hrem, Nat.zero_mul]; rfl)
            rw [hzero, UInt64.toNat_zero, Nat.add_zero] at hsum
            refine ⟨ret, m, by rw [mtdWriteLoop, if_pos hzero], hdone off.toNat ret m ?_⟩
            rwa [hsum] at hJ
        | succ n =>
            rcases first_unit hWpos hrem with ⟨hne, hfirst⟩
            have hpages : nand.writesize ∣ remaining.toNat := Dvd.intro_left _ hrem.symm
            rw [writeLoop_round (hreports _ _ _ _ hJ) fuel _ _ hne hpages]
            by_cases hbad : nand.erasesize ∣ off.toNat ∧ ¬ nand.Stop off.toNat
            · rw [if_pos hbad]
              have hnext := nand.toNat_behind off
              have hcloser := skipDist_behind hwhole hg hstop off.toNat_lt hbad.1 hbad.2
              refine ih (n + 1) m _ remaining j ret hrem hsum ?_ ?_ (by rw [hnext]; omega)
              · rw [hnext]
                exact inWalk_of_block (dvd_behind hwhole hbad.1)
              · rw [hnext]
                exact hskip _ _ _ _ hJ off.toNat_lt hbad.1 hbad.2
            · rw [if_neg hbad, ByteMem.read_shift, Nat.add_zero]
              have hhere := hwalk.here hbad
              have hj : nand.writesize ∣ j := by
                rw [show j = len - remaining.toNat by omega]
                exact Nat.dvd_sub hdvd hpages
              have hstep := hpage off j ret m hJ hwalk.1 hhere hj (by omega)
              dsimp only at hstep ⊢
              by_cases hret : (nand.writePage ops m off (buf.read j nand.writesize)).1 ≠ 0
              · rw [if_pos hret] at hstep ⊢
                exact ⟨_, _, rfl, hstep⟩
              · rw [if_neg hret] at hstep ⊢
                rcases hstep with ⟨hretlen, hJ'⟩
                rcases inWalk_page hwalk.1 hhere with ⟨hfit, hwalk'⟩
                have hoff := nand.toNat_add_retlen off hretlen hfit
                have hrest := nand.toNat_sub_retlen hretlen (show nand.writesize ≤ remaining.toNat by omega)
                have hfuel' := fuel_next hfuel (skipDist_lt hstop.1 (off.toNat + nand.writesize))
                rw [ByteMem.shift_shift, hretlen, not_not.1 hret]
                refine ih n _ _ _ (j + nand.writesize) 0 (by omega) (by omega) ?_ ?_ ?_
                · rw [hoff]
                  exact hwalk'
                · rw [hoff]
                  exact hJ'
                · rw [hoff]
                  exact hfuel'
  have hn : remaining.toNat = len / nand.writesize * nand.writesize := by
    rw [hrem, Nat.div_mul_cancel hdvd]
  have hpages : len / nand.writesize < 2 ^ 64 :=
    lt_of_le_of_lt (Nat.div_le_self _ _) (hrem ▸ remaining.toNat_lt)
  have hbound := lt_loopBound_of_turns hpages (skipDist_lt hstop.1 off.toNat)
  have hrun := hloop loopBound (len / nand.writesize) m off remaining 0 ret hn (by omega) hwalk hJ hbound
  rwa [ByteMem.shift_zero] at hrun

end Loops

end Nand

end Burn
end CanmvK230
