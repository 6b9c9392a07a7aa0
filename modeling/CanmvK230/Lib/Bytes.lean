import Mathlib.Data.UInt
import Mathlib.Tactic

/-!
# Bytes — fixed-width words as byte strings, and byte-addressed memory

Two general notions, over no particular program:

* `leNat` / `toLe` and `beNat` / `toBe`: the number a byte string spells and the `w` bytes of a
  number, least (most) significant byte first, with the round-trip laws;
* `ByteMem`: a total byte-addressed memory with `read`, `write` and `fill`, and the frame laws that
  say which bytes an operation touches.

Addresses are natural numbers, so that a range never wraps; a program whose addresses do wrap has to
say so in its own model.
-/

namespace Lib

/-! ## Words -/

/-- The number with the given bytes, least significant byte first. -/
def leNat : List UInt8 → Nat
  | [] => 0
  | b :: bs => b.toNat + 256 * leNat bs

/-- The `w` bytes of `n`, least significant byte first; higher bytes are dropped. -/
def toLe : Nat → Nat → List UInt8
  | 0, _ => []
  | w + 1, n => UInt8.ofNat n :: toLe w (n / 256)

/-- The number with the given bytes, most significant byte first. -/
def beNat (bs : List UInt8) : Nat :=
  leNat bs.reverse

/-- The `w` bytes of `n`, most significant byte first. -/
def toBe (w n : Nat) : List UInt8 :=
  (toLe w n).reverse

@[simp] theorem length_toLe (w n : Nat) : (toLe w n).length = w := by
  induction w generalizing n with
  | zero => rfl
  | succ w ih => simp [toLe, ih]

@[simp] theorem length_toBe (w n : Nat) : (toBe w n).length = w := by
  simp [toBe]

theorem leNat_toLe (w n : Nat) : leNat (toLe w n) = n % 256 ^ w := by
  induction w generalizing n with
  | zero => simp [toLe, leNat, Nat.mod_one]
  | succ w ih =>
      have hhead : (UInt8.ofNat n).toNat = n % 256 := by
        simp
      -- `n % 256 ^ (w + 1)` is its lowest byte and the rest below `256 ^ w`
      rw [toLe, leNat, ih, hhead, pow_succ', Nat.mod_mul]

theorem leNat_toLe_of_lt {w n : Nat} (h : n < 256 ^ w) : leNat (toLe w n) = n := by
  rw [leNat_toLe, Nat.mod_eq_of_lt h]

theorem beNat_toBe_of_lt {w n : Nat} (h : n < 256 ^ w) : beNat (toBe w n) = n := by
  simp [beNat, toBe, leNat_toLe_of_lt h]

theorem leNat_lt (bs : List UInt8) : leNat bs < 256 ^ bs.length := by
  induction bs with
  | nil => simp [leNat]
  | cons b bs ih =>
      have hb : b.toNat < 256 := b.toNat_lt
      simp only [leNat, List.length_cons, pow_succ]
      omega

/-- A byte string spells zero exactly when all its bytes are zero. -/
theorem leNat_eq_zero_iff (bs : List UInt8) : leNat bs = 0 ↔ ∀ b ∈ bs, b = 0 := by
  induction bs with
  | nil => simp [leNat]
  | cons b bs ih =>
      have hb : b.toNat = 0 ↔ b = 0 := by
        rw [← UInt8.toNat_inj]
        simp
      simp only [leNat, List.mem_cons, forall_eq_or_imp, Nat.add_eq_zero_iff, hb,
        Nat.mul_eq_zero, OfNat.ofNat_ne_zero, false_or, ih]

/-- A byte string spells the greatest number of its length exactly when all its bytes are `0xff`. -/
theorem leNat_eq_max_iff (bs : List UInt8) :
    leNat bs + 1 = 256 ^ bs.length ↔ ∀ b ∈ bs, b = 0xff := by
  induction bs with
  | nil => simp [leNat]
  | cons b bs ih =>
      have hb : b.toNat = 255 ↔ b = 0xff := by
        rw [← UInt8.toNat_inj]
        rfl
      have hlt := leNat_lt bs
      have hbyte : b.toNat < 256 := b.toNat_lt
      have hsplit : leNat (b :: bs) + 1 = 256 ^ (b :: bs).length ↔
          b.toNat = 255 ∧ leNat bs + 1 = 256 ^ bs.length := by
        simp only [leNat, List.length_cons, pow_succ]
        omega
      rw [hsplit, hb, ih, List.forall_mem_cons]

/-- Byte order does not matter to whether a word is zero. -/
theorem leNat_eq_zero_iff_beNat (bs : List UInt8) : leNat bs = 0 ↔ beNat bs = 0 := by
  simp [beNat, leNat_eq_zero_iff]

theorem toNat_pos_of_ne_zero {x : UInt64} (h : x ≠ 0) : 0 < x.toNat :=
  Nat.pos_of_ne_zero fun h0 => h (UInt64.toNat_inj.1 h0)

/-! ## Byte-addressed memory -/

/-- A total memory of bytes. -/
abbrev ByteMem := Nat → UInt8

namespace ByteMem

/-- The `len` bytes from `off`. -/
def read (m : ByteMem) (off len : Nat) : List UInt8 :=
  (List.range len).map fun i => m (off + i)

/-- Store the bytes `bs` from `off`. -/
def write (m : ByteMem) (off : Nat) (bs : List UInt8) : ByteMem :=
  -- behind the last byte of `bs` the default of `getD` keeps the old content
  fun a => if off ≤ a then bs.getD (a - off) (m a) else m a

/-- Store the byte `b` at each of the `len` addresses from `off`. -/
def fill (m : ByteMem) (off len : Nat) (b : UInt8) : ByteMem :=
  fun a => if off ≤ a ∧ a < off + len then b else m a

/-- The memory as seen from the pointer `p`. -/
def shift (m : ByteMem) (p : Nat) : ByteMem :=
  fun i => m (p + i)

variable (m : ByteMem)

@[simp] theorem length_read (off len : Nat) : (m.read off len).length = len := by
  simp [read]

@[simp] theorem getElem_read {off len i : Nat} (h : i < (m.read off len).length) :
    (m.read off len)[i] = m (off + i) := by
  simp [read]

@[simp] theorem read_zero (off : Nat) : m.read off 0 = [] := by
  simp [read]

theorem read_one (off : Nat) : m.read off 1 = [m off] := by
  simp [read, List.range_succ]

theorem read_add (off k l : Nat) : m.read off (k + l) = m.read off k ++ m.read (off + k) l := by
  simp [read, List.range_add, List.map_map, Function.comp_def, Nat.add_assoc]

@[simp] theorem read_shift (p off len : Nat) : (m.shift p).read off len = m.read (p + off) len := by
  simp [read, shift, Nat.add_assoc]

@[simp] theorem shift_zero : m.shift 0 = m := by
  funext a
  simp only [shift, Nat.zero_add]

theorem shift_shift (p q : Nat) : (m.shift p).shift q = m.shift (p + q) := by
  funext a
  simp only [shift, Nat.add_assoc]

/-- A prefix of a range that was read is the shorter range. -/
theorem take_read (off : Nat) {k len : Nat} (h : k ≤ len) :
    (m.read off len).take k = m.read off k := by
  rcases Nat.exists_eq_add_of_le h with ⟨l, rfl⟩
  simp [read_add]

/-- Reading depends only on the bytes of the range. -/
theorem read_congr {m m' : ByteMem} {off len : Nat}
    (h : ∀ a, off ≤ a → a < off + len → m a = m' a) : m.read off len = m'.read off len := by
  refine List.map_congr_left ?_
  intro i hi
  have hi' : i < len := List.mem_range.1 hi
  exact h (off + i) (by omega) (by omega)

/-- Two memories that agree on a range byte for byte are read the same there. -/
theorem read_eq_iff {m : ByteMem} {off : Nat} {bs : List UInt8} :
    m.read off bs.length = bs ↔ ∀ i (h : i < bs.length), m (off + i) = bs[i] := by
  constructor
  · intro h i hi
    have hget : (m.read off bs.length)[i]? = bs[i]? := by rw [h]
    simpa [read, hi] using hget
  · intro h
    refine List.ext_getElem (by simp) ?_
    intro i _ hi
    simpa using h i hi

/-- Reading one part of a range whose bytes are known. -/
theorem read_part {m : ByteMem} {off i len : Nat} {bs : List UInt8} (pre : List UInt8)
    {mid : List UInt8} (post : List UInt8) (h : m.read off bs.length = bs)
    (hbs : bs = pre ++ mid ++ post) (hi : i = off + pre.length) (hlen : mid.length = len) :
    m.read i len = mid := by
  subst hbs hi hlen
  have hsplit : (pre ++ mid ++ post).length = pre.length + mid.length + post.length := by
    simp [Nat.add_assoc]
  -- the range is read in three parts, and equal lengths make the parts equal
  rw [hsplit, read_add, read_add] at h
  have hfront : m.read off pre.length ++ m.read (off + pre.length) mid.length = pre ++ mid :=
    (List.append_inj h (by simp)).1
  exact (List.append_inj hfront (by simp)).2

@[simp] theorem write_nil (off : Nat) : m.write off [] = m := by
  funext a
  simp [write]

theorem write_of_lt {off a : Nat} (bs : List UInt8) (h : a < off) : m.write off bs a = m a := by
  simp [write, Nat.not_le.2 h]

theorem write_of_le {off a : Nat} {bs : List UInt8} (h : off + bs.length ≤ a) :
    m.write off bs a = m a := by
  have hlen : bs.length ≤ a - off := by omega
  simp [write, List.getElem?_eq_none hlen]

theorem write_at (off : Nat) {i : Nat} {bs : List UInt8} (h : i < bs.length) :
    m.write off bs (off + i) = bs[i] := by
  simp [write, h]

/-- Writing touches nothing outside its range. -/
theorem write_frame {off a : Nat} {bs : List UInt8} (h : a < off ∨ off + bs.length ≤ a) :
    m.write off bs a = m a := by
  rcases h with h | h
  · exact m.write_of_lt bs h
  · exact m.write_of_le h

@[simp] theorem read_write (off : Nat) (bs : List UInt8) :
    (m.write off bs).read off bs.length = bs := by
  refine read_eq_iff.2 ?_
  intro i hi
  exact m.write_at off hi

theorem read_write_of_length {off len : Nat} {bs : List UInt8} (h : bs.length = len) :
    (m.write off bs).read off len = bs := by
  subst h
  simp

/-- Reading next to a write sees the old bytes. -/
theorem read_write_disjoint {off off' len : Nat} {bs : List UInt8}
    (h : off + bs.length ≤ off' ∨ off' + len ≤ off) :
    (m.write off bs).read off' len = m.read off' len := by
  refine read_congr ?_
  intro a h₁ h₂
  exact m.write_frame (by omega)

/-- Reading one part of what was written. -/
theorem read_write_part {off i len : Nat} {bs : List UInt8} (pre : List UInt8) {mid : List UInt8}
    (post : List UInt8) (hbs : bs = pre ++ mid ++ post) (hi : i = off + pre.length)
    (hlen : mid.length = len) : (m.write off bs).read i len = mid :=
  read_part pre post (m.read_write off bs) hbs hi hlen

/-- A write of two strings is two writes. -/
theorem write_append (off : Nat) (bs cs : List UInt8) :
    m.write off (bs ++ cs) = (m.write off bs).write (off + bs.length) cs := by
  funext a
  -- in front of `off`, inside `bs`, or behind it
  by_cases hlo : off ≤ a
  · by_cases hmid : off + bs.length ≤ a
    · have hlen : bs.length ≤ a - off := by omega
      have hsub : a - off - bs.length = a - (off + bs.length) := by omega
      simp [write, hlo, hmid, List.getElem?_append_right hlen, hsub,
        List.getElem?_eq_none hlen]
    · have hlen : a - off < bs.length := by omega
      simp [write, hlo, hmid, List.getElem?_append_left hlen]
  · have hmid : ¬ off + bs.length ≤ a := by omega
    simp [write, hlo, hmid]

/-- Two ranges behind each other are stored one after the other. -/
theorem write_read_add (b : ByteMem) (off i k l : Nat) :
    (m.write off (b.read i k)).write (off + k) (b.read (i + k) l) = m.write off (b.read i (k + l)) := by
  rw [read_add, write_append, length_read]

end ByteMem

/-! ## Text -/

/-- The bytes of an ASCII text. -/
def ascii (s : String) : List UInt8 :=
  s.toList.map fun ch => UInt8.ofNat ch.toNat

end Lib
