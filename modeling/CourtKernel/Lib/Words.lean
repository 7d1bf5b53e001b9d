import CourtKernel.Lib.Bytes
import Mathlib.Data.Nat.Bitwise

/-!
# Machine words

`u64` values are `UInt64`, whose arithmetic wraps.  Masks are read as arithmetic on the numbers
they denote, so that facts about them are left to linear arithmetic.

* `land_field` — keeping `n` bits from position `lo` on is dividing, reducing and multiplying;
  `toNat_and_field` is the same for words.
* `lor_low`, `toNat_or_low` — setting low bits of a multiple of `2^n` is adding.
* `saturatingAdd`, `saturatingSub`, `checkedAdd`, `checkedMul`, `divCeil` — the operations that do
  not wrap.
* `Memory.readU64`, `Memory.writeU64`, `Memory.fill`, `Memory.copy` — words, runs of one byte, and
  copies in memory.
-/

namespace CourtKernel

/-! ## Masks -/

theorem land_field (x lo n : Nat) : x &&& ((2 ^ n - 1) <<< lo) = x / 2 ^ lo % 2 ^ n * 2 ^ lo := by
  refine Nat.eq_of_testBit_eq fun i => ?_
  rw [← Nat.shiftLeft_eq, Nat.testBit_and, Nat.testBit_shiftLeft, Nat.testBit_shiftLeft,
    Nat.testBit_two_pow_sub_one, Nat.testBit_mod_two_pow, Nat.testBit_div_two_pow]
  by_cases h : lo ≤ i
  · simp [h, Bool.and_comm]
  · simp [h]

theorem lor_low {x y n : Nat} (hx : x % 2 ^ n = 0) (hy : y < 2 ^ n) : x ||| y = x + y := by
  obtain ⟨k, rfl⟩ := Nat.dvd_of_mod_eq_zero hx
  exact (Nat.two_pow_add_eq_or_of_lt hy k).symm

/-- `x & mask` for a mask of `n` ones from position `lo` on. -/
theorem toNat_and_field {x mask : UInt64} (lo n : Nat) (h : mask.toNat = (2 ^ n - 1) <<< lo) :
    (x &&& mask).toNat = x.toNat / 2 ^ lo % 2 ^ n * 2 ^ lo := by
  rw [UInt64.toNat_and, h, land_field]

/-- `x | y` when `x` has no bit among those of `y`. -/
theorem toNat_or_low {x y : UInt64} (n : Nat) (hx : x.toNat % 2 ^ n = 0) (hy : y.toNat < 2 ^ n) :
    (x ||| y).toNat = x.toNat + y.toNat := by
  rw [UInt64.toNat_or, lor_low hx hy]

/-- The low bits of `x | y` are clear exactly if those of both are. -/
theorem or_and_low_eq_zero {x y mask : UInt64} (n : Nat) (h : mask.toNat = 2 ^ n - 1) :
    (x ||| y) &&& mask = 0 ↔ x.toNat % 2 ^ n = 0 ∧ y.toNat % 2 ^ n = 0 := by
  rw [← UInt64.toNat_inj, UInt64.toNat_and, UInt64.toNat_or, h, Nat.and_two_pow_sub_one_eq_mod,
    Nat.or_mod_two_pow, UInt64.toNat_zero, Nat.or_eq_zero_iff]

/-! ## Arithmetic that does not wrap -/

def saturatingAdd (a b : UInt64) : UInt64 :=
  if a.toNat + b.toNat < 2 ^ 64 then a + b else UInt64.ofNat (2 ^ 64 - 1)

def saturatingSub (a b : UInt64) : UInt64 := if b ≤ a then a - b else 0

def checkedAdd (a b : UInt64) : Option UInt64 :=
  if a.toNat + b.toNat < 2 ^ 64 then some (a + b) else none

def checkedMul (a b : UInt64) : Option UInt64 :=
  if a.toNat * b.toNat < 2 ^ 64 then some (a * b) else none

def divCeil (a b : UInt64) : UInt64 := if a % b > 0 then a / b + 1 else a / b

theorem toNat_saturatingAdd (a b : UInt64) :
    (saturatingAdd a b).toNat = min (a.toNat + b.toNat) (2 ^ 64 - 1) := by
  have hmax : (UInt64.ofNat (2 ^ 64 - 1)).toNat = 2 ^ 64 - 1 := by decide
  unfold saturatingAdd
  split
  · rw [UInt64.toNat_add]
    omega
  · rw [hmax]
    omega

theorem checkedAdd_eq_some {a b c : UInt64} :
    checkedAdd a b = some c ↔ c.toNat = a.toNat + b.toNat := by
  unfold checkedAdd
  split
  · rename_i h
    rw [Option.some.injEq, ← UInt64.toNat_inj, UInt64.toNat_add, Nat.mod_eq_of_lt h, eq_comm]
  · rename_i h
    have := c.toNat_lt
    simp only [reduceCtorEq, false_iff]
    omega

theorem checkedMul_eq_some {a b c : UInt64} :
    checkedMul a b = some c ↔ c.toNat = a.toNat * b.toNat := by
  unfold checkedMul
  split
  · rename_i h
    rw [Option.some.injEq, ← UInt64.toNat_inj, UInt64.toNat_mul, Nat.mod_eq_of_lt h, eq_comm]
  · rename_i h
    have := c.toNat_lt
    simp only [reduceCtorEq, false_iff]
    omega

theorem checkedAdd_eq_none {a b : UInt64} : checkedAdd a b = none ↔ 2 ^ 64 ≤ a.toNat + b.toNat := by
  unfold checkedAdd
  split
  · simp only [reduceCtorEq, false_iff]
    omega
  · simp only [true_iff]
    omega

theorem checkedMul_eq_none {a b : UInt64} : checkedMul a b = none ↔ 2 ^ 64 ≤ a.toNat * b.toNat := by
  unfold checkedMul
  split
  · simp only [reduceCtorEq, false_iff]
    omega
  · simp only [true_iff]
    omega

/-! ## Words in memory -/

namespace Memory

variable {m m' : Memory} {a b n : Nat}

/-- The little-endian word at an address. -/
def readU64 (m : Memory) (a : Nat) : UInt64 := UInt64.ofNat (leVal (m.read a 8))

def writeU64 (m : Memory) (a : Nat) (v : UInt64) : Memory := m.write a (leBytes 8 v.toNat)

/-- `n` bytes `v` from address `a` on. -/
def fill (m : Memory) (a n : Nat) (v : UInt8) : Memory := fun i =>
  if a ≤ i ∧ i < a + n then v else m i

/-- `n` bytes copied from `src` to `dst`. -/
def copy (m : Memory) (src dst n : Nat) : Memory := fun i =>
  if dst ≤ i ∧ i < dst + n then m (src + (i - dst)) else m i

theorem readU64_congr (h : ∀ i, a ≤ i → i < a + 8 → m i = m' i) : m.readU64 a = m'.readU64 a := by
  unfold readU64
  rw [read_congr fun i hi => h (a + i) (by omega) (by omega)]

theorem readU64_writeU64_self (v : UInt64) : (m.writeU64 a v).readU64 a = v := by
  have hread : (m.writeU64 a v).read a 8 = leBytes 8 v.toNat := by
    have hself : (m.write a (leBytes 8 v.toNat)).read a (leBytes 8 v.toNat).length =
        leBytes 8 v.toNat := read_write_self
    rwa [length_leBytes] at hself
  rw [readU64, hread, leVal_leBytes, ← UInt64.toNat_inj, UInt64.toNat_ofNat']
  have := v.toNat_lt
  omega

theorem writeU64_of_disjoint {v : UInt64} {i : Nat} (h : i < a ∨ a + 8 ≤ i) :
    m.writeU64 a v i = m i := by
  rcases h with h | h
  · exact write_of_lt h
  · exact write_of_ge (by rw [length_leBytes]; exact h)

theorem readU64_writeU64_of_disjoint {v : UInt64} (h : b + 8 ≤ a ∨ a + 8 ≤ b) :
    (m.writeU64 a v).readU64 b = m.readU64 b :=
  readU64_congr fun i h1 h2 => writeU64_of_disjoint (by omega)

/-- Copying a word copies its bytes. -/
theorem writeU64_readU64 {i : Nat} (hi : i < 8) :
    m'.writeU64 a (m.readU64 b) (a + i) = m (b + i) := by
  have hlen : (m.read b 8).length = 8 := length_read
  have hlt := leVal_lt (m.read b 8)
  have hbytes : leBytes 8 (m.readU64 b).toNat = m.read b 8 := by
    have := leBytes_leVal (m.read b 8)
    rw [hlen] at this hlt
    rw [readU64, UInt64.toNat_ofNat', Nat.mod_eq_of_lt (by omega), this]
  rw [writeU64, hbytes, write_of_mem (by omega), getElem_read]

theorem fill_of_mem {v : UInt8} {i : Nat} (h1 : a ≤ i) (h2 : i < a + n) : m.fill a n v i = v :=
  if_pos ⟨h1, h2⟩

theorem fill_of_disjoint {v : UInt8} {i : Nat} (h : i < a ∨ a + n ≤ i) : m.fill a n v i = m i :=
  if_neg (by omega)

theorem readU64_fill_zero (h1 : a ≤ b) (h2 : b + 8 ≤ a + n) : (m.fill a n 0).readU64 b = 0 := by
  have hread : (m.fill a n 0).readU64 b = readU64 (fun _ => 0) b :=
    readU64_congr fun i hi1 hi2 => fill_of_mem (by omega) (by omega)
  rw [hread]
  show UInt64.ofNat (leVal ((List.range 8).map fun _ => 0)) = 0
  decide

theorem copy_of_mem {src dst d : Nat} (h : d < n) : m.copy src dst n (dst + d) = m (src + d) := by
  rw [copy, if_pos (by omega), Nat.add_sub_cancel_left]

theorem copy_of_disjoint {src dst i : Nat} (h : i < dst ∨ dst + n ≤ i) : m.copy src dst n i = m i :=
  if_neg (by omega)

end Memory

end CourtKernel
