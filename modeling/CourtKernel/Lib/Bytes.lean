import Mathlib.Data.List.GetD
import Mathlib.Algebra.Order.Ring.Nat
import Mathlib.Tactic.Ring

/-!
# Byte memory and little-endian numbers

A memory is a total function from addresses to bytes.  Reads and writes move lists of bytes.

* `Memory.read_write_self`, `Memory.read_write_of_disjoint` — what a read sees after a write.
* `Memory.write_append` — two writes next to each other are one write.
* `leBytes k n`, `leVal bs` — the little-endian digits of a number and the number of a digit list;
  `leVal_leBytes` is the round trip.
-/

namespace CourtKernel

/-- Byte-addressed memory. -/
abbrev Memory := Nat → UInt8

namespace Memory

variable {m m' : Memory} {a b n : Nat} {bs cs : List UInt8}

/-- The `n` bytes from address `a` on. -/
def read (m : Memory) (a n : Nat) : List UInt8 := (List.range n).map fun i => m (a + i)

/-- Store the bytes `bs` from address `a` on. -/
def write (m : Memory) (a : Nat) (bs : List UInt8) : Memory := fun i =>
  if a ≤ i then bs.getD (i - a) (m i) else m i

@[simp] theorem length_read : (m.read a n).length = n := by
  simp [read]

theorem getElem_read {i : Nat} (h : i < (m.read a n).length) : (m.read a n)[i] = m (a + i) := by
  simp [read]

@[simp] theorem read_zero : m.read a 0 = [] := rfl

theorem read_add (k : Nat) : m.read a (n + k) = m.read a n ++ m.read (a + n) k := by
  refine List.ext_getElem (by simp) fun i h _ => ?_
  rw [getElem_read, List.getElem_append]
  split
  · rw [getElem_read]
  · rename_i hi
    rw [length_read] at hi
    rw [getElem_read, length_read, show a + n + (i - n) = a + i by omega]

theorem read_succ : m.read a (n + 1) = m a :: m.read (a + 1) n := by
  rw [Nat.add_comm n 1, read_add]
  rfl

/-- Reads of memories that agree on the bytes read are equal. -/
theorem read_congr (h : ∀ i, i < n → m (a + i) = m' (b + i)) : m.read a n = m'.read b n :=
  List.map_congr_left fun i hi => h i (List.mem_range.1 hi)

theorem write_of_lt {i : Nat} (h : i < a) : m.write a bs i = m i := by
  simp [write, Nat.not_le.2 h]

theorem write_of_ge {i : Nat} (h : a + bs.length ≤ i) : m.write a bs i = m i := by
  unfold write
  rw [if_pos (by omega), List.getD_eq_default _ _ (by omega)]

theorem write_of_mem {i : Nat} (h : i < bs.length) : m.write a bs (a + i) = bs[i] := by
  unfold write
  rw [if_pos (by omega), Nat.add_sub_cancel_left, List.getD_eq_getElem _ _ h]

theorem read_write_self : (m.write a bs).read a bs.length = bs := by
  refine List.ext_getElem (by simp) fun i h h' => ?_
  rw [getElem_read, write_of_mem h']

/-- Writing what is there changes nothing. -/
theorem write_read : m.write a (m.read a n) = m := by
  funext i
  by_cases hlow : i < a
  · exact write_of_lt hlow
  · by_cases hhigh : a + n ≤ i
    · exact write_of_ge (by rwa [length_read])
    · obtain ⟨k, rfl⟩ : ∃ k, i = a + k := ⟨i - a, by omega⟩
      rw [write_of_mem (by rw [length_read]; omega), getElem_read]

theorem read_write_of_disjoint (h : b + n ≤ a ∨ a + bs.length ≤ b) :
    (m.write a bs).read b n = m.read b n := by
  refine read_congr fun i hi => ?_
  rcases h with h | h
  · exact write_of_lt (by omega)
  · exact write_of_ge (by omega)

@[simp] theorem write_nil : m.write a [] = m := by
  funext i
  simp [write]

theorem write_append : (m.write a bs).write (a + bs.length) cs = m.write a (bs ++ cs) := by
  funext i
  by_cases h1 : i < a
  · rw [write_of_lt (by omega), write_of_lt h1, write_of_lt h1]
  · obtain ⟨j, rfl⟩ : ∃ j, i = a + j := ⟨i - a, by omega⟩
    by_cases h2 : j < bs.length
    · rw [write_of_lt (by omega), write_of_mem h2, write_of_mem (by simp; omega),
        List.getElem_append_left h2]
    · by_cases h3 : j < bs.length + cs.length
      · rw [show a + j = a + bs.length + (j - bs.length) by omega, write_of_mem (by omega),
          show a + bs.length + (j - bs.length) = a + j by omega, write_of_mem (by simp; omega),
          List.getElem_append_right (by omega)]
      · rw [write_of_ge (by omega), write_of_ge (by omega), write_of_ge (by simp; omega)]

end Memory

/-! ## Little-endian numbers -/

/-- The `k` low bytes of `n`, least significant first. -/
def leBytes : Nat → Nat → List UInt8
  | 0, _ => []
  | k + 1, n => UInt8.ofNat n :: leBytes k (n / 256)

/-- The number whose bytes are `bs`, least significant first. -/
def leVal : List UInt8 → Nat
  | [] => 0
  | b :: bs => b.toNat + 256 * leVal bs

@[simp] theorem length_leBytes (k n : Nat) : (leBytes k n).length = k := by
  induction k generalizing n with
  | zero => rfl
  | succ k ih => simp [leBytes, ih]

theorem leVal_leBytes (k n : Nat) : leVal (leBytes k n) = n % 256 ^ k := by
  induction k generalizing n with
  | zero => simp [leBytes, leVal, Nat.mod_one]
  | succ k ih =>
    have hb : (UInt8.ofNat n).toNat = n % 256 := by simp
    rw [leBytes, leVal, ih, hb, Nat.pow_succ, Nat.mul_comm (256 ^ k) 256, Nat.mod_mul]

theorem leBytes_leVal (bs : List UInt8) : leBytes bs.length (leVal bs) = bs := by
  induction bs with
  | nil => rfl
  | cons b bs ih =>
    have hb := b.toNat_lt
    have hhead : UInt8.ofNat (b.toNat + 256 * leVal bs) = b := by
      rw [← UInt8.toNat_inj, UInt8.toNat_ofNat']
      omega
    rw [leVal, List.length_cons, leBytes, hhead, show (b.toNat + 256 * leVal bs) / 256 = leVal bs by
      omega, ih]

theorem leVal_lt (bs : List UInt8) : leVal bs < 256 ^ bs.length := by
  induction bs with
  | nil => simp [leVal]
  | cons b bs ih =>
    have hb := b.toNat_lt
    rw [leVal, List.length_cons, Nat.pow_succ]
    omega

end CourtKernel
