import CourtKernel.Lib.X86
import Mathlib.Data.List.Forall2

/-!
# Per-CPU descriptor tables

Reference model of `crates/root-court/src/gdt.rs`: the bytes that `init` writes into the three
static arrays, and what the processor makes of them when a CPU runs `load`.

* `tssDescriptor_fields` — the processor reads back the base and limit that were put in.
* `Filled` — the contents of the arrays, with the CPUs that have loaded their task segment so far;
  `filled_init` establishes it, `Slot.load_ok` with `Filled.loaded`, or `Slot.load_again`, is one step.
* `loadAll_init` — a row of loads goes through exactly if no slot is loaded twice and no slot is past
  the end; every CPU then has its own task segment and its own fault stack, and loading one of the
  slots once more faults.

The two words that `load` pushes for its far return are gone when it returns and are left out; of the
data segment registers only `ss` is kept.
-/

namespace CourtKernel

open X86

/-! ## Fields of a word -/

theorem lor_high {x y n : Nat} (hx : x < 2 ^ n) (hy : y % 2 ^ n = 0) : x ||| y = x + y := by
  rw [Nat.or_comm, lor_low hy hx, Nat.add_comm]

/-- Setting a bit that is clear. -/
theorem lor_bit {x k : Nat} (h : x / 2 ^ k % 2 = 0) : x ||| 2 ^ k = x + 2 ^ k := by
  have hpow : 2 ^ (k + 1) = 2 * 2 ^ k := by rw [Nat.pow_succ, Nat.mul_comm]
  have hpos := Nat.two_pow_pos k
  have hsplit : x = 2 ^ (k + 1) * (x / 2 ^ k / 2) + x % 2 ^ k := by
    have h1 := Nat.div_add_mod x (2 ^ k)
    have h2 := Nat.div_add_mod (x / 2 ^ k) 2
    rw [h, Nat.add_zero] at h2
    rw [hpow, Nat.mul_comm 2, Nat.mul_assoc, h2, h1]
  have hlow : x % 2 ^ k < 2 ^ k := Nat.mod_lt _ hpos
  have hhigh : 2 ^ (k + 1) * (x / 2 ^ k / 2) % 2 ^ (k + 1) = 0 := Nat.mul_mod_right _ _
  calc x ||| 2 ^ k
      = (2 ^ (k + 1) * (x / 2 ^ k / 2) ||| x % 2 ^ k) ||| 2 ^ k := by
        rw [lor_low hhigh (by omega), ← hsplit]
    _ = 2 ^ (k + 1) * (x / 2 ^ k / 2) ||| (x % 2 ^ k + 2 ^ k) := by
        rw [Nat.or_assoc, lor_high hlow (Nat.mod_self _)]
    _ = x + 2 ^ k := by
        rw [lor_low hhigh (by omega)]
        omega

namespace RootCourt

def KERNEL_CS : UInt16 := 0x08
def KERNEL_DS : UInt16 := 0x10
def KERNEL_TSS : UInt16 := 0x18
def MAX_CPUS : Nat := 8

namespace Gdt

def IST_BYTES : Nat := 16 * 1024
def GDT_LEN : Nat := 5

def KERNEL_CODE : UInt64 := 0x00209A0000000000
def KERNEL_DATA : UInt64 := 0x0000920000000000

structure Tss where
  reserved0 : UInt32
  rsp0 : UInt64
  rsp1 : UInt64
  rsp2 : UInt64
  reserved1 : UInt64
  ist : Vector UInt64 7
  reserved2 : UInt64
  reserved3 : UInt16
  iomapBase : UInt16

/-- The `repr(C, packed)` layout. -/
def Tss.bytes (tss : Tss) : List UInt8 :=
  leBytes 4 tss.reserved0.toNat ++
    Memory.wordBytes [tss.rsp0, tss.rsp1, tss.rsp2, tss.reserved1] ++
    Memory.wordBytes tss.ist.toList ++ leBytes 8 tss.reserved2.toNat ++
    leBytes 2 tss.reserved3.toNat ++ leBytes 2 tss.iomapBase.toNat

def TSS_BYTES : Nat := 104

theorem Tss.length_bytes (tss : Tss) : tss.bytes.length = TSS_BYTES := by
  simp [bytes, TSS_BYTES]

def tssDescriptor (base limit : UInt64) : UInt64 × UInt64 :=
  let low := (limit &&& 0xFFFF) ||| ((base &&& 0xFFFFFF) <<< (16 : UInt64)) |||
    ((0x89 : UInt64) <<< (40 : UInt64)) ||| (((limit >>> (16 : UInt64)) &&& 0xF) <<< (48 : UInt64)) |||
    (((base >>> (24 : UInt64)) &&& 0xFF) <<< (56 : UInt64))
  let high := base >>> 32
  (low, high)

/-- Every field starts above the sum of those before it. -/
theorem lor_tssFields {a b d e : Nat} (ha : a < 2 ^ 16) (hb : b < 2 ^ 24) (hd : d < 2 ^ 4) :
    a ||| 2 ^ 16 * b ||| 2 ^ 40 * 0x89 ||| 2 ^ 48 * d ||| 2 ^ 56 * e =
      a + 2 ^ 16 * b + 2 ^ 40 * 0x89 + 2 ^ 48 * d + 2 ^ 56 * e := by
  rw [lor_high (x := a) (n := 16) ha (by omega),
    lor_high (x := a + 2 ^ 16 * b) (n := 40) (by omega) (by omega),
    lor_high (x := a + 2 ^ 16 * b + 2 ^ 40 * 0x89) (n := 48) (by omega) (by omega),
    lor_high (x := a + 2 ^ 16 * b + 2 ^ 40 * 0x89 + 2 ^ 48 * d) (n := 56) (by omega) (by omega)]

theorem toNat_tssDescriptor_low (base limit : UInt64) :
    (tssDescriptor base limit).1.toNat =
      limit.toNat % 2 ^ 16 + 2 ^ 16 * (base.toNat % 2 ^ 24) + 2 ^ 40 * 0x89 +
        2 ^ 48 * (limit.toNat / 2 ^ 16 % 2 ^ 4) + 2 ^ 56 * (base.toNat / 2 ^ 24 % 2 ^ 8) := by
  have h1 : (limit &&& 0xFFFF).toNat = limit.toNat % 2 ^ 16 := by
    rw [UInt64.toNat_and]; exact Nat.and_two_pow_sub_one_eq_mod _ 16
  have h2 : ((base &&& 0xFFFFFF) <<< 16).toNat = 2 ^ 16 * (base.toNat % 2 ^ 24) := by
    rw [UInt64.toNat_shiftLeft, UInt64.toNat_and, show (0xFFFFFF : UInt64).toNat = 2 ^ 24 - 1 from rfl,
      Nat.and_two_pow_sub_one_eq_mod, Nat.shiftLeft_eq]
    have : base.toNat % 2 ^ 24 < 2 ^ 24 := Nat.mod_lt _ (by decide)
    simp only [show (16 : UInt64).toNat % 64 = 16 from rfl]
    omega
  have h3 : ((0x89 : UInt64) <<< 40).toNat = 2 ^ 40 * 0x89 := by decide
  have h4 : (((limit >>> 16) &&& 0xF) <<< 48).toNat = 2 ^ 48 * (limit.toNat / 2 ^ 16 % 2 ^ 4) := by
    rw [UInt64.toNat_shiftLeft, UInt64.toNat_and, UInt64.toNat_shiftRight,
      show (0xF : UInt64).toNat = 2 ^ 4 - 1 from rfl, Nat.and_two_pow_sub_one_eq_mod, Nat.shiftLeft_eq,
      Nat.shiftRight_eq_div_pow]
    have : limit.toNat / 2 ^ 16 % 2 ^ 4 < 2 ^ 4 := Nat.mod_lt _ (by decide)
    simp only [show (16 : UInt64).toNat % 64 = 16 from rfl, show (48 : UInt64).toNat % 64 = 48 from rfl]
    omega
  have h5 : (((base >>> 24) &&& 0xFF) <<< 56).toNat = 2 ^ 56 * (base.toNat / 2 ^ 24 % 2 ^ 8) := by
    rw [UInt64.toNat_shiftLeft, UInt64.toNat_and, UInt64.toNat_shiftRight,
      show (0xFF : UInt64).toNat = 2 ^ 8 - 1 from rfl, Nat.and_two_pow_sub_one_eq_mod, Nat.shiftLeft_eq,
      Nat.shiftRight_eq_div_pow]
    have : base.toNat / 2 ^ 24 % 2 ^ 8 < 2 ^ 8 := Nat.mod_lt _ (by decide)
    simp only [show (24 : UInt64).toNat % 64 = 24 from rfl, show (56 : UInt64).toNat % 64 = 56 from rfl]
    omega
  unfold tssDescriptor
  rw [UInt64.toNat_or, UInt64.toNat_or, UInt64.toNat_or, UInt64.toNat_or, h1, h2, h3, h4, h5]
  exact lor_tssFields (Nat.mod_lt _ (by decide)) (Nat.mod_lt _ (by decide)) (Nat.mod_lt _ (by decide))

/-- The fields of a number that was put together from them. -/
theorem tssFields {n a b d e : Nat} (ha : a < 2 ^ 16) (hb : b < 2 ^ 24) (hd : d < 2 ^ 4) (he : e < 2 ^ 8)
    (h : n = a + 2 ^ 16 * b + 2 ^ 40 * 0x89 + 2 ^ 48 * d + 2 ^ 56 * e) :
    n % 2 ^ 16 = a ∧ n / 2 ^ 16 % 2 ^ 24 = b ∧ n / 2 ^ 40 % 2 ^ 8 = 0x89 ∧ n / 2 ^ 48 % 2 ^ 4 = d ∧
      n / 2 ^ 56 % 2 ^ 8 = e := by
  omega

/-- The processor reads back what was put in, and finds the segment available. -/
theorem tssDescriptor_fields (base limit : UInt64) (hlimit : limit.toNat < 2 ^ 20) :
    tssBase (tssDescriptor base limit).1 (tssDescriptor base limit).2 = base ∧
      tssLimit (tssDescriptor base limit).1 = limit.toNat ∧
      availableTss (tssDescriptor base limit).1 = true := by
  have hhigh : (tssDescriptor base limit).2.toNat = base.toNat / 2 ^ 32 := by
    show (base >>> 32).toNat = _
    rw [UInt64.toNat_shiftRight, Nat.shiftRight_eq_div_pow]
    rfl
  have hbase : base.toNat % 2 ^ 24 + 2 ^ 24 * (base.toNat / 2 ^ 24 % 2 ^ 8) +
      2 ^ 32 * (base.toNat / 2 ^ 32 % 2 ^ 32) = base.toNat := by
    have hlt := base.toNat_lt
    rw [show 2 ^ 32 = 2 ^ 24 * 2 ^ 8 from rfl, ← Nat.div_div_eq_div_mul]
    omega
  obtain ⟨h0, h16, h40, h48, h56⟩ := tssFields (Nat.mod_lt _ (by decide)) (Nat.mod_lt _ (by decide))
    (Nat.mod_lt _ (by decide)) (Nat.mod_lt _ (by decide)) (toNat_tssDescriptor_low base limit)
  refine ⟨?_, ?_, ?_⟩
  · rw [← UInt64.toNat_inj, tssBase, UInt64.toNat_ofNat', h16, h56, hhigh, hbase]
    exact Nat.mod_eq_of_lt base.toNat_lt
  · rw [tssLimit, h0, h48]
    omega
  · have htype : (tssDescriptor base limit).1.toNat / 2 ^ 40 % 32 = 9 := by omega
    have hpresent : (tssDescriptor base limit).1.toNat.testBit 47 = true := by
      rw [Nat.testBit_eq_decide_div_mod_eq, decide_eq_true_eq]
      omega
    rw [availableTss, htype, hpresent]
    rfl

/-! ## The arrays -/

/-- Where the linker put the three arrays. -/
structure Statics where
  gdts : UInt64
  tsss : UInt64
  ists : UInt64
  gdts_end : gdts.toNat + MAX_CPUS * 48 < 2 ^ 64
  tsss_end : tsss.toNat + MAX_CPUS * TSS_BYTES < 2 ^ 64
  ists_end : ists.toNat + MAX_CPUS * IST_BYTES < 2 ^ 64
  ists_aligned : ists.toNat % 16 = 0
  gdts_tsss : gdts.toNat + MAX_CPUS * 48 ≤ tsss.toNat ∨ tsss.toNat + MAX_CPUS * TSS_BYTES ≤ gdts.toNat
  gdts_ists : gdts.toNat + MAX_CPUS * 48 ≤ ists.toNat ∨ ists.toNat + MAX_CPUS * IST_BYTES ≤ gdts.toNat
  tsss_ists : tsss.toNat + MAX_CPUS * TSS_BYTES ≤ ists.toNat ∨
    ists.toNat + MAX_CPUS * IST_BYTES ≤ tsss.toNat

namespace Statics

variable (at_ : Statics)

/-- `gdts.add(cpu)`; the array's elements are 16-byte aligned. -/
def gdt (cpu : Nat) : UInt64 := at_.gdts + UInt64.ofNat (cpu * 48)

/-- `tsss.add(cpu)`. -/
def tss (cpu : Nat) : UInt64 := at_.tsss + UInt64.ofNat (cpu * TSS_BYTES)

def istTop (cpu : Nat) : UInt64 := at_.ists + UInt64.ofNat (cpu * IST_BYTES) + UInt64.ofNat IST_BYTES

end Statics

/-- The loop body of `init`. -/
def initCpu (at_ : Statics) (m : Memory) (cpu : Nat) : Memory :=
  let m := m.write (at_.tss cpu).toNat (Tss.bytes
    { reserved0 := 0, rsp0 := 0, rsp1 := 0, rsp2 := 0, reserved1 := 0
      ist := #v[at_.istTop cpu, 0, 0, 0, 0, 0, 0]
      reserved2 := 0, reserved3 := 0, iomapBase := UInt16.ofNat TSS_BYTES })
  let tssDesc := tssDescriptor (at_.tss cpu) (UInt64.ofNat (TSS_BYTES - 1))
  m.write (at_.gdt cpu).toNat (Memory.wordBytes [0, KERNEL_CODE, KERNEL_DATA, tssDesc.1, tssDesc.2])

def init (at_ : Statics) (m : Memory) : Memory := (List.range MAX_CPUS).foldl (initCpu at_) m

/-- How `load` can fail: its own check, or a fault of the processor. -/
inductive Stop where
  | err (error : String)
  | fault
  deriving DecidableEq, Repr

/-- The code of `load` after `lgdt`: the segments and the task register from the new table. -/
def reload (s : Core) : Except Stop Core :=
  if (s.descriptor KERNEL_CS).any codeSegment = true ∧
      (s.descriptor KERNEL_DS).any dataSegment = true then
    match ({ s with cs := KERNEL_CS, ss := KERNEL_DS }).ltr KERNEL_TSS with
    | some s => .ok s
    | none => .error .fault
  else .error .fault

def load (at_ : Statics) (cpuId : Nat) (s : Core) : Except Stop Core :=
  if cpuId ≥ MAX_CPUS then .error (.err "cpu id exceeds per-CPU GDT slots")
  else reload { s with gdtr := ⟨UInt16.ofNat (GDT_LEN * 8 - 1), at_.gdt cpuId⟩ }

/-- CPUs that load their slots one after another over the same memory. -/
def loadAll (at_ : Statics) (m : Memory) : List (Nat × Core) → Except Stop (Memory × List Core)
  | [] => .ok (m, [])
  | (cpuId, s) :: rest => do
    let s ← load at_ cpuId (s.withMem m)
    let (m, loaded) ← loadAll at_ s.mem rest
    return (m, s :: loaded)

/-! ## What the arrays hold -/

section

variable {at_ : Statics} {m m' : Memory} {cpu j : Nat} {busy : Bool} {s : Core}

theorem toNat_add_ofNat {x : UInt64} {n : Nat} (h : x.toNat + n < 2 ^ 64) :
    (x + UInt64.ofNat n).toNat = x.toNat + n := by
  rw [UInt64.toNat_add, UInt64.toNat_ofNat']
  omega

theorem Statics.toNat_gdt (h : cpu < MAX_CPUS) : (at_.gdt cpu).toNat = at_.gdts.toNat + cpu * 48 := by
  have := at_.gdts_end
  unfold MAX_CPUS at *
  exact toNat_add_ofNat (by omega)

theorem Statics.toNat_tss (h : cpu < MAX_CPUS) : (at_.tss cpu).toNat = at_.tsss.toNat + cpu * 104 := by
  have := at_.tsss_end
  unfold MAX_CPUS TSS_BYTES at *
  exact toNat_add_ofNat (by unfold TSS_BYTES; omega)

theorem Statics.toNat_istTop (h : cpu < MAX_CPUS) :
    (at_.istTop cpu).toNat = at_.ists.toNat + (cpu + 1) * 16384 := by
  have hend := at_.ists_end
  have hbytes : IST_BYTES = 16384 := rfl
  have hslot : (at_.ists + UInt64.ofNat (cpu * IST_BYTES)).toNat = at_.ists.toNat + cpu * 16384 := by
    unfold MAX_CPUS at *
    rw [toNat_add_ofNat (by rw [hbytes]; omega), hbytes]
  unfold MAX_CPUS at *
  rw [istTop, toNat_add_ofNat (by omega), hslot]
  omega

/-- The two words of a CPU's task segment descriptor. -/
def Statics.tssWords (at_ : Statics) (cpu : Nat) (busy : Bool) : List UInt64 :=
  let tssDesc := tssDescriptor (at_.tss cpu) (UInt64.ofNat (TSS_BYTES - 1))
  [if busy then tssDesc.1 ||| BUSY else tssDesc.1, tssDesc.2]

/-- One CPU's table and the first fault stack of its task segment. -/
structure Slot (at_ : Statics) (cpu : Nat) (busy : Bool) (m : Memory) : Prop where
  gdt : m.words (at_.gdt cpu).toNat 5 = [0, KERNEL_CODE, KERNEL_DATA] ++ at_.tssWords cpu busy
  ist : m.readU64 ((at_.tss cpu).toNat + 36) = at_.istTop cpu

theorem Slot.congr (h : Slot at_ cpu busy m)
    (hgdt : ∀ i, (at_.gdt cpu).toNat ≤ i → i < (at_.gdt cpu).toNat + 40 → m i = m' i)
    (htss : ∀ i, (at_.tss cpu).toNat ≤ i → i < (at_.tss cpu).toNat + 104 → m i = m' i) :
    Slot at_ cpu busy m' where
  gdt := by rw [← h.gdt, Memory.words_congr fun i h1 h2 => hgdt i h1 (by omega)]
  ist := by rw [← h.ist, Memory.readU64_congr fun i h1 h2 => htss i (by omega) (by omega)]

/-- The loop body writes one task segment and one table. -/
theorem initCpu_of_outside {i : Nat} (htss : i < (at_.tss cpu).toNat ∨ (at_.tss cpu).toNat + 104 ≤ i)
    (hgdt : i < (at_.gdt cpu).toNat ∨ (at_.gdt cpu).toNat + 40 ≤ i) : initCpu at_ m cpu i = m i := by
  have hframe : ∀ {m : Memory} {a : Nat} {bs : List UInt8}, i < a ∨ a + bs.length ≤ i →
      m.write a bs i = m i := fun h => h.elim Memory.write_of_lt Memory.write_of_ge
  rw [initCpu, hframe (by rw [Memory.length_wordBytes]; exact hgdt),
    hframe (by rw [Tss.length_bytes]; exact htss)]

theorem Tss.readU64_ist (tss : Tss) {a : Nat} : (m.write a tss.bytes).readU64 (a + 36) = tss.ist[0] := by
  have hsplit : tss.bytes = (leBytes 4 tss.reserved0.toNat ++
      Memory.wordBytes [tss.rsp0, tss.rsp1, tss.rsp2, tss.reserved1]) ++ leBytes 8 tss.ist[0].toNat ++
      (Memory.wordBytes tss.ist.toList.tail ++ leBytes 8 tss.reserved2.toNat ++
        leBytes 2 tss.reserved3.toNat ++ leBytes 2 tss.iomapBase.toNat) := by
    have hist : tss.ist.toList = tss.ist[0] :: tss.ist.toList.tail := by
      rw [← Vector.getElem_toList (by simp), List.getElem_zero, List.cons_head_tail]
    rw [Tss.bytes, hist]
    simp [Memory.wordBytes]
  have hlen : (leBytes 4 tss.reserved0.toNat ++
      Memory.wordBytes [tss.rsp0, tss.rsp1, tss.rsp2, tss.reserved1]).length = 36 := by simp
  rw [hsplit, ← hlen, Memory.readU64_write_mid]

theorem initCpu_slot (h : cpu < MAX_CPUS) : Slot at_ cpu false (initCpu at_ m cpu) where
  gdt := Memory.words_write [0, KERNEL_CODE, KERNEL_DATA, _, _]
  ist := by
    have hgdt := at_.toNat_gdt h
    have htss := at_.toNat_tss h
    have hapart := at_.gdts_tsss
    unfold MAX_CPUS TSS_BYTES at *
    rw [initCpu, Memory.readU64_congr fun i h1 h2 => by
      rcases hapart with hapart | hapart
      · exact Memory.write_of_ge (by rw [Memory.length_wordBytes]; simp only [List.length_cons, List.length_nil]; omega)
      · exact Memory.write_of_lt (by omega)]
    exact Tss.readU64_ist _

theorem Slot.initCpu (hslot : Slot at_ j busy m) (hj : j < MAX_CPUS) (h : cpu < MAX_CPUS) (hne : j ≠ cpu) :
    Slot at_ j busy (initCpu at_ m cpu) := by
  have hgdt := at_.toNat_gdt h
  have htss := at_.toNat_tss h
  have hgdt' := at_.toNat_gdt hj
  have htss' := at_.toNat_tss hj
  have hapart := at_.gdts_tsss
  unfold MAX_CPUS TSS_BYTES at *
  apply hslot.congr
  · intro i h1 h2
    rw [initCpu_of_outside (by omega) (by omega)]
  · intro i h1 h2
    rw [initCpu_of_outside (by omega) (by omega)]

/-- All arrays filled; the CPUs in `loaded` have marked their segments busy. -/
def Filled (at_ : Statics) (loaded : List Nat) (m : Memory) : Prop :=
  ∀ cpu, cpu < MAX_CPUS → Slot at_ cpu (decide (cpu ∈ loaded)) m

theorem filled_init : Filled at_ [] (init at_ m) := by
  have hloop : ∀ n, n ≤ MAX_CPUS → ∀ cpu, cpu < n →
      Slot at_ cpu false ((List.range n).foldl (initCpu at_) m) := by
    intro n
    induction n with
    | zero => intro _ cpu hcpu; omega
    | succ n ih =>
      intro hn cpu hcpu
      rw [List.range_succ, List.foldl_append, List.foldl_cons, List.foldl_nil]
      by_cases heq : cpu = n
      · subst heq
        exact initCpu_slot (by omega)
      · exact (ih (by omega) cpu (by omega)).initCpu (by omega) (by omega) heq
  intro cpu hcpu
  exact hloop MAX_CPUS (Nat.le_refl _) cpu hcpu

/-! ## Loading -/

theorem Slot.fields (h : Slot at_ cpu busy m) :
    m.readU64 ((at_.gdt cpu).toNat + 8) = KERNEL_CODE ∧
      m.readU64 ((at_.gdt cpu).toNat + 16) = KERNEL_DATA ∧
      [m.readU64 ((at_.gdt cpu).toNat + 24), m.readU64 ((at_.gdt cpu).toNat + 32)] =
        at_.tssWords cpu busy := by
  have hgdt := h.gdt
  simp only [Memory.words, Nat.add_assoc, Nat.reduceAdd, List.cons_append, List.cons.injEq,
    List.nil_append] at hgdt
  exact ⟨hgdt.2.1, hgdt.2.2.1, hgdt.2.2.2⟩

/-- A descriptor with the busy bit is not available. -/
theorem availableTss_busy {low : UInt64} (h : availableTss low = true) :
    availableTss (low ||| BUSY) = false := by
  have htype : low.toNat / 2 ^ 40 % 32 = 9 := by
    rw [availableTss, Bool.and_eq_true] at h
    exact beq_iff_eq.1 h.1
  have hbusy : (low ||| BUSY).toNat = low.toNat + 2 ^ 41 := by
    rw [UInt64.toNat_or, show BUSY.toNat = 2 ^ 41 from rfl, lor_bit (by omega)]
  have hnew : (low ||| BUSY).toNat / 2 ^ 40 % 32 = 11 := by omega
  rw [availableTss, hnew]
  rfl

/-- What `load` leaves of a core whose segment was available. -/
def loaded (at_ : Statics) (cpu : Nat) (s : Core) : Core :=
  { s with
    gdtr := ⟨UInt16.ofNat (GDT_LEN * 8 - 1), at_.gdt cpu⟩
    cs := KERNEL_CS
    ss := KERNEL_DS
    tr := at_.tss cpu
    mem := s.mem.writeU64 ((at_.gdt cpu).toNat + 24)
      ((tssDescriptor (at_.tss cpu) (UInt64.ofNat (TSS_BYTES - 1))).1 ||| BUSY) }

/-- The core when `load` has reloaded its segments. -/
def segmented (at_ : Statics) (cpu : Nat) (s : Core) : Core :=
  { s with
    gdtr := ⟨UInt16.ofNat (GDT_LEN * 8 - 1), at_.gdt cpu⟩
    cs := KERNEL_CS
    ss := KERNEL_DS }

theorem Slot.descriptors (h : Slot at_ cpu busy s.mem)
    (hgdtr : s.gdtr = ⟨UInt16.ofNat (GDT_LEN * 8 - 1), at_.gdt cpu⟩) :
    s.descriptor KERNEL_CS = some KERNEL_CODE ∧ s.descriptor KERNEL_DS = some KERNEL_DATA := by
  obtain ⟨hcode, hdata, -⟩ := h.fields
  rw [Core.descriptor, Core.descriptor, hgdtr]
  exact ⟨congrArg some hcode, congrArg some hdata⟩

/-- `load` up to `ltr`: the selectors name the segments they should. -/
theorem Slot.load_eq (h : Slot at_ cpu busy s.mem) (hcpu : cpu < MAX_CPUS) :
    load at_ cpu s =
      match (segmented at_ cpu s).ltr KERNEL_TSS with
      | some s => .ok s
      | none => .error .fault := by
  obtain ⟨hcs, hds⟩ := Slot.descriptors
    (s := { s with gdtr := ⟨UInt16.ofNat (GDT_LEN * 8 - 1), at_.gdt cpu⟩ }) h rfl
  have hcode' : codeSegment KERNEL_CODE = true := by decide
  have hdata' : dataSegment KERNEL_DATA = true := by decide
  rw [load, if_neg (by omega)]
  exact if_pos ⟨by rw [hcs]; exact hcode', by rw [hds]; exact hdata'⟩

theorem Slot.load_ok (h : Slot at_ cpu false s.mem) (hcpu : cpu < MAX_CPUS) :
    load at_ cpu s = .ok (loaded at_ cpu s) := by
  obtain ⟨-, -, htss⟩ := h.fields
  obtain ⟨hbase, -, havail⟩ := tssDescriptor_fields (at_.tss cpu) (UInt64.ofNat (TSS_BYTES - 1)) (by decide)
  simp only [Statics.tssWords, Bool.false_eq_true, if_false, List.cons.injEq, and_true] at htss
  have hltr : (segmented at_ cpu s).ltr KERNEL_TSS = some (loaded at_ cpu s) := by
    show (if 24 + 15 ≤ 39 ∧ availableTss (s.mem.readU64 ((at_.gdt cpu).toNat + 24)) = true then
      some { segmented at_ cpu s with
        tr := tssBase (s.mem.readU64 ((at_.gdt cpu).toNat + 24)) (s.mem.readU64 ((at_.gdt cpu).toNat + 32))
        mem := s.mem.writeU64 ((at_.gdt cpu).toNat + 24)
          (s.mem.readU64 ((at_.gdt cpu).toNat + 24) ||| BUSY) } else none) = _
    rw [htss.1, htss.2, hbase, if_pos ⟨by decide, havail⟩]
    rfl
  rw [h.load_eq hcpu, hltr]

/-- A second `ltr` of the same segment faults. -/
theorem Slot.load_again (h : Slot at_ cpu true s.mem) (hcpu : cpu < MAX_CPUS) :
    load at_ cpu s = .error .fault := by
  obtain ⟨-, -, htss⟩ := h.fields
  obtain ⟨-, -, havail⟩ := tssDescriptor_fields (at_.tss cpu) (UInt64.ofNat (TSS_BYTES - 1)) (by decide)
  simp only [Statics.tssWords, if_true, List.cons.injEq, and_true] at htss
  have hltr : (segmented at_ cpu s).ltr KERNEL_TSS = none := by
    apply if_neg
    show ¬ (24 + 15 ≤ 39 ∧ availableTss (s.mem.readU64 ((at_.gdt cpu).toNat + 24)) = true)
    rw [htss.1, availableTss_busy havail]
    simp
  rw [h.load_eq hcpu, hltr]

/-- A load marks its own segment and touches no other. -/
theorem Filled.loaded {done : List Nat} (h : Filled at_ done s.mem) (hcpu : cpu < MAX_CPUS)
    (hnew : cpu ∉ done) : Filled at_ (cpu :: done) (loaded at_ cpu s).mem := by
  intro j hj
  have hgdt := at_.toNat_gdt hcpu
  have hgdt' := at_.toNat_gdt hj
  have htss' := at_.toNat_tss hj
  have hapart := at_.gdts_tsss
  unfold MAX_CPUS TSS_BYTES at *
  by_cases heq : j = cpu
  · subst heq
    have hslot := h j hj
    have hbusy : decide (j ∈ j :: done) = true := by simp
    rw [hbusy]
    simp only [hnew, decide_false] at hslot
    obtain ⟨hcode, hdata, htss⟩ := hslot.fields
    simp only [Statics.tssWords, Bool.false_eq_true, if_false, List.cons.injEq, and_true] at htss
    have hnull : s.mem.readU64 (at_.gdt j).toNat = 0 := (List.cons.inj hslot.gdt).1
    constructor
    · simp only [Memory.words, Gdt.loaded, Nat.add_assoc, Nat.reduceAdd]
      rw [Memory.readU64_writeU64_of_disjoint (by omega), Memory.readU64_writeU64_of_disjoint (by omega),
        Memory.readU64_writeU64_of_disjoint (by omega), Memory.readU64_writeU64_self,
        Memory.readU64_writeU64_of_disjoint (by omega), hnull, hcode, hdata, htss.2]
      rfl
    · show (s.mem.writeU64 _ _).readU64 _ = _
      rw [Memory.readU64_writeU64_of_disjoint (by omega)]
      exact hslot.ist
  · have hsame : decide (j ∈ cpu :: done) = decide (j ∈ done) := by simp [heq]
    rw [hsame]
    apply (h j hj).congr
    · intro i h1 h2
      exact (Memory.writeU64_of_disjoint (by omega)).symm
    · intro i h1 h2
      exact (Memory.writeU64_of_disjoint (by omega)).symm

/-- The loads of a row that meets no busy segment. -/
theorem loadAll_of_nodup {xs : List (Nat × Core)} {done : List Nat} (h : Filled at_ done m)
    (hnodup : (xs.map Prod.fst).Nodup) (hlt : ∀ x ∈ xs, x.1 < MAX_CPUS) (hnew : ∀ x ∈ xs, x.1 ∉ done) :
    ∃ m' cores, loadAll at_ m xs = .ok (m', cores) ∧
      Filled at_ ((xs.map Prod.fst).reverse ++ done) m' ∧
      List.Forall₂ (fun x s => x.1 < MAX_CPUS ∧ ∃ m, s = loaded at_ x.1 (x.2.withMem m)) xs cores := by
  induction xs generalizing m done with
  | nil => exact ⟨m, [], rfl, h, .nil⟩
  | cons x xs ih =>
    obtain ⟨cpu, s⟩ := x
    rw [List.map_cons, List.nodup_cons] at hnodup
    have hcpu : cpu < MAX_CPUS := hlt _ List.mem_cons_self
    have hfree : cpu ∉ done := hnew _ List.mem_cons_self
    have hslot : Slot at_ cpu false m := by simpa [hfree] using h cpu hcpu
    have hload := Slot.load_ok (s := s.withMem m) hslot hcpu
    have hnext : ∀ y ∈ xs, y.1 ∉ cpu :: done := by
      intro y hy hmem
      rcases List.mem_cons.1 hmem with heq | hmem
      · exact hnodup.1 (List.mem_map.2 ⟨y, hy, heq⟩)
      · exact hnew y (List.mem_cons_of_mem _ hy) hmem
    obtain ⟨m', cores, hrest, hfilled, hall⟩ := ih (Filled.loaded (s := s.withMem m) h hcpu hfree)
      hnodup.2 (fun y hy => hlt y (List.mem_cons_of_mem _ hy)) hnext
    have hrow : (((cpu, s) :: xs).map Prod.fst).reverse ++ done =
        (xs.map Prod.fst).reverse ++ (cpu :: done) := by
      simp
    rw [← hrow] at hfilled
    refine ⟨m', loaded at_ cpu (s.withMem m) :: cores, ?_, hfilled, .cons ⟨hcpu, m, rfl⟩ hall⟩
    rw [loadAll, hload]
    show (loadAll at_ (loaded at_ cpu (s.withMem m)).mem xs >>= _) = _
    rw [hrest]
    rfl

/-- A row of loads that goes through met no busy segment. -/
theorem nodup_of_loadAll {xs : List (Nat × Core)} {done : List Nat} {r : Memory × List Core}
    (h : Filled at_ done m) (hok : loadAll at_ m xs = .ok r) :
    (xs.map Prod.fst).Nodup ∧ (∀ x ∈ xs, x.1 < MAX_CPUS) ∧ ∀ x ∈ xs, x.1 ∉ done := by
  induction xs generalizing m done r with
  | nil => simp
  | cons x xs ih =>
    obtain ⟨cpu, s⟩ := x
    rw [loadAll] at hok
    by_cases hcpu : cpu < MAX_CPUS
    · by_cases hfree : cpu ∈ done
      · have hslot : Slot at_ cpu true m := by simpa [hfree] using h cpu hcpu
        rw [Slot.load_again (s := s.withMem m) hslot hcpu] at hok
        cases hok
      · have hslot : Slot at_ cpu false m := by simpa [hfree] using h cpu hcpu
        rw [Slot.load_ok (s := s.withMem m) hslot hcpu] at hok
        have hfilled := Filled.loaded (s := s.withMem m) h hcpu hfree
        change (loadAll at_ (loaded at_ cpu (s.withMem m)).mem xs >>= _) = _ at hok
        cases hrest : loadAll at_ (loaded at_ cpu (s.withMem m)).mem xs with
        | error e => rw [hrest] at hok; cases hok
        | ok r' =>
          obtain ⟨hnodup, hlt, hnew⟩ := ih hfilled hrest
          have hcpu' : cpu ∉ xs.map Prod.fst := by
            intro hmem
            obtain ⟨y, hy, heq⟩ := List.mem_map.1 hmem
            exact hnew y hy (heq ▸ List.mem_cons_self)
          refine ⟨List.nodup_cons.2 ⟨hcpu', hnodup⟩, ?_, ?_⟩
          · simpa using ⟨hcpu, fun a b hab => hlt (a, b) hab⟩
          · simpa using ⟨hfree, fun a b hab hmem => hnew (a, b) hab (List.mem_cons_of_mem _ hmem)⟩
    · rw [load, if_pos (by omega)] at hok
      cases hok

/-- Whatever CPUs run `load` after one `init`, in whatever order: it goes through for all of them
exactly if their slots are distinct and in range, and then every one has its own task segment,
whose fault stack is its own.  Whoever loads one of these slots after that faults, its segment being
busy. -/
theorem loadAll_init (at_ : Statics) (m : Memory) (xs : List (Nat × Core)) :
    ((∃ r, loadAll at_ (init at_ m) xs = .ok r) ↔
        (xs.map Prod.fst).Nodup ∧ ∀ x ∈ xs, x.1 < MAX_CPUS) ∧
      ∀ m' cores, loadAll at_ (init at_ m) xs = .ok (m', cores) →
        List.Forall₂ (fun x s => s.tr = at_.tss x.1 ∧
          (s.withMem m').gateStack 1 = at_.istTop x.1 ∧
          (s.withMem m').descriptor s.cs = some KERNEL_CODE ∧
          (s.withMem m').descriptor s.ss = some KERNEL_DATA) xs cores ∧
        ∀ x ∈ xs, ∀ s : Core, load at_ x.1 (s.withMem m') = .error .fault := by
  have hstart : Filled at_ [] (init at_ m) := filled_init
  refine ⟨⟨fun ⟨r, hr⟩ => ?_, fun ⟨hnodup, hlt⟩ => ?_⟩, fun m' cores hok => ?_⟩
  · obtain ⟨hnodup, hlt, -⟩ := nodup_of_loadAll hstart hr
    exact ⟨hnodup, hlt⟩
  · obtain ⟨m', cores, hok, -⟩ := loadAll_of_nodup hstart hnodup hlt (by simp)
    exact ⟨_, hok⟩
  · obtain ⟨hnodup, hlt, -⟩ := nodup_of_loadAll hstart hok
    obtain ⟨m'', cores', hok', hfilled, hall⟩ := loadAll_of_nodup hstart hnodup hlt (by simp)
    obtain ⟨rfl, rfl⟩ : m'' = m' ∧ cores' = cores := by
      rw [hok] at hok'
      simpa [eq_comm] using hok'
    constructor
    · apply hall.imp
      rintro ⟨cpu, s⟩ core ⟨hcpu, m₀, rfl⟩
      exact ⟨rfl, (hfilled cpu hcpu).ist, Slot.descriptors (hfilled cpu hcpu) rfl⟩
    · intro x hx s
      have hbusy : x.1 ∈ (xs.map Prod.fst).reverse ++ [] := by simpa using ⟨x.2, hx⟩
      have hslot := hfilled x.1 (hlt x hx)
      rw [decide_eq_true hbusy] at hslot
      exact Slot.load_again (s := s.withMem m'') hslot (hlt x hx)

end

end Gdt

end RootCourt

end CourtKernel
