import CourtKernel.RootCourt.Gdt

/-!
# The interrupt path

Reference model of `crates/root-court/src/idt.rs` and of the 256 thunks of
`crates/root-court/src/idt_stubs.s`: the gates that `init` writes, the thunk of each vector, the
common entry and exit code, and `isr_dispatch`.

The thunks differ only in their number and in whether they push a zero for the error code, so they
are one definition of the vector.  `jmp isr_common` is the common code written after the thunk.
The counters and the writes to the end-of-interrupt register are kept beside memory, in `Irq`.

* `gate_read`, `gates_loop` — the processor finds, in every entry of the table that `init` filled,
  the thunk of that vector, the kernel's code segment, and the fault stack for vector 8 only.
* `InterruptFrame.read_words` — the structure that `isr_dispatch` is given, over the words pushed.
* `Compiled` — what is assumed of the compiled `isr_dispatch`: it does what the source says, from an
  aligned stack, and keeps to the calling convention.
-/

namespace CourtKernel

open X86

namespace Memory

/-- A part of what was written, by its place. -/
theorem read_write_part {m : Memory} {a i n : Nat} {b p q r : List UInt8} (h : b = p ++ q ++ r)
    (hi : p.length = i) (hn : q.length = n) : (m.write a b).read (a + i) n = q := by
  subst h hi hn
  exact read_write_mid

end Memory

namespace RootCourt

namespace Idt

def TIMER_VECTOR : UInt8 := 0x20
def IPI_VECTOR : UInt8 := 0x30
def SPURIOUS_VECTOR : UInt8 := 0xFF

def STUB_STRIDE : UInt64 := 16

/-- The address of a thunk, from where the linker put the first. -/
def stub (isrStubTable : UInt64) (vec : UInt8) : UInt64 := isrStubTable + vec.toUInt64 * STUB_STRIDE

structure IdtEntry where
  offsetLow : UInt16
  selector : UInt16
  ist : UInt8
  flags : UInt8
  offsetMid : UInt16
  offsetHigh : UInt32
  reserved : UInt32
  deriving DecidableEq, Repr

def IdtEntry.gate (offset : UInt64) (ist : UInt8) : IdtEntry where
  offsetLow := offset.toUInt16
  selector := KERNEL_CS
  ist := ist
  flags := 0x8E
  offsetMid := (offset >>> 16).toUInt16
  offsetHigh := (offset >>> 32).toUInt32
  reserved := 0

/-- The `repr(C, packed)` layout. -/
def IdtEntry.bytes (entry : IdtEntry) : List UInt8 :=
  leBytes 2 entry.offsetLow.toNat ++ leBytes 2 entry.selector.toNat ++ leBytes 1 entry.ist.toNat ++
    leBytes 1 entry.flags.toNat ++ leBytes 2 entry.offsetMid.toNat ++ leBytes 4 entry.offsetHigh.toNat ++
    leBytes 4 entry.reserved.toNat

/-- The stack that `init` gives a vector: the first fault stack for a double fault. -/
def istOf (vec : Nat) : UInt8 := if vec = 8 then 1 else 0

/-- `init`, but for the `load` at its end. -/
def init (isrStubTable idt : UInt64) (m : Memory) : Except String Memory :=
  if stub isrStubTable 1 - stub isrStubTable 0 ≠ STUB_STRIDE then
    .error "ISR stub stride is not 16 bytes"
  else
    .ok ((List.range 256).foldl (fun m vec => m.write (idt.toNat + 16 * vec)
      (IdtEntry.gate (stub isrStubTable (UInt8.ofNat vec)) (istOf vec)).bytes) m)

/-- `lidt` of the table that `init` filled. -/
def load (idt : UInt64) (s : Core) : Core := { s with idtr := ⟨UInt16.ofNat (256 * 16 - 1), idt⟩ }

/-! ## Thunks and common code -/

/-- The vectors whose thunks leave the error code to the processor. -/
def ERROR_VECTORS : List Nat := [8, 10, 11, 12, 13, 14, 17, 21]

/-- The thunk of a vector, up to its jump. -/
def isrStub (vec : Nat) : List Instr :=
  if vec ∈ ERROR_VECTORS then [.pushImm (UInt64.ofNat vec)]
  else [.pushImm 0, .pushImm (UInt64.ofNat vec)]

def pushed : List Reg :=
  [.rax, .rbx, .rcx, .rdx, .rsi, .rdi, .rbp, .r8, .r9, .r10, .r11, .r12, .r13, .r14, .r15]

def popped : List Reg :=
  [.r15, .r14, .r13, .r12, .r11, .r10, .r9, .r8, .rbp, .rdi, .rsi, .rdx, .rcx, .rbx, .rax]

/-- `isr_common` up to its call. -/
def isrEntry : List Instr :=
  pushed.map .push ++ [.cld, .mov .rdi .rsp, .mov .rbp .rsp, .andImm .rsp (-16)]

/-- `isr_common` after its call. -/
def isrExit : List Instr := [.mov .rsp .rbp] ++ popped.map .pop ++ [.addImm .rsp 16, .iretq]

def isrCommon : List Instr := isrEntry ++ .call :: isrExit

/-- The code at an address among the thunks. -/
def codeAt (isrStubTable rip : UInt64) : Option (List Instr) :=
  let d := (rip - isrStubTable).toNat
  if d % 16 = 0 ∧ d / 16 < 256 then some (isrStub (d / 16) ++ isrCommon) else none

structure InterruptFrame where
  r15 : UInt64
  r14 : UInt64
  r13 : UInt64
  r12 : UInt64
  r11 : UInt64
  r10 : UInt64
  r9 : UInt64
  r8 : UInt64
  rbp : UInt64
  rdi : UInt64
  rsi : UInt64
  rdx : UInt64
  rcx : UInt64
  rbx : UInt64
  rax : UInt64
  vector : UInt64
  error : UInt64
  rip : UInt64
  cs : UInt64
  rflags : UInt64
  rsp : UInt64
  ss : UInt64
  deriving DecidableEq, Repr

/-- The structure at an address, by its `repr(C)` layout. -/
def InterruptFrame.read (m : Memory) (a : Nat) : InterruptFrame where
  r15 := m.readU64 a
  r14 := m.readU64 (a + 8)
  r13 := m.readU64 (a + 16)
  r12 := m.readU64 (a + 24)
  r11 := m.readU64 (a + 32)
  r10 := m.readU64 (a + 40)
  r9 := m.readU64 (a + 48)
  r8 := m.readU64 (a + 56)
  rbp := m.readU64 (a + 64)
  rdi := m.readU64 (a + 72)
  rsi := m.readU64 (a + 80)
  rdx := m.readU64 (a + 88)
  rcx := m.readU64 (a + 96)
  rbx := m.readU64 (a + 104)
  rax := m.readU64 (a + 112)
  vector := m.readU64 (a + 120)
  error := m.readU64 (a + 128)
  rip := m.readU64 (a + 136)
  cs := m.readU64 (a + 144)
  rflags := m.readU64 (a + 152)
  rsp := m.readU64 (a + 160)
  ss := m.readU64 (a + 168)

/-! ## Dispatch -/

/-- The counters, and how often the end of an interrupt was signalled. -/
structure Irq where
  timerTicks : UInt32
  ipiPong : UInt32
  eois : Nat
  deriving DecidableEq, Repr

/-- How an interrupt can end the machine: a fault of the processor, or the report that
`isr_dispatch` prints before it exits. -/
inductive Exit where
  | fault
  | report (line : String)
  deriving DecidableEq, Repr

/-- The format `{:#x}`. -/
def hex (n : UInt64) : String := "0x" ++ String.ofList (Nat.toDigits 16 n.toNat)

def report (frame : InterruptFrame) (cr2 : UInt64) : String :=
  "exception vec=" ++ toString frame.vector ++ " err=" ++ hex frame.error ++ " rip=" ++ hex frame.rip ++
    " cr2=" ++ hex cr2 ++ "\n"

def isrDispatch (frame : InterruptFrame) (cr2 : UInt64) (t : Irq) : Except Exit Irq :=
  if frame.vector = TIMER_VECTOR.toUInt64 then
    .ok { t with timerTicks := t.timerTicks + 1, eois := t.eois + 1 }
  else if frame.vector = IPI_VECTOR.toUInt64 then
    .ok { t with ipiPong := t.ipiPong + 1, eois := t.eois + 1 }
  else if frame.vector = SPURIOUS_VECTOR.toUInt64 then .ok t
  else .error (.report (report frame cr2))

/-- What a vector that returns counts. -/
def counted (vec : UInt8) (t : Irq) : Irq :=
  if vec = TIMER_VECTOR then { t with timerTicks := t.timerTicks + 1, eois := t.eois + 1 }
  else if vec = IPI_VECTOR then { t with ipiPong := t.ipiPong + 1, eois := t.eois + 1 }
  else t

/-- What the source asks of its compiled form.  Called with an aligned stack and `depth` bytes of it
to use, it does what `isrDispatch` says of the frame at `rdi`, and keeps to the calling
convention. -/
structure Compiled (depth : Nat) (call : Irq → Core → Except Exit (Irq × Core)) : Prop where
  returns : ∀ t t' s, (s.sp + 8) % 16 = 0 → depth ≤ s.sp →
    isrDispatch (InterruptFrame.read s.mem (s.regs .rdi).toNat) s.cr2 t = .ok t' →
      ∃ s', call t s = .ok (t', s') ∧ Abi (s.sp - depth) s s'
  exits : ∀ t e s, (s.sp + 8) % 16 = 0 → depth ≤ s.sp →
    isrDispatch (InterruptFrame.read s.mem (s.regs .rdi).toNat) s.cr2 t = .error e →
      call t s = .error e

/-- An interrupt or exception from its delivery to its return. -/
def interrupt (isrStubTable : UInt64) (env : Env Irq Exit) (vec : UInt8) (error : Option UInt64)
    (t : Irq) (s : Core) : Except Exit (Irq × Core) :=
  match s.deliver vec error with
  | none => .error .fault
  | some entered =>
    match codeAt isrStubTable entered.rip with
    | none => .error .fault
    | some code => run env code (t, entered)

/-! ## Gates -/

section

variable {m : Memory} {a : Nat}

theorem length_bytes (entry : IdtEntry) : entry.bytes.length = 16 := by
  simp [IdtEntry.bytes]

/-- The three pieces of an offset. -/
theorem offset_join (offset : UInt64) :
    UInt64.ofNat (offset.toNat % 2 ^ 16 + 2 ^ 16 * (offset.toNat / 2 ^ 16 % 2 ^ 16) +
      2 ^ 32 * (offset.toNat / 2 ^ 32 % 2 ^ 32)) = offset := by
  have hjoin : offset.toNat % 2 ^ 16 + 2 ^ 16 * (offset.toNat / 2 ^ 16 % 2 ^ 16) +
      2 ^ 32 * (offset.toNat / 2 ^ 32 % 2 ^ 32) = offset.toNat := by
    have hlt := offset.toNat_lt
    rw [show 2 ^ 32 = 2 ^ 16 * 2 ^ 16 from rfl, ← Nat.div_div_eq_div_mul]
    omega
  rw [hjoin]
  exact UInt64.ofNat_toNat

/-- The processor reads a gate as it was written. -/
theorem gate_read (offset : UInt64) {ist : UInt8} (hist : ist.toNat < 8) :
    Gate.read (m.write a (IdtEntry.gate offset ist).bytes) a = ⟨offset, KERNEL_CS, ist.toNat, 0x8E⟩ := by
  have hlow : (m.write a (IdtEntry.gate offset ist).bytes).read a 2 = leBytes 2 offset.toUInt16.toNat :=
    Memory.read_write_part (i := 0) (p := []) (by simp [IdtEntry.bytes]; rfl) rfl (by simp)
  have hsel : (m.write a (IdtEntry.gate offset ist).bytes).read (a + 2) 2 = leBytes 2 KERNEL_CS.toNat :=
    Memory.read_write_part (p := leBytes 2 offset.toUInt16.toNat)
      (by simp [IdtEntry.bytes]; rfl) (by simp) (by simp)
  have hist' : (m.write a (IdtEntry.gate offset ist).bytes).read (a + 4) 1 = leBytes 1 ist.toNat :=
    Memory.read_write_part (p := leBytes 2 offset.toUInt16.toNat ++ leBytes 2 KERNEL_CS.toNat)
      (by simp [IdtEntry.bytes]; rfl) (by simp) (by simp)
  have hflags : (m.write a (IdtEntry.gate offset ist).bytes).read (a + 5) 1 =
      leBytes 1 (0x8E : UInt8).toNat :=
    Memory.read_write_part (p := leBytes 2 offset.toUInt16.toNat ++ leBytes 2 KERNEL_CS.toNat ++
      leBytes 1 ist.toNat) (by simp [IdtEntry.bytes]; rfl) (by simp) (by simp)
  have hmid : (m.write a (IdtEntry.gate offset ist).bytes).read (a + 6) 2 =
      leBytes 2 (offset >>> 16).toUInt16.toNat :=
    Memory.read_write_part (p := leBytes 2 offset.toUInt16.toNat ++ leBytes 2 KERNEL_CS.toNat ++
      leBytes 1 ist.toNat ++ leBytes 1 (0x8E : UInt8).toNat) (by simp [IdtEntry.bytes]; rfl) (by simp) (by simp)
  have hhigh : (m.write a (IdtEntry.gate offset ist).bytes).read (a + 8) 4 =
      leBytes 4 (offset >>> 32).toUInt32.toNat :=
    Memory.read_write_part (p := leBytes 2 offset.toUInt16.toNat ++ leBytes 2 KERNEL_CS.toNat ++
      leBytes 1 ist.toNat ++ leBytes 1 (0x8E : UInt8).toNat ++ leBytes 2 (offset >>> 16).toUInt16.toNat)
      (by simp [IdtEntry.bytes]; rfl) (by simp) (by simp)
  have hlow' : offset.toUInt16.toNat = offset.toNat % 2 ^ 16 := UInt64.toNat_toUInt16 _
  have hmid' : (offset >>> 16).toUInt16.toNat = offset.toNat / 2 ^ 16 % 2 ^ 16 := by
    rw [UInt64.toNat_toUInt16, UInt64.toNat_shiftRight, Nat.shiftRight_eq_div_pow]
    rfl
  have hhigh' : (offset >>> 32).toUInt32.toNat = offset.toNat / 2 ^ 32 % 2 ^ 32 := by
    rw [UInt64.toNat_toUInt32, UInt64.toNat_shiftRight, Nat.shiftRight_eq_div_pow]
    rfl
  have hpieces : offset.toNat % 2 ^ 16 % 256 ^ 2 +
      2 ^ 16 * (offset.toNat / 2 ^ 16 % 2 ^ 16 % 256 ^ 2) +
      2 ^ 32 * (offset.toNat / 2 ^ 32 % 2 ^ 32 % 256 ^ 4) = offset.toNat % 2 ^ 16 +
      2 ^ 16 * (offset.toNat / 2 ^ 16 % 2 ^ 16) + 2 ^ 32 * (offset.toNat / 2 ^ 32 % 2 ^ 32) := by
    rw [show 256 ^ 2 = 2 ^ 16 from rfl, show 256 ^ 4 = 2 ^ 32 from rfl, Nat.mod_mod, Nat.mod_mod, Nat.mod_mod]
  rw [Gate.read, hlow, hsel, hist', hflags, hmid, hhigh]
  simp only [leVal_leBytes, hlow', hmid', hhigh', hpieces, offset_join, Gate.mk.injEq, true_and]
  refine ⟨by decide, ?_, by decide⟩
  rw [Nat.pow_one, Nat.mod_eq_of_lt ist.toNat_lt, Nat.mod_eq_of_lt hist]

/-- After `n` passes of the loop of `init` the first `n` entries are filled. -/
theorem gates_loop (isrStubTable idt : UInt64) (n : Nat) {vec : Nat} (hvec : vec < n) :
    Gate.read ((List.range n).foldl (fun m vec => m.write (idt.toNat + 16 * vec)
      (IdtEntry.gate (stub isrStubTable (UInt8.ofNat vec)) (istOf vec)).bytes) m) (idt.toNat + 16 * vec) =
      ⟨stub isrStubTable (UInt8.ofNat vec), KERNEL_CS, (istOf vec).toNat, 0x8E⟩ := by
  induction n with
  | zero => omega
  | succ n ih =>
    rw [List.range_succ, List.foldl_append, List.foldl_cons, List.foldl_nil]
    by_cases heq : vec = n
    · subst heq
      apply gate_read
      unfold istOf
      split <;> decide
    · rw [← ih (by omega)]
      apply Gate.read_congr
      intro i h1 h2
      exact Memory.write_of_lt (by omega)

/-- The structure over the 22 words of a frame. -/
theorem InterruptFrame.read_words {frame : InterruptFrame} (h : m.words a 22 =
    [frame.r15, frame.r14, frame.r13, frame.r12, frame.r11, frame.r10, frame.r9, frame.r8, frame.rbp,
      frame.rdi, frame.rsi, frame.rdx, frame.rcx, frame.rbx, frame.rax, frame.vector, frame.error,
      frame.rip, frame.cs, frame.rflags, frame.rsp, frame.ss]) : InterruptFrame.read m a = frame := by
  simp only [Memory.words, Nat.add_assoc, Nat.reduceAdd, List.cons.injEq, and_true] at h
  simp only [InterruptFrame.read, h]

end

end Idt

end RootCourt

end CourtKernel
