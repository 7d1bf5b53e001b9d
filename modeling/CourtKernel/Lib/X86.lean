import CourtKernel.Lib.Words
import Mathlib.Logic.Function.Basic

/-!
# A processor that takes interrupts

The part of an x86-64 core that interrupt entry and return go through, at one privilege level.
Straight-line code is a list of instructions; a call is whatever the environment says the callee
does.  `rip` is kept at the boundaries only: `deliver` saves it and `iretq` restores it.

* `Memory.words`, `Memory.pushes` — a stack area as a list of words; `words_pushes` reads back what
  was pushed, `pushes_of_outside` is the frame.
* `Core.pushAll_eq`, `Core.popAll_eq` — pushing and popping a list of registers in one step;
  `run_push`, `run_pop` say that this is what the code does.
* `Core.deliver` — interrupt delivery through a gate of the descriptor table, on the interrupted
  stack or on one of the task segment; `Core.iretq` — the return.
* `Core.ltr` — loading the task register, which marks the descriptor busy.
* `Abi` — what a callee leaves alone.
-/

namespace CourtKernel

namespace Memory

variable {m m' : Memory} {a b n k sp : Nat} {v : UInt64} {vs : List UInt64}

/-- The `n` words from address `a` on. -/
def words (m : Memory) : Nat → Nat → List UInt64
  | _, 0 => []
  | a, n + 1 => m.readU64 a :: words m (a + 8) n

/-- Words pushed one after another below address `sp`. -/
def pushes : Memory → Nat → List UInt64 → Memory
  | m, _, [] => m
  | m, sp, v :: vs => pushes (m.writeU64 (sp - 8) v) (sp - 8) vs

@[simp] theorem length_words : (m.words a n).length = n := by
  induction n generalizing a with
  | zero => rfl
  | succ n ih => simp [words, ih]

theorem words_add (k : Nat) : m.words a (n + k) = m.words a n ++ m.words (a + 8 * n) k := by
  induction n generalizing a with
  | zero => simp [words]
  | succ n ih =>
    rw [Nat.add_right_comm, words, words, ih, List.cons_append,
      show a + 8 + 8 * n = a + 8 * (n + 1) by omega]

theorem words_congr (h : ∀ i, a ≤ i → i < a + 8 * n → m i = m' i) : m.words a n = m'.words a n := by
  induction n generalizing a with
  | zero => rfl
  | succ n ih =>
    rw [words, words, readU64_congr fun i h1 h2 => h i h1 (by omega),
      ih fun i h1 h2 => h i (by omega) (by omega)]

/-- Pushing writes nothing but the words pushed. -/
theorem pushes_of_outside {i : Nat} (hroom : 8 * vs.length ≤ sp)
    (h : i < sp - 8 * vs.length ∨ sp ≤ i) : m.pushes sp vs i = m i := by
  induction vs generalizing m sp with
  | nil => rfl
  | cons v vs ih =>
    rw [List.length_cons] at hroom h
    rw [pushes, ih (by omega) (by omega), writeU64_of_disjoint (by omega)]

/-- What was pushed last is read first. -/
theorem words_pushes (hroom : 8 * vs.length ≤ sp) :
    (m.pushes sp vs).words (sp - 8 * vs.length) vs.length = vs.reverse := by
  induction vs generalizing m sp with
  | nil => rfl
  | cons v vs ih =>
    rw [List.length_cons] at hroom ⊢
    have htop : (pushes (m.writeU64 (sp - 8) v) (sp - 8) vs).readU64 (sp - 8) = v := by
      rw [readU64_congr fun i h1 h2 => pushes_of_outside (by omega) (by omega),
        readU64_writeU64_self]
    rw [pushes, words_add, show sp - 8 * (vs.length + 1) = sp - 8 - 8 * vs.length by omega,
      ih (by omega), List.reverse_cons, show sp - 8 - 8 * vs.length + 8 * vs.length = sp - 8 by omega,
      words, htop]
    rfl

/-- A part of what was written. -/
theorem read_write_mid {ps qs rs : List UInt8} :
    (m.write a (ps ++ qs ++ rs)).read (a + ps.length) qs.length = qs := by
  rw [← write_append, ← write_append, List.length_append,
    read_write_of_disjoint (Or.inl (by omega)), read_write_self]

/-- A word among what was written. -/
theorem readU64_write_mid {ps rs : List UInt8} :
    (m.write a (ps ++ leBytes 8 v.toNat ++ rs)).readU64 (a + ps.length) = v := by
  have hread : (m.write a (ps ++ leBytes 8 v.toNat ++ rs)).read (a + ps.length) 8 =
      leBytes 8 v.toNat := by
    have := @read_write_mid m a ps (leBytes 8 v.toNat) rs
    rwa [length_leBytes] at this
  rw [readU64, hread, leVal_leBytes, ← UInt64.toNat_inj, UInt64.toNat_ofNat']
  have := v.toNat_lt
  omega

/-- The bytes of words, in memory order. -/
def wordBytes (ws : List UInt64) : List UInt8 := ws.flatMap fun w => leBytes 8 w.toNat

@[simp] theorem length_wordBytes (ws : List UInt64) : (wordBytes ws).length = 8 * ws.length := by
  induction ws with
  | nil => rfl
  | cons w ws ih =>
    rw [wordBytes, List.flatMap_cons, ← wordBytes, List.length_append, ih, length_leBytes,
      List.length_cons]
    omega

theorem words_write (ws : List UInt64) : (m.write a (wordBytes ws)).words a ws.length = ws := by
  induction ws generalizing m a with
  | nil => rfl
  | cons w ws ih =>
    have hsplit : m.write a (wordBytes (w :: ws)) =
        (m.writeU64 a w).write (a + 8) (wordBytes ws) := by
      have happend : (m.write a (leBytes 8 w.toNat)).write (a + (leBytes 8 w.toNat).length)
          (wordBytes ws) = m.write a (leBytes 8 w.toNat ++ wordBytes ws) := write_append
      rw [length_leBytes] at happend
      rw [writeU64, happend]
      rfl
    have hhead : ((m.writeU64 a w).write (a + 8) (wordBytes ws)).readU64 a = w := by
      rw [readU64, read_write_of_disjoint (Or.inl (by omega)), ← readU64, readU64_writeU64_self]
    rw [hsplit, List.length_cons, words, hhead, ih]

end Memory

namespace X86

inductive Reg where
  | rax | rbx | rcx | rdx | rsi | rdi | rbp | rsp
  | r8 | r9 | r10 | r11 | r12 | r13 | r14 | r15
  deriving DecidableEq, Repr

/-- The operand of `lgdt` and `lidt`. -/
structure TablePtr where
  limit : UInt16
  base : UInt64
  deriving DecidableEq, Repr

/-- A core and the memory it sees. -/
structure Core where
  regs : Reg → UInt64
  rip : UInt64
  rflags : UInt64
  cs : UInt16
  ss : UInt16
  cr2 : UInt64
  gdtr : TablePtr
  idtr : TablePtr
  /-- The address of the current task segment. -/
  tr : UInt64
  mem : Memory

namespace Core

variable {s : Core} {r : Reg} {rs : List Reg} {v : UInt64} {vs : List UInt64}

/-- The core when other cores have left memory `m`. -/
def withMem (s : Core) (m : Memory) : Core := { s with mem := m }

/-- The stack pointer as an address. -/
def sp (s : Core) : Nat := (s.regs .rsp).toNat

def set (s : Core) (r : Reg) (v : UInt64) : Core := { s with regs := Function.update s.regs r v }

/-- Continue at another place. -/
def jump (s : Core) (rip : UInt64) (cs : UInt16) (rflags : UInt64) : Core :=
  { s with rip := rip, cs := cs, rflags := rflags }

def push (s : Core) (v : UInt64) : Core :=
  { s with
    regs := Function.update s.regs .rsp (s.regs .rsp - 8)
    mem := s.mem.writeU64 (s.regs .rsp - 8).toNat v }

def pop (s : Core) (r : Reg) : Core :=
  (s.set .rsp (s.regs .rsp + 8)).set r (s.mem.readU64 s.sp)

def pushAll (s : Core) (vs : List UInt64) : Core := vs.foldl push s

def popAll (s : Core) (rs : List Reg) : Core := rs.foldl pop s

theorem sub_eight {x : UInt64} (h : 8 ≤ x.toNat) : x - 8 = UInt64.ofNat (x.toNat - 8) := by
  have hle : (8 : UInt64) ≤ x := UInt64.le_iff_toNat_le.2 h
  rw [← UInt64.toNat_inj, UInt64.toNat_sub_of_le _ _ hle, UInt64.toNat_ofNat']
  have := x.toNat_lt
  have : (8 : UInt64).toNat = 8 := rfl
  omega

theorem toNat_ofNat_sub (x : UInt64) (n : Nat) : (UInt64.ofNat (x.toNat - n)).toNat = x.toNat - n := by
  have := x.toNat_lt
  rw [UInt64.toNat_ofNat']
  omega

theorem toNat_add_eight {x : UInt64} (h : x.toNat + 8 < 2 ^ 64) : (x + 8).toNat = x.toNat + 8 := by
  have : (8 : UInt64).toNat = 8 := rfl
  rw [UInt64.toNat_add]
  omega

/-- Pushing a list of words moves the stack pointer and writes the words below it. -/
theorem pushAll_eq (hroom : 8 * vs.length ≤ s.sp) :
    s.pushAll vs =
      { s with
        regs := Function.update s.regs .rsp (UInt64.ofNat (s.sp - 8 * vs.length))
        mem := s.mem.pushes s.sp vs } := by
  induction vs generalizing s with
  | nil => simp [pushAll, sp, Memory.pushes]
  | cons v vs ih =>
    have h8 : (s.regs .rsp - 8).toNat = s.sp - 8 := by
      rw [sub_eight (by unfold sp at hroom; simp at hroom; omega), toNat_ofNat_sub]
      rfl
    have hsp : (s.push v).sp = s.sp - 8 := by simp [sp, push, h8]
    rw [List.length_cons] at hroom ⊢
    rw [pushAll, List.foldl_cons, ← pushAll, ih (by omega), hsp, Memory.pushes,
      show s.sp - 8 * (vs.length + 1) = s.sp - 8 - 8 * vs.length by omega]
    simp [push, h8]

theorem pushAll_append (vs ws : List UInt64) : s.pushAll (vs ++ ws) = (s.pushAll vs).pushAll ws :=
  List.foldl_append

theorem pushAll_regs_of_ne (hr : r ≠ .rsp) : (s.pushAll vs).regs r = s.regs r := by
  induction vs generalizing s with
  | nil => rfl
  | cons v vs ih =>
    rw [pushAll, List.foldl_cons, ← pushAll, ih]
    exact Function.update_of_ne hr _ _

/-- Pushing neither reads nor changes where the core is. -/
theorem pushAll_jump (rip rflags : UInt64) (cs : UInt16) :
    (s.jump rip cs rflags).pushAll vs = (s.pushAll vs).jump rip cs rflags := by
  induction vs generalizing s with
  | nil => rfl
  | cons v vs ih => exact ih (s := s.push v)

/-- Popping a list of registers off words that hold `f` of them gives each register `f` of it. -/
theorem popAll_eq {f : Reg → UInt64} (hrsp : .rsp ∉ rs) (hroom : s.sp + 8 * rs.length < 2 ^ 64)
    (hwords : s.mem.words s.sp rs.length = rs.map f) :
    s.popAll rs =
      { s with
        regs := fun r => if r ∈ rs then f r else
          Function.update s.regs .rsp (UInt64.ofNat (s.sp + 8 * rs.length)) r } := by
  induction rs generalizing s with
  | nil => simp [popAll, sp]
  | cons r rs ih =>
    obtain ⟨hr, hrs⟩ : Reg.rsp ≠ r ∧ .rsp ∉ rs := by simpa using hrsp
    rw [List.length_cons] at hroom hwords ⊢
    rw [Memory.words, List.map_cons, List.cons.injEq] at hwords
    have hpop : s.pop r = (s.set .rsp (s.regs .rsp + 8)).set r (f r) := by rw [pop, hwords.1]
    have hsp : (s.pop r).sp = s.sp + 8 := by
      have := toNat_add_eight (x := s.regs .rsp) (by unfold sp at hroom; omega)
      simp [hpop, set, sp, hr, this]
    have hmem : (s.pop r).mem = s.mem := by rw [hpop]; rfl
    rw [popAll, List.foldl_cons, ← popAll,
      ih hrs (by omega) (by rw [hsp, hmem]; exact hwords.2), hsp, hpop]
    -- the two register files agree at `r`, at `rsp` and elsewhere
    simp only [set, mk.injEq, and_true, List.mem_cons]
    funext r'
    by_cases hmem' : r' ∈ rs
    · simp [hmem']
    · by_cases heq : r' = r
      · subst heq
        simp [hmem', Ne.symm hr]
      · by_cases hr' : r' = .rsp
        · subst hr'
          simp [hrs, hr, show s.sp + 8 + 8 * rs.length = s.sp + 8 * (rs.length + 1) by omega]
        · simp [hmem', heq, hr']

end Core

/-! ## Descriptors, delivery and return -/

/-- A present 64-bit code segment. -/
def codeSegment (d : UInt64) : Bool :=
  d.toNat.testBit 47 && d.toNat.testBit 44 && d.toNat.testBit 43 && d.toNat.testBit 53

/-- A present writable data segment. -/
def dataSegment (d : UInt64) : Bool :=
  d.toNat.testBit 47 && d.toNat.testBit 44 && !d.toNat.testBit 43 && d.toNat.testBit 41

/-- An interrupt gate as the processor reads it. -/
structure Gate where
  offset : UInt64
  selector : UInt16
  ist : Nat
  attr : UInt8
  deriving DecidableEq, Repr

def Gate.read (m : Memory) (a : Nat) : Gate where
  offset := UInt64.ofNat
    (leVal (m.read a 2) + 2 ^ 16 * leVal (m.read (a + 6) 2) + 2 ^ 32 * leVal (m.read (a + 8) 4))
  selector := UInt16.ofNat (leVal (m.read (a + 2) 2))
  ist := leVal (m.read (a + 4) 1) % 8
  attr := UInt8.ofNat (leVal (m.read (a + 5) 1))

theorem Gate.read_congr {m m' : Memory} {a : Nat} (h : ∀ i, a ≤ i → i < a + 16 → m i = m' i) :
    Gate.read m a = Gate.read m' a := by
  have hread : ∀ i n, i + n ≤ 16 → m.read (a + i) n = m'.read (a + i) n := by
    intro i n hin
    apply Memory.read_congr
    intro k hk
    exact h (a + i + k) (by omega) (by omega)
  have hfirst := hread 0 2 (by omega)
  rw [Nat.add_zero] at hfirst
  rw [Gate.read, Gate.read, hfirst, hread 6 2 (by omega), hread 8 4 (by omega), hread 2 2 (by omega),
    hread 4 1 (by omega), hread 5 1 (by omega)]

/-- Present, an interrupt gate. -/
def Gate.usable (gate : Gate) : Bool := gate.attr &&& 0x9F == 0x8E

/-- `TF`, `IF`, `NT`, `RF` and `VM`, which an interrupt gate clears. -/
def ENTRY_FLAGS : UInt64 := 0x34300

namespace Core

/-- The descriptor a selector names. -/
def descriptor (s : Core) (selector : UInt16) : Option UInt64 :=
  if selector.toNat / 8 * 8 + 7 ≤ s.gdtr.limit.toNat then
    some (s.mem.readU64 (s.gdtr.base.toNat + selector.toNat / 8 * 8))
  else none

theorem descriptor_congr {s s' : Core} {selector : UInt16} (hgdtr : s'.gdtr = s.gdtr)
    (h : ∀ i, s.gdtr.base.toNat ≤ i → i ≤ s.gdtr.base.toNat + s.gdtr.limit.toNat → s'.mem i = s.mem i) :
    s'.descriptor selector = s.descriptor selector := by
  rw [descriptor, descriptor, hgdtr]
  split
  · rw [Memory.readU64_congr fun i h1 h2 => h i (by omega) (by omega)]
  · rfl

/-- The stack a gate selects: the interrupted one, or one of the task segment. -/
def gateStack (s : Core) (ist : Nat) : UInt64 :=
  if ist = 0 then s.regs .rsp else s.mem.readU64 (s.tr.toNat + 36 + 8 * (ist - 1))

/-- What the processor pushes. -/
def saved (s : Core) (error : Option UInt64) : List UInt64 :=
  [s.ss.toUInt64, s.regs .rsp, s.rflags, s.cs.toUInt64, s.rip] ++ error.toList

/-- Deliver vector `v`, with an error code if the event has one.  `none`: another fault. -/
def deliver (s : Core) (v : UInt8) (error : Option UInt64) : Option Core :=
  let gate := Gate.read s.mem (s.idtr.base.toNat + 16 * v.toNat)
  if 16 * v.toNat + 15 ≤ s.idtr.limit.toNat ∧ gate.usable = true ∧
      (s.descriptor gate.selector).any codeSegment = true then
    let entered := (s.set .rsp (s.gateStack gate.ist &&& ~~~15)).pushAll (s.saved error)
    some (entered.jump gate.offset gate.selector (s.rflags &&& ~~~ENTRY_FLAGS))
  else none

/-- `iretq` at the same privilege level.  `none`: a segment it cannot load. -/
def iretq (s : Core) : Option Core :=
  let cs := (s.mem.readU64 (s.sp + 8)).toUInt16
  let ss := (s.mem.readU64 (s.sp + 32)).toUInt16
  if (s.descriptor cs).any codeSegment = true ∧ (s.descriptor ss).any dataSegment = true then
    let resumed := { s.set .rsp (s.mem.readU64 (s.sp + 24)) with ss := ss }
    some (resumed.jump (s.mem.readU64 s.sp) cs (s.mem.readU64 (s.sp + 16)))
  else none

theorem iretq_words {s : Core} {rip rflags rsp : UInt64} {cs ss : UInt16}
    (hwords : s.mem.words s.sp 5 = [rip, cs.toUInt64, rflags, rsp, ss.toUInt64])
    (hcs : (s.descriptor cs).any codeSegment = true)
    (hss : (s.descriptor ss).any dataSegment = true) :
    s.iretq = some (({ s.set .rsp rsp with ss := ss } : Core).jump rip cs rflags) := by
  simp only [Memory.words, List.cons.injEq, Nat.add_assoc, Nat.reduceAdd] at hwords
  obtain ⟨h0, h1, h2, h3, h4, -⟩ := hwords
  rw [iretq]
  simp [h0, h1, h2, h3, h4, hcs, hss]

end Core

/-! ## The task register -/

/-- A present, available task segment of 64-bit mode. -/
def availableTss (low : UInt64) : Bool := low.toNat / 2 ^ 40 % 32 == 9 && low.toNat.testBit 47

/-- The base address a task segment descriptor holds in pieces. -/
def tssBase (low high : UInt64) : UInt64 := UInt64.ofNat
  (low.toNat / 2 ^ 16 % 2 ^ 24 + 2 ^ 24 * (low.toNat / 2 ^ 56 % 2 ^ 8) + 2 ^ 32 * (high.toNat % 2 ^ 32))

def tssLimit (low : UInt64) : Nat := low.toNat % 2 ^ 16 + 2 ^ 16 * (low.toNat / 2 ^ 48 % 2 ^ 4)

/-- The bit that `ltr` sets in the descriptor it loads. -/
def BUSY : UInt64 := (1 : UInt64) <<< 41

/-- `ltr`.  `none`: the descriptor is not one of an available task segment. -/
def Core.ltr (s : Core) (selector : UInt16) : Option Core :=
  let a := s.gdtr.base.toNat + selector.toNat / 8 * 8
  let low := s.mem.readU64 a
  if selector.toNat / 8 * 8 + 15 ≤ s.gdtr.limit.toNat ∧ availableTss low = true then
    some { s with
      tr := tssBase low (s.mem.readU64 (a + 8)), mem := s.mem.writeU64 a (low ||| BUSY) }
  else none

/-! ## Code -/

inductive Instr where
  | pushImm (v : UInt64)
  | push (r : Reg)
  | pop (r : Reg)
  | mov (dst src : Reg)
  | andImm (r : Reg) (v : UInt64)
  | addImm (r : Reg) (v : UInt64)
  | cld
  | call
  | iretq
  deriving DecidableEq, Repr

/-- What code does not decide itself: the status flags arithmetic leaves, the return address of its
call, what the callee does, and what a fault is.  `σ` is the state the callee works on beside the
stack. -/
structure Env (σ ε : Type) where
  status : Instr → Core → UInt64
  ret : UInt64
  call : σ → Core → Except ε (σ × Core)
  fault : ε

variable {σ ε : Type} {env : Env σ ε} {t : σ} {s : Core}

def exec (env : Env σ ε) : σ × Core → Instr → Except ε (σ × Core)
  | (t, s), .pushImm v => .ok (t, s.push v)
  | (t, s), .push r => .ok (t, s.push (s.regs r))
  | (t, s), .pop r => .ok (t, s.pop r)
  | (t, s), .mov dst src => .ok (t, s.set dst (s.regs src))
  | (t, s), .andImm r v =>
    .ok (t, { s.set r (s.regs r &&& v) with rflags := env.status (.andImm r v) s })
  | (t, s), .addImm r v =>
    .ok (t, { s.set r (s.regs r + v) with rflags := env.status (.addImm r v) s })
  | (t, s), .cld => .ok (t, { s with rflags := s.rflags &&& ~~~0x400 })
  | (t, s), .call => do
    let (t', s') ← env.call t (s.push env.ret)
    return (t', s'.set .rsp (s'.regs .rsp + 8))
  | (t, s), .iretq =>
    match s.iretq with
    | some s' => .ok (t, s')
    | none => .error env.fault

def run (env : Env σ ε) (code : List Instr) (x : σ × Core) : Except ε (σ × Core) :=
  code.foldlM (exec env) x

/-- Code that follows code which ran through. -/
theorem run_append {code : List Instr} {x y : σ × Core} (h : run env code x = .ok y)
    (code' : List Instr) : run env (code ++ code') x = run env code' y := by
  have happend : run env (code ++ code') x = run env code x >>= run env code' := List.foldlM_append
  rw [happend, h]
  rfl

theorem run_cons (i : Instr) (code : List Instr) (x : σ × Core) :
    run env (i :: code) x = exec env x i >>= run env code :=
  List.foldlM_cons

@[simp] theorem run_nil (x : σ × Core) : run env [] x = .ok x := rfl

theorem run_call {t' : σ} {s' : Core} (h : env.call t (s.push env.ret) = .ok (t', s')) (code : List Instr) :
    run env (.call :: code) (t, s) = run env code (t', s'.set .rsp (s'.regs .rsp + 8)) := by
  rw [run_cons, exec, h]
  rfl

theorem run_call_error {e : ε} (h : env.call t (s.push env.ret) = .error e) (code : List Instr) :
    run env (.call :: code) (t, s) = .error e := by
  rw [run_cons, exec, h]
  rfl

/-- A row of `push` instructions pushes the registers as they were before it. -/
theorem run_push {rs : List Reg} (hrsp : .rsp ∉ rs) :
    run env (rs.map .push) (t, s) = .ok (t, s.pushAll (rs.map s.regs)) := by
  induction rs generalizing s with
  | nil => rfl
  | cons r rs ih =>
    obtain ⟨-, hrs⟩ : Reg.rsp ≠ r ∧ .rsp ∉ rs := by simpa using hrsp
    have hregs : rs.map (s.push (s.regs r)).regs = rs.map s.regs := by
      apply List.map_congr_left
      intro r' hr'
      have hne : r' ≠ .rsp := fun h => hrs (h ▸ hr')
      simp [Core.push, hne]
    rw [List.map_cons, run_cons]
    show run env (rs.map .push) (t, s.push (s.regs r)) = _
    rw [ih hrs, hregs]
    rfl

theorem run_pop (rs : List Reg) : run env (rs.map .pop) (t, s) = .ok (t, s.popAll rs) := by
  induction rs generalizing s with
  | nil => rfl
  | cons r rs ih =>
    rw [List.map_cons, run_cons]
    exact ih

/-- What a callee that keeps to the calling convention leaves alone: the stack pointer, the saved
registers, the system registers, and all memory but the part of the stack below the pointer. -/
structure Abi (bottom : Nat) (s s' : Core) : Prop where
  regs : ∀ r ∈ [Reg.rsp, .rbx, .rbp, .r12, .r13, .r14, .r15], s'.regs r = s.regs r
  cs : s'.cs = s.cs
  ss : s'.ss = s.ss
  cr2 : s'.cr2 = s.cr2
  gdtr : s'.gdtr = s.gdtr
  idtr : s'.idtr = s.idtr
  tr : s'.tr = s.tr
  mem : ∀ a, a < bottom ∨ s.sp ≤ a → s'.mem a = s.mem a

end X86

end CourtKernel
