import CourtKernel.RootCourt.Idt

/-!
# Interrupts are transparent

What an interrupt does to the code it interrupts, through the tables and the code of
`CourtKernel.RootCourt.Idt`, for every vector and every state of the core.

* `Gated` — the tables are in place; `setUp_gated` gets it from `gdt::init`, `gdt::load`, `idt::init`
  and `idt::load`.
* `enter` — delivery, thunk and entry code leave one frame of 22 words below the selected stack, with
  the vector, the error code or zero, and the interrupted context in it.
* `interrupt_returns` — if the callee keeps to the convention, the exit code restores that context.
* `exception_reported`, `work_undisturbed` — what becomes of a vector without a handler, and of work
  that is interrupted any number of times.
-/

namespace CourtKernel

open X86

namespace RootCourt

namespace Idt

open Gdt (KERNEL_CODE KERNEL_DATA)

/-- The tables are in place on this core. -/
structure Gated (isrStubTable : UInt64) (s : Core) : Prop where
  limit : s.idtr.limit = UInt16.ofNat (256 * 16 - 1)
  gate : ∀ vec : UInt8, Gate.read s.mem (s.idtr.base.toNat + 16 * vec.toNat) =
    ⟨stub isrStubTable vec, KERNEL_CS, (istOf vec.toNat).toNat, 0x8E⟩
  code : s.descriptor KERNEL_CS = some KERNEL_CODE
  data : s.descriptor KERNEL_DS = some KERNEL_DATA
  cs : s.cs = KERNEL_CS
  ss : s.ss = KERNEL_DS

/-- Where the frame of a vector begins, going down. -/
def frameTop (vec : UInt8) (s : Core) : Nat := (s.gateStack (istOf vec.toNat).toNat &&& ~~~15).toNat

/-- The core on the stack that a vector's gate selects. -/
def onStack (vec : UInt8) (s : Core) : Core :=
  s.set .rsp (s.gateStack (istOf vec.toNat).toNat &&& ~~~15)

/-- What the processor and the thunk push, in order. -/
def eventWords (vec : UInt8) (error : Option UInt64) (s : Core) : List UInt64 :=
  [s.ss.toUInt64, s.regs .rsp, s.rflags, s.cs.toUInt64, s.rip, error.getD 0, vec.toUInt64]

/-- The frame that `isr_dispatch` should be given. -/
def frameOf (vec : UInt8) (error : Option UInt64) (s : Core) : InterruptFrame where
  r15 := s.regs .r15
  r14 := s.regs .r14
  r13 := s.regs .r13
  r12 := s.regs .r12
  r11 := s.regs .r11
  r10 := s.regs .r10
  r9 := s.regs .r9
  r8 := s.regs .r8
  rbp := s.regs .rbp
  rdi := s.regs .rdi
  rsi := s.regs .rsi
  rdx := s.regs .rdx
  rcx := s.regs .rcx
  rbx := s.regs .rbx
  rax := s.regs .rax
  vector := vec.toUInt64
  error := error.getD 0
  rip := s.rip
  cs := s.cs.toUInt64
  rflags := s.rflags
  rsp := s.regs .rsp
  ss := s.ss.toUInt64

/-- The processor pushes an error code for the vectors that the thunks expect one of. -/
def Event (vec : UInt8) (error : Option UInt64) : Prop := error.isSome = true ↔ vec.toNat ∈ ERROR_VECTORS

section

variable {isrStubTable : UInt64} {env : Env Irq Exit} {vec : UInt8} {error : Option UInt64} {t t' : Irq}
  {s s₁ : Core} {depth : Nat}

/-! ## Entry -/

theorem toNat_toUInt64_mul (vec : UInt8) : (vec.toUInt64 * STUB_STRIDE).toNat = vec.toNat * 16 := by
  have := vec.toNat_lt
  rw [UInt64.toNat_mul, UInt8.toNat_toUInt64]
  exact Nat.mod_eq_of_lt (by show vec.toNat * 16 < 2 ^ 64; omega)

/-- Every vector's gate leads to its own thunk. -/
theorem codeAt_stub (isrStubTable : UInt64) (vec : UInt8) :
    codeAt isrStubTable (stub isrStubTable vec) = some (isrStub vec.toNat ++ isrCommon) := by
  have hd : (stub isrStubTable vec - isrStubTable).toNat = vec.toNat * 16 := by
    have hcancel : stub isrStubTable vec - isrStubTable = vec.toUInt64 * STUB_STRIDE := by
      rw [stub, UInt64.add_comm, UInt64.add_sub_cancel]
    rw [hcancel, toNat_toUInt64_mul]
  have := vec.toNat_lt
  rw [codeAt, hd, if_pos (by omega), Nat.mul_div_cancel _ (by decide)]

theorem interrupt_eq {entered : Core} {code : List Instr} (hdeliver : s.deliver vec error = some entered)
    (hcode : codeAt isrStubTable entered.rip = some code) :
    interrupt isrStubTable env vec error t s = run env code (t, entered) := by
  simp only [interrupt, hdeliver, hcode]

theorem Gated.deliver (h : Gated isrStubTable s) :
    s.deliver vec error = some (((onStack vec s).pushAll (s.saved error)).jump
      (stub isrStubTable vec) KERNEL_CS (s.rflags &&& ~~~ENTRY_FLAGS)) := by
  have hvec := vec.toNat_lt
  have hlimit : 16 * vec.toNat + 15 ≤ s.idtr.limit.toNat := by
    rw [h.limit]
    show 16 * vec.toNat + 15 ≤ 4095
    omega
  have hcode : codeSegment KERNEL_CODE = true := by decide
  have husable : ((0x8E : UInt8) &&& 0x9F == 0x8E) = true := by decide
  rw [Core.deliver, h.gate vec]
  exact if_pos ⟨hlimit, husable, by rw [h.code]; exact hcode⟩

/-- The thunk completes what the processor pushed. -/
theorem run_isrStub (hevent : Event vec error) :
    ∃ ws, s.saved error ++ ws = eventWords vec error s ∧
      ∀ s' : Core, run env (isrStub vec.toNat) (t, s') = .ok (t, s'.pushAll ws) := by
  have hvec : UInt64.ofNat vec.toNat = vec.toUInt64 := by
    rw [← UInt64.toNat_inj, UInt8.toNat_toUInt64, UInt64.toNat_ofNat']
    have := vec.toNat_lt
    omega
  unfold Event at hevent
  cases error with
  | none =>
    have hmem : vec.toNat ∉ ERROR_VECTORS := by simpa using hevent
    refine ⟨[0, vec.toUInt64], rfl, fun s' => ?_⟩
    rw [isrStub, if_neg hmem, hvec]
    rfl
  | some e =>
    have hmem : vec.toNat ∈ ERROR_VECTORS := by simpa using hevent
    refine ⟨[vec.toUInt64], rfl, fun s' => ?_⟩
    rw [isrStub, if_pos hmem, hvec]
    rfl

/-- The core when the entry code is about to call. -/
structure Framed (vec : UInt8) (error : Option UInt64) (s s₁ : Core) : Prop where
  mem : s₁.mem = s.mem.pushes (frameTop vec s) (eventWords vec error s ++ pushed.map s.regs)
  rsp : s₁.regs .rsp = UInt64.ofNat (frameTop vec s - 176)
  rdi : s₁.regs .rdi = UInt64.ofNat (frameTop vec s - 176)
  rbp : s₁.regs .rbp = UInt64.ofNat (frameTop vec s - 176)
  cr2 : s₁.cr2 = s.cr2
  gdtr : s₁.gdtr = s.gdtr
  idtr : s₁.idtr = s.idtr
  tr : s₁.tr = s.tr

theorem frameTop_aligned (vec : UInt8) (s : Core) : frameTop vec s % 16 = 0 := by
  rw [frameTop, toNat_and_field 4 60 (by decide)]
  omega

theorem rsp_notMem_pushed : .rsp ∉ pushed := by decide

/-- The entry code pushes the registers as they were when the interrupt came. -/
theorem run_pushed (vs : List UInt64) (rip rflags : UInt64) :
    run env (pushed.map .push) (t, ((onStack vec s).pushAll vs).jump rip KERNEL_CS rflags) =
      .ok (t, ((onStack vec s).pushAll (vs ++ pushed.map s.regs)).jump rip KERNEL_CS rflags) := by
  have hregs : pushed.map (((onStack vec s).pushAll vs).jump rip KERNEL_CS rflags).regs =
      pushed.map s.regs := by
    apply List.map_congr_left
    intro r hr
    have hne : r ≠ .rsp := fun heq => rsp_notMem_pushed (heq ▸ hr)
    calc (((onStack vec s).pushAll vs).jump rip KERNEL_CS rflags).regs r
        = (onStack vec s).regs r := Core.pushAll_regs_of_ne hne
      _ = s.regs r := Function.update_of_ne hne _ _
  rw [run_push rsp_notMem_pushed, hregs, Core.pushAll_jump, ← Core.pushAll_append]

/-- `and rsp, -16` leaves an aligned pointer alone. -/
theorem and_neg_sixteen {x : UInt64} (h : x.toNat % 16 = 0) : x &&& (-16) = x := by
  rw [← UInt64.toNat_inj, toNat_and_field 4 60 (by decide)]
  have := x.toNat_lt
  omega

/-- The rest of the entry code: `rdi` and `rbp` get the stack pointer, which is aligned already. -/
theorem run_align {s₀ : Core} (haligned : s₀.sp % 16 = 0) :
    ∃ rflags regs, run env [.cld, .mov .rdi .rsp, .mov .rbp .rsp, .andImm .rsp (-16)] (t, s₀) =
        .ok (t, { s₀ with rflags := rflags, regs := regs }) ∧
      ∀ r ∈ [Reg.rsp, .rdi, .rbp], regs r = s₀.regs .rsp := by
  refine ⟨_, _, rfl, ?_⟩
  have hand := and_neg_sixteen haligned
  simp [Core.set, hand]

/-- Delivery, thunk and entry code: the frame is complete and `rdi` points at it. -/
theorem enter (h : Gated isrStubTable s) (hevent : Event vec error) (hroom : 176 ≤ frameTop vec s) :
    ∃ s₁, Framed vec error s s₁ ∧
      interrupt isrStubTable env vec error t s = run env (.call :: isrExit) (t, s₁) := by
  obtain ⟨ws, hws, hstub⟩ := @run_isrStub env vec error t s hevent
  have hsp : (onStack vec s).sp = frameTop vec s := by simp [onStack, Core.sp, Core.set, frameTop]
  have hlen : (eventWords vec error s ++ pushed.map s.regs).length = 22 := rfl
  have hpushes := @Core.pushAll_eq (onStack vec s) (eventWords vec error s ++ pushed.map s.regs)
    (by rw [hsp, hlen]; omega)
  rw [hsp, hlen] at hpushes
  let s₀ := ((onStack vec s).pushAll (eventWords vec error s ++ pushed.map s.regs)).jump
    (stub isrStubTable vec) KERNEL_CS (s.rflags &&& ~~~ENTRY_FLAGS)
  have hrsp : s₀.regs .rsp = UInt64.ofNat (frameTop vec s - 176) := by
    simp [s₀, hpushes, Core.jump]
  have haligned : s₀.sp % 16 = 0 := by
    have := frameTop_aligned vec s
    have := UInt64.toNat_lt (s.gateStack (istOf vec.toNat).toNat &&& ~~~15)
    rw [Core.sp, hrsp, frameTop, Core.toNat_ofNat_sub]
    unfold frameTop at *
    omega
  obtain ⟨rflags, regs, halign, hregs⟩ := @run_align env t s₀ haligned
  refine ⟨{ s₀ with rflags := rflags, regs := regs }, ?_, ?_⟩
  · exact
      { mem := by simp only [s₀, Core.jump, hpushes]; rfl
        rsp := by rw [← hrsp]; exact hregs .rsp (by decide)
        rdi := by rw [← hrsp]; exact hregs .rdi (by decide)
        rbp := by rw [← hrsp]; exact hregs .rbp (by decide)
        cr2 := by simp only [s₀, Core.jump, hpushes]; rfl
        gdtr := by simp only [s₀, Core.jump, hpushes]; rfl
        idtr := by simp only [s₀, Core.jump, hpushes]; rfl
        tr := by simp only [s₀, Core.jump, hpushes]; rfl }
  · have hentry : run env isrEntry (t, ((onStack vec s).pushAll (eventWords vec error s)).jump
        (stub isrStubTable vec) KERNEL_CS (s.rflags &&& ~~~ENTRY_FLAGS)) =
        .ok (t, { s₀ with rflags := rflags, regs := regs }) :=
      (run_append (run_pushed _ _ _) _).trans halign
    have hthunk := hstub (((onStack vec s).pushAll (s.saved error)).jump (stub isrStubTable vec) KERNEL_CS
      (s.rflags &&& ~~~ENTRY_FLAGS))
    rw [Core.pushAll_jump, ← Core.pushAll_append, hws] at hthunk
    rw [interrupt_eq h.deliver (codeAt_stub _ _), run_append hthunk, isrCommon, run_append hentry]

/-! ## Exit -/

theorem rsp_notMem_popped : .rsp ∉ popped := by decide

theorem mem_popped {r : Reg} (hr : r ≠ .rsp) : r ∈ popped := by
  cases r <;> first | decide | exact absurd rfl hr

/-- The end of the exit code drops the vector and the error code and returns. -/
theorem run_return {c : Core} {rip rflags rsp : UInt64} {cs ss : UInt16} (hend : c.sp + 16 < 2 ^ 64)
    (hwords : c.mem.words (c.sp + 16) 5 = [rip, cs.toUInt64, rflags, rsp, ss.toUInt64])
    (hcs : (c.descriptor cs).any codeSegment = true) (hss : (c.descriptor ss).any dataSegment = true) :
    run env [.addImm .rsp 16, .iretq] (t, c) =
      .ok (t, { c with
        regs := Function.update c.regs .rsp rsp, rip := rip, cs := cs, rflags := rflags, ss := ss }) := by
  have hsp : (c.regs .rsp + 16).toNat = c.sp + 16 := by
    have h16 : (16 : UInt64).toNat = 16 := rfl
    rw [UInt64.toNat_add, h16]
    exact Nat.mod_eq_of_lt hend
  let c' := { c.set .rsp (c.regs .rsp + 16) with rflags := env.status (.addImm .rsp 16) c }
  have hsp' : c'.sp = c.sp + 16 := by
    rw [← hsp]
    simp only [c', Core.sp, Core.set, Function.update_self]
  have hiretq := Core.iretq_words (s := c') (by rw [hsp']; exact hwords) hcs hss
  have hexec : exec env (t, c') .iretq = .ok (t, ({ c'.set .rsp rsp with ss := ss } : Core).jump rip cs rflags) := by
    simp only [exec, hiretq]
  rw [run_cons]
  show run env [.iretq] (t, c') = _
  rw [run_cons, hexec]
  simp [c', Core.jump, Core.set]
  rfl

/-- The exit code takes everything from the frame that `rbp` points at. -/
theorem run_isrExit {s₃ : Core} {regs : Reg → UInt64} {v e rip rflags : UInt64} {cs ss : UInt16}
    (hend : (s₃.regs .rbp).toNat + 176 < 2 ^ 64)
    (hwords : s₃.mem.words (s₃.regs .rbp).toNat 22 =
      popped.map regs ++ [v, e, rip, cs.toUInt64, rflags, regs .rsp, ss.toUInt64])
    (hcs : (s₃.descriptor cs).any codeSegment = true) (hss : (s₃.descriptor ss).any dataSegment = true) :
    run env isrExit (t, s₃) =
      .ok (t, { s₃ with regs := regs, rip := rip, cs := cs, rflags := rflags, ss := ss }) := by
  have hsplit : s₃.mem.words (s₃.regs .rbp).toNat 15 ++ s₃.mem.words ((s₃.regs .rbp).toNat + 120) 7 =
      s₃.mem.words (s₃.regs .rbp).toNat 22 := (Memory.words_add 7).symm
  obtain ⟨hsaved, hrest⟩ := List.append_inj (hsplit.trans hwords) (by simp [popped])
  have hiret : s₃.mem.words ((s₃.regs .rbp).toNat + 136) 5 =
      [rip, cs.toUInt64, rflags, regs .rsp, ss.toUInt64] := by
    have hdrop : (s₃.mem.words ((s₃.regs .rbp).toNat + 120) 7).drop 2 =
      s₃.mem.words ((s₃.regs .rbp).toNat + 136) 5 := rfl
    rw [← hdrop, hrest]
    rfl
  have hmov : run env [.mov .rsp .rbp] (t, s₃) = .ok (t, s₃.set .rsp (s₃.regs .rbp)) := rfl
  have hsp : (s₃.set .rsp (s₃.regs .rbp)).sp = (s₃.regs .rbp).toNat := by simp [Core.sp, Core.set]
  -- every register but the stack pointer is popped
  have hpop : (s₃.set .rsp (s₃.regs .rbp)).popAll popped =
      { s₃ with regs := Function.update regs .rsp (UInt64.ofNat ((s₃.regs .rbp).toNat + 120)) } := by
    rw [Core.popAll_eq (s := s₃.set .rsp (s₃.regs .rbp)) (f := regs) rsp_notMem_popped
      (by rw [hsp]; show _ + 120 < 2 ^ 64; omega) (by rw [hsp]; exact hsaved), hsp]
    simp only [Core.set, Core.mk.injEq, and_true]
    funext r
    by_cases hr : r = .rsp
    · subst hr
      simp [popped]
    · simp [mem_popped hr, hr]
  have hpops := (run_append hmov (popped.map .pop)).trans (@run_pop _ _ env t _ popped)
  rw [hpop] at hpops
  have hsp₅ : (UInt64.ofNat ((s₃.regs .rbp).toNat + 120)).toNat = (s₃.regs .rbp).toNat + 120 := by
    rw [UInt64.toNat_ofNat', Nat.mod_eq_of_lt (by omega)]
  have hsp' : Core.sp { s₃ with
      regs := Function.update regs .rsp (UInt64.ofNat ((s₃.regs .rbp).toNat + 120)) } =
      (s₃.regs .rbp).toNat + 120 := by
    simp only [Core.sp, Function.update_self, hsp₅]
  have hreturn := @run_return env t
    { s₃ with regs := Function.update regs .rsp (UInt64.ofNat ((s₃.regs .rbp).toNat + 120)) } _ _ _ _ _
    (by rw [hsp']; omega) (by rw [hsp']; exact hiret) hcs hss
  rw [isrExit, run_append hpops, hreturn]
  simp

/-! ## The whole path -/

theorem frameTop_lt (vec : UInt8) (s : Core) : frameTop vec s < 2 ^ 64 := UInt64.toNat_lt _

/-- The frame, from its lowest word up. -/
theorem Framed.words (h : Framed vec error s s₁) (hroom : 176 ≤ frameTop vec s) :
    s₁.mem.words (frameTop vec s - 176) 22 = popped.map s.regs ++ [vec.toUInt64, error.getD 0, s.rip,
      s.cs.toUInt64, s.rflags, s.regs .rsp, s.ss.toUInt64] := by
  have hpushed := @Memory.words_pushes s.mem (frameTop vec s) (eventWords vec error s ++ pushed.map s.regs)
    hroom
  rw [h.mem]
  exact hpushed

/-- The core in the callee: the stack is aligned and the frame is complete. -/
theorem Framed.called (h : Framed vec error s s₁) (hroom : 184 ≤ frameTop vec s) :
    (s₁.push env.ret).sp = frameTop vec s - 184 ∧
      (∀ a, a < frameTop vec s - 184 ∨ frameTop vec s - 176 ≤ a → (s₁.push env.ret).mem a = s₁.mem a) ∧
      InterruptFrame.read (s₁.push env.ret).mem ((s₁.push env.ret).regs .rdi).toNat =
        frameOf vec error s := by
  have htop := frameTop_lt vec s
  have hnat : (UInt64.ofNat (frameTop vec s - 176)).toNat = frameTop vec s - 176 := by
    rw [UInt64.toNat_ofNat', Nat.mod_eq_of_lt (by omega)]
  have hsp : (s₁.regs .rsp - 8).toNat = frameTop vec s - 184 := by
    rw [h.rsp, Core.sub_eight (by rw [hnat]; omega), Core.toNat_ofNat_sub, hnat]
    omega
  have hmem : ∀ a, a < frameTop vec s - 184 ∨ frameTop vec s - 176 ≤ a →
      (s₁.push env.ret).mem a = s₁.mem a := by
    intro a ha
    show s₁.mem.writeU64 (s₁.regs .rsp - 8).toNat _ a = _
    rw [hsp, Memory.writeU64_of_disjoint (by omega)]
  have hrdi : ((s₁.push env.ret).regs .rdi).toNat = frameTop vec s - 176 := by
    rw [← hnat, ← h.rdi]
    rfl
  refine ⟨by simp [Core.sp, Core.push, hsp], hmem, ?_⟩
  apply InterruptFrame.read_words
  rw [hrdi, Memory.words_congr fun a h1 _ => hmem a (Or.inr h1), h.words (by omega)]
  rfl

/-- What ends the machine in `isr_dispatch` ends it in the interrupt. -/
theorem interrupt_exits {e : Exit} (hcompiled : Compiled depth env.call) (h : Gated isrStubTable s)
    (hevent : Event vec error) (hroom : 184 + depth ≤ frameTop vec s)
    (hdispatch : isrDispatch (frameOf vec error s) s.cr2 t = .error e) :
    interrupt isrStubTable env vec error t s = .error e := by
  obtain ⟨s₁, hframed, hrun⟩ := @enter _ env _ _ t _ h hevent (by omega)
  obtain ⟨hsp, -, hframe⟩ := @Framed.called env _ _ _ _ hframed (by omega)
  have haligned := frameTop_aligned vec s
  have hcall := hcompiled.exits t e (s₁.push env.ret) (by omega) (by omega)
    (by rw [hframe, show (s₁.push env.ret).cr2 = s₁.cr2 from rfl, hframed.cr2]; exact hdispatch)
  rw [hrun, run_call_error hcall]

/-- The core when `isr_dispatch` has returned: the frame stands, nothing above it has changed. -/
structure Returned (vec : UInt8) (error : Option UInt64) (depth : Nat) (s s₃ : Core) : Prop where
  rbp : (s₃.regs .rbp).toNat = frameTop vec s - 176
  words : s₃.mem.words (frameTop vec s - 176) 22 = popped.map s.regs ++ [vec.toUInt64, error.getD 0, s.rip,
    s.cs.toUInt64, s.rflags, s.regs .rsp, s.ss.toUInt64]
  mem : ∀ a, a < frameTop vec s - 184 - depth ∨ frameTop vec s ≤ a → s₃.mem a = s.mem a
  cr2 : s₃.cr2 = s.cr2
  gdtr : s₃.gdtr = s.gdtr
  idtr : s₃.idtr = s.idtr
  tr : s₃.tr = s.tr

theorem Framed.returned {s₃ : Core} (h : Framed vec error s s₁) (hroom : 184 + depth ≤ frameTop vec s)
    (habi : Abi ((s₁.push env.ret).sp - depth) (s₁.push env.ret) s₃) :
    Returned vec error depth s s₃ := by
  obtain ⟨hsp, hmem, -⟩ := @Framed.called env _ _ _ _ h (by omega)
  have htop := frameTop_lt vec s
  have hmem₃ : ∀ a, a < frameTop vec s - 184 - depth ∨ frameTop vec s - 176 ≤ a → s₃.mem a = s₁.mem a := by
    intro a ha
    rw [habi.mem a (by omega), hmem a (by omega)]
  have hlen : 8 * (eventWords vec error s ++ pushed.map s.regs).length = 176 := rfl
  constructor
  · rw [habi.regs .rbp (by decide), show (s₁.push env.ret).regs .rbp = s₁.regs .rbp from rfl, h.rbp,
      UInt64.toNat_ofNat', Nat.mod_eq_of_lt (by omega)]
  · rw [Memory.words_congr fun a h1 _ => hmem₃ a (by omega), h.words (by omega)]
  · intro a ha
    rw [hmem₃ a (by omega), h.mem, Memory.pushes_of_outside (by omega) (by omega)]
  · exact habi.cr2.trans h.cr2
  · exact habi.gdtr.trans h.gdtr
  · exact habi.idtr.trans h.idtr
  · exact habi.tr.trans h.tr

/-- The exit code resumes the interrupted core. -/
theorem Returned.exit {s₃ : Core} {rsp : UInt64} (hs : Returned vec error depth s s₃)
    (h : Gated isrStubTable s) (hroom : 184 + depth ≤ frameTop vec s)
    (hgdt : s.gdtr.base.toNat + s.gdtr.limit.toNat < frameTop vec s - 184 - depth ∨
      frameTop vec s ≤ s.gdtr.base.toNat) :
    run env isrExit (t, s₃.set .rsp rsp) = .ok (t, s.withMem s₃.mem) := by
  have htop := frameTop_lt vec s
  have hrbp : ((s₃.set .rsp rsp).regs .rbp).toNat = frameTop vec s - 176 := hs.rbp
  have hdesc : ∀ selector, (s₃.set .rsp rsp).descriptor selector = s.descriptor selector := by
    intro selector
    apply Core.descriptor_congr hs.gdtr
    intro i h1 h2
    exact hs.mem i (by omega)
  have hcode : codeSegment KERNEL_CODE = true := by decide
  have hdata : dataSegment KERNEL_DATA = true := by decide
  have hexit := @run_isrExit env t (s₃.set .rsp rsp) s.regs vec.toUInt64 (error.getD 0) s.rip s.rflags
    s.cs s.ss (by rw [hrbp]; omega) (by rw [hrbp]; exact hs.words)
    (by rw [hdesc, h.cs, h.code]; exact hcode) (by rw [hdesc, h.ss, h.data]; exact hdata)
  rw [hexit]
  simp only [Core.set, Core.withMem, hs.gdtr, hs.idtr, hs.tr, hs.cr2]

/-- If `isr_dispatch` returns, the interrupted core goes on as it was.  Only its counters and the
stack below the frame have changed. -/
theorem interrupt_returns (hcompiled : Compiled depth env.call) (h : Gated isrStubTable s)
    (hevent : Event vec error) (hroom : 184 + depth ≤ frameTop vec s)
    (hgdt : s.gdtr.base.toNat + s.gdtr.limit.toNat < frameTop vec s - 184 - depth ∨
      frameTop vec s ≤ s.gdtr.base.toNat)
    (hdispatch : isrDispatch (frameOf vec error s) s.cr2 t = .ok t') :
    ∃ m, interrupt isrStubTable env vec error t s = .ok (t', s.withMem m) ∧
      ∀ a, a < frameTop vec s - 184 - depth ∨ frameTop vec s ≤ a → m a = s.mem a := by
  obtain ⟨s₁, hframed, hrun⟩ := @enter _ env _ _ t _ h hevent (by omega)
  obtain ⟨hsp, -, hframe⟩ := @Framed.called env _ _ _ _ hframed (by omega)
  have haligned := frameTop_aligned vec s
  obtain ⟨s₃, hcall, habi⟩ := hcompiled.returns t t' (s₁.push env.ret) (by omega) (by omega)
    (by rw [hframe, show (s₁.push env.ret).cr2 = s₁.cr2 from rfl, hframed.cr2]; exact hdispatch)
  have hs := hframed.returned hroom habi
  refine ⟨s₃.mem, ?_, hs.mem⟩
  rw [hrun, run_call hcall, hs.exit h hroom hgdt]

/-! ## Setting up -/

/-- What a CPU does before it lets interrupts in; the first one also fills the tables. -/
def setUp (isrStubTable idt : UInt64) (at_ : Gdt.Statics) (cpu : Nat) (s : Core) : Except Gdt.Stop Core := do
  let s ← Gdt.load at_ cpu (s.withMem (Gdt.init at_ s.mem))
  match init isrStubTable idt s.mem with
  | .error e => .error (.err e)
  | .ok m => .ok (load idt (s.withMem m))

/-- The thunks are 16 bytes apart wherever the table is. -/
theorem stub_stride (isrStubTable : UInt64) : stub isrStubTable 1 - stub isrStubTable 0 = STUB_STRIDE := by
  have h0 : stub isrStubTable 0 = isrStubTable := by
    rw [← UInt64.toNat_inj, stub, UInt64.toNat_add, toNat_toUInt64_mul]
    exact Nat.mod_eq_of_lt isrStubTable.toNat_lt
  rw [h0, stub, UInt64.add_comm, UInt64.add_sub_cancel]
  rfl

/-- The loop of `init` writes nothing but its table. -/
theorem gates_loop_of_outside {m : Memory} {isrStubTable idt : UInt64} {n i : Nat}
    (hi : i < idt.toNat ∨ idt.toNat + 16 * n ≤ i) :
    (List.range n).foldl (fun m vec => m.write (idt.toNat + 16 * vec)
      (IdtEntry.gate (stub isrStubTable (UInt8.ofNat vec)) (istOf vec)).bytes) m i = m i := by
  induction n with
  | zero => rfl
  | succ n ih =>
    rw [List.range_succ, List.foldl_append, List.foldl_cons, List.foldl_nil]
    have hlen := length_bytes (IdtEntry.gate (stub isrStubTable (UInt8.ofNat n)) (istOf n))
    rcases hi with hi | hi
    · rw [Memory.write_of_lt (by omega), ih (Or.inl hi)]
    · rw [Memory.write_of_ge (by omega), ih (by omega)]

/-- `init` fills every gate, writes nothing else, and cannot fail. -/
theorem init_spec (isrStubTable idt : UInt64) (m : Memory) :
    ∃ m', init isrStubTable idt m = .ok m' ∧
      (∀ vec : UInt8, Gate.read m' (idt.toNat + 16 * vec.toNat) =
        ⟨stub isrStubTable vec, KERNEL_CS, (istOf vec.toNat).toNat, 0x8E⟩) ∧
      ∀ i, i < idt.toNat ∨ idt.toNat + 4096 ≤ i → m' i = m i := by
  refine ⟨_, if_neg (not_not.2 (stub_stride _)), ?_, ?_⟩
  · intro vec
    have hgate := @gates_loop m isrStubTable idt 256 vec.toNat (by have := vec.toNat_lt; omega)
    rw [UInt8.ofNat_toNat] at hgate
    exact hgate
  · intro i hi
    exact gates_loop_of_outside hi

/-- A CPU that has loaded its slot and then the filled table. -/
theorem gated_load {at_ : Gdt.Statics} {cpu : Nat} {busy : Bool} {idt : UInt64}
    (hgate : ∀ vec : UInt8, Gate.read s.mem (idt.toNat + 16 * vec.toNat) =
      ⟨stub isrStubTable vec, KERNEL_CS, (istOf vec.toNat).toNat, 0x8E⟩)
    (hslot : Gdt.Slot at_ cpu busy s.mem)
    (hgdtr : s.gdtr = ⟨UInt16.ofNat (Gdt.GDT_LEN * 8 - 1), at_.gdt cpu⟩) (hcs : s.cs = KERNEL_CS)
    (hss : s.ss = KERNEL_DS) : Gated isrStubTable (load idt s) := by
  obtain ⟨hcode, hdata⟩ := Gdt.Slot.descriptors (s := load idt s) hslot hgdtr
  exact ⟨rfl, hgate, hcode, hdata, hcs, hss⟩

/-- The tables are in place after the set-up, if the linker kept them apart. -/
theorem setUp_gated {at_ : Gdt.Statics} {cpu : Nat} {idt : UInt64} (hcpu : cpu < MAX_CPUS)
    (hgdts : idt.toNat + 4096 ≤ at_.gdts.toNat ∨ at_.gdts.toNat + MAX_CPUS * 48 ≤ idt.toNat)
    (htsss : idt.toNat + 4096 ≤ at_.tsss.toNat ∨ at_.tsss.toNat + MAX_CPUS * Gdt.TSS_BYTES ≤ idt.toNat) :
    ∃ s', setUp isrStubTable idt at_ cpu s = .ok s' ∧ Gated isrStubTable s' ∧
      Gdt.Slot at_ cpu true s'.mem ∧ s'.tr = at_.tss cpu ∧ s'.regs = s.regs ∧
      s'.gdtr = ⟨UInt16.ofNat (Gdt.GDT_LEN * 8 - 1), at_.gdt cpu⟩ ∧
      s'.idtr = ⟨UInt16.ofNat (256 * 16 - 1), idt⟩ := by
  have hfilled : Gdt.Filled at_ [] (Gdt.init at_ s.mem) := Gdt.filled_init
  unfold setUp
  generalize Gdt.init at_ s.mem = m₀ at hfilled ⊢
  have hslot : Gdt.Slot at_ cpu false (s.withMem m₀).mem := hfilled cpu hcpu
  have hbusy : Gdt.Slot at_ cpu true (Gdt.loaded at_ cpu (s.withMem m₀)).mem := by
    simpa using Gdt.Filled.loaded (s := s.withMem m₀) hfilled hcpu (by simp) cpu hcpu
  obtain ⟨m, hinit, hgate, hframe⟩ := init_spec isrStubTable idt (Gdt.loaded at_ cpu (s.withMem m₀)).mem
  have hgdt := at_.toNat_gdt hcpu
  have htss := at_.toNat_tss hcpu
  have hslot' : Gdt.Slot at_ cpu true m := by
    unfold MAX_CPUS Gdt.TSS_BYTES at *
    apply hbusy.congr
    · intro i h1 h2
      exact (hframe i (by omega)).symm
    · intro i h1 h2
      exact (hframe i (by omega)).symm
  have hgated := gated_load (s := (Gdt.loaded at_ cpu (s.withMem m₀)).withMem m) hgate hslot' rfl rfl rfl
  refine ⟨_, ?_, hgated, hslot', rfl, rfl, rfl, rfl⟩
  simp only [hslot.load_ok hcpu, bind, Except.bind, hinit]

/-- `isr_dispatch` compiled to code that uses no stack. -/
def plainEnv : Env Irq Exit where
  status _ s := s.rflags
  ret := 0
  call t s := (isrDispatch (InterruptFrame.read s.mem (s.regs .rdi).toNat) s.cr2 t).map fun t' => (t', s)
  fault := .fault

theorem compiled_plainEnv : Compiled 0 plainEnv.call := by
  constructor
  · intro t t' s _ _ h
    refine ⟨s, ?_, ⟨fun _ _ => rfl, rfl, rfl, rfl, rfl, rfl, rfl, fun _ _ => rfl⟩⟩
    simp only [plainEnv, h, Except.map]
  · intro t e s _ _ h
    simp only [plainEnv, h, Except.map]

/-- A core with all registers `x`, over empty memory. -/
def bareCore (x : UInt64) : Core := ⟨fun _ => x, 0x1234, 0x202, 0, 0, 0, ⟨0, 0⟩, ⟨0, 0⟩, 0, fun _ => 0⟩

def lowStatics : Gdt.Statics :=
  ⟨0x1000, 0x2000, 0x10000, by decide, by decide, by decide, by decide, by decide, by decide, by decide⟩

/-- A machine with its tables below 256 KiB, set up on the first CPU. -/
theorem setUp_bareCore (x : UInt64) : ∃ s, setUp 0x100000 0x4000 lowStatics 0 (bareCore x) = .ok s ∧
    Gated 0x100000 s ∧ Gdt.Slot lowStatics 0 true s.mem ∧ s.tr = lowStatics.tss 0 ∧
    s.regs = (bareCore x).regs ∧ s.gdtr = ⟨UInt16.ofNat (Gdt.GDT_LEN * 8 - 1), lowStatics.gdt 0⟩ ∧
    s.idtr = ⟨UInt16.ofNat (256 * 16 - 1), 0x4000⟩ :=
  setUp_gated (by decide) (by decide) (by decide)

/-! ## What the code that is interrupted sees -/

/-- The vectors that return. -/
def HANDLED : List UInt8 := [TIMER_VECTOR, IPI_VECTOR, SPURIOUS_VECTOR]

/-- The stack an interrupt uses beside that of `isr_dispatch`: alignment, frame, return address. -/
def FRAME_ROOM : Nat := 15 + 176 + 8

theorem toUInt64_eq_iff {x y : UInt8} : x.toUInt64 = y.toUInt64 ↔ x = y := by
  rw [← UInt64.toNat_inj, UInt8.toNat_toUInt64, UInt8.toNat_toUInt64, UInt8.toNat_inj]

theorem isrDispatch_handled (hvec : vec ∈ HANDLED) (cr2 : UInt64) :
    isrDispatch (frameOf vec error s) cr2 t = .ok (counted vec t) := by
  simp only [HANDLED, List.mem_cons, List.not_mem_nil, or_false] at hvec
  simp only [isrDispatch, counted, frameOf, toUInt64_eq_iff]
  rcases hvec with rfl | rfl | rfl <;> rfl

theorem isrDispatch_unhandled (hvec : vec ∉ HANDLED) (cr2 : UInt64) :
    isrDispatch (frameOf vec error s) cr2 t = .error (.report (report (frameOf vec error s) cr2)) := by
  simp only [HANDLED, List.mem_cons, List.not_mem_nil, or_false, not_or] at hvec
  have hvector : (frameOf vec error s).vector = vec.toUInt64 := rfl
  rw [isrDispatch, hvector, if_neg (mt toUInt64_eq_iff.1 hvec.1), if_neg (mt toUInt64_eq_iff.1 hvec.2.1),
    if_neg (mt toUInt64_eq_iff.1 hvec.2.2)]

theorem frameTop_current (hvec : vec.toNat ≠ 8) : frameTop vec s = s.sp / 16 * 16 := by
  have hist : (istOf vec.toNat).toNat = 0 := by rw [istOf, if_neg hvec]; rfl
  rw [frameTop, hist, Core.gateStack, if_pos rfl, toNat_and_field 4 60 (by decide)]
  have := (s.regs .rsp).toNat_lt
  unfold Core.sp
  omega

/-- A double fault has its frame at the top of the CPU's own fault stack. -/
theorem frameTop_fault {at_ : Gdt.Statics} {cpu : Nat} {busy : Bool} (hslot : Gdt.Slot at_ cpu busy s.mem)
    (hcpu : cpu < MAX_CPUS) (htr : s.tr = at_.tss cpu) (hvec : vec.toNat = 8) :
    frameTop vec s = (at_.istTop cpu).toNat := by
  have hist : (istOf vec.toNat).toNat = 1 := by rw [istOf, if_pos hvec]; rfl
  have hstack : s.gateStack 1 = at_.istTop cpu := by
    rw [Core.gateStack, if_neg (by decide), htr]
    exact hslot.ist
  have htop := at_.toNat_istTop hcpu
  have haligned := at_.ists_aligned
  have hlt := (at_.istTop cpu).toNat_lt
  rw [frameTop, hist, hstack, toNat_and_field 4 60 (by decide)]
  omega

/-- A timer interrupt, an inter-processor interrupt or a spurious one, at any point of any code that
runs on a stack with room for it: the code goes on with every register, its flags, its segments and
its stack as they were, one interrupt is counted, and it is acknowledged unless it is spurious. -/
theorem interrupt_transparent (hcompiled : Compiled depth env.call) (h : Gated isrStubTable s)
    (hvec : vec ∈ HANDLED) (hroom : FRAME_ROOM + depth ≤ s.sp)
    (hgdt : s.gdtr.base.toNat + s.gdtr.limit.toNat < s.sp - (FRAME_ROOM + depth) ∨
      s.sp ≤ s.gdtr.base.toNat) :
    ∃ m, interrupt isrStubTable env vec none t s = .ok (counted vec t, s.withMem m) ∧
      ∀ a, a < s.sp - (FRAME_ROOM + depth) ∨ s.sp ≤ a → m a = s.mem a := by
  have hevent : Event vec none := by
    simp only [HANDLED, List.mem_cons, List.not_mem_nil, or_false] at hvec
    unfold Event
    rcases hvec with rfl | rfl | rfl <;> decide
  have hne : vec.toNat ≠ 8 := by
    simp only [HANDLED, List.mem_cons, List.not_mem_nil, or_false] at hvec
    rcases hvec with rfl | rfl | rfl <;> decide
  have htop := frameTop_current (s := s) hne
  unfold FRAME_ROOM at *
  obtain ⟨m, hrun, hmem⟩ := interrupt_returns hcompiled h hevent (by omega) (by omega)
    (isrDispatch_handled (t := t) hvec s.cr2)
  exact ⟨m, hrun, fun a ha => hmem a (by omega)⟩

/-- Every other vector, of all 256, ends the machine with a report of its own number, the error code
that the processor gave or zero, and the interrupted address.  A double fault needs no room on the
interrupted stack: its frame is on the CPU's own fault stack. -/
theorem exception_reported {at_ : Gdt.Statics} {cpu : Nat} {busy : Bool}
    (hcompiled : Compiled depth env.call) (h : Gated isrStubTable s) (hevent : Event vec error)
    (hvec : vec ∉ HANDLED) (hslot : Gdt.Slot at_ cpu busy s.mem) (hcpu : cpu < MAX_CPUS)
    (htr : s.tr = at_.tss cpu) (hdepth : FRAME_ROOM + depth ≤ Gdt.IST_BYTES)
    (hroom : vec.toNat ≠ 8 → FRAME_ROOM + depth ≤ s.sp) :
    interrupt isrStubTable env vec error t s = .error (.report ("exception vec=" ++
      toString vec.toUInt64 ++ " err=" ++ hex (error.getD 0) ++ " rip=" ++ hex s.rip ++ " cr2=" ++
      hex s.cr2 ++ "\n")) := by
  have htop : 184 + depth ≤ frameTop vec s := by
    by_cases hne : vec.toNat = 8
    · have := at_.toNat_istTop hcpu
      rw [frameTop_fault hslot hcpu htr hne]
      unfold FRAME_ROOM Gdt.IST_BYTES at *
      omega
    · have := hroom hne
      rw [frameTop_current hne]
      unfold FRAME_ROOM at *
      omega
  exact interrupt_exits hcompiled h hevent htop (isrDispatch_unhandled hvec s.cr2)

/-- A double fault with the stack pointer at zero. -/
theorem exception_reported_double_fault :
    ∃ s, setUp 0x100000 0x4000 lowStatics 0 (bareCore 0) = .ok s ∧
      interrupt 0x100000 plainEnv 8 (some 0) ⟨0, 0, 0⟩ s = .error (.report ("exception vec=" ++
        toString (8 : UInt8).toUInt64 ++ " err=" ++ hex 0 ++ " rip=" ++ hex s.rip ++ " cr2=" ++
        hex s.cr2 ++ "\n")) := by
  obtain ⟨s, hset, hgated, hslot, htr, -⟩ := setUp_bareCore 0
  have hreport := @exception_reported 0x100000 plainEnv 8 (some 0) ⟨0, 0, 0⟩ s 0 lowStatics 0 true
    compiled_plainEnv hgated (by unfold Event; decide) (by decide) hslot (by decide) htr (by decide)
    (fun h => absurd rfl h)
  exact ⟨s, hset, hreport⟩

/-! ## Runs -/

/-- What can happen to a core: a step of its own work, or an interrupt. -/
inductive Happening where
  | work
  | irq (vec : UInt8)
  deriving DecidableEq

/-- A core that does its work with interrupts in between. -/
def interrupted (isrStubTable : UInt64) (env : Env Irq Exit) (work : Core → Core) :
    List Happening → Irq × Core → Except Exit (Irq × Core)
  | [], x => .ok x
  | .work :: es, (t, s) => interrupted isrStubTable env work es (t, work s)
  | .irq vec :: es, (t, s) => do
    let x ← interrupt isrStubTable env vec none t s
    interrupted isrStubTable env work es x

/-- The counters after a run. -/
def tally (es : List Happening) (t : Irq) : Irq where
  timerTicks := t.timerTicks + UInt32.ofNat (es.count (.irq TIMER_VECTOR))
  ipiPong := t.ipiPong + UInt32.ofNat (es.count (.irq IPI_VECTOR))
  eois := t.eois + es.count (.irq TIMER_VECTOR) + es.count (.irq IPI_VECTOR)

/-- The tables are in place and out of the way of an interrupt on the current stack. -/
structure Ready (isrStubTable : UInt64) (depth : Nat) (s : Core) : Prop extends Gated isrStubTable s where
  room : FRAME_ROOM + depth ≤ s.sp
  gdt_apart : s.gdtr.base.toNat + s.gdtr.limit.toNat < s.sp - (FRAME_ROOM + depth) ∨
    s.sp ≤ s.gdtr.base.toNat
  idt_apart : s.idtr.base.toNat + 4096 ≤ s.sp - (FRAME_ROOM + depth) ∨ s.sp ≤ s.idtr.base.toNat

/-- Memory that differs only in the stack below the pointer. -/
def Below (depth : Nat) (s : Core) (m : Memory) : Prop :=
  ∀ a, a < s.sp - (FRAME_ROOM + depth) ∨ s.sp ≤ a → m a = s.mem a

theorem Ready.below {m : Memory} (h : Ready isrStubTable depth s) (hm : Below depth s m) :
    Ready isrStubTable depth (s.withMem m) := by
  have hdesc : ∀ selector, (s.withMem m).descriptor selector = s.descriptor selector := by
    intro selector
    apply @Core.descriptor_congr s (s.withMem m) selector rfl
    intro i h1 h2
    have := h.gdt_apart
    exact hm i (by omega)
  have hgate : ∀ vec : UInt8, Gate.read m (s.idtr.base.toNat + 16 * vec.toNat) =
      Gate.read s.mem (s.idtr.base.toNat + 16 * vec.toNat) := by
    intro vec
    apply Gate.read_congr
    intro i h1 h2
    have := h.idt_apart
    have := vec.toNat_lt
    exact hm i (by omega)
  exact
    { limit := h.limit
      gate := fun vec => (hgate vec).trans (h.gate vec)
      code := (hdesc _).trans h.code
      data := (hdesc _).trans h.data
      cs := h.cs
      ss := h.ss
      room := h.room
      gdt_apart := h.gdt_apart
      idt_apart := h.idt_apart }

/-- Work that keeps its stack in order and does not look below its stack pointer: `Same` relates the
states it cannot tell apart, `Inv` is what it keeps. -/
structure Orderly (isrStubTable : UInt64) (depth : Nat) (work : Core → Core) (Same : Core → Core → Prop)
    (Inv : Core → Prop) : Prop where
  same_refl : ∀ s, Same s s
  same_trans : ∀ {a b c}, Same a b → Same b c → Same a c
  same_work : ∀ {a b}, Same a b → Same (work a) (work b)
  below : ∀ {s m}, Inv s → Below depth s m → Same s (s.withMem m) ∧ Inv (s.withMem m)
  inv_work : ∀ {s}, Inv s → Inv (work s)
  ready : ∀ {s}, Inv s → Ready isrStubTable depth s

theorem tally_work (es : List Happening) : tally (.work :: es) t = tally es t := by
  simp [tally]

theorem ofNat_succ_count (x : UInt32) (n : Nat) : x + UInt32.ofNat (n + 1) = x + 1 + UInt32.ofNat n := by
  rw [UInt32.ofNat_add, UInt32.add_comm (UInt32.ofNat n), ← UInt32.add_assoc]
  rfl

theorem tally_irq (es : List Happening) (hvec : vec ∈ HANDLED) :
    tally (.irq vec :: es) t = tally es (counted vec t) := by
  simp only [HANDLED, List.mem_cons, List.not_mem_nil, or_false] at hvec
  rcases hvec with rfl | rfl | rfl
  · simp only [tally, counted, if_pos, List.count_cons_self, ofNat_succ_count,
      List.count_cons_of_ne (show Happening.irq TIMER_VECTOR ≠ .irq IPI_VECTOR by decide), Irq.mk.injEq, true_and]
    omega
  · simp only [tally, counted, if_neg (show IPI_VECTOR ≠ TIMER_VECTOR by decide), if_pos,
      List.count_cons_self, ofNat_succ_count,
      List.count_cons_of_ne (show Happening.irq IPI_VECTOR ≠ .irq TIMER_VECTOR by decide), Irq.mk.injEq, true_and]
    omega
  · simp only [tally, counted, if_neg (show SPURIOUS_VECTOR ≠ TIMER_VECTOR by decide),
      if_neg (show SPURIOUS_VECTOR ≠ IPI_VECTOR by decide),
      List.count_cons_of_ne (show Happening.irq SPURIOUS_VECTOR ≠ .irq TIMER_VECTOR by decide),
      List.count_cons_of_ne (show Happening.irq SPURIOUS_VECTOR ≠ .irq IPI_VECTOR by decide)]

theorem interrupted_same {work : Core → Core} {Same : Core → Core → Prop} {Inv : Core → Prop} {s₀ : Core}
    (hcompiled : Compiled depth env.call) (h : Orderly isrStubTable depth work Same Inv)
    (es : List Happening) (hes : ∀ vec, .irq vec ∈ es → vec ∈ HANDLED) (hinv : Inv s) (hsame : Same s₀ s) :
    ∃ s', interrupted isrStubTable env work es (t, s) = .ok (tally es t, s') ∧
      Same (work^[es.count .work] s₀) s' ∧ Inv s' := by
  induction es generalizing s s₀ t with
  | nil => exact ⟨s, by simp [interrupted, tally], hsame, hinv⟩
  | cons e es ih =>
    have hes' : ∀ vec, .irq vec ∈ es → vec ∈ HANDLED := fun vec hmem => hes vec (List.mem_cons_of_mem _ hmem)
    cases e with
    | work =>
      obtain ⟨s', hrun, hs', hinv'⟩ := @ih t (work s) (work s₀) hes' (h.inv_work hinv) (h.same_work hsame)
      refine ⟨s', ?_, ?_, hinv'⟩
      · rw [interrupted, tally_work, hrun]
      · rw [List.count_cons_self, Function.iterate_succ_apply]
        exact hs'
    | irq vec =>
      have hvec := hes vec List.mem_cons_self
      have hready := h.ready hinv
      obtain ⟨m, hstep, hbelow⟩ := @interrupt_transparent _ env _ t _ _ hcompiled hready.toGated hvec
        hready.room hready.gdt_apart
      obtain ⟨hover, hinv'⟩ := h.below hinv hbelow
      obtain ⟨s', hrun, hs', hinv''⟩ := @ih (counted vec t) (s.withMem m) s₀ hes' hinv'
        (h.same_trans hsame hover)
      refine ⟨s', ?_, ?_, hinv''⟩
      · rw [interrupted, hstep, tally_irq es hvec, ← hrun]
        rfl
      · rw [List.count_cons_of_ne (by simp)]
        exact hs'

/-- Interrupts at any points of a run, any number of them: the work ends in a state it cannot tell
from the one it reaches undisturbed, and every interrupt is counted and acknowledged once. -/
theorem work_undisturbed {work : Core → Core} {Same : Core → Core → Prop} {Inv : Core → Prop}
    (hcompiled : Compiled depth env.call) (h : Orderly isrStubTable depth work Same Inv)
    (es : List Happening) (hes : ∀ vec, .irq vec ∈ es → vec ∈ HANDLED) (hinv : Inv s) :
    ∃ s', interrupted isrStubTable env work es (t, s) = .ok (tally es t, s') ∧
      Same (work^[es.count .work] s) s' := by
  obtain ⟨s', hrun, hsame, -⟩ := interrupted_same (t := t) hcompiled h es hes hinv (h.same_refl s)
  exact ⟨s', hrun, hsame⟩

/-- Counting in `rax`. -/
def countUp (s : Core) : Core := s.set .rax (s.regs .rax + 1)

theorem orderly_countUp : Orderly isrStubTable depth countUp (fun a b => b = a.withMem b.mem)
    (Ready isrStubTable depth) where
  same_refl _ := rfl
  same_trans h h' := by rw [h', h]; rfl
  same_work h := by rw [h]; rfl
  below h hm := ⟨rfl, h.below hm⟩
  inv_work h := ⟨⟨h.limit, h.gate, h.code, h.data, h.cs, h.ss⟩, h.room, h.gdt_apart, h.idt_apart⟩
  ready h := h

theorem work_undisturbed_countUp : ∃ s s', setUp 0x100000 0x4000 lowStatics 0 (bareCore 0x80000) = .ok s ∧
    interrupted 0x100000 plainEnv countUp
      [.irq TIMER_VECTOR, .work, .irq IPI_VECTOR, .irq SPURIOUS_VECTOR, .work] (⟨0, 0, 0⟩, s) =
        .ok (⟨1, 1, 2⟩, s') ∧ s'.regs .rax = 0x80002 := by
  obtain ⟨s, hset, hgated, -, -, hregs, hgdtr, hidtr⟩ := setUp_bareCore 0x80000
  have hsp : s.sp = 0x80000 := by rw [Core.sp, hregs]; rfl
  have hready : Ready 0x100000 0 s :=
    ⟨hgated, by rw [hsp]; decide, by rw [hsp, hgdtr]; decide, by rw [hsp, hidtr]; decide⟩
  obtain ⟨s', hrun, hsame⟩ := @work_undisturbed 0x100000 plainEnv ⟨0, 0, 0⟩ s 0 countUp _ _
    compiled_plainEnv orderly_countUp
    [.irq TIMER_VECTOR, .work, .irq IPI_VECTOR, .irq SPURIOUS_VECTOR, .work]
    (fun vec hmem => by
      simp only [List.mem_cons, Happening.irq.injEq, reduceCtorEq, false_or, List.not_mem_nil, or_false] at hmem
      rcases hmem with rfl | rfl | rfl <;> decide) hready
  refine ⟨s, s', hset, hrun, ?_⟩
  rw [hsame]
  show s.regs .rax + 1 + 1 = _
  rw [hregs]
  decide

end

end Idt

end RootCourt

end CourtKernel
