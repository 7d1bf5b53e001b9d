import CourtKernel.RootCourt.Kmain
import CourtKernel.Lib.Machine
import Mathlib.Data.Finset.Card
import Mathlib.Data.Finset.Range

/-!
# Bringing up the other processors

Reference model of `kmain_on_kstack`, `ap_entry` and `ap_on_kstack` of
`crates/root-court/src/main.rs`, with `wait_atomic`.  Every processor is a program of its own; a run
is any interleaving of their steps, of interrupts and of waits that give up.

The first processor runs to its switch of stacks before any other has left the boot loader, so that
part, `CourtKernel.RootCourt.kmain`, is one step.  Of the descriptor tables the slots are kept whose
task segments are busy (`CourtKernel.RootCourt.Boot` compares them with `Gdt.load`); an interrupt
that is taken counts as in `Idt.counted`.
-/

namespace CourtKernel

namespace RootCourt

namespace BringUp

open Idt (Irq TIMER_VECTOR IPI_VECTOR)

/-- What the bring-up meets: the machine, the first processor when `kmain` begins, which of the others,
by place of the list, have an x2APIC, and how the demo ends. -/
structure Config where
  platform : Platform
  early : Early
  hasX2apic : Nat → Bool
  demo : Except String Unit

def Config.mp (cfg : Config) : Option MpResponse := cfg.platform.mp

def Config.bspSlot (cfg : Config) : Nat := cfg.platform.bspSlot

def Config.expectedAps (cfg : Config) : UInt32 :=
  (cfg.mp.map fun mp => UInt32.ofNat (mp.cpus.length - 1)).getD 0

/-- The slot of the processor at a place of the list; without a list, `usize::MAX`. -/
def Config.slotOf (cfg : Config) (i : Nat) : Nat :=
  (cfg.mp.map fun mp => cpuSlot mp (mp.cpus.getD i 0)).getD (2 ^ 64 - 1)

/-- Where another processor is: still with the boot loader, or past the named step of `ap_entry`. -/
inductive Ap where
  | parked
  | entry
  | paged
  | gdt
  | idt
  | apic
  | stacked
  | unmasked
  | ready
  | hcf
  | fault
  deriving DecidableEq, Repr

/-- Where the first processor is. -/
inductive Bsp where
  | kmain
  | start (i : Nat)
  | waitReady
  | readyCheck
  | startTimer
  | waitSelf
  | waitTicks
  | waitPong
  | demo
  | ok
  | failed (error : String)
  deriving DecidableEq, Repr

structure Boot where
  bsp : Bsp
  ap : Nat → Ap
  /-- `goto_address` has been written. -/
  goto : Nat → Bool
  rootCr3 : UInt64
  /-- What `stack::top` gives for each slot. -/
  tops : Nat → UInt64
  /-- The slots whose task segments are loaded. -/
  busy : List Nat
  /-- An inter-processor interrupt waits at this processor. -/
  pending : Nat → Bool
  bspPending : Bool
  apReady : UInt32
  irq : Irq

def Boot.init : Boot :=
  ⟨.kmain, fun _ => .parked, fun _ => false, 0, fun _ => 0, [], fun _ => false, false, 0, ⟨0, 0, 0⟩⟩

/-- Its local APIC takes interrupts. -/
def Ap.listens : Ap → Bool
  | .apic | .stacked | .unmasked | .ready => true
  | _ => false

/-- It has interrupts on. -/
def Ap.interruptible : Ap → Bool
  | .unmasked | .ready => true
  | _ => false

def Bsp.interruptible : Bsp → Bool
  | .waitSelf | .waitTicks | .waitPong => true
  | _ => false

namespace Boot

variable (cfg : Config) (b : Boot)

def fail (error : String) : Boot := { b with bsp := .failed ("error: " ++ error) }

/-- `kmain` up to its switch of stacks. -/
def kmain : Boot :=
  match RootCourt.kmain cfg.platform cfg.early with
  | .error error _ => { b with bsp := .failed error }
  | .ok _ s =>
    { b with
      bsp := if cfg.mp.isSome then .start 0 else .startTimer
      rootCr3 := s.rootCr3
      tops := Stack.top s
      busy := [cfg.bspSlot] }

/-- The loop over `mp.cpus()`. -/
def start (mp : MpResponse) (i : Nat) : Boot :=
  if i < mp.cpus.length then
    { b with
      goto := if mp.cpus.getD i 0 ≠ mp.bspLapicId then Function.update b.goto i true else b.goto
      bsp := .start (i + 1) }
  else { b with bsp := .waitReady }

/-- `send_ipi_all_except_self`: a processor whose APIC is off does not get it. -/
def broadcast (mp : MpResponse) : Boot :=
  { b with
    pending := fun i => b.pending i || (decide (i < mp.cpus.length) &&
      mp.cpus.getD i 0 != mp.bspLapicId && (b.ap i).listens) }

def stepBsp : Boot :=
  match b.bsp with
  | .kmain => b.kmain cfg
  | .start i =>
    match cfg.mp with
    | some mp => b.start mp i
    | none => b
  | .waitReady => if b.apReady < cfg.expectedAps then b else { b with bsp := .readyCheck }
  | .readyCheck =>
    if b.apReady ≠ cfg.expectedAps then b.fail "AP bring-up timed out" else { b with bsp := .startTimer }
  | .startTimer => { b with bspPending := true, bsp := .waitSelf }
  | .waitSelf => if b.irq.ipiPong < 1 then b else { b with bsp := .waitTicks }
  | .waitTicks =>
    if b.irq.timerTicks < 3 then b
    else if cfg.expectedAps > 0 then
      match cfg.mp with
      | some mp => { b.broadcast mp with bsp := .waitPong }
      | none => b
    else { b with bsp := .demo }
  | .waitPong => if b.irq.ipiPong < 1 + cfg.expectedAps then b else { b with bsp := .demo }
  | .demo =>
    match cfg.demo with
    | .ok _ => { b with bsp := .ok }
    | .error error => b.fail ("courtlet demo: " ++ error)
  | .ok => b
  | .failed _ => b

/-- A wait of the first processor gives up. -/
def giveUp : Boot :=
  match b.bsp with
  | .waitReady => { b with bsp := .readyCheck }
  | .waitSelf => b.fail "self IPI did not land"
  | .waitTicks => b.fail ("x2APIC timer did not tick (" ++ toString b.irq.timerTicks ++ ")")
  | .waitPong =>
    b.fail ("AP IPI pong " ++ toString b.irq.ipiPong ++ "/" ++ toString (1 + cfg.expectedAps))
  | _ => b

def move (i : Nat) (ap : Ap) : Boot := { b with ap := Function.update b.ap i ap }

/-- One step of the processor at place `i` of the list. -/
def stepAp (i : Nat) : Boot :=
  match b.ap i with
  | .parked => if b.goto i = true then b.move i .entry else b
  | .entry => if b.rootCr3 = 0 then b.move i .hcf else b.move i .paged
  | .paged =>
    if cfg.slotOf i ≥ MAX_CPUS then b.move i .hcf
    else if cfg.slotOf i ∈ b.busy then b.move i .fault
    else { b.move i .gdt with busy := cfg.slotOf i :: b.busy }
  | .gdt => b.move i .idt
  | .idt => if cfg.hasX2apic i = true then b.move i .apic else b.move i .hcf
  | .apic => if b.tops (cfg.slotOf i) = 0 then b.move i .hcf else b.move i .stacked
  | .stacked => b.move i .unmasked
  | .unmasked => { b.move i .ready with apReady := b.apReady + 1 }
  | .ready => b
  | .hcf => b
  | .fault => b

/-- The processor at place `i` takes its pending interrupt. -/
def interruptAp (i : Nat) : Boot :=
  if (b.ap i).interruptible = true ∧ b.pending i = true then
    { b with pending := Function.update b.pending i false, irq := Idt.counted IPI_VECTOR b.irq }
  else b

def interruptBsp : Boot :=
  if b.bsp.interruptible = true ∧ b.bspPending = true then
    { b with bspPending := false, irq := Idt.counted IPI_VECTOR b.irq }
  else b

/-- The timer of the first processor. -/
def tick : Boot :=
  if b.bsp.interruptible = true then { b with irq := Idt.counted TIMER_VECTOR b.irq } else b

end Boot

inductive Act where
  | bsp
  | giveUp
  | ap (i : Nat)
  | interruptAp (i : Nat)
  | interruptBsp
  | tick
  deriving DecidableEq, Repr

def step (cfg : Config) (b : Boot) : Act → Boot
  | .bsp => b.stepBsp cfg
  | .giveUp => b.giveUp cfg
  | .ap i => b.stepAp cfg i
  | .interruptAp i => b.interruptAp i
  | .interruptBsp => b.interruptBsp
  | .tick => b.tick

def machine (cfg : Config) : Machine Boot Act Unit := ⟨Boot.init, fun b a => ((), step cfg b a)⟩

/-- The state after a run from the start. -/
def after (cfg : Config) (acts : List Act) : Boot := (machine cfg).run Boot.init acts

end BringUp

end RootCourt

end CourtKernel
