import CourtKernel.Lib.Rounds
import CourtKernel.RootCourt.BringUpRuns
import Mathlib.Algebra.Order.BigOperators.Group.Finset

/-!
# The bring-up comes to its end

On a configuration where every processor has an x2APIC, a number and a stack (`Equipped`), only a wait
that gives up can fail (`Going`).  If none does, `BOOT_OK` is reached in a bounded number of rounds,
where in a round every processor makes a step and takes its interrupt at least once, in any order.

The rank is the number of steps of the first processor to come, of the others, and of interrupts.  The
timer may tick more often than the three times it is waited for, but fewer than `2 ^ 32` times: the
count would wrap, and the wait miss it.
-/

namespace CourtKernel

namespace RootCourt

namespace BringUp

open Idt (TIMER_VECTOR IPI_VECTOR)

/-- A configuration on which nothing but a wait can fail. -/
structure Equipped (cfg : Config) (mp : MpResponse) : Prop extends Boots cfg mp where
  bsp : mp.bspLapicId ∈ mp.cpus
  distinct : mp.cpus.Nodup
  x2apics : ∀ i, IsAp mp i → cfg.hasX2apic i = true
  tops : ∀ pages s, RootCourt.kmain cfg.platform cfg.early = .ok pages s →
    ∀ slot < mp.cpus.length, Stack.top s slot ≠ 0
  demo : cfg.demo = .ok ()

/-- How many places of the list the first processor has been through. -/
def Bsp.launched (n : Nat) : Bsp → Nat
  | .kmain => 0
  | .start k => k
  | _ => n

/-- Nothing has gone wrong so far. -/
structure Going (cfg : Config) (mp : MpResponse) (b : Boot) : Prop where
  inv : Inv cfg mp b
  fresh : b.bsp = .kmain → b = Boot.init
  cr3 : b.bsp ≠ .kmain → b.rootCr3 ≠ 0
  tops : b.bsp ≠ .kmain → ∀ i, IsAp mp i → b.tops (cfg.slotOf i) ≠ 0
  launched : ∀ i, IsAp mp i → i < b.bsp.launched mp.cpus.length → b.goto i = true
  alive : ∀ i, b.ap i ≠ .hcf
  checked : b.bsp = .readyCheck → b.apReady = cfg.expectedAps
  unfailed : ∀ error, b.bsp ≠ .failed error

section

variable {cfg : Config} {mp : MpResponse} {b b' : Boot} {i : Nat}

theorem going_init : Going cfg mp Boot.init :=
  ⟨inv_init, fun _ => rfl, fun h => absurd rfl h, fun h => absurd rfl h, fun _ _ h => absurd h (Nat.not_lt_zero _),
    by simp [Boot.init], by simp [Boot.init], by simp [Boot.init]⟩

/-! ## Steps of the other processors -/

/-- The next stop on the way of another processor. -/
def Ap.next : Ap → Ap
  | .parked => .entry
  | .entry => .paged
  | .paged => .gdt
  | .gdt => .idt
  | .idt => .apic
  | .apic => .stacked
  | .stacked => .unmasked
  | .unmasked => .ready
  | ap => ap

theorem Equipped.numbered (he : Equipped cfg mp) : Numbered mp := ⟨he.bsp, he.distinct.filter _⟩

theorem Equipped.slot_lt (he : Equipped cfg mp) (i : Nat) : cfg.slotOf i < mp.cpus.length := by
  rw [slotOf_eq he.listed]
  exact cpuSlot_lt he.some_cpu _

theorem Going.left_kmain (h : Going cfg mp b) (hgoto : b.goto i = true) : b.bsp ≠ .kmain := by
  intro hb
  rw [h.fresh hb] at hgoto
  cases hgoto

/-- A processor that has been started and has not reported moves on. -/
theorem Going.moves (h : Going cfg mp b) (he : Equipped cfg mp) (hgoto : b.goto i = true)
    (hready : b.ap i ≠ .ready) : (b.stepAp cfg i).ap = Function.update b.ap i (b.ap i).next := by
  have hi : IsAp mp i := h.inv.claimed.goto i hgoto
  have hbsp := h.left_kmain hgoto
  have hslot := Nat.lt_of_lt_of_le (he.slot_lt i) he.sized
  unfold Boot.stepAp
  cases hap : b.ap i with
  | parked => simp [hgoto, Boot.move, Ap.next]
  | entry => simp [h.cr3 hbsp, Boot.move, Ap.next]
  | paged =>
    have hfree := h.inv.claimed.free he.numbered he.listed hi hap
    simp [Nat.not_le.2 hslot, hfree, Boot.move, Ap.next]
  | gdt => rfl
  | idt => simp [he.x2apics i hi, Boot.move, Ap.next]
  | apic => simp [h.tops hbsp i hi, Boot.move, Ap.next]
  | stacked => rfl
  | unmasked => rfl
  | ready => exact absurd hap hready
  | hcf => exact absurd hap (h.alive i)
  | fault => exact absurd hap (h.inv.claimed.fault i)

/-- One that has not been started, or has reported, stays where it is. -/
theorem Going.idles (h : Going cfg mp b) (hidle : b.goto i = false ∨ b.ap i = .ready) :
    b.stepAp cfg i = b := by
  unfold Boot.stepAp
  rcases hidle with hgoto | hready
  · have hparked : b.ap i = .parked := by
      by_contra hne
      rw [h.inv.claimed.left i hne] at hgoto
      cases hgoto
    simp [hparked, hgoto]
  · simp [hready]

theorem stepAp_frame (i : Nat) : (b.stepAp cfg i).bsp = b.bsp ∧ (b.stepAp cfg i).goto = b.goto ∧
    (b.stepAp cfg i).rootCr3 = b.rootCr3 ∧ (b.stepAp cfg i).tops = b.tops ∧
    (b.stepAp cfg i).irq = b.irq := by
  unfold Boot.stepAp
  split
  all_goals first
    | exact ⟨rfl, rfl, rfl, rfl, rfl⟩
    | split <;> first
      | exact ⟨rfl, rfl, rfl, rfl, rfl⟩
      | split <;> exact ⟨rfl, rfl, rfl, rfl, rfl⟩

theorem Going.stepAp (h : Going cfg mp b) (he : Equipped cfg mp) (i : Nat) :
    Going cfg mp (b.stepAp cfg i) := by
  by_cases hidle : b.goto i = false ∨ b.ap i = .ready
  · rw [h.idles hidle]
    exact h
  · obtain ⟨hgoto, hready⟩ : b.goto i = true ∧ b.ap i ≠ .ready := by simpa using hidle
    have hap := h.moves he hgoto hready
    obtain ⟨hbsp, hgoto', hcr3, htops, -⟩ := @stepAp_frame cfg b i
    have hinv : Inv cfg mp (b.stepAp cfg i) := h.inv.step he.numbered he.listed (.ap i)
    constructor
    · exact hinv
    · intro hkmain
      exact absurd (hbsp ▸ hkmain) (h.left_kmain hgoto)
    · rw [hbsp, hcr3]
      exact h.cr3
    · rw [hbsp, htops]
      exact h.tops
    · rw [hbsp, hgoto']
      exact h.launched
    · intro j
      rw [hap]
      by_cases hji : j = i
      · subst hji
        rw [Function.update_self]
        have halive := h.alive j
        revert halive
        cases b.ap j <;> simp [Ap.next]
      · rw [Function.update_of_ne hji]
        exact h.alive j
    · intro hcheck
      -- when all have reported, this one has
      rw [hbsp] at hcheck
      have hsized := h.inv.staged.length_le (by simp [hcheck]) (by simp [hcheck])
      have hall := h.inv.claimed.all_ready he.numbered he.listed h.inv.counted hsized (h.checked hcheck)
      exact absurd (hall.1 i (h.inv.claimed.goto i hgoto)) hready
    · rw [hbsp]
      exact h.unfailed

/-! ## Interrupts -/

/-- What an interrupt leaves alone. -/
theorem Going.interrupt (h : Going cfg mp b) (hinv : Inv cfg mp b') (hkmain : b.bsp ≠ .kmain)
    (hbsp : b'.bsp = b.bsp) (hap : b'.ap = b.ap) (hgoto : b'.goto = b.goto) (hcr3 : b'.rootCr3 = b.rootCr3)
    (htops : b'.tops = b.tops) (hready : b'.apReady = b.apReady) : Going cfg mp b' := by
  refine ⟨hinv, fun hk => absurd (hbsp ▸ hk) hkmain, ?_, ?_, ?_, ?_, ?_, ?_⟩
  · rw [hbsp, hcr3]; exact h.cr3
  · rw [hbsp, htops]; exact h.tops
  · rw [hbsp, hgoto]; exact h.launched
  · rw [hap]; exact h.alive
  · rw [hbsp, hready]; exact h.checked
  · rw [hbsp]; exact h.unfailed

theorem Going.interruptAp (h : Going cfg mp b) (i : Nat) : Going cfg mp (b.interruptAp i) := by
  have hinv := h.inv.interruptAp i
  unfold Boot.interruptAp at *
  split
  · rename_i hguard
    rw [if_pos hguard] at hinv
    have hkmain : b.bsp ≠ .kmain := by
      intro hb
      rw [h.fresh hb] at hguard
      cases hguard.2
    exact h.interrupt hinv hkmain rfl rfl rfl rfl rfl rfl
  · exact h

theorem ne_kmain_of_interruptible (h : b.bsp.interruptible = true) : b.bsp ≠ .kmain := by
  intro hb
  rw [hb] at h
  cases h

theorem Going.interruptBsp (h : Going cfg mp b) : Going cfg mp b.interruptBsp := by
  have hinv := h.inv.interruptBsp
  unfold Boot.interruptBsp at *
  split
  · rename_i hguard
    rw [if_pos hguard] at hinv
    exact h.interrupt hinv (ne_kmain_of_interruptible hguard.1) rfl rfl rfl rfl rfl rfl
  · exact h

theorem Going.tick (h : Going cfg mp b) : Going cfg mp b.tick := by
  have hinv := h.inv.tick
  unfold Boot.tick at *
  split
  · rename_i hguard
    rw [if_pos hguard] at hinv
    exact h.interrupt hinv (ne_kmain_of_interruptible hguard) rfl rfl rfl rfl rfl rfl
  · exact h

/-! ## Steps of the first processor -/

theorem Going.kmain (he : Equipped cfg mp) : Going cfg mp (Boot.init.kmain cfg) := by
  obtain ⟨pages, s, hrun, hcr3⟩ := he.goes
  have hinv : Inv cfg mp (Boot.init.kmain cfg) := inv_init.kmain he.listed rfl
  rw [he.kmain_eq hrun] at hinv ⊢
  refine ⟨hinv, by simp, fun _ => hcr3, fun _ i _ => he.tops pages s hrun _ (he.slot_lt i),
    fun i _ hi => absurd hi (Nat.not_lt_zero _), ?_, by simp, by simp⟩
  simp [Boot.init]

theorem Going.start (h : Going cfg mp b) {k : Nat} (hb : b.bsp = .start k) : Going cfg mp (b.start mp k) := by
  have hkmain : b.bsp ≠ .kmain := by simp [hb]
  have hinv := h.inv.start k hb
  have hf := @start_frame cfg mp b k
  have hlaunched := h.launched
  rw [hb] at hlaunched
  unfold Boot.start at *
  split
  · rename_i hk
    rw [if_pos hk] at hinv hf
    refine ⟨hinv, by simp, fun _ => h.cr3 hkmain, fun _ => h.tops hkmain, fun i hi hlt => ?_, h.alive,
      by simp, by simp⟩
    by_cases hik : i = k
    · subst hik
      show (if mp.cpus.getD i 0 ≠ mp.bspLapicId then Function.update b.goto i true else b.goto) i = true
      rw [if_pos hi.2, Function.update_self]
    · have hlt' : i < k + 1 := hlt
      exact hf.kept i (hlaunched i hi (show i < k by omega))
  · rename_i hk
    rw [if_neg hk] at hinv hf
    exact ⟨hinv, by simp, fun _ => h.cr3 hkmain, fun _ => h.tops hkmain,
      fun i hi _ => hlaunched i hi (show i < k by have := hi.1; omega), h.alive, by simp, by simp⟩

/-- Not more report than are expected. -/
theorem Going.apReady_le (h : Going cfg mp b) (he : Equipped cfg mp) : b.apReady ≤ cfg.expectedAps := by
  have hsub := Finset.card_le_card h.inv.claimed.reported_subset
  have hone := he.numbered.card_aps
  have hsized := he.sized
  unfold MAX_CPUS at hsized
  rw [UInt32.le_iff_toNat_le, toNat_expectedAps he.listed he.sized, h.inv.counted, UInt32.toNat_ofNat']
  omega

/-! ## The rank -/

/-- Steps to come. -/
def Ap.rank : Ap → Nat
  | .parked => 8
  | .entry => 7
  | .paged => 6
  | .gdt => 5
  | .idt => 4
  | .apic => 3
  | .stacked => 2
  | .unmasked => 1
  | .ready | .hcf | .fault => 0

def Bsp.rank (n : Nat) : Bsp → Nat
  | .kmain => n + 9
  | .start k => n - k + 8
  | .waitReady => 7
  | .readyCheck => 6
  | .startTimer => 5
  | .waitSelf => 4
  | .waitTicks => 3
  | .waitPong => 2
  | .demo => 1
  | .ok | .failed _ => 0

/-- The steps of all processors to come, the answers to interrupts and the ticks still needed. -/
def Boot.rank (mp : MpResponse) (b : Boot) : Nat :=
  b.bsp.rank mp.cpus.length + ∑ i ∈ aps mp, (b.ap i).rank +
    (mp.cpus.length - b.irq.ipiPong.toNat) + (3 - b.irq.timerTicks.toNat)

/-- What the first processor waits for: a step of its own, or one of somebody else. -/
def Boot.helpful (mp : MpResponse) (b : Boot) : Act :=
  match b.bsp with
  | .waitReady =>
    ((List.range mp.cpus.length).find? fun i => decide (IsAp mp i ∧ b.ap i ≠ .ready)).elim .bsp .ap
  | .waitSelf => if b.bspPending = true then .interruptBsp else .bsp
  | .waitTicks => if b.irq.timerTicks.toNat < 3 then .tick else .bsp
  | .waitPong => ((List.range mp.cpus.length).find? fun i => b.pending i).elim .bsp .interruptAp
  | _ => .bsp

/-- What a round has to make: a step of every processor, and the interrupts that can be waiting. -/
def Due (mp : MpResponse) : Act → Prop
  | .bsp | .interruptBsp | .tick => True
  | .ap i | .interruptAp i => IsAp mp i
  | .giveUp => False

theorem rank_lt_of_bsp (hf : BspFrame cfg mp b b')
    (hlt : b'.bsp.rank mp.cpus.length < b.bsp.rank mp.cpus.length) : b'.rank mp < b.rank mp := by
  unfold Boot.rank
  rw [hf.ap, hf.irq]
  omega

/-- A step of the first processor is a step forward, or it waits. -/
def Forward (cfg : Config) (mp : MpResponse) (b b' : Boot) : Prop :=
  Going cfg mp b' ∧ (b' = b ∨ b'.bsp.rank mp.cpus.length < b.bsp.rank mp.cpus.length)

theorem Going.waits (h : Going cfg mp b) (heq : b.stepBsp cfg = b) : Forward cfg mp b (b.stepBsp cfg) := by
  rw [heq]
  exact ⟨h, .inl rfl⟩

/-- What is left to show of a step past the loop that starts the others. -/
theorem Going.passes {c : Boot} (h : Going cfg mp b) (he : Equipped cfg mp) (hkmain : b.bsp ≠ .kmain)
    (hall : b.bsp.launched mp.cpus.length = mp.cpus.length) (heq : b.stepBsp cfg = c)
    (hcr3 : c.rootCr3 = b.rootCr3 ∧ c.tops = b.tops)
    (hbsp : c.bsp ≠ .kmain ∧ ∀ error, c.bsp ≠ .failed error)
    (hchecked : c.bsp = .readyCheck → b.apReady = cfg.expectedAps)
    (hrank : c.bsp.rank mp.cpus.length < b.bsp.rank mp.cpus.length) :
    Forward cfg mp b (b.stepBsp cfg) := by
  have hinv := h.inv.stepBsp he.numbered he.listed
  have hf := @stepBsp_frame cfg mp b he.listed
  rw [heq] at hinv hf ⊢
  refine ⟨⟨hinv, fun hk => absurd hk hbsp.1, ?_, ?_, fun i hi _ => ?_, ?_, ?_, hbsp.2⟩, .inr hrank⟩
  · intro _
    rw [hcr3.1]
    exact h.cr3 hkmain
  · intro _
    rw [hcr3.2]
    exact h.tops hkmain
  · refine hf.kept i (h.launched i hi ?_)
    rw [hall]
    exact hi.1
  · rw [hf.ap]
    exact h.alive
  · rw [hf.apReady]
    exact hchecked

theorem Going.stepBsp (h : Going cfg mp b) (he : Equipped cfg mp) :
    Forward cfg mp b (b.stepBsp cfg) := by
  have hmp := he.listed
  cases hb : b.bsp with
  | kmain =>
    obtain ⟨pages, s, hrun, -⟩ := he.goes
    have heq : b.stepBsp cfg = Boot.init.kmain cfg := by
      rw [h.fresh hb]
      rfl
    rw [heq]
    refine ⟨Going.kmain he, .inr ?_⟩
    rw [he.kmain_eq hrun, hb]
    simp [Bsp.rank]
  | start k =>
    have heq : b.stepBsp cfg = b.start mp k := by simp [Boot.stepBsp, hb, hmp]
    rw [heq]
    refine ⟨h.start hb, .inr ?_⟩
    rw [hb]
    unfold Boot.start
    split <;> simp only [Bsp.rank] <;> omega
  | waitReady =>
    by_cases hready : b.apReady < cfg.expectedAps
    · exact h.waits (by simp [Boot.stepBsp, hb, hready])
    · have hexact : b.apReady = cfg.expectedAps :=
        UInt32.le_antisymm (h.apReady_le he) (UInt32.not_lt.1 hready)
      apply h.passes (c := { b with bsp := .readyCheck }) he
      all_goals simp [Boot.stepBsp, hb, Bsp.launched, Bsp.rank, hexact]
  | readyCheck =>
    apply h.passes (c := { b with bsp := .startTimer }) he
    all_goals simp [Boot.stepBsp, hb, h.checked hb, Bsp.launched, Bsp.rank]
  | startTimer =>
    apply h.passes (c := { b with bspPending := true, bsp := .waitSelf }) he
    all_goals simp [Boot.stepBsp, hb, Bsp.launched, Bsp.rank]
  | waitSelf =>
    by_cases hpong : b.irq.ipiPong < 1
    · exact h.waits (by simp [Boot.stepBsp, hb, hpong])
    · apply h.passes (c := { b with bsp := .waitTicks }) he
      all_goals simp [Boot.stepBsp, hb, hpong, Bsp.launched, Bsp.rank]
  | waitTicks =>
    by_cases hticks : b.irq.timerTicks < 3
    · exact h.waits (by simp [Boot.stepBsp, hb, hticks])
    · by_cases haps : cfg.expectedAps > 0
      · apply h.passes (c := { b.broadcast mp with bsp := .waitPong }) he
        all_goals simp [Boot.stepBsp, hb, hticks, haps, hmp, Boot.broadcast, Bsp.launched, Bsp.rank]
      · apply h.passes (c := { b with bsp := .demo }) he
        all_goals simp [Boot.stepBsp, hb, hticks, haps, Bsp.launched, Bsp.rank]
  | waitPong =>
    by_cases hpong : b.irq.ipiPong < 1 + cfg.expectedAps
    · exact h.waits (by simp [Boot.stepBsp, hb, hpong])
    · apply h.passes (c := { b with bsp := .demo }) he
      all_goals simp [Boot.stepBsp, hb, hpong, Bsp.launched, Bsp.rank]
  | demo =>
    apply h.passes (c := { b with bsp := .ok }) he
    all_goals simp [Boot.stepBsp, hb, he.demo, Bsp.launched, Bsp.rank]
  | ok => exact h.waits (by simp [Boot.stepBsp, hb])
  | failed error => exact absurd hb (h.unfailed error)

/-- Whatever happens, as long as no wait gives up. -/
theorem Going.step (h : Going cfg mp b) (he : Equipped cfg mp) {a : Act} (ha : a ≠ .giveUp) :
    Going cfg mp (step cfg b a) := by
  cases a with
  | bsp => exact (h.stepBsp he).1
  | giveUp => exact absurd rfl ha
  | ap i => exact h.stepAp he i
  | interruptAp i => exact h.interruptAp i
  | interruptBsp => exact h.interruptBsp
  | tick => exact h.tick

/-! ## Every call lowers the rank or leaves things as they are -/

theorem mem_aps (hi : IsAp mp i) : i ∈ aps mp := Finset.mem_filter.2 ⟨Finset.mem_range.2 hi.1, hi⟩

theorem Going.rank_moves (h : Going cfg mp b) (he : Equipped cfg mp) (hgoto : b.goto i = true)
    (hready : b.ap i ≠ .ready) : (b.stepAp cfg i).rank mp < b.rank mp := by
  obtain ⟨hbsp, -, -, -, hirq⟩ := @stepAp_frame cfg b i
  have hnext : (b.ap i).next.rank < (b.ap i).rank := by
    have halive := h.alive i
    have hfault := h.inv.claimed.fault i
    revert hready halive hfault
    cases b.ap i <;> simp [Ap.next, Ap.rank]
  have hsum : ∑ j ∈ aps mp, ((b.stepAp cfg i).ap j).rank < ∑ j ∈ aps mp, (b.ap j).rank := by
    rw [h.moves he hgoto hready]
    refine Finset.sum_lt_sum (fun j _ => ?_) ⟨i, mem_aps (h.inv.claimed.goto i hgoto), ?_⟩
    · by_cases hji : j = i
      · subst hji
        rw [Function.update_self]
        exact hnext.le
      · rw [Function.update_of_ne hji]
    · rw [Function.update_self]
      exact hnext
  unfold Boot.rank
  rw [hbsp, hirq]
  omega

/-- An answer is owed while an interrupt is pending. -/
theorem Going.pong_lt (h : Going cfg mp b) (hi : b.pending i = true) :
    b.irq.ipiPong.toNat < mp.cpus.length := by
  have hmem := mem_waiting h.inv.staged hi
  have hempty : b.waiting mp ≠ ∅ := Finset.ne_empty_of_mem hmem
  have hpos := Finset.card_pos.2 ⟨i, hmem⟩
  cases hb : b.bsp with
  | waitPong =>
    have hs : b.irq.ipiPong.toNat + (b.waiting mp).card = mp.cpus.length := (h.inv.signals hb).2
    omega
  | failed error => exact absurd hb (h.unfailed error)
  | _ => exact absurd (h.inv.signals hb).1 hempty

theorem toNat_succ {x : UInt32} (h : x.toNat + 1 < 2 ^ 32) : (x + 1).toNat = x.toNat + 1 := by
  rw [UInt32.toNat_add]
  exact Nat.mod_eq_of_lt h

/-- An answer lowers the rank. -/
theorem rank_pong (hsized : mp.cpus.length ≤ MAX_CPUS) (hlt : b.irq.ipiPong.toNat < mp.cpus.length)
    (hbsp : b'.bsp = b.bsp) (hap : b'.ap = b.ap) (hirq : b'.irq = Idt.counted IPI_VECTOR b.irq) :
    b'.rank mp < b.rank mp := by
  unfold MAX_CPUS at hsized
  have hpong : b'.irq.ipiPong.toNat = b.irq.ipiPong.toNat + 1 := by
    rw [hirq, (counted_ipi b.irq).1]
    exact toNat_succ (by omega)
  unfold Boot.rank
  rw [hbsp, hap, hpong, hirq, (counted_ipi b.irq).2]
  omega

theorem Going.rank_interruptAp (h : Going cfg mp b) (he : Equipped cfg mp) (i : Nat) :
    b.interruptAp i = b ∨ (b.interruptAp i).rank mp < b.rank mp := by
  unfold Boot.interruptAp
  split
  · rename_i hguard
    exact .inr (rank_pong he.sized (h.pong_lt hguard.2) rfl rfl rfl)
  · exact .inl rfl

theorem Going.rank_interruptBsp (h : Going cfg mp b) (he : Equipped cfg mp) :
    b.interruptBsp = b ∨ b.interruptBsp.rank mp < b.rank mp := by
  unfold Boot.interruptBsp
  split
  · rename_i hguard
    obtain ⟨hint, hpending⟩ := hguard
    have hpos := he.pos
    have hlt : b.irq.ipiPong.toNat < mp.cpus.length := by
      cases hb : b.bsp with
      | waitSelf =>
        have hs := (h.inv.signals hb).2
        simp only [hpending, Bool.toNat_true] at hs
        omega
      | waitTicks => rw [(h.inv.signals hb).2.1] at hpending; cases hpending
      | waitPong => rw [(h.inv.signals hb).1] at hpending; cases hpending
      | _ => rw [hb] at hint; cases hint
    exact .inr (rank_pong he.sized hlt rfl rfl rfl)
  · exact .inl rfl

/-- A tick lowers the rank, or is not one of those waited for. -/
theorem rank_tick (hticks : b.irq.timerTicks.toNat + 1 < 2 ^ 32) :
    b.tick.rank mp < b.rank mp ∨ b.tick.rank mp = b.rank mp ∧ b.tick.helpful mp = b.helpful mp := by
  unfold Boot.tick
  split
  · have hcount : (Idt.counted TIMER_VECTOR b.irq).timerTicks.toNat = b.irq.timerTicks.toNat + 1 :=
      toNat_succ hticks
    have hpong : (Idt.counted TIMER_VECTOR b.irq).ipiPong = b.irq.ipiPong := rfl
    unfold Boot.rank Boot.helpful
    simp only [hcount, hpong]
    by_cases hmore : b.irq.timerTicks.toNat < 3
    · exact .inl (by omega)
    · rw [if_neg hmore, if_neg (show ¬ b.irq.timerTicks.toNat + 1 < 3 by omega)]
      exact .inr ⟨by omega, rfl⟩
  · exact .inr ⟨rfl, rfl⟩

theorem Going.falls (h : Going cfg mp b) (he : Equipped cfg mp)
    (hticks : b.irq.timerTicks.toNat + 1 < 2 ^ 32) {a : Act} (ha : a ≠ .giveUp) :
    (BringUp.step cfg b a).rank mp < b.rank mp ∨
      (BringUp.step cfg b a).rank mp = b.rank mp ∧ (BringUp.step cfg b a).helpful mp = b.helpful mp := by
  have hsame : ∀ {c : Boot}, c = b ∨ c.rank mp < b.rank mp →
      c.rank mp < b.rank mp ∨ c.rank mp = b.rank mp ∧ c.helpful mp = b.helpful mp := by
    rintro c (rfl | hlt)
    · exact .inr ⟨rfl, rfl⟩
    · exact .inl hlt
  cases a with
  | bsp =>
    apply hsame
    exact (h.stepBsp he).2.imp id (rank_lt_of_bsp (stepBsp_frame he.listed))
  | giveUp => exact absurd rfl ha
  | ap i =>
    apply hsame
    by_cases hidle : b.goto i = false ∨ b.ap i = .ready
    · exact .inl (h.idles hidle)
    · obtain ⟨hgoto, hready⟩ : b.goto i = true ∧ b.ap i ≠ .ready := by simpa using hidle
      exact .inr (h.rank_moves he hgoto hready)
  | interruptAp i => exact hsame (h.rank_interruptAp he i)
  | interruptBsp => exact hsame (h.rank_interruptBsp he)
  | tick => exact rank_tick hticks

/-! ## What is waited for comes -/

/-- With distinct numbers all places but one are others'. -/
theorem Equipped.card_aps (he : Equipped cfg mp) : (aps mp).card + 1 = mp.cpus.length := by
  obtain ⟨hlt, hget⟩ := getD_cpuSlot he.bsp
  have heq : aps mp = (Finset.range mp.cpus.length).erase (cpuSlot mp mp.bspLapicId) := by
    ext j
    simp only [aps, Finset.mem_filter, Finset.mem_range, Finset.mem_erase]
    constructor
    · rintro ⟨hj, hap⟩
      refine ⟨?_, hj⟩
      rintro rfl
      exact hap.2 hget
    · rintro ⟨hne, hj⟩
      refine ⟨hj, hj, fun hbsp => hne ?_⟩
      rw [List.getD_eq_getElem _ _ hj] at hbsp
      rw [List.getD_eq_getElem _ _ hlt] at hget
      exact (List.Nodup.getElem_inj_iff he.distinct).1 (hbsp.trans hget.symm)
  rw [heq, Finset.card_erase_of_mem (Finset.mem_range.2 hlt), Finset.card_range]
  omega

theorem Going.apReady_eq (h : Going cfg mp b) (he : Equipped cfg mp)
    (hall : ∀ i, IsAp mp i → b.ap i = .ready) : b.apReady = cfg.expectedAps := by
  have hreported : b.reported mp = aps mp := by
    refine Finset.Subset.antisymm h.inv.claimed.reported_subset fun i hi => ?_
    obtain ⟨hrange, hap⟩ := Finset.mem_filter.1 hi
    exact Finset.mem_filter.2 ⟨hrange, hall i hap⟩
  have hcard := he.card_aps
  rw [h.inv.counted, hreported, Config.expectedAps, he.listed, Option.map_some, Option.getD_some, ← hcard,
    Nat.add_sub_cancel]

/-- A step of the first processor that leaves its place lowers the rank. -/
theorem Going.rank_bsp (h : Going cfg mp b) (he : Equipped cfg mp) (hne : (b.stepBsp cfg).bsp ≠ b.bsp) :
    Due mp .bsp ∧ (BringUp.step cfg b .bsp).rank mp < b.rank mp := by
  refine ⟨trivial, ?_⟩
  rcases (h.stepBsp he).2 with heq | hlt
  · exact absurd (congrArg Boot.bsp heq) hne
  · exact rank_lt_of_bsp (stepBsp_frame he.listed) hlt

theorem Going.helps_waitReady (h : Going cfg mp b) (he : Equipped cfg mp) (hb : b.bsp = .waitReady) :
    Due mp (b.helpful mp) ∧ (BringUp.step cfg b (b.helpful mp)).rank mp < b.rank mp := by
  unfold Boot.helpful
  simp only [hb]
  cases hfind : (List.range mp.cpus.length).find? fun i => decide (IsAp mp i ∧ b.ap i ≠ .ready) with
  | none =>
    have hall : ∀ i, IsAp mp i → b.ap i = .ready := by
      intro i hi
      by_contra hne
      have hnone := List.find?_eq_none.1 hfind i (List.mem_range.2 hi.1)
      exact hnone (decide_eq_true ⟨hi, hne⟩)
    apply h.rank_bsp he
    simp [Boot.stepBsp, hb, h.apReady_eq he hall]
  | some i =>
    have hfound := List.find?_some hfind
    rw [decide_eq_true_eq] at hfound
    obtain ⟨hi, hready⟩ := hfound
    have hgoto : b.goto i = true := h.launched i hi (by rw [hb]; exact hi.1)
    exact ⟨hi, h.rank_moves he hgoto hready⟩

theorem Going.helps_waitSelf (h : Going cfg mp b) (he : Equipped cfg mp) (hb : b.bsp = .waitSelf) :
    Due mp (b.helpful mp) ∧ (BringUp.step cfg b (b.helpful mp)).rank mp < b.rank mp := by
  unfold Boot.helpful
  simp only [hb]
  have hs : b.irq.ipiPong.toNat + b.bspPending.toNat = 1 := (h.inv.signals hb).2
  by_cases hpending : b.bspPending = true
  · rw [if_pos hpending]
    refine ⟨trivial, (h.rank_interruptBsp he).resolve_left fun heq => ?_⟩
    have htaken := congrArg Boot.bspPending heq
    simp [Boot.interruptBsp, hb, Bsp.interruptible, hpending] at htaken
  · rw [if_neg hpending]
    apply h.rank_bsp he
    have hpong : ¬ b.irq.ipiPong < 1 := by
      rw [UInt32.lt_iff_toNat_lt]
      simp only [Bool.not_eq_true] at hpending
      rw [hpending] at hs
      simp at hs
      simp [hs]
    simp [Boot.stepBsp, hb, hpong]

theorem Going.helps_waitTicks (h : Going cfg mp b) (he : Equipped cfg mp) (hb : b.bsp = .waitTicks)
    (hticks : b.irq.timerTicks.toNat + 1 < 2 ^ 32) :
    Due mp (b.helpful mp) ∧ (BringUp.step cfg b (b.helpful mp)).rank mp < b.rank mp := by
  unfold Boot.helpful
  simp only [hb]
  by_cases hmore : b.irq.timerTicks.toNat < 3
  · rw [if_pos hmore]
    refine ⟨trivial, (rank_tick hticks).resolve_right ?_⟩
    rintro ⟨heq, -⟩
    have hcount : (Idt.counted TIMER_VECTOR b.irq).timerTicks.toNat = b.irq.timerTicks.toNat + 1 :=
      toNat_succ hticks
    have hpong : (Idt.counted TIMER_VECTOR b.irq).ipiPong = b.irq.ipiPong := rfl
    simp only [Boot.tick, Boot.rank, hb, Bsp.interruptible, if_true, hcount, hpong] at heq
    omega
  · rw [if_neg hmore]
    apply h.rank_bsp he
    have hdone : ¬ b.irq.timerTicks < 3 := hmore
    by_cases haps : cfg.expectedAps > 0
    · simp [Boot.stepBsp, hb, hdone, haps, he.listed]
    · simp [Boot.stepBsp, hb, hdone, haps]

theorem Going.helps_waitPong (h : Going cfg mp b) (he : Equipped cfg mp) (hb : b.bsp = .waitPong) :
    Due mp (b.helpful mp) ∧ (BringUp.step cfg b (b.helpful mp)).rank mp < b.rank mp := by
  unfold Boot.helpful
  simp only [hb]
  have hs : b.irq.ipiPong.toNat + (b.waiting mp).card = mp.cpus.length := (h.inv.signals hb).2
  cases hfind : (List.range mp.cpus.length).find? fun i => b.pending i with
  | none =>
    have hempty : b.waiting mp = ∅ := by
      refine Finset.filter_eq_empty_iff.2 fun i hi => ?_
      exact List.find?_eq_none.1 hfind i (List.mem_range.2 (Finset.mem_range.1 hi))
    rw [hempty, Finset.card_empty] at hs
    apply h.rank_bsp he
    have hpos := he.pos
    have hsized := he.sized
    unfold MAX_CPUS at hsized
    have hpong : ¬ b.irq.ipiPong < 1 + cfg.expectedAps := by
      rw [UInt32.lt_iff_toNat_lt, UInt32.toNat_add, toNat_expectedAps he.listed he.sized]
      show ¬ b.irq.ipiPong.toNat < (1 + (mp.cpus.length - 1)) % 2 ^ 32
      omega
    simp [Boot.stepBsp, hb, hpong]
  | some i =>
    have hpending : b.pending i = true := List.find?_some hfind
    have hi := h.inv.staged.pending i hpending
    have hready := (h.inv.staged.all (by rw [hb]; rfl)).1 i hi
    refine ⟨hi, (h.rank_interruptAp he i).resolve_left fun heq => ?_⟩
    have htaken := congrFun (congrArg Boot.pending heq) i
    simp [Boot.interruptAp, hready, Ap.interruptible, hpending] at htaken

theorem Going.helps (h : Going cfg mp b) (he : Equipped cfg mp)
    (hticks : b.irq.timerTicks.toNat + 1 < 2 ^ 32) (hok : b.bsp ≠ .ok) :
    Due mp (b.helpful mp) ∧ (BringUp.step cfg b (b.helpful mp)).rank mp < b.rank mp := by
  cases hb : b.bsp with
  | waitReady => exact h.helps_waitReady he hb
  | waitSelf => exact h.helps_waitSelf he hb
  | waitTicks => exact h.helps_waitTicks he hb hticks
  | waitPong => exact h.helps_waitPong he hb
  | kmain =>
    obtain ⟨pages, s, hrun, -⟩ := he.goes
    rw [show b.helpful mp = .bsp by simp [Boot.helpful, hb]]
    apply h.rank_bsp he
    rw [show b.stepBsp cfg = Boot.init.kmain cfg by rw [h.fresh hb]; rfl, he.kmain_eq hrun, hb]
    simp
  | start k =>
    rw [show b.helpful mp = .bsp by simp [Boot.helpful, hb]]
    apply h.rank_bsp he
    rw [show b.stepBsp cfg = b.start mp k by simp [Boot.stepBsp, hb, he.listed], hb]
    unfold Boot.start
    split <;> simp
  | readyCheck =>
    rw [show b.helpful mp = .bsp by simp [Boot.helpful, hb]]
    apply h.rank_bsp he
    simp [Boot.stepBsp, hb, h.checked hb]
  | startTimer =>
    rw [show b.helpful mp = .bsp by simp [Boot.helpful, hb]]
    apply h.rank_bsp he
    simp [Boot.stepBsp, hb]
  | demo =>
    rw [show b.helpful mp = .bsp by simp [Boot.helpful, hb]]
    apply h.rank_bsp he
    simp [Boot.stepBsp, hb, he.demo]
  | ok => exact absurd hb hok
  | failed error => exact absurd hb (h.unfailed error)

/-! ## The end -/

/-- A step counts one tick at most. -/
theorem timerTicks_step (hmp : cfg.mp = some mp) (hticks : b.irq.timerTicks.toNat + 1 < 2 ^ 32) {a : Act}
    (ha : a ≠ .giveUp) : (step cfg b a).irq.timerTicks.toNat ≤ b.irq.timerTicks.toNat + 1 := by
  cases a with
  | bsp =>
    show (b.stepBsp cfg).irq.timerTicks.toNat ≤ _
    rw [(@stepBsp_frame cfg mp b hmp).irq]
    omega
  | giveUp => exact absurd rfl ha
  | ap i =>
    show (b.stepAp cfg i).irq.timerTicks.toNat ≤ _
    rw [(@stepAp_frame cfg b i).2.2.2.2]
    omega
  | interruptAp i =>
    show (b.interruptAp i).irq.timerTicks.toNat ≤ _
    unfold Boot.interruptAp
    split <;> simp [counted_ipi]
  | interruptBsp =>
    show b.interruptBsp.irq.timerTicks.toNat ≤ _
    unfold Boot.interruptBsp
    split <;> simp [counted_ipi]
  | tick =>
    show b.tick.irq.timerTicks.toNat ≤ _
    unfold Boot.tick
    split
    · exact (toNat_succ hticks).le
    · omega

theorem ok_stays (hok : b.bsp = .ok) {a : Act} : (step cfg b a).bsp = .ok := by
  cases a with
  | bsp => simp [step, Boot.stepBsp, hok]
  | giveUp => simp [step, Boot.giveUp, hok]
  | ap i => exact (@stepAp_frame cfg b i).1.trans hok
  | interruptAp i =>
    show (b.interruptAp i).bsp = .ok
    unfold Boot.interruptAp
    split <;> exact hok
  | interruptBsp => simp [step, Boot.interruptBsp, hok, Bsp.interruptible]
  | tick => simp [step, Boot.tick, hok, Bsp.interruptible]

/-- The bring-up as an instance of the rule. -/
def ranking (he : Equipped cfg mp) : (machine cfg).Ranking (· ≠ .giveUp) (Due mp)
    (fun n b => Going cfg mp b ∧ b.irq.timerTicks.toNat + n < 2 ^ 32) (fun b => b.bsp = .ok) where
  rank := Boot.rank mp
  helpful := Boot.helpful mp
  keeps n b a h ha := by
    have hticks := timerTicks_step he.listed (show b.irq.timerTicks.toNat + 1 < 2 ^ 32 by omega) ha
    exact ⟨h.1.step he ha, show (step cfg b a).irq.timerTicks.toNat + n < 2 ^ 32 by omega⟩
  stays n b a _ _ hok := ok_stays hok
  falls n b a h ha := h.1.falls he (by omega) ha
  helps n b h hok := h.1.helps he (by omega) hok

theorem rank_init (he : Equipped cfg mp) : Boot.init.rank mp = 10 * mp.cpus.length + 4 := by
  have hcard := he.card_aps
  have hsum : ∑ i ∈ aps mp, (Boot.init.ap i).rank = (aps mp).card * 8 := by
    exact Finset.sum_const_nat fun i _ => rfl
  unfold Boot.rank
  rw [hsum]
  show mp.cpus.length + 9 + (aps mp).card * 8 + (mp.cpus.length - 0) + (3 - 0) = _
  omega

/-- If no wait gives up, `10 n + 4` rounds bring `n` processors to `BOOT_OK`. -/
theorem ok_of_rounds (he : Equipped cfg mp) {rounds : List (List Act)} (hwait : .giveUp ∉ rounds.flatten)
    (hdue : ∀ r ∈ rounds, ∀ a, Due mp a → a ∈ r) (hlength : rounds.flatten.length + 1 < 2 ^ 32)
    (hmany : 10 * mp.cpus.length + 4 ≤ rounds.length) : (after cfg rounds.flatten).bsp = .ok := by
  refine (ranking he).done_of_rounds (s := Boot.init) ⟨going_init, ?_⟩ (fun a ha heq => hwait (heq ▸ ha)) hdue ?_
  · show 0 + (rounds.flatten.length + 1) < 2 ^ 32
    omega
  · exact (rank_init he).trans_le hmany

end

end BringUp

end RootCourt

end CourtKernel
