import CourtKernel.RootCourt.BringUp
import Mathlib.Data.List.NodupEquivFin
import Mathlib.Data.List.GetD

/-!
# What every bring-up keeps

Invariants of the runs of `CourtKernel.RootCourt.BringUp`, over all interleavings.

* `Claimed` — who has loaded which task segment; with distinct numbers nobody loads one twice.
* `Counted` — `AP_READY` is the number of processors that have reported.
* `Staged` — what the first processor has waited for.
* `Signalled` — `IPI_PONG` and the interrupts still pending, phase by phase.
* `segment_fault_iff` — whose numbers can make a processor fault on its task segment.
-/

namespace CourtKernel

namespace RootCourt

namespace BringUp

open Idt (TIMER_VECTOR IPI_VECTOR)

/-! ## Numbers and slots -/

/-- A place of the list that is not the first processor's. -/
def IsAp (mp : MpResponse) (i : Nat) : Prop :=
  i < mp.cpus.length ∧ mp.cpus.getD i 0 ≠ mp.bspLapicId

instance (mp : MpResponse) (i : Nat) : Decidable (IsAp mp i) :=
  inferInstanceAs (Decidable (_ ∧ _))

/-- The first processor is in the list, and the others have numbers of their own. -/
structure Numbered (mp : MpResponse) : Prop where
  bsp : mp.bspLapicId ∈ mp.cpus
  distinct : (mp.cpus.filter (· ≠ mp.bspLapicId)).Nodup

section

variable {cfg : Config} {mp : MpResponse} {b : Boot} {i j : Nat}

theorem IsAp.mem (h : IsAp mp i) : mp.cpus.getD i 0 ∈ mp.cpus := by
  rw [List.getD_eq_getElem _ _ h.1]
  exact List.getElem_mem h.1

/-- A number in the list is the number at its slot. -/
theorem getD_cpuSlot {x : UInt32} (h : x ∈ mp.cpus) :
    cpuSlot mp x < mp.cpus.length ∧ mp.cpus.getD (cpuSlot mp x) 0 = x := by
  unfold cpuSlot
  cases hfind : mp.cpus.idxOf? x with
  | none => exact absurd h (List.idxOf?_eq_none_iff.1 hfind)
  | some k =>
    obtain ⟨hk, hx, -⟩ := List.idxOf?_eq_some_iff.1 hfind
    exact ⟨hk, by rw [Option.getD_some, List.getD_eq_getElem _ _ hk, hx]⟩

theorem cpuSlot_inj {x y : UInt32} (hx : x ∈ mp.cpus) (hy : y ∈ mp.cpus)
    (h : cpuSlot mp x = cpuSlot mp y) : x = y := by
  rw [← (getD_cpuSlot hx).2, h, (getD_cpuSlot hy).2]

theorem Numbered.place_inj (h : Numbered mp) (hi : IsAp mp i) (hj : IsAp mp j)
    (heq : mp.cpus.getD i 0 = mp.cpus.getD j 0) : i = j := by
  by_contra hne
  -- a number at two places would be there twice
  have htwo : ∀ {i j : Nat}, IsAp mp i → IsAp mp j → mp.cpus.getD i 0 = mp.cpus.getD j 0 → i < j → False := by
    intro i j hi hj heq hlt
    have hdup : List.Duplicate (mp.cpus.getD i 0) mp.cpus :=
      List.duplicate_iff_exists_distinct_get.2 ⟨⟨i, hi.1⟩, ⟨j, hj.1⟩, hlt,
        List.getD_eq_getElem _ _ hi.1, heq.trans (List.getD_eq_getElem _ _ hj.1)⟩
    have hcount := List.duplicate_iff_two_le_count.1 hdup
    have hone := List.nodup_iff_count_le_one.1 h.distinct (mp.cpus.getD i 0)
    rw [List.count_filter (by simpa using hi.2)] at hone
    omega
  rcases Nat.lt_or_gt_of_ne hne with hlt | hlt
  · exact htwo hi hj heq hlt
  · exact htwo hj hi heq.symm hlt

theorem slotOf_eq (hmp : cfg.mp = some mp) : cfg.slotOf i = cpuSlot mp (mp.cpus.getD i 0) := by
  simp [Config.slotOf, hmp]

theorem bspSlot_eq (hmp : cfg.mp = some mp) : cfg.bspSlot = cpuSlot mp mp.bspLapicId := by
  have hlisted : cfg.platform.mp = some mp := hmp
  simp [Config.bspSlot, Platform.bspSlot, hlisted]

theorem ncpu_eq (hmp : cfg.mp = some mp) : cfg.platform.ncpu = mp.cpus.length := by
  have hlisted : cfg.platform.mp = some mp := hmp
  simp [Platform.ncpu, hlisted]

theorem Numbered.slot_inj (h : Numbered mp) (hmp : cfg.mp = some mp) (hi : IsAp mp i) (hj : IsAp mp j)
    (heq : cfg.slotOf i = cfg.slotOf j) : i = j := by
  rw [slotOf_eq hmp, slotOf_eq hmp] at heq
  exact h.place_inj hi hj (cpuSlot_inj hi.mem hj.mem heq)

theorem Numbered.slot_ne_bsp (h : Numbered mp) (hmp : cfg.mp = some mp) (hi : IsAp mp i) :
    cfg.slotOf i ≠ cfg.bspSlot := by
  intro heq
  rw [slotOf_eq hmp, bspSlot_eq hmp] at heq
  exact hi.2 (cpuSlot_inj hi.mem h.bsp heq)

/-! ## Task segments -/

/-- It has been past `gdt::load`. -/
def Ap.loaded : Ap → Bool
  | .parked | .entry | .paged => false
  | _ => true

structure Claimed (cfg : Config) (mp : MpResponse) (b : Boot) : Prop where
  goto : ∀ i, b.goto i = true → IsAp mp i
  left : ∀ i, b.ap i ≠ .parked → b.goto i = true
  busy : ∀ slot ∈ b.busy, slot = cfg.bspSlot ∨
    ∃ i, IsAp mp i ∧ (b.ap i).loaded = true ∧ cfg.slotOf i = slot
  fault : ∀ i, b.ap i ≠ .fault

/-- What a step of the first processor can do to what the others see. -/
structure BspFrame (cfg : Config) (mp : MpResponse) (b b' : Boot) : Prop where
  ap : b'.ap = b.ap
  apReady : b'.apReady = b.apReady
  irq : b'.irq = b.irq
  busy : b'.busy = b.busy ∨ b'.busy = [cfg.bspSlot]
  goto : ∀ i, b'.goto i = true → b.goto i = true ∨ IsAp mp i
  kept : ∀ i, b.goto i = true → b'.goto i = true

/-- A step that moves nothing but the first processor and its own signals. -/
theorem BspFrame.of_eq {b' : Boot} (hap : b'.ap = b.ap) (hready : b'.apReady = b.apReady)
    (hirq : b'.irq = b.irq) (hbusy : b'.busy = b.busy) (hgoto : b'.goto = b.goto) :
    BspFrame cfg mp b b' :=
  ⟨hap, hready, hirq, .inl hbusy, fun _ hi => .inl (hgoto ▸ hi), fun _ hi => hgoto ▸ hi⟩

theorem kmain_frame : BspFrame cfg mp b (b.kmain cfg) := by
  unfold Boot.kmain
  split
  · exact .of_eq rfl rfl rfl rfl rfl
  · exact ⟨rfl, rfl, rfl, .inr rfl, fun _ => .inl, fun _ => id⟩

theorem start_frame (k : Nat) : BspFrame cfg mp b (b.start mp k) := by
  unfold Boot.start
  split
  · rename_i hk
    by_cases hne : mp.cpus.getD k 0 ≠ mp.bspLapicId
    · simp only [if_pos hne]
      refine ⟨rfl, rfl, rfl, .inl rfl, fun i hi => ?_, fun i hi => ?_⟩
      · by_cases heq : i = k
        · subst heq
          exact .inr ⟨hk, hne⟩
        · exact .inl (by simpa [heq] using hi)
      · by_cases heq : i = k <;> simp [heq, hi]
    · simp only [if_neg hne]
      exact .of_eq rfl rfl rfl rfl rfl
  · exact .of_eq rfl rfl rfl rfl rfl

theorem stepBsp_frame (hmp : cfg.mp = some mp) : BspFrame cfg mp b (b.stepBsp cfg) := by
  unfold Boot.stepBsp
  simp only [hmp]
  split
  · exact kmain_frame
  · exact start_frame _
  all_goals first
    | exact .of_eq rfl rfl rfl rfl rfl
    | split <;> first
      | exact .of_eq rfl rfl rfl rfl rfl
      | split <;> exact .of_eq rfl rfl rfl rfl rfl

theorem Claimed.frame {b' : Boot} (h : Claimed cfg mp b) (hf : BspFrame cfg mp b b') :
    Claimed cfg mp b' where
  goto i hi := (hf.goto i hi).elim (h.goto i) id
  left i hi := hf.kept i (h.left i (hf.ap ▸ hi))
  busy slot hslot := by
    rcases hf.busy with heq | heq
    · rw [hf.ap]
      exact h.busy slot (heq ▸ hslot)
    · rw [heq, List.mem_singleton] at hslot
      exact .inl hslot
  fault i := by
    rw [hf.ap]
    exact h.fault i

/-- How a step of another processor changes what all see. -/
structure ApMove (cfg : Config) (b : Boot) (i : Nat) (x : Ap) (b' : Boot) : Prop where
  bsp : b'.bsp = b.bsp
  goto : b'.goto = b.goto
  ap : b'.ap = Function.update b.ap i x
  pending : b'.pending = b.pending
  bspPending : b'.bspPending = b.bspPending
  irq : b'.irq = b.irq
  started : b.goto i = true
  later : x ≠ .parked ∧ (b.ap i ≠ .ready) ∧ ((b.ap i).loaded = true → x.loaded = true)
  busy : ∀ slot ∈ b'.busy, slot ∈ b.busy ∨ slot = cfg.slotOf i ∧ x.loaded = true
  fault : x = .fault → b.ap i = .paged ∧ cfg.slotOf i ∈ b.busy
  ready : x = .ready ∧ b'.apReady = b.apReady + 1 ∨ x ≠ .ready ∧ b'.apReady = b.apReady

theorem ApMove.of_move {x : Ap} (hstarted : b.goto i = true) (hready : b.ap i ≠ .ready)
    (hlater : (b.ap i).loaded = true → x.loaded = true) (hx : x ≠ .parked ∧ x ≠ .ready ∧ x ≠ .fault) :
    ApMove cfg b i x (b.move i x) :=
  ⟨rfl, rfl, rfl, rfl, rfl, rfl, hstarted, ⟨hx.1, hready, hlater⟩, fun _ => .inl, fun h => absurd h hx.2.2,
    .inr ⟨hx.2.1, rfl⟩⟩

/-- A step of another processor leaves everything alone or moves that processor on. -/
theorem stepAp_cases (h : Claimed cfg mp b) (i : Nat) :
    b.stepAp cfg i = b ∨ ∃ x, ApMove cfg b i x (b.stepAp cfg i) := by
  have hstarted : b.ap i ≠ .parked → b.goto i = true := h.left i
  unfold Boot.stepAp
  split <;> rename_i hap
  · split
    · rename_i hgoto
      exact .inr ⟨_, .of_move hgoto (by simp [hap]) (by simp [hap, Ap.loaded]) (by simp)⟩
    · exact .inl rfl
  · split <;>
      exact .inr ⟨_, .of_move (hstarted (by simp [hap])) (by simp [hap]) (by simp [hap, Ap.loaded]) (by simp)⟩
  · split
    · exact .inr ⟨_, .of_move (hstarted (by simp [hap])) (by simp [hap]) (by simp [hap, Ap.loaded]) (by simp)⟩
    · split
      · rename_i hbusy
        exact .inr ⟨.fault, rfl, rfl, rfl, rfl, rfl, rfl, hstarted (by simp [hap]),
          ⟨by simp, by simp [hap], by simp [hap, Ap.loaded]⟩, fun _ => .inl, fun _ => ⟨hap, hbusy⟩,
          .inr ⟨by simp, rfl⟩⟩
      · exact .inr ⟨.gdt, rfl, rfl, rfl, rfl, rfl, rfl, hstarted (by simp [hap]),
          ⟨by simp, by simp [hap], by simp [hap, Ap.loaded]⟩,
          fun slot hslot => (List.mem_cons.1 hslot).elim (fun heq => .inr ⟨heq, rfl⟩) .inl, by simp,
          .inr ⟨by simp, rfl⟩⟩
  · exact .inr ⟨_, .of_move (hstarted (by simp [hap])) (by simp [hap]) (by simp [hap, Ap.loaded]) (by simp)⟩
  · split <;>
      exact .inr ⟨_, .of_move (hstarted (by simp [hap])) (by simp [hap]) (by simp [hap, Ap.loaded]) (by simp)⟩
  · split <;>
      exact .inr ⟨_, .of_move (hstarted (by simp [hap])) (by simp [hap]) (by simp [hap, Ap.loaded]) (by simp)⟩
  · exact .inr ⟨_, .of_move (hstarted (by simp [hap])) (by simp [hap]) (by simp [hap, Ap.loaded]) (by simp)⟩
  · exact .inr ⟨.ready, rfl, rfl, rfl, rfl, rfl, rfl, hstarted (by simp [hap]),
      ⟨by simp, by simp [hap], by simp [hap, Ap.loaded]⟩, fun _ => .inl, by simp, .inl ⟨rfl, rfl⟩⟩
  · exact .inl rfl
  · exact .inl rfl
  · exact .inl rfl

/-- The segment of a processor that comes to load it is still free: nobody else has its slot. -/
theorem Claimed.free (h : Claimed cfg mp b) (hnum : Numbered mp) (hmp : cfg.mp = some mp)
    (hi : IsAp mp i) (hpaged : b.ap i = .paged) : cfg.slotOf i ∉ b.busy := by
  intro hbusy
  rcases h.busy _ hbusy with heq | ⟨j, hj, hloaded, heq⟩
  · exact hnum.slot_ne_bsp hmp hi heq
  · rw [hnum.slot_inj hmp hj hi heq, hpaged] at hloaded
    exact absurd hloaded (by decide)

theorem Claimed.move {b' : Boot} {x : Ap} (h : Claimed cfg mp b) (hnum : Numbered mp)
    (hmp : cfg.mp = some mp) (hm : ApMove cfg b i x b') : Claimed cfg mp b' := by
  have hi : IsAp mp i := h.goto i hm.started
  have hfault : x ≠ .fault := by
    intro hx
    obtain ⟨hpaged, hbusy⟩ := hm.fault hx
    exact h.free hnum hmp hi hpaged hbusy
  constructor
  · intro j hj
    exact h.goto j (hm.goto ▸ hj)
  · intro j hj
    rw [hm.goto]
    by_cases heq : j = i
    · exact heq ▸ hm.started
    · rw [hm.ap, Function.update_of_ne heq] at hj
      exact h.left j hj
  · intro slot hslot
    rcases hm.busy slot hslot with hold | ⟨heq, hloaded⟩
    · rcases h.busy slot hold with heq | ⟨j, hj, hloaded, heq⟩
      · exact .inl heq
      · refine .inr ⟨j, hj, ?_, heq⟩
        rw [hm.ap]
        by_cases hji : j = i
        · subst hji
          rw [Function.update_self]
          exact hm.later.2.2 hloaded
        · rw [Function.update_of_ne hji]
          exact hloaded
    · exact .inr ⟨i, hi, by rw [hm.ap, Function.update_self]; exact hloaded, heq.symm⟩
  · intro j
    rw [hm.ap]
    by_cases hji : j = i
    · subst hji
      rw [Function.update_self]
      exact hfault
    · rw [Function.update_of_ne hji]
      exact h.fault j

theorem claimed_init : Claimed cfg mp Boot.init :=
  ⟨by simp [Boot.init], by simp [Boot.init], by simp [Boot.init], by simp [Boot.init]⟩

/-- An interrupt moves no processor. -/
theorem Claimed.interrupt {b' : Boot} (h : Claimed cfg mp b) (hap : b'.ap = b.ap) (hgoto : b'.goto = b.goto)
    (hbusy : b'.busy = b.busy) : Claimed cfg mp b' :=
  ⟨by rw [hgoto]; exact h.goto, by rw [hgoto, hap]; exact h.left, by rw [hbusy, hap]; exact h.busy,
    by rw [hap]; exact h.fault⟩

/-! ## The count of reports -/

/-- The places whose processors have reported. -/
def Boot.reported (b : Boot) (mp : MpResponse) : Finset Nat :=
  (Finset.range mp.cpus.length).filter fun i => b.ap i = .ready

/-- The places that are not the first processor's. -/
def aps (mp : MpResponse) : Finset Nat := (Finset.range mp.cpus.length).filter (IsAp mp)

def Counted (mp : MpResponse) (b : Boot) : Prop := b.apReady = UInt32.ofNat (b.reported mp).card

theorem Counted.move {b' : Boot} {x : Ap} (h : Counted mp b) (hm : ApMove cfg b i x b')
    (hi : i < mp.cpus.length) : Counted mp b' := by
  unfold Counted at *
  rcases hm.ready with ⟨hx, hready⟩ | ⟨hx, hready⟩
  · have hinsert : b'.reported mp = insert i (b.reported mp) := by
      ext j
      simp only [Boot.reported, hm.ap, hx, Finset.mem_insert, Finset.mem_filter, Finset.mem_range]
      by_cases hji : j = i
      · subst hji
        simp [hi]
      · simp [hji]
    have hnew : i ∉ b.reported mp := by
      simp [Boot.reported, hm.later.2.1]
    rw [hready, h, hinsert, Finset.card_insert_of_notMem hnew, UInt32.ofNat_add]
    rfl
  · have hsame : b'.reported mp = b.reported mp := by
      ext j
      simp only [Boot.reported, hm.ap, Finset.mem_filter]
      by_cases hji : j = i
      · subst hji
        simp [hx, hm.later.2.1]
      · simp [hji]
    rw [hready, h, hsame]

/-- All but one place at most are others'. -/
theorem Numbered.card_aps (h : Numbered mp) : (aps mp).card + 1 ≤ mp.cpus.length := by
  obtain ⟨hlt, hget⟩ := getD_cpuSlot h.bsp
  have hsub : aps mp ⊆ (Finset.range mp.cpus.length).erase (cpuSlot mp mp.bspLapicId) := by
    intro j hj
    obtain ⟨hrange, hap⟩ := Finset.mem_filter.1 hj
    refine Finset.mem_erase.2 ⟨?_, hrange⟩
    rintro rfl
    exact hap.2 hget
  have hcard := Finset.card_le_card hsub
  rw [Finset.card_erase_of_mem (Finset.mem_range.2 hlt), Finset.card_range] at hcard
  omega

theorem Claimed.reported_subset (h : Claimed cfg mp b) : b.reported mp ⊆ aps mp := by
  intro j hj
  obtain ⟨hrange, hready⟩ := Finset.mem_filter.1 hj
  refine Finset.mem_filter.2 ⟨hrange, h.goto j (h.left j ?_)⟩
  rw [hready]
  decide

/-- When as many have reported as were expected, all have. -/
theorem Claimed.all_ready (h : Claimed cfg mp b) (hnum : Numbered mp) (hmp : cfg.mp = some mp)
    (hcounted : Counted mp b) (hsized : mp.cpus.length ≤ MAX_CPUS) (hready : b.apReady = cfg.expectedAps) :
    (∀ j, IsAp mp j → b.ap j = .ready) ∧ (aps mp).card + 1 = mp.cpus.length := by
  have hsub := h.reported_subset
  have hle := Finset.card_le_card hsub
  have hone := hnum.card_aps
  have hcard : (b.reported mp).card = mp.cpus.length - 1 := by
    have hexpected : cfg.expectedAps = UInt32.ofNat (mp.cpus.length - 1) := by
      simp [Config.expectedAps, hmp]
    unfold MAX_CPUS at hsized
    rw [hcounted, hexpected] at hready
    have := congrArg UInt32.toNat hready
    rw [UInt32.toNat_ofNat', UInt32.toNat_ofNat'] at this
    omega
  have heq : b.reported mp = aps mp := Finset.eq_of_subset_of_card_le hsub (by omega)
  refine ⟨fun j hj => ?_, by rw [← heq]; omega⟩
  have hmem : j ∈ aps mp := Finset.mem_filter.2 ⟨Finset.mem_range.2 hj.1, hj⟩
  rw [← heq] at hmem
  exact (Finset.mem_filter.1 hmem).2

/-! ## Signals -/

/-- The first processor has seen every other one report. -/
def Bsp.past : Bsp → Bool
  | .startTimer | .waitSelf | .waitTicks | .waitPong | .demo | .ok => true
  | _ => false

/-- The places where an inter-processor interrupt is pending. -/
def Boot.waiting (b : Boot) (mp : MpResponse) : Finset Nat :=
  (Finset.range mp.cpus.length).filter fun i => b.pending i = true

structure Staged (mp : MpResponse) (b : Boot) : Prop where
  sized : b.bsp = .kmain ∨ (∃ error, b.bsp = .failed error) ∨ mp.cpus.length ≤ MAX_CPUS
  all : b.bsp.past = true → (∀ i, IsAp mp i → b.ap i = .ready) ∧ (aps mp).card + 1 = mp.cpus.length
  pending : ∀ i, b.pending i = true → IsAp mp i

/-- The pongs counted and the interrupts pending, by where the first processor is. -/
def Signalled (mp : MpResponse) (b : Boot) : Prop :=
  match b.bsp with
  | .kmain | .start _ | .waitReady | .readyCheck | .startTimer =>
    b.waiting mp = ∅ ∧ b.bspPending = false ∧ b.irq.ipiPong = 0
  | .waitSelf => b.waiting mp = ∅ ∧ b.irq.ipiPong.toNat + b.bspPending.toNat = 1
  | .waitTicks => b.waiting mp = ∅ ∧ b.bspPending = false ∧ b.irq.ipiPong = 1
  | .waitPong => b.bspPending = false ∧ b.irq.ipiPong.toNat + (b.waiting mp).card = mp.cpus.length
  | .demo | .ok => b.waiting mp = ∅ ∧ b.bspPending = false ∧ b.irq.ipiPong.toNat = mp.cpus.length
  | .failed _ => True

structure Inv (cfg : Config) (mp : MpResponse) (b : Boot) : Prop where
  claimed : Claimed cfg mp b
  counted : Counted mp b
  staged : Staged mp b
  signalled : Signalled mp b

theorem inv_init : Inv cfg mp Boot.init where
  claimed := claimed_init
  counted := by simp [Counted, Boot.reported, Boot.init]
  staged := ⟨.inl rfl, by simp [Boot.init, Bsp.past], by simp [Boot.init]⟩
  signalled := by simp [Signalled, Boot.init, Boot.waiting]

/-- A step of another processor sends no signal. -/
theorem Inv.move {b' : Boot} {x : Ap} (h : Inv cfg mp b) (hnum : Numbered mp) (hmp : cfg.mp = some mp)
    (hm : ApMove cfg b i x b') : Inv cfg mp b' := by
  have hi : IsAp mp i := h.claimed.goto i hm.started
  have hwaiting : b'.waiting mp = b.waiting mp := by simp only [Boot.waiting, hm.pending]
  refine ⟨h.claimed.move hnum hmp hm, h.counted.move hm hi.1, ?_, ?_⟩
  · refine ⟨by rw [hm.bsp]; exact h.staged.sized, fun hpast => ?_, by rw [hm.pending]; exact h.staged.pending⟩
    rw [hm.bsp] at hpast
    -- past the wait everybody has reported, and who has reported does not move
    exact absurd ((h.staged.all hpast).1 i hi) hm.later.2.1
  · have hs := h.signalled
    unfold Signalled at *
    rw [hm.bsp, hwaiting, hm.bspPending, hm.irq]
    exact hs

/-! ## Interrupts -/

theorem counted_ipi (t : Idt.Irq) :
    (Idt.counted IPI_VECTOR t).ipiPong = t.ipiPong + 1 ∧ (Idt.counted IPI_VECTOR t).timerTicks = t.timerTicks :=
  ⟨rfl, rfl⟩

theorem mem_waiting (hs : Staged mp b) (hi : b.pending i = true) : i ∈ b.waiting mp :=
  Finset.mem_filter.2 ⟨Finset.mem_range.2 (hs.pending i hi).1, hi⟩

/-- An interrupt that another processor takes was sent by the broadcast. -/
theorem Signalled.interruptAp (h : Signalled mp b) (hs : Staged mp b) (hi : b.pending i = true) :
    Signalled mp { b with
      pending := Function.update b.pending i false, irq := Idt.counted IPI_VECTOR b.irq } := by
  have hmem := mem_waiting hs hi
  have hempty : b.waiting mp ≠ ∅ := Finset.ne_empty_of_mem hmem
  have herase : Boot.waiting { b with
      pending := Function.update b.pending i false, irq := Idt.counted IPI_VECTOR b.irq } mp =
      (b.waiting mp).erase i := by
    ext j
    simp only [Boot.waiting, Finset.mem_filter, Finset.mem_erase]
    by_cases hji : j = i
    · simp [hji]
    · simp [hji]
  unfold Signalled at *
  cases hb : b.bsp with
  | waitPong =>
    rw [hb] at h herase
    have hsized : mp.cpus.length ≤ MAX_CPUS := by
      rcases hs.sized with hk | ⟨e, hf⟩ | hsized
      · rw [hb] at hk; cases hk
      · rw [hb] at hf; cases hf
      · exact hsized
    have hpos := Finset.card_pos.2 ⟨i, hmem⟩
    have hpong : (b.irq.ipiPong + 1).toNat = b.irq.ipiPong.toNat + 1 := by
      rw [UInt32.toNat_add]
      unfold MAX_CPUS at hsized
      show (b.irq.ipiPong.toNat + 1) % 2 ^ 32 = _
      omega
    simp only [herase, (counted_ipi b.irq).1, hpong, Finset.card_erase_of_mem hmem]
    exact ⟨h.1, by omega⟩
  | failed e => trivial
  | kmain => rw [hb] at h; exact absurd h.1 hempty
  | start k => rw [hb] at h; exact absurd h.1 hempty
  | waitReady => rw [hb] at h; exact absurd h.1 hempty
  | readyCheck => rw [hb] at h; exact absurd h.1 hempty
  | startTimer => rw [hb] at h; exact absurd h.1 hempty
  | waitSelf => rw [hb] at h; exact absurd h.1 hempty
  | waitTicks => rw [hb] at h; exact absurd h.1 hempty
  | demo => rw [hb] at h; exact absurd h.1 hempty
  | ok => rw [hb] at h; exact absurd h.1 hempty

theorem Inv.interruptAp (h : Inv cfg mp b) (i : Nat) : Inv cfg mp (b.interruptAp i) := by
  unfold Boot.interruptAp
  split
  · rename_i hguard
    refine ⟨h.claimed.interrupt rfl rfl rfl, h.counted, ⟨h.staged.sized, h.staged.all, fun j hj => ?_⟩,
      h.signalled.interruptAp h.staged hguard.2⟩
    by_cases hji : j = i
    · subst hji
      simp at hj
    · exact h.staged.pending j (by simpa [hji] using hj)
  · exact h

/-- The first processor takes only its own interrupt, and only while it waits for it. -/
theorem Inv.interruptBsp (h : Inv cfg mp b) : Inv cfg mp b.interruptBsp := by
  unfold Boot.interruptBsp
  split
  · rename_i hguard
    obtain ⟨hint, hpending⟩ := hguard
    refine ⟨h.claimed.interrupt rfl rfl rfl, h.counted, ⟨h.staged.sized, h.staged.all, h.staged.pending⟩, ?_⟩
    have hs := h.signalled
    unfold Signalled at *
    cases hb : b.bsp with
    | waitSelf =>
      rw [hb, hpending] at hs
      have hzero : b.irq.ipiPong = 0 := by
        rw [← UInt32.toNat_inj]
        exact Nat.succ.inj hs.2
      simp only [(counted_ipi b.irq).1, hzero]
      exact ⟨hs.1, rfl⟩
    | waitTicks => rw [hb] at hs; rw [hs.2.1] at hpending; cases hpending
    | waitPong => rw [hb] at hs; rw [hs.1] at hpending; cases hpending
    | kmain => rw [hb] at hint; cases hint
    | start k => rw [hb] at hint; cases hint
    | waitReady => rw [hb] at hint; cases hint
    | readyCheck => rw [hb] at hint; cases hint
    | startTimer => rw [hb] at hint; cases hint
    | demo => rw [hb] at hint; cases hint
    | ok => rw [hb] at hint; cases hint
    | failed e => trivial
  · exact h

theorem Inv.tick (h : Inv cfg mp b) : Inv cfg mp b.tick := by
  unfold Boot.tick
  split
  · exact ⟨h.claimed.interrupt rfl rfl rfl, h.counted, ⟨h.staged.sized, h.staged.all, h.staged.pending⟩,
      h.signalled⟩
  · exact h

/-! ## Steps of the first processor -/

theorem toNat_expectedAps (hmp : cfg.mp = some mp) (hsized : mp.cpus.length ≤ MAX_CPUS) :
    cfg.expectedAps.toNat = mp.cpus.length - 1 := by
  unfold MAX_CPUS at hsized
  rw [Config.expectedAps, hmp, Option.map_some, Option.getD_some, UInt32.toNat_ofNat']
  omega

/-- What is left to show of a step of the first processor. -/
theorem Inv.goes {b' : Boot} (h : Inv cfg mp b) (hf : BspFrame cfg mp b b')
    (hpending : ∀ i, b'.pending i = true → IsAp mp i)
    (hsized : (∃ error, b'.bsp = .failed error) ∨ mp.cpus.length ≤ MAX_CPUS)
    (hall : b'.bsp.past = true → (∀ i, IsAp mp i → b.ap i = .ready) ∧ (aps mp).card + 1 = mp.cpus.length)
    (hsignalled : Signalled mp b') : Inv cfg mp b' := by
  refine ⟨h.claimed.frame hf, ?_, ⟨.inr hsized, ?_, hpending⟩, hsignalled⟩
  · have hreported : b'.reported mp = b.reported mp := by simp only [Boot.reported, hf.ap]
    rw [Counted, hf.apReady, hreported]
    exact h.counted
  · rw [hf.ap]
    exact hall

theorem Inv.failed (h : Inv cfg mp b) (error : String) : Inv cfg mp { b with bsp := .failed error } :=
  h.goes (.of_eq rfl rfl rfl rfl rfl) h.staged.pending (.inl ⟨_, rfl⟩) (fun hpast => by cases hpast) trivial

theorem Inv.fail (h : Inv cfg mp b) (error : String) : Inv cfg mp (b.fail error) := h.failed _

/-- Once `kmain` has gone through, the list is not too long. -/
theorem Staged.length_le (h : Staged mp b) (hk : b.bsp ≠ .kmain) (hf : ∀ error, b.bsp ≠ .failed error) :
    mp.cpus.length ≤ MAX_CPUS := by
  rcases h.sized with heq | ⟨error, heq⟩ | hle
  · exact absurd heq hk
  · exact absurd heq (hf error)
  · exact hle

theorem Inv.kmain (h : Inv cfg mp b) (hmp : cfg.mp = some mp) (hb : b.bsp = .kmain) :
    Inv cfg mp (b.kmain cfg) := by
  have hs := h.signalled
  unfold Signalled at hs
  rw [hb] at hs
  unfold Boot.kmain
  simp only [hmp, Option.isSome_some]
  split
  · exact h.failed _
  · rename_i hrun
    have hsized := (kmain_ncpu hrun).2
    rw [ncpu_eq hmp] at hsized
    exact h.goes ⟨rfl, rfl, rfl, .inr rfl, fun _ => .inl, fun _ => id⟩ h.staged.pending
      (.inr hsized) (fun hpast => by cases hpast) hs

theorem Inv.start (h : Inv cfg mp b) (k : Nat) (hb : b.bsp = .start k) : Inv cfg mp (b.start mp k) := by
  have hsized := h.staged.length_le (by simp [hb]) (by simp [hb])
  have hframe := @start_frame cfg mp b k
  have hs := h.signalled
  unfold Signalled at hs
  rw [hb] at hs
  unfold Boot.start at *
  split
  · rename_i hk
    rw [if_pos hk] at hframe
    exact h.goes hframe h.staged.pending (.inr hsized) (fun hpast => by cases hpast) hs
  · exact h.goes (.of_eq rfl rfl rfl rfl rfl) h.staged.pending (.inr hsized) (fun hpast => by cases hpast) hs

/-- The broadcast reaches every other processor: all of them listen. -/
theorem waiting_broadcast (hall : ∀ i, IsAp mp i → b.ap i = .ready) :
    (b.broadcast mp).waiting mp = b.waiting mp ∪ aps mp := by
  ext j
  simp only [Boot.waiting, Boot.broadcast, aps, Finset.mem_filter, Finset.mem_union, Finset.mem_range,
    Bool.or_eq_true, Bool.and_eq_true, decide_eq_true_eq, bne_iff_ne]
  constructor
  · rintro ⟨hj, hp | hp⟩
    · exact .inl ⟨hj, hp⟩
    · exact .inr ⟨hj, hp.1⟩
  · rintro (⟨hj, hp⟩ | ⟨hj, hp⟩)
    · exact ⟨hj, .inl hp⟩
    · exact ⟨hj, .inr ⟨hp, by rw [hall j hp]; rfl⟩⟩

/-- The phase of `Signalled` that the first processor is in. -/
theorem Inv.signals (h : Inv cfg mp b) {p : Bsp} (hb : b.bsp = p) : Signalled mp { b with bsp := p } := by
  have hs := h.signalled
  subst hb
  exact hs

theorem Inv.goes_to (h : Inv cfg mp b) {p : Bsp} (hsized : mp.cpus.length ≤ MAX_CPUS)
    (hall : p.past = true → (∀ i, IsAp mp i → b.ap i = .ready) ∧ (aps mp).card + 1 = mp.cpus.length)
    (hsignalled : Signalled mp { b with bsp := p }) : Inv cfg mp { b with bsp := p } :=
  h.goes (.of_eq rfl rfl rfl rfl rfl) h.staged.pending (.inr hsized) hall hsignalled

theorem Inv.waitReady (h : Inv cfg mp b) (hb : b.bsp = .waitReady) :
    Inv cfg mp { b with bsp := .readyCheck } :=
  h.goes_to (h.staged.length_le (by simp [hb]) (by simp [hb])) (fun hpast => by cases hpast)
    (show Signalled mp { b with bsp := .waitReady } from h.signals hb)

theorem Inv.readyCheck (h : Inv cfg mp b) (hnum : Numbered mp) (hmp : cfg.mp = some mp)
    (hb : b.bsp = .readyCheck) (hready : b.apReady = cfg.expectedAps) :
    Inv cfg mp { b with bsp := .startTimer } := by
  have hsized := h.staged.length_le (by simp [hb]) (by simp [hb])
  exact h.goes_to hsized (fun _ => h.claimed.all_ready hnum hmp h.counted hsized hready)
    (show Signalled mp { b with bsp := .readyCheck } from h.signals hb)

theorem Inv.startTimer (h : Inv cfg mp b) (hb : b.bsp = .startTimer) :
    Inv cfg mp { b with bspPending := true, bsp := .waitSelf } := by
  obtain ⟨hempty, -, hpong⟩ := h.signals hb
  refine h.goes (.of_eq rfl rfl rfl rfl rfl) h.staged.pending
    (.inr (h.staged.length_le (by simp [hb]) (by simp [hb]))) (fun _ => h.staged.all (by rw [hb]; rfl))
    ⟨hempty, ?_⟩
  have hzero : b.irq.ipiPong = 0 := hpong
  show b.irq.ipiPong.toNat + true.toNat = 1
  rw [hzero]
  rfl

theorem Inv.waitSelf (h : Inv cfg mp b) (hb : b.bsp = .waitSelf) (hpong : ¬ b.irq.ipiPong < 1) :
    Inv cfg mp { b with bsp := .waitTicks } := by
  obtain ⟨hempty, hsum⟩ := h.signals hb
  have hsum' : b.irq.ipiPong.toNat + b.bspPending.toNat = 1 := hsum
  have hone : 1 ≤ b.irq.ipiPong.toNat := UInt32.le_iff_toNat_le.1 (UInt32.not_lt.1 hpong)
  have hpending : b.bspPending = false := by
    cases hp : b.bspPending with
    | false => rfl
    | true =>
      rw [hp, Bool.toNat_true] at hsum'
      omega
  rw [hpending, Bool.toNat_false] at hsum'
  exact h.goes_to (h.staged.length_le (by simp [hb]) (by simp [hb])) (fun _ => h.staged.all (by rw [hb]; rfl))
    ⟨hempty, hpending, UInt32.toNat_inj.1 hsum'⟩

/-- The broadcast: everybody listens, so as many interrupts are pending as there are others. -/
theorem Inv.broadcasts (h : Inv cfg mp b) (hb : b.bsp = .waitTicks) :
    Inv cfg mp { b.broadcast mp with bsp := .waitPong } := by
  obtain ⟨hall, hcard⟩ := h.staged.all (by rw [hb]; rfl)
  obtain ⟨hempty, hpending, hpong⟩ := h.signals hb
  have hempty' : b.waiting mp = ∅ := hempty
  have hpong' : b.irq.ipiPong = 1 := hpong
  refine h.goes (.of_eq rfl rfl rfl rfl rfl) (fun i hi => ?_)
    (.inr (h.staged.length_le (by simp [hb]) (by simp [hb]))) (fun _ => ⟨hall, hcard⟩) ⟨hpending, ?_⟩
  · simp only [Boot.broadcast, Bool.or_eq_true, Bool.and_eq_true, decide_eq_true_eq, bne_iff_ne] at hi
    exact hi.elim (h.staged.pending i) fun hi => hi.1
  · show b.irq.ipiPong.toNat + ((b.broadcast mp).waiting mp).card = _
    rw [waiting_broadcast hall, hempty', Finset.empty_union, hpong', ← hcard, Nat.add_comm]
    rfl

/-- Alone, the first processor has nobody to wait for. -/
theorem Inv.alone (h : Inv cfg mp b) (hmp : cfg.mp = some mp) (hb : b.bsp = .waitTicks)
    (hnone : ¬ cfg.expectedAps > 0) : Inv cfg mp { b with bsp := .demo } := by
  have hsized := h.staged.length_le (by simp [hb]) (by simp [hb])
  have hexpected := toNat_expectedAps hmp hsized
  obtain ⟨hall, hcard⟩ := h.staged.all (by rw [hb]; rfl)
  obtain ⟨hempty, hpending, hpong⟩ := h.signals hb
  have hpong' : b.irq.ipiPong = 1 := hpong
  have hzero : cfg.expectedAps.toNat = 0 := by
    simpa [UInt32.lt_iff_toNat_lt] using hnone
  refine h.goes_to hsized (fun _ => ⟨hall, hcard⟩) ⟨hempty, hpending, ?_⟩
  show b.irq.ipiPong.toNat = _
  rw [hpong']
  show 1 = _
  omega

/-- As many pongs as processors: no interrupt is pending. -/
theorem Inv.waitPong (h : Inv cfg mp b) (hmp : cfg.mp = some mp) (hb : b.bsp = .waitPong)
    (hpong : ¬ b.irq.ipiPong < 1 + cfg.expectedAps) : Inv cfg mp { b with bsp := .demo } := by
  have hsized := h.staged.length_le (by simp [hb]) (by simp [hb])
  have hexpected := toNat_expectedAps hmp hsized
  have hall := h.staged.all (by rw [hb]; rfl)
  obtain ⟨hpending, hsum⟩ := h.signals hb
  have hsum' : b.irq.ipiPong.toNat + (b.waiting mp).card = mp.cpus.length := hsum
  have hge : mp.cpus.length ≤ b.irq.ipiPong.toNat := by
    have hle := UInt32.le_iff_toNat_le.1 (UInt32.not_lt.1 hpong)
    have hone : (1 : UInt32).toNat = 1 := rfl
    rw [UInt32.toNat_add, hexpected, hone] at hle
    unfold MAX_CPUS at hsized
    omega
  have hempty : b.waiting mp = ∅ := Finset.card_eq_zero.1 (by omega)
  exact h.goes_to hsized (fun _ => hall) ⟨hempty, hpending, by show b.irq.ipiPong.toNat = _; omega⟩

theorem Inv.demo (h : Inv cfg mp b) (hb : b.bsp = .demo) : Inv cfg mp { b with bsp := .ok } :=
  h.goes_to (h.staged.length_le (by simp [hb]) (by simp [hb])) (fun _ => h.staged.all (by rw [hb]; rfl))
    (show Signalled mp { b with bsp := .demo } from h.signals hb)

theorem Inv.stepBsp (h : Inv cfg mp b) (hnum : Numbered mp) (hmp : cfg.mp = some mp) :
    Inv cfg mp (b.stepBsp cfg) := by
  unfold Boot.stepBsp
  simp only [hmp]
  split <;> rename_i hb
  · exact h.kmain hmp hb
  · exact h.start _ hb
  · split
    · exact h
    · exact h.waitReady hb
  · split
    · exact h.fail _
    · rename_i hready
      exact h.readyCheck hnum hmp hb (not_not.1 hready)
  · exact h.startTimer hb
  · split
    · exact h
    · rename_i hpong
      exact h.waitSelf hb hpong
  · split
    · exact h
    · split
      · exact h.broadcasts hb
      · rename_i hnone
        exact h.alone hmp hb hnone
  · split
    · exact h
    · rename_i hpong
      exact h.waitPong hmp hb hpong
  · split
    · exact h.demo hb
    · exact h.fail _
  · exact h
  · exact h

theorem Inv.giveUp (h : Inv cfg mp b) : Inv cfg mp (b.giveUp cfg) := by
  unfold Boot.giveUp
  split
  · rename_i hb
    exact h.waitReady hb
  · exact h.fail _
  · exact h.fail _
  · exact h.fail _
  · exact h

theorem Inv.step (h : Inv cfg mp b) (hnum : Numbered mp) (hmp : cfg.mp = some mp) (a : Act) :
    Inv cfg mp (step cfg b a) := by
  cases a with
  | bsp => exact h.stepBsp hnum hmp
  | giveUp => exact h.giveUp
  | ap i =>
    rcases stepAp_cases h.claimed i with heq | ⟨x, hm⟩
    · show Inv cfg mp (b.stepAp cfg i)
      rw [heq]
      exact h
    · exact h.move hnum hmp hm
  | interruptAp i => exact h.interruptAp i
  | interruptBsp => exact h.interruptBsp
  | tick => exact h.tick

theorem inv_after (hnum : Numbered mp) (hmp : cfg.mp = some mp) (acts : List Act) :
    Inv cfg mp (after cfg acts) :=
  (machine cfg).run_invariant (fun _ a h => h.step hnum hmp a) inv_init acts

/-! ## When a task segment is loaded twice -/

/-- A configuration with which `kmain` goes through, and leaves tables to load. -/
structure Boots (cfg : Config) (mp : MpResponse) : Prop where
  listed : cfg.mp = some mp
  goes : ∃ pages s, RootCourt.kmain cfg.platform cfg.early = .ok pages s ∧ s.rootCr3 ≠ 0

theorem Boots.pos (h : Boots cfg mp) : 0 < mp.cpus.length := by
  obtain ⟨pages, s, hrun, -⟩ := h.goes
  rw [← ncpu_eq h.listed]
  exact (kmain_ncpu hrun).1

theorem Boots.some_cpu (h : Boots cfg mp) : mp.cpus ≠ [] := List.length_pos_iff.1 h.pos

theorem Boots.sized (h : Boots cfg mp) : mp.cpus.length ≤ MAX_CPUS := by
  obtain ⟨pages, s, hrun, -⟩ := h.goes
  rw [← ncpu_eq h.listed]
  exact (kmain_ncpu hrun).2

theorem cpuSlot_lt (hne : mp.cpus ≠ []) (x : UInt32) : cpuSlot mp x < mp.cpus.length := by
  by_cases hx : x ∈ mp.cpus
  · exact (getD_cpuSlot hx).1
  · rw [cpuSlot, List.idxOf?_eq_none_iff.2 hx]
    exact List.length_pos_iff.2 hne

/-- What the others find when the first processor is in its loop. -/
structure Launching (cfg : Config) (mp : MpResponse) (k : Nat) (b : Boot) : Prop where
  bsp : b.bsp = .start k
  ap : ∀ i, b.ap i = .parked
  goto : ∀ i, i < k → IsAp mp i → b.goto i = true
  busy : cfg.bspSlot ∈ b.busy
  cr3 : b.rootCr3 ≠ 0

/-- `kmain` goes through. -/
theorem Boots.kmain_eq (h : Boots cfg mp) {pages : PageMap} {s : Early}
    (hrun : RootCourt.kmain cfg.platform cfg.early = .ok pages s) :
    Boot.init.kmain cfg = { Boot.init with
      bsp := .start 0, rootCr3 := s.rootCr3, tops := Stack.top s, busy := [cfg.bspSlot] } := by
  rw [Boot.kmain, hrun]
  simp [h.listed]

theorem Boots.kmain (h : Boots cfg mp) : Launching cfg mp 0 (Boot.init.kmain cfg) := by
  obtain ⟨pages, s, hrun, hcr3⟩ := h.goes
  rw [h.kmain_eq hrun]
  exact ⟨rfl, fun _ => rfl, fun _ hi => absurd hi (Nat.not_lt_zero _), List.mem_singleton.2 rfl, hcr3⟩

theorem Launching.start {k : Nat} (h : Launching cfg mp k b) (hk : k < mp.cpus.length) :
    Launching cfg mp (k + 1) (b.start mp k) := by
  unfold Boot.start
  rw [if_pos hk]
  refine ⟨rfl, h.ap, fun i hi hap => ?_, h.busy, h.cr3⟩
  show (if mp.cpus.getD k 0 ≠ mp.bspLapicId then Function.update b.goto k true else b.goto) i = true
  by_cases heq : i = k
  · subst heq
    rw [if_pos hap.2, Function.update_self]
  · have hgoto := h.goto i (by omega) hap
    split
    · rw [Function.update_of_ne heq, hgoto]
    · exact hgoto

/-- Every processor of the list can be launched before any of them moves. -/
theorem Boots.launch (h : Boots cfg mp) {k : Nat} (hk : k ≤ mp.cpus.length) :
    Launching cfg mp k (after cfg (List.replicate (k + 1) .bsp)) := by
  induction k with
  | zero => exact h.kmain
  | succ k ih =>
    have hbefore := ih (by omega)
    have hstep : after cfg (List.replicate (k + 1 + 1) .bsp) =
        step cfg (after cfg (List.replicate (k + 1) .bsp)) .bsp := by
      rw [List.replicate_succ', after, Machine.run_concat]
      rfl
    rw [hstep]
    have hmp := h.listed
    have hbsp := hbefore.bsp
    simp only [step, Boot.stepBsp, hbsp, hmp]
    exact hbefore.start (by omega)

/-- The first steps of another processor, up to its `ltr`. -/
theorem run_to_ltr {b : Boot} (hparked : b.ap i = .parked) (hgoto : b.goto i = true) (hcr3 : b.rootCr3 ≠ 0)
    (hslot : cfg.slotOf i < MAX_CPUS) :
    ∃ b', (machine cfg).run b [.ap i, .ap i, .ap i] = b' ∧ b'.goto = b.goto ∧ b'.rootCr3 = b.rootCr3 ∧
      (∀ j, j ≠ i → b'.ap j = b.ap j) ∧
      (cfg.slotOf i ∈ b.busy → b'.ap i = .fault) ∧ (cfg.slotOf i ∉ b.busy → cfg.slotOf i ∈ b'.busy) := by
  have h1 : b.stepAp cfg i = b.move i .entry := by simp [Boot.stepAp, hparked, hgoto]
  have h2 : (b.move i .entry).stepAp cfg i = (b.move i .entry).move i .paged := by
    simp [Boot.stepAp, Boot.move, hcr3]
  refine ⟨_, rfl, ?_⟩
  show let b' := ((b.stepAp cfg i).stepAp cfg i).stepAp cfg i
    b'.goto = b.goto ∧ b'.rootCr3 = b.rootCr3 ∧ (∀ j, j ≠ i → b'.ap j = b.ap j) ∧
      (cfg.slotOf i ∈ b.busy → b'.ap i = .fault) ∧ (cfg.slotOf i ∉ b.busy → cfg.slotOf i ∈ b'.busy)
  rw [h1, h2]
  have hlt : ¬ cfg.slotOf i ≥ MAX_CPUS := by omega
  by_cases hbusy : cfg.slotOf i ∈ b.busy
  · have h3 : ((b.move i .entry).move i .paged).stepAp cfg i =
        ((b.move i .entry).move i .paged).move i .fault := by
      simp [Boot.stepAp, Boot.move, hlt, hbusy]
    rw [h3]
    refine ⟨rfl, rfl, fun j hj => by simp [Boot.move, hj], fun _ => by simp [Boot.move], fun h => absurd hbusy h⟩
  · have h3 : ((b.move i .entry).move i .paged).stepAp cfg i =
        { ((b.move i .entry).move i .paged).move i .gdt with busy := cfg.slotOf i :: b.busy } := by
      simp [Boot.stepAp, Boot.move, hlt, hbusy]
    rw [h3]
    exact ⟨rfl, rfl, fun j hj => by simp [Boot.move, hj], fun h => absurd h hbusy,
      fun _ => List.mem_cons_self⟩

/-- A processor whose task segment is taken can run into the fault. -/
theorem Boots.fault_of_busy (h : Boots cfg mp) {acts : List Act} (hparked : (after cfg acts).ap i = .parked)
    (hgoto : (after cfg acts).goto i = true) (hcr3 : (after cfg acts).rootCr3 ≠ 0)
    (hbusy : cfg.slotOf i ∈ (after cfg acts).busy) : ∃ acts i, (after cfg acts).ap i = .fault := by
  have hslot : cfg.slotOf i < MAX_CPUS := by
    rw [slotOf_eq h.listed]
    exact Nat.lt_of_lt_of_le (cpuSlot_lt h.some_cpu _) h.sized
  obtain ⟨b', hrun, -, -, -, hfault, -⟩ := run_to_ltr hparked hgoto hcr3 hslot
  refine ⟨acts ++ [.ap i, .ap i, .ap i], i, ?_⟩
  rw [after, Machine.run_append]
  show ((machine cfg).run (after cfg acts) _).ap i = _
  rw [hrun]
  exact hfault hbusy

/-- Two others with the same number, or a first processor that the list leaves out. -/
theorem not_numbered (h : ¬ Numbered mp) :
    mp.bspLapicId ∉ mp.cpus ∨
      ∃ i j, i < j ∧ IsAp mp i ∧ IsAp mp j ∧ mp.cpus.getD i 0 = mp.cpus.getD j 0 := by
  by_cases hbsp : mp.bspLapicId ∈ mp.cpus
  · right
    have hdup : ¬ (mp.cpus.filter (· ≠ mp.bspLapicId)).Nodup := fun hnodup => h ⟨hbsp, hnodup⟩
    rw [List.nodup_iff_count_le_one] at hdup
    simp only [not_forall, not_le] at hdup
    obtain ⟨x, hx⟩ := hdup
    have hmem : x ∈ mp.cpus.filter (· ≠ mp.bspLapicId) := List.count_pos_iff.1 (by omega)
    obtain ⟨-, hxbsp⟩ := List.mem_filter.1 hmem
    rw [List.count_filter (by simpa using hxbsp)] at hx
    obtain ⟨⟨i, hi⟩, ⟨j, hj⟩, hij, hxi, hxj⟩ :=
      List.duplicate_iff_exists_distinct_get.1 (List.duplicate_iff_two_le_count.2 hx)
    have hgi : mp.cpus.getD i 0 = x := by rw [List.getD_eq_getElem _ _ hi]; exact hxi.symm
    have hgj : mp.cpus.getD j 0 = x := by rw [List.getD_eq_getElem _ _ hj]; exact hxj.symm
    have hx' : x ≠ mp.bspLapicId := by simpa using hxbsp
    exact ⟨i, j, hij, ⟨hi, hgi ▸ hx'⟩, ⟨hj, hgj ▸ hx'⟩, hgi.trans hgj.symm⟩
  · exact .inl hbsp

/-- When can a processor fault on a task segment that is in use?  Exactly if the boot loader leaves the
first processor out of its list, or gives two others one number: `cpu_slot` then gives two
processors one slot. -/
theorem segment_fault_iff (h : Boots cfg mp) :
    (∃ acts i, (after cfg acts).ap i = .fault) ↔ ¬ Numbered mp := by
  constructor
  · rintro ⟨acts, i, hfault⟩ hnum
    exact (inv_after hnum h.listed acts).claimed.fault i hfault
  · intro hnum
    have hlaunch := h.launch (Nat.le_refl _)
    have hpos := h.pos
    rcases not_numbered hnum with hbsp | ⟨i, j, hij, hi, hj, heq⟩
    · -- the first processor took slot 0, which is that of the first in the list
      have hfirst : IsAp mp 0 := by
        refine ⟨hpos, fun heq => hbsp ?_⟩
        rw [← heq, List.getD_eq_getElem _ _ hpos]
        exact List.getElem_mem hpos
      have hzero : cfg.bspSlot = 0 := by
        rw [bspSlot_eq h.listed, cpuSlot, List.idxOf?_eq_none_iff.2 hbsp]
        rfl
      have hslot : cfg.slotOf 0 = 0 := by
        rw [slotOf_eq h.listed, cpuSlot, List.idxOf?_eq_some_iff.2 ⟨hpos,
          (List.getD_eq_getElem _ _ hpos).symm, fun j hj => absurd hj (Nat.not_lt_zero j)⟩]
        rfl
      exact h.fault_of_busy (hlaunch.ap 0) (hlaunch.goto 0 hpos hfirst) hlaunch.cr3
        (by rw [hslot, ← hzero]; exact hlaunch.busy)
    · have hslot : cfg.slotOf i = cfg.slotOf j := by rw [slotOf_eq h.listed, slotOf_eq h.listed, heq]
      by_cases hbusy : cfg.slotOf i ∈ (after cfg (List.replicate (mp.cpus.length + 1) .bsp)).busy
      · exact h.fault_of_busy (hlaunch.ap i) (hlaunch.goto i hi.1 hi) hlaunch.cr3 hbusy
      · have hlt : cfg.slotOf i < MAX_CPUS := by
          rw [slotOf_eq h.listed]
          exact Nat.lt_of_lt_of_le (cpuSlot_lt h.some_cpu _) h.sized
        obtain ⟨b', hrun, hgoto, hcr3, hap, -, hnew⟩ :=
          run_to_ltr (hlaunch.ap i) (hlaunch.goto i hi.1 hi) hlaunch.cr3 hlt
        have hafter : after cfg (List.replicate (mp.cpus.length + 1) .bsp ++ [.ap i, .ap i, .ap i]) = b' := by
          rw [after, Machine.run_append]
          exact hrun
        refine @Boots.fault_of_busy cfg mp j h
          (List.replicate (mp.cpus.length + 1) .bsp ++ [.ap i, .ap i, .ap i]) ?_ ?_ ?_ ?_
        all_goals rw [hafter]
        · rw [hap j (by omega)]
          exact hlaunch.ap j
        · rw [hgoto]
          exact hlaunch.goto j hj.1 hj
        · rw [hcr3]
          exact hlaunch.cr3
        · rw [← hslot]
          exact hnew hbusy

/-- The small machine, with these processors, on which everything else goes well. -/
def smallConfig (mp : MpResponse) : Config := ⟨smallMachine (some mp), smallEarly, fun _ => true, .ok ()⟩

theorem boots_smallConfig (hcpus : 0 < mp.cpus.length ∧ mp.cpus.length ≤ 8) : Boots (smallConfig mp) mp := by
  obtain ⟨pages, s, hrun⟩ := smallMachine_boots (some mp) hcpus
  obtain ⟨b, place, k, hbooted⟩ := wp_ok (kmain_spec (smallMachine_sane (some mp)) rfl rfl) hrun
  exact ⟨rfl, pages, s, hrun, hbooted.rootCr3_ne⟩

/-- A list of one processor that is not the first one. -/
theorem segment_fault_iff_left_out : ∃ acts i, (after (smallConfig ⟨7, [0]⟩) acts).ap i = .fault :=
  (segment_fault_iff (boots_smallConfig (by decide))).2 fun hnum => absurd hnum.bsp (by decide)

end

end BringUp

end RootCourt

end CourtKernel
