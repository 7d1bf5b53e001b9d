import CourtKernel.RootCourt.BringUpProgress

/-!
# From the boot loader to `BOOT_OK`

The bring-up, tied to what lies below it: to the tables and stacks that `kmain` leaves behind, and to the
descriptor tables of `gdt.rs`.

* `Tied` — in every run the processors use the tables and stacks of `kmain`, and hold different slots.
* `gdt_load_agrees` — where the bring-up looks into its list of busy slots, it does what `Gdt.load` does
  on the descriptor tables after the loads so far.
* `boot_ok_complete` — what holds when `BOOT_OK` is printed.
* `boot_finishes` — that it is printed, if nothing is missing and no wait gives up.
-/

namespace CourtKernel

open X86

namespace RootCourt

namespace BringUp

/-- It has its task segment. -/
def Ap.holds : Ap → Bool
  | .gdt | .idt | .apic | .stacked | .unmasked | .ready => true
  | _ => false

structure Tied (cfg : Config) (b : Boot) : Prop where
  fresh : b.bsp = .kmain → b = Boot.init
  booted : b.bsp ≠ .kmain → (∀ error, b.bsp ≠ .failed error) → cfg.bspSlot ∈ b.busy ∧
    ∃ pages s, RootCourt.kmain cfg.platform cfg.early = .ok pages s ∧ b.rootCr3 = s.rootCr3 ∧
      b.tops = Stack.top s
  nodup : b.busy.Nodup
  range : ∀ slot ∈ b.busy, slot < MAX_CPUS
  held : ∀ i, (b.ap i).holds = true → cfg.slotOf i ∈ b.busy

/-- A later step that loads no segment. -/
structure Plain (b b' : Boot) : Prop where
  bsp : b'.bsp ≠ .kmain
  failed : ∀ error, b.bsp = .failed error → b'.bsp = .failed error
  rootCr3 : b'.rootCr3 = b.rootCr3
  tops : b'.tops = b.tops
  busy : b'.busy = b.busy
  holds : ∀ i, (b'.ap i).holds = true → (b.ap i).holds = true

section

variable {cfg : Config} {mp : MpResponse} {b b' : Boot} {i : Nat}

theorem tied_init : Tied cfg Boot.init :=
  ⟨fun _ => rfl, fun h => absurd rfl h, List.nodup_nil, by simp [Boot.init], by simp [Boot.init, Ap.holds]⟩

theorem Plain.refl (hb : b.bsp ≠ .kmain) : Plain b b := ⟨hb, fun _ => id, rfl, rfl, rfl, fun _ => id⟩

theorem Tied.plain (h : Tied cfg b) (hk : b.bsp ≠ .kmain) (hp : Plain b b') : Tied cfg b' := by
  constructor
  · intro hb
    exact absurd hb hp.bsp
  · intro _ hfailed
    rw [hp.rootCr3, hp.tops, hp.busy]
    exact h.booted hk fun error hb => hfailed error (hp.failed error hb)
  · rw [hp.busy]
    exact h.nodup
  · rw [hp.busy]
    exact h.range
  · intro i hi
    rw [hp.busy]
    exact h.held i (hp.holds i hi)

/-- `kmain` is the first step. -/
theorem tied_kmain : Tied cfg (Boot.init.kmain cfg) := by
  unfold Boot.kmain
  split
  · exact ⟨by simp, fun _ hne => absurd rfl (hne _), List.nodup_nil, by simp [Boot.init],
      by simp [Boot.init, Ap.holds]⟩
  · rename_i pages s hrun
    have hncpu := kmain_ncpu hrun
    have hslot : cfg.bspSlot < MAX_CPUS := by
      rcases cfg.platform.bspSlot_lt with hzero | hlt
      · rw [Config.bspSlot, hzero]
        decide
      · exact Nat.lt_of_lt_of_le hlt hncpu.2
    refine ⟨fun hb => ?_, fun _ _ => ⟨by simp, pages, s, hrun, rfl, rfl⟩, by simp, by simpa using hslot,
      by simp [Boot.init, Ap.holds]⟩
    dsimp only at hb
    split at hb <;> cases hb

/-- The first processor goes on, and has not failed before. -/
theorem Plain.goes (hf : ∀ error, b.bsp ≠ .failed error) (hk : b'.bsp ≠ .kmain)
    (hcr3 : b'.rootCr3 = b.rootCr3) (htops : b'.tops = b.tops) (hbusy : b'.busy = b.busy) (hap : b'.ap = b.ap) : Plain b b' :=
  ⟨hk, fun error hb => absurd hb (hf error), hcr3, htops, hbusy, fun i hi => by rwa [hap] at hi⟩

theorem stepBsp_plain (hk : b.bsp ≠ .kmain) : Plain b (b.stepBsp cfg) := by
  by_cases hf : ∀ error, b.bsp ≠ .failed error
  · unfold Boot.stepBsp
    split
    · rename_i hb
      exact absurd hb hk
    · split
      · unfold Boot.start
        split <;> exact .goes hf (by simp) rfl rfl rfl rfl
      · exact .refl hk
    · split
      · exact .refl hk
      · exact .goes hf (by simp) rfl rfl rfl rfl
    · split <;> exact .goes hf (by simp [Boot.fail]) rfl rfl rfl rfl
    · exact .goes hf (by simp) rfl rfl rfl rfl
    · split
      · exact .refl hk
      · exact .goes hf (by simp) rfl rfl rfl rfl
    · split
      · exact .refl hk
      · split
        · split
          · exact .goes hf (by simp) rfl rfl rfl rfl
          · exact .refl hk
        · exact .goes hf (by simp) rfl rfl rfl rfl
    · split
      · exact .refl hk
      · exact .goes hf (by simp) rfl rfl rfl rfl
    · split <;> exact .goes hf (by simp [Boot.fail]) rfl rfl rfl rfl
    · exact .refl hk
    · exact .refl hk
  · simp only [not_forall, not_not] at hf
    obtain ⟨error, hb⟩ := hf
    rw [show b.stepBsp cfg = b by simp [Boot.stepBsp, hb]]
    exact .refl hk

theorem giveUp_plain (hk : b.bsp ≠ .kmain) : Plain b (b.giveUp cfg) := by
  unfold Boot.giveUp
  split
  case h_5 => exact .refl hk
  all_goals
    rename_i hb
    exact .goes (by simp [hb]) (by simp [Boot.fail]) rfl rfl rfl rfl

theorem move_plain (hk : b.bsp ≠ .kmain) {x : Ap} (hx : x.holds = true → (b.ap i).holds = true) :
    Plain b (b.move i x) := by
  refine ⟨hk, fun _ => id, rfl, rfl, rfl, fun j hj => ?_⟩
  by_cases hji : j = i
  · subst hji
    exact hx (by simpa [Boot.move] using hj)
  · simpa [Boot.move, hji] using hj

/-- A step of another processor is plain, or loads a segment that is free. -/
theorem stepAp_loads (hk : b.bsp ≠ .kmain) (i : Nat) : Plain b (b.stepAp cfg i) ∨
    b.ap i = .paged ∧ cfg.slotOf i < MAX_CPUS ∧ cfg.slotOf i ∉ b.busy ∧
      b.stepAp cfg i = { b.move i .gdt with busy := cfg.slotOf i :: b.busy } := by
  unfold Boot.stepAp
  split <;> rename_i hap
  case h_3 =>
    split
    · exact .inl (move_plain hk (by simp [Ap.holds]))
    · rename_i hlt
      split
      · exact .inl (move_plain hk (by simp [Ap.holds]))
      · rename_i hfree
        exact .inr ⟨hap, Nat.lt_of_not_le hlt, hfree, rfl⟩
  case h_8 =>
    -- the count of those that have reported is no matter here
    have hmoved : Plain b (b.move i .ready) := move_plain hk (by simp [hap, Ap.holds])
    exact .inl ⟨hmoved.bsp, hmoved.failed, rfl, rfl, rfl, hmoved.holds⟩
  all_goals left
  all_goals first
    | exact .refl hk
    | exact move_plain hk (by simp [hap, Ap.holds])
    | split <;> first
      | exact .refl hk
      | exact move_plain hk (by simp [hap, Ap.holds])

theorem Tied.loads (h : Tied cfg b) (hk : b.bsp ≠ .kmain) (hlt : cfg.slotOf i < MAX_CPUS)
    (hfree : cfg.slotOf i ∉ b.busy) :
    Tied cfg { b.move i .gdt with busy := cfg.slotOf i :: b.busy } := by
  refine ⟨fun hb => absurd hb hk, fun _ hfailed => ?_, List.nodup_cons.2 ⟨hfree, h.nodup⟩, ?_, ?_⟩
  · obtain ⟨hslot, hkmain⟩ := h.booted hk hfailed
    exact ⟨List.mem_cons_of_mem _ hslot, hkmain⟩
  · simpa using ⟨hlt, h.range⟩
  · intro j hj
    by_cases hji : j = i
    · subst hji
      exact List.mem_cons_self
    · exact List.mem_cons_of_mem _ (h.held j (by simpa [Boot.move, hji] using hj))

/-- Before `kmain` nobody else does anything. -/
theorem step_init {a : Act} (ha : a ≠ .bsp) : step cfg Boot.init a = Boot.init := by
  cases a with
  | bsp => exact absurd rfl ha
  | giveUp => rfl
  | ap i => simp [step, Boot.stepAp, Boot.init]
  | interruptAp i => simp [step, Boot.interruptAp, Boot.init]
  | interruptBsp => simp [step, Boot.interruptBsp, Boot.init]
  | tick => simp [step, Boot.tick, Boot.init, Bsp.interruptible]

theorem Tied.step (h : Tied cfg b) (a : Act) : Tied cfg (step cfg b a) := by
  by_cases hk : b.bsp = .kmain
  · rw [h.fresh hk]
    by_cases ha : a = .bsp
    · subst ha
      exact tied_kmain
    · rw [step_init ha]
      exact tied_init
  · cases a with
    | bsp => exact h.plain hk (stepBsp_plain hk)
    | giveUp => exact h.plain hk (giveUp_plain hk)
    | ap i =>
      show Tied cfg (b.stepAp cfg i)
      rcases stepAp_loads hk i with hp | ⟨-, hlt, hfree, heq⟩
      · exact h.plain hk hp
      · rw [heq]
        exact h.loads hk hlt hfree
    | interruptAp i =>
      apply h.plain hk
      show Plain b (b.interruptAp i)
      unfold Boot.interruptAp
      split <;> exact ⟨hk, fun _ => id, rfl, rfl, rfl, fun _ => id⟩
    | interruptBsp =>
      apply h.plain hk
      show Plain b b.interruptBsp
      unfold Boot.interruptBsp
      split <;> exact ⟨hk, fun _ => id, rfl, rfl, rfl, fun _ => id⟩
    | tick =>
      apply h.plain hk
      show Plain b b.tick
      unfold Boot.tick
      split <;> exact ⟨hk, fun _ => id, rfl, rfl, rfl, fun _ => id⟩

theorem tied_after (acts : List Act) : Tied cfg (after cfg acts) :=
  (machine cfg).run_invariant (fun _ a h => h.step a) tied_init acts

/-! ## Task segments -/

/-- The calls of `gdt::load` that went through, in their order; the processor of a slot is `core slot`. -/
def Boot.loads (b : Boot) (core : Nat → Core) : List (Nat × Core) :=
  b.busy.reverse.map fun slot => (slot, core slot)

section

variable {at_ : Gdt.Statics} {m : Memory}

theorem Tied.loadAll (h : Tied cfg b) (at_ : Gdt.Statics) (m : Memory) (core : Nat → Core) :
    ∃ m' cores, Gdt.loadAll at_ (Gdt.init at_ m) (b.loads core) = .ok (m', cores) ∧
      Gdt.Filled at_ b.busy m' := by
  have hslots : (b.loads core).map Prod.fst = b.busy.reverse := by
    simp [Boot.loads, Function.comp_def]
  have hlt : ∀ x ∈ b.loads core, x.1 < MAX_CPUS := by
    intro x hx
    have hmem : x.1 ∈ (b.loads core).map Prod.fst := List.mem_map.2 ⟨x, hx, rfl⟩
    rw [hslots, List.mem_reverse] at hmem
    exact h.range _ hmem
  have hnodup : ((b.loads core).map Prod.fst).Nodup := by
    rw [hslots]
    exact List.nodup_reverse.2 h.nodup
  obtain ⟨m', cores, hok, hfilled, -⟩ :=
    Gdt.loadAll_of_nodup (m := Gdt.init at_ m) Gdt.filled_init hnodup hlt (by simp)
  rw [hslots, List.reverse_reverse, List.append_nil] at hfilled
  exact ⟨m', cores, hok, hfilled⟩

/-- Where a processor is after `gdt::load`, by the end of the call; the slots are those that are busy in
the tables it leaves. -/
inductive LoadEnds (at_ : Gdt.Statics) (busy : List Nat) : Except Gdt.Stop Core → Ap → Prop where
  | refused {text : String} : LoadEnds at_ busy (.error (.err text)) .hcf
  | fault : LoadEnds at_ busy (.error .fault) .fault
  | loaded {s : Core} : Gdt.Filled at_ busy s.mem → LoadEnds at_ busy (.ok s) .gdt

theorem stepAp_load (h : Gdt.Filled at_ b.busy m) (hap : b.ap i = .paged) (s : Core) :
    LoadEnds at_ (b.stepAp cfg i).busy (Gdt.load at_ (cfg.slotOf i) (s.withMem m))
      ((b.stepAp cfg i).ap i) := by
  unfold Boot.stepAp
  simp only [hap]
  split
  · rename_i hge
    rw [Gdt.load, if_pos hge]
    simpa [Boot.move] using .refused
  · rename_i hlt
    have hcpu : cfg.slotOf i < MAX_CPUS := Nat.lt_of_not_le hlt
    have hslot := h _ hcpu
    split
    · rename_i hbusy
      rw [decide_eq_true hbusy] at hslot
      rw [Gdt.Slot.load_again (s := s.withMem m) hslot hcpu]
      simpa [Boot.move] using .fault
    · rename_i hfree
      rw [decide_eq_false hfree] at hslot
      rw [Gdt.Slot.load_ok (s := s.withMem m) hslot hcpu]
      have hfilled := Gdt.Filled.loaded (s := s.withMem m) h hcpu hfree
      simpa [Boot.move] using .loaded hfilled

/-- In every run the loads so far go through on the descriptor tables that `gdt::init` has written, and
the next one ends on them as the bring-up has it. -/
theorem gdt_load_agrees (cfg : Config) (acts : List Act) (at_ : Gdt.Statics) (m : Memory)
    (core : Nat → Core) :
    ∃ m' cores, Gdt.loadAll at_ (Gdt.init at_ m) ((after cfg acts).loads core) = .ok (m', cores) ∧
      ∀ i, (after cfg acts).ap i = .paged → ∀ s : Core,
        LoadEnds at_ (after cfg (acts ++ [.ap i])).busy (Gdt.load at_ (cfg.slotOf i) (s.withMem m'))
          ((after cfg (acts ++ [.ap i])).ap i) := by
  obtain ⟨m', cores, hok, hfilled⟩ := (@tied_after cfg acts).loadAll at_ m core
  refine ⟨m', cores, hok, fun i hap s => ?_⟩
  have hstep : after cfg (acts ++ [.ap i]) = (after cfg acts).stepAp cfg i := by
    rw [after, Machine.run_concat]
    rfl
  rw [hstep]
  exact stepAp_load hfilled hap s

end

/-! ## What a boot that succeeds has done -/

/-- The boot loader's tables are in force, and the memory map is as `kmain_stops` wants it. -/
structure Config.Started (cfg : Config) : Prop where
  sane : cfg.platform.Sane
  cr3 : cfg.early.cr3 = none
  tops : cfg.early.tops = fun _ => 0

/-- The tops of the stacks that `kmain` has laid out. -/
theorem Config.Started.tops_eq (h : cfg.Started) (hmp : cfg.mp = some mp) {pages : PageMap} {s : Early}
    (hrun : RootCourt.kmain cfg.platform cfg.early = .ok pages s) :
    ∃ low, ∀ slot < mp.cpus.length,
      (Stack.top s slot).toNat = min (low + (slot + 1) * 65536) (2 ^ 64 - 16) := by
  obtain ⟨r, place, k, hbooted⟩ := wp_ok (kmain_spec h.sane h.cr3 h.tops) hrun
  have hncpu := hbooted.ncpu.2
  rw [ncpu_eq hmp] at hncpu
  refine ⟨r.hhdm.toNat + k.bump.cursor.toNat, fun slot hslot => ?_⟩
  rw [Stack.top, if_neg (by omega)]
  exact hbooted.laid.tops slot (by rw [ncpu_eq hmp]; exact hslot)

/-- A list without a number twice, on a machine where nothing is missing. -/
theorem Config.Started.equipped (hstart : cfg.Started) (hmp : cfg.mp = some mp) (hdistinct : mp.cpus.Nodup)
    (hbsp : mp.bspLapicId ∈ mp.cpus) (hx2apic : ∀ i, IsAp mp i → cfg.hasX2apic i = true)
    (hkmain : ∃ pages s, RootCourt.kmain cfg.platform cfg.early = .ok pages s) (hdemo : cfg.demo = .ok ()) :
    Equipped cfg mp := by
  obtain ⟨pages, s, hrun⟩ := hkmain
  obtain ⟨r, place, k, hbooted⟩ := wp_ok (kmain_spec hstart.sane hstart.cr3 hstart.tops) hrun
  refine ⟨⟨hmp, pages, s, hrun, hbooted.rootCr3_ne⟩, hbsp, hdistinct, hx2apic,
    fun pages s hrun slot hslot hzero => ?_, hdemo⟩
  obtain ⟨low, htops⟩ := hstart.tops_eq hmp hrun
  have htop := htops slot hslot
  rw [hzero, UInt64.toNat_zero] at htop
  omega

/-- If `kmain` goes through and nothing is missing, `10 n + 4` rounds without a wait that gives up bring
`n` processors to `BOOT_OK`; the timer must not tick `2 ^ 32` times. -/
theorem boot_finishes (hstart : cfg.Started) (hmp : cfg.mp = some mp) (hdistinct : mp.cpus.Nodup)
    (hbsp : mp.bspLapicId ∈ mp.cpus) (hx2apic : ∀ i, IsAp mp i → cfg.hasX2apic i = true)
    (hkmain : ∃ pages s, RootCourt.kmain cfg.platform cfg.early = .ok pages s) (hdemo : cfg.demo = .ok ())
    {rounds : List (List Act)} (hwait : .giveUp ∉ rounds.flatten)
    (hdue : ∀ r ∈ rounds, ∀ a, Due mp a → a ∈ r) (hlength : rounds.flatten.length + 1 < 2 ^ 32)
    (hmany : 10 * mp.cpus.length + 4 ≤ rounds.length) : (after cfg rounds.flatten).bsp = .ok :=
  ok_of_rounds (hstart.equipped hmp hdistinct hbsp hx2apic hkmain hdemo) hwait hdue hlength hmany

end

/-- The small machine with two processors. -/
def twoCpus : MpResponse := ⟨0, [0, 1]⟩

/-- As many rounds as two processors need. -/
def twoCpusRounds : List (List Act) :=
  List.replicate 24 [.bsp, .ap 1, .interruptAp 1, .interruptBsp, .tick]

theorem started_smallConfig (mp : MpResponse) : (smallConfig mp).Started := ⟨smallMachine_sane _, rfl, rfl⟩

theorem smallConfig_twoCpus_boots :
    ∃ pages s, RootCourt.kmain (smallConfig twoCpus).platform (smallConfig twoCpus).early = .ok pages s :=
  smallMachine_boots (some twoCpus) (by decide)

theorem due_twoCpusRounds : ∀ r ∈ twoCpusRounds, ∀ a, Due twoCpus a → a ∈ r := by
  intro r hr a ha
  rw [List.eq_of_mem_replicate hr]
  have hone : ∀ i, IsAp twoCpus i → i = 1 := by
    rintro i ⟨hlt, hne⟩
    have hlt' : i < 2 := hlt
    obtain rfl | rfl : i = 0 ∨ i = 1 := by omega
    · exact absurd rfl hne
    · rfl
  cases a with
  | ap i => simp [hone i ha]
  | interruptAp i => simp [hone i ha]
  | giveUp => exact ha.elim
  | _ => simp

theorem twoCpusRounds_length : twoCpusRounds.flatten.length + 1 < 2 ^ 32 := by
  rw [show twoCpusRounds.flatten.length = 120 from rfl]
  omega

theorem boot_finishes_twoCpus : (after (smallConfig twoCpus) twoCpusRounds.flatten).bsp = .ok :=
  @boot_finishes _ twoCpus (started_smallConfig twoCpus) rfl (by decide) (by decide) (fun _ _ => rfl)
    smallConfig_twoCpus_boots rfl _ (by decide) due_twoCpusRounds twoCpusRounds_length (by decide)

end BringUp

end RootCourt

end CourtKernel
