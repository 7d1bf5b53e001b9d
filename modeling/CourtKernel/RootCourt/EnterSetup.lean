import CourtKernel.RootCourt.EnterRuns

/-!
# From the set-up to the runs of the demo

What `run_demo` builds before its first entry is what `CourtKernel.RootCourt.EnterRuns` asks for.

* `wp_spawn` — one call of `spawn`: the boot page of the new court holds its boot block.
* `Lodged` — a court with its runs of pages; `Lodged.home` is what it finds behind its tables.
* `Stage.setup_spec` — after the set-up memory holds the demo.
* `Stage.demo_runs` — after `kmain` and the set-up, any order of entries and revoke steps gets the replies
  of `CourtKernel.RootCourt.Demo`.
* `Stage.runDemo_result` — `run_demo` fails in its set-up or not at all.
-/

namespace CourtKernel

namespace RootCourt

open Early
open Translation (Maps)

/-! ## Boot blocks and rings as bytes -/

section

variable {m : Memory} {p : Nat}

theorem BootInfo.at_bytes (info : BootInfo) : BootInfo.at (m.write p info.bytes) p = info := by
  obtain ⟨magic, capId, rights, ringVirt, courtId⟩ := info
  have hwords := @Memory.words_write m p [magic, capId, rights, ringVirt, courtId]
  simp only [Memory.words, Nat.add_assoc, Nat.reduceAdd, List.length_cons, List.length_nil,
    List.cons.injEq, and_true] at hwords
  rw [show BootInfo.bytes ⟨magic, capId, rights, ringVirt, courtId⟩ =
    Memory.wordBytes [magic, capId, rights, ringVirt, courtId] from rfl]
  simp only [BootInfo.at, hwords]

/-- A page that holds the bytes of a boot block. -/
theorem BootInfo.at_of_read {info : BootInfo} (h : m.read p info.bytes.length = info.bytes) :
    BootInfo.at m p = info := by
  have hsame : m.write p info.bytes = m := by
    rw [← h]
    exact Memory.write_read
  rw [← hsame, at_bytes]

/-- Four bytes among what was written. -/
theorem read_half_mid {v : UInt32} (ps rs : List UInt8) :
    UInt32.ofNat (leVal ((m.write p (ps ++ leBytes 4 v.toNat ++ rs)).read (p + ps.length) 4)) = v := by
  have hread := @Memory.read_write_mid m p ps (leBytes 4 v.toNat) rs
  rw [length_leBytes] at hread
  have hlt := v.toNat_lt
  rw [hread, leVal_leBytes, ← UInt32.toNat_inj, UInt32.toNat_ofNat']
  omega

theorem Ring.at_bytes (ring : Ring) : Ring.at (m.write p ring.bytes) p = ring := by
  obtain ⟨magic, capacity, slotSize, producer, consumer, revoked⟩ := ring
  -- each field with what is written before and after it
  have hmagic := @Memory.readU64_write_mid m p magic [] (leBytes 4 capacity.toNat ++
    leBytes 4 slotSize.toNat ++ leBytes 8 producer.toNat ++ leBytes 8 consumer.toNat ++
    leBytes 8 revoked.toNat)
  have hcapacity := @read_half_mid m p capacity (leBytes 8 magic.toNat) (leBytes 4 slotSize.toNat ++
    leBytes 8 producer.toNat ++ leBytes 8 consumer.toNat ++ leBytes 8 revoked.toNat)
  have hslotSize := @read_half_mid m p slotSize (leBytes 8 magic.toNat ++ leBytes 4 capacity.toNat)
    (leBytes 8 producer.toNat ++ leBytes 8 consumer.toNat ++ leBytes 8 revoked.toNat)
  have hproducer := @Memory.readU64_write_mid m p producer (leBytes 8 magic.toNat ++
    leBytes 4 capacity.toNat ++ leBytes 4 slotSize.toNat) (leBytes 8 consumer.toNat ++
    leBytes 8 revoked.toNat)
  have hconsumer := @Memory.readU64_write_mid m p consumer (leBytes 8 magic.toNat ++
    leBytes 4 capacity.toNat ++ leBytes 4 slotSize.toNat ++ leBytes 8 producer.toNat)
    (leBytes 8 revoked.toNat)
  have hrevoked := @Memory.readU64_write_mid m p revoked (leBytes 8 magic.toNat ++
    leBytes 4 capacity.toNat ++ leBytes 4 slotSize.toNat ++ leBytes 8 producer.toNat ++
    leBytes 8 consumer.toNat) []
  simp only [List.nil_append, List.append_nil, List.append_assoc, List.length_append, length_leBytes,
    List.length_nil, Nat.add_zero, Nat.reduceAdd] at hmagic hcapacity hslotSize hproducer hconsumer hrevoked
  simp only [Ring.at, Ring.bytes, List.append_assoc, hmagic, hcapacity, hslotSize, hproducer, hconsumer,
    hrevoked]

end

/-! ## Courts with their pages -/

/-- A court whose lower half ends with the pages of `fixedRuns`. -/
structure Lodged (w : World) (c : Courtlet) (boot ring stack : Nat) : Prop where
  root : w.place c.cr3.toNat = some (.pml4 c.cr3.toNat)
  top : c.stackTop = STACK_VA + STACK_SIZE
  runs : ∃ segs, Layout w c.cr3.toNat (segs ++ fixedRuns boot ring stack)

/-- A run of a layout, as the processor sees it in four-level paging. -/
theorem Layout.maps {w : World} {cr3 : UInt64} {runs : List Run} (h : Layout w cr3.toNat runs) {run : Run}
    (hrun : run ∈ runs) (hend : run.first + run.count ≤ 2 ^ 35) {va : UInt64}
    (hva : va.toNat = run.first * 4096) :
    Maps (paging false cr3 w.mem) va run.frame (run.count * 4096) := by
  intro i hi
  show translateCr3 false w.mem cr3 (va + UInt64.ofNat i) = _
  rw [translateCr3, if_neg (by decide)]
  apply h.translate_run hrun hend i hi
  rw [UInt64.toNat_add, UInt64.toNat_ofNat', hva]
  omega

namespace Lodged

variable {w w' : World} {c : Courtlet} {boot ring stack : Nat}

theorem data (h : Lodged w c boot ring stack) : ∀ run ∈ fixedRuns boot ring stack, Data w run := by
  obtain ⟨segs, hl⟩ := h.runs
  exact fun run hrun => hl.data run (List.mem_append_right _ hrun)

theorem apart (h : Lodged w c boot ring stack) : (fixedRuns boot ring stack).Pairwise (Run.Apart 4096) := by
  obtain ⟨segs, hl⟩ := h.runs
  exact (List.pairwise_append.1 hl.frames).2.1

theorem home (h : Lodged w c boot ring stack) (ht : Tables w) :
    Home (paging false c.cr3) (TableByte w.place) w.mem boot ring stack := by
  obtain ⟨segs, hl⟩ := h.runs
  have hdata := h.data
  have hmem : ∀ run ∈ fixedRuns boot ring stack, run ∈ segs ++ fixedRuns boot ring stack :=
    fun run hrun => List.mem_append_right _ hrun
  have hsize : STACK_SIZE.toNat = 8 * 4096 := by decide
  simp only [fixedRuns, List.mem_cons, List.not_mem_nil, or_false, forall_eq_or_imp, forall_eq] at hdata hmem
  have hseat : Seated false w.place ⟨c.cr3, c.cr3⟩ := by
    refine ⟨h.root, fun htrue => ?_, fun _ => rfl⟩
    cases htrue
  have hboot : Maps (paging false c.cr3 w.mem) BOOT_VA boot (1 * 4096) :=
    hl.maps hmem.1 (by simp) (show BOOT_VA.toNat = 0x200 * 4096 by decide)
  have hring : Maps (paging false c.cr3 w.mem) RING_VA ring (1 * 4096) :=
    hl.maps hmem.2.1 (by simp) (show RING_VA.toNat = 0x300 * 4096 by decide)
  have hstack : Maps (paging false c.cr3 w.mem) STACK_VA stack (8 * 4096) :=
    hl.maps hmem.2.2 (by simp) (show STACK_VA.toNat = 0x400 * 4096 by decide)
  rw [Nat.one_mul] at hboot hring
  rw [← hsize] at hstack
  have hstable := ht.stable hseat
  refine ⟨hstable, hboot, hring, hstack, fun i hi => ?_, fun i hi => ?_⟩
  · exact hdata.2.1.not_byte ht (show i < 1 * 4096 by omega)
  · exact hdata.2.2.not_byte ht (show i < 8 * 4096 by omega)

/-- Another court's pages are no concern of this one. -/
theorem keep (h : Lodged w c boot ring stack) {r : Nat} {S : Nat → Prop} (hm : Moved w r S w')
    (hr : c.cr3.toNat ≠ r) : Lodged w' c boot ring stack := by
  obtain ⟨segs, hl⟩ := h.runs
  exact ⟨hm.step.kept _ _ h.root, h.top, segs, hl.keep h.root hm fun _ _ _ => hr⟩

end Lodged

/-! ## One call of `spawn` -/

/-- What `spawn` leaves behind, seen from the processor. -/
structure Arrived (b : BumpAllocator) (space : AddressSpace) (place : Nat → Option Place) (s : Early)
    (ring : UInt64) (info : BootInfo) (c : Courtlet) (place' : Nat → Option Place) (s' : Early)
    (boot : UInt64) (stack : Nat) : Prop where
  held : s'.Held b space place'
  moves : s.kernel.Moves place c.cr3.toNat (fun _ => True) s'.kernel place'
  fresh : s.kernel.bump.cursor.toNat ≤ c.cr3.toNat
  lodged : Lodged (s'.kernel.world place') c boot.toNat ring.toNat stack
  bootAbove : s.kernel.bump.cursor.toNat ≤ boot.toNat
  stackAbove : s.kernel.bump.cursor.toNat ≤ stack
  virt : c.boot = s.kernel.bump.virt boot
  info : BootInfo.at s'.kernel.mem boot.toNat = info

section

variable {b : BumpAllocator} {space : AddressSpace} {place place' : Nat → Option Place} {s : Early}
  {c : Courtlet} {k' : Kernel} {image : List UInt8} {ring : UInt64}

/-- The direct map is still there after `spawn`. -/
theorem Early.Held.spawned (h : s.Held b space place) (h57 : s.kernel.la57 = false)
    {info : BootInfo} (hsp : Spawned s.kernel place image ring info c k' place') :
    Held b space place' { s with kernel := k' } := by
  have hstep := hsp.moves.moved.step
  have hla : k'.la57 = false := hsp.moves.la57.trans h57
  have hfresh := hsp.fresh
  have hpage : s.kernel.kernelPml4.toNat + 4096 ≤ s.kernel.bump.cursor.toNat :=
    (h.system.tables.page _ _ h.system.kernel).2.2
  have hseat := h.seated
  have hdirect := h.direct
  rw [h57] at hseat hdirect
  refine ⟨h.cr3, h.system.moves hsp.moves (by omega), ?_, ?_⟩
  · show Seated k'.la57 place' space
    rw [hla]
    exact hseat.moves hsp.moves
  · show Direct b (paging k'.la57 space.cr3 k'.mem)
    rw [hla]
    refine ⟨hdirect.aligned, hdirect.virt, fun p hstart hend => ?_⟩
    have hreach := hdirect.reach p hstart hend
    simp only [paging, translateCr3, Bool.false_eq_true, if_false, translate_eq] at hreach ⊢
    obtain ⟨f, hf, hp⟩ := Option.map_eq_some_iff.1 hreach
    have hroot : place space.cr3.toNat = some (.pml4 space.cr3.toNat) := by
      rw [hseat.cr3 rfl]
      exact hseat.pml4
    have hkept : frameAt k'.mem space.cr3.toNat (pageOf (b.virt p)) = some f :=
      hstep.frameAt_some h.system.tables hroot hf
    rw [hkept, Option.map_some, hp]

theorem wp_spawn (h : s.Held b space place) (h57 : s.kernel.la57 = false)
    (hring : Data (s.kernel.world place) ⟨0x300, ring.toNat, 1⟩) (name : String)
    (capId rights courtId : UInt64) :
    wp (onKernel (spawn name image capId rights courtId ring))
      (fun c s' => ∃ place' boot stack, Arrived b space place s ring
        ⟨BOOT_MAGIC, capId, rights, RING_VA, courtId⟩ c place' s' boot stack)
      (fun _ _ => True) s := by
  rw [onKernel, wp_zoom]
  refine wp_mono (spawn_spec h.system h57 hring name image capId rights courtId) ?_ fun _ _ _ => trivial
  rintro c k' ⟨place', hsp⟩
  obtain ⟨segs, boot, stack, -, hbootAbove, hstackAbove, hboot, hinfo, hl⟩ := hsp.runs
  exact ⟨place', boot, stack, h.spawned h57 hsp, hsp.moves, hsp.fresh, ⟨hsp.root, hsp.top, segs, hl⟩,
    hbootAbove, hstackAbove, hboot, BootInfo.at_of_read hinfo⟩

end

/-! ## The set-up -/

section

variable {b : BumpAllocator} {space : AddressSpace} {place : Nat → Option Place}

/-- A page of data is a spare page, as long as it lies in the region. -/
theorem Data.spare {w : World} {first : Nat} {page : UInt64} (h : Data w ⟨first, page.toNat, 1⟩)
    (ht : Tables w) (hstart : b.start.toNat ≤ page.toNat) (hend : w.bump.end = b.end) :
    Spare b w.place page := by
  have hlimit := ht.bump.limit
  have hgranted : page.toNat + 1 * 4096 ≤ w.bump.cursor.toNat := h.granted
  rw [hend] at hlimit
  exact ⟨h.aligned, hstart, by omega, fun i hi => h.not_byte ht (show i < 1 * 4096 by omega)⟩

/-- The kernel after it has made the ring page. -/
def Kernel.ringed (k : Kernel) (cursor : UInt64) : Kernel :=
  { k with
    mem := (k.mem.write k.bump.cursor.toNat (List.replicate PAGE.toNat 0)).write k.bump.cursor.toNat
      (Ring.bytes ⟨RING_MAGIC, CAPACITY, UInt32.ofNat SLOT, 0, 0, 0⟩)
    bump := { k.bump with cursor := cursor } }

/-- The ring page is the next page; only a lack of pages can prevent it. -/
theorem Stage.ringPage_spec {s : Early} (h : s.Live b space place) :
    wp Stage.ringPage (fun r s' => s'.Live b space place ∧ r = (s.kernel.bump.cursor, b.virt r.1) ∧
        s'.kernel = s.kernel.ringed s'.kernel.bump.cursor ∧
        s'.kernel.bump.cursor.toNat = s.kernel.bump.cursor.toNat + 4096 ∧ b.start.toNat ≤ r.1.toNat ∧
        Data (s'.kernel.world place) ⟨0x300, r.1.toNat, 1⟩ ∧
        Holds s'.kernel.mem r.1.toNat Demo.freshPage)
      (fun _ _ => (s.kernel.bump.end.toNat - s.kernel.bump.cursor.toNat) / 4096 < 1) s := by
  have hwf : s.kernel.bump.Wf := h.system.tables.bump
  have haligned := hwf.aligned
  obtain ⟨-, hbump, hle⟩ := h.allocs.spec h.wf
  have hstart := h.wf.cursor
  unfold Stage.ringPage
  rw [wp_bind]
  refine h.wp_allocPages _ _ (fun phys s₁ hphys hs₁ hcursor hend h₁ => ?_) fun hfew => hfew
  rw [show (1 : UInt64).toNat = 1 from rfl] at hcursor
  have hdata : Data (s₁.kernel.world place) ⟨0x300, phys.toNat, 1⟩ :=
    .ofGrant h.system.tables hphys hcursor
  have hvirt : s₁.kernel.bump.virt phys = b.virt phys := by
    rw [hs₁, hbump]
    rfl
  have hkernel : s₁.kernel = { s.kernel with bump := { s.kernel.bump with cursor := s₁.kernel.bump.cursor } } :=
    congrArg Early.kernel hs₁
  have hfree : ∀ i < 4096, ¬ TableByte place (phys.toNat + i) :=
    fun i hi => hdata.not_byte h₁.system.tables (show i < 1 * 4096 by omega)
  have hin : b.start.toNat ≤ phys.toNat := by
    rw [hphys]
    omega
  rw [wp_bind, wp_get, hvirt, wp_bind]
  -- the zeroes, then the header over them
  refine h₁.wp_writeBytes (n := 4096) (by rw [hphys]; exact haligned) (by decide) hin (by omega)
    (by rw [List.length_replicate]; decide) hfree ?_
  rintro s₂ rfl h₂
  rw [wp_bind]
  refine h₂.wp_writeBytes (n := 4096) (by rw [hphys]; exact haligned) (by decide) hin (by omega)
    (by simp [Ring.bytes]) hfree ?_
  rintro s₃ rfl h₃
  rw [wp_pure]
  refine ⟨h₃, by rw [hphys], ?_, by rw [← hphys]; omega, hin,
    ⟨hdata.aligned, hdata.granted, hdata.free⟩, Ring.at_bytes _, fun i hlow hhigh => ?_⟩
  · show Kernel.mk _ s₁.kernel.bump s₁.kernel.kernelPml4 s₁.kernel.la57 = _
    rw [hkernel, hphys]
    rfl
  have hlen : (Ring.bytes ⟨RING_MAGIC, CAPACITY, UInt32.ofNat SLOT, 0, 0, 0⟩).length = 40 := by
    simp [Ring.bytes]
  have hfull : i < (List.replicate PAGE.toNat (0 : UInt8)).length := by
    rw [List.length_replicate]
    exact hhigh
  have hheader : RING_DATA = 128 := rfl
  show Memory.write (Memory.write _ _ _) _ _ (phys.toNat + i) = 0
  rw [Memory.write_of_ge (by omega), Memory.write_of_mem hfull, List.getElem_replicate]

/-- The page of a court is below what is granted afterwards. -/
theorem Lodged.below {w : World} {c : Courtlet} {boot ring stack : Nat} (h : Lodged w c boot ring stack)
    (ht : Tables w) : c.cr3.toNat + 4096 ≤ w.bump.cursor.toNat ∧ boot + 4096 ≤ w.bump.cursor.toNat ∧
      stack + STACK_SIZE.toNat ≤ w.bump.cursor.toNat := by
  have hsize : STACK_SIZE.toNat = 8 * 4096 := by decide
  have hdata := h.data
  simp only [fixedRuns, List.mem_cons, List.not_mem_nil, or_false, forall_eq_or_imp, forall_eq] at hdata
  have hboot : boot + 1 * 4096 ≤ w.bump.cursor.toNat := hdata.1.granted
  have hstack : stack + 8 * 4096 ≤ w.bump.cursor.toNat := hdata.2.2.granted
  exact ⟨(ht.page _ _ h.root).2.2, by omega, by omega⟩

/-- The stack of a court is apart from its boot page. -/
theorem Lodged.stack_apart {w : World} {c : Courtlet} {boot ring stack : Nat}
    (h : Lodged w c boot ring stack) : stack + STACK_SIZE.toNat ≤ boot ∨ boot + 4096 ≤ stack := by
  have hsize : STACK_SIZE.toNat = 8 * 4096 := by decide
  have hapart := h.apart
  simp only [fixedRuns, List.pairwise_cons, List.mem_cons, List.not_mem_nil, or_false, forall_eq_or_imp,
    forall_eq, Run.Apart] at hapart
  omega

section

variable {e₁ e₂ e₃ : Early} {place₂ place₃ : Nat → Option Place} {ring appBoot netBoot : UInt64}
  {appInfo netInfo : BootInfo} {app net : Courtlet} {appStack netStack : Nat}

/-- The first court is as it was when the second one has arrived. -/
theorem Arrived.keep (happ : Arrived b space place e₁ ring appInfo app place₂ e₂ appBoot appStack)
    (hnet : Arrived b space place₂ e₂ ring netInfo net place₃ e₃ netBoot netStack) :
    Lodged (e₃.kernel.world place₃) app appBoot.toNat ring.toNat appStack := by
  have hbelow : app.cr3.toNat + 4096 ≤ e₂.kernel.bump.cursor.toNat :=
    (happ.lodged.below happ.moves.moved.step.tables).1
  have hfresh := hnet.fresh
  exact happ.lodged.keep hnet.moves.moved (show app.cr3.toNat ≠ net.cr3.toNat by omega)

/-- The pages of two courts and of their ring, one after the other. -/
theorem Arrived.sound (h : e₁.Live b space place) (hstart : b.start.toNat ≤ ring.toNat)
    (hring : Data (e₁.kernel.world place) ⟨0x300, ring.toNat, 1⟩)
    (happ : Arrived b space place e₁ ring appInfo app place₂ e₂ appBoot appStack)
    (hnet : Arrived b space place₂ e₂ ring netInfo net place₃ e₃ netBoot netStack) (appCap netCap : UInt64) :
    Pages.Sound b place₃ ⟨app, net, appCap, netCap, b.virt ring⟩
      ⟨ring, appBoot, netBoot, appStack, netStack⟩ := by
  obtain ⟨-, hbump, hle⟩ := h.allocs.spec h.wf
  have hregion := h.wf.cursor
  have hstep₂ := happ.moves.moved.step
  have hstep₃ := hnet.moves.moved.step
  have hstep := hstep₂.trans hstep₃
  have hlodged := happ.keep hnet
  have hend : (e₃.kernel.world place₃).bump.end = b.end := by
    rw [hstep.bump]
    show e₁.kernel.bump.end = b.end
    rw [hbump]
  have hvirt : app.boot = b.virt appBoot := by
    rw [happ.virt, hbump]
    rfl
  -- the ring, then the first court, then the second one
  have hringBelow : ring.toNat + 1 * 4096 ≤ e₁.kernel.bump.cursor.toNat := hring.granted
  have hbelow : app.cr3.toNat + 4096 ≤ e₂.kernel.bump.cursor.toNat ∧
      appBoot.toNat + 4096 ≤ e₂.kernel.bump.cursor.toNat ∧
      appStack + STACK_SIZE.toNat ≤ e₂.kernel.bump.cursor.toNat := happ.lodged.below hstep₂.tables
  have hcursor : e₁.kernel.bump.cursor.toNat ≤ e₂.kernel.bump.cursor.toNat := hstep₂.cursor
  have hbootAbove := happ.bootAbove
  have hstackAbove := happ.stackAbove
  have hnetBoot := hnet.bootAbove
  have hnetStack := hnet.stackAbove
  have happApart := happ.lodged.stack_apart
  have hnetApart := hnet.lodged.stack_apart
  have hboot := hlodged.data ⟨0x200, appBoot.toNat, 1⟩ (by simp [fixedRuns])
  refine ⟨hlodged.root, hnet.lodged.root, hlodged.top, hnet.lodged.top, rfl, hvirt,
    (hring.step hstep).spare hstep₃.tables hstart hend,
    hboot.spare hstep₃.tables (by omega) hend, ?_, ?_⟩
  · simp only [List.pairwise_cons, List.mem_cons, List.not_mem_nil, or_false, forall_eq_or_imp, forall_eq,
      List.Pairwise.nil, and_true, false_imp_iff, implies_true]
    omega
  · simp only [List.mem_cons, List.not_mem_nil, or_false, forall_eq_or_imp, forall_eq]
    omega

/-- Two courts and a fresh ring are a demo. -/
theorem Arrived.rep (h : e₁.Live b space place) (h57 : e₁.kernel.la57 = false)
    (hring : Data (e₁.kernel.world place) ⟨0x300, ring.toNat, 1⟩)
    (hfresh : Holds e₁.kernel.mem ring.toNat Demo.freshPage)
    (happ : Arrived b space place e₁ ring appInfo app place₂ e₂ appBoot appStack)
    (hnet : Arrived b space place₂ e₂ ring netInfo net place₃ e₃ netBoot netStack) (appCap netCap : UInt64)
    (root : Object.RootCourt) :
    Rep b space place₃ ⟨app, net, appCap, netCap, b.virt ring⟩ ⟨ring, appBoot, netBoot, appStack, netStack⟩
      ⟨root, appCap, netCap, appInfo, netInfo, Demo.freshPage⟩ ⟨e₃, root⟩ := by
  have hstep₂ := happ.moves.moved.step
  have hstep₃ := hnet.moves.moved.step
  have hboot := happ.lodged.data ⟨0x200, appBoot.toNat, 1⟩ (by simp [fixedRuns])
  have hsame : BootInfo.at e₃.kernel.mem appBoot.toNat = BootInfo.at e₂.kernel.mem appBoot.toNat :=
    BootInfo.at_congr fun i hi => hboot.mem_eq hstep₂.tables hstep₃ (show i < 1 * 4096 by omega)
  have hpage : Holds e₃.kernel.mem ring.toNat Demo.freshPage :=
    hfresh.congr fun i hi =>
      hring.mem_eq h.system.tables (hstep₂.trans hstep₃) (show i < 1 * 4096 by omega)
  have hla : e₃.kernel.la57 = false := hnet.moves.la57.trans (happ.moves.la57.trans h57)
  have happHome := (happ.keep hnet).home hstep₃.tables
  have hnetHome := hnet.lodged.home hstep₃.tables
  exact ⟨hnet.held, hla, rfl, rfl, happHome, hnetHome, hsame.trans happ.info, hnet.info, hpage⟩

end

/-- **The set-up puts the demo into memory.** -/
theorem Stage.setup_spec {s : Stage} (h : s.early.Live b space place) (h57 : s.early.kernel.la57 = false)
    (appImage netImage : List UInt8) :
    wp (Stage.setup appImage netImage) (fun c s' => ∃ place' pages d, Demo.setup s.root = .ok d ∧
        pages.Sound b place' c ∧ Rep b space place' c pages d s') (fun _ _ => True) s := by
  unfold Stage.setup
  rw [wp_bind, Stage.onRoot, wp_zoom]
  refine wp_mono (wp_self _ _) ?_ fun _ _ _ => trivial
  rintro ⟨appCourt, netCourt, appCap, netCap⟩ root hreg
  have hd : Demo.setup s.root = .ok ⟨root, appCap, netCap,
      ⟨BOOT_MAGIC, appCap, Object.RIGHT_SEND, RING_VA, appCourt⟩,
      ⟨BOOT_MAGIC, netCap, Object.RIGHT_RECV, RING_VA, netCourt⟩, Demo.freshPage⟩ := by
    simp only [Demo.setup, hreg]
  rw [wp_bind, Stage.onEarly, wp_zoom]
  refine wp_mono (Stage.ringPage_spec h) ?_ fun _ _ _ => trivial
  rintro ⟨ring, virt⟩ e₁ ⟨h₁, hpair, hkernel₁, -, hstart, hring, hfresh⟩
  dsimp only at hstart hring hfresh
  obtain rfl : virt = b.virt ring := (Prod.mk.inj hpair).2
  have h57₁ : e₁.kernel.la57 = false := by
    rw [hkernel₁]
    exact h57
  rw [wp_bind, Stage.onEarly, wp_zoom]
  refine wp_mono (wp_spawn h₁.toHeld h57₁ hring "app" appCap Object.RIGHT_SEND appCourt) ?_
    fun _ _ _ => trivial
  rintro app e₂ ⟨place₂, appBoot, appStack, happ⟩
  rw [wp_bind, Stage.onEarly, wp_zoom]
  refine wp_mono (wp_spawn happ.held (happ.moves.la57.trans h57₁) (hring.step happ.moves.moved.step)
    "net" netCap Object.RIGHT_RECV netCourt) ?_ fun _ _ _ => trivial
  rintro net e₃ ⟨place₃, netBoot, netStack, hnet⟩
  rw [wp_bind, wp_ensure]
  refine ⟨fun _ => ?_, fun _ => trivial⟩
  rw [wp_pure]
  exact ⟨place₃, _, _, hd, Arrived.sound h₁ hstart hring happ hnet appCap netCap,
    Arrived.rep h₁ h57₁ hring hfresh happ hnet appCap netCap root⟩

end

/-! ## The script of `run_demo` -/

namespace Demo

variable {root : Object.RootCourt} {d : Demo}

/-- The first entry of `app` sends its packet, and the entry of `net` after it takes it. -/
theorem first_entries (h : Object.RootCourt.Tables root) (hd : setup root = .ok d) :
    (d.step .app).1 = .status ST_SENT ∧
      ∃ status, ((d.step .app).2.step .net).1 = .status status ∧ status &&& 0xFF = ST_RECV := by
  have hs := setup_standing h hd
  obtain ⟨hrights, hlive⟩ := hs.live id
  have hsend : d.appBoot.rights &&& RIGHT_SEND ≠ 0 := by
    rw [hrights]
    decide
  have hrecv : d.netBoot.rights &&& RIGHT_RECV ≠ 0 := by
    rw [hs.netRights]
    decide
  rcases App.start_spec hs.appMarked hsend hlive (setup_twin hd).window with ⟨hfull, -⟩ |
    ⟨-, page, hstart, hring, hwin, hcont⟩
  · omega
  have hmarked : Marked d.netBoot page := ⟨hs.netMarked.boot, by rw [hring]; exact hs.netMarked.ring⟩
  rcases Net.start_spec hmarked hrecv (by rw [hring]; exact hlive) hwin with ⟨hempty, -⟩ |
    ⟨-, payload, page', hnet, -, -, hone⟩
  · omega
  -- the packet is the one that was sent
  have hpayload : payload = pkt := by
    rw [hcont, (setup_twin hd).contents] at hone
    exact (List.cons.inj hone).1.symm
  simp only [step, hstart, hnet, hpayload]
  exact ⟨trivial, recvStatus pkt, rfl, by decide⟩

/-- After the revoke step the capability of `app` is there, without rights. -/
theorem capRights_revoke {gone : Prop} (h : Standing gone d) :
    Object.RootCourt.capRights d.revoke.2.root d.appCap = some 0 := by
  have hok := h.revoke.1
  have hspec := @Object.RootCourt.revokeCap_spec d.root d.appCap
  cases hrun : Object.RootCourt.revokeCap d.appCap d.root with
  | ok u root =>
    obtain ⟨caps, hcaps, rfl⟩ := wp_ok hspec hrun
    simp only [revoke, hrun]
    rw [Object.RootCourt.capRights_revise hcaps, if_pos rfl]
  | error e root =>
    simp only [revoke, hrun] at hok
    cases hok

end Demo

section

variable {b : BumpAllocator} {space : AddressSpace} {place : Nat → Option Place} {c : Courts}
  {pages : Pages} {d : Demo} {s : Stage}

/-- None of the checks of `run_demo` after its set-up fails, and none of its accesses faults. -/
theorem Rep.wp_play {root : Object.RootCourt} (h : Rep b space place c pages d s)
    (hs : pages.Sound b place c) (htables : Object.RootCourt.Tables root) (hd : Demo.setup root = .ok d)
    {spill₁ spill₂ spill₃ : List UInt8} (h₁ : spill₁.length ≤ STACK_SIZE.toNat)
    (h₂ : spill₂.length ≤ STACK_SIZE.toNat) (h₃ : spill₃.length ≤ STACK_SIZE.toNat) :
    wp (Stage.play c spill₁ spill₂ spill₃) (fun _ _ => True) (fun _ _ => False) s := by
  have hstand := Demo.setup_standing htables hd
  obtain ⟨hsent, status, hnet, hreceived⟩ := Demo.first_entries htables hd
  have hstand₁ := hstand.step .app
  have hstand₂ := hstand₁.step .net
  unfold Stage.play
  -- the packet
  rw [wp_bind]
  refine wp_mono (h.wp_enterApp hs h₁) ?_ fun _ _ hfalse => hfalse
  rintro sent s₁ ⟨rfl, hrep₁⟩
  rw [wp_bind, wp_ensure]
  refine ⟨fun _ => ?_, fun hne => hne (Demo.Reply.status.inj hsent)⟩
  rw [wp_bind]
  refine wp_mono (hrep₁.wp_enterNet hs h₂) ?_ fun _ _ hfalse => hfalse
  rintro recvd s₂ ⟨rfl, hrep₂⟩
  rw [wp_bind, wp_ensure]
  refine ⟨fun _ => ?_, fun hne => hne ?_⟩
  rotate_left
  · rw [← Demo.Reply.status.inj hnet] at hreceived
    exact hreceived
  -- the revocation
  rw [wp_bind]
  refine wp_mono (hrep₂.wp_revoke hs hstand₂) ?_ fun _ _ hfalse => hfalse
  rintro ⟨⟩ s₃ hrep₃
  have hcap := Demo.capRights_revoke hstand₂
  have hgone := hstand₂.revoke.2
  rw [wp_bind, wp_get, wp_bind, wp_ensure, hrep₃.root]
  refine ⟨fun _ => ?_, fun hne => hne ?_⟩
  rotate_left
  · rw [hrep₂.cap]
    exact hcap
  rw [wp_bind]
  refine wp_mono (hrep₃.wp_enterApp hs h₃) ?_ fun _ _ hfalse => hfalse
  rintro denied s₄ ⟨rfl, -⟩
  rw [wp_ensure]
  refine ⟨fun _ => trivial, fun hne => hne ?_⟩
  have hzero := (hgone.denied trivial).1
  have hdenied := App.start_denied hgone.appMarked (Or.inl (by rw [hzero]; decide))
  exact congrArg Prod.fst hdenied

end

/-! ## After `kmain` -/

section

variable {p : Platform} {s₀ s : Early} {pages : PageMap} {m : Memory} {cs : List Object.RootCourt.Call}
  {appImage netImage : List UInt8}

/-- The kernel's stacks may hold anything. -/
theorem Booted.stacked {b : BumpAllocator} {place : Nat → Option Place} {k : Kernel}
    (h : Booted p s₀ b place k pages s)
    (hm : ∀ a, a + p.ncpu * 65536 < s.kernel.bump.cursor.toNat → m a = s.kernel.mem a) :
    Live b ⟨pages.pml4Phys, s.kernel.kernelPml4⟩ place
      { s with kernel := { s.kernel with mem := m } } := by
  have hlive := h.live
  have hcursor := h.laid.cursor
  refine ⟨hlive.toHeld.remem fun a ha => hm a ?_, hlive.rootCr3, hlive.pml4, hlive.wf, hlive.allocs⟩
  have hbelow := h.laid.tables a ha
  omega

/-- **The demo in memory is the demo.**  On the tables that `kmain` has made, once the set-up of `run_demo`
has succeeded, any sequence of entries and revoke steps gets the replies that two private boot blocks
and a private ring page would give, and no access faults.  The segments of the images, the kernel stacks
and the stacks of the courts may hold anything; that the entry of an image is its `_start` is taken for
granted. -/
theorem Stage.demo_runs (hsane : p.Sane) (hcr3 : s₀.cr3 = none) (htops : s₀.tops = fun _ => 0)
    (hboot : kmain p s₀ = .ok pages s) (h57 : s.kernel.la57 = false)
    (hm : ∀ a, a + p.ncpu * 65536 < s.kernel.bump.cursor.toNat → m a = s.kernel.mem a) {c : Courts}
    {t : Stage} (hsetup : Stage.setup appImage netImage
      ⟨{ s with kernel := { s.kernel with mem := m } }, Object.RootCourt.after cs⟩ = .ok c t)
    (moves : List Stage.Move) (hspill : ∀ move ∈ moves, move.spill.length ≤ STACK_SIZE.toNat) :
    ∃ d, Demo.setup (Object.RootCourt.after cs) = .ok d ∧
      ((Stage.machine c t).log t moves).map Prod.snd =
        (d.machine.log d (moves.map Stage.Move.action)).map fun e => .ok e.2 := by
  obtain ⟨b, place, k, hbooted⟩ := wp_ok (kmain_spec hsane hcr3 htops) hboot
  obtain ⟨place', pages', d, hd, hs, hrep⟩ :=
    wp_ok (Stage.setup_spec (hbooted.stacked hm) h57 appImage netImage) hsetup
  have hstand := Demo.setup_standing (Object.RootCourt.after_tables cs) hd
  exact ⟨d, hd, (hrep.run hs hstand moves hspill t d).1⟩

/-- **`run_demo` fails in its set-up or not at all**: an entry that faults, a packet that is not sent or
not received, a capability that survives and a revoked send that goes through do not happen. -/
theorem Stage.runDemo_result (hsane : p.Sane) (hcr3 : s₀.cr3 = none) (htops : s₀.tops = fun _ => 0)
    (hboot : kmain p s₀ = .ok pages s) (h57 : s.kernel.la57 = false)
    (hm : ∀ a, a + p.ncpu * 65536 < s.kernel.bump.cursor.toNat → m a = s.kernel.mem a)
    {spill₁ spill₂ spill₃ : List UInt8} (h₁ : spill₁.length ≤ STACK_SIZE.toNat)
    (h₂ : spill₂.length ≤ STACK_SIZE.toNat) (h₃ : spill₃.length ≤ STACK_SIZE.toNat) :
    resultOf (Stage.runDemo appImage netImage spill₁ spill₂ spill₃
        ⟨{ s with kernel := { s.kernel with mem := m } }, Object.RootCourt.after cs⟩) =
      (resultOf (Stage.setup appImage netImage
        ⟨{ s with kernel := { s.kernel with mem := m } }, Object.RootCourt.after cs⟩)).map fun _ => () := by
  obtain ⟨b, place, k, hbooted⟩ := wp_ok (kmain_spec hsane hcr3 htops) hboot
  have hspec := Stage.setup_spec (s := ⟨_, Object.RootCourt.after cs⟩) (hbooted.stacked hm) h57
    appImage netImage
  unfold Stage.runDemo
  cases hsetup : Stage.setup appImage netImage
      ⟨{ s with kernel := { s.kernel with mem := m } }, Object.RootCourt.after cs⟩ with
  | error e t =>
    show resultOf (EStateM.bind _ _ _) = _
    simp only [EStateM.bind, hsetup]
    rfl
  | ok c t =>
    obtain ⟨place', pages', d, hd, hs, hrep⟩ := wp_ok hspec hsetup
    obtain ⟨⟨⟩, t', hplay, -⟩ :=
      exists_ok_of_wp (hrep.wp_play hs (Object.RootCourt.after_tables cs) hd h₁ h₂ h₃)
    rw [bind_eq_of_ok hsetup, hplay]
    rfl

end

/-! ## On the small machine -/

/-- The tables of the small machine, as `kmain` makes them after its first page. -/
@[irreducible] def smallTables : Kernel :=
  stateOf (smallBuild (stateOf (scratchPage smallBump smallEarly)).kernel)

theorem smallTables_eq : smallTables.kernelPml4 = 0x201000 ∧ smallTables.la57 = false ∧
    smallTables.bump = ⟨0xffff800000000000, 0x200000, 0x207000, 0x400000⟩ := by
  unfold smallTables
  decide +kernel

/-- The kernel when `run_demo` begins, with one kernel stack from `0x207000` on. -/
def smallStart : Kernel :=
  ⟨smallTables.mem.write 0x200000 [0xA5], ⟨0xffff800000000000, 0x200000, 0x217000, 0x400000⟩, 0x201000,
    false⟩

theorem smallTables_of_builds {pages : PageMap} {k : Kernel}
    (h : smallPlatform.Builds smallEarly (.ok pages k)) : k = smallTables := by
  obtain ⟨hhdm, entries, b, exec, phys, s₁, hhhdm, hentries, hb, hexec, hscratch, hbuild⟩ := h
  obtain rfl := Option.some.inj hhhdm
  obtain rfl := Option.some.inj hentries
  obtain rfl := Option.some.inj hexec
  obtain rfl : b = smallBump := Option.some.inj (hb.symm.trans (by decide))
  have hs₁ : s₁ = stateOf (scratchPage smallBump smallEarly) := by
    rw [hscratch]
    rfl
  have hbuild' : smallBuild s₁.kernel = .ok pages k := hbuild
  unfold smallTables
  rw [← hs₁, hbuild']
  rfl

/-- `kmain` on the small machine, and the kernel it leaves behind. -/
theorem small_booted : ∃ pages s, kmain smallPlatform smallEarly = .ok pages s ∧
    (∀ a, a + smallPlatform.ncpu * 65536 < s.kernel.bump.cursor.toNat →
      smallStart.mem a = s.kernel.mem a) ∧ { s.kernel with mem := smallStart.mem } = smallStart := by
  obtain ⟨pages, s, hrun⟩ : ∃ pages s, kmain smallPlatform smallEarly = .ok pages s :=
    smallMachine_boots none (by decide)
  have hspec := @kmain_spec smallPlatform smallEarly (smallMachine_sane none) rfl rfl
  obtain ⟨b, place, k, hbooted⟩ := wp_ok hspec hrun
  obtain rfl := smallTables_of_builds hbooted.builds
  obtain ⟨hpml4, hla, hbump⟩ := smallTables_eq
  have hb : b = smallBump := by
    obtain ⟨hhdm, entries, hhhdm, hentries, hmem⟩ := hbooted.region
    obtain rfl := Option.some.inj hhhdm
    obtain rfl := Option.some.inj hentries
    exact Option.some.inj (hmem.symm.trans (by decide))
  subst hb
  have hlaid := hbooted.laid
  have hone : smallPlatform.ncpu = 1 := rfl
  have hbase : smallTables.bump.cursor.toNat = 0x207000 := by
    rw [hbump]
    rfl
  have hcursor : s.kernel.bump.cursor = 0x217000 := by
    rw [← UInt64.toNat_inj, hlaid.cursor, hbase, hone]
    rfl
  have hregion : s.kernel.bump = { smallBump with cursor := s.kernel.bump.cursor } :=
    (hbooted.live.allocs.spec hbooted.live.wf).2.1
  refine ⟨pages, s, hrun, fun a ha => ?_, ?_⟩
  · rw [hlaid.cursor] at ha
    exact (hlaid.below a (Nat.lt_of_add_lt_add_right ha)).symm
  · have hbump' : s.kernel.bump = ⟨0xffff800000000000, 0x200000, 0x217000, 0x400000⟩ := by
      rw [hregion, hcursor]
      rfl
    have hpml4' : s.kernel.kernelPml4 = 0x201000 := hbooted.pml4.trans hpml4
    have hla' : s.kernel.la57 = false := hlaid.la57.trans hla
    show Kernel.mk smallStart.mem s.kernel.bump s.kernel.kernelPml4 s.kernel.la57 = smallStart
    rw [hbump', hpml4', hla']
    rfl

@[irreducible] def smallFirst : Kernel :=
  (outcome (populate ⟨0x218000, 0x218000⟩ "app" tinyImage 2 1 2 0x217000
    (smallStart.ringed 0x218000).cloned)).2

@[irreducible] def smallSecond : Kernel :=
  (outcome (populate ⟨0x228000, 0x228000⟩ "net" tinyImage 3 2 3 0x217000 smallFirst.cloned)).2

def smallCourts : Courts where
  app := ⟨"app", 0x218000, ⟨0x218000, 0x218000⟩, 0x408000, 0xffff80000021d000, 0x100000⟩
  net := ⟨"net", 0x228000, ⟨0x228000, 0x228000⟩, 0x408000, 0xffff80000022d000, 0x100000⟩
  appCap := 2
  netCap := 3
  ring := 0xffff800000217000

theorem small_first : spawn "app" tinyImage 2 1 2 0x217000 (smallStart.ringed 0x218000) =
    .ok smallCourts.app smallFirst := by
  have hcursor : (smallStart.ringed 0x218000).bump.cursor = 0x218000 := rfl
  rw [spawn_eq_populate (by decide) rfl (by decide) (by decide), hcursor]
  unfold smallFirst
  exact eq_ok_of_outcome (by decide +kernel)

theorem small_second : spawn "net" tinyImage 3 2 3 0x217000 smallFirst = .ok smallCourts.net smallSecond := by
  obtain ⟨hpml4, h57, hbump⟩ : smallFirst.kernelPml4 = 0x201000 ∧ smallFirst.la57 = false ∧
      smallFirst.bump = ⟨0xffff800000000000, 0x200000, 0x228000, 0x400000⟩ := by
    decide +kernel
  have hcursor : smallFirst.bump.cursor = 0x228000 := by rw [hbump]
  rw [spawn_eq_populate (by rw [hpml4]; decide) h57 (by rw [hbump]; decide)
    (by rw [hpml4, hbump]; decide), hcursor]
  unfold smallSecond
  exact eq_ok_of_outcome (by decide +kernel)

/-- The set-up on the small machine. -/
theorem small_setup {b : BumpAllocator} {space : AddressSpace} {place : Nat → Option Place} {e : Early}
    (h : e.Live b space place) (hkernel : e.kernel = smallStart) :
    ∃ c t, Stage.setup tinyImage tinyImage ⟨e, Object.RootCourt.after [.bootstrap]⟩ = .ok c t := by
  -- the tables of Root Court
  obtain ⟨root, hreg⟩ : ∃ root, Demo.register (Object.RootCourt.after [.bootstrap]) =
      .ok (2, 3, 2, 3) root := by
    have hids : (resultOf (Demo.register (Object.RootCourt.after [.bootstrap]))).toOption =
        some (2, 3, 2, 3) := by decide +kernel
    cases hrun : Demo.register (Object.RootCourt.after [.bootstrap]) with
    | ok ids root =>
      rw [hrun] at hids
      obtain rfl := Option.some.inj hids
      exact ⟨root, rfl⟩
    | error e root =>
      rw [hrun] at hids
      cases hids
  -- the ring page
  have hcursor : e.kernel.bump.cursor = 0x217000 := by
    rw [hkernel]
    rfl
  obtain ⟨⟨ring, virt⟩, e₁, hringRun, -, hpair, hkernel₁, hcursor₁, -⟩ := by
    refine exists_ok_of_wp (wp_mono (Stage.ringPage_spec h) (fun _ _ hpost => hpost) fun _ _ hfew => ?_)
    rw [hkernel] at hfew
    exact absurd hfew (by decide)
  obtain rfl : ring = 0x217000 := (Prod.mk.inj hpair).1.trans hcursor
  have hnext : e₁.kernel.bump.cursor = 0x218000 := by
    rw [← UInt64.toNat_inj, hcursor₁, hcursor]
    rfl
  rw [hnext, hkernel] at hkernel₁
  -- the courts
  have hrun : wp (Stage.setup tinyImage tinyImage) (fun _ _ => True) (fun _ _ => False)
      ⟨e, Object.RootCourt.after [.bootstrap]⟩ := by
    unfold Stage.setup
    rw [wp_bind, Stage.onRoot, wp_zoom]
    apply wp_of_ok hreg
    rw [wp_bind, Stage.onEarly, wp_zoom]
    apply wp_of_ok hringRun
    rw [wp_bind, Stage.onEarly, wp_zoom, onKernel, wp_zoom]
    apply wp_of_ok (show _ = EStateM.Result.ok smallCourts.app smallFirst by rw [hkernel₁]; exact small_first)
    rw [wp_bind, Stage.onEarly, wp_zoom, onKernel, wp_zoom]
    apply wp_of_ok small_second
    rw [wp_bind, wp_ensure]
    exact ⟨fun _ => (wp_pure _).2 trivial, fun hne => hne (by decide)⟩
  obtain ⟨c, t, hok, -⟩ := exists_ok_of_wp hrun
  exact ⟨c, t, hok⟩

/-- The small machine is up, and its demo is set up. -/
theorem small_stage : ∃ pages s c t, kmain smallPlatform smallEarly = .ok pages s ∧
    s.kernel.la57 = false ∧
    (∀ a, a + smallPlatform.ncpu * 65536 < s.kernel.bump.cursor.toNat →
      smallStart.mem a = s.kernel.mem a) ∧
    Stage.setup tinyImage tinyImage ⟨{ s with kernel := { s.kernel with mem := smallStart.mem } },
      Object.RootCourt.after [.bootstrap]⟩ = .ok c t := by
  obtain ⟨pages, s, hboot, hm, hkernel⟩ := small_booted
  have hspec := @kmain_spec smallPlatform smallEarly (smallMachine_sane none) rfl rfl
  obtain ⟨b, place, k, hbooted⟩ := wp_ok hspec hboot
  obtain ⟨c, t, hsetup⟩ := small_setup (hbooted.stacked hm) hkernel
  exact ⟨pages, s, c, t, hboot, congrArg Kernel.la57 hkernel, hm, hsetup⟩

theorem Stage.demo_runs_small : ∃ (c : Courts) (t : Stage) (d : Demo),
    Demo.setup (Object.RootCourt.after [.bootstrap]) = .ok d ∧
      ((Stage.machine c t).log t [⟨.app, [1, 2, 3]⟩, ⟨.revoke, []⟩, ⟨.net, []⟩]).map Prod.snd =
        (d.machine.log d [.app, .revoke, .net]).map fun e => .ok e.2 := by
  obtain ⟨pages, s, c, t, hboot, h57, hm, hsetup⟩ := small_stage
  obtain ⟨d, hd, hlog⟩ := @Stage.demo_runs smallPlatform smallEarly s pages smallStart.mem [.bootstrap]
    tinyImage tinyImage (smallMachine_sane none) rfl rfl hboot h57 hm c t hsetup
    [⟨.app, [1, 2, 3]⟩, ⟨.revoke, []⟩, ⟨.net, []⟩] (by decide)
  exact ⟨c, t, d, hd, hlog⟩

theorem Stage.runDemo_result_small : ∃ s : Early,
    resultOf (Stage.runDemo tinyImage tinyImage [1] [2] [3] ⟨s, Object.RootCourt.after [.bootstrap]⟩) =
      .ok () := by
  obtain ⟨pages, s, c, t, hboot, h57, hm, hsetup⟩ := small_stage
  have hresult := @Stage.runDemo_result smallPlatform smallEarly s pages smallStart.mem [.bootstrap]
    tinyImage tinyImage (smallMachine_sane none) rfl rfl hboot h57 hm [1] [2] [3] (by decide)
    (by decide) (by decide)
  rw [hsetup] at hresult
  exact ⟨_, hresult⟩

end RootCourt

end CourtKernel
