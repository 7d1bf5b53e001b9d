import CourtKernel.RootCourt.Courtlet
import CourtKernel.RootCourt.KernelHalf

/-!
# What two courtlets share

The lower half of a courtlet is made by `spawn`: the segments of its image, a boot page, the ring
page and a stack, in this order.  All of them but the ring are pages that the allocator grants while
`spawn` runs.

* `lowFrames` — the frames that lower-half translations reach.
* `spawn_spec` — what one call of `spawn` does: a new space with exactly these runs of pages, and
  nothing in any other space changes.
* `Confined` — what that means for the translations of a courtlet, whatever its image.
* `courtlets_share_ring` — the frames of two courtlets meet in the ring page only, and none of them
  is a table.
-/

namespace CourtKernel

namespace RootCourt

open Place (shape)

/-- The frames that lower-half translations reach. -/
def lowFrames (m : Memory) (cr3 : UInt64) : Set Nat :=
  {f | ∃ va p, va < LOWER_HALF_END ∧ translate m cr3 va = some p ∧ f = p / 4096 * 4096}

theorem pageOf_lower {va : UInt64} (h : va < LOWER_HALF_END) :
    pageOf va = va.toNat / 4096 ∧ pageOf va < 2 ^ 35 := by
  rw [UInt64.lt_iff_toNat_lt, show LOWER_HALF_END.toNat = 2 ^ 47 from rfl] at h
  unfold pageOf
  omega

theorem Layout.translate {w : World} {cr3 : UInt64} {runs : List Run}
    (h : Layout w cr3.toNat runs) {va : UInt64} (hva : va < LOWER_HALF_END) :
    RootCourt.translate w.mem cr3 va =
      (Run.find 4096 runs (pageOf va)).map (· + va.toNat % 4096) := by
  rw [translate_eq, h.exact _ (pageOf_lower hva).2]

/-- What the addresses of a run translate to. -/
theorem Layout.translate_run {w : World} {cr3 : UInt64} {runs : List Run}
    (h : Layout w cr3.toNat runs) {run : Run} (hrun : run ∈ runs)
    (hend : run.first + run.count ≤ 2 ^ 35) {va : UInt64} (off : Nat)
    (hoff : off < run.count * 4096) (hva : va.toNat = run.first * 4096 + off) :
    RootCourt.translate w.mem cr3 va = some (run.frame + off) := by
  have hlow : va < LOWER_HALF_END := by
    rw [UInt64.lt_iff_toNat_lt, show LOWER_HALF_END.toNat = 2 ^ 47 from rfl]
    omega
  have hpage : pageOf va = run.first + off / 4096 := by
    rw [(pageOf_lower hlow).1, hva]
    omega
  have hhas : run.Has (pageOf va) := by
    rw [hpage, Run.Has]
    omega
  rw [h.translate hlow, Run.find_of_has (h.pages.imp fun hab => hab _ (pageOf_lower hlow).2) hrun hhas,
    Option.map_some, Run.target, hpage, hva, Option.some.injEq]
  omega

/-- Two addresses with one translation are one address. -/
theorem Layout.translate_inj {w : World} {cr3 : UInt64} {runs : List Run}
    (h : Layout w cr3.toNat runs) {va va' : UInt64} (hva : va < LOWER_HALF_END)
    (hva' : va' < LOWER_HALF_END) {p : Nat} (hp : RootCourt.translate w.mem cr3 va = some p)
    (hp' : RootCourt.translate w.mem cr3 va' = some p) : va = va' := by
  have haligned : ∀ {v f}, Run.find 4096 runs v = some f → f % 4096 = 0 := fun hf => by
    obtain ⟨run, hrun, -, rfl⟩ := Run.exists_of_find hf
    have := (h.data run hrun).aligned
    unfold Run.target
    omega
  rw [h.translate hva, Option.map_eq_some_iff] at hp
  rw [h.translate hva', Option.map_eq_some_iff] at hp'
  obtain ⟨f, hf, rfl⟩ := hp
  obtain ⟨f', hf', he⟩ := hp'
  have h1 := haligned hf
  have h2 := haligned hf'
  obtain rfl : f' = f := by omega
  have hpage := Run.find_inj (by decide) h.frames hf hf'
  rw [(pageOf_lower hva).1, (pageOf_lower hva').1] at hpage
  rw [← UInt64.toNat_inj]
  omega

/-- A frame of a layout is a frame of one of its runs. -/
theorem Layout.mem_lowFrames {w : World} {cr3 : UInt64} {runs : List Run}
    (h : Layout w cr3.toNat runs) {f : Nat} (hf : f ∈ lowFrames w.mem cr3) :
    ∃ run ∈ runs, ∃ j < run.count, f = run.frame + j * 4096 := by
  obtain ⟨va, p, hva, hp, rfl⟩ := hf
  rw [h.translate hva, Option.map_eq_some_iff] at hp
  obtain ⟨f, hfind, rfl⟩ := hp
  obtain ⟨run, hrun, ⟨h1, h2⟩, rfl⟩ := Run.exists_of_find hfind
  have haligned := (h.data run hrun).aligned
  refine ⟨run, hrun, pageOf va - run.first, by omega, ?_⟩
  rw [Run.target]
  omega

/-- No frame of a layout is a table of any space. -/
theorem Layout.not_table {w : World} {cr3 : UInt64} {runs : List Run}
    (h : Layout w cr3.toNat runs) (ht : Tables w) {f : Nat} (hf : f ∈ lowFrames w.mem cr3)
    {root : UInt64} (hroot : w.place root.toNat = some (.pml4 root.toNat)) :
    f ∉ tablePages w.mem root := by
  rintro ⟨va, hva⟩
  obtain ⟨run, hrun, j, hj, rfl⟩ := h.mem_lowFrames hf
  obtain ⟨p, hp⟩ := Radix.placed_of_mem_visits ht.placed _ _ _ hroot rfl hva
  rw [(h.data run hrun).free j hj] at hp
  cases hp

/-! ## Spawning -/

section

variable {k k₁ k' : Kernel} {place place₁ place' : Nat → Option Place} {r r' : Nat}
  {S : Nat → Prop}

/-- Code that maps no page changes no walk. -/
theorem Kernel.Moves.anywhere (h : k.Moves place r (fun _ => False) k' place') :
    k.Moves place r' S k' place' :=
  ⟨⟨h.moved.step, fun n p is a v hn hb hv _ => h.moved.frame n p is a v hn hb hv fun hs => hs.1,
    fun n a i hn _ => h.moved.others n a i hn fun _ _ hv => hv.elim, h.moved.wraps⟩, h.kernelPml4,
    h.la57⟩

/-- A clone of a kernel with an empty lower half has an empty lower half. -/
theorem Cloned.layout {space : AddressSpace} (hc : Cloned k space k₁ place₁) (h : System k place) :
    Layout (k₁.world place₁) space.pml4Phys.toNat [] := by
  refine ⟨fun v hv => ?_, .nil, .nil, nofun⟩
  refine frameAt_absent ?_
  rw [show (k₁.world place₁).mem = k₁.mem from rfl, hc.entries, h.low _ (by omega)]

/-- The runs of pages that `spawn` makes after those of the image. -/
def fixedRuns (boot ring stack : Nat) : List Run :=
  [⟨0x200, boot, 1⟩, ⟨0x300, ring, 1⟩, ⟨0x400, stack, 8⟩]

/-- What a call of `spawn` leaves behind. -/
structure Spawned (k : Kernel) (place : Nat → Option Place) (image : List UInt8) (ring : UInt64)
    (info : BootInfo) (c : Courtlet) (k' : Kernel) (place' : Nat → Option Place) : Prop where
  moves : k.Moves place c.cr3.toNat (fun _ => True) k' place'
  root : place' c.cr3.toNat = some (.pml4 c.cr3.toNat)
  fresh : k.bump.cursor.toNat ≤ c.cr3.toNat
  top : c.stackTop = STACK_VA + STACK_SIZE
  runs : ∃ segs boot stack, Image.Loaded k (Image.segments image) segs ∧
    k.bump.cursor.toNat ≤ boot.toNat ∧ k.bump.cursor.toNat ≤ stack ∧
    c.boot = k.bump.virt boot ∧ k'.mem.read boot.toNat info.bytes.length = info.bytes ∧
    Layout (k'.world place') c.cr3.toNat (segs ++ fixedRuns boot.toNat ring.toNat stack)

/-- One of the calls of `map` at the end of `spawn`. -/
theorem Layout.map_run {space : AddressSpace} {runs : List Run}
    (hl : Layout (k.world place) space.pml4Phys.toNat runs) (run : Run)
    (h : Tables (k.world place))
    (hroot : place space.pml4Phys.toNat = some (.pml4 space.pml4Phys.toNat))
    {virt phys len : UInt64} (hfirst : pageOf virt = run.first) (hframe : phys.toNat = run.frame)
    (hcount : len.toNat / 4096 = run.count) (hwrap : run.first + run.count ≤ 2 ^ 36)
    (hdata : Data (k.world place) run) (hapart : ∀ old ∈ runs, Run.Apart 4096 old run) :
    wp (space.map virt phys len)
      (fun _ k' => ∃ place', k.Moves place space.pml4Phys.toNat (fun _ => True) k' place' ∧
        Layout (k'.world place') space.pml4Phys.toNat (runs ++ [run]))
      (fun _ _ => True) k := by
  refine wp_mono (AddressSpace.map_run h hroot hfirst hframe hcount hwrap hdata) ?_
    fun _ _ _ => trivial
  rintro ⟨⟩ k' ⟨place', hm, -, hlayout⟩
  exact ⟨place', hm.mono fun _ _ => trivial, hlayout runs hl hapart⟩

/-- The three calls of `map` at the end of `spawn`, and what follows them. -/
theorem wp_mapFixed {space : AddressSpace} {runs : List Run} {boot ring stack : UInt64} {α : Type}
    {x : Prog Kernel α} {Q : α → Kernel → Prop} (h : Tables (k.world place))
    (hroot : place space.pml4Phys.toNat = some (.pml4 space.pml4Phys.toNat))
    (hl : Layout (k.world place) space.pml4Phys.toNat runs)
    (hdata : ∀ run ∈ fixedRuns boot.toNat ring.toNat stack.toNat, Data (k.world place) run)
    (hboot : ∀ old ∈ runs, Run.Apart 4096 old ⟨0x200, boot.toNat, 1⟩)
    (hring : ∀ old ∈ runs ++ [⟨0x200, boot.toNat, 1⟩], Run.Apart 4096 old ⟨0x300, ring.toNat, 1⟩)
    (hstack : ∀ old ∈ runs ++ [⟨0x200, boot.toNat, 1⟩] ++ [⟨0x300, ring.toNat, 1⟩],
      Run.Apart 4096 old ⟨0x400, stack.toNat, 8⟩)
    (hx : ∀ k' place', k.Moves place space.pml4Phys.toNat (fun _ => True) k' place' →
      Layout (k'.world place') space.pml4Phys.toNat
        (runs ++ fixedRuns boot.toNat ring.toNat stack.toNat) → wp x Q (fun _ _ => True) k') :
    wp (do
        space.map BOOT_VA boot PAGE
        space.map RING_VA ring PAGE
        space.map STACK_VA stack STACK_SIZE
        x) Q (fun _ _ => True) k := by
  rw [fixedRuns, List.forall_mem_cons, List.forall_mem_cons, List.forall_mem_singleton] at hdata
  obtain ⟨hbootData, hringData, hstackData⟩ := hdata
  rw [wp_bind]
  refine wp_mono (hl.map_run _ h hroot rfl rfl rfl (by simp) hbootData hboot) ?_ fun _ _ _ => trivial
  rintro ⟨⟩ k₁ ⟨place₁, hm₁, hl₁⟩
  have hroot₁ := hm₁.moved.step.kept _ _ hroot
  rw [wp_bind]
  refine wp_mono (hl₁.map_run _ hm₁.moved.step.tables hroot₁ rfl rfl rfl (by simp)
    (hringData.step hm₁.moved.step) hring) ?_ fun _ _ _ => trivial
  rintro ⟨⟩ k₂ ⟨place₂, hm₂, hl₂⟩
  have hm₂ := hm₁.trans hm₂
  have hroot₂ := hm₂.moved.step.kept _ _ hroot
  rw [wp_bind]
  refine wp_mono (hl₂.map_run _ hm₂.moved.step.tables hroot₂ rfl rfl rfl (by simp)
    (hstackData.step hm₂.moved.step) hstack) ?_ fun _ _ _ => trivial
  rintro ⟨⟩ k₃ ⟨place₃, hm₃, hl₃⟩
  rw [List.append_assoc, List.append_assoc] at hl₃
  exact hx k₃ place₃ (hm₂.trans hm₃) hl₃

/-- Taking pages for data, and writing there: no space changes. -/
theorem Kernel.allocPages_data (h : Tables (k.world place)) (pages : UInt64) (message : String) :
    wp (allocPages pages message) (fun phys k' => phys = k.bump.cursor ∧
        ∀ mem, (∀ a, a < phys.toNat → mem a = k'.mem a) →
          k.Moves place r S { k' with mem := mem } place ∧
          (∀ first, Data (Kernel.world { k' with mem := mem } place)
            ⟨first, phys.toNat, pages.toNat⟩) ∧
          ∀ r runs, place r = some (.pml4 r) → Layout (k.world place) r runs →
            Layout (Kernel.world { k' with mem := mem } place) r runs ∧
              ∀ first, ∀ run ∈ runs, Run.Apart 4096 run ⟨first, phys.toNat, pages.toNat⟩)
      (fun _ _ => True) k := by
  refine wp_mono (allocPages_spec h pages message) ?_ fun _ _ _ => trivial
  rintro phys k' ⟨hphys, hcursor, hgrant⟩
  refine ⟨hphys, fun mem hmem => ⟨hgrant r S mem hmem, fun first => .ofGrant h hphys hcursor,
    fun r' runs hr hl => ⟨?_, fun first run hrun => ?_⟩⟩⟩
  · exact hl.keep hr (hgrant 0 (fun _ => False) mem hmem).moved nofun
  · have hgranted := (hl.data run hrun).granted
    exact Or.inl (by rw [hphys]; exact hgranted)

/-- What `spawn` puts into a new space. -/
theorem populate_spec {space : AddressSpace} (h : Tables (k.world place))
    (hroot : place space.pml4Phys.toNat = some (.pml4 space.pml4Phys.toNat))
    (hempty : Layout (k.world place) space.pml4Phys.toNat []) {ring : UInt64}
    (hring : Data (k.world place) ⟨0x300, ring.toNat, 1⟩) (name : String) (image : List UInt8)
    (capId rights courtId : UInt64) :
    wp (populate space name image capId rights courtId ring)
      (fun c k' => (c.cr3 = space.cr3 ∧ c.stackTop = STACK_VA + STACK_SIZE) ∧
        ∃ place', k.Moves place space.pml4Phys.toNat (fun _ => True) k' place' ∧
        ∃ segs boot stack, Image.Loaded k (Image.segments image) segs ∧
          k.bump.cursor.toNat ≤ boot.toNat ∧ k.bump.cursor.toNat ≤ stack ∧
          c.boot = k.bump.virt boot ∧
          k'.mem.read boot.toNat 40 = BootInfo.bytes ⟨BOOT_MAGIC, capId, rights, RING_VA, courtId⟩ ∧
          Layout (k'.world place') space.pml4Phys.toNat
            (segs ++ fixedRuns boot.toNat ring.toNat stack))
      (fun _ _ => True) k := by
  unfold populate
  rw [wp_bind]
  refine wp_mono (Image.load_spec h hroot) ?_ fun _ _ _ => trivial
  rintro entry k₁ ⟨place₁, hloads, hload, -⟩
  obtain ⟨segs, hsegs, hl₁⟩ := hload [] hempty
  have hm₁ : k.Moves place space.pml4Phys.toNat (fun _ => True) k₁ place₁ :=
    hloads.mono fun _ _ => trivial
  have hroot₁ := hloads.moved.step.kept _ _ hroot
  rw [List.nil_append] at hl₁
  -- the boot page
  rw [wp_bind]
  refine wp_mono (Kernel.allocPages_data (r := space.pml4Phys.toNat) (S := fun _ => True)
    hm₁.moved.step.tables 1 _) ?_ fun _ _ _ => trivial
  rintro boot k₂ ⟨hboot, hgrant⟩
  rw [wp_bind, Kernel.writeBytes, wp_modify, wp_bind, Kernel.copy, wp_modify, wp_bind]
  obtain ⟨hm₂, hbootData, hkeep⟩ := hgrant _ fun a ha =>
    (Memory.write_of_lt ha).trans (Memory.fill_of_disjoint (Or.inl ha))
  obtain ⟨hl₂, hbootApart⟩ := hkeep _ _ hroot₁ hl₁
  have hm₂ := hm₁.trans hm₂
  have hbootData := hbootData 0x200
  have hinfo : (Kernel.mk ((k₂.mem.fill boot.toNat PAGE.toNat 0).write boot.toNat
      (BootInfo.bytes ⟨BOOT_MAGIC, capId, rights, RING_VA, courtId⟩)) k₂.bump k₂.kernelPml4 k₂.la57).mem.read
        boot.toNat 40 = BootInfo.bytes ⟨BOOT_MAGIC, capId, rights, RING_VA, courtId⟩ :=
    Memory.read_write_self
  generalize Kernel.mk _ k₂.bump k₂.kernelPml4 k₂.la57 = k₂ at *
  -- the stack
  refine wp_mono (Kernel.allocPages_data (r := space.pml4Phys.toNat) (S := fun _ => True)
    hm₂.moved.step.tables STACK_PAGES _) ?_ fun _ _ _ => trivial
  rintro stack k₃ ⟨hstack, hgrant⟩
  rw [wp_bind, Kernel.writeBytes, wp_modify]
  obtain ⟨hgrants, hstackData, hkeep⟩ := hgrant _ fun a ha => Memory.fill_of_disjoint (Or.inl ha)
  obtain ⟨hl₃, hstackApart⟩ := hkeep _ _ hroot₁ hl₂
  have hm₃ := hm₂.trans hgrants
  generalize Kernel.mk _ k₃.bump k₃.kernelPml4 k₃.la57 = k₃ at *
  -- the ring lies below everything else, and the stack above
  have hlow : ring.toNat + 1 * 4096 ≤ k.bump.cursor.toNat := hring.granted
  have hfloor : ∀ old ∈ segs ++ [⟨0x200, boot.toNat, 1⟩], k.bump.cursor.toNat ≤ old.frame := by
    intro old hold
    rcases List.mem_append.1 hold with hold | hold
    · exact hsegs.fresh old hold
    · obtain rfl := List.mem_singleton.1 hold
      exact hboot ▸ hm₁.moved.step.cursor
  have hstackFloor : k.bump.cursor.toNat ≤ stack.toNat := hstack ▸ hm₂.moved.step.cursor
  refine wp_mapFixed hm₃.moved.step.tables hroot₁ hl₃ ?_ (hbootApart 0x200)
    (fun old hold => Or.inr (Nat.le_trans hlow (hfloor old hold))) ?_ ?_
  · rw [fixedRuns, List.forall_mem_cons, List.forall_mem_cons, List.forall_mem_singleton]
    exact ⟨hbootData.step hgrants.moved.step, hring.step hm₃.moved.step, hstackData 0x400⟩
  · intro old hold
    rw [List.mem_append, List.mem_append, List.mem_singleton, List.mem_singleton] at hold
    rcases hold with (hold | rfl) | rfl
    · exact hstackApart 0x400 old hold
    · exact Or.inl (by rw [hstack]; exact hbootData.granted)
    · exact Or.inl (Nat.le_trans hlow hstackFloor)
  intro k₄ place₄ hm₄ hl₄
  have hm := hm₃.trans hm₄
  have hbump : k₄.bump = { k.bump with cursor := k₄.bump.cursor } := hm.moved.step.bump
  have hrest := hgrants.moved.step.trans hm₄.moved.step
  rw [wp_bind, wp_get, wp_pure]
  refine ⟨⟨rfl, rfl⟩, place₄, hm, segs, boot, stack.toNat, hsegs, ?_, hstackFloor, ?_, ?_, hl₄⟩
  · exact hfloor _ (List.mem_append_right _ List.mem_cons_self)
  · rw [hbump]
    rfl
  · -- nothing after it writes to the boot page
    rw [← hinfo]
    apply Memory.read_congr
    intro i hi
    exact hbootData.mem_eq hm₂.moved.step.tables hrest (show i < 1 * 4096 by omega)

/-- **One call of `spawn`**, in four-level paging. -/
theorem spawn_spec (h : System k place) (h57 : k.la57 = false) {ring : UInt64}
    (hring : Data (k.world place) ⟨0x300, ring.toNat, 1⟩) (name : String) (image : List UInt8)
    (capId rights courtId : UInt64) :
    wp (spawn name image capId rights courtId ring)
      (fun c k' => ∃ place', Spawned k place image ring ⟨BOOT_MAGIC, capId, rights, RING_VA, courtId⟩ c k'
        place') (fun _ _ => True) k := by
  rw [spawn, wp_bind]
  refine wp_mono (AddressSpace.cloneKernel_spec h 0 fun _ => False) ?_ fun _ _ _ => trivial
  rintro space k₁ ⟨place₁, hclone, hcloned⟩
  have hcr3 := hcloned.seated.cr3 h57
  have hroot := hcloned.seated.pml4
  have hfresh := hcloned.fresh
  have hm₁ : k.Moves place space.pml4Phys.toNat (fun _ => True) k₁ place₁ := hclone.anywhere
  have hcursor := hm₁.moved.step.cursor
  have hbump : k₁.bump = { k.bump with cursor := k₁.bump.cursor } := hm₁.moved.step.bump
  refine wp_mono (populate_spec hm₁.moved.step.tables hroot (hcloned.layout h)
    (hring.step hm₁.moved.step) ..) ?_ fun _ _ _ => trivial
  rintro c k₂ ⟨⟨hc, htop⟩, place₂, hm₂, segs, boot, stack, hsegs, hboot, hstack, hvirt, hinfo, hl⟩
  rw [hcr3] at hc
  rw [← hc] at hm₁ hm₂ hl hroot hfresh
  refine ⟨place₂, hm₁.trans hm₂, hm₂.moved.step.kept _ _ hroot, hfresh, htop, segs, boot, stack,
    ⟨hsegs.pages, fun run hrun => Nat.le_trans hcursor (hsegs.fresh run hrun)⟩,
    Nat.le_trans hcursor hboot, Nat.le_trans hcursor hstack, ?_, hinfo, hl⟩
  rw [hvirt, hbump]
  rfl

/-! ## The translations of a courtlet -/

/-- The pages that `spawn` maps besides those of the image. -/
def FixedPage (v : Nat) : Prop :=
  v = pageOf BOOT_VA ∨ v = pageOf RING_VA ∨
    pageOf STACK_VA ≤ v ∧ v < pageOf STACK_VA + STACK_PAGES.toNat

/-- The pages of the segments of an image. -/
def Image.Page (image : List UInt8) (v : Nat) : Prop :=
  ∃ seg ∈ segments image, seg.first ≤ v ∧ v < seg.first + seg.count

/-- The lower half of a courtlet in memory `m`: `k` and `k'` are the kernel before and after its
`spawn`. -/
structure Confined (m : Memory) (ringPhys : UInt64) (k k' : Kernel) (image : List UInt8)
    (c : Courtlet) : Prop where
  boot : ∃ phys : UInt64, c.boot = k.bump.virt phys ∧ translate m c.cr3 BOOT_VA = some phys.toNat
  ring : translate m c.cr3 RING_VA = some ringPhys.toNat
  stack : ∃ phys, ∀ off < STACK_SIZE.toNat,
    translate m c.cr3 (STACK_VA + UInt64.ofNat off) = some (phys + off)
  own : ∀ f ∈ lowFrames m c.cr3, f = ringPhys.toNat ∨
    k.bump.cursor.toNat ≤ f ∧ f + 4096 ≤ k'.bump.cursor.toNat
  only : ∀ va < LOWER_HALF_END, (translate m c.cr3 va).isSome ↔
    Image.Page image (pageOf va) ∨ FixedPage (pageOf va)
  apart : ∀ v < 2 ^ 35, Image.Page image v → ¬ FixedPage v
  inj : ∀ va < LOWER_HALF_END, ∀ va' < LOWER_HALF_END, ∀ p,
    translate m c.cr3 va = some p → translate m c.cr3 va' = some p → va = va'

theorem Image.Loaded.page {image : List UInt8} {segs : List Run}
    (h : Image.Loaded k (Image.segments image) segs) {v : Nat} :
    Image.Page image v ↔ ∃ run ∈ segs, run.Has v := by
  have hmem : ∀ a b, (∃ run ∈ segs, (run.first, run.count) = (a, b)) ↔
      ∃ seg ∈ Image.segments image, (seg.first, seg.count) = (a, b) := fun a b => by
    rw [← List.mem_map (f := fun run : Run => (run.first, run.count)), h.pages, List.mem_map]
  constructor
  · rintro ⟨seg, hseg, hv⟩
    obtain ⟨run, hrun, he⟩ := (hmem _ _).2 ⟨seg, hseg, rfl⟩
    obtain ⟨h1, h2⟩ := Prod.mk.inj he
    exact ⟨run, hrun, by rw [Run.Has, h1, h2]; exact hv⟩
  · rintro ⟨run, hrun, hv⟩
    obtain ⟨seg, hseg, he⟩ := (hmem _ _).1 ⟨run, hrun, rfl⟩
    obtain ⟨h1, h2⟩ := Prod.mk.inj he
    exact ⟨seg, hseg, by rw [h1, h2]; exact hv⟩

theorem fixedPage_iff (boot ring stack : Nat) {v : Nat} :
    FixedPage v ↔ ∃ run ∈ fixedRuns boot ring stack, run.Has v := by
  have hboot : pageOf BOOT_VA = 0x200 := rfl
  have hring : pageOf RING_VA = 0x300 := rfl
  have hstack : pageOf STACK_VA = 0x400 := rfl
  have hpages : STACK_PAGES.toNat = 8 := rfl
  simp only [FixedPage, fixedRuns, List.mem_cons, List.not_mem_nil, or_false, exists_eq_or_imp,
    exists_eq_left, Run.Has, hboot, hring, hstack, hpages]
  omega

/-- **What `spawn` means for the courtlet**, as long as the lower half of its space is kept. -/
theorem Spawned.confined {image : List UInt8} {ring : UInt64} {info : BootInfo} {c : Courtlet} {w : World}
    (h : Spawned k place image ring info c k' place')
    (hkeep : ∀ runs, Layout (k'.world place') c.cr3.toNat runs → Layout w c.cr3.toNat runs) :
    Confined w.mem ring k k' image c := by
  obtain ⟨segs, boot, stack, hsegs, hbootFloor, hstackFloor, hboot, -, hl'⟩ := h.runs
  have hl := hkeep _ hl'
  have hbefore : ∀ run ∈ segs ++ fixedRuns boot.toNat ring.toNat stack,
      k.bump.cursor.toNat ≤ run.frame ∨ run = ⟨0x300, ring.toNat, 1⟩ := by
    intro run hrun
    rw [fixedRuns, List.mem_append, List.mem_cons, List.mem_cons, List.mem_singleton] at hrun
    rcases hrun with hrun | rfl | rfl | rfl
    · exact Or.inl (hsegs.fresh run hrun)
    · exact Or.inl hbootFloor
    · exact Or.inr rfl
    · exact Or.inl hstackFloor
  have hpages : ∀ v, (∃ run ∈ segs ++ fixedRuns boot.toNat ring.toNat stack, run.Has v) ↔
      Image.Page image v ∨ FixedPage v := fun v => by
    rw [hsegs.page, fixedPage_iff boot.toNat ring.toNat stack]
    simp only [List.mem_append, or_and_right, exists_or]
  have hfixed : ∀ run ∈ fixedRuns boot.toNat ring.toNat stack,
      run ∈ segs ++ fixedRuns boot.toNat ring.toNat stack := fun _ => List.mem_append_right _
  refine ⟨⟨boot, hboot, ?_⟩, ?_, ⟨stack, fun off hoff => ?_⟩, fun f hf => ?_, fun va hva => ?_,
    fun v hv hpage hfixed => ?_, fun va hva va' hva' p => hl.translate_inj hva hva'⟩
  · have hva : BOOT_VA.toNat = 0x200 * 4096 + 0 := by decide
    exact hl.translate_run (hfixed ⟨0x200, boot.toNat, 1⟩ (by simp [fixedRuns])) (by simp) 0 (by simp) hva
  · have hva : RING_VA.toNat = 0x300 * 4096 + 0 := by decide
    exact hl.translate_run (hfixed ⟨0x300, ring.toNat, 1⟩ (by simp [fixedRuns])) (by simp) 0 (by simp) hva
  · have hsize : STACK_SIZE.toNat = 8 * 4096 := rfl
    refine hl.translate_run (hfixed ⟨0x400, stack, 8⟩ (by simp [fixedRuns])) (by simp) off (hsize ▸ hoff) ?_
    rw [UInt64.toNat_add, UInt64.toNat_ofNat_of_lt' (by unfold UInt64.size; omega)]
    show (0x400000 + off) % 2 ^ 64 = 0x400 * 4096 + off
    omega
  · obtain ⟨run, hrun, j, hj, rfl⟩ := hl.mem_lowFrames hf
    have hgranted : run.frame + run.count * 4096 ≤ k'.bump.cursor.toNat := (hl'.data run hrun).granted
    have hmul : (j + 1) * 4096 ≤ run.count * 4096 := Nat.mul_le_mul_right _ hj
    rcases hbefore run hrun with hfloor | rfl
    · exact Or.inr (by omega)
    · obtain rfl : j = 0 := Nat.lt_one_iff.1 hj
      exact Or.inl rfl
  · rw [hl.translate hva, Option.isSome_map, Run.isSome_find, hpages]
  · obtain ⟨a, ha, hav⟩ := hsegs.page.1 hpage
    obtain ⟨b, hb, hbv⟩ := (fixedPage_iff boot.toNat ring.toNat stack).1 hfixed
    exact (List.pairwise_append.1 hl.pages).2.2 a ha b hb v hv hav hbv

/-! ## Two courtlets -/

/-- A page granted later is not one of the tables. -/
theorem Tables.ne_of_fresh {w : World} (h : Tables w) {n c : Nat} {p : Place}
    (hn : w.place n = some p) (hc : w.bump.cursor.toNat ≤ c) : n ≠ c := by
  have := (h.page n p hn).2.2
  omega

/-- What the rest of the kernel may do in between: take further pages, and write to pages that were
not yet granted when the cursor was at `floor`. -/
structure Kernel.Uses (floor : Nat) (k k' : Kernel) : Prop where
  allocs : k.bump.Allocs k'.bump
  mem : ∀ a < floor, k'.mem a = k.mem a
  kernelPml4 : k'.kernelPml4 = k.kernelPml4
  la57 : k'.la57 = k.la57

theorem Kernel.Uses.trans {floor : Nat} (h₁ : k.Uses floor k₁) (h₂ : k₁.Uses floor k') :
    k.Uses floor k' :=
  ⟨h₁.allocs.trans h₂.allocs, fun a ha => (h₂.mem a ha).trans (h₁.mem a ha),
    h₂.kernelPml4.trans h₁.kernelPml4, h₂.la57.trans h₁.la57⟩

/-- Writing to pages that are granted later changes no table. -/
theorem Kernel.Uses.moves (h : k.Uses k.bump.cursor.toNat k') (ht : Tables (k.world place)) :
    k.Moves place r S k' place := by
  obtain ⟨hwf, hbump, hcursor⟩ := h.allocs.spec ht.bump
  exact ⟨Moved.grant ht hwf hbump hcursor h.mem, h.kernelPml4, h.la57⟩

/-- A grant is a use. -/
theorem Kernel.Uses.grant {pages phys : UInt64} {message : String} (floor : Nat)
    (h : Kernel.allocPages pages message k = .ok phys k') :
    k.Uses floor k' ∧ k.bump.allocPages pages = some (phys, k'.bump) := by
  have hspec : wp (Kernel.allocPages pages message)
      (fun phys k' => k.Uses floor k' ∧ k.bump.allocPages pages = some (phys, k'.bump))
      (fun _ _ => True) k := by
    unfold Kernel.allocPages
    rw [wp_bind, wp_get]
    cases halloc : k.bump.allocPages pages with
    | none => exact (wp_throw _).2 trivial
    | some grant =>
      rw [wp_bind, wp_modify, wp_pure]
      exact ⟨⟨.step (.refl _) halloc, fun _ _ => rfl, rfl, rfl⟩, rfl⟩
  have hok := wp_ok hspec h
  exact hok

/-- The ring page at the time of the first `spawn`. -/
theorem ring_data {k₂ k₃ : Kernel} {ring : UInt64} (h : Tables (k.world place))
    (hbefore : k.Uses k.bump.cursor.toNat k₁)
    (hring : Kernel.allocPages 1 "ring page" k₁ = .ok ring k₂)
    (hafter : k₂.Uses k.bump.cursor.toNat k₃) :
    k.Uses k.bump.cursor.toNat k₃ ∧ Data (k₃.world place) ⟨0x300, ring.toNat, 1⟩ := by
  obtain ⟨huse, halloc⟩ := Kernel.Uses.grant k.bump.cursor.toNat hring
  obtain ⟨hwf₁, -, hle₁⟩ := hbefore.allocs.spec h.bump
  obtain ⟨hphys, -, hwf₂, hcursor⟩ := BumpAllocator.allocPages_spec hwf₁ halloc
  obtain ⟨-, -, hle₃⟩ := hafter.allocs.spec hwf₂
  refine ⟨(hbefore.trans huse).trans hafter, hphys ▸ hwf₁.aligned, ?_, fun j _ => ?_⟩
  · rw [hcursor] at hle₃
    exact hle₃
  · refine Tables.free_above h (Nat.le_trans hle₁ ?_)
    rw [hphys]
    exact Nat.le_add_right _ _

/-- **Courtlets share exactly the ring page.**  Both images are arbitrary, and so is what the kernel
does between the calls as long as it keeps to pages of its own. -/
theorem courtlets_share_ring {k k₀ k₁ k₂ k₃ k₄ k₅ k₆ : Kernel} {b : BumpAllocator} {map : PageMap}
    {kstart kend hhdm kernelPhysBase kernelVirtBase : UInt64} {entries : List MemmapEntry}
    (hmem : BumpAllocator.fromMemmap hhdm entries = some b) (hallocs : b.Allocs k.bump)
    (hwidth : b.end.toNat ≤ 2 ^ 52) (h57 : k.la57 = false)
    (hbuild : build kstart kend hhdm kernelPhysBase kernelVirtBase entries k = .ok map k₀)
    (hlow : ∀ i < 256, k₀.mem.readU64 (slotAddr k₀.kernelPml4 i) &&& PRESENT = 0)
    (hbefore : k₀.Uses k₀.bump.cursor.toNat k₁) {ring : UInt64}
    (hring : Kernel.allocPages 1 "ring page" k₁ = .ok ring k₂)
    (hafter : k₂.Uses k₀.bump.cursor.toNat k₃) {appName netName : String}
    {appImage netImage : List UInt8} {appCap appRights appCourt netCap netRights netCourt : UInt64}
    {app net : Courtlet}
    (happ : spawn appName appImage appCap appRights appCourt ring k₃ = .ok app k₄)
    (hbetween : k₄.Uses k₄.bump.cursor.toNat k₅)
    (hnet : spawn netName netImage netCap netRights netCourt ring k₅ = .ok net k₆) :
    lowFrames k₆.mem app.cr3 ∩ lowFrames k₆.mem net.cr3 = {ring.toNat} ∧
      Confined k₆.mem ring k₃ k₄ appImage app ∧ Confined k₆.mem ring k₅ k₆ netImage net ∧
      ∀ f ∈ lowFrames k₆.mem app.cr3 ∪ lowFrames k₆.mem net.cr3,
        ∀ root ∈ [k₀.kernelPml4, app.cr3, net.cr3], f ∉ tablePages k₆.mem root := by
  obtain ⟨hwf, hbump, -⟩ := hallocs.spec (BumpAllocator.fromMemmap_wf hmem)
  have hend : k.bump.end.toNat ≤ 2 ^ 52 := by
    rw [hbump]
    exact hwidth
  obtain ⟨place₀, htables, hmode, hseat, -⟩ :=
    wp_ok (build_spec hwf hend (S := fun _ => True) fun _ _ _ _ => trivial) hbuild
  have hsys₀ : System k₀ place₀ := ⟨htables, hseat.pml4, fun i hi => by
    rw [slots_eq _ _ _ (by omega), decode_absent (hlow i hi)]⟩
  obtain ⟨huse, hdata₃⟩ := ring_data htables hbefore hring hafter
  have hm₃ : k₀.Moves place₀ (k₀.kernelPml4.toNat + 1) (fun _ => True) k₃ place₀ := huse.moves htables
  have hsys₃ := hsys₀.moves hm₃ (by omega)
  have h57₃ : k₃.la57 = false := by rw [hm₃.la57, hmode, h57]
  -- the first court
  obtain ⟨place₄, happ'⟩ := wp_ok (spawn_spec hsys₃ h57₃ hdata₃ ..) happ
  have hsys₄ := hsys₃.moves happ'.moves (hsys₃.tables.ne_of_fresh hsys₃.kernel happ'.fresh)
  have hm₅ : k₄.Moves place₄ (k₄.kernelPml4.toNat + 1) (fun _ => False) k₅ place₄ :=
    hbetween.moves hsys₄.tables
  have hsys₅ := hsys₄.moves hm₅ (by omega)
  have h57₅ : k₅.la57 = false := by rw [hm₅.la57, happ'.moves.la57, h57₃]
  have hdata₅ := (hdata₃.step happ'.moves.moved.step).step hm₅.moved.step
  -- the second court
  obtain ⟨place₆, hnet'⟩ := wp_ok (spawn_spec hsys₅ h57₅ hdata₅ ..) hnet
  have hsys₆ := hsys₅.moves hnet'.moves (hsys₅.tables.ne_of_fresh hsys₅.kernel hnet'.fresh)
  have hne : app.cr3.toNat ≠ net.cr3.toNat :=
    hsys₅.tables.ne_of_fresh (hm₅.moved.step.kept _ _ happ'.root) hnet'.fresh
  have hkeep : ∀ runs, Layout (k₄.world place₄) app.cr3.toNat runs →
      Layout (k₆.world place₆) app.cr3.toNat runs := fun runs hl =>
    (hl.keep happ'.root hm₅.moved nofun).keep happ'.root hnet'.moves.moved fun _ _ _ => hne
  have hconfApp : Confined k₆.mem ring k₃ k₄ appImage app := happ'.confined hkeep
  have hconfNet : Confined k₆.mem ring k₅ k₆ netImage net := hnet'.confined fun _ hl => hl
  have hpml4 : k₆.kernelPml4 = k₀.kernelPml4 := by
    rw [hnet'.moves.kernelPml4, hm₅.kernelPml4, happ'.moves.kernelPml4, hm₃.kernelPml4]
  have hle : k₄.bump.cursor.toNat ≤ k₅.bump.cursor.toNat := hm₅.moved.step.cursor
  refine ⟨Set.Subset.antisymm ?_ ?_, hconfApp, hconfNet, fun f hf root hroot => ?_⟩
  · rintro f ⟨hfa, hfn⟩
    rcases hconfApp.own f hfa with hf | ⟨-, ha⟩
    · exact hf
    · rcases hconfNet.own f hfn with hf | ⟨hn, -⟩
      · exact hf
      · omega
  · rintro f rfl
    have haligned : ring.toNat % 4096 = 0 := hdata₃.aligned
    exact ⟨⟨RING_VA, _, by decide, hconfApp.ring, by omega⟩,
      ⟨RING_VA, _, by decide, hconfNet.ring, by omega⟩⟩
  · have hplaced : place₆ root.toNat = some (.pml4 root.toNat) := by
      simp only [List.mem_cons, List.not_mem_nil, or_false] at hroot
      rcases hroot with rfl | rfl | rfl
      · rw [← hpml4]
        exact hsys₆.kernel
      · exact hnet'.moves.moved.step.kept _ _ happ'.root
      · exact hnet'.root
    obtain ⟨_, _, _, -, -, -, -, -, hlApp⟩ := happ'.runs
    obtain ⟨_, _, _, -, -, -, -, -, hlNet⟩ := hnet'.runs
    rcases hf with hf | hf
    · exact (hkeep _ hlApp).not_table hsys₆.tables hf hplaced
    · exact hlNet.not_table hsys₆.tables hf hplaced

end

/-! ## Two courts on the small machine -/

/-- An image of one byte at `0x100000`. -/
def tinyImage : List UInt8 :=
  [0x7f, 0x45, 0x4c, 0x46, 2, 1, 1, 0, 0, 0, 0, 0, 0, 0, 0, 0] ++
    [(2, 2), (2, 62), (4, 1), (8, 0x100000), (8, 64), (8, 0), (4, 0), (2, 64), (2, 56), (2, 1), (6, 0),
      (4, 1), (4, 5), (8, 120), (8, 0x100000), (8, 0x100000), (8, 1), (8, 1), (8, 0x1000)].flatMap
      (fun field => leBytes field.1 field.2) ++
    [0xf4]

/-- What a run returned, if it did, and the state it left behind. -/
def outcome {α : Type} (r : EStateM.Result String Kernel α) : Option α × Kernel :=
  match r with
  | .ok a k => (some a, k)
  | .error _ k => (none, k)

theorem eq_ok_of_outcome {α : Type} {r : EStateM.Result String Kernel α} {a : α}
    (h : (outcome r).1 = some a) : r = .ok a (outcome r).2 := by
  cases r with
  | ok b k => rw [Option.some.inj h]; rfl
  | error e k => cases h

/-- The kernel after a clone, with the new PML4 at the cursor. -/
def Kernel.cloned (k : Kernel) : Kernel :=
  { k with
    mem := k.mem.copy k.kernelPml4.toNat k.bump.cursor.toNat 4096
    bump := { k.bump with cursor := k.bump.cursor + PAGE } }

/-- `spawn` on a kernel whose clone is known. -/
theorem spawn_eq_populate {k : Kernel} {name : String} {image : List UInt8}
    {capId rights courtId ring : UInt64} (hk : k.kernelPml4 ≠ 0) (h57 : k.la57 = false)
    (halloc : k.bump.allocPages 1 =
      some (k.bump.cursor, { k.bump with cursor := k.bump.cursor + PAGE }))
    (hbelow : k.kernelPml4.toNat + 4096 ≤ k.bump.cursor.toNat) :
    spawn name image capId rights courtId ring k =
      populate ⟨k.bump.cursor, k.bump.cursor⟩ name image capId rights courtId ring k.cloned := by
  rw [spawn, bind_eq_of_ok (cloneKernel_eq hk h57 halloc hbelow)]
  rfl

/-- The small kernel with a ring page at `0x206000`. -/
def smallRing : Kernel :=
  { small with bump := ⟨0xffff800000000000, 0x200000, 0x207000, 0x400000⟩ }

@[irreducible] def smallApp : Kernel :=
  (outcome (populate ⟨0x207000, 0x207000⟩ "app" tinyImage 1 1 1 0x206000 smallRing.cloned)).2

@[irreducible] def smallNet : Kernel :=
  (outcome (populate ⟨0x217000, 0x217000⟩ "net" tinyImage 2 2 2 0x206000 smallApp.cloned)).2

def appCourtlet : Courtlet :=
  ⟨"app", 0x207000, ⟨0x207000, 0x207000⟩, 0x408000, 0xffff80000020c000, 0x100000⟩

def netCourtlet : Courtlet :=
  ⟨"net", 0x217000, ⟨0x217000, 0x217000⟩, 0x408000, 0xffff80000021c000, 0x100000⟩

theorem small_ring : Kernel.allocPages 1 "ring page" small = .ok 0x206000 smallRing := by
  have halloc : small.bump.allocPages 1 =
      some (0x206000, ⟨0xffff800000000000, 0x200000, 0x207000, 0x400000⟩) := by
    decide +kernel
  refine eq_ok_of_wp ?_
  unfold Kernel.allocPages
  rw [wp_bind, wp_get, halloc]
  dsimp only
  rw [wp_bind, wp_modify, wp_pure]
  exact ⟨rfl, rfl⟩

theorem small_app : spawn "app" tinyImage 1 1 1 0x206000 smallRing = .ok appCourtlet smallApp := by
  have hcursor : smallRing.bump.cursor = 0x207000 := rfl
  rw [spawn_eq_populate (by decide +kernel) (by decide +kernel) (by decide +kernel)
    (by decide +kernel), hcursor]
  unfold smallApp
  exact eq_ok_of_outcome (by decide +kernel)

theorem small_net : spawn "net" tinyImage 2 2 2 0x206000 smallApp = .ok netCourtlet smallNet := by
  -- the run of the app is evaluated once for all that the next clone needs
  obtain ⟨hpml4, h57, hbump⟩ : smallApp.kernelPml4 = small.kernelPml4 ∧ smallApp.la57 = false ∧
      smallApp.bump = ⟨0xffff800000000000, 0x200000, 0x217000, 0x400000⟩ := by
    decide +kernel
  have hcursor : smallApp.bump.cursor = 0x217000 := by rw [hbump]
  rw [spawn_eq_populate (by rw [hpml4]; decide +kernel) h57 (by rw [hbump]; decide +kernel)
    (by rw [hpml4, hbump]; decide +kernel), hcursor]
  unfold smallNet
  exact eq_ok_of_outcome (by decide +kernel)

theorem courtlets_share_ring_small :
    spawn "app" tinyImage 1 1 1 0x206000 smallRing = .ok appCourtlet smallApp ∧
      spawn "net" tinyImage 2 2 2 0x206000 smallApp = .ok netCourtlet smallNet ∧
      lowFrames smallNet.mem 0x207000 ∩ lowFrames smallNet.mem 0x217000 = {0x206000} := by
  have hlow : ∀ i < 256, small.mem.readU64 (slotAddr small.kernelPml4 i) &&& PRESENT = 0 := by
    decide +kernel
  have huse : ∀ (floor : Nat) (k : Kernel), k.Uses floor k :=
    fun _ _ => ⟨.refl _, fun _ _ => rfl, rfl, rfl⟩
  have h := courtlets_share_ring (b := smallBump) (by decide) (.refl _) (by decide) rfl smallBuild_eq
    hlow (huse _ _) small_ring (huse _ _) small_app (huse _ _) small_net
  exact ⟨small_app, small_net, h.1⟩

end RootCourt

end CourtKernel
