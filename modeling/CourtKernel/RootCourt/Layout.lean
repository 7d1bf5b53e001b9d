import CourtKernel.Lib.Runs
import CourtKernel.RootCourt.Spaces

/-!
# The lower half of a space

The abstract view of the lower half of an address space: a list of runs of pages, each with the
frames it shows.

* `Data w run` — the frames of a run are granted pages, and none of them is a table.
* `Layout w r runs` — the lower half of the PML4 `r` is exactly what the runs say; the runs do not
  overlap, neither in pages nor in frames.
* `Layout.add` — mapping one more run of new frames.  That the call succeeds implies that none of the
  pages was in use.
* `Layout.keep` — everything else leaves a layout alone.
* `AddressSpace.map_run` — what a call of `map` means for a layout.
-/

namespace CourtKernel

namespace RootCourt

open Place (shape)

variable {w w' : World} {r r' : Nat} {S : Nat → Prop} {run : Run} {runs : List Run}

/-- The frames of a run are granted pages, and none of them is a table. -/
structure Data (w : World) (run : Run) : Prop where
  aligned : run.frame % 4096 = 0
  granted : run.frame + run.count * 4096 ≤ w.bump.cursor.toNat
  free : ∀ j < run.count, w.place (run.frame + j * 4096) = none

/-- A page that is not a table never becomes one. -/
theorem Data.step (h : Data w run) (hs : Step w w') : Data w' run := by
  refine ⟨h.aligned, Nat.le_trans h.granted hs.cursor, fun j hj => ?_⟩
  rw [Option.eq_none_iff_forall_ne_some]
  intro p hp
  rcases hs.fresh _ p hp with hold | hnew
  · rw [h.free j hj] at hold
    cases hold
  · have := h.granted
    have hmul : (j + 1) * 4096 ≤ run.count * 4096 := Nat.mul_le_mul_right _ hj
    omega

theorem Data.outside (h : Data w run) (ht : Tables w) {o : Nat} (ho : o < run.count * 4096) :
    w.Outside (run.frame + o) := by
  intro n p hn
  have haligned := h.aligned
  have hfree := h.free (o / 4096) (by omega)
  have hpage := (ht.page n p hn).1
  by_contra hin
  rw [show run.frame + o / 4096 * 4096 = n by omega, hn] at hfree
  cases hfree

/-- What a page of data holds, it goes on to hold. -/
theorem Data.mem_eq (h : Data w run) (ht : Tables w) (hs : Step w w') {o : Nat}
    (ho : o < run.count * 4096) : w'.mem (run.frame + o) = w.mem (run.frame + o) := by
  have hgranted := h.granted
  exact hs.data _ (by omega) (h.outside ht ho)

/-- New pages of data may be written. -/
theorem Data.write (h : Data w' run) (hs : Step w w') (hnew : w.bump.cursor.toNat ≤ run.frame)
    {mem : Memory}
    (hmem : ∀ a, a < run.frame ∨ run.frame + run.count * 4096 ≤ a → mem a = w'.mem a) :
    Step w { w' with mem := mem } := by
  have hslots : ∀ n p, w'.place n = some p → ∀ k i, slots mem k n i = slots w'.mem k n i := by
    intro n p hn k i
    refine slots_congr fun a h1 h2 => hmem a ?_
    by_contra hin
    have hout := h.outside hs.tables (show a - run.frame < run.count * 4096 by omega) n p hn
    omega
  refine ⟨⟨hs.tables.bump, hs.tables.width, hs.tables.page, fun n p i next hn hslot => ?_⟩, hs.kept,
    hs.fresh, fun n p i hn hslot => ?_, hs.bump, hs.cursor, fun a ha hout => ?_⟩
  · rw [hslots n p hn] at hslot
    exact hs.tables.placed n p i next hn hslot
  · exact (hslots n p (hs.kept n p hn) _ _).trans (hs.grows n p i hn hslot)
  · exact (hmem a (by omega)).trans (hs.data a ha hout)

/-- The frames above the cursor are not tables. -/
theorem Tables.free_above (h : Tables w) {n : Nat} (hn : w.bump.cursor.toNat ≤ n) :
    w.place n = none := by
  rw [Option.eq_none_iff_forall_ne_some]
  intro p hp
  have := (h.page n p hp).2.2
  omega

/-- The lower half of a PML4 is exactly what the runs say. -/
structure Layout (w : World) (r : Nat) (runs : List Run) : Prop where
  exact : ∀ v < 2 ^ 35, frameAt w.mem r v = Run.find 4096 runs v
  pages : runs.Pairwise fun a b => ∀ v < 2 ^ 35, a.Has v → ¬ b.Has v
  frames : runs.Pairwise (Run.Apart 4096)
  data : ∀ run ∈ runs, Data w run

namespace Layout

/-- Code that does not map pages of the lower half of `r` leaves its layout alone. -/
theorem keep (h : Layout w r runs) (hr : w.place r = some (.pml4 r)) (hm : Moved w r' S w')
    (hout : ∀ v < 2 ^ 35, S v → r ≠ r') : Layout w' r runs := by
  refine ⟨fun v hv => ?_, h.pages, h.frames, fun run hrun => (h.data run hrun).step hm.step⟩
  rw [hm.frameAt_eq hr (by omega) fun hseen => hout v hv hseen.1 (hseen.2 hv)]
  exact h.exact v hv

/-- **One more run.** -/
theorem add (h : Layout w r runs) (ht : Tables w) (hr : w.place r = some (.pml4 r))
    (hm : Moved w r S w') (hS : ∀ v, S v → run.Has v) (hwrap : run.first + run.count ≤ 2 ^ 36)
    (hshow : Shows w'.mem r run.first run.frame run.count) (hdata : Data w' run)
    (hapart : ∀ old ∈ runs, Run.Apart 4096 old run) : Layout w' r (runs ++ [run]) := by
  have hlimit := hm.step.tables.bump.limit
  have hwidth := hm.step.tables.width
  have hgranted := hdata.granted
  -- a page of the run shows its frame
  have hnew : ∀ v, run.Has v → frameAt w'.mem r v = some (run.target 4096 v) := by
    intro v hv
    have hbounds := hv.target_bounds (u := 4096)
    obtain ⟨h1, h2⟩ := hv
    have hshown := hshow (v - run.first) (by omega)
    rw [show (run.first + (v - run.first)) % 2 ^ 36 = v by omega] at hshown
    rw [hshown, Run.target, Nat.mod_eq_of_lt]
    unfold Run.target at hbounds
    omega
  -- such a page was not in use: it would have kept its old frame
  have hfree : ∀ v < 2 ^ 35, run.Has v → ∀ old ∈ runs, ¬ old.Has v := by
    intro v hv hhas
    rw [← Run.find_eq_none (u := 4096)]
    cases hfind : Run.find 4096 runs v with
    | none => rfl
    | some f =>
      obtain ⟨old, hold, hohas, hf⟩ := Run.exists_of_find hfind
      have hkept := hm.frameAt_some ht hr ((h.exact v hv).trans hfind)
      rw [hnew v hhas, Option.some.injEq] at hkept
      have h1 := hhas.target_bounds (u := 4096)
      have h2 := hohas.target_bounds (u := 4096)
      rcases hapart old hold with ha | ha <;> omega
  refine ⟨fun v hv => ?_, ?_, ?_, fun run' hrun' => ?_⟩
  · by_cases hhas : run.Has v
    · rw [hnew v hhas, Run.find_concat_of_has (Run.find_eq_none.2 (hfree v hv hhas)) hhas]
    · rw [Run.find_concat_of_not hhas, ← h.exact v hv]
      exact hm.frameAt_eq hr (by omega) fun hseen => hhas (hS v hseen.1)
  · refine List.pairwise_append.2 ⟨h.pages, List.pairwise_singleton _ _, fun old hold new hnew' => ?_⟩
    obtain rfl := List.mem_singleton.1 hnew'
    exact fun v hv hohas hhas => hfree v hv hhas old hold hohas
  · refine List.pairwise_append.2 ⟨h.frames, List.pairwise_singleton _ _, fun old hold new hnew' => ?_⟩
    obtain rfl := List.mem_singleton.1 hnew'
    exact hapart old hold
  · rcases List.mem_append.1 hrun' with hold | hnew'
    · exact (h.data run' hold).step hm.step
    · obtain rfl := List.mem_singleton.1 hnew'
      exact hdata

end Layout

/-! ## Mapping runs -/

section

variable {k k' : Kernel} {place : Nat → Option Place} {space : AddressSpace}

/-- Newly granted pages are data. -/
theorem Data.ofGrant (h : Tables (k.world place)) {phys : UInt64} {first count : Nat}
    (hphys : phys = k.bump.cursor) (hcursor : k'.bump.cursor.toNat = phys.toNat + count * 4096) :
    Data (k'.world place) ⟨first, phys.toNat, count⟩ := by
  refine ⟨hphys ▸ h.bump.aligned, Nat.le_of_eq hcursor.symm, fun j _ => ?_⟩
  refine Tables.free_above h ?_
  show k.bump.cursor.toNat ≤ phys.toNat + j * 4096
  rw [hphys]
  omega

/-- **Mapping a run of data pages.** -/
theorem AddressSpace.map_run (h : Tables (k.world place))
    (hroot : place space.pml4Phys.toNat = some (.pml4 space.pml4Phys.toNat))
    {virt phys len : UInt64} {run : Run} (hfirst : pageOf virt = run.first)
    (hframe : phys.toNat = run.frame) (hcount : len.toNat / 4096 = run.count)
    (hwrap : run.first + run.count ≤ 2 ^ 36) (hdata : Data (k.world place) run) :
    wp (space.map virt phys len)
      (fun _ k' => ∃ place', k.Moves place space.pml4Phys.toNat run.Has k' place' ∧
        Shows k'.mem space.pml4Phys.toNat run.first run.frame run.count ∧
        ∀ runs, Layout (k.world place) space.pml4Phys.toNat runs →
          (∀ old ∈ runs, Run.Apart 4096 old run) →
          Layout (k'.world place') space.pml4Phys.toNat (runs ++ [run]))
      (fun _ k' => ∃ place', k.Moves place space.pml4Phys.toNat run.Has k' place') k := by
  have hhas : ∀ v, mapPages virt phys len v → run.Has v := by
    rintro v ⟨-, j, hj, rfl⟩
    rw [hfirst, Run.Has]
    omega
  refine wp_mono (map_spec h hroot virt phys len) ?_ ?_
  · rintro ⟨⟩ k' ⟨-, place', hm, -, hshow⟩
    rw [hfirst, hframe, hcount] at hshow
    exact ⟨place', hm.mono hhas, hshow, fun runs hl hapart =>
      hl.add h hroot hm.moved hhas hwrap hshow (hdata.step hm.moved.step) hapart⟩
  · rintro e k' ⟨place', hm, -⟩
    exact ⟨place', hm.mono hhas⟩

end

end RootCourt

end CourtKernel
