import CourtKernel.Hosted.Steps
import CourtKernel.Hosted.Derivation

/-!
# Representation invariant of the hosted Root Court

`HostedRoot.Wf` states how the tables of the Root Court fit together: which keys each table has,
that every object has one parentless root capability with the full rights, that every other
capability was delegated from the root capability of its object and lies in exactly one
capability space, and that namespace entries name existing corridors.

* `Wf.step` — every public call preserves the invariant; `after_wf` is the run version.
* `Persists` — what no later call takes back: registered capabilities (`CapRegistry.Grows`),
  root capabilities, corridors with their endpoints and capacity, and faults.
-/

namespace CourtKernel

namespace HostedRoot

variable {s s' : HostedRoot}

structure Wf (s : HostedRoot) : Prop where
  registry : s.capRegistry.Wf
  courts : ∀ c, c ∈ s.courts ↔ 1 ≤ c.raw ∧ c.raw ≤ s.nextCourt
  cspaces : ∀ c, c ∈ s.cspaces ↔ c ∈ s.courts
  corridors : ∀ o, o ∈ s.corridors ↔ 1 ≤ o.raw ∧ o.raw ≤ s.nextObject
  roots : ∀ o, o ∈ s.rootCaps ↔ 1 ≤ o.raw ∧ o.raw ≤ s.nextObject
  root : ∀ o c, s.rootCaps.lookup o = some c → ∃ k, s.capRegistry.caps.lookup c = some k ∧
    k.object = o ∧ k.objectType = .corridor ∧ k.rights = rootRights ∧ k.parent = none
  unheld : ∀ o c, s.rootCaps.lookup o = some c → ∀ court, ¬ s.Holds court c
  origin : ∀ c k, s.capRegistry.caps.lookup c = some k → s.rootCaps.lookup k.object = some c ∨
    ∃ r court, k.parent = some r ∧ s.rootCaps.lookup k.object = some r ∧ s.Holds court c
  unique : ∀ c court court', s.Holds court c → s.Holds court' c → court = court'
  held : ∀ court c, s.Holds court c → c ∈ s.capRegistry.caps
  names : ∀ p d, s.nameSpace.lookup p = some d →
    d.path = p ∧ d.objectType = .corridor ∧ d.object ∈ s.corridors

theorem wf_new : Wf new := by
  have hno : ∀ court c, ¬ new.Holds court c := by
    rintro court c ⟨cspace, h, -⟩; cases h
  refine ⟨CapRegistry.wf_new, ?_, ?_, ?_, ?_, ?_, ?_, ?_, ?_, ?_, ?_⟩
  · intro c; simp only [new, Finmap.notMem_empty, false_iff]; omega
  · intro c; simp only [new, Finmap.notMem_empty]
  · intro o; simp only [new, Finmap.notMem_empty, false_iff]; omega
  · intro o; simp only [new, Finmap.notMem_empty, false_iff]; omega
  · intro o c h; cases h
  · intro o c h; cases h
  · intro c k h; cases h
  · intro c court court' h; exact absurd h (hno court c)
  · intro court c h; exact absurd h (hno court c)
  · intro p d h; cases h

/-- Recording an event touches no table. -/
theorem Wf.push (h : s.Wf) (e : TraceEvent) : (s.push e).Wf :=
  ⟨h.registry, h.courts, h.cspaces, h.corridors, h.roots, h.root, h.unheld, h.origin, h.unique,
    h.held, h.names⟩

/-! ## New courts -/

theorem Wf.court_fresh (h : s.Wf) : (⟨s.nextCourt + 1⟩ : CourtId) ∉ s.courts := by
  rw [h.courts]; simp only; omega

theorem Wf.object_fresh (h : s.Wf) : (⟨s.nextObject + 1⟩ : ObjectId) ∉ s.corridors := by
  rw [h.corridors]; simp only; omega

theorem holds_courtAdded (h : s.Wf) (name : String) {court : CourtId} {c : CapId} :
    (s.courtAdded name).Holds court c ↔ s.Holds court c := by
  unfold Holds courtAdded
  simp only [HashMap.lookup_insert_ite]
  split
  · rename_i he
    subst he
    have hnone : s.cspaces.lookup ⟨s.nextCourt + 1⟩ = none := by
      rw [Finmap.lookup_eq_none, h.cspaces]; exact h.court_fresh
    simp [hnone]
  · rfl

theorem Wf.courtAdded (h : s.Wf) (name : String) : (s.courtAdded name).Wf := by
  have hH : ∀ court c, (s.courtAdded name).Holds court c ↔ s.Holds court c := fun _ _ =>
    holds_courtAdded h name
  refine ⟨h.registry, ?_, ?_, h.corridors, h.roots, h.root, ?_, ?_, ?_, ?_, h.names⟩
  · intro c
    show c ∈ s.courts.insert _ _ ↔ 1 ≤ c.raw ∧ c.raw ≤ s.nextCourt + 1
    rw [Finmap.mem_insert, h.courts]
    constructor
    · rintro (rfl | hc)
      · simp
      · omega
    · intro hc
      by_cases he : c.raw = s.nextCourt + 1
      · exact Or.inl (by cases c; simp only at he; rw [he])
      · exact Or.inr (by omega)
  · intro c
    show c ∈ s.cspaces.insert _ _ ↔ c ∈ s.courts.insert _ _
    rw [Finmap.mem_insert, Finmap.mem_insert, h.cspaces]
  · intro o c ho court; rw [hH]; exact h.unheld o c ho court
  · intro c k hk
    rcases h.origin c k hk with hr | ⟨r, court, h1, h2, h3⟩
    · exact Or.inl hr
    · exact Or.inr ⟨r, court, h1, h2, (hH court c).2 h3⟩
  · intro c court court' h1 h2
    exact h.unique c court court' ((hH _ _).1 h1) ((hH _ _).1 h2)
  · intro court c hc; exact h.held court c ((hH _ _).1 hc)

/-! ## New corridors -/

theorem Wf.corridorAdded (h : s.Wf) (path : String) (first second : CourtId)
    (transport : CorridorTransport) (capacity : Nat) :
    (s.corridorAdded path first second transport capacity).Wf := by
  have hkeys : ∀ o : ObjectId, o = ⟨s.nextObject + 1⟩ ∨ (1 ≤ o.raw ∧ o.raw ≤ s.nextObject) ↔
      1 ≤ o.raw ∧ o.raw ≤ s.nextObject + 1 := by
    intro o
    constructor
    · rintro (rfl | ho)
      · simp
      · omega
    · intro ho
      by_cases he : o.raw = s.nextObject + 1
      · exact Or.inl (by cases o; simp only at he; rw [he])
      · exact Or.inr (by omega)
  have hroots : ∀ o, (s.corridorAdded path first second transport capacity).rootCaps.lookup o =
      if o = ⟨s.nextObject + 1⟩ then some ⟨s.capRegistry.nextCap + 1⟩ else s.rootCaps.lookup o :=
    fun o => HashMap.lookup_insert_ite _ _ _ _
  have hcaps : ∀ c,
      (s.corridorAdded path first second transport capacity).capRegistry.caps.lookup c =
      if c = ⟨s.capRegistry.nextCap + 1⟩ then some (rootCapability ⟨s.nextObject + 1⟩)
      else s.capRegistry.caps.lookup c := by
    intro c; rw [corridorAdded_capRegistry, CapRegistry.lookup_register]
  have hfresh := h.registry.fresh
  have hold : ∀ c k, s.capRegistry.caps.lookup c = some k → c ≠ ⟨s.capRegistry.nextCap + 1⟩ := by
    rintro c k hk rfl
    exact hfresh (Finmap.mem_of_lookup_eq_some hk)
  refine ⟨?_, h.courts, h.cspaces, ?_, ?_, ?_, ?_, ?_, h.unique, ?_, ?_⟩
  · rw [corridorAdded_capRegistry]
    exact h.registry.register rfl (by simp [rootCapability])
  · intro o
    show o ∈ s.corridors.insert _ _ ↔ 1 ≤ o.raw ∧ o.raw ≤ s.nextObject + 1
    rw [Finmap.mem_insert, h.corridors, hkeys]
  · intro o
    show o ∈ s.rootCaps.insert _ _ ↔ 1 ≤ o.raw ∧ o.raw ≤ s.nextObject + 1
    rw [Finmap.mem_insert, h.roots, hkeys]
  · intro o c ho
    rw [hroots] at ho
    rw [hcaps]
    split at ho
    · rename_i he
      obtain rfl := Option.some.inj ho
      exact ⟨_, if_pos rfl, he.symm, rfl, rfl, rfl⟩
    · obtain ⟨k, hk, hrest⟩ := h.root o c ho
      exact ⟨k, by rw [if_neg (hold c k hk)]; exact hk, hrest⟩
  · intro o c ho court hc
    rw [hroots] at ho
    split at ho
    · obtain rfl := Option.some.inj ho
      exact hfresh (h.held court _ hc)
    · exact h.unheld o c ho court hc
  · intro c k hk
    rw [hcaps] at hk
    simp only [hroots]
    split at hk
    · rename_i he
      obtain rfl := Option.some.inj hk
      exact Or.inl (by rw [he]; exact if_pos rfl)
    · -- an old capability: its object is old, so the root table still answers for it
      have hobj : k.object ≠ ⟨s.nextObject + 1⟩ := by
        intro he
        have hm : k.object ∈ s.rootCaps := by
          rcases h.origin c k hk with hr | ⟨r, -, -, hr, -⟩ <;> exact Finmap.mem_of_lookup_eq_some hr
        rw [h.roots, he] at hm
        simp only at hm
        omega
      rw [if_neg hobj]
      exact h.origin c k hk
  · intro court c hc
    rw [corridorAdded_capRegistry, CapRegistry.mem_register]
    exact Or.inr (h.held court c hc)
  · intro p d hd
    have hd' : (s.nameSpace.entries.insert path
        ⟨path, ⟨s.nextObject + 1⟩, .corridor, transport⟩).lookup p = some d := hd
    show _ ∧ _ ∧ d.object ∈ s.corridors.insert _ _
    rw [Finmap.mem_insert]
    rw [HashMap.lookup_insert_ite] at hd'
    split at hd'
    · rename_i he
      obtain rfl := Option.some.inj hd'
      exact ⟨he.symm, rfl, Or.inl rfl⟩
    · obtain ⟨h1, h2, h3⟩ := h.names p d hd'
      exact ⟨h1, h2, Or.inr h3⟩

/-! ## Grants -/

theorem holds_capAdded {court court' : CourtId} {c c' : CapId} {g : CapRegistry} :
    (s.capAdded court c g).Holds court' c' ↔ (court' = court ∧ c' = c) ∨ s.Holds court' c' := by
  unfold Holds capAdded
  simp only [HashMap.lookup_insert_ite]
  split
  · rename_i he
    subst he
    cases hl : s.cspaces.lookup court' with
    | none => simp
    | some cspace => simp
  · rename_i he
    simp [he]

theorem Wf.capAdded (h : s.Wf) {court : CourtId} {o : ObjectId} {root c : CapId} {rights : Rights}
    {g : CapRegistry} (hrun : s.Running court) (hroot : s.rootCaps.lookup o = some root)
    (hd : s.capRegistry.delegate root rights = (.ok c, g)) : (s.capAdded court c g).Wf := by
  have hwf : g.Wf := by
    have := h.registry.call (.delegate root rights)
    simp only [CapRegistry.call, hd] at this
    exact this
  obtain ⟨kp, hkp, -, -, -, rfl, rfl⟩ := CapRegistry.delegate_ok hd
  have hfresh := h.registry.fresh
  have hcaps := CapRegistry.lookup_register (g := s.capRegistry) (CapRegistry.derived root kp rights)
  have hroots : ∀ o c, s.rootCaps.lookup o = some c → c ≠ ⟨s.capRegistry.nextCap + 1⟩ := by
    rintro o c ho rfl
    obtain ⟨k, hk, -⟩ := h.root o _ ho
    exact hfresh (Finmap.mem_of_lookup_eq_some hk)
  have hin : court ∈ s.cspaces := by
    obtain ⟨entry, he, -⟩ := hrun
    exact (h.cspaces court).2 (Finmap.mem_of_lookup_eq_some he)
  have hobj : kp.object = o := by
    obtain ⟨k, hk, ho, -⟩ := h.root o root hroot
    rw [hkp] at hk
    obtain rfl := Option.some.inj hk
    exact ho
  refine ⟨hwf, h.courts, ?_, h.corridors, h.roots, ?_, ?_, ?_, ?_, ?_, h.names⟩
  · intro c
    show c ∈ s.cspaces.insert _ _ ↔ c ∈ s.courts
    rw [Finmap.mem_insert, h.cspaces]
    refine ⟨?_, Or.inr⟩
    rintro (rfl | hc)
    · exact (h.cspaces _).1 hin
    · exact hc
  · intro o' c' ho'
    obtain ⟨k, hk, hrest⟩ := h.root o' c' ho'
    exact ⟨k, by rw [capAdded_capRegistry, hcaps, if_neg (hroots o' c' ho'), hk], hrest⟩
  · intro o' c' ho' court' hc'
    rcases holds_capAdded.1 hc' with ⟨-, rfl⟩ | hc'
    · exact hroots o' _ ho' rfl
    · exact h.unheld o' c' ho' court' hc'
  · intro c' k hk
    rw [capAdded_capRegistry, hcaps] at hk
    split at hk
    · rename_i he
      obtain rfl := Option.some.inj hk
      refine Or.inr ⟨root, court, rfl, ?_, holds_capAdded.2 (Or.inl ⟨rfl, he⟩)⟩
      show s.rootCaps.lookup kp.object = some root
      rw [hobj]; exact hroot
    · rcases h.origin c' k hk with hr | ⟨r, court', h1, h2, h3⟩
      · exact Or.inl hr
      · exact Or.inr ⟨r, court', h1, h2, holds_capAdded.2 (Or.inr h3)⟩
  · intro c' court₁ court₂ h1 h2
    rcases holds_capAdded.1 h1 with ⟨e₁, e₁'⟩ | h1 <;>
      rcases holds_capAdded.1 h2 with ⟨e₂, e₂'⟩ | h2
    · rw [e₁, e₂]
    · exact absurd (h.held _ _ (e₁' ▸ h2)) hfresh
    · exact absurd (h.held _ _ (e₂' ▸ h1)) hfresh
    · exact h.unique c' court₁ court₂ h1 h2
  · intro court' c' hc'
    refine (CapRegistry.mem_register _ c').2 ?_
    rcases holds_capAdded.1 hc' with ⟨-, rfl⟩ | hc'
    · exact Or.inl rfl
    · exact Or.inr (h.held court' c' hc')

/-! ## Queues, revocation, faults -/

theorem Wf.requeued (h : s.Wf) {o : ObjectId} {k : Corridor} (hk : s.corridors.lookup o = some k)
    (queue : List Payload) : (s.requeued o k queue).Wf := by
  have hmem : ∀ o', o' ∈ (s.requeued o k queue).corridors ↔ o' ∈ s.corridors := by
    intro o'
    show o' ∈ s.corridors.insert _ _ ↔ _
    rw [Finmap.mem_insert]
    refine ⟨?_, Or.inr⟩
    rintro (rfl | ho')
    · exact Finmap.mem_of_lookup_eq_some hk
    · exact ho'
  refine ⟨h.registry, h.courts, h.cspaces, ?_, h.roots, h.root, h.unheld, h.origin, h.unique,
    h.held, ?_⟩
  · intro o'; rw [hmem]; exact h.corridors o'
  · intro p d hd; rw [hmem]; exact h.names p d hd

theorem Wf.subtreeRevoked (h : s.Wf) {c : CapId} (hc : c ∈ s.capRegistry.caps) :
    (s.subtreeRevoked c).Wf := by
  obtain ⟨-, hm⟩ := CapRegistry.revoke_spec h.registry hc
  refine ⟨hm.wf h.registry, h.courts, h.cspaces, h.corridors, h.roots, ?_, h.unheld, ?_, h.unique,
    fun court d hd => (hm.mem d).2 (h.held court d hd), h.names⟩
  · intro o d ho
    obtain ⟨k, hk, hrest⟩ := h.root o d ho
    obtain ⟨k', hk'⟩ := Finmap.mem_iff.1 ((hm.mem d).2 (Finmap.mem_of_lookup_eq_some hk))
    obtain ⟨k₀, hk₀, he⟩ := hm.lookup_some hk'
    rw [hk] at hk₀
    obtain rfl := Option.some.inj hk₀
    exact ⟨k', hk', by rcases he with rfl | rfl <;> exact hrest⟩
  · intro d k' hk'
    obtain ⟨k, hk, he⟩ := hm.lookup_some hk'
    have hor := h.origin d k hk
    rcases he with rfl | rfl <;> exact hor

theorem Wf.courtDown (h : s.Wf) {court : CourtId} {entry : Court}
    (hc : s.courts.lookup court = some entry) : (s.courtDown court entry).Wf := by
  have hmem : ∀ c, c ∈ (s.courtDown court entry).courts ↔ c ∈ s.courts := by
    intro c
    show c ∈ s.courts.insert _ _ ↔ _
    rw [Finmap.mem_insert]
    refine ⟨?_, Or.inr⟩
    rintro (rfl | hc')
    · exact Finmap.mem_of_lookup_eq_some hc
    · exact hc'
  refine ⟨h.registry, ?_, ?_, h.corridors, h.roots, h.root, h.unheld, h.origin, h.unique, h.held,
    h.names⟩
  · intro c; rw [hmem]; exact h.courts c
  · intro c; rw [hmem]; exact h.cspaces c

/-! ## Every call, every run -/

theorem Effect.wf {c : Call} {r : Reply} (he : Effect s c r s') (h : s.Wf) : s'.Wf := by
  cases he with
  | courtCreated name => exact (h.courtAdded name).push _
  | corridorCreated _ _ => exact (h.corridorAdded _ _ _ _ _).push _
  | granted hr _ hroot hd => exact (h.capAdded hr hroot hd).push _
  | sent _ hk _ _ => exact (h.requeued hk _).push _
  | received _ hk _ => exact (h.requeued hk _).push _
  | revoked hc => exact (h.subtreeRevoked hc).push _
  | faulted hc => exact (h.courtDown hc).push _
  | found | notFound | opened | openDenied | peerDown => exact h.push _
  | corridorRefused | lookupRefused | grantRefused | openRefused | sendRefused | recvRefused
  | revokeRefused | faultRefused => exact h

theorem Wf.step (h : s.Wf) (c : Call) : (machine.step s c).2.Wf := (step_effect s c).wf h

theorem Wf.run (h : s.Wf) (cs : List Call) : (machine.run s cs).Wf :=
  machine.run_invariant (I := Wf) (fun _ c h => h.step c) h cs

/-- **The invariant holds after every sequence of public calls.** -/
theorem after_wf (cs : List Call) : (after cs).Wf := wf_new.run cs

/-! ## What later calls keep -/

/-- No later call takes these facts back. -/
structure Persists (s s' : HostedRoot) : Prop where
  registry : CapRegistry.Grows s.capRegistry s'.capRegistry
  roots : ∀ o c, s.rootCaps.lookup o = some c → s'.rootCaps.lookup o = some c
  corridors : ∀ o k, s.corridors.lookup o = some k → ∃ k', s'.corridors.lookup o = some k' ∧
    k'.endpoints = k.endpoints ∧ k'.capacity = k.capacity
  faults : ∀ c e, s.courts.lookup c = some e → ∃ e', s'.courts.lookup c = some e' ∧
    (e.state = .faulted → e'.state = .faulted)
  holds : ∀ court c, s.Holds court c → s'.Holds court c

namespace Persists

theorem refl (s : HostedRoot) : Persists s s :=
  ⟨.refl _, fun _ _ h => h, fun _ k h => ⟨k, h, rfl, rfl⟩, fun _ e h => ⟨e, h, id⟩,
    fun _ _ h => h⟩

theorem trans {s₁ s₂ s₃ : HostedRoot} (h₁ : Persists s₁ s₂) (h₂ : Persists s₂ s₃) :
    Persists s₁ s₃ := by
  refine ⟨h₁.registry.trans h₂.registry, fun o c h => h₂.roots o c (h₁.roots o c h), ?_, ?_,
    fun court c h => h₂.holds court c (h₁.holds court c h)⟩
  · intro o k hk
    obtain ⟨k', hk', e', c'⟩ := h₁.corridors o k hk
    obtain ⟨k'', hk'', e'', c''⟩ := h₂.corridors o k' hk'
    exact ⟨k'', hk'', e''.trans e', c''.trans c'⟩
  · intro c e he
    obtain ⟨e', he', hf'⟩ := h₁.faults c e he
    obtain ⟨e'', he'', hf''⟩ := h₂.faults c e' he'
    exact ⟨e'', he'', fun hf => hf'' (hf' hf)⟩

theorem push (h : Persists s s') (e : TraceEvent) : Persists s (s'.push e) :=
  ⟨h.registry, h.roots, h.corridors, h.faults, h.holds⟩

end Persists

theorem Wf.persists_courtAdded (h : s.Wf) (name : String) : Persists s (s.courtAdded name) :=
  ⟨.refl _, fun _ _ h => h, fun _ k h => ⟨k, h, rfl, rfl⟩,
    fun _ e he => ⟨e, HashMap.lookup_insert_fresh h.court_fresh he, id⟩,
    fun _ _ hc => (holds_courtAdded h name).2 hc⟩

theorem Wf.persists_corridorAdded (h : s.Wf) (path : String) (first second : CourtId)
    (transport : CorridorTransport) (capacity : Nat) :
    Persists s (s.corridorAdded path first second transport capacity) := by
  have hroots : (⟨s.nextObject + 1⟩ : ObjectId) ∉ s.rootCaps := by
    rw [h.roots, ← h.corridors]; exact h.object_fresh
  refine ⟨?_, fun o c ho => HashMap.lookup_insert_fresh hroots ho,
    fun o k hk => ⟨k, HashMap.lookup_insert_fresh h.object_fresh hk, rfl, rfl⟩, fun _ e he => ⟨e, he, id⟩,
    fun _ _ hc => hc⟩
  rw [corridorAdded_capRegistry]
  exact CapRegistry.grows_register h.registry _

theorem Wf.persists_capAdded (h : s.Wf) {court : CourtId} {root c : CapId} {rights : Rights}
    {g : CapRegistry} (hd : s.capRegistry.delegate root rights = (.ok c, g)) :
    Persists s (s.capAdded court c g) := by
  refine ⟨?_, fun _ _ h => h, fun _ k h => ⟨k, h, rfl, rfl⟩, fun _ e h => ⟨e, h, id⟩,
    fun _ _ hc => holds_capAdded.2 (Or.inr hc)⟩
  obtain ⟨kp, -, -, -, -, -, rfl⟩ := CapRegistry.delegate_ok hd
  rw [capAdded_capRegistry]
  exact CapRegistry.grows_register h.registry _

theorem persists_requeued {o : ObjectId} {k : Corridor} (hk : s.corridors.lookup o = some k)
    (queue : List Payload) : Persists s (s.requeued o k queue) := by
  refine ⟨.refl _, fun _ _ h => h, ?_, fun _ e h => ⟨e, h, id⟩, fun _ _ h => h⟩
  intro o' k' hk'
  show ∃ k'', (s.corridors.insert o _).lookup o' = some k'' ∧ _
  rw [HashMap.lookup_insert_ite]
  split
  · rename_i he
    subst he
    rw [hk] at hk'
    obtain rfl := Option.some.inj hk'
    exact ⟨_, rfl, rfl, rfl⟩
  · exact ⟨k', hk', rfl, rfl⟩

theorem Wf.persists_subtreeRevoked (h : s.Wf) {c : CapId} (hc : c ∈ s.capRegistry.caps) :
    Persists s (s.subtreeRevoked c) :=
  ⟨(CapRegistry.revoke_spec h.registry hc).2.grows, fun _ _ h => h,
    fun _ k h => ⟨k, h, rfl, rfl⟩, fun _ e h => ⟨e, h, id⟩, fun _ _ h => h⟩

theorem persists_courtDown (court : CourtId) (entry : Court) :
    Persists s (s.courtDown court entry) := by
  refine ⟨.refl _, fun _ _ h => h, fun _ k h => ⟨k, h, rfl, rfl⟩, ?_, fun _ _ h => h⟩
  intro c e he
  show ∃ e', (s.courts.insert court _).lookup c = some e' ∧ _
  rw [HashMap.lookup_insert_ite]
  split
  · exact ⟨_, rfl, fun _ => rfl⟩
  · exact ⟨e, he, id⟩

theorem Effect.persists {c : Call} {r : Reply} (he : Effect s c r s') (h : s.Wf) :
    Persists s s' := by
  cases he with
  | courtCreated name => exact (h.persists_courtAdded name).push _
  | corridorCreated _ _ => exact (h.persists_corridorAdded _ _ _ _ _).push _
  | granted _ _ _ hd => exact (h.persists_capAdded hd).push _
  | sent _ hk _ _ => exact (persists_requeued hk _).push _
  | received _ hk _ => exact (persists_requeued hk _).push _
  | revoked hc => exact (h.persists_subtreeRevoked hc).push _
  | faulted _ => exact (persists_courtDown _ _).push _
  | found | notFound | opened | openDenied | peerDown => exact (Persists.refl s).push _
  | corridorRefused | lookupRefused | grantRefused | openRefused | sendRefused | recvRefused
  | revokeRefused | faultRefused => exact .refl s

theorem Wf.persists_run (h : s.Wf) (cs : List Call) : Persists s (machine.run s cs) := by
  induction cs generalizing s with
  | nil => exact .refl s
  | cons c cs ih => exact ((step_effect s c).persists h).trans (ih (h.step c))

end HostedRoot

end CourtKernel
