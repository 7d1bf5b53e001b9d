import CourtKernel.Linux.Plan
import CourtKernel.Hosted.Authority

/-!
# The tables of the root runner

What the runner's tables say about the object model, kept by every step of its plan.

* `Frozen` — no court and no corridor was created in between; every call but the two creating ones
  keeps that (`Effect.frozen`).
* `Based` — the court table is the naming of the courts, and the descriptor of a path is the one
  corridor created for it.
* `Built` — `Based`, with the names and paths that are in the tables.
* `Live` — every court runs and every corridor can be granted; `Bare` — and nothing is granted yet.
* `planBuild_spec` — building a valid manifest never fails and ends in `Built` and `Bare`.
-/

namespace CourtKernel

namespace HostedRoot

variable {s s' : HostedRoot}

/-- The court was created under the name. -/
def NamedBy (s : HostedRoot) (id : CourtId) (name : String) : Prop :=
  ∃ court, s.courts.lookup id = some court ∧ court.name = name

/-- The corridor was created for the path. -/
def CreatedFor (s : HostedRoot) (path : String) (o : ObjectId) : Prop :=
  ∃ transport, .corridorCreated path o transport ∈ s.trace

/-- No court and no corridor is new. -/
structure Frozen (s s' : HostedRoot) : Prop where
  names : ∀ id name, s'.NamedBy id name ↔ s.NamedBy id name
  created : ∀ path o, s'.CreatedFor path o ↔ s.CreatedFor path o
  objects : s'.nextObject = s.nextObject

theorem Frozen.refl (s : HostedRoot) : Frozen s s := ⟨fun _ _ => Iff.rfl, fun _ _ => Iff.rfl, rfl⟩

theorem Frozen.trans {s₁ s₂ s₃ : HostedRoot} (h : Frozen s₁ s₂) (h' : Frozen s₂ s₃) :
    Frozen s₁ s₃ :=
  ⟨fun id name => (h'.names id name).trans (h.names id name),
    fun path o => (h'.created path o).trans (h.created path o), h'.objects.trans h.objects⟩

theorem createdFor_push {e : TraceEvent} {path : String} {o : ObjectId} :
    (s.push e).CreatedFor path o ↔
      s.CreatedFor path o ∨ ∃ transport, e = .corridorCreated path o transport := by
  unfold CreatedFor
  simp only [push_trace, List.mem_append, List.mem_singleton, exists_or]
  exact or_congr Iff.rfl (exists_congr fun _ => eq_comm)

/-- Recording anything but a new corridor. -/
theorem Frozen.push (h : Frozen s s') {e : TraceEvent}
    (he : ∀ path o transport, e ≠ .corridorCreated path o transport) : Frozen s (s'.push e) := by
  refine ⟨h.names, fun path o => ?_, h.objects⟩
  rw [createdFor_push, ← h.created]
  exact or_iff_left fun ⟨transport, heq⟩ => he path o transport heq

/-- The two calls that make something new. -/
def Call.creates : Call → Bool
  | .createCourt _ | .createCorridor .. => true
  | _ => false

theorem namedBy_courtDown {court : CourtId} {entry : Court}
    (hentry : s.courts.lookup court = some entry) (id : CourtId) (name : String) :
    (s.courtDown court entry).NamedBy id name ↔ s.NamedBy id name := by
  unfold NamedBy courtDown
  simp only [HashMap.lookup_insert_ite]
  split
  · rename_i he
    subst he
    simp [hentry]
  · rfl

/-- **Only two calls create.** -/
theorem Effect.frozen {c : Call} {r : Reply} (he : Effect s c r s') (hc : c.creates = false) :
    Frozen s s' := by
  cases he with
  | courtCreated | corridorCreated | corridorRefused => cases hc
  | faulted h => exact Frozen.push ⟨namedBy_courtDown h, fun _ _ => Iff.rfl, rfl⟩ fun _ _ _ => nofun
  | granted | sent | received | revoked =>
    refine Frozen.push ?_ fun _ _ _ => nofun
    exact ⟨fun _ _ => Iff.rfl, fun _ _ => Iff.rfl, rfl⟩
  | found | notFound | opened | openDenied | peerDown => exact (Frozen.refl s).push fun _ _ _ => nofun
  | lookupRefused | grantRefused | openRefused | sendRefused | recvRefused | revokeRefused
  | faultRefused => exact .refl s

theorem createCorridor_eq {path : String} {first second : CourtId} {transport : CorridorTransport}
    {capacity : Nat} (hfirst : s.Running first) (hsecond : s.Running second) :
    s.createCorridor path first second transport capacity = (.ok ⟨s.nextObject + 1⟩,
      (s.corridorAdded path first second transport capacity).push
        (.corridorCreated path ⟨s.nextObject + 1⟩ transport)) := by
  unfold createCorridor
  rw [requireRunningCourt_ok.2 hfirst, requireRunningCourt_ok.2 hsecond]
  rfl

theorem lookup_eq {court : CourtId} {path : String} {d : Descriptor} (hr : s.Running court)
    (hd : s.nameSpace.lookup path = some d) :
    s.lookup court path = (.ok d, s.push (.namespaceLookup court path true)) := by
  unfold lookup
  rw [requireRunningCourt_ok.2 hr, hd]
  rfl

/-! ## Roots that can be granted from -/

/-- Every court runs, and the root capability of every corridor can be delegated. -/
structure Live (s : HostedRoot) : Prop where
  running : ∀ id court, s.courts.lookup id = some court → court.state = .running
  roots : ∀ o r, s.rootCaps.lookup o = some r →
    ∃ k, s.capRegistry.caps.lookup r = some k ∧ k.revoked = false ∧ k.delegable = true

theorem live_new : Live new := by
  refine ⟨fun _ _ h => ?_, fun _ _ h => ?_⟩
  · cases h
  · cases h

theorem Live.push (h : s.Live) (e : TraceEvent) : (s.push e).Live := ⟨h.running, h.roots⟩

theorem Live.courtAdded (h : s.Live) (name : String) : (s.courtAdded name).Live := by
  refine ⟨fun id court hc => ?_, h.roots⟩
  simp only [HostedRoot.courtAdded, HashMap.lookup_insert_ite] at hc
  split at hc
  · obtain rfl := Option.some.inj hc
    rfl
  · exact h.running id court hc

theorem Live.corridorAdded (h : s.Live) (hwf : s.Wf) (path : String) (first second : CourtId)
    (transport : CorridorTransport) (capacity : Nat) :
    (s.corridorAdded path first second transport capacity).Live := by
  refine ⟨h.running, fun o r hr => ?_⟩
  rw [corridorAdded_capRegistry, CapRegistry.lookup_register]
  simp only [HostedRoot.corridorAdded, HashMap.lookup_insert_ite] at hr
  split at hr
  · obtain rfl := Option.some.inj hr
    exact ⟨_, if_pos rfl, rfl, rfl⟩
  · obtain ⟨k, hk, hlive⟩ := h.roots o r hr
    rw [if_neg]
    · exact ⟨k, hk, hlive⟩
    · rintro rfl
      exact hwf.registry.fresh (Finmap.mem_of_lookup_eq_some hk)

theorem Live.capAdded (h : s.Live) (hwf : s.Wf) {court : CourtId} {root cap : CapId}
    {rights : Rights} {g : CapRegistry}
    (hd : s.capRegistry.delegate root rights = (.ok cap, g)) : (s.capAdded court cap g).Live := by
  refine ⟨h.running, fun o r hr => ?_⟩
  obtain ⟨k, hk, hlive⟩ := h.roots o r hr
  obtain ⟨kp, -, -, -, -, -, rfl⟩ := CapRegistry.delegate_ok hd
  rw [capAdded_capRegistry, CapRegistry.lookup_register, if_neg]
  · exact ⟨k, hk, hlive⟩
  · rintro rfl
    exact hwf.registry.fresh (Finmap.mem_of_lookup_eq_some hk)

/-- A root that is live and has granted nothing. -/
structure Bare (s : HostedRoot) : Prop extends Live s where
  unheld : ∀ id cap, ¬ s.Holds id cap

theorem bare_new : Bare new := by
  refine ⟨live_new, ?_⟩
  rintro id cap ⟨cspace, h, -⟩
  cases h

theorem Bare.push (h : s.Bare) (e : TraceEvent) : (s.push e).Bare := ⟨h.toLive.push e, h.unheld⟩

theorem Bare.courtAdded (h : s.Bare) (hwf : s.Wf) (name : String) : (s.courtAdded name).Bare :=
  ⟨h.toLive.courtAdded name, fun id cap hh => h.unheld id cap ((holds_courtAdded hwf name).1 hh)⟩

theorem Bare.corridorAdded (h : s.Bare) (hwf : s.Wf) (path : String) (first second : CourtId)
    (transport : CorridorTransport) (capacity : Nat) :
    (s.corridorAdded path first second transport capacity).Bare :=
  ⟨h.toLive.corridorAdded hwf .., h.unheld⟩

/-- A root that is live grants what the root capabilities have, and nothing else. -/
theorem Live.grant_eq (h : s.Live) (hwf : s.Wf) {court : CourtId} (hc : court ∈ s.courts)
    {d : Descriptor} (hd : d.object ∈ s.rootCaps) (rights : Rights) :
    (s.grantCorridorCap court d rights).1 =
      if rootRights.contains rights = true then .ok ⟨s.capRegistry.nextCap + 1⟩ else .error .noRight := by
  obtain ⟨entry, hentry⟩ := Finmap.mem_iff.1 hc
  obtain ⟨r, hroot⟩ := Finmap.mem_iff.1 hd
  obtain ⟨k, hk, hrev, hdel⟩ := h.roots _ r hroot
  obtain ⟨k', hk', -, -, hrights, -⟩ := hwf.root _ r hroot
  rw [hk] at hk'
  obtain rfl := Option.some.inj hk'
  have hrun : s.Running court := ⟨entry, hentry, h.running court entry hentry⟩
  have hdelegate : rootRights.contains .DELEGATE = true := by decide
  by_cases hr : rootRights.contains rights = true
  · simp [grantCorridorCap, requireRunningCourt_ok.2 hrun, hroot, CapRegistry.delegate, hk, hrev, hdel,
      hrights, hdelegate, hr, CapRegistry.allocCap]
  · simp [grantCorridorCap, requireRunningCourt_ok.2 hrun, hroot, CapRegistry.delegate, hk, hrev, hdel,
      hrights, hdelegate, hr]

end HostedRoot

/-! ## Rules for the plan -/

section

variable {α σ : Type} {Q : α → σ → Prop} {E : String → σ → Prop} {s : σ}

theorem wp_ck {result : CkResult α} : wp (ck result : Prog σ α) Q E s ↔
    (∀ a, result = .ok a → Q a s) ∧ ∀ e, result = .error e → E e.display s := by
  rw [ck, wp_ofExcept]
  cases result with
  | ok a => simp [Except.mapError]
  | error e => simp [Except.mapError]

end

namespace RootState

variable {st st' : RootState} {names paths : List String}

theorem wp_callRoot {α : Type} {method : HostedRoot → CkResult α × HostedRoot}
    {Q : α → RootState → Prop} {E : String → RootState → Prop} :
    wp (callRoot method) Q E st ↔
      (∀ a, (method st.root).1 = .ok a → Q a { st with root := (method st.root).2 }) ∧
        ∀ e, (method st.root).1 = .error e →
          E e.display { st with root := (method st.root).2 } := by
  rw [callRoot, wp_bind, wp_get, wp_bind, wp_set]
  exact wp_ck

/-! ## The invariant -/

/-- The tables agree with the object model. -/
structure Based (st : RootState) : Prop where
  wf : st.root.Wf
  courts : ∀ name id, st.courtIds.lookup name = some id ↔ st.root.NamedBy id name
  object : ∀ path d, st.descriptors.lookup path = some d →
    ∀ o, st.root.CreatedFor path o ↔ o = d.object
  path : ∀ path path' o, st.root.CreatedFor path o → st.root.CreatedFor path' o → path = path'
  made : ∀ path o, st.root.CreatedFor path o → o.raw ≤ st.root.nextObject ∧ 1 ≤ o.raw

/-- The tables hold exactly these courts and corridors. -/
structure Built (names paths : List String) (st : RootState) : Prop extends Based st where
  known : ∀ name, name ∈ st.courtIds ↔ name ∈ names
  described : ∀ path, path ∈ st.descriptors ↔ path ∈ paths
  only : ∀ path o, st.root.CreatedFor path o → path ∈ paths

theorem built_new (policy : PolicyFile) : Built [] [] (new policy) := by
  have hno : ∀ path o, ¬ (new policy).root.CreatedFor path o := by
    rintro path o ⟨transport, h⟩
    cases h
  refine ⟨⟨HostedRoot.wf_new, fun name id => ?_, fun path d hd => ?_, fun path path' o h => ?_,
    fun path o h => ?_⟩, fun name => ?_, fun path => ?_, fun path o h => ?_⟩
  · refine ⟨fun h => ?_, fun ⟨court, h, _⟩ => ?_⟩
    · cases h
    · cases h
  · cases hd
  · exact absurd h (hno path o)
  · exact absurd h (hno path o)
  · simp only [new, Finmap.notMem_empty, List.not_mem_nil]
  · simp only [new, Finmap.notMem_empty, List.not_mem_nil]
  · exact absurd h (hno path o)

/-- The other tables do not matter. -/
theorem Built.congr (h : Built names paths st) (hroot : st'.root = st.root)
    (hcourts : st'.courtIds = st.courtIds) (hdescr : st'.descriptors = st.descriptors) :
    Built names paths st' := by
  obtain ⟨⟨hwf, hids, hobject, hpath, hmade⟩, hknown, hdescribed, honly⟩ := h
  rw [← hroot] at hwf hids hobject hpath hmade honly
  rw [← hcourts] at hids hknown
  rw [← hdescr] at hobject hdescribed
  exact ⟨⟨hwf, hids, hobject, hpath, hmade⟩, hknown, hdescribed, honly⟩

/-- Calls that create nothing keep the tables right. -/
theorem Built.call (h : Built names paths st) {c : HostedRoot.Call} (hc : c.creates = false) :
    Built names paths { st with root := (st.root.call c).2 } := by
  have he := HostedRoot.call_effect st.root c
  have hf := he.frozen hc
  refine ⟨⟨he.wf h.wf, fun name id => ?_, fun path d hd o => ?_, fun path path' o hp hp' => ?_,
    fun path o hp => ?_⟩, h.known, h.described, fun path o hp => ?_⟩
  · exact (h.courts name id).trans (hf.names id name).symm
  · exact (hf.created path o).trans (h.object path d hd o)
  · exact h.path path path' o ((hf.created path o).1 hp) ((hf.created path' o).1 hp')
  · show o.raw ≤ (st.root.call c).2.nextObject ∧ 1 ≤ o.raw
    rw [hf.objects]
    exact h.made path o ((hf.created path o).1 hp)
  · exact h.only path o ((hf.created path o).1 hp)

/-! ## Courts -/

theorem createCourt_spec (h : Built names paths st) (hl : st.root.Bare) {court : CourtManifest}
    (hnew : court.name ∉ names) :
    wp (createCourt court)
      (fun _ st' => Built (names ++ [court.name]) paths st' ∧ st'.root.Bare)
      (fun _ _ => False) st := by
  rw [createCourt, wp_modify]
  have hfresh := h.wf.court_fresh
  have hnone : st.courtIds.lookup court.name = none := by
    rw [Finmap.lookup_eq_none, h.known]
    exact hnew
  have hcreated : ∀ path o, (st.root.createCourt court.name).2.CreatedFor path o ↔
      st.root.CreatedFor path o := fun path o =>
    HostedRoot.createdFor_push.trans (or_iff_left fun ⟨_, he⟩ => by cases he)
  refine ⟨⟨⟨(h.wf.courtAdded court.name).push _, fun name id => ?_, fun path d hd o => ?_,
    fun path path' o hp hp' => ?_, fun path o hp => ?_⟩, fun name => ?_, h.described,
    fun path o hp => ?_⟩, (hl.courtAdded h.wf court.name).push _⟩
  · show (st.courtIds.insert court.name ⟨st.root.nextCourt + 1⟩).lookup name = some id ↔
      ∃ entry, (st.root.courts.insert _ _).lookup id = some entry ∧ entry.name = name
    rw [HashMap.lookup_insert_ite, HashMap.lookup_insert_ite]
    by_cases hname : name = court.name
    · subst hname
      by_cases hid : id = ⟨st.root.nextCourt + 1⟩
      · simp [hid]
      · rw [if_pos rfl, if_neg hid, Option.some.injEq]
        refine ⟨fun he => absurd he.symm hid, fun he => ?_⟩
        rw [(h.courts court.name id).2 he] at hnone
        cases hnone
    · rw [if_neg hname, h.courts]
      by_cases hid : id = ⟨st.root.nextCourt + 1⟩
      · subst hid
        rw [if_pos rfl]
        refine ⟨fun ⟨entry, he, _⟩ => absurd (Finmap.mem_of_lookup_eq_some he) hfresh, ?_⟩
        rintro ⟨entry, he, rfl⟩
        exact absurd (congrArg Court.name (Option.some.inj he)).symm hname
      · rw [if_neg hid]
        rfl
  · exact (hcreated path o).trans (h.object path d hd o)
  · exact h.path path path' o ((hcreated path o).1 hp) ((hcreated path' o).1 hp')
  · exact h.made path o ((hcreated path o).1 hp)
  · show name ∈ st.courtIds.insert court.name _ ↔ _
    rw [Finmap.mem_insert, h.known, List.mem_append, List.mem_singleton, or_comm]
  · exact h.only path o ((hcreated path o).1 hp)

/-! ## Corridors -/

/-- A known name is the name of a court that runs. -/
theorem Built.running (h : Built names paths st) (hl : st.root.Live) {name : String}
    (hname : name ∈ names) : ∃ id, st.courtIds.lookup name = some id ∧ st.root.Running id := by
  obtain ⟨id, hid⟩ := Finmap.mem_iff.1 ((h.known name).2 hname)
  obtain ⟨court, hcourt, -⟩ := (h.courts name id).1 hid
  exact ⟨id, hid, court, hcourt, hl.running id court hcourt⟩

/-- The descriptor of the next corridor. -/
def nextDescriptor (st : RootState) (path : String) : Descriptor :=
  ⟨path, ⟨st.root.nextObject + 1⟩, .corridor, .sharedRing⟩

/-- A new corridor is described under its path. -/
theorem Built.corridor (h : Built names paths st) {path : String} (hnew : path ∉ paths)
    {first second : CourtId} {capacity : Nat} {e : TraceEvent}
    (he : ∀ path o transport, e ≠ .corridorCreated path o transport) :
    Built names (paths ++ [path]) { st with
      root := ((st.root.corridorAdded path first second .sharedRing capacity).push
        (.corridorCreated path ⟨st.root.nextObject + 1⟩ .sharedRing)).push e
      descriptors := st.descriptors.insert path (st.nextDescriptor path) } := by
  have hcreated : ∀ p o, (((st.root.corridorAdded path first second .sharedRing capacity).push
      (.corridorCreated path ⟨st.root.nextObject + 1⟩ .sharedRing)).push e).CreatedFor p o ↔
      st.root.CreatedFor p o ∨ (p = path ∧ o = ⟨st.root.nextObject + 1⟩) := by
    intro p o
    rw [HostedRoot.createdFor_push, HostedRoot.createdFor_push,
      or_iff_left fun ⟨transport, heq⟩ => he p o transport heq]
    refine or_congr Iff.rfl ⟨fun ⟨transport, heq⟩ => ?_, fun ⟨hp, ho⟩ => ⟨.sharedRing, ?_⟩⟩
    · cases heq
      exact ⟨rfl, rfl⟩
    · rw [hp, ho]
  have hfresh : ∀ p, ¬ st.root.CreatedFor p ⟨st.root.nextObject + 1⟩ := fun p hp => by
    have := (h.made p _ hp).1
    simp only at this
    omega
  refine ⟨⟨((h.wf.corridorAdded ..).push _).push _, h.courts, fun p d hd o => ?_,
    fun p p' o hp hp' => ?_, fun p o hp => ?_⟩, h.known, fun p => ?_, fun p o hp => ?_⟩
  · rw [hcreated]
    simp only [HashMap.lookup_insert_ite] at hd
    split at hd
    · rename_i hp
      subst hp
      obtain rfl := Option.some.inj hd
      refine ⟨fun ho => ho.elim (fun hold => absurd (h.only p o hold) hnew) And.right,
        fun ho => Or.inr ⟨rfl, ho⟩⟩
    · rename_i hp
      rw [h.object p d hd o]
      exact or_iff_left fun hnewp => hp hnewp.1
  · rw [hcreated] at hp hp'
    rcases hp with hp | ⟨rfl, rfl⟩
    · rcases hp' with hp' | ⟨-, rfl⟩
      · exact h.path p p' o hp hp'
      · exact absurd hp (hfresh p)
    · rcases hp' with hp' | ⟨rfl, -⟩
      · exact absurd hp' (hfresh p')
      · rfl
  · show o.raw ≤ st.root.nextObject + 1 ∧ 1 ≤ o.raw
    rcases (hcreated p o).1 hp with hp | ⟨-, rfl⟩
    · have := h.made p o hp
      omega
    · simp
  · show p ∈ st.descriptors.insert path _ ↔ _
    rw [Finmap.mem_insert, h.described, List.mem_append, List.mem_singleton, or_comm]
  · rw [List.mem_append, List.mem_singleton]
    rcases (hcreated p o).1 hp with hp | ⟨rfl, -⟩
    · exact Or.inl (h.only p o hp)
    · exact Or.inr rfl

theorem createCorridor_spec (h : Built names paths st) (hl : st.root.Bare)
    {corridor : CorridorManifest} (hvalid : corridor.Valid names) (hnew : corridor.path ∉ paths) :
    wp (createCorridor corridor)
      (fun _ st' => Built names (paths ++ [corridor.path]) st' ∧ st'.root.Bare)
      (fun _ _ => False) st := by
  obtain ⟨first, hfirst, hrun⟩ := h.running hl.toLive hvalid.from
  obtain ⟨second, hsecond, hrun'⟩ := h.running hl.toLive hvalid.to
  have hnot : ∀ {α : Type} {o : Option α} {a : α}, o = some a → o ≠ none := by
    rintro α o a rfl
    exact Option.some_ne_none a
  simp only [createCorridor, wp_bind, wp_get, wp_expect]
  refine ⟨fun first' hf => ?_, hnot hfirst⟩
  rw [hfirst] at hf
  obtain rfl := Option.some.inj hf
  refine ⟨fun second' hs => ?_, hnot hsecond⟩
  rw [hsecond] at hs
  obtain rfl := Option.some.inj hs
  cases corridor.transport with
  | sharedRing =>
    simp only [wp_callRoot, HostedRoot.createCorridor_eq hrun hrun']
    refine ⟨fun o _ => ?_, fun e he => by cases he⟩
    have hlookup := HostedRoot.lookup_eq (s := (st.root.corridorAdded corridor.path first second
      .sharedRing corridor.capacity.toNat).push (.corridorCreated corridor.path
        ⟨st.root.nextObject + 1⟩ .sharedRing)) (d := st.nextDescriptor corridor.path) hrun
      (Finmap.lookup_insert _)
    rw [hlookup]
    refine ⟨fun d hd => ?_, fun e he => by cases he⟩
    obtain rfl := Except.ok.inj hd
    rw [wp_modify]
    refine ⟨h.corridor hnew fun _ _ _ hsame => ?_, ((hl.corridorAdded h.wf ..).push _).push _⟩
    cases hsame

/-! ## What building leaves alone -/

/-- The tables that creating courts and corridors does not touch. -/
structure Apart (st st' : RootState) : Prop where
  capsById : st'.capsById = st.capsById
  capsByKey : st'.capsByKey = st.capsByKey
  ringInfo : st'.ringInfo = st.ringInfo

instance Apart.refl : Std.Refl Apart := ⟨fun _ => ⟨rfl, rfl, rfl⟩⟩

instance Apart.trans : Trans Apart Apart Apart :=
  ⟨fun h h' => ⟨h'.capsById.trans h.capsById, h'.capsByKey.trans h.capsByKey,
    h'.ringInfo.trans h.ringInfo⟩⟩

theorem callRoot_apart {α : Type} (method : HostedRoot → CkResult α × HostedRoot) :
    Keeps Apart (callRoot method) :=
  fun _ => wp_callRoot.2 ⟨fun _ _ => ⟨rfl, rfl, rfl⟩, fun _ _ => ⟨rfl, rfl, rfl⟩⟩

theorem createCourt_apart (court : CourtManifest) : Keeps Apart (createCourt court) :=
  .modify fun _ => ⟨rfl, rfl, rfl⟩

theorem createCorridor_apart (corridor : CorridorManifest) :
    Keeps Apart (createCorridor corridor) :=
  .bind .get fun _ => .bind (.expect _ _) fun _ => .bind (.expect _ _) fun _ =>
    .bind (callRoot_apart _) fun _ => .bind (callRoot_apart _) fun _ => .modify fun _ => ⟨rfl, rfl, rfl⟩

theorem planBuild_apart (manifest : ManifestFile) : Keeps Apart (planBuild manifest) :=
  .bind (.forM createCourt_apart _) fun _ => .forM createCorridor_apart _

/-! ## The manifest -/

/-- An entry of a list without repetitions is not among the entries before it. -/
theorem key_not_mem_done {α κ : Type} {key : α → κ} {l done rest : List α} {x : α}
    (hnodup : (l.map key).Nodup) (hl : l = done ++ x :: rest) : key x ∉ done.map key := by
  rw [hl, List.map_append, List.map_cons] at hnodup
  intro hmem
  exact (List.nodup_append.1 hnodup).2.2 _ hmem _ List.mem_cons_self rfl

theorem createCourts_spec {manifest : ManifestFile} (hnodup : manifest.courtNames.Nodup)
    (h : Built [] paths st) (hl : st.root.Bare) :
    wp (forM manifest.courts createCourt)
      (fun _ st' => Built manifest.courtNames paths st' ∧ st'.root.Bare) (fun _ _ => False) st := by
  refine wp_forM (I := fun (done : List CourtManifest) st => Built (done.map (·.name)) paths st ∧
    st.root.Bare) ⟨h, hl⟩ fun done court rest hlist st hI => ?_
  rw [List.map_append]
  exact createCourt_spec hI.1 hI.2 (key_not_mem_done hnodup hlist)

theorem createCorridors_spec {manifest : ManifestFile} {policy : PolicyFile}
    (hv : Valid manifest policy) (h : Built manifest.courtNames [] st) (hl : st.root.Bare) :
    wp (forM manifest.corridors createCorridor)
      (fun _ st' => Built manifest.courtNames manifest.paths st' ∧ st'.root.Bare)
      (fun _ _ => False) st := by
  refine wp_forM (I := fun (done : List CorridorManifest) st =>
    Built manifest.courtNames (done.map (·.path)) st ∧ st.root.Bare) ⟨h, hl⟩
    fun done corridor rest hlist st hI => ?_
  rw [List.map_append]
  have hmem : corridor ∈ manifest.corridors := by
    rw [hlist]
    exact List.mem_append_right _ List.mem_cons_self
  exact createCorridor_spec hI.1 hI.2 (hv.corridors corridor hmem) (key_not_mem_done hv.paths hlist)

/-- **Building a valid manifest never fails.** -/
theorem planBuild_spec {manifest : ManifestFile} {policy : PolicyFile} (hv : Valid manifest policy)
    (h : Built [] [] st) (hl : st.root.Bare) :
    wp (planBuild manifest)
      (fun _ st' => Built manifest.courtNames manifest.paths st' ∧ st'.root.Bare)
      (fun _ _ => False) st := by
  rw [planBuild, wp_bind]
  exact wp_mono (createCourts_spec hv.courts.2 h hl)
    (fun _ st' hb => createCorridors_spec hv hb.1 hb.2) fun _ _ he => he

end RootState

end CourtKernel
