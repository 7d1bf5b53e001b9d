import CourtKernel.Linux.Tables
import CourtKernel.Hosted.Consistency
import CourtKernel.Hosted.Revocation

/-!
# Carrying out a policy

What the grants, revocations and faults of a policy do to the object model, step by step and as a
whole.

* `Granted done` — after the grants `done`: every capability that a court holds for a corridor comes
  from one of them, and it is the one in `caps_by_key` if the pair was granted once.
* `grantCap_spec`, `revokeCap_spec`, `faultCourt_spec` — one step each.
* `Forgets done` — of a pair granted more than once there is a capability that `caps_by_key` does not have;
  capabilities that courts hold are not derived from each other, so no revocation reaches it.
* `policy_revocation_complete` — after the revocations no capability of a revoked pair works, exactly if
  the pair was granted once.  A second grant for the pair replaces the first in `caps_by_key`, and the
  first capability stays (`second_grant_survives`).
* `validated_plan_runs` — the plan of a valid manifest and policy goes through exactly if no grant asks
  for `read` or `write`, which no corridor has (`read_grant_fails`).
-/

namespace CourtKernel

namespace RootState

variable {st st' : RootState} {names paths : List String} {done : List (String × String)}

/-- The grants carried out so far, as the tables and the object model show them. -/
structure Granted (done : List (String × String)) (st : RootState) : Prop where
  held : ∀ court id path d cap k, st.courtIds.lookup court = some id →
    st.descriptors.lookup path = some d → st.root.Holds id cap →
    st.root.capRegistry.caps.lookup cap = some k → k.object = d.object →
    (court, path) ∈ done ∧ (done.count (court, path) = 1 →
      ∃ rights, st.capsByKey.lookup (court, path) = some (cap, rights))
  keys : ∀ key ∈ done, ∃ cap rights, st.capsByKey.lookup key = some (cap, rights) ∧
    cap ∈ st.root.capRegistry.caps

theorem granted_nil (h : st.root.Bare) : Granted [] st := by
  refine ⟨fun court id path d cap k _ _ hh => ?_, fun key hkey => ?_⟩
  · exact absurd hh (h.unheld id cap)
  · cases hkey

/-- A court has one name. -/
theorem Based.name_unique (h : Based st) {name name' : String} {id : CourtId}
    (hn : st.courtIds.lookup name = some id) (hn' : st.courtIds.lookup name' = some id) :
    name = name' := by
  obtain ⟨court, hc, rfl⟩ := (h.courts name id).1 hn
  obtain ⟨court', hc', rfl⟩ := (h.courts name' id).1 hn'
  rw [hc] at hc'
  rw [Option.some.inj hc']

/-- A corridor has one path. -/
theorem Based.path_unique (h : Based st) {path path' : String} {d d' : Descriptor}
    (hd : st.descriptors.lookup path = some d) (hd' : st.descriptors.lookup path' = some d')
    (ho : d.object = d'.object) : path = path' :=
  h.path path path' d.object ((h.object path d hd _).2 rfl) (ho ▸ (h.object path' d' hd' _).2 rfl)

/-- A described corridor has a root capability. -/
theorem Based.object_mem (h : Based st) {path : String} {d : Descriptor}
    (hd : st.descriptors.lookup path = some d) : d.object ∈ st.root.rootCaps := by
  rw [h.wf.roots]
  exact (h.made path d.object ((h.object path d hd _).2 rfl)).symm

end RootState

/-! ## What the table forgets -/

namespace HostedRoot

variable {s : HostedRoot}

/-- Capabilities that courts hold are derived from root capabilities, not from each other. -/
theorem Wf.not_onChain (h : s.Wf) {c d : CapId} {court court' : CourtId} (hc : s.Holds court c)
    (hd : s.Holds court' d) (hne : c ≠ d) : ¬ s.capRegistry.ChainThrough c d := by
  intro hchain
  cases hchain with
  | refl => exact hne rfl
  | @up _ p hp hchain =>
    obtain ⟨k, hk, hparent⟩ := CapRegistry.parentOf_eq_some.1 hp
    rcases h.origin d k hk with hroot | ⟨r, -, hr, hroot, -⟩
    · exact h.unheld _ d hroot court' hd
    · obtain rfl := Option.some.inj (hparent.symm.trans hr)
      cases hchain with
      | refl => exact h.unheld _ c hroot court hc
      | up hp' _ =>
        obtain ⟨k', hk', -, -, -, hnone⟩ := h.root _ _ hroot
        obtain ⟨k'', hk'', hsome⟩ := CapRegistry.parentOf_eq_some.1 hp'
        rw [hk'] at hk''
        rw [← Option.some.inj hk'', hnone] at hsome
        cases hsome

end HostedRoot

namespace RootState

variable {st st' : RootState} {names paths : List String} {done : List (String × String)}

/-- The court holds a capability for the corridor that is not revoked. -/
def HoldsLive (st : RootState) (id : CourtId) (o : ObjectId) (cap : CapId) : Prop :=
  st.root.Holds id cap ∧
    ∃ k, st.root.capRegistry.caps.lookup cap = some k ∧ k.object = o ∧ k.revoked = false

/-- The table lists capabilities of the pairs; and of a pair that was granted more than once there is
one that it does not list, and that works. -/
structure Forgets (done : List (String × String)) (st : RootState) : Prop where
  listed : ∀ court path cap rights, st.capsByKey.lookup (court, path) = some (cap, rights) →
    ∃ id d k, st.courtIds.lookup court = some id ∧ st.descriptors.lookup path = some d ∧
      st.root.Holds id cap ∧ st.root.capRegistry.caps.lookup cap = some k ∧ k.object = d.object
  spare : ∀ court path id d, st.courtIds.lookup court = some id →
    st.descriptors.lookup path = some d → 2 ≤ done.count (court, path) →
    ∃ cap, st.HoldsLive id d.object cap ∧ ∀ key rights, st.capsByKey.lookup key ≠ some (cap, rights)

/-- Nothing is revoked. -/
def Unrevoked (st : RootState) : Prop :=
  ∀ cap k, st.root.capRegistry.caps.lookup cap = some k → k.revoked = false

theorem unrevoked_of_bare (hb : st.root.Bare) (hwf : st.root.Wf) : Unrevoked st := by
  intro cap k hk
  rcases hwf.origin cap k hk with hroot | ⟨-, court, -, -, hh⟩
  · obtain ⟨k', hk', hrev, -⟩ := hb.roots _ cap hroot
    rw [hk] at hk'
    rw [Option.some.inj hk']
    exact hrev
  · exact absurd hh (hb.unheld court cap)

theorem forgets_nil (hkeys : st.capsByKey = ∅) : Forgets [] st := by
  refine ⟨fun court path cap rights hcap => ?_, fun court path id d _ _ htwo => ?_⟩
  · rw [hkeys] at hcap
    cases hcap
  · simp at htwo

/-! ## Grants -/

/-- One more grant. -/
theorem Granted.grant (hg : Granted done st) (h : Based st) {court path : String} {id : CourtId}
    {d : Descriptor} {root cap : CapId} {rights : Rights} {g : CapRegistry} {e : TraceEvent}
    (hid : st.courtIds.lookup court = some id) (hd : st.descriptors.lookup path = some d)
    (hroot : st.root.rootCaps.lookup d.object = some root)
    (hdel : st.root.capRegistry.delegate root rights = (.ok cap, g)) :
    Granted (done ++ [(court, path)]) { st with
      root := (st.root.capAdded id cap g).push e
      capsById := st.capsById.insert cap.raw cap
      capsByKey := st.capsByKey.insert (court, path) (cap, rights) } := by
  obtain ⟨kp, hkp, -, -, -, rfl, rfl⟩ := CapRegistry.delegate_ok hdel
  obtain ⟨k', hk', hobj, -⟩ := h.wf.root _ root hroot
  rw [hkp] at hk'
  obtain rfl := Option.some.inj hk'
  have hfresh := h.wf.registry.fresh
  refine ⟨fun court₁ id₁ path₁ d₁ cap₁ k₁ hid₁ hd₁ hh hk₁ ho => ?_, fun key hkey => ?_⟩
  · simp only [HostedRoot.push_capRegistry, HostedRoot.capAdded_capRegistry,
      CapRegistry.lookup_register] at hk₁
    rcases (HostedRoot.holds_capAdded (g := st.root.capRegistry.register
      (CapRegistry.derived root kp rights))).1 hh with ⟨rfl, rfl⟩ | hh
    · -- the new capability: its pair is the one just granted for
      rw [if_pos rfl] at hk₁
      obtain rfl := Option.some.inj hk₁
      obtain rfl := h.name_unique hid hid₁
      obtain rfl := h.path_unique hd hd₁ (hobj.symm.trans ho)
      refine ⟨List.mem_append_right _ (List.mem_singleton.2 rfl), fun _ => ⟨rights, ?_⟩⟩
      exact Finmap.lookup_insert _
    · rw [if_neg] at hk₁
      · obtain ⟨hmem, hone⟩ := hg.held court₁ id₁ path₁ d₁ cap₁ k₁ hid₁ hd₁ hh hk₁ ho
        refine ⟨List.mem_append_left _ hmem, fun hcount => ?_⟩
        -- an older capability of the same pair means that the pair was granted before
        have hne : (court₁, path₁) ≠ (court, path) := by
          intro he
          rw [he] at hmem hcount
          rw [List.count_append, List.count_singleton_self] at hcount
          have := List.count_pos_iff.2 hmem
          omega
        rw [List.count_append, List.count_singleton, beq_eq_false_iff_ne.2 hne.symm] at hcount
        obtain ⟨rights₁, hkey⟩ := hone hcount
        exact ⟨rights₁, (HashMap.lookup_insert_ite ..).trans ((if_neg hne).trans hkey)⟩
      · rintro rfl
        exact hfresh (h.wf.held id₁ _ hh)
  · simp only [HostedRoot.push_capRegistry, HostedRoot.capAdded_capRegistry,
      HashMap.lookup_insert_ite, CapRegistry.mem_register]
    split
    · exact ⟨_, rights, rfl, Or.inl rfl⟩
    · rename_i hne
      rw [List.mem_append, List.mem_singleton, or_iff_left hne] at hkey
      obtain ⟨c, r, hc, hmem⟩ := hg.keys key hkey
      exact ⟨c, r, hc, Or.inr hmem⟩

theorem Unrevoked.grant (h : Unrevoked st) {root cap : CapId} {rights : Rights}
    {g : CapRegistry} (hdel : st.root.capRegistry.delegate root rights = (.ok cap, g)) :
    ∀ c k, g.caps.lookup c = some k → k.revoked = false := by
  obtain ⟨kp, -, -, -, -, rfl, rfl⟩ := CapRegistry.delegate_ok hdel
  intro c k hk
  rw [CapRegistry.lookup_register] at hk
  split at hk
  · obtain rfl := Option.some.inj hk
    rfl
  · exact h c k hk

/-- The capability that the table has for a pair is in no other place of it. -/
theorem Forgets.listed_once (hf : Forgets done st) (hg : Granted done st) (h : Based st)
    (hu : Unrevoked st) {court path : String} {id : CourtId} {d : Descriptor}
    (hid : st.courtIds.lookup court = some id) (hd : st.descriptors.lookup path = some d)
    (hmem : (court, path) ∈ done) :
    ∃ c, st.HoldsLive id d.object c ∧
      ∀ key r, key ≠ (court, path) → st.capsByKey.lookup key ≠ some (c, r) := by
  obtain ⟨c, r, hcap, -⟩ := hg.keys (court, path) hmem
  obtain ⟨id₂, d₂, k, hid₂, hd₂, hh, hk, ho⟩ := hf.listed court path c r hcap
  obtain rfl := Option.some.inj (hid.symm.trans hid₂)
  obtain rfl := Option.some.inj (hd.symm.trans hd₂)
  refine ⟨c, ⟨hh, k, hk, ho, hu c k hk⟩, fun key r' hne hcap' => hne ?_⟩
  -- one court holds it, for one object, and these have one name and one path
  obtain ⟨id₃, d₃, k₃, hid₃, hd₃, hh₃, hk₃, ho₃⟩ := hf.listed key.1 key.2 c r' hcap'
  obtain rfl := h.wf.unique c _ _ hh hh₃
  obtain rfl := Option.some.inj (hk.symm.trans hk₃)
  exact Prod.ext (h.name_unique hid₃ hid) (h.path_unique hd₃ hd (ho₃.symm.trans ho))

/-- A second grant for a pair takes the place of the first in the table, and only there. -/
theorem Forgets.grant (hf : Forgets done st) (hg : Granted done st) (h : Based st) (hu : Unrevoked st)
    {court path : String} {id : CourtId} {d : Descriptor} {root cap : CapId} {rights : Rights}
    {g : CapRegistry} {e : TraceEvent} (hid : st.courtIds.lookup court = some id)
    (hd : st.descriptors.lookup path = some d) (hroot : st.root.rootCaps.lookup d.object = some root)
    (hdel : st.root.capRegistry.delegate root rights = (.ok cap, g)) :
    Forgets (done ++ [(court, path)]) { st with
      root := (st.root.capAdded id cap g).push e
      capsById := st.capsById.insert cap.raw cap
      capsByKey := st.capsByKey.insert (court, path) (cap, rights) } := by
  obtain ⟨kp, hkp, -, -, -, rfl, rfl⟩ := CapRegistry.delegate_ok hdel
  obtain ⟨k', hk', hobj, -⟩ := h.wf.root _ root hroot
  rw [hkp] at hk'
  obtain rfl := Option.some.inj hk'
  have hfresh := h.wf.registry.fresh
  have hnew : ∀ {id₁ : CourtId} {c : CapId}, st.root.Holds id₁ c →
      c ≠ ⟨st.root.capRegistry.nextCap + 1⟩ := by
    rintro id₁ c hh rfl
    exact hfresh (h.wf.held id₁ _ hh)
  -- what was held is held, and is as it was
  have hkeep : ∀ {id₁ : CourtId} {c : CapId}, st.root.Holds id₁ c →
      ((st.root.capAdded id ⟨st.root.capRegistry.nextCap + 1⟩ (st.root.capRegistry.register
        (CapRegistry.derived root kp rights))).push e).Holds id₁ c ∧
      (st.root.capRegistry.register (CapRegistry.derived root kp rights)).caps.lookup c =
        st.root.capRegistry.caps.lookup c := by
    intro id₁ c hh
    refine ⟨(HostedRoot.holds_capAdded (g := st.root.capRegistry.register
      (CapRegistry.derived root kp rights))).2 (.inr hh), ?_⟩
    rw [CapRegistry.lookup_register, if_neg (hnew hh)]
  refine ⟨fun court₁ path₁ c r hcap => ?_, fun court₁ path₁ id₁ d₁ hid₁ hd₁ htwo => ?_⟩
  · simp only [HashMap.lookup_insert_ite] at hcap
    split at hcap
    · rename_i heq
      obtain ⟨rfl, rfl⟩ := Prod.mk.inj heq
      obtain ⟨rfl, rfl⟩ := Prod.mk.inj (Option.some.inj hcap)
      refine ⟨id, d, CapRegistry.derived root kp rights, hid, hd,
        (HostedRoot.holds_capAdded (g := st.root.capRegistry.register
          (CapRegistry.derived root kp rights))).2 (.inl ⟨rfl, rfl⟩), ?_, hobj⟩
      show (st.root.capRegistry.register _).caps.lookup _ = _
      rw [CapRegistry.lookup_register, if_pos rfl]
    · obtain ⟨id₁, d₁, k, hid₁, hd₁, hh, hk, ho⟩ := hf.listed court₁ path₁ c r hcap
      exact ⟨id₁, d₁, k, hid₁, hd₁, (hkeep hh).1, (hkeep hh).2.trans hk, ho⟩
  · -- the spare one is an older spare one, or the one that the new grant takes the place of
    obtain ⟨c, hlive, hunlisted⟩ : ∃ c, st.HoldsLive id₁ d₁.object c ∧
        ∀ key r, key ≠ (court, path) → st.capsByKey.lookup key ≠ some (c, r) := by
      by_cases hkey : (court₁, path₁) = (court, path)
      · obtain ⟨rfl, rfl⟩ := Prod.mk.inj hkey
        rw [List.count_append, List.count_singleton_self] at htwo
        exact hf.listed_once hg h hu hid₁ hd₁ (List.count_pos_iff.1 (by omega))
      · rw [List.count_append, List.count_singleton, beq_eq_false_iff_ne.2 (Ne.symm hkey)] at htwo
        obtain ⟨c, hlive, hunlisted⟩ := hf.spare court₁ path₁ id₁ d₁ hid₁ hd₁ htwo
        exact ⟨c, hlive, fun key r _ => hunlisted key r⟩
    obtain ⟨hh, k, hk, ho, hrev⟩ := hlive
    refine ⟨c, ⟨(hkeep hh).1, k, (hkeep hh).2.trans hk, ho, hrev⟩, fun key r hcap => ?_⟩
    simp only [HashMap.lookup_insert_ite] at hcap
    split at hcap
    · exact hnew hh (Prod.mk.inj (Option.some.inj hcap)).1.symm
    · rename_i hne
      exact hunlisted key r hne hcap

/-- The state between two grants. -/
structure Granting (names paths : List String) (done : List (String × String)) (st : RootState) : Prop
    extends Built names paths st where
  live : st.root.Live
  granted : Granted done st
  forgets : Forgets done st
  unrevoked : Unrevoked st

theorem grantCap_spec (h : Granting names paths done st) {court path : String} {rights : Rights}
    (hcourt : court ∈ names) (hpath : path ∈ paths) :
    wp (grantCap court path rights)
      (fun _ st' => HostedRoot.rootRights.contains rights = true ∧
        Granting names paths (done ++ [(court, path)]) st')
      (fun e _ => e = CkError.noRight.display ∧ HostedRoot.rootRights.contains rights = false) st := by
  have hl := h.live
  obtain ⟨id, hid, hrun⟩ := h.running hl hcourt
  obtain ⟨d, hd⟩ := Finmap.mem_iff.1 ((h.described path).2 hpath)
  obtain ⟨entry, hentry, -⟩ := hrun
  have hanswer := hl.grant_eq h.wf (Finmap.mem_of_lookup_eq_some hentry) (h.object_mem hd) rights
  simp only [grantCap, wp_bind, wp_get, wp_expect, hid, hd, wp_callRoot, wp_modify, wp_pure,
    Option.some.injEq, forall_eq', reduceCtorEq, false_imp_iff, and_true]
  refine ⟨fun cap hcap => ?_, fun e he => ?_⟩
  · have hb := h.toBuilt.call (c := .grantCorridorCap id d rights) rfl
    have heffect := HostedRoot.grantCorridorCap_effect (s := st.root) id d rights
    simp only [HostedRoot.call] at hb
    rw [hcap] at heffect hanswer
    generalize (st.root.grantCorridorCap id d rights).2 = root' at heffect hb ⊢
    cases heffect with
    | granted _ _ hroot hdel =>
      refine ⟨?_, hb.congr rfl rfl rfl, (hl.capAdded h.wf hdel).push _,
        h.granted.grant h.toBased hid hd hroot hdel,
        h.forgets.grant h.granted h.toBased h.unrevoked hid hd hroot hdel, h.unrevoked.grant hdel⟩
      by_contra hno
      rw [if_neg hno] at hanswer
      cases hanswer
  · rw [he] at hanswer
    split at hanswer
    · cases hanswer
    · rename_i hno
      obtain rfl := Except.error.inj hanswer
      exact ⟨rfl, by simpa using hno⟩

/-! ## Revocations -/

/-- The capabilities that the table has for these pairs are revoked. -/
def RevokedFor (gone : List (String × String)) (st : RootState) : Prop :=
  ∀ key ∈ gone, ∃ cap rights, st.capsByKey.lookup key = some (cap, rights) ∧
    st.root.capRegistry.Revoked cap

/-- A capability that the table does not list survives every revocation. -/
theorem Forgets.revoke (hf : Forgets done st) (h : Based st) {key : String × String} {cap : CapId}
    {rights : Rights} (hcap : st.capsByKey.lookup key = some (cap, rights)) {e : TraceEvent}
    {g : CapRegistry} (hmarked : CapRegistry.SubtreeMarked st.root.capRegistry cap g) :
    Forgets done { st with root := HostedRoot.push { st.root with capRegistry := g } e } := by
  obtain ⟨id₀, -, -, -, -, hh₀, -, -⟩ := hf.listed key.1 key.2 cap rights hcap
  refine ⟨fun court path c r hc => ?_, fun court path id d hid hd htwo => ?_⟩
  · obtain ⟨id, d, k, hid, hd, hh, hk, ho⟩ := hf.listed court path c r hc
    obtain ⟨k', hk', ho', -⟩ := hmarked.grows.keep c k hk
    exact ⟨id, d, k', hid, hd, hh, hk', ho'.trans ho⟩
  · obtain ⟨c, ⟨hh, k, hk, ho, hrev⟩, hunlisted⟩ := hf.spare court path id d hid hd htwo
    have hne : cap ≠ c := by
      rintro rfl
      exact hunlisted key rights hcap
    refine ⟨c, ⟨hh, k, ?_, ho, hrev⟩, hunlisted⟩
    exact (hmarked.other c (h.wf.not_onChain hh₀ hh hne)).trans hk

theorem revokeCap_spec (h : Built names paths st) (hg : Granted done st) (hf : Forgets done st)
    {gone : List (String × String)} (hr : RevokedFor gone st) {revoke : RevokePolicy}
    (hkey : (revoke.court, revoke.path) ∈ done) :
    wp (revokeCap revoke)
      (fun _ st' => Built names paths st' ∧ Granted done st' ∧ Forgets done st' ∧
        RevokedFor (gone ++ [(revoke.court, revoke.path)]) st')
      (fun _ _ => False) st := by
  obtain ⟨cap, rights, hcap, hmem⟩ := hg.keys _ hkey
  obtain ⟨-, hmarked⟩ := CapRegistry.revoke_spec h.wf.registry hmem
  have hb := h.call (c := .revoke cap) rfl
  simp only [revokeCap, wp_bind, wp_get, wp_expect, hcap, wp_callRoot, wp_pure,
    Option.some.injEq, forall_eq', reduceCtorEq, false_imp_iff, and_true]
  simp only [HostedRoot.call, HostedRoot.revoke_eq hmem] at hb ⊢
  refine ⟨fun _ _ => ⟨hb, ⟨fun court id path d c k hid hd hh hk ho => ?_, fun key hkey => ?_⟩,
    hf.revoke h.toBased hcap hmarked, ?_⟩, fun e he => by cases he⟩
  · obtain ⟨k₀, hk₀, he⟩ := hmarked.lookup_some hk
    have ho₀ : k₀.object = d.object := by
      rcases he with rfl | rfl <;> exact ho
    exact hg.held court id path d c k₀ hid hd hh hk₀ ho₀
  · obtain ⟨c, r, hc, hcmem⟩ := hg.keys key hkey
    exact ⟨c, r, hc, (hmarked.mem c).2 hcmem⟩
  · intro key hkey
    rw [List.mem_append, List.mem_singleton] at hkey
    rcases hkey with hkey | rfl
    · obtain ⟨c, r, hc, hrev⟩ := hr key hkey
      exact ⟨c, r, hc, hmarked.grows.revoked hrev⟩
    · exact ⟨cap, rights, hcap, (hmarked.revoked_iff cap).2 (Or.inr ⟨hmem, .refl⟩)⟩

/-! ## Faults -/

theorem faultCourt_spec (h : Built names paths st) {fault : FaultPolicy}
    (hcourt : fault.court ∈ names) :
    wp (faultCourt fault) (fun _ st' => Built names paths st') (fun _ _ => False) st := by
  obtain ⟨id, hid⟩ := Finmap.mem_iff.1 ((h.known fault.court).2 hcourt)
  obtain ⟨entry, hentry, -⟩ := (h.courts fault.court id).1 hid
  have hb := h.call (c := .faultCourt id) rfl
  simp only [faultCourt, wp_bind, wp_get, wp_expect, hid, wp_callRoot,
    Option.some.injEq, forall_eq', reduceCtorEq, false_imp_iff, and_true]
  simp only [HostedRoot.call] at hb
  refine ⟨fun _ _ => hb, fun e he => ?_⟩
  simp only [HostedRoot.faultCourt, hentry] at he
  cases he

/-! ## Loops -/

/-- Root capabilities have every right but two. -/
theorem rootRights_parseRight {value : String} {right : Rights} (h : parseRight value = .ok right) :
    HostedRoot.rootRights.contains right = true ↔ value ≠ "read" ∧ value ≠ "write" := by
  unfold parseRight at h
  split at h
  · rename_i hvalue
    obtain rfl := Except.ok.inj h
    simp only [hvalue, ne_eq, not_true, false_and, iff_false]
    decide
  split at h
  · rename_i hvalue
    obtain rfl := Except.ok.inj h
    simp only [hvalue, ne_eq, not_true, and_false, iff_false]
    decide
  · rename_i hread hwrite
    refine iff_of_true ?_ ⟨hread, hwrite⟩
    split at h
    · obtain rfl := Except.ok.inj h
      decide
    split at h
    · obtain rfl := Except.ok.inj h
      decide
    split at h
    · obtain rfl := Except.ok.inj h
      decide
    split at h
    · obtain rfl := Except.ok.inj h
      decide
    split at h
    · obtain rfl := Except.ok.inj h
      decide
    · cases h

/-- Rights that a root capability covers: those without `read` and `write`. -/
theorem rootRights_parseRights {values : List String} {rights : Rights}
    (h : parseRights values = .ok rights) :
    HostedRoot.rootRights.contains rights = true ↔ "read" ∉ values ∧ "write" ∉ values := by
  -- what is collected so far counts as well
  suffices hfold : ∀ (values : List String) (start rights : Rights),
      values.foldlM (fun rights value => do
        let right ← parseRight value
        return rights ||| right) start = .ok rights →
      (HostedRoot.rootRights.contains rights = true ↔
        HostedRoot.rootRights.contains start = true ∧ "read" ∉ values ∧ "write" ∉ values) by
    rw [hfold values .NONE rights h]
    exact and_iff_right (by decide)
  intro values
  induction values with
  | nil =>
    intro start rights hfold
    rw [foldlM_nil_eq_ok] at hfold
    simp [hfold]
  | cons value values ih =>
    intro start rights hfold
    obtain ⟨next, hnext, hfold⟩ := foldlM_cons_eq_ok.1 hfold
    obtain ⟨right, hright, hor⟩ := bind_eq_ok.1 hnext
    rw [pure_eq_ok.1 hor] at hfold
    rw [ih _ rights hfold, Rights.contains_or, rootRights_parseRight hright, List.mem_cons, List.mem_cons,
      not_or, not_or, ne_comm (a := value), ne_comm (a := value)]
    tauto

variable {manifest : ManifestFile} {policy : PolicyFile}

/-- The resolved grants are those of the policy, in order. -/
theorem statePolicyGrants_spec {grants : List ResolvedGrant}
    (h : statePolicyGrants policy = .ok grants) :
    grants.map (fun grant => (grant.court, grant.path)) = policy.grantKeys ∧
      ∀ grant, grant ∈ grants ↔ ∃ entry ∈ policy.grants, entry.court = grant.court ∧
        entry.path = grant.path ∧ parseRights entry.rights = .ok grant.rights := by
  have hall := forall₂_of_mapM_eq_ok h
  unfold PolicyFile.grantKeys
  generalize policy.grants = entries at hall
  clear h
  induction hall with
  | nil => simp
  | @cons entry grant entries grants hentry _ ih =>
    obtain ⟨rights, hrights, hgrant⟩ := bind_eq_ok.1 hentry
    obtain rfl := pure_eq_ok.1 hgrant
    refine ⟨by rw [List.map_cons, List.map_cons, ih.1], fun g => ?_⟩
    rw [List.mem_cons, ih.2, List.exists_mem_cons_iff]
    refine or_congr ⟨?_, ?_⟩ Iff.rfl
    · rintro rfl
      exact ⟨rfl, rfl, hrights⟩
    · rintro ⟨hcourt, hpath, hsame⟩
      rw [hrights] at hsame
      obtain ⟨court, path, rights'⟩ := g
      obtain rfl := Except.ok.inj hsame
      obtain rfl := hcourt
      obtain rfl := hpath
      rfl

/-- A grant that no corridor can give. -/
def Unmet (grant : GrantPolicy) : Prop := "read" ∈ grant.rights ∨ "write" ∈ grant.rights

theorem planGrants_spec (hv : Valid manifest policy)
    (h : Built manifest.courtNames manifest.paths st) (hb : st.root.Bare) (hkeys : st.capsByKey = ∅) :
    wp (planGrants policy)
      (fun _ st' => (∀ grant ∈ policy.grants, ¬ Unmet grant) ∧
        Granting manifest.courtNames manifest.paths policy.grantKeys st')
      (fun e _ => e = CkError.noRight.display ∧ ∃ grant ∈ policy.grants, Unmet grant) st := by
  obtain ⟨grants, hgrants⟩ : ∃ grants, statePolicyGrants policy = .ok grants := by
    refine exists_mapM_eq_ok fun grant hmem => ?_
    obtain ⟨rights, hrights⟩ := (hv.grants.2 grant hmem).known
    exact ⟨_, bind_eq_ok.2 ⟨rights, hrights, rfl⟩⟩
  obtain ⟨hlist, hentries⟩ := statePolicyGrants_spec hgrants
  rw [planGrants, wp_bind, hgrants, wp_ofExcept]
  refine ⟨fun grants' he => ?_, fun e he => by cases he⟩
  obtain rfl := Except.ok.inj he
  -- the grants carried out so far were all met
  refine wp_mono (wp_forM (I := fun (done : List ResolvedGrant) st =>
    (∀ grant ∈ done, HostedRoot.rootRights.contains grant.rights = true) ∧
      Granting manifest.courtNames manifest.paths (done.map fun grant => (grant.court, grant.path)) st)
    ⟨fun _ hmem => absurd hmem List.not_mem_nil, h, hb.toLive, granted_nil hb, forgets_nil hkeys,
      unrevoked_of_bare hb h.wf⟩ fun done grant rest hsplit st hI => ?_)
    (fun _ _ hI => ⟨fun entry hmem hunmet => ?_, hlist ▸ hI.2⟩) fun _ _ he => he
  · obtain ⟨entry, hmem, hcourt, hpath, hrights⟩ := (hentries grant).1 (by
      rw [hsplit]
      exact List.mem_append_right _ List.mem_cons_self)
    have hvalid := hv.grants.2 entry hmem
    rw [List.map_append, wp_bind]
    refine wp_mono (grantCap_spec hI.2 (hcourt ▸ hvalid.court) (hpath ▸ hvalid.path))
      (fun _ _ hI' => (wp_pure _).2 ⟨fun g hg => ?_, hI'.2⟩) fun _ _ he => ⟨he.1, entry, hmem, ?_⟩
    · rw [List.mem_append, List.mem_singleton] at hg
      rcases hg with hg | rfl
      · exact hI.1 g hg
      · exact hI'.1
    · by_contra hmet
      rw [Unmet, not_or] at hmet
      rw [(rootRights_parseRights hrights).2 hmet] at he
      cases he.2
  · obtain ⟨rights, hrights⟩ := (hv.grants.2 entry hmem).known
    have hmet := hI.1 ⟨entry.court, entry.path, rights⟩
      ((hentries _).2 ⟨entry, hmem, rfl, rfl, hrights⟩)
    obtain ⟨hread, hwrite⟩ := (rootRights_parseRights hrights).1 hmet
    exact hunmet.elim hread hwrite

theorem planRevokes_spec (hv : Valid manifest policy)
    (h : Built manifest.courtNames manifest.paths st) (hg : Granted policy.grantKeys st)
    (hf : Forgets policy.grantKeys st) :
    wp (planRevokes policy)
      (fun _ st' => Built manifest.courtNames manifest.paths st' ∧ Granted policy.grantKeys st' ∧
        Forgets policy.grantKeys st' ∧
        RevokedFor (policy.revokes.map fun revoke => (revoke.court, revoke.path)) st')
      (fun _ _ => False) st := by
  refine wp_forM (I := fun (done : List RevokePolicy) st =>
    Built manifest.courtNames manifest.paths st ∧ Granted policy.grantKeys st ∧
      Forgets policy.grantKeys st ∧
      RevokedFor (done.map fun revoke => (revoke.court, revoke.path)) st)
    ⟨h, hg, hf, fun _ hkey => by cases hkey⟩ fun done revoke rest hlist st hI => ?_
  have hmem : revoke ∈ policy.revokes := by
    rw [hlist]
    exact List.mem_append_right _ List.mem_cons_self
  rw [List.map_append, wp_bind]
  exact wp_mono (revokeCap_spec hI.1 hI.2.1 hI.2.2.1 hI.2.2.2 (hv.revokes revoke hmem).2.2.1)
    (fun _ _ hI' => (wp_pure _).2 hI') fun _ _ he => he

theorem planFaults_spec (hv : Valid manifest policy)
    (h : Built manifest.courtNames manifest.paths st) :
    wp (planFaults policy) (fun _ st' => Built manifest.courtNames manifest.paths st')
      (fun _ _ => False) st := by
  refine wp_forM (I := fun _ st => Built manifest.courtNames manifest.paths st) h
    fun done fault rest hlist st hI => faultCourt_spec hI (hv.faults fault ?_).1
  rw [hlist]
  exact List.mem_append_right _ List.mem_cons_self

/-! ## Whole plans -/

/-- After the revocations, what a court holds for a corridor is revoked, if the pair was granted
once. -/
theorem Granted.revoked (hg : Granted done st) {gone : List (String × String)}
    (hr : RevokedFor gone st) {court path : String} (hmem : (court, path) ∈ gone)
    (hone : done.count (court, path) = 1) {id : CourtId} {d : Descriptor}
    (hid : st.courtIds.lookup court = some id) (hd : st.descriptors.lookup path = some d)
    {cap : CapId} {k : Capability} (hh : st.root.Holds id cap)
    (hk : st.root.capRegistry.caps.lookup cap = some k) (ho : k.object = d.object) :
    k.revoked = true := by
  obtain ⟨rights, hkey⟩ := (hg.held court id path d cap k hid hd hh hk ho).2 hone
  obtain ⟨cap', rights', hkey', k', hk', hrev⟩ := hr _ hmem
  rw [hkey] at hkey'
  obtain ⟨rfl, -⟩ := Prod.mk.inj (Option.some.inj hkey')
  rw [hk] at hk'
  rw [Option.some.inj hk']
  exact hrev

theorem planUntilFaults_spec (hv : Valid manifest policy) :
    wp (planUntilFaults manifest policy)
      (fun _ st' => (∀ grant ∈ policy.grants, ¬ Unmet grant) ∧
        Built manifest.courtNames manifest.paths st' ∧ Granted policy.grantKeys st' ∧
        Forgets policy.grantKeys st' ∧
        RevokedFor (policy.revokes.map fun revoke => (revoke.court, revoke.path)) st')
      (fun e _ => e = CkError.noRight.display ∧ ∃ grant ∈ policy.grants, Unmet grant)
      (RootState.new policy) := by
  rw [planUntilFaults, wp_bind]
  refine wp_mono (wp_and (planBuild_spec hv (built_new policy) HostedRoot.bare_new)
    (planBuild_apart manifest _)) (fun _ st₁ h₁ => ?_) fun _ _ he => he.1.elim
  obtain ⟨⟨hbuilt, hbare⟩, hapart⟩ := h₁
  rw [wp_bind]
  refine wp_mono (planGrants_spec hv hbuilt hbare hapart.capsByKey) (fun _ st₂ h₂ => ?_) fun _ _ he => he
  obtain ⟨hmet, hgranting⟩ := h₂
  exact wp_mono (planRevokes_spec hv hgranting.toBuilt hgranting.granted hgranting.forgets)
    (fun _ _ h₃ => ⟨hmet, h₃⟩) fun _ _ he => he.elim

/-- No capability of the court for the corridor of the path is left that works. -/
def RevokedIn (st : RootState) (court path : String) : Prop :=
  ∃ id o, (∀ id', st.root.NamedBy id' court ↔ id' = id) ∧
    (∀ o', st.root.CreatedFor path o' ↔ o' = o) ∧
    (∀ cap k, st.root.Holds id cap → st.root.capRegistry.caps.lookup cap = some k →
      k.object = o → k.revoked = true) ∧
    (∀ d cap rights c, d.object = o → (st.root.open id d cap rights).1 ≠ .ok c) ∧
    ∀ cap, st.root.Names cap o →
      (∀ payload, (st.root.send id cap payload).1 ≠ .ok ()) ∧
      ∀ payload, (st.root.recv id cap).1 ≠ .ok payload

/-- **Revocations are complete** for exactly those pairs that the policy grants once: in the object model
that the runner has built, granted from and revoked in, no capability of the court for the corridor is
left that works.  Of a pair granted more often, an earlier capability stays. -/
theorem policy_revocation_complete (hv : validate manifest policy = .ok ())
    (hrun : planUntilFaults manifest policy (.new policy) = .ok () st) :
    ∀ revoke ∈ policy.revokes, RevokedIn st revoke.court revoke.path ↔
      policy.grantKeys.count (revoke.court, revoke.path) = 1 := by
  have hvalid := validate_eq_ok.1 hv
  obtain ⟨-, hbuilt, hgranted, hforgets, hrevoked⟩ := wp_ok (planUntilFaults_spec hvalid) hrun
  intro revoke hmem
  obtain ⟨hcourt, hpath, hkey, -⟩ := hvalid.revokes revoke hmem
  obtain ⟨id, hid⟩ := Finmap.mem_iff.1 ((hbuilt.known _).2 hcourt)
  obtain ⟨d, hd⟩ := Finmap.mem_iff.1 ((hbuilt.described _).2 hpath)
  constructor
  · rintro ⟨id', o, hid', ho, hall, -⟩
    by_contra hcount
    have hpos := List.count_pos_iff.2 hkey
    obtain ⟨cap, ⟨hh, k, hk, hobj, hlive⟩, -⟩ := hforgets.spare _ _ id d hid hd (by omega)
    obtain rfl := (hid' id).1 ((hbuilt.courts _ _).1 hid)
    obtain rfl := (ho d.object).1 ((hbuilt.object _ d hd _).2 rfl)
    rw [hall cap k hh hk hobj] at hlive
    cases hlive
  intro hone
  have hgone : ∀ cap k, st.root.Holds id cap → st.root.capRegistry.caps.lookup cap = some k →
      k.object = d.object → k.revoked = true := fun cap k hh hk ho =>
    hgranted.revoked hrevoked (List.mem_map_of_mem hmem) hone hid hd hh hk ho
  -- whatever is authorized for the corridor is a capability that is not revoked
  have hno : ∀ cap t right o, st.root.Holds id cap →
      st.root.capRegistry.authorize cap t right = .ok o → o ≠ d.object := by
    intro cap t right o hh ha ho
    obtain ⟨k, hk, hrev, -, -, hobj⟩ := CapRegistry.authorize_ok.1 ha
    rw [hgone cap k hh hk (hobj.trans ho)] at hrev
    cases hrev
  refine ⟨id, d.object, fun id' => ?_, hbuilt.object _ d hd, hgone, fun d' cap rights c ho hopen => ?_,
    fun cap hnames => ⟨fun payload hsend => ?_, fun payload hrecv => ?_⟩⟩
  · rw [← hbuilt.courts, hid, Option.some.injEq, eq_comm]
  · obtain ⟨-, -, hh, ha⟩ := HostedRoot.open_ok hopen
    exact hno c _ rights _ hh ha ho
  · rcases hbuilt.wf.send_cases id cap payload with ⟨e, -, hs⟩ | ⟨o, k, hp, -, -⟩
    · rw [hs] at hsend
      cases hsend
    · obtain ⟨-, hh, ha⟩ := HostedRoot.permit_ok.1 hp
      exact hno cap _ _ o hh ha ((HostedRoot.names_of_permit hp).1 hnames).symm
  · rcases hbuilt.wf.recv_cases id cap with ⟨e, -, hs⟩ | ⟨o, k, hp, -, -⟩
    · rw [hs] at hrecv
      cases hrecv
    · obtain ⟨-, hh, ha⟩ := HostedRoot.permit_ok.1 hp
      exact hno cap _ _ o hh ha ((HostedRoot.names_of_permit hp).1 hnames).symm

/-- The packet-rx demo after its revocation. -/
@[irreducible] def packetRxRevoked : RootState :=
  stateOf (planUntilFaults .builtinPacketRx .builtinPacketRx (.new .builtinPacketRx))

theorem policy_revocation_complete_packet_rx :
    ∃ id o, packetRxRevoked.root.NamedBy id "app" ∧
      packetRxRevoked.root.CreatedFor "/court/net0/packet/rx" o ∧
      ∀ d cap rights c, d.object = o → (packetRxRevoked.root.open id d cap rights).1 ≠ .ok c := by
  have hrun : planUntilFaults .builtinPacketRx .builtinPacketRx (.new .builtinPacketRx) =
      .ok () packetRxRevoked := by
    unfold packetRxRevoked
    exact eq_ok_of_resultOf (by decide +kernel)
  obtain ⟨id, o, hid, ho, -, hopen, -⟩ := (policy_revocation_complete (by decide) hrun
    ⟨"app", "/court/net0/packet/rx", "recv"⟩ (by decide)).2 (by decide)
  exact ⟨id, o, (hid id).2 rfl, (ho o).2 rfl, hopen⟩

/-- The packet-rx policy with the grant of `app` given twice. -/
def grantedTwice : PolicyFile :=
  { PolicyFile.builtinPacketRx with
    grants := PolicyFile.builtinPacketRx.grants ++
      [⟨"app", "/court/net0/packet/rx", ["send", "observe"]⟩] }

/-- The table has the second capability of `app` only: the first one is not revoked, and `app` goes
on sending with it. -/
theorem second_grant_survives :
    validate .builtinPacketRx grantedTwice = .ok () ∧
      ∃ st, planUntilFaults .builtinPacketRx grantedTwice (.new grantedTwice) = .ok () st ∧
        (st.root.open ⟨1⟩ HostedRoot.packetRx (some ⟨3⟩) .SEND).1 = .ok ⟨3⟩ ∧
        (st.root.send ⟨1⟩ ⟨3⟩ [7]).1 = .ok () :=
  ⟨by decide, _, eq_ok_of_resultOf (by decide +kernel), by decide +kernel, by decide +kernel⟩

/-- **A validated plan goes through** exactly if no grant asks for `read` or `write`; otherwise it stops
at such a grant, for the right that is missing. -/
theorem validated_plan_runs (hv : validate manifest policy = .ok ()) :
    ((∀ grant ∈ policy.grants, "read" ∉ grant.rights ∧ "write" ∉ grant.rights) →
      ∃ st, plan manifest policy (.new policy) = .ok () st) ∧
    ((∃ grant ∈ policy.grants, "read" ∈ grant.rights ∨ "write" ∈ grant.rights) →
      ∃ st, plan manifest policy (.new policy) = .error CkError.noRight.display st) := by
  have hvalid := validate_eq_ok.1 hv
  have hspec : wp (plan manifest policy) (fun _ _ => ∀ grant ∈ policy.grants, ¬ Unmet grant)
      (fun e _ => e = CkError.noRight.display ∧ ∃ grant ∈ policy.grants, Unmet grant)
      (RootState.new policy) := by
    rw [plan, wp_bind]
    refine wp_mono (planUntilFaults_spec hvalid) (fun _ st₁ h₁ => ?_) fun _ _ he => he
    exact wp_mono (planFaults_spec hvalid h₁.2.1) (fun _ _ _ => h₁.1) fun _ _ he => he.elim
  cases hx : plan manifest policy (.new policy) with
  | ok u st =>
    have hmet := wp_ok hspec hx
    exact ⟨fun _ => ⟨st, rfl⟩, fun ⟨grant, hmem, hunmet⟩ => absurd hunmet (hmet grant hmem)⟩
  | error e st =>
    obtain ⟨rfl, grant, hmem, hunmet⟩ := wp_error hspec hx
    exact ⟨fun hmet => absurd hunmet (not_or.2 (hmet grant hmem)), fun _ => ⟨st, rfl⟩⟩

theorem validated_plan_runs_packet_rx :
    ∃ st, plan .builtinPacketRx .builtinPacketRx (.new .builtinPacketRx) = .ok () st :=
  (validated_plan_runs (by decide)).1 (by decide)

/-- The packet-rx policy with `read` for `app`. -/
def grantsRead : PolicyFile :=
  { PolicyFile.builtinPacketRx with
    grants := [⟨"net0", "/court/net0/packet/rx", ["recv", "observe"]⟩,
      ⟨"app", "/court/net0/packet/rx", ["send", "read"]⟩] }

/-- The validator knows the right, and the object model refuses to grant it. -/
theorem read_grant_fails :
    validate .builtinPacketRx grantsRead = .ok () ∧
      ∃ st, plan .builtinPacketRx grantsRead (.new grantsRead) = .error "missing right" st :=
  ⟨by decide, _, eq_error_of_resultOf (by decide +kernel)⟩

end RootState

end CourtKernel
