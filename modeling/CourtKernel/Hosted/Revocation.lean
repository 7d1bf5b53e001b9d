import CourtKernel.Hosted.Invariant

/-!
# Revocation is final

Once `revoke c` has succeeded, the derivation subtree of `c` is dead for good: no later operation
revives a capability below `c`, delegates from it, or adds a capability to the subtree.

* `Wf.chain_call` — under a revoked capability one more registry operation changes no chain: the
  parent of a fresh capability is live, and everything below a revoked capability is revoked.
* `run_registry` — the registry of a hosted run is a registry run, so the registry result lifts.
* `revocation_final` — both levels.
-/

namespace CourtKernel

namespace CapRegistry

variable {g g' : CapRegistry} {c d : CapId}

/-- Below a key other than the fresh one, registering a capability changes no chain. -/
theorem Wf.chain_of_register (h : g.Wf) {k : Capability} {a : CapId}
    (hchain : (g.register k).ChainThrough a d) (hd : d ≠ ⟨g.nextCap + 1⟩) : g.ChainThrough a d := by
  refine hchain.restrict (S := fun d => d ≠ ⟨g.nextCap + 1⟩) ?_ ?_ hd
  · rintro x p hx hp rfl
    rw [parentOf_register, if_neg hx] at hp
    exact h.fresh (h.parent x _ hp).1
  · intro x hx
    rw [parentOf_register, if_neg hx]

/-- A capability registered without a parent, or with a live one, is not below a revoked one. -/
theorem Wf.not_chain_fresh (h : g.Wf) (hc : g.Revoked c) {k : Capability}
    (hp : ∀ p, k.parent = some p → p ∈ g.caps ∧ ¬ g.Revoked p) :
    ¬ (g.register k).ChainThrough c ⟨g.nextCap + 1⟩ := by
  intro hchain
  cases hchain with
  | refl =>
    obtain ⟨k, hk, -⟩ := hc
    exact h.fresh (Finmap.mem_of_lookup_eq_some hk)
  | @up _ p hpar hrest =>
    rw [parentOf_register, if_pos rfl] at hpar
    obtain ⟨hreg, hlive⟩ := hp p hpar
    have hne : p ≠ ⟨g.nextCap + 1⟩ := fun he => h.fresh (he ▸ hreg)
    exact hlive (h.revoked_below hc (h.chain_of_register hrest hne))

theorem Grows.chain (hg : Grows g g') (hd : g.ChainThrough c d) : g'.ChainThrough c d :=
  hd.mono fun x p hp => by rw [hg.parentOf (mem_caps_of_parentOf hp)]; exact hp

theorem Wf.chain_register (h : g.Wf) (hc : g.Revoked c) {k : Capability}
    (hp : ∀ p, k.parent = some p → p ∈ g.caps ∧ ¬ g.Revoked p) :
    (g.register k).ChainThrough c d ↔ g.ChainThrough c d := by
  refine ⟨fun hd => ?_, (grows_register h k).chain⟩
  by_cases he : d = ⟨g.nextCap + 1⟩
  · subst he
    exact absurd hd (h.not_chain_fresh hc hp)
  · exact h.chain_of_register hd he

/-- One operation changes no chain through a revoked capability. -/
theorem Wf.chain_call (h : g.Wf) (hc : g.Revoked c) (op : Call) :
    (g.call op).2.ChainThrough c d ↔ g.ChainThrough c d := by
  cases op with
  | mintRoot o t r =>
    simp only [CapRegistry.call, mintRoot_eq]
    exact h.chain_register hc (by simp)
  | delegate p r =>
    simp only [CapRegistry.call]
    rcases hd : g.delegate p r with ⟨e | c', g'⟩
    · rw [delegate_error hd]
    · obtain ⟨kp, hk, hlive, -, -, -, rfl⟩ := delegate_ok hd
      refine h.chain_register hc (k := derived p kp r) fun q hq => ?_
      obtain rfl := Option.some.inj hq
      refine ⟨Finmap.mem_of_lookup_eq_some hk, ?_⟩
      rintro ⟨k', hk', hrev⟩
      rw [hk] at hk'
      obtain rfl := Option.some.inj hk'
      rw [hlive] at hrev; cases hrev
  | revoke c' =>
    simp only [CapRegistry.call]
    by_cases hc' : c' ∈ g.caps
    · have hm := (revoke_spec h hc').2
      have hpar : (g.revoke c').2.parentOf = g.parentOf := funext hm.parentOf
      rw [ChainThrough, ChainThrough, hpar]
    · rw [revoke_unregistered hc']

theorem Wf.chain_run (h : g.Wf) (hc : g.Revoked c) (ops : List Call) :
    (machine.run g ops).ChainThrough c d ↔ g.ChainThrough c d := by
  induction ops generalizing g with
  | nil => rfl
  | cons op ops ih =>
    rw [Machine.run_cons]
    exact (ih (h.call op) ((h.grows op).revoked hc)).trans (h.chain_call hc op)

/-- What a successful revocation leaves behind, after any further operations. -/
theorem Wf.revoke_run (h : g.Wf) (hc : (g.revoke c).1 = .ok ()) (ops : List Call) :
    (∀ d, (machine.run (g.revoke c).2 ops).ChainThrough c d ↔ g.ChainThrough c d) ∧
    ∀ d, g.ChainThrough c d → d ∈ g.caps ∧ (machine.run (g.revoke c).2 ops).Revoked d := by
  have hreg : c ∈ g.caps := revoke_ok_iff.1 hc
  have hm := (revoke_spec h hreg).2
  have hpar : (g.revoke c).2.parentOf = g.parentOf := funext hm.parentOf
  have hrev : (g.revoke c).2.Revoked c := (hm.revoked_iff c).2 (Or.inr ⟨hreg, .refl⟩)
  have hwf := hm.wf h
  refine ⟨fun d => ?_, fun d hd => ?_⟩
  · rw [hwf.chain_run hrev, ChainThrough, ChainThrough, hpar]
  · have hd' : d ∈ g.caps := by
      cases hd with
      | refl => exact hreg
      | up hp _ => exact mem_caps_of_parentOf hp
    exact ⟨hd', (hwf.grows_run ops).revoked ((hm.revoked_iff d).2 (Or.inr ⟨hd', hd⟩))⟩

end CapRegistry

/-! ## Hosted runs -/

namespace HostedRoot

variable {s s' : HostedRoot}

/-- A public call performs at most one registry operation. -/
theorem Effect.registry {c : Call} {r : Reply} (he : Effect s c r s') :
    ∃ ops, s'.capRegistry = CapRegistry.machine.run s.capRegistry ops := by
  cases he with
  | corridorCreated _ _ =>
    exact ⟨[.mintRoot ⟨s.nextObject + 1⟩ .corridor rootRights], rfl⟩
  | @granted _ _ rights root _ _ _ _ _ hd =>
    refine ⟨[.delegate root rights], ?_⟩
    show _ = (s.capRegistry.delegate root rights).2
    rw [hd]; rfl
  | @revoked cap _ => exact ⟨[.revoke cap], rfl⟩
  | _ => exact ⟨[], rfl⟩

theorem run_registry (s : HostedRoot) (cs : List Call) :
    ∃ ops, (machine.run s cs).capRegistry = CapRegistry.machine.run s.capRegistry ops := by
  induction cs generalizing s with
  | nil => exact ⟨[], rfl⟩
  | cons c cs ih =>
    obtain ⟨ops₁, h₁⟩ := (step_effect s c).registry
    obtain ⟨ops₂, h₂⟩ := ih (machine.step s c).2
    exact ⟨ops₁ ++ ops₂, by rw [Machine.run_cons, h₂, h₁, Machine.run_append]⟩

/-- A successful revocation is the registry's, with the event recorded. -/
theorem revoke_ok {c : CapId} (h : (s.revoke c).1 = .ok ()) :
    (s.capRegistry.revoke c).1 = .ok () ∧
      (s.revoke c).2.capRegistry = (s.capRegistry.revoke c).2 ∧
      (s.revoke c).2.rootCaps = s.rootCaps := by
  unfold revoke at h ⊢
  rcases hr : s.capRegistry.revoke c with ⟨e | ⟨⟨⟩⟩, g⟩
  · rw [hr] at h; cases h
  · exact ⟨rfl, rfl, rfl⟩

theorem permit_revoked {court : CourtId} {cap : CapId} {right : Rights} {o : ObjectId}
    (h : s.capRegistry.Revoked cap) : s.permit court cap right ≠ .ok o := by
  intro ha
  rw [permit_ok, CapRegistry.authorize_revoked h] at ha
  cases ha.2.2

/-- A revoked capability opens nothing and carries no message. -/
theorem revoked_unusable {cap : CapId} (h : s.capRegistry.Revoked cap) :
    (∀ court desc rights k, (s.open court desc (some cap) rights).1 ≠ .ok k) ∧
    (∀ court payload, (s.send court cap payload).1 ≠ .ok ()) ∧
    ∀ court payload, (s.recv court cap).1 ≠ .ok payload := by
  refine ⟨fun court desc rights k hok => ?_, fun court payload hok => ?_, fun court payload hok => ?_⟩
  · have he := open_effect (s := s) court desc (some cap) rights
    rw [hok] at he
    generalize (s.open court desc (some cap) rights).2 = s' at he
    cases he with
    | opened _ _ ha => rw [CapRegistry.authorize_revoked h] at ha; cases ha
  · have he := send_effect (s := s) court cap payload
    rw [hok] at he
    generalize (s.send court cap payload).2 = s' at he
    cases he with
    | sent ha _ _ _ => exact permit_revoked h ha
  · have he := recv_effect (s := s) court cap
    rw [hok] at he
    generalize (s.recv court cap).2 = s' at he
    cases he with
    | received ha _ _ => exact permit_revoked h ha

/-- A revoked root capability grants nothing. -/
theorem revoked_root_grants_nothing {o : ObjectId} {root : CapId}
    (hroot : s.rootCaps.lookup o = some root) (h : s.capRegistry.Revoked root) (court : CourtId)
    (desc : Descriptor) (rights : Rights) (k : CapId) (ho : desc.object = o) :
    (s.grantCorridorCap court desc rights).1 ≠ .ok k := by
  intro hok
  have he := grantCorridorCap_effect (s := s) court desc rights
  rw [hok] at he
  generalize (s.grantCorridorCap court desc rights).2 = s' at he
  cases he with
  | granted _ _ hroot' hd =>
    rw [ho, hroot] at hroot'
    obtain rfl := Option.some.inj hroot'
    rw [CapRegistry.delegate_revoked h] at hd
    cases (Prod.mk.inj hd).1

end HostedRoot

open HostedRoot (after) in
/-- **Revocation is final.**  First part, for registries: after `revoke c` succeeded in a registry
reached by any operations `cs`, and after any further operations `ds`, the capabilities whose
parent chain passes through `c` are those that were there at the revocation, and each of them
answers `Revoked` to every authorization and every delegation.  Second part, for the hosted Root
Court: after any further public calls none of them opens, sends or receives, and if `c` is the root
capability of a corridor, that corridor grants no capability any more. -/
theorem revocation_final :
    (∀ (cs ds : List CapRegistry.Call) (c : CapId),
      let g := CapRegistry.machine.run .new cs
      let g' := CapRegistry.machine.run (g.revoke c).2 ds
      (g.revoke c).1 = .ok () →
        (∀ d, g'.ChainThrough c d ↔ g.ChainThrough c d) ∧
        ∀ d, g.ChainThrough c d → d ∈ g.caps ∧
          (∀ t r, g'.authorize d t r = .error .revoked) ∧
          ∀ r, (g'.delegate d r).1 = .error .revoked) ∧
    ∀ (cs ds : List HostedRoot.Call) (c : CapId),
      let s := after cs
      let s' := HostedRoot.machine.run (s.revoke c).2 ds
      (s.revoke c).1 = .ok () →
        (∀ d, s'.capRegistry.ChainThrough c d ↔ s.capRegistry.ChainThrough c d) ∧
        (∀ d, s.capRegistry.ChainThrough c d → d ∈ s.capRegistry.caps ∧
          (∀ court desc rights k, (s'.open court desc (some d) rights).1 ≠ .ok k) ∧
          (∀ court payload, (s'.send court d payload).1 ≠ .ok ()) ∧
          ∀ court payload, (s'.recv court d).1 ≠ .ok payload) ∧
        ∀ o, s.rootCaps.lookup o = some c → ∀ court desc rights k, desc.object = o →
          (s'.grantCorridorCap court desc rights).1 ≠ .ok k := by
  constructor
  · intro cs ds c g g' hok
    have hwf : g.Wf := CapRegistry.Reachable.wf ⟨cs, rfl⟩
    obtain ⟨hchain, hrev⟩ := hwf.revoke_run hok ds
    refine ⟨hchain, fun d hd => ?_⟩
    obtain ⟨hreg, hd'⟩ := hrev d hd
    exact ⟨hreg, CapRegistry.authorize_revoked hd', fun r => by
      rw [CapRegistry.delegate_revoked hd']⟩
  · intro cs ds c s s' hok
    have hwf := HostedRoot.after_wf cs
    obtain ⟨hok', hreg, hroots⟩ := HostedRoot.revoke_ok hok
    -- the registry of the later run is a registry run from the registry's own `revoke`
    obtain ⟨ops, hops⟩ := HostedRoot.run_registry (s.revoke c).2 ds
    rw [hreg] at hops
    obtain ⟨hchain, hrev⟩ := hwf.registry.revoke_run hok' ops
    rw [← hops] at hchain hrev
    refine ⟨hchain, fun d hd => ?_, ?_⟩
    · obtain ⟨hmem, hd'⟩ := hrev d hd
      exact ⟨hmem, HostedRoot.revoked_unusable hd'⟩
    · intro o ho court desc rights k hdesc
      have hwf' : (s.revoke c).2.Wf := hwf.step (.revoke c)
      have hroot : s'.rootCaps.lookup o = some c :=
        (hwf'.persists_run ds).roots o c (by rw [hroots]; exact ho)
      exact HostedRoot.revoked_root_grants_nothing hroot (hrev c .refl).2 court desc rights k hdesc

open HostedRoot (after grantedAppAndNet) in
/-- A registry with a chain of two delegations, revoked at the root; and the fixture, where the
root capability of the corridor is revoked. -/
theorem revocation_final_fixture :
    (let g := CapRegistry.machine.run .new [.mintRoot ⟨1⟩ .corridor (.SEND ||| .DELEGATE),
        .delegate ⟨1⟩ (.SEND ||| .DELEGATE), .delegate ⟨2⟩ .SEND]
     (g.revoke ⟨1⟩).1 = .ok () ∧ (g.revoke ⟨1⟩).2.authorize ⟨3⟩ .corridor .SEND = .error .revoked) ∧
    let s := after grantedAppAndNet
    (s.revoke ⟨1⟩).1 = .ok () ∧
      ∀ court rights k, ((s.revoke ⟨1⟩).2.grantCorridorCap court HostedRoot.packetRx rights).1 ≠
        .ok k := by
  refine ⟨⟨by decide, ?_⟩, by decide, fun court rights k => ?_⟩
  · exact ((revocation_final.1 _ [] ⟨1⟩ (by decide)).2 ⟨3⟩
      (.up (p := ⟨2⟩) (by decide) (.up (p := ⟨1⟩) (by decide) .refl))).2.1 .corridor .SEND
  · exact (revocation_final.2 grantedAppAndNet [] ⟨1⟩ (by decide)).2.2 ⟨1⟩ (by decide) court _ rights
      k rfl

end CourtKernel
