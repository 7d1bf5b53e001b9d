import CourtKernel.Hosted.Derivation

/-!
# Delegation only attenuates

`CapRegistry.Wf` relates a capability to its parent.  Along whole parent chains this says:

* `Wf.exists_root` — every chain ends in a capability without a parent, and `minted_of_no_parent`:
  such a capability was made by `mint_root`.
* `Wf.rights_le` — a capability has the object and the type of its ancestors, and no right that one
  of them lacks.
* `Wf.delegates` — whoever has descendants may delegate.
* `derivation_forest` — all of it, with the child index and the revoked flags, for every sequence of
  operations.
-/

namespace CourtKernel

namespace CapRegistry

variable {g : CapRegistry}

/-- Every parent chain ends. -/
theorem Wf.exists_root (h : g.Wf) : ∀ (n : Nat) (d : CapId), d.raw = n → d ∈ g.caps →
    ∃ root ∈ g.caps, g.ChainThrough root d ∧ g.parentOf root = none := by
  intro n
  induction n using Nat.strongRecOn with
  | ind n ih =>
    rintro d rfl hd
    cases hp : g.parentOf d with
    | none => exact ⟨d, hd, .refl, hp⟩
    | some p =>
      obtain ⟨hmem, hlt⟩ := h.parent d p hp
      obtain ⟨root, hroot, hchain, hnone⟩ := ih p.raw hlt p rfl hmem
      exact ⟨root, hroot, .up hp hchain, hnone⟩

/-- The ancestors of a registered capability are registered. -/
theorem Wf.ancestor_mem (h : g.Wf) {a d : CapId} (hc : g.ChainThrough a d) (hd : d ∈ g.caps) :
    a ∈ g.caps := by
  induction hc with
  | refl => exact hd
  | up hp _ ih => exact ih (h.parent _ _ hp).1

/-- What a capability has in common with an ancestor. -/
theorem Wf.rights_le (h : g.Wf) {a d : CapId} (hc : g.ChainThrough a d) {ka : Capability}
    (ha : g.caps.lookup a = some ka) : ∀ {kd : Capability}, g.caps.lookup d = some kd →
      kd.object = ka.object ∧ kd.objectType = ka.objectType ∧
        ka.rights.contains kd.rights = true := by
  induction hc with
  | refl =>
    intro kd hd
    rw [ha] at hd
    obtain rfl := Option.some.inj hd
    exact ⟨rfl, rfl, Rights.contains_refl _⟩
  | @up d p hp _ ih =>
    intro kd hd
    obtain ⟨k, hk, hpar⟩ := parentOf_eq_some.1 hp
    rw [hd] at hk
    obtain rfl := Option.some.inj hk
    obtain ⟨kp, hkp⟩ := Finmap.mem_iff.1 (h.parent d p hp).1
    obtain ⟨ho, ht, hr, -⟩ := h.attenuates d p kd kp hd hpar hkp
    obtain ⟨ho', ht', hr'⟩ := ih hkp
    exact ⟨ho.trans ho', ht.trans ht', Rights.contains_trans hr' hr⟩

/-- Proper ancestors may delegate. -/
theorem Wf.delegates (h : g.Wf) {a d : CapId} (hc : g.ChainThrough a d) (hne : a ≠ d)
    {ka : Capability} (ha : g.caps.lookup a = some ka) : ka.rights.contains .DELEGATE = true := by
  induction hc with
  | refl => exact absurd rfl hne
  | @up d p hp hchain ih =>
    by_cases hap : a = p
    · subst hap
      obtain ⟨kd, hd, hpar⟩ := parentOf_eq_some.1 hp
      exact (h.attenuates d a kd ka hd hpar ha).2.2.2
    · exact ih hap

/-- The child index holds every child once. -/
theorem Wf.count_childrenOf (h : g.Wf) (p d : CapId) :
    (g.childrenOf p).count d = if g.parentOf d = some p then 1 else 0 := by
  split
  · rename_i hp
    exact List.count_eq_one_of_mem (h.nodup p) ((h.index p d).2 hp)
  · rename_i hp
    exact List.count_eq_zero.2 fun hd => hp ((h.index p d).1 hd)

/-- A capability without a parent was minted. -/
theorem minted_of_no_parent (cs : List Call) {d : CapId} {k : Capability}
    (hd : (machine.run new cs).caps.lookup d = some k) (hp : k.parent = none) :
    ∃ object objectType rights, (.mintRoot object objectType rights, .minted d) ∈ machine.log new cs := by
  have hinv := machine.run_induction (I := fun log g => g.Wf ∧ ∀ d k, g.caps.lookup d = some k →
      k.parent = none → ∃ object objectType rights,
        (Call.mintRoot object objectType rights, Reply.minted d) ∈ log)
    ⟨wf_new, fun d k hd => by cases hd⟩ (fun log g c ⟨hwf, hmint⟩ => ⟨hwf.call c, fun d k hd hp => ?_⟩) cs
  · exact hinv.2 d k hd hp
  have hold : ∀ k, g.caps.lookup d = some k → k.parent = none → ∃ object objectType rights,
      (Call.mintRoot object objectType rights, Reply.minted d) ∈ log ++ [(c, (machine.step g c).1)] := by
    intro k hk hp
    obtain ⟨o, t, r, hmem⟩ := hmint d k hk hp
    exact ⟨o, t, r, List.mem_append_left _ hmem⟩
  have hd : (g.call c).2.caps.lookup d = some k := hd
  cases c with
  | mintRoot o t r =>
    simp only [CapRegistry.call, mintRoot_eq, lookup_register] at hd
    split at hd
    · rename_i he
      subst he
      exact ⟨o, t, r, List.mem_append_right _ List.mem_cons_self⟩
    · exact hold k hd hp
  | delegate p r =>
    simp only [CapRegistry.call] at hd
    rcases hdel : g.delegate p r with ⟨e | c, g'⟩
    · rw [hdel, delegate_error hdel] at hd
      exact hold k hd hp
    · obtain ⟨kp, -, -, -, -, -, rfl⟩ := delegate_ok hdel
      rw [hdel] at hd
      simp only [lookup_register] at hd
      split at hd
      · obtain rfl := Option.some.inj hd
        cases hp
      · exact hold k hd hp
  | revoke c =>
    simp only [CapRegistry.call] at hd
    by_cases hc : c ∈ g.caps
    · obtain ⟨k₀, hk₀, he⟩ := (revoke_spec hwf hc).2.lookup_some hd
      refine hold k₀ hk₀ ?_
      rcases he with rfl | rfl <;> exact hp
    · rw [revoke_unregistered hc] at hd
      exact hold k hd hp

/-- **Derivation forest and monotone attenuation**, after every sequence of operations. -/
theorem derivation_forest (cs : List Call) :
    let g := machine.run new cs
    (∀ c, c ∈ g.caps ↔ 1 ≤ c.raw ∧ c.raw ≤ g.nextCap) ∧
    (∀ d p, g.parentOf d = some p → p ∈ g.caps ∧ p.raw < d.raw) ∧
    (∀ d ∈ g.caps, ∃ root ∈ g.caps, g.ChainThrough root d ∧ g.parentOf root = none ∧
      ∃ object objectType rights,
        (.mintRoot object objectType rights, .minted root) ∈ machine.log new cs) ∧
    (∀ p d, (g.childrenOf p).count d = if g.parentOf d = some p then 1 else 0) ∧
    (∀ a d kd, g.ChainThrough a d → g.caps.lookup d = some kd → ∃ ka, g.caps.lookup a = some ka ∧
      kd.object = ka.object ∧ kd.objectType = ka.objectType ∧ ka.rights.contains kd.rights = true ∧
        (a ≠ d → ka.rights.contains .DELEGATE = true)) ∧
    ∀ a d, g.ChainThrough a d → g.Revoked a → g.Revoked d := by
  intro g
  have h : g.Wf := Reachable.wf ⟨cs, rfl⟩
  refine ⟨h.ids, h.parent, fun d hd => ?_, h.count_childrenOf, fun a d kd hc hd => ?_,
    fun a d hc ha => h.revoked_below ha hc⟩
  · obtain ⟨root, hroot, hchain, hnone⟩ := h.exists_root d.raw d rfl hd
    obtain ⟨k, hk⟩ := Finmap.mem_iff.1 hroot
    have hp : k.parent = none := by
      unfold parentOf at hnone
      rw [hk] at hnone
      exact hnone
    exact ⟨root, hroot, hchain, hnone, minted_of_no_parent cs hk hp⟩
  · obtain ⟨ka, ha⟩ := Finmap.mem_iff.1 (h.ancestor_mem hc (Finmap.mem_of_lookup_eq_some hd))
    obtain ⟨ho, ht, hr⟩ := h.rights_le hc ha hd
    exact ⟨ka, ha, ho, ht, hr, fun hne => h.delegates hc hne ha⟩

end CapRegistry

end CourtKernel
