import CourtKernel.Hosted.Registry

/-!
# The derivation forest of the registry

`CapRegistry.Wf` collects what every reachable registry satisfies: identifiers are exactly
`1 … nextCap`, parents are registered and older, the child index mirrors the parent pointers,
delegation only attenuates, and revocation is closed downwards.

* `revoke_spec` — on a well-formed registry the worklist loop of `revoke` empties its stack, flags
  exactly the capabilities whose parent chain passes through the revoked one, and changes nothing
  else.
* `Wf.call` — the three operations preserve `Wf`; `Reachable.wf` is the run version.
* `Grows` — what later operations cannot undo: registered capabilities stay, with their parent,
  object, type and rights, and a revoked one stays revoked.
* `revoke_marks_subtree` — after every sequence of operations `revoke` terminates and flags exactly
  the derivation subtree.
-/

namespace CourtKernel

namespace CapRegistry

variable {g g' : CapRegistry}

theorem parentOf_eq_some {d p : CapId} :
    g.parentOf d = some p ↔ ∃ k, g.caps.lookup d = some k ∧ k.parent = some p := by
  unfold parentOf
  rw [Option.bind_eq_some_iff]

theorem mem_caps_of_parentOf {d p : CapId} (h : g.parentOf d = some p) : d ∈ g.caps := by
  obtain ⟨k, hk, -⟩ := parentOf_eq_some.1 h
  exact Finmap.mem_of_lookup_eq_some hk

/-- The invariant of the registry. -/
structure Wf (g : CapRegistry) : Prop where
  ids : ∀ c, c ∈ g.caps ↔ 1 ≤ c.raw ∧ c.raw ≤ g.nextCap
  parent : ∀ d p, g.parentOf d = some p → p ∈ g.caps ∧ p.raw < d.raw
  index : ∀ p d, d ∈ g.childrenOf p ↔ g.parentOf d = some p
  nodup : ∀ p, (g.childrenOf p).Nodup
  attenuates : ∀ d p kd kp, g.caps.lookup d = some kd → kd.parent = some p →
    g.caps.lookup p = some kp → kd.object = kp.object ∧ kd.objectType = kp.objectType ∧
      kp.rights.contains kd.rights = true ∧ kp.rights.contains .DELEGATE = true
  closed : ∀ d p, g.parentOf d = some p → g.Revoked p → g.Revoked d

theorem wf_new : Wf new := by
  have hc : ∀ c : CapId, c ∉ new.caps := fun c => Finmap.notMem_empty
  have hp : ∀ d, new.parentOf d = none := fun d => rfl
  refine ⟨fun c => ⟨fun h => absurd h (hc c), fun h => ?_⟩, ?_, ?_, ?_, ?_, ?_⟩
  · simp only [new] at h; omega
  · intro d p h; rw [hp] at h; cases h
  · intro p d; rw [hp]; simp [childrenOf, new]
  · intro p; simp [childrenOf, new]
  · intro d p kd kp h; cases h
  · intro d p h; rw [hp] at h; cases h

theorem Wf.mirrors (h : g.Wf) : Mirrors g.parentOf g.childrenOf CapId.raw where
  mem := h.index
  nodup := h.nodup
  grow := fun d p hp => (h.parent d p hp).2

/-- A capability below a revoked one is revoked. -/
theorem Wf.revoked_below (h : g.Wf) {c d : CapId} (hc : g.Revoked c) (hd : g.ChainThrough c d) :
    g.Revoked d :=
  hd.closed (P := g.Revoked) h.closed hc

/-! ## Registering a capability

`mint_root` and a successful `delegate` register a fresh capability; the latter also enters it
into the child index. -/

def register (g : CapRegistry) (k : Capability) : CapRegistry :=
  let g' := { g with
    nextCap := g.nextCap + 1
    caps := g.caps.insert ⟨g.nextCap + 1⟩ k }
  match k.parent with
  | none => g'
  | some p => g'.pushChild p ⟨g.nextCap + 1⟩

theorem mintRoot_eq (o : ObjectId) (t : ObjectType) (r : Rights) :
    g.mintRoot o t r = (⟨g.nextCap + 1⟩, g.register ⟨o, t, r, none, false, true⟩) := rfl

/-- The capability that a delegation from `p` creates. -/
def derived (p : CapId) (kp : Capability) (r : Rights) : Capability :=
  ⟨kp.object, kp.objectType, r, some p, false, r.contains .DELEGATE⟩

/-- A successful delegation passed every check and registered the attenuated capability. -/
theorem delegate_ok {p c : CapId} {r : Rights} (h : g.delegate p r = (.ok c, g')) :
    ∃ kp, g.caps.lookup p = some kp ∧ kp.revoked = false ∧ kp.rights.contains .DELEGATE = true ∧
      kp.rights.contains r = true ∧ c = ⟨g.nextCap + 1⟩ ∧ g' = g.register (derived p kp r) := by
  unfold delegate at h
  split at h
  · cases (Prod.mk.inj h).1
  · rename_i kp hk
    split at h
    · cases (Prod.mk.inj h).1
    · rename_i hrev
      split at h
      · cases (Prod.mk.inj h).1
      · rename_i hdel
        split at h
        · cases (Prod.mk.inj h).1
        · rename_i hsub
          simp only [Bool.or_eq_true, Bool.not_eq_true', not_or, Bool.not_eq_false] at hdel hsub
          simp only [allocCap, Prod.mk.injEq, Except.ok.injEq] at h
          obtain ⟨rfl, rfl⟩ := h
          exact ⟨kp, hk, by simpa using hrev, hdel.2, hsub, rfl, rfl⟩

@[simp] theorem register_nextCap (k : Capability) : (g.register k).nextCap = g.nextCap + 1 := by
  unfold register; split <;> rfl

theorem lookup_register (k : Capability) (d : CapId) :
    (g.register k).caps.lookup d =
      if d = ⟨g.nextCap + 1⟩ then some k else g.caps.lookup d := by
  have h : (g.register k).caps = g.caps.insert ⟨g.nextCap + 1⟩ k := by
    unfold register; split <;> rfl
  rw [h, HashMap.lookup_insert_ite]

theorem parentOf_register (k : Capability) (d : CapId) :
    (g.register k).parentOf d = if d = ⟨g.nextCap + 1⟩ then k.parent else g.parentOf d := by
  unfold parentOf
  rw [lookup_register]
  split <;> rfl

theorem childrenOf_register (k : Capability) (p : CapId) :
    (g.register k).childrenOf p =
      if k.parent = some p then g.childrenOf p ++ [⟨g.nextCap + 1⟩] else g.childrenOf p := by
  unfold register childrenOf
  split
  · rename_i h; simp [h]
  · rename_i q h
    simp only [pushChild, h, HashMap.lookup_insert_ite, Option.some.injEq]
    by_cases hpq : p = q
    · subst hpq; simp
    · rw [if_neg hpq, if_neg (Ne.symm hpq)]

theorem mem_register (k : Capability) (d : CapId) :
    d ∈ (g.register k).caps ↔ d = ⟨g.nextCap + 1⟩ ∨ d ∈ g.caps := by
  rw [← Finmap.lookup_isSome, lookup_register, ← Finmap.lookup_isSome]
  split
  · rename_i h; simp [h]
  · rename_i h; simp [h]

theorem Wf.fresh (h : g.Wf) : (⟨g.nextCap + 1⟩ : CapId) ∉ g.caps := by
  intro hm
  have := ((h.ids _).1 hm).2
  simp only at this
  omega

theorem revoked_register (h : g.Wf) {k : Capability} (hk : k.revoked = false) (d : CapId) :
    (g.register k).Revoked d ↔ g.Revoked d := by
  unfold Revoked
  rw [lookup_register]
  split
  · rename_i hd
    subst hd
    refine ⟨?_, ?_⟩
    · rintro ⟨k', hk', hr⟩
      obtain rfl := Option.some.inj hk'
      rw [hk] at hr; cases hr
    · rintro ⟨k', hk', -⟩
      exact absurd (Finmap.mem_of_lookup_eq_some hk') h.fresh
  · rfl

/-- Registering a live capability that has no parent, or whose parent is registered, live and
covers it, keeps the registry well formed. -/
theorem Wf.register (h : g.Wf) {k : Capability} (hk : k.revoked = false)
    (hp : ∀ p, k.parent = some p → ∃ kp, g.caps.lookup p = some kp ∧ kp.revoked = false ∧
      k.object = kp.object ∧ k.objectType = kp.objectType ∧
      kp.rights.contains k.rights = true ∧ kp.rights.contains .DELEGATE = true) :
    (g.register k).Wf := by
  have hfresh := h.fresh
  have hpar : ∀ p, k.parent = some p → p ∈ g.caps := fun p hkp => by
    obtain ⟨kp, hl, -⟩ := hp p hkp
    exact Finmap.mem_of_lookup_eq_some hl
  have hne : ∀ p, p ∈ g.caps → p ≠ ⟨g.nextCap + 1⟩ := fun p hm he => hfresh (he ▸ hm)
  have hnopar : g.parentOf ⟨g.nextCap + 1⟩ = none := by
    unfold parentOf
    rw [Finmap.lookup_eq_none.2 hfresh]; rfl
  refine ⟨?_, ?_, ?_, ?_, ?_, ?_⟩
  · intro c
    rw [mem_register, h.ids, register_nextCap]
    constructor
    · rintro (rfl | hc)
      · simp
      · omega
    · intro hc
      by_cases he : c.raw = g.nextCap + 1
      · exact Or.inl (by cases c; simp only at he; rw [he])
      · exact Or.inr (by omega)
  · intro d p hd
    rw [parentOf_register] at hd
    rw [mem_register]
    split at hd
    · rename_i he
      subst he
      have hm := hpar p hd
      have := (h.ids p).1 hm
      exact ⟨Or.inr hm, by simp only; omega⟩
    · obtain ⟨hm, hlt⟩ := h.parent d p hd
      exact ⟨Or.inr hm, hlt⟩
  · intro p d
    rw [childrenOf_register, parentOf_register]
    by_cases hkp : k.parent = some p
    · rw [if_pos hkp]
      by_cases he : d = ⟨g.nextCap + 1⟩
      · subst he; simp [hkp]
      · simp [he, h.index]
    · rw [if_neg hkp, h.index]
      by_cases he : d = ⟨g.nextCap + 1⟩
      · subst he; simp [hkp, hnopar]
      · simp [he]
  · intro p
    rw [childrenOf_register]
    split
    · refine List.nodup_append.2 ⟨h.nodup p, by simp, ?_⟩
      rintro d hd _ hs rfl
      obtain rfl := List.mem_singleton.1 hs
      exact hfresh (mem_caps_of_parentOf ((h.index p _).1 hd))
    · exact h.nodup p
  · intro d p kd kp hd hkd hkp
    rw [lookup_register] at hd hkp
    split at hd
    · obtain rfl := Option.some.inj hd
      obtain ⟨kp', hl, -, h1, h2, h3, h4⟩ := hp p hkd
      rw [if_neg (hne p (hpar p hkd)), hl] at hkp
      obtain rfl := Option.some.inj hkp
      exact ⟨h1, h2, h3, h4⟩
    · have hm := (h.parent d p (parentOf_eq_some.2 ⟨kd, hd, hkd⟩)).1
      rw [if_neg (hne p hm)] at hkp
      exact h.attenuates d p kd kp hd hkd hkp
  · intro d p hd hrev
    rw [revoked_register h hk] at hrev ⊢
    rw [parentOf_register] at hd
    split at hd
    · -- the parent of the new capability was live
      obtain ⟨kp, hl, hlive, -⟩ := hp p hd
      obtain ⟨k', hk', hr⟩ := hrev
      rw [hl] at hk'
      obtain rfl := Option.some.inj hk'
      rw [hlive] at hr; cases hr
    · exact h.closed d p hd hrev

/-! ## Revocation -/

/-- Flag every capability of a list. -/
def markAll (g : CapRegistry) (l : List CapId) : CapRegistry := l.foldl markRevoked g

@[simp] theorem markAll_nextCap (l : List CapId) : (g.markAll l).nextCap = g.nextCap := by
  induction l generalizing g with
  | nil => rfl
  | cons c l ih => exact ih (g := g.markRevoked c)

@[simp] theorem markAll_children (l : List CapId) : (g.markAll l).children = g.children := by
  induction l generalizing g with
  | nil => rfl
  | cons c l ih => exact ih (g := g.markRevoked c)

theorem lookup_markRevoked (c d : CapId) :
    (g.markRevoked c).caps.lookup d =
      if d = c then (g.caps.lookup d).map ({ · with revoked := true }) else g.caps.lookup d :=
  HashMap.lookup_adjust _ _ _ _

theorem lookup_markAll (l : List CapId) (d : CapId) :
    (g.markAll l).caps.lookup d =
      if d ∈ l then (g.caps.lookup d).map ({ · with revoked := true }) else g.caps.lookup d := by
  induction l generalizing g with
  | nil => rfl
  | cons c l ih =>
    show ((g.markRevoked c).markAll l).caps.lookup d = _
    rw [ih, lookup_markRevoked]
    by_cases hc : d = c
    · subst hc; by_cases hl : d ∈ l <;> simp [hl, Function.comp_def]
    · by_cases hl : d ∈ l <;> simp [hc, hl]

/-- The loop flags what the traversal of the child index pops. -/
theorem revokeLoop_eq : ∀ (fuel : Nat) (g : CapRegistry) (stack : List CapId),
    revokeLoop fuel g stack =
      (g.markAll (traverse g.childrenOf fuel stack).1, (traverse g.childrenOf fuel stack).2)
  | 0, _, _ => rfl
  | _ + 1, _, [] => rfl
  | fuel + 1, g, next :: stack => by
    have hchildren : (g.markRevoked next).childrenOf = g.childrenOf := rfl
    simp only [revokeLoop, traverse]
    rw [revokeLoop_eq fuel, hchildren]
    rfl

/-- The loop of `revoke` empties its stack within its bound, having flagged exactly the
capabilities whose parent chain passes through `c`. -/
theorem revokeLoop_spec (h : g.Wf) {c : CapId} (hc : c ∈ g.caps) :
    ∃ seen, revokeLoop g.caps.keys.card g [c] = (g.markAll seen, []) ∧
      ∀ d, d ∈ seen ↔ g.ChainThrough c d := by
  have hU : ∀ x ∈ g.caps.keys, ∀ y ∈ g.childrenOf x, y ∈ g.caps.keys := by
    intro x _ y hy
    exact Finmap.mem_keys.2 (mem_caps_of_parentOf ((h.index x y).1 hy))
  obtain ⟨seen, hrun, hseen⟩ := traverse_forest h.mirrors hU (Finmap.mem_keys.2 hc)
  exact ⟨seen, by rw [revokeLoop_eq, hrun], hseen⟩

/-- Once the stack is empty, further turns do nothing. -/
theorem revokeLoop_mono : ∀ {m n : Nat} {g g' : CapRegistry} {stack : List CapId},
    revokeLoop m g stack = (g', []) → m ≤ n → revokeLoop n g stack = (g', [])
  | 0, n, _, _, _, h, _ => by
    obtain ⟨rfl, rfl⟩ := Prod.mk.inj h
    cases n <;> rfl
  | _ + 1, n + 1, _, _, [], h, _ => h
  | _ + 1, n + 1, _, _, _ :: _, h, hle => by
    simp only [revokeLoop] at h ⊢
    exact revokeLoop_mono h (by omega)

/-- What a successful revocation of `c` did to the registry. -/
structure SubtreeMarked (g : CapRegistry) (c : CapId) (g' : CapRegistry) : Prop where
  nextCap : g'.nextCap = g.nextCap
  children : g'.children = g.children
  below : ∀ d, g.ChainThrough c d →
    g'.caps.lookup d = (g.caps.lookup d).map ({ · with revoked := true })
  other : ∀ d, ¬ g.ChainThrough c d → g'.caps.lookup d = g.caps.lookup d

/-- **Revocation flags exactly the derivation subtree.** -/
theorem revoke_spec (h : g.Wf) {c : CapId} (hc : c ∈ g.caps) :
    (g.revoke c).1 = .ok () ∧ SubtreeMarked g c (g.revoke c).2 := by
  obtain ⟨seen, hrun, hseen⟩ := revokeLoop_spec h hc
  have he : g.revoke c = (.ok (), g.markAll seen) := by simp [revoke, hc, hrun]
  rw [he]
  refine ⟨rfl, by simp, by simp, fun d hd => ?_, fun d hd => ?_⟩
  · rw [lookup_markAll, if_pos ((hseen d).2 hd)]
  · rw [lookup_markAll, if_neg fun hm => hd ((hseen d).1 hm)]

theorem revoke_unregistered {c : CapId} (hc : c ∉ g.caps) : g.revoke c = (.error .badCap, g) := by
  simp [revoke, hc]

theorem revoke_ok_iff {c : CapId} : (g.revoke c).1 = .ok () ↔ c ∈ g.caps := by
  unfold revoke
  split
  · rename_i h; simp [h]
  · rename_i h; simp [h]

namespace SubtreeMarked

variable {c : CapId}

theorem lookup_isSome (hm : SubtreeMarked g c g') (d : CapId) :
    (g'.caps.lookup d).isSome = (g.caps.lookup d).isSome := by
  by_cases hd : g.ChainThrough c d
  · rw [hm.below d hd, Option.isSome_map]
  · rw [hm.other d hd]

theorem mem (hm : SubtreeMarked g c g') (d : CapId) : d ∈ g'.caps ↔ d ∈ g.caps := by
  rw [← Finmap.lookup_isSome, hm.lookup_isSome, Finmap.lookup_isSome]

/-- Only the flag of a capability can change. -/
theorem lookup_some (hm : SubtreeMarked g c g') {d : CapId} {k' : Capability}
    (h : g'.caps.lookup d = some k') :
    ∃ k, g.caps.lookup d = some k ∧ (k' = k ∨ k' = { k with revoked := true }) := by
  by_cases hd : g.ChainThrough c d
  · rw [hm.below d hd, Option.map_eq_some_iff] at h
    obtain ⟨k, hk, rfl⟩ := h
    exact ⟨k, hk, Or.inr rfl⟩
  · rw [hm.other d hd] at h
    exact ⟨k', h, Or.inl rfl⟩

theorem parentOf (hm : SubtreeMarked g c g') (d : CapId) : g'.parentOf d = g.parentOf d := by
  unfold CapRegistry.parentOf
  by_cases hd : g.ChainThrough c d
  · rw [hm.below d hd]
    cases g.caps.lookup d <;> rfl
  · rw [hm.other d hd]

theorem childrenOf (hm : SubtreeMarked g c g') (p : CapId) : g'.childrenOf p = g.childrenOf p := by
  unfold CapRegistry.childrenOf
  rw [hm.children]

theorem revoked_iff (hm : SubtreeMarked g c g') (d : CapId) :
    g'.Revoked d ↔ g.Revoked d ∨ (d ∈ g.caps ∧ g.ChainThrough c d) := by
  unfold CapRegistry.Revoked
  by_cases hd : g.ChainThrough c d
  · rw [hm.below d hd, Finmap.mem_iff]
    cases g.caps.lookup d <;> simp [hd]
  · rw [hm.other d hd]
    simp [hd]

/-- Everything but the flag stays as it was. -/
theorem fields (hm : SubtreeMarked g c g') (d : CapId) :
    (g'.caps.lookup d).map ({ · with revoked := false }) =
      (g.caps.lookup d).map ({ · with revoked := false }) := by
  by_cases hd : g.ChainThrough c d
  · rw [hm.below d hd, Option.map_map]
    rfl
  · rw [hm.other d hd]

theorem wf (hm : SubtreeMarked g c g') (h : g.Wf) : g'.Wf := by
  refine ⟨?_, ?_, ?_, ?_, ?_, ?_⟩
  · intro d; rw [hm.mem, hm.nextCap, h.ids]
  · intro d p hd; rw [hm.parentOf] at hd; rw [hm.mem]; exact h.parent d p hd
  · intro p d; rw [hm.childrenOf, hm.parentOf]; exact h.index p d
  · intro p; rw [hm.childrenOf]; exact h.nodup p
  · intro d p kd kp hd hkd hkp
    obtain ⟨kd₀, hd₀, hed⟩ := hm.lookup_some hd
    obtain ⟨kp₀, hp₀, hep⟩ := hm.lookup_some hkp
    have hpar : kd₀.parent = some p := by rcases hed with rfl | rfl <;> exact hkd
    have hatt := h.attenuates d p kd₀ kp₀ hd₀ hpar hp₀
    rcases hed with rfl | rfl <;> rcases hep with rfl | rfl <;> exact hatt
  · intro d p hd hrev
    rw [hm.parentOf] at hd
    rw [hm.revoked_iff] at hrev ⊢
    rcases hrev with hrev | ⟨-, hchain⟩
    · exact Or.inl (h.closed d p hd hrev)
    · exact Or.inr ⟨mem_caps_of_parentOf hd, .up hd hchain⟩

end SubtreeMarked

/-! ## Runs of the registry -/

/-- Every operation preserves the invariant. -/
theorem Wf.call (h : g.Wf) (c : Call) : (g.call c).2.Wf := by
  cases c with
  | mintRoot o t r =>
    simp only [CapRegistry.call, mintRoot_eq]
    exact h.register rfl (by simp)
  | delegate p r =>
    simp only [CapRegistry.call]
    rcases hd : g.delegate p r with ⟨e | c, g'⟩
    · rw [delegate_error hd]; exact h
    · obtain ⟨kp, hk, hlive, hdel, hsub, -, rfl⟩ := delegate_ok hd
      refine h.register (k := derived p kp r) rfl fun q hq => ?_
      obtain rfl := Option.some.inj hq
      exact ⟨kp, hk, hlive, rfl, rfl, hsub, hdel⟩
  | revoke c =>
    simp only [CapRegistry.call]
    by_cases hc : c ∈ g.caps
    · exact (revoke_spec h hc).2.wf h
    · rw [revoke_unregistered hc]; exact h

theorem Reachable.wf (h : g.Reachable) : g.Wf := by
  obtain ⟨cs, rfl⟩ := h
  exact machine.run_invariant (I := Wf) (fun _ c h => h.call c) wf_new cs

/-- A capability whose parent chain passes through a registered one is registered. -/
theorem ChainThrough.mem_caps {c d : CapId} (hd : g.ChainThrough c d) (hc : c ∈ g.caps) :
    d ∈ g.caps := by
  cases hd with
  | refl => exact hc
  | up hp _ => exact mem_caps_of_parentOf hp

/-- **Revocation marks exactly the derivation subtree and terminates**, after every sequence of
operations.  The flag of a capability is the only part of the registry that can change. -/
theorem revoke_marks_subtree (cs : List Call) (c : CapId) :
    let g := machine.run new cs
    let g' := (g.revoke c).2
    (c ∉ g.caps → g.revoke c = (.error .badCap, g)) ∧
    (c ∈ g.caps →
      (g.revoke c).1 = .ok () ∧
      (∃ turns, ∀ n, turns ≤ n → revokeLoop n g [c] = (g', [])) ∧
      (∀ d, g'.Revoked d ↔ g.Revoked d ∨ g.ChainThrough c d) ∧
      (∀ d, (g'.caps.lookup d).map ({ · with revoked := false }) =
        (g.caps.lookup d).map ({ · with revoked := false })) ∧
      g'.children = g.children ∧ g'.nextCap = g.nextCap) := by
  intro g g'
  have hwf : g.Wf := Reachable.wf ⟨cs, rfl⟩
  refine ⟨revoke_unregistered, fun hc => ?_⟩
  obtain ⟨hok, hm⟩ := revoke_spec hwf hc
  obtain ⟨seen, hrun, -⟩ := revokeLoop_spec hwf hc
  have hg' : g' = g.markAll seen := by
    show (g.revoke c).2 = _
    rw [revoke, if_pos hc, hrun]
  refine ⟨hok, ⟨_, fun n hn => hg' ▸ revokeLoop_mono hrun hn⟩, fun d => ?_, hm.fields,
    hm.children, hm.nextCap⟩
  rw [hm.revoked_iff]
  exact or_congr_right (and_iff_right_of_imp fun hd => ChainThrough.mem_caps hd hc)

/-- What later operations keep: registered capabilities with their parent, object, type and
rights, and the revoked ones among them. -/
structure Grows (g g' : CapRegistry) : Prop where
  keep : ∀ d k, g.caps.lookup d = some k → ∃ k', g'.caps.lookup d = some k' ∧
    k'.object = k.object ∧ k'.objectType = k.objectType ∧ k'.rights = k.rights ∧
    k'.parent = k.parent ∧ (k.revoked = true → k'.revoked = true)

namespace Grows

theorem refl (g : CapRegistry) : Grows g g := ⟨fun _ k h => ⟨k, h, rfl, rfl, rfl, rfl, id⟩⟩

theorem trans {g₁ g₂ g₃ : CapRegistry} (h₁ : Grows g₁ g₂) (h₂ : Grows g₂ g₃) : Grows g₁ g₃ := by
  refine ⟨fun d k hd => ?_⟩
  obtain ⟨k', hk', o', t', r', p', v'⟩ := h₁.keep d k hd
  obtain ⟨k'', hk'', o'', t'', r'', p'', v''⟩ := h₂.keep d k' hk'
  exact ⟨k'', hk'', o''.trans o', t''.trans t', r''.trans r', p''.trans p', fun hv => v'' (v' hv)⟩

theorem revoked (h : Grows g g') {d : CapId} (hd : g.Revoked d) : g'.Revoked d := by
  obtain ⟨k, hk, hr⟩ := hd
  obtain ⟨k', hk', -, -, -, -, hr'⟩ := h.keep d k hk
  exact ⟨k', hk', hr' hr⟩

theorem parentOf (h : Grows g g') {d : CapId} (hd : d ∈ g.caps) : g'.parentOf d = g.parentOf d := by
  obtain ⟨k, hk⟩ := Finmap.mem_iff.1 hd
  obtain ⟨k', hk', -, -, -, hp, -⟩ := h.keep d k hk
  unfold CapRegistry.parentOf
  rw [hk, hk']
  exact hp

end Grows

theorem grows_register (h : g.Wf) (k : Capability) : Grows g (g.register k) := by
  refine ⟨fun d kd hd => ⟨kd, ?_, rfl, rfl, rfl, rfl, id⟩⟩
  rw [lookup_register, if_neg, hd]
  rintro rfl
  exact h.fresh (Finmap.mem_of_lookup_eq_some hd)

theorem SubtreeMarked.grows {c : CapId} (hm : SubtreeMarked g c g') : Grows g g' := by
  refine ⟨fun d k hd => ?_⟩
  by_cases hc : g.ChainThrough c d
  · exact ⟨{ k with revoked := true }, by rw [hm.below d hc, hd]; rfl, rfl, rfl, rfl, rfl,
      fun _ => rfl⟩
  · exact ⟨k, by rw [hm.other d hc, hd], rfl, rfl, rfl, rfl, id⟩

theorem Wf.grows (h : g.Wf) (c : Call) : Grows g (g.call c).2 := by
  cases c with
  | mintRoot o t r =>
    simp only [CapRegistry.call, mintRoot_eq]
    exact grows_register h _
  | delegate p r =>
    simp only [CapRegistry.call]
    rcases hd : g.delegate p r with ⟨e | c, g'⟩
    · rw [delegate_error hd]; exact .refl g
    · obtain ⟨kp, -, -, -, -, -, rfl⟩ := delegate_ok hd
      exact grows_register h (derived p kp r)
  | revoke c =>
    simp only [CapRegistry.call]
    by_cases hc : c ∈ g.caps
    · exact (revoke_spec h hc).2.grows
    · rw [revoke_unregistered hc]; exact .refl g

theorem Wf.grows_run (h : g.Wf) (cs : List Call) : Grows g (machine.run g cs) := by
  induction cs generalizing g with
  | nil => exact .refl g
  | cons c cs ih => exact (h.grows c).trans (ih (h.call c))

end CapRegistry

end CourtKernel
