import CourtKernel.RootCourt.Object

/-!
# Runs of the object tables

What holds after any sequence of `bootstrap`, `spawn_court`, `mint_cap` and `revoke_cap` calls on new
tables, whether the calls succeed or fail.

A court is entered before its object and its binding, and nothing is taken back.  That no call stops
between the two is a matter of counting: there are as many bindings as courts, and more slots for
them.

* `Consistent` — the counts agree, and the table of capabilities is in order.
* `spawnCourt_spec`, `bootstrap_spec` — the two methods that enter both.
* `Tables.step_rights` — what one call does to the rights of a capability.
* `fixed_tables_consistent` — counts, failed calls, identifiers and rights in every run.
-/

namespace CourtKernel

namespace Object

namespace RootCourt

variable {self : RootCourt}

/-! ## Counts -/

/-- Courts and bindings come together. -/
structure Consistent (t : RootCourt) : Prop extends Tables t where
  bound : t.bindings.count = t.courtCount

theorem consistent_new : Consistent new := by
  refine ⟨Tables.new, ?_⟩
  rw [courtCount, Slots.count_eq, Slots.count_eq, new, Slots.entries_free, Slots.entries_free]
  rfl

/-- A court, its object and its binding are entered together, or the table of courts is full: the
namespace has room whenever the table of courts has. -/
theorem entered_spec (h : Consistent self) (name path : String) :
    wp (do let court ← createCourt name; let object ← allocObject; bind path object; pure (court, object))
      (fun _ self' => Consistent self')
      (fun e self' => e = "court table full" ∧ self' = self ∧ self.courtCount = MAX_COURTS) self := by
  rw [wp_bind]
  refine wp_mono (createCourt_spec name) ?_ fun _ _ he => he
  rintro court _ ⟨courts, hput, -, rfl⟩
  have hcourts : courts.count = self.courtCount + 1 := Slots.count_put hput
  rw [wp_bind]
  refine wp_mono allocObject_spec ?_ fun _ _ he => he.elim
  rintro object _ ⟨-, rfl⟩
  rw [wp_bind]
  refine wp_mono (bind_spec path object) ?_ ?_
  · rintro _ _ ⟨bindings, hbind, rfl⟩
    refine (wp_pure _).2 ⟨h.of_caps rfl rfl, ?_⟩
    have hbound := h.bound
    have hbindings : bindings.count = self.bindings.count + 1 := Slots.count_put hbind
    show bindings.count = courts.count
    omega
  · rintro e _ ⟨-, -, hfull⟩
    have hbound := h.bound
    have hfew : courts.count ≤ MAX_COURTS := by
      rw [Slots.count_eq]
      exact courts.length_entries_le
    have hfull : self.bindings.count = 16 := hfull
    have hfew : courts.count ≤ 8 := hfew
    omega

/-- Spawning fails only if the table of courts is full, and then does nothing. -/
theorem spawnCourt_spec (h : Consistent self) (name path : String) :
    wp (spawnCourt name path) (fun _ self' => Consistent self')
      (fun e self' => e = "court table full" ∧ self' = self ∧ self.courtCount = MAX_COURTS) self :=
  entered_spec h name path

theorem mintCap_spec (h : Consistent self) (object rights : UInt64) :
    wp (mintCap object rights) (fun _ self' => Consistent self')
      (fun _ self' => self' = self) self := by
  refine wp_mono (mint_spec object rights) ?_ fun _ _ he => he.2
  rintro id _ ⟨caps, hput, rfl, rfl⟩
  exact ⟨h.put hput, h.bound⟩

/-- A bootstrap that fails halfway has entered its court and its binding. -/
theorem bootstrap_spec (h : Consistent self) :
    wp bootstrap (fun _ self' => Consistent self') (fun _ self' => Consistent self') self := by
  have hsplit : bootstrap = (do
      let entered ← (do let court ← createCourt "root"; let object ← allocObject
                        bind "/court/root" object; pure (court, object))
      let _cap ← mint entered.2 ((1 : UInt64) <<< 6)
      pure ()) := by
    simp only [bootstrap, bind_assoc, pure_bind]
  rw [hsplit, wp_bind]
  refine wp_mono (entered_spec h "root" "/court/root") (fun entered self₁ h₁ => ?_) ?_
  · rw [wp_bind]
    refine wp_mono (mintCap_spec h₁ _ _) (fun _ _ h₂ => (wp_pure _).2 h₂) ?_
    rintro _ _ rfl
    exact h₁
  · rintro _ _ ⟨-, rfl, -⟩
    exact h

theorem Consistent.spawnCourt (h : Consistent self) (name path : String) :
    wp (Call.spawnCourt name path).prog (fun _ self' => Consistent self')
      (fun e self' => e = "court table full" ∧ self' = self ∧ self.courtCount = MAX_COURTS) self := by
  rw [Call.prog, wp_bind]
  exact wp_mono (spawnCourt_spec h name path) (fun _ _ h₁ => (wp_pure _).2 h₁) fun _ _ he => he

theorem Consistent.mintCap (h : Consistent self) (object rights : UInt64) :
    wp (Call.mintCap object rights).prog (fun _ self' => Consistent self')
      (fun _ self' => self' = self) self := by
  rw [Call.prog, wp_bind]
  exact wp_mono (mintCap_spec h object rights) (fun _ _ h₁ => (wp_pure _).2 h₁) fun _ _ he => he

theorem Consistent.revokeCap (h : Consistent self) (capId : UInt64) :
    wp (Call.revokeCap capId).prog (fun _ self' => Consistent self')
      (fun _ self' => self' = self) self := by
  rw [Call.prog, wp_bind]
  refine wp_mono (revokeCap_spec capId) ?_ fun _ _ he => he.2.1
  rintro _ _ ⟨caps, hcaps, rfl⟩
  exact (wp_pure _).2 ⟨h.revise hcaps, h.bound⟩

theorem Call.prog_consistent (c : Call) : Keeps (Stays Consistent) c.prog := by
  refine keeps_stays.2 fun self h => ?_
  cases c with
  | bootstrap =>
    rw [Call.prog, wp_bind]
    exact wp_mono (bootstrap_spec h) (fun _ _ h₁ => (wp_pure _).2 h₁) fun _ _ h₁ => h₁
  | spawnCourt name path =>
    refine wp_mono (h.spawnCourt name path) (fun _ _ h₁ => h₁) ?_
    rintro _ _ ⟨-, rfl, -⟩
    exact h
  | mintCap object rights =>
    refine wp_mono (h.mintCap object rights) (fun _ _ h₁ => h₁) ?_
    rintro _ _ rfl
    exact h
  | revokeCap capId =>
    refine wp_mono (h.revokeCap capId) (fun _ _ h₁ => h₁) ?_
    rintro _ _ rfl
    exact h

theorem after_consistent (cs : List Call) : Consistent (after cs) :=
  machine.run_invariant (fun self c h => (Call.prog_consistent c).at_end self h) consistent_new cs

/-! ## Rights -/

/-- A capability in the tables has an identifier that is not new. -/
theorem Tables.id_ne (h : Tables self) {id rights : UInt64} (hid : self.capRights id = some rights) :
    id ≠ self.nextCap + 1 := by
  rintro rfl
  obtain ⟨cap, hfind, -⟩ := Option.map_eq_some_iff.1 hid
  have hnew := h.fresh cap (List.mem_of_find?_eq_some hfind)
  have hfound := List.find?_some (p := fun cap : Cap => cap.id == self.nextCap + 1) hfind
  rw [hnew] at hfound
  cases hfound

/-- New capabilities and other entries do not touch the rights of a capability. -/
theorem ofCaps_rights (id rights : UInt64) :
    OfCaps fun t => Tables t ∧ t.capRights id = some rights := by
  refine ⟨fun h hnext hcaps => ⟨h.1.of_caps hnext hcaps, ?_⟩, fun h hput => ⟨h.1.put hput, ?_⟩⟩
  · rw [capRights, hcaps]
    exact h.2
  · rw [capRights_mint h.1 hput, if_neg (h.1.id_ne h.2)]
    exact h.2

/-- Only a revocation of the capability itself changes its rights. -/
theorem Tables.step_rights (h : Tables self) {id rights : UInt64}
    (hid : self.capRights id = some rights) (c : Call) :
    (self.step c).2.capRights id =
      if (c, (self.step c).1) = (.revokeCap id, .ok .unit) then some 0 else some rights := by
  have hkeeps := ofCaps_rights id rights
  cases c with
  | bootstrap =>
    rw [if_neg nofun]
    exact ((Keeps.bind hkeeps.bootstrap fun _ => Keeps.pure _).at_end self ⟨h, hid⟩).2
  | spawnCourt name path =>
    rw [if_neg nofun]
    exact ((Keeps.bind (hkeeps.spawnCourt name path) fun _ => Keeps.pure _).at_end self ⟨h, hid⟩).2
  | mintCap object minted =>
    rw [if_neg nofun]
    exact ((Keeps.bind (hkeeps.mintCap object minted) fun _ => Keeps.pure _).at_end self ⟨h, hid⟩).2
  | revokeCap capId =>
    have hspec : wp (Call.revokeCap capId).prog
        (fun reply self' => reply = .unit ∧
          self'.capRights id = if id = capId then some 0 else some rights)
        (fun _ self' => self' = self) self := by
      rw [Call.prog, wp_bind]
      refine wp_mono (revokeCap_spec capId) ?_ fun _ _ he => he.2.1
      rintro _ _ ⟨caps, hcaps, rfl⟩
      refine (wp_pure _).2 ⟨rfl, ?_⟩
      rw [capRights_revise hcaps, hid]
    rcases wp_cases hspec with ⟨reply, hreply, rfl, hrights⟩ | ⟨e, herror, hsame⟩
    · rw [step, hrights, hreply]
      by_cases heq : id = capId
      · rw [if_pos heq, if_pos (by rw [heq])]
      · rw [if_neg heq, if_neg fun h => heq (Call.revokeCap.inj (Prod.mk.inj h).1).symm]
    · rw [step, hsame, herror, if_neg (by simp)]
      exact hid

/-- The rights of a capability after a run: none once it was revoked. -/
theorem Tables.run_rights (h : Tables self) {id rights : UInt64}
    (hid : self.capRights id = some rights) (cs : List Call) :
    (machine.run self cs).capRights id =
      if (.revokeCap id, .ok .unit) ∈ machine.log self cs then some 0 else some rights := by
  induction cs generalizing self rights with
  | nil =>
    rw [if_neg (by simp)]
    exact hid
  | cons c cs ih =>
    have hnext : Tables (self.step c).2 := (Call.prog_tables c).at_end self h
    have hstep := h.step_rights hid c
    show (machine.run (self.step c).2 cs).capRights id =
      if _ ∈ (c, (self.step c).1) :: machine.log (self.step c).2 cs then some 0 else some rights
    by_cases hrevoked : (c, (self.step c).1) = (.revokeCap id, .ok .unit)
    · rw [if_pos hrevoked] at hstep
      rw [if_pos (List.mem_cons.2 (Or.inl hrevoked.symm)), ih hnext hstep]
      split <;> rfl
    · rw [if_neg hrevoked] at hstep
      have hmem : (Call.revokeCap id, Except.ok Reply.unit) ∈
          (c, (self.step c).1) :: machine.log (self.step c).2 cs ↔
          (Call.revokeCap id, Except.ok Reply.unit) ∈ machine.log (self.step c).2 cs := by
        rw [List.mem_cons]
        exact or_iff_right fun heq => hrevoked heq.symm
      rw [ih hnext hstep]
      simp only [hmem]

/-! ## Identifiers -/

/-- The call minted this capability. -/
def Minted (entry : Call × Except String Reply) (id : UInt64) : Prop :=
  ∃ object rights, entry = (.mintCap object rights, .ok (.cap id))

/-- What a successful mint returns is new, and has the rights that were asked for. -/
theorem Tables.minted (h : Tables self) {object rights id : UInt64}
    (hmint : (self.step (.mintCap object rights)).1 = .ok (.cap id)) :
    self.capRights id = none ∧
      (self.step (.mintCap object rights)).2.capRights id = some rights := by
  have hspec : wp (Call.mintCap object rights).prog
      (fun reply self' => reply = .cap (self.nextCap + 1) ∧
        self'.capRights (self.nextCap + 1) = some rights) (fun _ _ => True) self := by
    rw [Call.prog, wp_bind]
    refine wp_mono (mint_spec object rights) ?_ fun _ _ _ => trivial
    rintro id _ ⟨caps, hput, rfl, rfl⟩
    refine (wp_pure _).2 ⟨rfl, ?_⟩
    rw [capRights_mint h hput, if_pos rfl]
  rcases wp_cases hspec with ⟨reply, hreply, rfl, hrights⟩ | ⟨e, herror, -⟩
  · obtain rfl := Reply.cap.inj (Except.ok.inj (hreply.symm.trans hmint))
    refine ⟨?_, hrights⟩
    by_contra hold
    obtain ⟨old, hold⟩ := Option.ne_none_iff_exists'.1 hold
    exact h.id_ne hold rfl
  · cases herror.symm.trans hmint

/-- What was minted is never minted again. -/
theorem Tables.not_minted (h : Tables self) {id rights : UInt64}
    (hid : self.capRights id = some rights) (cs : List Call) :
    ∀ entry ∈ machine.log self cs, ¬ Minted entry id := by
  rintro entry hentry ⟨object, minted, rfl⟩
  obtain ⟨pre, post, -, hstep⟩ := machine.mem_log hentry
  have htables : Tables (machine.run self pre) :=
    machine.run_invariant (fun t c ht => (Call.prog_tables c).at_end t ht) h pre
  have hnone := (htables.minted hstep).1
  rw [h.run_rights hid pre] at hnone
  split at hnone <;> cases hnone

/-- No two mints return one identifier. -/
theorem Tables.ids_distinct (h : Tables self) (cs : List Call) :
    (machine.log self cs).Pairwise fun a b => ∀ id, Minted a id → ¬ Minted b id := by
  induction cs generalizing self with
  | nil => exact .nil
  | cons c cs ih =>
    have hnext : Tables (self.step c).2 := (Call.prog_tables c).at_end self h
    refine List.pairwise_cons.2 ⟨fun b hb id hmint => ?_, ih hnext⟩
    obtain ⟨object, rights, heq⟩ := hmint
    obtain ⟨rfl, hreply⟩ := Prod.mk.inj heq
    exact hnext.not_minted (h.minted hreply).2 cs b hb

/-! ## The result -/

/-- **The fixed tables stay consistent.** -/
theorem fixed_tables_consistent (cs : List Call) :
    (after cs).bindings.count = (after cs).courtCount ∧
    (∀ name path e, ((after cs).step (.spawnCourt name path)).1 = .error e →
      e = "court table full" ∧ (after cs).courtCount = MAX_COURTS ∧
        ((after cs).step (.spawnCourt name path)).2 = after cs) ∧
    (∀ object rights e, ((after cs).step (.mintCap object rights)).1 = .error e →
      ((after cs).step (.mintCap object rights)).2 = after cs) ∧
    (∀ capId e, ((after cs).step (.revokeCap capId)).1 = .error e →
      ((after cs).step (.revokeCap capId)).2 = after cs) ∧
    (machine.log new cs).Pairwise (fun a b => ∀ id, Minted a id → ¬ Minted b id) ∧
    ∀ pre object rights post id, cs = pre ++ .mintCap object rights :: post →
      ((after pre).step (.mintCap object rights)).1 = .ok (.cap id) →
      (after cs).capRights id =
        if (.revokeCap id, .ok .unit) ∈
          machine.log ((after pre).step (.mintCap object rights)).2 post then some 0
        else some rights := by
  have h := after_consistent cs
  refine ⟨h.bound, fun name path e herror => ?_, fun object rights e herror => ?_,
    fun capId e herror => ?_, Tables.new.ids_distinct cs, ?_⟩
  · obtain ⟨hfull, hsame, hcount⟩ :=
      wp_error (h.spawnCourt name path) (eq_error_of_resultOf herror)
    exact ⟨hfull, hcount, hsame⟩
  · exact wp_error (h.mintCap object rights) (eq_error_of_resultOf herror)
  · exact wp_error (h.revokeCap capId) (eq_error_of_resultOf herror)
  · rintro pre object rights post id rfl hmint
    have hpre := after_tables pre
    have hnext : Tables ((after pre).step (.mintCap object rights)).2 :=
      (Call.prog_tables _).at_end _ hpre
    rw [after, Machine.run_append]
    exact hnext.run_rights (hpre.minted hmint).2 post

end RootCourt

end Object

end CourtKernel
