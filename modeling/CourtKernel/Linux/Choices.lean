import CourtKernel.Linux.Policy
import CourtKernel.Linux.Throughout

/-!
# Choices that go through hash tables

`find_app_court` and `find_recv_grant_court` of `crates/court-hosted-linux/src/root.rs` take the
first match in the order of a hash table, and `spawn_courts` starts the processes in such an order.

* `Host.reorder` — the same surroundings with other orders.
* `Listed` — what the tables hold, in terms of the manifest, the policy and the grants carried out:
  of several grants for one court and path the last one is left.
* `choices_order_free` — the app is the same for all orders.  The receiver is, exactly if the grants that
  are left give the right to receive to one court only, and then so is the whole run up to that wait.
* `recv_court_by_order` — with two such courts the choice depends on the order, and with it whether
  the run goes through.
-/

namespace CourtKernel

/-- An order for each table that the runner walks. -/
structure Host.Orders where
  courts : HashMap.Order String CourtId
  roles : HashMap.Order String CourtRole
  caps : HashMap.Order (String × String) (CapId × Rights)
  children : HashMap.Order String Child

def Host.reorder (host : Host) (o : Host.Orders) : Host :=
  { host with
    courtOrder := o.courts
    roleOrder := o.roles
    capOrder := o.caps
    childOrder := o.children }

/-! ## The tables -/

namespace RootState

/-- The rights that the grants leave for a court and a path: those of the last one. -/
def rightsLeft (done : List ResolvedGrant) (key : String × String) : Option Rights :=
  (done.reverse.find? fun grant => (grant.court, grant.path) = key).map (·.rights)

theorem rightsLeft_append (done : List ResolvedGrant) (grant : ResolvedGrant) (key : String × String) :
    rightsLeft (done ++ [grant]) key =
      if key = (grant.court, grant.path) then some grant.rights else rightsLeft done key := by
  rw [rightsLeft, List.reverse_append, List.reverse_singleton, List.singleton_append, List.find?_cons]
  by_cases hkey : (grant.court, grant.path) = key
  · simp [hkey]
  · simp [hkey, Ne.symm hkey, rightsLeft]

/-- The tables, in terms of the courts of a manifest, a policy and the grants carried out. -/
structure Listed (courts : List CourtManifest) (policy : PolicyFile) (done : List ResolvedGrant)
    (st : RootState) : Prop where
  ids : ∀ name, name ∈ st.courtIds ↔ name ∈ courts.map (·.name)
  roles : ∀ name role, st.courtRoles.lookup name = some role ↔ ⟨name, role⟩ ∈ courts
  plan : st.policy = policy
  keys : ∀ key, (st.capsByKey.lookup key).map Prod.snd = rightsLeft done key

variable {courts : List CourtManifest} {policy : PolicyFile} {done : List ResolvedGrant}
  {st st' : RootState}

/-- The other tables do not matter. -/
theorem Listed.congr (h : Listed courts policy done st) (hids : st'.courtIds = st.courtIds)
    (hroles : st'.courtRoles = st.courtRoles) (hpolicy : st'.policy = st.policy)
    (hkeys : st'.capsByKey = st.capsByKey) : Listed courts policy done st' := by
  obtain ⟨hi, hr, hp, hk⟩ := h
  rw [← hids] at hi
  rw [← hroles] at hr
  rw [← hpolicy] at hp
  rw [← hkeys] at hk
  exact ⟨hi, hr, hp, hk⟩

theorem listed_new (policy : PolicyFile) : Listed [] policy [] (new policy) where
  ids name := by simp only [new, Finmap.notMem_empty, List.map_nil, List.not_mem_nil]
  roles name role := by
    simp only [new, Finmap.lookup_empty, reduceCtorEq, List.not_mem_nil]
  plan := rfl
  keys _ := rfl

theorem createCourt_listed (h : Listed courts policy done st) {court : CourtManifest}
    (hnew : court.name ∉ courts.map (·.name)) :
    wp (createCourt court) (fun _ st' => Listed (courts ++ [court]) policy done st') (fun _ _ => True)
      st := by
  rw [createCourt, wp_modify]
  refine ⟨fun name => ?_, fun name role => ?_, h.plan, h.keys⟩
  · show name ∈ st.courtIds.insert court.name _ ↔ _
    rw [Finmap.mem_insert, h.ids, List.map_append, List.mem_append, List.map_singleton,
      List.mem_singleton, or_comm]
  · show (st.courtRoles.insert court.name court.role).lookup name = some role ↔ _
    rw [HashMap.lookup_insert_ite, List.mem_append, List.mem_singleton]
    split
    · rename_i hname
      subst hname
      rw [Option.some.injEq]
      refine ⟨fun hrole => Or.inr (by rw [← hrole]), fun hmem => hmem.elim (fun hold => ?_) ?_⟩
      · exact absurd (List.mem_map.2 ⟨_, hold, rfl⟩) hnew
      · exact fun heq => (congrArg CourtManifest.role heq).symm
    · rename_i hname
      rw [h.roles]
      exact (or_iff_left fun heq => hname (by rw [← heq])).symm

theorem callRoot_listed {α : Type} {method : HostedRoot → CkResult α × HostedRoot} :
    Keeps (Stays (Listed courts policy done)) (callRoot method) :=
  keeps_stays.2 fun _ h => wp_callRoot.2
    ⟨fun _ _ => h.congr rfl rfl rfl rfl, fun _ _ => h.congr rfl rfl rfl rfl⟩

theorem createCorridor_listed (corridor : CorridorManifest) :
    Keeps (Stays (Listed courts policy done)) (createCorridor corridor) :=
  .bind .get fun _ => .bind (.expect _ _) fun _ => .bind (.expect _ _) fun _ =>
    .bind callRoot_listed fun _ => .bind callRoot_listed fun _ =>
    .modify fun _ h => h.congr rfl rfl rfl rfl

/-- A grant replaces what an earlier one has left for its court and path. -/
theorem grantCap_listed (h : Listed courts policy done st) (grant : ResolvedGrant) :
    wp (grantCap grant.court grant.path grant.rights)
      (fun _ st' => Listed courts policy (done ++ [grant]) st') (fun _ _ => True) st := by
  rw [grantCap, wp_bind, wp_get, wp_bind, wp_expect]
  refine ⟨fun id _ => ?_, fun _ => trivial⟩
  rw [wp_bind, wp_expect]
  refine ⟨fun d _ => ?_, fun _ => trivial⟩
  rw [wp_bind]
  refine wp_mono (keeps_stays.1 callRoot_listed st h) (fun cap st₁ h₁ => ?_) fun _ _ _ => trivial
  rw [wp_bind, wp_modify, wp_pure]
  refine ⟨h₁.ids, h₁.roles, h₁.plan, fun key => ?_⟩
  show ((st₁.capsByKey.insert (grant.court, grant.path) (cap, grant.rights)).lookup key).map Prod.snd = _
  rw [HashMap.lookup_insert_ite, rightsLeft_append, ← h₁.keys key]
  split
  · rfl
  · rfl

end RootState

namespace Runner

open RootState (Listed)

variable {host : Host} {config : RootConfig} {done : List ResolvedGrant} {r : Runner}

/-- The runner with its tables as listed. -/
def Lists (config : RootConfig) (done : List ResolvedGrant) (r : Runner) : Prop :=
  Listed config.manifest.courts config.policy done r.state

theorem robust_lists : Robust (Lists config done) where
  aside _ _ _ _ _ h := h
  traced _ _ h := h.congr rfl rfl rfl rfl
  call _ _ h := h.congr rfl rfl rfl rfl
  received _ _ _ h := h
  sent _ _ _ _ h := h

theorem onState_lists {α : Type} {x : Prog RootState α}
    (hx : Keeps (Stays (Listed config.manifest.courts config.policy done)) x) :
    Keeps (Stays (Lists config done)) (onState x) :=
  keeps_stays.2 fun r h => wp_onState.2 (keeps_stays.1 hx r.state h)

theorem buildState_lists (hnodup : config.manifest.courtNames.Nodup)
    (hstate : r.state = .new config.policy) :
    wp (buildState host config) (fun _ r' => Lists config [] r') (fun _ _ => True) r := by
  have hcorridors : Keeps (Stays (Lists config []))
      (forM config.manifest.corridors (buildCorridor host config.runDir)) := by
    refine .forM (fun corridor => ?_) _
    refine .bind (onState_lists (RootState.createCorridor_listed corridor)) fun _ =>
      .bind robust_lists.createRing fun _ => onState_lists (.modify fun _ h => ?_)
    exact h.congr rfl rfl rfl rfl
  have hrest : ∀ _ : Unit, Keeps (Stays (Lists config [])) (do
      let first ← expect config.manifest.corridors.head? "manifest must define at least one corridor"
      onState (modify fun state =>
        { state with demo := ⟨first.path, config.manifest.demo.packetPayload⟩ })
      io host) := by
    refine fun _ => .bind (.expect _ _) fun _ => .bind (onState_lists (.modify fun _ h => ?_))
      fun _ => robust_lists.io
    exact h.congr rfl rfl rfl rfl
  rw [buildState, wp_bind]
  refine wp_mono (wp_forM (I := fun (courts : List CourtManifest) (r' : Runner) =>
    Listed courts config.policy [] r'.state) ?_ fun courts court rest hlist r' hI => ?_)
    (fun _ r₁ h₁ => wp_mono (keeps_stays.1 (hcorridors.bind hrest) r₁ h₁) (fun _ _ h₂ => h₂)
      fun _ _ _ => trivial) fun _ _ he => he
  · rw [hstate]
    exact RootState.listed_new _
  · rw [wp_onState]
    exact RootState.createCourt_listed hI (RootState.key_not_mem_done hnodup hlist)

/-! ## The choices -/

/-- There is one app. -/
theorem app_unique {courts : List CourtManifest} (h : courts.countP (·.role == .app) = 1)
    {court court' : CourtManifest} (hc : court ∈ courts) (hc' : court' ∈ courts)
    (hrole : court.role = .app) (hrole' : court'.role = .app) : court = court' := by
  rw [List.countP_eq_length_filter, List.length_eq_one_iff] at h
  obtain ⟨only, honly⟩ := h
  have hall : ∀ c ∈ courts, c.role = .app → c = only := by
    intro c hmem hr
    have hf : c ∈ courts.filter (·.role == .app) := List.mem_filter.2 ⟨hmem, beq_iff_eq.2 hr⟩
    rw [honly] at hf
    exact List.mem_singleton.1 hf
  rw [hall court hc hrole, hall court' hc' hrole']

theorem exists_app {manifest : ManifestFile} {policy : PolicyFile} (h : Valid manifest policy) :
    ∃ court ∈ manifest.courts, court.role = .app := by
  have hpos : 0 < manifest.courts.countP (·.role == .app) := by
    rw [h.app]
    exact Nat.zero_lt_one
  obtain ⟨court, hc, hrole⟩ := List.countP_pos_iff.1 hpos
  exact ⟨court, hc, beq_iff_eq.1 hrole⟩

/-- In any order the app is found. -/
theorem findAppCourt_eq (h : Lists config done r) (hone : config.manifest.courts.countP (·.role == .app) = 1)
    {court : CourtManifest} (hc : court ∈ config.manifest.courts) (hrole : court.role = .app) :
    findAppCourt host r = .ok court.name r := by
  have hmem : (court.name, .app) ∈ host.roleOrder.entries r.state.courtRoles := by
    rw [host.roleOrder.mem, h.roles, ← hrole]
    exact hc
  have hfind : ((host.roleOrder.entries r.state.courtRoles).find? fun entry => entry.2 == .app).map
      Prod.fst = some court.name := by
    cases he : (host.roleOrder.entries r.state.courtRoles).find? fun entry => entry.2 == .app with
    | none => exact absurd rfl (List.find?_eq_none.1 he _ hmem)
    | some entry =>
      obtain ⟨name, role⟩ := entry
      have hfound := List.find?_some he
      obtain rfl : role = .app := beq_iff_eq.1 hfound
      have hentry := (h.roles name .app).1
        ((host.roleOrder.mem _ _ _).1 (List.mem_of_find?_eq_some he))
      rw [← app_unique hone hentry hc rfl hrole]
      rfl
  refine eq_ok_of_wp ?_
  rw [findAppCourt, wp_bind, wp_get, hfind]
  exact (wp_pure _).2 ⟨rfl, rfl⟩

end Runner

namespace PolicyFile

variable {policy : PolicyFile}

/-- The last grant for a court and a path. -/
def lastGrant (policy : PolicyFile) (key : String × String) : Option GrantPolicy :=
  policy.grants.reverse.find? fun grant => (grant.court, grant.path) = key

theorem lastGrant_eq_some {key : String × String} {grant : GrantPolicy}
    (h : policy.lastGrant key = some grant) :
    grant ∈ policy.grants ∧ (grant.court, grant.path) = key := by
  have hfound := List.find?_some h
  exact ⟨List.mem_reverse.1 (List.mem_of_find?_eq_some h), of_decide_eq_true hfound⟩

/-- The grant is the last for its court and path, and it gives the right to receive. -/
def Receives (policy : PolicyFile) (grant : GrantPolicy) : Prop :=
  policy.lastGrant (grant.court, grant.path) = some grant ∧ grant.Gives .RECV

instance (grant : GrantPolicy) : Decidable (policy.Receives grant) :=
  inferInstanceAs (Decidable (_ ∧ _))

/-- The grants that are left give the right to receive to one court only. -/
def OneReceiver (policy : PolicyFile) : Prop :=
  ∀ grant ∈ policy.grants, ∀ grant' ∈ policy.grants, policy.Receives grant → policy.Receives grant' →
    grant.court = grant'.court

instance : Decidable policy.OneReceiver :=
  inferInstanceAs (Decidable (∀ _ ∈ _, ∀ _ ∈ _, _ → _ → _))

/-- What the grants of a policy leave, once their rights are read. -/
theorem rightsLeft_eq_some {grants : List ResolvedGrant} (h : statePolicyGrants policy = .ok grants)
    {key : String × String} {rights : Rights} :
    RootState.rightsLeft grants key = some rights ↔
      ∃ grant, policy.lastGrant key = some grant ∧ parseRights grant.rights = .ok rights := by
  have hall := List.forall₂_reverse_iff.2 (forall₂_of_mapM_eq_ok h)
  unfold RootState.rightsLeft lastGrant
  generalize policy.grants.reverse = entries, grants.reverse = resolved at hall
  induction hall with
  | nil => simp
  | @cons entry grant entries resolved hentry _ ih =>
    obtain ⟨rights', hrights, hgrant⟩ := bind_eq_ok.1 hentry
    obtain rfl := pure_eq_ok.1 hgrant
    rw [List.find?_cons, List.find?_cons]
    by_cases hkey : (entry.court, entry.path) = key
    · simp [hkey, hrights]
    · simpa [hkey] using ih

end PolicyFile

namespace Runner

/-- Every right to receive in the table comes from a grant that is left. -/
theorem Lists.receives (h : Lists config done r) (hdone : statePolicyGrants config.policy = .ok done)
    {key : String × String} {cap : CapId} {rights : Rights}
    (hkey : r.state.capsByKey.lookup key = some (cap, rights)) (hrecv : rights.contains .RECV = true) :
    ∃ grant ∈ config.policy.grants, grant.court = key.1 ∧ config.policy.Receives grant := by
  have hleft := h.keys key
  rw [hkey] at hleft
  obtain ⟨grant, hlast, hrights⟩ := (PolicyFile.rightsLeft_eq_some hdone).1 hleft.symm
  obtain ⟨hmem, rfl⟩ := PolicyFile.lastGrant_eq_some hlast
  exact ⟨grant, hmem, rfl, hlast, rights, hrights, hrecv⟩

/-- The right to receive of a grant that is left is in the table. -/
theorem Lists.listed (h : Lists config done r) (hdone : statePolicyGrants config.policy = .ok done)
    {grant : GrantPolicy} (hgrant : config.policy.Receives grant) :
    ∃ cap rights, r.state.capsByKey.lookup (grant.court, grant.path) = some (cap, rights) ∧
      rights.contains .RECV = true := by
  obtain ⟨hlast, rights, hrights, hrecv⟩ := hgrant
  have hleft := (PolicyFile.rightsLeft_eq_some hdone).2 ⟨grant, hlast, hrights⟩
  rw [← h.keys] at hleft
  obtain ⟨⟨cap, _⟩, hkey, rfl⟩ := Option.map_eq_some_iff.1 hleft
  exact ⟨cap, _, hkey, hrecv⟩

theorem findRecvGrantCourt_eq (host : Host) (r : Runner) :
    findRecvGrantCourt host r = expect (((host.capOrder.entries r.state.capsByKey).find? fun entry =>
      entry.2.2.contains .RECV).map fun entry => entry.1.1) "policy must grant one recv cap" r := rfl

/-- With one receiver, the same court is found in any order. -/
theorem findRecvGrantCourt_reorder (h : Lists config done r)
    (hdone : statePolicyGrants config.policy = .ok done) (hone : config.policy.OneReceiver)
    (o : Host.Orders) : findRecvGrantCourt (host.reorder o) r = findRecvGrantCourt host r := by
  have hfind := HashMap.Order.find?_map_eq o.caps host.capOrder r.state.capsByKey
    (p := fun entry => entry.2.2.contains .RECV) (f := fun entry => entry.1.1)
    fun x hx y hy hpx hpy => by
      obtain ⟨grant, hg, hcourt, hgives⟩ := h.receives hdone ((o.caps.mem _ _ _).1 hx) hpx
      obtain ⟨grant', hg', hcourt', hgives'⟩ := h.receives hdone ((o.caps.mem _ _ _).1 hy) hpy
      rw [← hcourt, ← hcourt', hone grant hg grant' hg' hgives hgives']
  rw [findRecvGrantCourt_eq, findRecvGrantCourt_eq]
  show expect (((o.caps.entries r.state.capsByKey).find? _).map _) _ r = _
  rw [hfind]

/-- Each court that a grant gives the right to receive is found in some order. -/
theorem exists_order_findRecvGrantCourt (host : Host) (h : Lists config done r)
    (hdone : statePolicyGrants config.policy = .ok done) {grant : GrantPolicy}
    (hgrant : config.policy.Receives grant) :
    ∃ o, findRecvGrantCourt (host.reorder o) r = .ok grant.court r := by
  obtain ⟨cap, rights, hkey, hrecv⟩ := h.listed hdone hgrant
  refine ⟨⟨host.courtOrder, host.roleOrder, host.capOrder.first (grant.court, grant.path),
    host.childOrder⟩, ?_⟩
  rw [findRecvGrantCourt_eq]
  show expect ((((host.capOrder.first _).entries r.state.capsByKey).find? _).map _) _ r = _
  rw [host.capOrder.find?_first _ hkey hrecv]
  rfl

/-! ## Starting the courts -/

/-- So many operations outside. -/
def ticks (host : Host) : Nat → Prog Runner Unit
  | 0 => pure ()
  | n + 1 => do
    io host
    ticks host n

theorem ticks_reorder (o : Host.Orders) (n : Nat) : ticks (host.reorder o) n = ticks host n := by
  induction n with
  | zero => rfl
  | succ n ih =>
    rw [ticks, ticks, ih]
    rfl

/-- The process that is started for a court. -/
def started (roles : HashMap String CourtRole) (court : String) : Child :=
  ⟨((roles.lookup court).map CourtRole.asProcessRole).getD "", court⟩

/-- The processes that are started for these courts. -/
def startedAll (roles : HashMap String CourtRole) (entries : List (String × CourtId))
    (children : HashMap String Child) : HashMap String Child :=
  entries.foldl (fun children entry => children.insert entry.1 (started roles entry.1)) children

theorem startedAll_perm (roles : HashMap String CourtRole) {entries entries' : List (String × CourtId)}
    (h : entries.Perm entries') (children : HashMap String Child) :
    startedAll roles entries children = startedAll roles entries' children := by
  refine h.foldl_eq' (fun x _ y _ z => ?_) children
  by_cases hxy : x.1 = y.1
  · rw [hxy]
  · exact Finmap.insert_insert_of_ne z hxy

/-- A court that has a role is started. -/
theorem spawn_step {court : String} {role : CourtRole}
    (h : r.state.courtRoles.lookup court = some role) (children : HashMap String Child) :
    (courtRole court >>= fun role => spawnCourt host role court >>= fun child =>
      pure (children.insert court child)) r =
      (io host >>= fun _ => pure (children.insert court (started r.state.courtRoles court))) r := by
  have hrole : courtRole court r = .ok role.asProcessRole r := by
    refine eq_ok_of_wp ?_
    rw [courtRole, wp_bind, wp_get, h]
    exact (wp_pure _).2 ⟨rfl, rfl⟩
  have hknown : role.asProcessRole = "app" ∨ role.asProcessRole = "net" := by
    cases role with
    | app => exact Or.inl rfl
    | net => exact Or.inr rfl
  have hstarted : started r.state.courtRoles court = ⟨role.asProcessRole, court⟩ := by
    rw [started, h]
    rfl
  rw [bind_eq_of_ok hrole, spawnCourt, if_pos hknown, hstarted, bind_assoc]
  rfl

/-- Courts that have a role are started one after the other. -/
theorem spawn_eq (entries : List (String × CourtId)) (children : HashMap String Child)
    (h : ∀ entry ∈ entries, ∃ role, r.state.courtRoles.lookup entry.1 = some role) :
    List.foldlM (m := Prog Runner) (fun children (entry : String × CourtId) => do
      let role ← courtRole entry.1
      let child ← spawnCourt host role entry.1
      return children.insert entry.1 child) children entries r =
      (ticks host entries.length >>= fun _ =>
        pure (startedAll r.state.courtRoles entries children)) r := by
  induction entries generalizing children r with
  | nil => rfl
  | cons entry entries ih =>
    obtain ⟨role, hrole⟩ := h entry List.mem_cons_self
    have hrest := fun e he => h e (List.mem_cons_of_mem _ he)
    rw [List.foldlM_cons, List.length_cons, ticks]
    refine (bind_congr_left (spawn_step hrole children)).trans ?_
    rw [bind_assoc, bind_assoc]
    refine bind_congr_of_wp rfl (wp_io ?_ fun _ => trivial)
    rw [pure_bind]
    exact ih _ hrest

/-- Every court that is listed has a role, and so it is started. -/
theorem spawnCourts_eq (h : Lists config done r) :
    spawnCourts host r = (ticks host (host.courtOrder.entries r.state.courtIds).length >>= fun _ =>
      pure (startedAll r.state.courtRoles (host.courtOrder.entries r.state.courtIds) ∅)) r := by
  refine spawn_eq _ ∅ ?_
  rintro ⟨name, id⟩ hentry
  have hname := (h.ids name).1 (Finmap.mem_of_lookup_eq_some ((host.courtOrder.mem _ _ _).1 hentry))
  obtain ⟨court, hc, rfl⟩ := List.mem_map.1 hname
  exact ⟨court.role, (h.roles _ _).2 hc⟩

/-- In any order the same processes are started. -/
theorem spawnCourts_reorder (h : Lists config done r) (o : Host.Orders) :
    spawnCourts (host.reorder o) r = spawnCourts host r := by
  have hperm : (o.courts.entries r.state.courtIds).Perm (host.courtOrder.entries r.state.courtIds) :=
    HashMap.Order.perm o.courts host.courtOrder r.state.courtIds
  calc spawnCourts (host.reorder o) r
      = (ticks (host.reorder o) (o.courts.entries r.state.courtIds).length >>= fun _ =>
          pure (startedAll r.state.courtRoles (o.courts.entries r.state.courtIds) ∅)) r :=
        spawnCourts_eq h
    _ = (ticks host (host.courtOrder.entries r.state.courtIds).length >>= fun _ =>
          pure (startedAll r.state.courtRoles (host.courtOrder.entries r.state.courtIds) ∅)) r := by
        rw [ticks_reorder, hperm.length_eq, startedAll_perm _ hperm]
    _ = spawnCourts host r := (spawnCourts_eq h).symm

/-! ## Tables along the run -/

theorem connect_lists (files : HashMap String SharedRing) :
    wp (connect host config) (fun _ r' => Valid config.manifest config.policy ∧ Lists config [] r')
      (fun _ _ => True) (.new host config.policy files) := by
  rw [connect, wp_bind, wp_ofExcept]
  refine ⟨fun _ hv => ?_, fun _ _ => trivial⟩
  have hvalid := validate_eq_ok.1 hv
  rw [wp_bind]
  refine wp_io ?_ fun _ => trivial
  rw [wp_bind]
  refine wp_io ?_ fun _ => trivial
  rw [wp_bind]
  refine wp_mono (buildState_lists hvalid.courts.2 rfl) (fun _ r₁ h₁ => ?_) fun _ _ he => he
  rw [wp_bind, wp_get]
  have hrest : Keeps (Stays (Lists config [])) (do
      record host ((WireTrace.new "lookup" "root" .ok).withPath r₁.state.demo.path)
      let children ← spawnCourts host
      acceptPeers host children.keys.card r₁.state.demo (connections host)
      return children) :=
    .bind (robust_lists.record _) fun _ => .bind robust_lists.spawnCourts fun _ =>
      .bind (robust_lists.acceptPeers _ _ _) fun _ => .pure _
  exact wp_mono (keeps_stays.1 hrest r₁ h₁) (fun _ _ h₂ => ⟨hvalid, h₂⟩) fun _ _ _ => trivial

theorem carryOutGrants_lists (h : Lists config [] r) :
    wp (carryOutGrants host) (fun _ r' => ∃ grants, statePolicyGrants config.policy = .ok grants ∧
      Lists config grants r') (fun _ _ => True) r := by
  have hstart : ∀ appName, Keeps (Stays (Lists config [])) (do
      let app ← getPeer appName s!"{appName} court did not connect to root"
      handleAppLookupAndDeniedOpen host app appName) := fun appName =>
    .bind keeps_getPeer fun _ => .bind robust_lists.handleAppLookup fun _ => robust_lists.handleDeniedOpen
  rw [carryOutGrants, wp_bind]
  have hfind : Keeps (Stays (Lists config [])) (findAppCourt host) := .bind .get fun _ => .expect _ _
  refine wp_mono (keeps_stays.1 hfind r h) (fun appName r₁ h₁ => ?_) fun _ _ _ => trivial
  rw [← bind_assoc, wp_bind]
  refine wp_mono (keeps_stays.1 (hstart appName) r₁ h₁) (fun _ r₂ h₂ => ?_) fun _ _ _ => trivial
  rw [wp_bind, wp_get, wp_bind, wp_ofExcept, h₂.plan]
  refine ⟨fun grants hgrants => ?_, fun _ _ => trivial⟩
  rw [wp_bind]
  refine wp_mono (wp_forM (I := fun done r' => Lists config done r') h₂
    fun done grant rest _ r' h' => ?_)
    (fun _ _ h' => (wp_pure _).2 ⟨grants, hgrants, h'⟩) fun _ _ h' => h'
  rw [wp_bind]
  refine wp_mono (keeps_stays.1 keeps_getPeer r' h') (fun peer r₃ h₃ => ?_) fun _ _ _ => trivial
  rw [wp_bind]
  refine wp_mono (robust_lists.handleGrantAndOpen (fun _ _ _ h => h) (J := Lists config (done ++ [grant]))
    (wp_onState.2 (RootState.grantCap_listed h₃ grant))) (fun _ _ h₄ => (wp_pure _).2 h₄) fun _ _ he => he

/-! ## Other orders -/

theorem acceptPeers_reorder (o : Host.Orders) (count : Nat) (demo : WireDemoConfig)
    (pending : List JsonLinePeer) :
    acceptPeers (host.reorder o) count demo pending = acceptPeers host count demo pending := by
  induction pending with
  | nil => rfl
  | cons peer pending ih =>
    rw [acceptPeers, acceptPeers, ih]
    rfl

theorem connect_reorder (files : HashMap String SharedRing) (o : Host.Orders) :
    connect (host.reorder o) config (.new host config.policy files) =
      connect host config (.new host config.policy files) := by
  refine bind_congr_of_wp rfl (wp_ofExcept.2 ⟨fun _ hv => ?_, fun _ _ => trivial⟩)
  refine bind_congr_of_wp rfl (wp_io ?_ fun _ => trivial)
  refine bind_congr_of_wp rfl (wp_io ?_ fun _ => trivial)
  refine bind_congr_of_wp rfl (wp_mono (buildState_lists (validate_eq_ok.1 hv).courts.2 rfl)
    (fun _ r₁ h₁ => ?_) fun _ _ he => he)
  refine bind_congr_of_wp rfl (wp_get.2 ?_)
  refine bind_congr_of_wp rfl (wp_mono (keeps_stays.1 (robust_lists.record _) r₁ h₁)
    (fun _ r₂ h₂ => ?_) fun _ _ _ => trivial)
  refine bind_congr_of_wp (spawnCourts_reorder h₂ o) (wp_mono (wp_true _ _) (fun children _ _ => ?_)
    fun _ _ _ => trivial)
  rw [acceptPeers_reorder]
  rfl

theorem carryOutGrants_reorder (hv : Valid config.manifest config.policy) (h : Lists config done r)
    (o : Host.Orders) : carryOutGrants (host.reorder o) r = carryOutGrants host r := by
  obtain ⟨court, hc, hrole⟩ := exists_app hv
  refine bind_congr_left ?_
  rw [findAppCourt_eq h hv.app hc hrole, findAppCourt_eq h hv.app hc hrole]

theorem awaitTraces_reorder (h : Lists config done r)
    (hdone : statePolicyGrants config.policy = .ok done) (hone : config.policy.OneReceiver)
    (o : Host.Orders) (appName : String) :
    awaitTraces (host.reorder o) appName r = awaitTraces host appName r := by
  refine bind_congr_of_wp rfl (wp_mono (keeps_stays.1 keeps_getPeer r h) (fun app r₁ h₁ => ?_)
    fun _ _ _ => trivial)
  refine bind_congr_of_wp rfl (wp_mono (keeps_stays.1 robust_lists.recordTraceFrom r₁ h₁)
    (fun _ r₂ h₂ => ?_) fun _ _ _ => trivial)
  exact bind_congr_left (findRecvGrantCourt_reorder h₂ hdone hone o)

theorem serveGrants_reorder (hv : Valid config.manifest config.policy) (h : Lists config [] r)
    (hone : config.policy.OneReceiver) (o : Host.Orders) :
    serveGrants (host.reorder o) r = serveGrants host r := by
  rw [serveGrants_eq, serveGrants_eq]
  refine bind_congr_of_wp (carryOutGrants_reorder hv h o) (wp_mono
    (carryOutGrants_lists h) (fun appName r₁ h₁ => ?_) fun _ _ he => he)
  obtain ⟨grants, hgrants, h₁⟩ := h₁
  exact awaitTraces_reorder h₁ hgrants hone o appName

/-- The choices of the runner, over all orders of its tables.  The app is found whatever the order.
After the grants, the receiver is the same whatever the order exactly if the grants that are left give
the right to receive to one court only; then the run goes the same way until only the processes are
waited for. -/
theorem choices_order_free {files : HashMap String SharedRing} :
    (∀ children r, connect host config (.new host config.policy files) = .ok children r →
      ∃ court ∈ config.manifest.courts, court.role = .app ∧
        ∀ o, findAppCourt (host.reorder o) r = .ok court.name r) ∧
    (∀ app r, (connect host config >>= fun _ => carryOutGrants host)
        (.new host config.policy files) = .ok app r →
      ((∀ o, findRecvGrantCourt (host.reorder o) r = findRecvGrantCourt host r) ↔
        config.policy.OneReceiver)) ∧
    runManifestDemo host config = untilExit host config >>= awaitChildren host ∧
    (config.policy.OneReceiver → ∀ o,
      untilExit (host.reorder o) config (.new host config.policy files) =
        untilExit host config (.new host config.policy files)) := by
  have hconnect : wp (connect host config) _ _ (.new host config.policy files) := connect_lists files
  refine ⟨fun children r hr => ?_, fun app r hr => ?_, runManifestDemo_eq host config,
    fun hone o => ?_⟩
  · obtain ⟨hv, h⟩ := wp_ok hconnect hr
    obtain ⟨court, hc, hrole⟩ := exists_app hv
    exact ⟨court, hc, hrole, fun o => findAppCourt_eq h hv.app hc hrole⟩
  · obtain ⟨grants, hgrants, h⟩ : ∃ grants, statePolicyGrants config.policy = .ok grants ∧
        Lists config grants r := by
      refine wp_ok (Q := fun _ r' => ∃ grants, statePolicyGrants config.policy = .ok grants ∧
        Lists config grants r') (E := fun _ _ => True) ?_ hr
      rw [wp_bind]
      exact wp_mono hconnect (fun _ r₁ h₁ => carryOutGrants_lists h₁.2) fun _ _ he => he
    refine ⟨fun hsame grant _ grant' _ hr hr' => ?_, findRecvGrantCourt_reorder h hgrants⟩
    obtain ⟨o, ho⟩ := exists_order_findRecvGrantCourt host h hgrants hr
    obtain ⟨o', ho'⟩ := exists_order_findRecvGrantCourt host h hgrants hr'
    rw [hsame o, ← hsame o', ho'] at ho
    exact (EStateM.Result.ok.inj ho).1.symm
  · have hreordered : wp (connect (host.reorder o) config) _ _ (.new host config.policy files) :=
      connect_lists files
    refine bind_congr_of_wp (connect_reorder files o) (wp_mono hreordered
      (fun children r₁ h₁ => ?_) fun _ _ he => he)
    exact bind_congr_left (serveGrants_reorder h₁.1 h₁.2 hone o)

/-- The demo gets through its grants, and one court is granted the right to receive. -/
theorem choices_order_free_packet_rx :
    let host := Host.scripted demoScripts fun _ => ⟨some 0, ""⟩
    let config : RootConfig := ⟨"run", .builtinPacketRx, .builtinPacketRx⟩
    ∃ r, (connect host config >>= fun _ => carryOutGrants host)
        (.new host .builtinPacketRx ∅) = .ok "app" r ∧
      ∀ o, findRecvGrantCourt (host.reorder o) r = findRecvGrantCourt host r := by
  have hrun := eq_ok_of_resultOf (a := "app") (r := (connect (.scripted demoScripts fun _ =>
      ⟨some 0, ""⟩) ⟨"run", .builtinPacketRx, .builtinPacketRx⟩ >>= fun _ =>
      carryOutGrants (.scripted demoScripts fun _ => ⟨some 0, ""⟩))
      (.new (.scripted demoScripts fun _ => ⟨some 0, ""⟩) .builtinPacketRx ∅)) (by decide +kernel)
  exact ⟨_, hrun, (choices_order_free.2.1 "app" _ hrun).2 (by decide +kernel)⟩

/-! ## Two receivers -/

def twoReceivers : ManifestFile :=
  { version := 1
    courts := [⟨"app", .app⟩, ⟨"net0", .net⟩, ⟨"net1", .net⟩]
    corridors := [⟨"/court/net0/packet/rx", .sharedRing, "app", "net0", 64, 2048⟩,
      ⟨"/court/net1/packet/rx", .sharedRing, "app", "net1", 64, 2048⟩]
    demo := ⟨"mvp0c-packet"⟩ }

def twoReceiversPolicy : PolicyFile :=
  { version := 1
    grants := [⟨"net0", "/court/net0/packet/rx", ["recv"]⟩,
      ⟨"net1", "/court/net1/packet/rx", ["recv"]⟩, ⟨"app", "/court/net0/packet/rx", ["send"]⟩]
    revokes := []
    faults := []
    peerDown := [] }

/-- The app sends to the first receiver; the second waits for a packet. -/
def twoReceiversHost : Host :=
  .scripted
    [[.hello "app", .lookup "/court/net0/packet/rx",
        .open "/court/net0/packet/rx" none (.fromRights .SEND),
        .open "/court/net0/packet/rx" (some ⟨5, .fromRights .SEND⟩) (.fromRights .SEND),
        .trace (.new "send" "app" .ok)],
      [.hello "net0",
        .open "/court/net0/packet/rx" (some ⟨3, .fromRights .RECV⟩) (.fromRights .RECV),
        .trace (.new "recv" "net0" .ok)],
      [.hello "net1",
        .open "/court/net1/packet/rx" (some ⟨4, .fromRights .RECV⟩) (.fromRights .RECV)]]
    fun _ => ⟨some 0, ""⟩

/-- Capabilities by their keys, from the last to the first. -/
def capsReversed : Host.Orders :=
  ⟨twoReceiversHost.courtOrder, twoReceiversHost.roleOrder,
    .sorted (fun key => OrderDual.toDual (toLex key))
      (OrderDual.toDual.injective.comp toLex.injective),
    twoReceiversHost.childOrder⟩

/-- The validator accepts two receivers.  In one order of the capabilities the first is chosen and
the run returns; in the other the second is chosen, which has nothing to say. -/
theorem recv_court_by_order :
    let config : RootConfig := ⟨"run", twoReceivers, twoReceiversPolicy⟩
    let start := Runner.new twoReceiversHost twoReceiversPolicy ∅
    let chosen := fun host => resultOf ((connect host config >>= fun _ => carryOutGrants host >>=
      fun _ => findRecvGrantCourt host) start)
    validate twoReceivers twoReceiversPolicy = .ok () ∧
      chosen twoReceiversHost = .ok "net0" ∧
      chosen (twoReceiversHost.reorder capsReversed) = .ok "net1" ∧
      resultOf (runManifestDemo twoReceiversHost config start) = .ok () ∧
      resultOf (runManifestDemo (twoReceiversHost.reorder capsReversed) config start) =
        .error "control channel closed" := by
  decide +kernel

end Runner

end CourtKernel
