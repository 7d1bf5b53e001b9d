import CourtKernel.Hosted.Types
import CourtKernel.Lib.Checks
import Mathlib.Data.Finset.Union

/-!
# Manifests and policies

Reference model of `crates/court-hosted-linux/src/manifest.rs`: what a manifest and a policy
declare, and the validator that runs before anything else does.

* `validate` — the checks, in the order and with the texts of the source.  Its loops are
  `validateCourt`, `validateCorridor`, `validateGrant` and so on, one turn each.
* `Valid` — what a manifest and a policy have to satisfy, without an order of checks.
* `validate_eq_ok` — the validator accepts exactly the valid ones.

Reading the two files is left out: a manifest is what the parser returns.
-/

namespace CourtKernel

def SCHEMA_VERSION : UInt32 := 1

/-- The linear demo pipeline.  A policy's `after` names a phase strictly before its action. -/
def PHASE_ORDER : List String :=
  ["lookup", "open_denied", "grant", "open", "send", "recv", "revoke", "send_after_revoke",
    "fault", "court_fault", "peer_down", "demo_done"]

inductive CourtRole where
  | app
  | net
  deriving DecidableEq, Repr

def CourtRole.asProcessRole : CourtRole → String
  | .app => "app"
  | .net => "net"

structure CourtManifest where
  name : String
  role : CourtRole
  deriving DecidableEq, Repr

inductive ManifestTransport where
  | sharedRing
  deriving DecidableEq, Repr

structure CorridorManifest where
  path : String
  transport : ManifestTransport
  «from» : String
  «to» : String
  capacity : UInt32
  slotSize : UInt32
  deriving DecidableEq, Repr

structure DemoManifest where
  packetPayload : String
  deriving DecidableEq, Repr

structure ManifestFile where
  version : UInt32
  courts : List CourtManifest
  corridors : List CorridorManifest
  demo : DemoManifest
  deriving DecidableEq, Repr

structure GrantPolicy where
  court : String
  path : String
  rights : List String
  deriving DecidableEq, Repr

structure RevokePolicy where
  court : String
  path : String
  after : String
  deriving DecidableEq, Repr

structure FaultPolicy where
  court : String
  after : String
  reason : String
  deriving DecidableEq, Repr

structure PeerDownPolicy where
  court : String
  path : String
  after : String
  deriving DecidableEq, Repr

structure PolicyFile where
  version : UInt32
  grants : List GrantPolicy
  revokes : List RevokePolicy
  faults : List FaultPolicy
  peerDown : List PeerDownPolicy
  deriving DecidableEq, Repr

/-- The manifest that is compiled in, `fixtures/packet-rx/manifest.json`. -/
def ManifestFile.builtinPacketRx : ManifestFile :=
  { version := 1
    courts := [⟨"app", .app⟩, ⟨"net0", .net⟩]
    corridors := [⟨"/court/net0/packet/rx", .sharedRing, "app", "net0", 64, 2048⟩]
    demo := ⟨"mvp0c-packet"⟩ }

/-- The policy that is compiled in, `fixtures/packet-rx/policy.json`. -/
def PolicyFile.builtinPacketRx : PolicyFile :=
  { version := 1
    grants := [⟨"net0", "/court/net0/packet/rx", ["recv", "observe"]⟩,
      ⟨"app", "/court/net0/packet/rx", ["send", "observe"]⟩]
    revokes := [⟨"app", "/court/net0/packet/rx", "recv"⟩]
    faults := [⟨"net0", "revoke", "mvp0c simulated net court crash"⟩]
    peerDown := [⟨"app", "/court/net0/packet/rx", "fault"⟩] }

/-! ## The checks -/

/-- One word of a grant. -/
def parseRight (value : String) : Except String Rights :=
  if value = "read" then .ok .READ
  else if value = "write" then .ok .WRITE
  else if value = "send" then .ok .SEND
  else if value = "recv" then .ok .RECV
  else if value = "delegate" then .ok .DELEGATE
  else if value = "revoke" then .ok .REVOKE
  else if value = "observe" then .ok .OBSERVE
  else .error s!"unknown right {value}"

def parseRights (values : List String) : Except String Rights :=
  values.foldlM (fun rights value => do
    let right ← parseRight value
    return rights ||| right) .NONE

def phaseIndex (name : String) : Option Nat := PHASE_ORDER.findIdx? fun phase => phase == name

def requireSchema (kind : String) (version : UInt32) : Except String Unit :=
  refuseIf (version ≠ SCHEMA_VERSION)
    s!"unsupported {kind} version {version}, expected {SCHEMA_VERSION}"

def requirePhaseBefore (after action : String) : Except String Unit :=
  match phaseIndex after with
  | none => .error s!"unknown policy after phase '{after}'"
  | some afterIdx =>
    match phaseIndex action with
    | none => .error s!"unknown action phase '{action}'"
    | some actionIdx => refuseIf (afterIdx ≥ actionIdx)
        s!"policy after '{after}' is not before '{action}' in the MVP-0C pipeline"

def requireCourt (courts : Finset String) (court : String) : Except String Unit :=
  refuseIf (court ∉ courts) s!"policy references unknown court {court}"

def requirePath (paths : Finset String) (path : String) : Except String Unit :=
  refuseIf (path ∉ paths) s!"policy references unknown corridor path {path}"

/-- The loop over the courts; it collects the names and counts the roles. -/
def validateCourt (found : Finset String × Nat × Nat) (court : CourtManifest) :
    Except String (Finset String × Nat × Nat) := do
  let (courts, appCount, netCount) := found
  refuseIf (court.name = "") "court name must not be empty"
  refuseIf (court.name ∈ courts) s!"duplicate court name {court.name}"
  match court.role with
  | .app => return (insert court.name courts, appCount + 1, netCount)
  | .net => return (insert court.name courts, appCount, netCount + 1)

/-- `path.starts_with("/court/")` -/
def underCourt (path : String) : Prop := "/court/".toList <+: path.toList

instance (path : String) : Decidable (underCourt path) :=
  inferInstanceAs (Decidable (_ <+: _))

/-- The loop over the corridors; it collects the paths. -/
def validateCorridor (courts paths : Finset String) (corridor : CorridorManifest) :
    Except String (Finset String) := do
  refuseIf (¬ underCourt corridor.path ∨ corridor.path = "/court/")
    s!"corridor path {corridor.path} must be under /court/<name>/..."
  refuseIf (corridor.path ∈ paths) s!"duplicate corridor path {corridor.path}"
  refuseIf (corridor.from = corridor.to) s!"corridor {corridor.path} endpoints must be distinct"
  refuseIf (corridor.from ∉ courts)
    s!"corridor {corridor.path} references missing from court {corridor.from}"
  refuseIf (corridor.to ∉ courts)
    s!"corridor {corridor.path} references missing to court {corridor.to}"
  refuseIf (corridor.capacity = 0) s!"corridor {corridor.path} capacity must be nonzero"
  refuseIf (corridor.slotSize = 0) s!"corridor {corridor.path} slot_size must be nonzero"
  return insert corridor.path paths

/-- The loop over the grants; it collects the pairs granted for, and whether somebody may send and
somebody may receive. -/
def validateGrant (courts paths : Finset String) (found : Finset (String × String) × Bool × Bool)
    (grant : GrantPolicy) : Except String (Finset (String × String) × Bool × Bool) := do
  let (grantKeys, hasSend, hasRecv) := found
  requireCourt courts grant.court
  requirePath paths grant.path
  refuseIf (grant.rights = [])
    s!"grant for court {grant.court} path {grant.path} must declare rights"
  let rights ← parseRights grant.rights
  return (insert (grant.court, grant.path) grantKeys, hasSend || rights.contains .SEND,
    hasRecv || rights.contains .RECV)

def validateRevoke (courts paths : Finset String) (grantKeys : Finset (String × String))
    (revoke : RevokePolicy) : Except String Unit := do
  requireCourt courts revoke.court
  requirePath paths revoke.path
  refuseIf ((revoke.court, revoke.path) ∉ grantKeys)
    s!"revoke court={revoke.court} path={revoke.path} does not match a grant"
  requirePhaseBefore revoke.after "revoke"

def validateFault (courts : Finset String) (fault : FaultPolicy) : Except String Unit := do
  requireCourt courts fault.court
  refuseIf (fault.reason = "") s!"fault for court {fault.court} must include a reason"
  requirePhaseBefore fault.after "fault"

def validatePeerDown (courts paths : Finset String) (peerDown : PeerDownPolicy) :
    Except String Unit := do
  requireCourt courts peerDown.court
  requirePath paths peerDown.path
  requirePhaseBefore peerDown.after "peer_down"

def validate (manifest : ManifestFile) (policy : PolicyFile) : Except String Unit := do
  requireSchema "manifest" manifest.version
  requireSchema "policy" policy.version
  refuseIf (manifest.demo.packetPayload = "") "demo packet_payload must not be empty"
  let (courts, appCount, netCount) ← manifest.courts.foldlM validateCourt (∅, 0, 0)
  refuseIf (appCount ≠ 1)
    s!"MVP-0C manifest must declare exactly one app court, found {appCount}"
  refuseIf (netCount < 1) "MVP-0C manifest must declare at least one net court"
  refuseIf (manifest.corridors = []) "MVP-0C manifest must declare at least one corridor"
  let paths ← manifest.corridors.foldlM (validateCorridor courts) ∅
  refuseIf (policy.grants = []) "policy must declare at least one grant"
  let (grantKeys, hasSend, hasRecv) ←
    policy.grants.foldlM (validateGrant courts paths) (∅, false, false)
  refuseIf (hasSend = false) "policy must grant send on at least one corridor"
  refuseIf (hasRecv = false) "policy must grant recv on at least one corridor"
  forM policy.revokes (validateRevoke courts paths grantKeys)
  forM policy.faults (validateFault courts)
  forM policy.peerDown (validatePeerDown courts paths)

/-! ## What is accepted -/

namespace ManifestFile

def courtNames (manifest : ManifestFile) : List String := manifest.courts.map (·.name)

def paths (manifest : ManifestFile) : List String := manifest.corridors.map (·.path)

end ManifestFile

/-- The pairs of court and path that a policy grants for. -/
def PolicyFile.grantKeys (policy : PolicyFile) : List (String × String) :=
  policy.grants.map fun grant => (grant.court, grant.path)

/-- `after` names a phase of the pipeline strictly before `action`. -/
def PhaseBefore (after action : String) : Prop :=
  ∃ i j, phaseIndex after = some i ∧ phaseIndex action = some j ∧ i < j

structure CorridorManifest.Valid (courts : List String) (corridor : CorridorManifest) : Prop where
  under : underCourt corridor.path ∧ corridor.path ≠ "/court/"
  distinct : corridor.from ≠ corridor.to
  «from» : corridor.from ∈ courts
  «to» : corridor.to ∈ courts
  capacity : corridor.capacity ≠ 0
  slotSize : corridor.slotSize ≠ 0

structure GrantPolicy.Valid (courts paths : List String) (grant : GrantPolicy) : Prop where
  court : grant.court ∈ courts
  path : grant.path ∈ paths
  some : grant.rights ≠ []
  known : ∃ rights, parseRights grant.rights = .ok rights

/-- The grant gives `right`. -/
def GrantPolicy.Gives (right : Rights) (grant : GrantPolicy) : Prop :=
  ∃ rights, parseRights grant.rights = .ok rights ∧ rights.contains right = true

/-- What a manifest and a policy have to satisfy. -/
structure Valid (manifest : ManifestFile) (policy : PolicyFile) : Prop where
  versions : manifest.version = SCHEMA_VERSION ∧ policy.version = SCHEMA_VERSION
  payload : manifest.demo.packetPayload ≠ ""
  courts : (∀ name ∈ manifest.courtNames, name ≠ "") ∧ manifest.courtNames.Nodup
  app : manifest.courts.countP (·.role == .app) = 1
  net : 1 ≤ manifest.courts.countP (·.role == .net)
  nonempty : manifest.corridors ≠ []
  corridors : ∀ corridor ∈ manifest.corridors, corridor.Valid manifest.courtNames
  paths : manifest.paths.Nodup
  grants : policy.grants ≠ [] ∧
    ∀ grant ∈ policy.grants, grant.Valid manifest.courtNames manifest.paths
  send : ∃ grant ∈ policy.grants, grant.Gives .SEND
  recv : ∃ grant ∈ policy.grants, grant.Gives .RECV
  revokes : ∀ revoke ∈ policy.revokes, revoke.court ∈ manifest.courtNames ∧
    revoke.path ∈ manifest.paths ∧ (revoke.court, revoke.path) ∈ policy.grantKeys ∧
    PhaseBefore revoke.after "revoke"
  faults : ∀ fault ∈ policy.faults, fault.court ∈ manifest.courtNames ∧ fault.reason ≠ "" ∧
    PhaseBefore fault.after "fault"
  peerDown : ∀ down ∈ policy.peerDown, down.court ∈ manifest.courtNames ∧
    down.path ∈ manifest.paths ∧ PhaseBefore down.after "peer_down"

@[simp] theorem requireSchema_eq_ok {kind : String} {version : UInt32} {u : Unit} :
    requireSchema kind version = .ok u ↔ version = SCHEMA_VERSION := by
  rw [requireSchema, refuseIf_eq_ok, not_not]

@[simp] theorem requireCourt_eq_ok {courts : Finset String} {court : String} {u : Unit} :
    requireCourt courts court = .ok u ↔ court ∈ courts := by
  rw [requireCourt, refuseIf_eq_ok, not_not]

@[simp] theorem requirePath_eq_ok {paths : Finset String} {path : String} {u : Unit} :
    requirePath paths path = .ok u ↔ path ∈ paths := by
  rw [requirePath, refuseIf_eq_ok, not_not]

@[simp] theorem requirePhaseBefore_eq_ok {after action : String} {u : Unit} :
    requirePhaseBefore after action = .ok u ↔ PhaseBefore after action := by
  unfold requirePhaseBefore PhaseBefore
  cases ha : phaseIndex after with
  | none => simp
  | some i =>
    cases hb : phaseIndex action with
    | none => simp
    | some j => simp

/-- One turn of the loop over the courts. -/
theorem validateCourt_eq_ok {names : Finset String} {apps nets : Nat} {court : CourtManifest}
    {found : Finset String × Nat × Nat} :
    validateCourt (names, apps, nets) court = .ok found ↔
      court.name ≠ "" ∧ court.name ∉ names ∧
        found = (insert court.name names, apps + (if court.role == .app then 1 else 0),
          nets + if court.role == .net then 1 else 0) := by
  simp only [validateCourt, bind_eq_ok, refuseIf_eq_ok, exists_const]
  refine and_congr Iff.rfl (and_congr Iff.rfl ?_)
  cases hr : court.role with
  | app => exact pure_eq_ok
  | net => exact pure_eq_ok

/-- The loop over the courts. -/
theorem foldlM_validateCourt {courts : List CourtManifest} {names : Finset String} {apps nets : Nat}
    {found : Finset String × Nat × Nat} :
    courts.foldlM validateCourt (names, apps, nets) = .ok found ↔
      (∀ court ∈ courts, court.name ≠ "") ∧
      ((∀ court ∈ courts, court.name ∉ names) ∧ (courts.map (·.name)).Nodup) ∧
      found = (names ∪ (courts.map (·.name)).toFinset, apps + courts.countP (·.role == .app),
        nets + courts.countP (·.role == .net)) := by
  induction courts generalizing names apps nets with
  | nil =>
    rw [foldlM_nil_eq_ok]
    simp
  | cons court courts ih =>
    rw [foldlM_cons_eq_ok, fresh_cons, List.forall_mem_cons, List.countP_cons, List.countP_cons,
      List.map_cons, List.toFinset_cons, Finset.union_insert, ← Finset.insert_union]
    simp only [validateCourt_eq_ok]
    constructor
    · rintro ⟨_, ⟨hname, hnew, rfl⟩, hrest⟩
      obtain ⟨hnames, hfresh, rfl⟩ := ih.1 hrest
      exact ⟨⟨hname, hnames⟩, ⟨hnew, hfresh⟩, by congr 2 <;> omega⟩
    · rintro ⟨⟨hname, hnames⟩, ⟨hnew, hfresh⟩, rfl⟩
      exact ⟨_, ⟨hname, hnew, rfl⟩, ih.2 ⟨hnames, hfresh, by congr 2 <;> omega⟩⟩

/-- One turn of the loop over the corridors. -/
theorem validateCorridor_eq_ok {courts : List String} {paths found : Finset String}
    {corridor : CorridorManifest} :
    validateCorridor courts.toFinset paths corridor = .ok found ↔
      corridor.Valid courts ∧ corridor.path ∉ paths ∧ found = insert corridor.path paths := by
  simp only [validateCorridor, bind_eq_ok, refuseIf_eq_ok, exists_const, pure_eq_ok, not_or,
    not_not, List.mem_toFinset]
  constructor
  · rintro ⟨hunder, hnew, hne, hfrom, hto, hcap, hslot, rfl⟩
    exact ⟨⟨hunder, hne, hfrom, hto, hcap, hslot⟩, hnew, rfl⟩
  · rintro ⟨⟨hunder, hne, hfrom, hto, hcap, hslot⟩, hnew, rfl⟩
    exact ⟨hunder, hnew, hne, hfrom, hto, hcap, hslot, rfl⟩

/-- The loop over the corridors. -/
theorem foldlM_validateCorridor {courts : List String} {corridors : List CorridorManifest}
    {paths found : Finset String} :
    corridors.foldlM (validateCorridor courts.toFinset) paths = .ok found ↔
      (∀ corridor ∈ corridors, corridor.Valid courts) ∧
      ((∀ corridor ∈ corridors, corridor.path ∉ paths) ∧ (corridors.map (·.path)).Nodup) ∧
      found = paths ∪ (corridors.map (·.path)).toFinset := by
  induction corridors generalizing paths with
  | nil =>
    rw [foldlM_nil_eq_ok]
    simp
  | cons corridor corridors ih =>
    rw [foldlM_cons_eq_ok, fresh_cons, List.forall_mem_cons, List.map_cons, List.toFinset_cons,
      Finset.union_insert, ← Finset.insert_union]
    simp only [validateCorridor_eq_ok]
    constructor
    · rintro ⟨_, ⟨hvalid, hnew, rfl⟩, hrest⟩
      obtain ⟨hall, hfresh, rfl⟩ := ih.1 hrest
      exact ⟨⟨hvalid, hall⟩, ⟨hnew, hfresh⟩, rfl⟩
    · rintro ⟨⟨hvalid, hall⟩, ⟨hnew, hfresh⟩, rfl⟩
      exact ⟨_, ⟨hvalid, hnew, rfl⟩, ih.2 ⟨hall, hfresh, rfl⟩⟩

instance (right : Rights) (grant : GrantPolicy) : Decidable (grant.Gives right) :=
  match h : parseRights grant.rights with
  | .error e => .isFalse fun ⟨rights, hr, _⟩ => by rw [h] at hr; cases hr
  | .ok rights => decidable_of_iff (rights.contains right = true)
      ⟨fun hc => ⟨rights, h, hc⟩, fun ⟨rights', hr, hc⟩ => by
        rw [h] at hr
        obtain rfl := Except.ok.inj hr
        exact hc⟩

/-- One turn of the loop over the grants. -/
theorem validateGrant_eq_ok {courts paths : List String} {keys : Finset (String × String)}
    {send recv : Bool} {grant : GrantPolicy} {found : Finset (String × String) × Bool × Bool} :
    validateGrant courts.toFinset paths.toFinset (keys, send, recv) grant = .ok found ↔
      grant.Valid courts paths ∧
      found = (insert (grant.court, grant.path) keys, send || decide (grant.Gives .SEND),
        recv || decide (grant.Gives .RECV)) := by
  have hgives : ∀ {rights}, parseRights grant.rights = .ok rights → ∀ right,
      decide (grant.Gives right) = rights.contains right := by
    intro rights hr right
    rw [Bool.eq_iff_iff, decide_eq_true_iff, GrantPolicy.Gives, hr]
    simp
  simp only [validateGrant, bind_eq_ok, requireCourt_eq_ok, requirePath_eq_ok, refuseIf_eq_ok,
    exists_const, pure_eq_ok, List.mem_toFinset]
  constructor
  · rintro ⟨hcourt, hpath, hsome, rights, hr, rfl⟩
    rw [hgives hr, hgives hr]
    exact ⟨⟨hcourt, hpath, hsome, rights, hr⟩, rfl⟩
  · rintro ⟨⟨hcourt, hpath, hsome, rights, hr⟩, rfl⟩
    rw [hgives hr, hgives hr]
    exact ⟨hcourt, hpath, hsome, rights, hr, rfl⟩

/-- The loop over the grants. -/
theorem foldlM_validateGrant {courts paths : List String} {grants : List GrantPolicy}
    {keys : Finset (String × String)} {send recv : Bool}
    {found : Finset (String × String) × Bool × Bool} :
    grants.foldlM (validateGrant courts.toFinset paths.toFinset) (keys, send, recv) = .ok found ↔
      (∀ grant ∈ grants, grant.Valid courts paths) ∧
      found = (keys ∪ (grants.map fun grant => (grant.court, grant.path)).toFinset,
        send || grants.any fun grant => decide (grant.Gives .SEND),
        recv || grants.any fun grant => decide (grant.Gives .RECV)) := by
  induction grants generalizing keys send recv with
  | nil =>
    rw [foldlM_nil_eq_ok]
    simp
  | cons grant grants ih =>
    rw [foldlM_cons_eq_ok, List.forall_mem_cons, List.map_cons, List.toFinset_cons,
      Finset.union_insert, ← Finset.insert_union, List.any_cons, List.any_cons, ← Bool.or_assoc,
      ← Bool.or_assoc]
    simp only [validateGrant_eq_ok]
    constructor
    · rintro ⟨_, ⟨hvalid, rfl⟩, hrest⟩
      obtain ⟨hall, rfl⟩ := ih.1 hrest
      exact ⟨⟨hvalid, hall⟩, rfl⟩
    · rintro ⟨⟨hvalid, hall⟩, rfl⟩
      exact ⟨_, ⟨hvalid, rfl⟩, ih.2 ⟨hall, rfl⟩⟩

theorem validateRevoke_eq_ok {courts paths : List String} {keys : List (String × String)}
    {revoke : RevokePolicy} :
    validateRevoke courts.toFinset paths.toFinset keys.toFinset revoke = .ok () ↔
      revoke.court ∈ courts ∧ revoke.path ∈ paths ∧ (revoke.court, revoke.path) ∈ keys ∧
        PhaseBefore revoke.after "revoke" := by
  simp only [validateRevoke, bind_eq_ok, requireCourt_eq_ok, requirePath_eq_ok, refuseIf_eq_ok,
    requirePhaseBefore_eq_ok, exists_const, List.mem_toFinset, not_not]

theorem validateFault_eq_ok {courts : List String} {fault : FaultPolicy} :
    validateFault courts.toFinset fault = .ok () ↔
      fault.court ∈ courts ∧ fault.reason ≠ "" ∧ PhaseBefore fault.after "fault" := by
  simp only [validateFault, bind_eq_ok, requireCourt_eq_ok, refuseIf_eq_ok,
    requirePhaseBefore_eq_ok, exists_const, List.mem_toFinset, ne_eq]

theorem validatePeerDown_eq_ok {courts paths : List String} {down : PeerDownPolicy} :
    validatePeerDown courts.toFinset paths.toFinset down = .ok () ↔
      down.court ∈ courts ∧ down.path ∈ paths ∧ PhaseBefore down.after "peer_down" := by
  simp only [validatePeerDown, bind_eq_ok, requireCourt_eq_ok, requirePath_eq_ok,
    requirePhaseBefore_eq_ok, exists_const, List.mem_toFinset]

/-- **The validator accepts exactly the valid manifests and policies.** -/
theorem validate_eq_ok {manifest : ManifestFile} {policy : PolicyFile} :
    validate manifest policy = .ok () ↔ Valid manifest policy := by
  -- the loops collect into sets that start empty
  have hcourts : (∅ : Finset String) ∪ (manifest.courts.map (·.name)).toFinset =
      manifest.courtNames.toFinset := Finset.empty_union _
  have hpaths : (∅ : Finset String) ∪ (manifest.corridors.map (·.path)).toFinset =
      manifest.paths.toFinset := Finset.empty_union _
  have hkeys : (∅ : Finset (String × String)) ∪
      (policy.grants.map fun grant => (grant.court, grant.path)).toFinset =
      policy.grantKeys.toFinset := Finset.empty_union _
  simp only [validate, bind_eq_ok, requireSchema_eq_ok, refuseIf_eq_ok, exists_const, and_assoc,
    exists_and_left, exists_eq_left, foldlM_validateCourt, hcourts, foldlM_validateCorridor, hpaths,
    foldlM_validateGrant, hkeys, forM_eq_ok, validateRevoke_eq_ok, validateFault_eq_ok,
    validatePeerDown_eq_ok]
  simp only [Nat.zero_add, Bool.false_or, not_not, Nat.not_lt, Bool.not_eq_false, List.any_eq_true,
    decide_eq_true_iff, Finset.notMem_empty, not_false_eq_true, implies_true, true_and]
  constructor
  · rintro ⟨hmv, hpv, hpay, hnames, hnodup, happ, hnet, hne, hvalid, hfresh, hgrants, hall,
      hsend, hrecv, hrevokes, hfaults, hdown⟩
    exact ⟨⟨hmv, hpv⟩, hpay, ⟨List.forall_mem_map.2 hnames, hnodup⟩, happ, hnet, hne, hvalid, hfresh,
      ⟨hgrants, hall⟩, hsend, hrecv, hrevokes, hfaults, hdown⟩
  · intro h
    have hnames : ∀ court ∈ manifest.courts, court.name ≠ "" := fun court hc =>
      h.courts.1 court.name (List.mem_map_of_mem hc)
    exact ⟨h.versions.1, h.versions.2, h.payload, hnames, h.courts.2, h.app, h.net, h.nonempty,
      h.corridors, h.paths, h.grants.1, h.grants.2, h.send, h.recv, h.revokes, h.faults, h.peerDown⟩

example : validate .builtinPacketRx .builtinPacketRx = .ok () := by decide

end CourtKernel
