import CourtKernel.Linux.Manifest
import CourtKernel.Linux.Protocol
import CourtKernel.Hosted.Invariant
import CourtKernel.Lib.Wp

/-!
# The plan of the root runner

Reference model of what `crates/court-hosted-linux/src/root.rs` does to the object model.  The
runner builds the courts and corridors of the manifest, carries out the grants, revocations and
faults of the policy, and keeps tables of what it made.  The messages in between are in
`CourtKernel.Linux.Runner`, which calls the functions of this module.

* `RootState` — the runner's tables.
* `createCourt`, `createCorridor`, `grantCap`, `revokeCap`, `faultCourt` — the parts of
  `build_state`, `handle_grant_and_open`, `run_revokes` and `run_faults` that work on the tables.
* `plan` — all of them in order, on fresh tables.
-/

namespace CourtKernel

structure RootState where
  root : HostedRoot
  courtIds : HashMap String CourtId
  descriptors : HashMap String Descriptor
  capsById : HashMap Nat CapId
  capsByKey : HashMap (String × String) (CapId × Rights)
  courtRoles : HashMap String CourtRole
  policy : PolicyFile
  ringInfo : HashMap String WireRingInfo
  demo : WireDemoConfig
  trace : List WireTrace

/-- `map_err(Into::into)` -/
def ck {σ α : Type} (result : CkResult α) : Prog σ α := ofExcept (result.mapError CkError.display)

namespace RootState

/-- The tables before anything is built.  `demo` is set at the end of `build_state` and not read
before. -/
def new (policy : PolicyFile) : RootState :=
  ⟨.new, ∅, ∅, ∅, ∅, ∅, policy, ∅, ⟨"", ""⟩, []⟩

/-- A method of the object model. -/
def callRoot {α : Type} (method : HostedRoot → CkResult α × HostedRoot) : Prog RootState α := do
  let state ← get
  set { state with root := (method state.root).2 }
  ck (method state.root).1

/-- One turn of the loop over `manifest.courts` in `build_state`. -/
def createCourt (court : CourtManifest) : Prog RootState Unit :=
  modify fun state =>
    let (courtId, root) := state.root.createCourt court.name
    { state with
      root := root
      courtIds := state.courtIds.insert court.name courtId
      courtRoles := state.courtRoles.insert court.name court.role }

/-- One turn of the loop over `manifest.corridors` in `build_state`, up to the ring. -/
def createCorridor (corridor : CorridorManifest) : Prog RootState Unit := do
  let state ← get
  let first ← expect (state.courtIds.lookup corridor.from) s!"missing court {corridor.from}"
  let second ← expect (state.courtIds.lookup corridor.to) s!"missing court {corridor.to}"
  let transport : CorridorTransport := match corridor.transport with
    | .sharedRing => .sharedRing
  let _ ← callRoot (·.createCorridor corridor.path first second transport corridor.capacity.toNat)
  let descriptor ← callRoot (·.lookup first corridor.path)
  modify fun state => { state with
    descriptors := state.descriptors.insert corridor.path descriptor }

/-- `handle_grant_and_open` up to the first message: the court, the corridor, and the capability
granted. -/
def grantCap (court path : String) (rights : Rights) :
    Prog RootState (CourtId × Descriptor × CapId) := do
  let state ← get
  let courtId ← expect (state.courtIds.lookup court) s!"unknown court {court}"
  let descriptor ← expect (state.descriptors.lookup path) s!"unknown descriptor {path}"
  let cap ← callRoot (·.grantCorridorCap courtId descriptor rights)
  modify fun state => { state with
    capsById := state.capsById.insert cap.raw cap
    capsByKey := state.capsByKey.insert (court, path) (cap, rights) }
  return (courtId, descriptor, cap)

/-- One turn of the loop of `run_revokes`, up to the first message. -/
def revokeCap (revoke : RevokePolicy) : Prog RootState (CapId × Rights) := do
  let state ← get
  let (cap, rights) ← expect (state.capsByKey.lookup (revoke.court, revoke.path))
    s!"no cap for revoke court={revoke.court} path={revoke.path}"
  let _ ← callRoot (·.revoke cap)
  return (cap, rights)

/-- One turn of the loop of `run_faults`, once the process is gone. -/
def faultCourt (fault : FaultPolicy) : Prog RootState Unit := do
  let state ← get
  let courtId ← expect (state.courtIds.lookup fault.court) s!"unknown court {fault.court}"
  callRoot (·.faultCourt courtId)

end RootState

structure ResolvedGrant where
  court : String
  path : String
  rights : Rights
  deriving DecidableEq

def statePolicyGrants (policy : PolicyFile) : Except String (List ResolvedGrant) :=
  policy.grants.mapM fun grant => do
    let rights ← parseRights grant.rights
    return ⟨grant.court, grant.path, rights⟩

/-- The courts and corridors of the manifest. -/
def planBuild (manifest : ManifestFile) : Prog RootState Unit := do
  forM manifest.courts RootState.createCourt
  forM manifest.corridors RootState.createCorridor

/-- The grants of the policy. -/
def planGrants (policy : PolicyFile) : Prog RootState Unit := do
  let grants ← ofExcept (statePolicyGrants policy)
  forM grants fun grant => do
    let _ ← RootState.grantCap grant.court grant.path grant.rights

/-- The revocations of the policy. -/
def planRevokes (policy : PolicyFile) : Prog RootState Unit :=
  forM policy.revokes fun revoke => do
    let _ ← RootState.revokeCap revoke

/-- The faults of the policy. -/
def planFaults (policy : PolicyFile) : Prog RootState Unit :=
  forM policy.faults RootState.faultCourt

/-- What the runner does to the object model up to the faults. -/
def planUntilFaults (manifest : ManifestFile) (policy : PolicyFile) : Prog RootState Unit := do
  planBuild manifest
  planGrants policy
  planRevokes policy

/-- Everything the runner does to the object model, without the messages. -/
def plan (manifest : ManifestFile) (policy : PolicyFile) : Prog RootState Unit := do
  planUntilFaults manifest policy
  planFaults policy

end CourtKernel
