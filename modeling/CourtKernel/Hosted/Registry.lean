import CourtKernel.Hosted.Types
import CourtKernel.Lib.Forest
import CourtKernel.Lib.Machine

/-!
# The capability registry

Reference model of `CapRegistry` of `crates/court-hosted/src/lib.rs`: minting root capabilities,
delegation with attenuation, revocation of a derivation subtree, authorization.

`revoke` walks the child index with an explicit stack (`revokeLoop`).  The loop of the source has
no bound; here it makes as many turns as there are registered capabilities, and
`CapRegistry.revokeLoop_spec` of `CourtKernel.Hosted.Derivation` shows that in every reachable
registry the stack is empty by then, so the bound is never felt.

The registry is also a machine on its own (`CapRegistry.machine`), with the three mutating operations
as calls.
-/

namespace CourtKernel

structure Capability where
  object : ObjectId
  objectType : ObjectType
  rights : Rights
  parent : Option CapId
  revoked : Bool
  delegable : Bool
  deriving DecidableEq, Repr

structure CapRegistry where
  nextCap : Nat
  caps : HashMap CapId Capability
  children : HashMap CapId (List CapId)
  deriving DecidableEq

namespace CapRegistry

def new : CapRegistry := ⟨0, ∅, ∅⟩

def allocCap (self : CapRegistry) : CapId × CapRegistry :=
  (⟨self.nextCap + 1⟩, { self with nextCap := self.nextCap + 1 })

def mintRoot (self : CapRegistry) (object : ObjectId) (objectType : ObjectType) (rights : Rights) :
    CapId × CapRegistry :=
  let (cap, self) := self.allocCap
  (cap, { self with
    caps := self.caps.insert cap ⟨object, objectType, rights, none, false, true⟩ })

/-- `self.children.entry(parent).or_default().push(cap)` -/
def pushChild (self : CapRegistry) (parent cap : CapId) : CapRegistry :=
  { self with children := self.children.insert parent ((self.children.lookup parent).getD [] ++ [cap]) }

def delegate (self : CapRegistry) (parent : CapId) (rights : Rights) :
    CkResult CapId × CapRegistry :=
  match self.caps.lookup parent with
  | none => (.error .badCap, self)
  | some parentCap =>
    if parentCap.revoked then (.error .revoked, self)
    else if !parentCap.delegable || !parentCap.rights.contains .DELEGATE then (.error .noRight, self)
    else if !parentCap.rights.contains rights then (.error .noRight, self)
    else
      let (cap, self) := self.allocCap
      let self := { self with
        caps := self.caps.insert cap ⟨parentCap.object, parentCap.objectType, rights, some parent,
          false, rights.contains .DELEGATE⟩ }
      (.ok cap, self.pushChild parent cap)

/-- `capability.revoked = true` for a registered capability. -/
def markRevoked (self : CapRegistry) (cap : CapId) : CapRegistry :=
  { self with caps := self.caps.adjust cap fun capability => { capability with revoked := true } }

/-- The children pushed for a popped capability. -/
def childrenOf (self : CapRegistry) (cap : CapId) : List CapId :=
  (self.children.lookup cap).getD []

/-- `fuel` turns of `while let Some(next) = stack.pop()`; the head of `stack` is its top. -/
def revokeLoop : Nat → CapRegistry → List CapId → CapRegistry × List CapId
  | 0, self, stack => (self, stack)
  | _ + 1, self, [] => (self, [])
  | fuel + 1, self, next :: stack =>
    let self := self.markRevoked next
    revokeLoop fuel self ((self.childrenOf next).reverse ++ stack)

def revoke (self : CapRegistry) (cap : CapId) : CkResult Unit × CapRegistry :=
  if cap ∈ self.caps then (.ok (), (revokeLoop self.caps.keys.card self [cap]).1)
  else (.error .badCap, self)

def authorize (self : CapRegistry) (cap : CapId) (objectType : ObjectType) (rights : Rights) :
    CkResult ObjectId :=
  match self.caps.lookup cap with
  | none => .error .badCap
  | some capability =>
    if capability.revoked then .error .revoked
    else if capability.objectType != objectType then .error .invalidObject
    else if !capability.rights.contains rights then .error .noRight
    else .ok capability.object

def parentOf (self : CapRegistry) (cap : CapId) : Option CapId :=
  (self.caps.lookup cap).bind (·.parent)

/-- The parent chain of `cap`, read with `parentOf`, passes through `ancestor`. -/
abbrev ChainThrough (self : CapRegistry) (ancestor cap : CapId) : Prop :=
  OnChain self.parentOf ancestor cap

/-- A registered capability that is flagged. -/
def Revoked (self : CapRegistry) (cap : CapId) : Prop :=
  ∃ capability, self.caps.lookup cap = some capability ∧ capability.revoked = true

/-- A refused delegation leaves the registry alone. -/
theorem delegate_error {g g' : CapRegistry} {p : CapId} {r : Rights}
    {e : CkError} (h : g.delegate p r = (.error e, g')) : g' = g := by
  unfold delegate at h
  split at h
  · exact (Prod.mk.inj h).2.symm
  · split at h
    · exact (Prod.mk.inj h).2.symm
    · split at h
      · exact (Prod.mk.inj h).2.symm
      · split at h
        · exact (Prod.mk.inj h).2.symm
        · cases (Prod.mk.inj h).1

/-! ## The registry as a machine -/

inductive Call where
  | mintRoot (object : ObjectId) (objectType : ObjectType) (rights : Rights)
  | delegate (parent : CapId) (rights : Rights)
  | revoke (cap : CapId)
  deriving DecidableEq

inductive Reply where
  | minted (cap : CapId)
  | delegated (result : CkResult CapId)
  | revoked (result : CkResult Unit)

def call (self : CapRegistry) : Call → Reply × CapRegistry
  | .mintRoot object objectType rights =>
    let r := self.mintRoot object objectType rights; (.minted r.1, r.2)
  | .delegate parent rights => let r := self.delegate parent rights; (.delegated r.1, r.2)
  | .revoke cap => let r := self.revoke cap; (.revoked r.1, r.2)

def machine : Machine CapRegistry Call Reply := ⟨new, call⟩

/-- Registries that some sequence of operations produces from the empty one. -/
def Reachable (self : CapRegistry) : Prop := ∃ cs, self = machine.run new cs

end CapRegistry

end CourtKernel
