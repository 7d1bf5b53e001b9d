import CourtKernel.Lib.HashMap

/-!
# Data model of the hosted Root Court

Reference model of the types of `crates/court-hosted/src/lib.rs`: errors, identifiers, rights,
courts, descriptors and trace events.

* Identifiers are `u64` newtypes in the source.  They are produced by counters that grow by one
  together with an insertion into a table, so a counter is bounded by the number of entries a
  table can hold and never wraps; here they are natural numbers.
* `Rights` is a 64-bit mask; `contains` is the source's mask test.
* Payloads are byte lists, queues are lists with the front at the head.
-/

namespace CourtKernel

inductive CkError where
  | badCap
  | noRight
  | revoked
  | notFound
  | invalidObject
  | invalidState
  | peerDown
  | queueFull
  | queueEmpty
  deriving DecidableEq, Repr

/-- `impl Display for CkError` -/
def CkError.display : CkError → String
  | .badCap => "bad capability"
  | .noRight => "missing right"
  | .revoked => "capability revoked"
  | .notFound => "not found"
  | .invalidObject => "invalid object"
  | .invalidState => "invalid state"
  | .peerDown => "peer down"
  | .queueFull => "queue full"
  | .queueEmpty => "queue empty"

abbrev CkResult (α : Type) := Except CkError α

structure CourtId where
  raw : Nat
  deriving DecidableEq, Repr

structure CapId where
  raw : Nat
  deriving DecidableEq, Repr

structure ObjectId where
  raw : Nat
  deriving DecidableEq, Repr

inductive ObjectType where
  | corridor
  deriving DecidableEq, Repr

abbrev Payload := List UInt8

/-! ## Rights -/

structure Rights where
  raw : BitVec 64
  deriving DecidableEq, Repr

namespace Rights

def NONE : Rights := ⟨0⟩
def READ : Rights := ⟨1 <<< 0⟩
def WRITE : Rights := ⟨1 <<< 1⟩
def SEND : Rights := ⟨1 <<< 2⟩
def RECV : Rights := ⟨1 <<< 3⟩
def DELEGATE : Rights := ⟨1 <<< 4⟩
def REVOKE : Rights := ⟨1 <<< 5⟩
def OBSERVE : Rights := ⟨1 <<< 6⟩

/-- Every bit of `required` is set in `self`. -/
def contains (self required : Rights) : Bool := (self.raw &&& required.raw) == required.raw

instance : OrOp Rights := ⟨fun a b => ⟨a.raw ||| b.raw⟩⟩

theorem contains_iff {a b : Rights} : a.contains b = true ↔ a.raw &&& b.raw = b.raw := by
  simp [contains]

theorem contains_refl (a : Rights) : a.contains a = true := by
  simp [contains]

theorem contains_trans {a b c : Rights} (hab : a.contains b = true) (hbc : b.contains c = true) :
    a.contains c = true := by
  rw [contains_iff] at *
  calc a.raw &&& c.raw = a.raw &&& (b.raw &&& c.raw) := by rw [hbc]
    _ = (a.raw &&& b.raw) &&& c.raw := (BitVec.and_assoc _ _ _).symm
    _ = c.raw := by rw [hab, hbc]

end Rights

/-! ## Courts, descriptors, events -/

inductive CourtState where
  | running
  | faulted
  deriving DecidableEq, Repr

structure Court where
  id : CourtId
  name : String
  state : CourtState
  deriving DecidableEq, Repr

inductive CorridorTransport where
  | controlChannel
  | sharedRing
  deriving DecidableEq, Repr

structure Descriptor where
  path : String
  object : ObjectId
  objectType : ObjectType
  transport : CorridorTransport
  deriving DecidableEq, Repr

inductive TraceEvent where
  | courtCreated (court : CourtId) (name : String)
  | corridorCreated (path : String) (object : ObjectId) (transport : CorridorTransport)
  | namespaceLookup (court : CourtId) (path : String) (found : Bool)
  | capGranted (court : CourtId) (cap : CapId) (object : ObjectId) (rights : Rights)
  | openDenied (court : CourtId) (path : String) (reason : CkError)
  | opened (court : CourtId) (path : String) (cap : CapId) (rights : Rights)
  | sent (court : CourtId) (object : ObjectId) (len : Nat)
  | received (court : CourtId) (object : ObjectId) (len : Nat)
  | capRevoked (cap : CapId)
  | courtFaulted (court : CourtId)
  | peerDown (court : CourtId) (object : ObjectId)
  deriving DecidableEq, Repr

end CourtKernel
