import CourtKernel.Hosted.Types

/-!
# Wire protocol of the Linux prototype

Reference model of `crates/court-hosted-linux/src/protocol.rs`: status words, the conversion of
model errors to them, rights and capabilities on the wire, the messages between the root runner and
the courts, and the state of an endpoint.

* `WireRights.toRights` — keeps the rights the model knows and drops every other bit;
  `contains_toRights` says what it asks of a capability.

The serde encodings are left out: a message is what the parser returns.
-/

namespace CourtKernel

inductive WireStatus where
  | ok
  | badCap
  | noRight
  | revoked
  | notFound
  | invalidObject
  | invalidState
  | peerDown
  | queueFull
  | queueEmpty
  | timeout
  | fault
  deriving DecidableEq, Repr

/-- `impl From<CkError> for WireStatus` -/
def WireStatus.from : CkError → WireStatus
  | .badCap => .badCap
  | .noRight => .noRight
  | .revoked => .revoked
  | .notFound => .notFound
  | .invalidObject => .invalidObject
  | .invalidState => .invalidState
  | .peerDown => .peerDown
  | .queueFull => .queueFull
  | .queueEmpty => .queueEmpty

/-- The `Debug` text. -/
def WireStatus.debug : WireStatus → String
  | .ok => "Ok"
  | .badCap => "BadCap"
  | .noRight => "NoRight"
  | .revoked => "Revoked"
  | .notFound => "NotFound"
  | .invalidObject => "InvalidObject"
  | .invalidState => "InvalidState"
  | .peerDown => "PeerDown"
  | .queueFull => "QueueFull"
  | .queueEmpty => "QueueEmpty"
  | .timeout => "Timeout"
  | .fault => "Fault"

structure WireRights where
  bits : UInt64
  deriving DecidableEq, Repr

namespace WireRights

def fromRights (rights : Rights) : WireRights := ⟨⟨rights.raw⟩⟩

/-- The rights that `to_rights` looks for, in its order. -/
def KNOWN : List Rights := [.READ, .WRITE, .SEND, .RECV, .DELEGATE, .REVOKE, .OBSERVE]

def toRights (self : WireRights) : Rights :=
  KNOWN.foldl (fun rights right =>
    if self.bits.toBitVec &&& right.raw ≠ 0 then rights ||| right else rights) .NONE

end WireRights

structure WireCap where
  id : UInt64
  rights : WireRights
  deriving DecidableEq, Repr

inductive WireObjectType where
  | corridor
  deriving DecidableEq, Repr

/-- `impl From<ObjectType> for WireObjectType` -/
def WireObjectType.from : ObjectType → WireObjectType
  | .corridor => .corridor

inductive WireTransport where
  | controlChannel
  | sharedRing
  deriving DecidableEq, Repr

/-- `impl From<CorridorTransport> for WireTransport` -/
def WireTransport.from : CorridorTransport → WireTransport
  | .controlChannel => .controlChannel
  | .sharedRing => .sharedRing

structure WireDescriptor where
  path : String
  object : UInt64
  objectType : WireObjectType
  transport : WireTransport
  deriving DecidableEq, Repr

def WireDescriptor.fromDescriptor (value : Descriptor) : WireDescriptor :=
  ⟨value.path, .ofNat value.object.raw, .from value.objectType, .from value.transport⟩

structure WireRingInfo where
  path : String
  capacity : UInt32
  slotSize : UInt32
  deriving DecidableEq, Repr

structure WireDemoConfig where
  path : String
  packetPayload : String
  deriving DecidableEq, Repr

structure WireTrace where
  event : String
  court : String
  path : Option String
  status : WireStatus
  len : Option Nat
  detail : Option String
  deriving DecidableEq, Repr

namespace WireTrace

def new (event court : String) (status : WireStatus) : WireTrace :=
  ⟨event, court, none, status, none, none⟩

def withPath (self : WireTrace) (path : String) : WireTrace := { self with path := some path }

def withDetail (self : WireTrace) (detail : String) : WireTrace :=
  { self with detail := some detail }

end WireTrace

inductive WireMessage where
  | hello (court : String)
  | helloAck (status : WireStatus) (court : String) (demo : WireDemoConfig)
  | lookup (path : String)
  | lookupResult (status : WireStatus) (descriptor : Option WireDescriptor)
  | «open» (path : String) (cap : Option WireCap) (rights : WireRights)
  | openResult (status : WireStatus) (cap : Option WireCap) (ring : Option WireRingInfo)
  | grant (path : String) (cap : WireCap)
  | revoke (cap : WireCap)
  | peerDown (path : String)
  | trace (event : WireTrace)
  | demoDone (court : String) (status : WireStatus)
  | fault (reason : String)
  deriving DecidableEq, Repr

structure EndpointState where
  cap : WireCap
  revoked : Bool
  peerDown : Bool
  deriving DecidableEq, Repr

namespace EndpointState

def new (cap : WireCap) : EndpointState := ⟨cap, false, false⟩

def markRevoked (self : EndpointState) : EndpointState := { self with revoked := true }

def markPeerDown (self : EndpointState) : EndpointState := { self with peerDown := true }

/-- A peer that is down hides a revocation. -/
def status (self : EndpointState) : WireStatus :=
  if self.peerDown then .peerDown else if self.revoked then .revoked else .ok

end EndpointState

/-! ## Rights on the wire -/

namespace Rights

theorem contains_none (a : Rights) : a.contains .NONE = true := by
  rw [contains_iff]
  exact BitVec.and_zero

theorem contains_or {a b c : Rights} :
    a.contains (b ||| c) = true ↔ a.contains b = true ∧ a.contains c = true := by
  have hle : ∀ x y : BitVec 64, x &&& y = y ↔ ∀ i, y.getLsbD i = true → x.getLsbD i = true := by
    intro x y
    constructor
    · intro h i hi
      rw [← h, BitVec.getLsbD_and, Bool.and_eq_true] at hi
      exact hi.1
    · intro h
      refine BitVec.eq_of_getLsbD_eq fun i _ => ?_
      rw [BitVec.getLsbD_and]
      cases hy : y.getLsbD i with
      | false => rw [Bool.and_false]
      | true => rw [h i hy, Bool.and_true]
  rw [contains_iff, contains_iff, contains_iff, hle, hle, hle]
  have hor : (b ||| c).raw = b.raw ||| c.raw := rfl
  simp only [hor, BitVec.getLsbD_or, Bool.or_eq_true]
  exact ⟨fun h => ⟨fun i hi => h i (Or.inl hi), fun i hi => h i (Or.inr hi)⟩,
    fun h i hi => hi.elim (h.1 i) (h.2 i)⟩

end Rights

/-- A capability covers the rights of a request if it has every known right among its bits. -/
theorem WireRights.contains_toRights {granted : Rights} {request : WireRights} :
    granted.contains request.toRights = true ↔
      ∀ right ∈ KNOWN, request.bits.toBitVec &&& right.raw ≠ 0 → granted.contains right = true := by
  -- the rights collected so far are covered, and so are those that are still to come
  have hfold : ∀ (rest : List Rights) (rights : Rights),
      granted.contains (rest.foldl (fun rights right =>
        if request.bits.toBitVec &&& right.raw ≠ 0 then rights ||| right else rights) rights) = true ↔
      granted.contains rights = true ∧ ∀ right ∈ rest,
        request.bits.toBitVec &&& right.raw ≠ 0 → granted.contains right = true := by
    intro rest
    induction rest with
    | nil => intro rights; simp
    | cons right rest ih =>
      intro rights
      rw [List.foldl_cons, ih, List.forall_mem_cons]
      split
      · rename_i h
        rw [Rights.contains_or, and_assoc]
        exact and_congr Iff.rfl (and_congr ⟨fun hc _ => hc, fun hc => hc h⟩ Iff.rfl)
      · rename_i h
        exact and_congr Iff.rfl ⟨fun hc => ⟨fun hb => absurd hb h, hc⟩, fun hc => hc.2⟩
  rw [toRights, hfold]
  exact ⟨fun h => h.2, fun h => ⟨Rights.contains_none _, h⟩⟩

end CourtKernel
