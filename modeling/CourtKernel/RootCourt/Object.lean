import CourtKernel.Lib.Machine
import CourtKernel.Lib.Slots
import CourtKernel.Lib.Wp

/-!
# The object tables of Root Court

Reference model of `RootCourt` of `crates/root-court/src/object.rs`: three tables of fixed size for
courts, capabilities and namespace bindings, and a counter for each kind of identifier.

* Every method is a program on the tables; one that fails keeps what it had done before.
* Identifiers are `u64`.  A counter grows only together with an entry of a table, so it is at most
  the size of that table (`Tables.nextCap`).
* `RootCourt.machine` — the public methods as calls; `Tables` is what every run keeps.
* `capRights_mint`, `capRights_revise` — the rights of every capability after one was minted and after
  one was revoked.
-/

namespace CourtKernel

namespace Object

def MAX_COURTS : Nat := 8
def MAX_CAPS : Nat := 16
def MAX_BINDINGS : Nat := 16

structure Court where
  id : UInt64
  name : String
  deriving DecidableEq

def RIGHT_SEND : UInt64 := (1 : UInt64) <<< 0
def RIGHT_RECV : UInt64 := (1 : UInt64) <<< 1

structure Cap where
  id : UInt64
  object : UInt64
  rights : UInt64
  deriving DecidableEq

structure Binding where
  path : String
  object : UInt64
  deriving DecidableEq

structure RootCourt where
  nextCourt : UInt64
  nextCap : UInt64
  nextObject : UInt64
  courts : Slots Court MAX_COURTS
  caps : Slots Cap MAX_CAPS
  bindings : Slots Binding MAX_BINDINGS
  deriving DecidableEq

namespace RootCourt

def new : RootCourt := ⟨0, 0, 0, .free _ _, .free _ _, .free _ _⟩

def createCourt (name : String) : Prog RootCourt UInt64 := do
  let self ← get
  let id := self.nextCourt + 1
  let courts ← expect (self.courts.put ⟨id, name⟩) "court table full"
  set { self with nextCourt := id, courts := courts }
  pure id

def allocObject : Prog RootCourt UInt64 := do
  let self ← get
  set { self with nextObject := self.nextObject + 1 }
  pure (self.nextObject + 1)

def bind (path : String) (object : UInt64) : Prog RootCourt Unit := do
  let self ← get
  let bindings ← expect (self.bindings.put ⟨path, object⟩) "namespace full"
  set { self with bindings := bindings }

def mint (object rights : UInt64) : Prog RootCourt UInt64 := do
  let self ← get
  let id := self.nextCap + 1
  let caps ← expect (self.caps.put ⟨id, object, rights⟩) "cspace full"
  set { self with nextCap := id, caps := caps }
  pure id

def bootstrap : Prog RootCourt Unit := do
  let _root ← createCourt "root"
  let ns ← allocObject
  bind "/court/root" ns
  let _cap ← mint ns ((1 : UInt64) <<< 6)
  pure ()

/-- Spawn a named court and bind it in the root namespace. -/
def spawnCourt (name path : String) : Prog RootCourt (UInt64 × UInt64) := do
  let court ← createCourt name
  let object ← allocObject
  bind path object
  pure (court, object)

def mintCap (object rights : UInt64) : Prog RootCourt UInt64 := mint object rights

def revokeCap (capId : UInt64) : Prog RootCourt Unit := do
  let self ← get
  let caps ← expect (self.caps.revise (·.id == capId) fun slot => { slot with rights := 0 })
    "no such cap"
  set { self with caps := caps }

def capRights (self : RootCourt) (capId : UInt64) : Option UInt64 :=
  (self.caps.entries.find? (·.id == capId)).map (·.rights)

def courtCount (self : RootCourt) : Nat := self.courts.count

/-! ## The public methods as calls -/

inductive Call where
  | bootstrap
  | spawnCourt (name path : String)
  | mintCap (object rights : UInt64)
  | revokeCap (capId : UInt64)
  deriving DecidableEq

inductive Reply where
  | unit
  | court (court object : UInt64)
  | cap (id : UInt64)
  deriving DecidableEq

def Call.prog : Call → Prog RootCourt Reply
  | .bootstrap => do RootCourt.bootstrap; pure .unit
  | .spawnCourt name path => do
    let (court, object) ← RootCourt.spawnCourt name path
    pure (.court court object)
  | .mintCap object rights => do
    let id ← RootCourt.mintCap object rights
    pure (.cap id)
  | .revokeCap capId => do RootCourt.revokeCap capId; pure .unit

def step (self : RootCourt) (c : Call) : Except String Reply × RootCourt :=
  (resultOf (c.prog self), stateOf (c.prog self))

def machine : Machine RootCourt Call (Except String Reply) := ⟨new, step⟩

/-- The tables after a sequence of public calls on fresh ones. -/
abbrev after (cs : List Call) : RootCourt := machine.run new cs

/-! ## Capability identifiers -/

/-- What the counter says about the table of capabilities. -/
structure Tables (t : RootCourt) : Prop where
  nextCap : t.nextCap.toNat = t.caps.entries.length
  ids : ∀ cap ∈ t.caps.entries, cap.id.toNat ≤ t.nextCap.toNat

namespace Tables

variable {self : RootCourt}

theorem new : Tables new := by
  refine ⟨?_, fun cap hcap => ?_⟩
  · simp [RootCourt.new]
  · simp [RootCourt.new] at hcap

/-- The next identifier does not wrap. -/
theorem succ_nextCap (h : Tables self) : (self.nextCap + 1).toNat = self.nextCap.toNat + 1 := by
  have hle : self.caps.entries.length ≤ 16 := self.caps.length_entries_le
  have hcap := h.nextCap
  rw [UInt64.toNat_add]
  have hone : (1 : UInt64).toNat = 1 := rfl
  omega

/-- The next identifier is in no slot. -/
theorem fresh (h : Tables self) : ∀ cap ∈ self.caps.entries, (cap.id == self.nextCap + 1) = false := by
  intro cap hcap
  have hle := h.ids cap hcap
  have hsucc := h.succ_nextCap
  rw [beq_eq_false_iff_ne]
  intro heq
  rw [heq] at hle
  omega

/-- The tables matter only where capabilities are concerned. -/
theorem of_caps {self' : RootCourt} (h : Tables self) (hnext : self'.nextCap = self.nextCap)
    (hcaps : self'.caps = self.caps) : Tables self' :=
  ⟨by rw [hnext, hcaps]; exact h.nextCap, by rw [hnext, hcaps]; exact h.ids⟩

theorem put {caps : Slots Cap MAX_CAPS} {object rights : UInt64} (h : Tables self)
    (hput : self.caps.put ⟨self.nextCap + 1, object, rights⟩ = some caps) :
    Tables { self with nextCap := self.nextCap + 1, caps := caps } := by
  have hsucc := h.succ_nextCap
  refine ⟨?_, fun cap hcap => ?_⟩
  · show (self.nextCap + 1).toNat = caps.entries.length
    rw [hsucc, Slots.length_put hput, h.nextCap]
  · show cap.id.toNat ≤ (self.nextCap + 1).toNat
    rcases (Slots.mem_put hput).1 hcap with rfl | hold
    · exact Nat.le_refl _
    · have := h.ids cap hold
      omega

theorem revise {caps : Slots Cap MAX_CAPS} {capId : UInt64} (h : Tables self)
    (hcaps : self.caps.revise (·.id == capId) (fun slot => { slot with rights := 0 }) = some caps) :
    Tables { self with caps := caps } := by
  obtain ⟨l, y, r, hl, hr, -, -⟩ := Slots.entries_revise hcaps
  have hnext := h.nextCap
  have hids := h.ids
  rw [hl] at hnext hids
  refine ⟨?_, fun cap hcap => ?_⟩
  · show self.nextCap.toNat = caps.entries.length
    rw [hnext, hr]
    simp
  · show cap.id.toNat ≤ self.nextCap.toNat
    have hcap : cap ∈ l ++ { y with rights := 0 } :: r := hr ▸ hcap
    rcases List.mem_append.1 hcap with hmem | hmem
    · exact hids cap (List.mem_append_left _ hmem)
    · rcases List.mem_cons.1 hmem with rfl | hmem
      · exact hids y (by simp)
      · exact hids cap (by simp [hmem])

end Tables

/-! ## What each method does -/

variable {self : RootCourt}

theorem createCourt_spec (name : String) :
    wp (createCourt name)
      (fun id self' => ∃ courts, self.courts.put ⟨id, name⟩ = some courts ∧
        id = self.nextCourt + 1 ∧ self' = { self with nextCourt := id, courts := courts })
      (fun e self' => e = "court table full" ∧ self' = self ∧ self.courtCount = MAX_COURTS) self := by
  simp only [createCourt, wp_bind, wp_get, wp_expect, wp_set, wp_pure, true_and]
  exact ⟨fun courts hput => ⟨courts, hput, rfl⟩, fun hnone => Slots.put_eq_none hnone⟩

theorem allocObject_spec :
    wp allocObject
      (fun object self' => object = self.nextObject + 1 ∧ self' = { self with nextObject := object })
      (fun _ _ => False) self := by
  simp only [allocObject, wp_bind, wp_get, wp_set, wp_pure, and_self]

theorem bind_spec (path : String) (object : UInt64) :
    wp (bind path object)
      (fun _ self' => ∃ bindings, self.bindings.put ⟨path, object⟩ = some bindings ∧
        self' = { self with bindings := bindings })
      (fun e self' => e = "namespace full" ∧ self' = self ∧ self.bindings.count = MAX_BINDINGS)
      self := by
  simp only [bind, wp_bind, wp_get, wp_expect, wp_set, true_and]
  exact ⟨fun bindings hput => ⟨bindings, hput, rfl⟩, fun hnone => Slots.put_eq_none hnone⟩

theorem mint_spec (object rights : UInt64) :
    wp (mint object rights)
      (fun id self' => ∃ caps, self.caps.put ⟨id, object, rights⟩ = some caps ∧
        id = self.nextCap + 1 ∧ self' = { self with nextCap := id, caps := caps })
      (fun e self' => e = "cspace full" ∧ self' = self) self := by
  simp only [mint, wp_bind, wp_get, wp_expect, wp_set, wp_pure, true_and, implies_true, and_true]
  exact fun caps hput => ⟨caps, hput, rfl⟩

theorem revokeCap_spec (capId : UInt64) :
    wp (revokeCap capId)
      (fun _ self' => ∃ caps,
        self.caps.revise (·.id == capId) (fun slot => { slot with rights := 0 }) = some caps ∧
        self' = { self with caps := caps })
      (fun e self' => e = "no such cap" ∧ self' = self ∧ self.capRights capId = none) self := by
  simp only [revokeCap, wp_bind, wp_get, wp_expect, wp_set, true_and]
  refine ⟨fun caps hcaps => ⟨caps, hcaps, rfl⟩, fun hnone => ?_⟩
  have hfree := Slots.revise_eq_none hnone
  rw [capRights, Option.map_eq_none_iff, List.find?_eq_none]
  intro cap hcap
  simp [hfree cap hcap]

/-! ## Every run keeps the tables -/

/-- A property of the capabilities alone that a new capability keeps. -/
structure OfCaps (J : RootCourt → Prop) : Prop where
  other : ∀ {t t'}, J t → t'.nextCap = t.nextCap → t'.caps = t.caps → J t'
  mint : ∀ {t caps object rights}, J t → t.caps.put ⟨t.nextCap + 1, object, rights⟩ = some caps →
    J { t with nextCap := t.nextCap + 1, caps := caps }

namespace OfCaps

variable {J : RootCourt → Prop}

theorem createCourt (hJ : OfCaps J) (name : String) : Keeps (Stays J) (createCourt name) := by
  refine keeps_stays.2 fun self h => wp_mono (createCourt_spec name) ?_ ?_
  · rintro id self' ⟨courts, -, -, rfl⟩
    exact hJ.other h rfl rfl
  · rintro e self' ⟨-, rfl, -⟩
    exact h

theorem allocObject (hJ : OfCaps J) : Keeps (Stays J) allocObject := by
  refine keeps_stays.2 fun self h => wp_mono allocObject_spec ?_ fun _ _ he => he.elim
  rintro object self' ⟨-, rfl⟩
  exact hJ.other h rfl rfl

theorem bind (hJ : OfCaps J) (path : String) (object : UInt64) :
    Keeps (Stays J) (bind path object) := by
  refine keeps_stays.2 fun self h => wp_mono (bind_spec path object) ?_ ?_
  · rintro _ self' ⟨bindings, -, rfl⟩
    exact hJ.other h rfl rfl
  · rintro e self' ⟨-, rfl, -⟩
    exact h

theorem mintCap (hJ : OfCaps J) (object rights : UInt64) :
    Keeps (Stays J) (mintCap object rights) := by
  refine keeps_stays.2 fun self h => wp_mono (mint_spec object rights) ?_ ?_
  · rintro id self' ⟨caps, hput, rfl, rfl⟩
    exact hJ.mint h hput
  · rintro e self' ⟨-, rfl⟩
    exact h

theorem spawnCourt (hJ : OfCaps J) (name path : String) :
    Keeps (Stays J) (spawnCourt name path) := by
  refine Keeps.bind (hJ.createCourt name) fun court => ?_
  refine Keeps.bind hJ.allocObject fun object => ?_
  exact Keeps.bind (hJ.bind path object) fun _ => Keeps.pure _

theorem bootstrap (hJ : OfCaps J) : Keeps (Stays J) bootstrap := by
  refine Keeps.bind (hJ.createCourt "root") fun _ => ?_
  refine Keeps.bind hJ.allocObject fun ns => ?_
  refine Keeps.bind (hJ.bind "/court/root" ns) fun _ => ?_
  exact Keeps.bind (hJ.mintCap ns _) fun _ => Keeps.pure _

end OfCaps

theorem ofCaps_tables : OfCaps Tables := ⟨fun h hnext hcaps => h.of_caps hnext hcaps, fun h hput => h.put hput⟩

theorem revokeCap_tables (capId : UInt64) : Keeps (Stays Tables) (revokeCap capId) := by
  refine keeps_stays.2 fun self h => wp_mono (revokeCap_spec capId) ?_ ?_
  · rintro _ self' ⟨caps, hcaps, rfl⟩
    exact h.revise hcaps
  · rintro e self' ⟨-, rfl, -⟩
    exact h

theorem Call.prog_tables (c : Call) : Keeps (Stays Tables) c.prog := by
  cases c with
  | bootstrap => exact Keeps.bind ofCaps_tables.bootstrap fun _ => Keeps.pure _
  | spawnCourt name path => exact Keeps.bind (ofCaps_tables.spawnCourt name path) fun _ => Keeps.pure _
  | mintCap object rights => exact Keeps.bind (ofCaps_tables.mintCap object rights) fun _ => Keeps.pure _
  | revokeCap capId => exact Keeps.bind (revokeCap_tables capId) fun _ => Keeps.pure _

theorem after_tables (cs : List Call) : Tables (after cs) :=
  machine.run_invariant (fun self c h => (Call.prog_tables c).at_end self h) Tables.new cs

/-! ## Rights of one capability -/

/-- A new capability has the rights it was minted with, and the others keep theirs. -/
theorem capRights_mint {caps : Slots Cap MAX_CAPS} {object rights : UInt64} (h : Tables self)
    (hput : self.caps.put ⟨self.nextCap + 1, object, rights⟩ = some caps) (capId : UInt64) :
    capRights { self with nextCap := self.nextCap + 1, caps := caps } capId =
      if capId = self.nextCap + 1 then some rights else self.capRights capId := by
  unfold capRights
  split
  · rename_i heq
    have hself : (self.nextCap + 1 == self.nextCap + 1) = true := beq_self_eq_true _
    rw [heq, Slots.find_put_self (p := (·.id == self.nextCap + 1)) hput hself h.fresh]
    rfl
  · rename_i hne
    have hother : (self.nextCap + 1 == capId) = false :=
      beq_eq_false_iff_ne.2 fun heq => hne heq.symm
    rw [Slots.find_put_of_false (p := (·.id == capId)) hput hother]

/-- A revoked capability has no rights left, and the others keep theirs. -/
theorem capRights_revise {caps : Slots Cap MAX_CAPS} {capId : UInt64}
    (hcaps : self.caps.revise (·.id == capId) (fun slot => { slot with rights := 0 }) = some caps)
    (other : UInt64) :
    capRights { self with caps := caps } other =
      if other = capId then some 0 else self.capRights other := by
  unfold capRights
  split
  · rename_i heq
    obtain ⟨cap, -, hcap⟩ := Slots.find_revise_self hcaps fun _ h => h
    rw [heq, hcap]
    rfl
  · rename_i hne
    rw [Slots.find_revise_of_ne hcaps fun cap hcap => ?_]
    have hid : cap.id = capId := eq_of_beq hcap
    have hfalse : (cap.id == other) = false := beq_eq_false_iff_ne.2 fun h => hne (h.symm.trans hid)
    exact ⟨hfalse, hfalse⟩

end RootCourt

end Object

end CourtKernel
