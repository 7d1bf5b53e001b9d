import CourtKernel.RootCourt.Demo
import CourtKernel.RootCourt.Kmain

/-!
# Running the courtlets

Reference model of `run_demo` and `enter` of `crates/root-court/src/courtlet.rs` over physical memory,
and of the two `_start` functions as code that loads and stores through the tables of its own court.
`CourtKernel.RootCourt.Demo` is the same program over two boot blocks and one ring page that nobody
else can touch; here nothing but the page tables says so.

* `App.startIn`, `Net.startIn` — the images, access by access.  An access without a translation is a
  fault.
* `enter` — the switch of `CR3`, the call, and the switch back.  What the call and the compiled code
  leave on the court's stack is a parameter.
* `Stage.runDemo` — `run_demo`; `Stage.step` is one action of it, for runs in any order.

Left out are what is printed, the instruction fetches (the code at an entry is given, not read from the
loaded image) and the kernel's own stack pointer, which `enter` keeps in a word of the kernel image.
-/

namespace CourtKernel

namespace RootCourt

open Early

/-! ## Code of a court image -/

namespace Court

variable (tr : Translation)

def load (va : UInt64) (n : Nat) : Prog Memory (List UInt8) := do
  let m ← get
  expect (tr.load m va n) pageFault

def loadU64 (va : UInt64) : Prog Memory UInt64 := do
  let bytes ← load tr va 8
  pure (UInt64.ofNat (leVal bytes))

def store (va : UInt64) (bytes : List UInt8) : Prog Memory Unit := do
  let m ← get
  let m ← expect (tr.store va bytes m) pageFault
  set m

end Court

/-- The `repr(C)` layout of `Ring`. -/
def Ring.bytes (ring : Ring) : List UInt8 :=
  leBytes 8 ring.magic.toNat ++ leBytes 4 ring.capacity.toNat ++ leBytes 4 ring.slotSize.toNat ++
    leBytes 8 ring.producer.toNat ++ leBytes 8 ring.consumer.toNat ++ leBytes 8 ring.revoked.toNat

/-- `slot_ptr` -/
def slotVa (index : UInt64) : UInt64 := RING_VA + UInt64.ofNat RING_DATA + index * UInt64.ofNat SLOT

/-- `_start` of the app image, after the checks. -/
def App.send (tr : Translation) : Prog Memory UInt64 := do
  let prod ← Court.loadU64 tr (RING_VA + 16)
  let cons ← Court.loadU64 tr (RING_VA + 24)
  if prod - cons ≥ CAPACITY.toUInt64 then pure ST_DENIED
  else do
    let idx := prod % CAPACITY.toUInt64
    let payload := pkt
    Court.store tr (slotVa idx) (leBytes 4 payload.length)
    Court.store tr (slotVa idx + 4) payload
    Court.store tr (RING_VA + 16) (leBytes 8 (prod + 1).toNat)
    pure ST_SENT

/-- `_start` of the net image, after the checks. -/
def Net.recv (tr : Translation) : Prog Memory UInt64 := do
  let prod ← Court.loadU64 tr (RING_VA + 16)
  let cons ← Court.loadU64 tr (RING_VA + 24)
  if cons = prod then pure ST_EMPTY
  else do
    let idx := cons % CAPACITY.toUInt64
    let len ← Court.load tr (slotVa idx) 4
    Court.store tr (RING_VA + 24) (leBytes 8 (cons + 1).toNat)
    pure (ST_RECV ||| UInt64.ofNat (leVal len) <<< 8)

/-- What both `_start` functions do first; `right` is the one they need. -/
def checkedStart (tr : Translation) (right : UInt64) (rest : Prog Memory UInt64) : Prog Memory UInt64 := do
  let magic ← Court.loadU64 tr BOOT_VA
  if magic ≠ BOOT_MAGIC then pure ST_BAD_MAGIC
  else do
    let magic ← Court.loadU64 tr RING_VA
    if magic ≠ RING_MAGIC then pure ST_BAD_MAGIC
    else do
      let rights ← Court.loadU64 tr (BOOT_VA + 16)
      if rights &&& right = 0 then pure ST_DENIED
      else do
        let revoked ← Court.loadU64 tr (RING_VA + 32)
        if revoked ≠ 0 then pure ST_DENIED else rest

def App.startIn (tr : Translation) : Prog Memory UInt64 := checkedStart tr RIGHT_SEND (App.send tr)

def Net.startIn (tr : Translation) : Prog Memory UInt64 := checkedStart tr RIGHT_RECV (Net.recv tr)

/-! ## Entering a courtlet -/

/-- `enter(cr3, stack_top, entry)`, where `start` is the code at the entry. -/
def enter (cr3 stackTop : UInt64) (start : Translation → Prog Memory UInt64) (spill : List UInt8) :
    Prog Early UInt64 := do
  let s ← get
  let kernelCr3 := s.cr3.map (· &&& 0x000ffffffffff000)
  let newCr3 := cr3 &&& 0x000ffffffffff000
  let tr := paging s.kernel.la57 newCr3
  set { s with cr3 := some newCr3 }
  let status ← zoom (fun s => s.kernel.mem) (fun s m => { s with kernel := { s.kernel with mem := m } }) do
    Court.store tr (stackTop - UInt64.ofNat spill.length) spill
    start tr
  modify fun s => { s with cr3 := kernelCr3 }
  pure status

/-! ## The demo -/

/-- The first processor and the tables of Root Court. -/
structure Stage where
  early : Early
  root : Object.RootCourt

/-- What `run_demo` holds on to after its set-up. -/
structure Courts where
  app : Courtlet
  net : Courtlet
  appCap : UInt64
  netCap : UInt64
  ring : UInt64

namespace Stage

def onEarly {α : Type} (x : Prog Early α) : Prog Stage α :=
  zoom Stage.early (fun s early => { s with early := early }) x

def onRoot {α : Type} (x : Prog Object.RootCourt α) : Prog Stage α :=
  zoom Stage.root (fun s root => { s with root := root }) x

/-- A ring page: its physical address, and its address in the direct map. -/
def ringPage : Prog Early (UInt64 × UInt64) := do
  let phys ← onKernel (Kernel.allocPages 1 "ring page")
  let s ← get
  let virt := s.kernel.bump.virt phys
  writeBytes virt (List.replicate PAGE.toNat 0)
  writeBytes virt (Ring.bytes ⟨RING_MAGIC, CAPACITY, UInt32.ofNat SLOT, 0, 0, 0⟩)
  pure (phys, virt)

/-- `run_demo` up to the first entry. -/
def setup (appImage netImage : List UInt8) : Prog Stage Courts := do
  let (appCourt, netCourt, appCap, netCap) ← onRoot Demo.register
  let (ringPhys, ring) ← onEarly ringPage
  let app ← onEarly (onKernel (spawn "app" appImage appCap Object.RIGHT_SEND appCourt ringPhys))
  let net ← onEarly (onKernel (spawn "net" netImage netCap Object.RIGHT_RECV netCourt ringPhys))
  ensure (¬ (app.entry ≥ LOWER_HALF_END ∨ net.entry ≥ LOWER_HALF_END))
    "court image entry is not lower-half"
  pure ⟨app, net, appCap, netCap, ring⟩

def enterApp (c : Courts) (spill : List UInt8) : Prog Stage UInt64 :=
  onEarly (enter c.app.cr3 c.app.stackTop App.startIn spill)

def enterNet (c : Courts) (spill : List UInt8) : Prog Stage UInt64 :=
  onEarly (enter c.net.cr3 c.net.stackTop Net.startIn spill)

/-- The revoke step: the capability, the boot block of `app`, and the ring. -/
def revoke (c : Courts) : Prog Stage Unit := do
  onRoot (Object.RootCourt.revokeCap c.appCap)
  onEarly (writeBytes (c.app.boot + 16) (leBytes 8 (0 : UInt64).toNat))
  onEarly (writeBytes (c.ring + 32) (leBytes 8 (1 : UInt64).toNat))

/-- The rest of `run_demo`. -/
def play (c : Courts) (spill₁ spill₂ spill₃ : List UInt8) : Prog Stage Unit := do
  let sent ← enterApp c spill₁
  ensure (sent = ST_SENT) "app court image send failed"
  let recvd ← enterNet c spill₂
  ensure (recvd &&& 0xFF = ST_RECV) "net court image recv failed"
  revoke c
  let s ← get
  ensure (Object.RootCourt.capRights s.root c.appCap = some 0) "app cap still live after revoke"
  let denied ← enterApp c spill₃
  ensure (denied = ST_DENIED) "revoked send did not deny"

def runDemo (appImage netImage spill₁ spill₂ spill₃ : List UInt8) : Prog Stage Unit := do
  let c ← setup appImage netImage
  play c spill₁ spill₂ spill₃

/-! ## Actions in any order -/

/-- An action of the demo, with what the entered court leaves on its stack. -/
structure Move where
  action : Demo.Action
  spill : List UInt8

/-- One action.  A failed revocation ends it, as the `?` of `run_demo` does. -/
def act (c : Courts) (move : Move) : Prog Stage Demo.Reply :=
  match move.action with
  | .app => do
    let status ← enterApp c move.spill
    pure (.status status)
  | .net => do
    let status ← enterNet c move.spill
    pure (.status status)
  | .revoke => do
    revoke c
    pure (.revoked (.ok ()))

def step (c : Courts) (s : Stage) (move : Move) : Except String Demo.Reply × Stage :=
  (resultOf (act c move s), stateOf (act c move s))

def machine (c : Courts) (s : Stage) : Machine Stage Move (Except String Demo.Reply) := ⟨s, step c⟩

end Stage

end RootCourt

end CourtKernel
