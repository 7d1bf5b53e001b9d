import CourtKernel.RootCourt.Image

/-!
# Spawning courtlets

Reference model of `spawn` of `crates/root-court/src/courtlet.rs`, with the layout of
`crates/court-abi/src/lib.rs`.  The demo around it and the assembly that enters a courtlet are left
out.
-/

namespace CourtKernel

namespace RootCourt

def BOOT_VA : UInt64 := 0x00200000
def RING_VA : UInt64 := 0x00300000
def STACK_VA : UInt64 := 0x00400000
def STACK_PAGES : UInt64 := 8
def STACK_SIZE : UInt64 := STACK_PAGES * PAGE
def BOOT_MAGIC : UInt64 := 0x434B424F4F543032

structure BootInfo where
  magic : UInt64
  capId : UInt64
  rights : UInt64
  ringVirt : UInt64
  courtId : UInt64
  deriving DecidableEq

/-- The `repr(C)` layout. -/
def BootInfo.bytes (info : BootInfo) : List UInt8 :=
  [info.magic, info.capId, info.rights, info.ringVirt, info.courtId].flatMap fun field =>
    leBytes 8 field.toNat

structure Courtlet where
  name : String
  cr3 : UInt64
  space : AddressSpace
  stackTop : UInt64
  boot : UInt64
  entry : UInt64
  deriving DecidableEq

/-- `spawn` after the space is made. -/
def populate (space : AddressSpace) (name : String) (imageBytes : List UInt8)
    (capId rights courtId ringPhys : UInt64) : Prog Kernel Courtlet := do
  let entry ← Image.load space imageBytes
  let bootPhys ← Kernel.allocPages 1 "courtlet boot page"
  Kernel.writeBytes bootPhys 0 PAGE
  Kernel.copy bootPhys.toNat (BootInfo.bytes ⟨BOOT_MAGIC, capId, rights, RING_VA, courtId⟩)
  let stackPhys ← Kernel.allocPages STACK_PAGES "courtlet stack"
  Kernel.writeBytes stackPhys 0 STACK_SIZE
  space.map BOOT_VA bootPhys PAGE
  space.map RING_VA ringPhys PAGE
  space.map STACK_VA stackPhys STACK_SIZE
  let self ← get
  pure ⟨name, space.cr3, space, STACK_VA + STACK_SIZE, self.bump.virt bootPhys, entry⟩

def spawn (name : String) (imageBytes : List UInt8) (capId rights courtId ringPhys : UInt64) :
    Prog Kernel Courtlet := do
  let space ← AddressSpace.cloneKernel
  populate space name imageBytes capId rights courtId ringPhys

end RootCourt

end CourtKernel
