import SmartEth.Framework.Run
import SmartEth.Impl.SmartEthPci

/-!
# The Phase 2 device on its own

Aligned register writes of 32 or 64 bits, the timer's callback while the timer is set,
and the guest enabling MSI-X or MSI, in any order; what guest memory holds when the
callback runs is open. A state also tells what its last step did: the interrupt status
before it, and whether it called `pci_dma_read` or `pci_dma_write`.
-/

namespace SmartEth

structure PciRun where
  dev : SmartEthPci
  /-- The level last passed to `pci_set_irq`. -/
  level : Bool
  before : Word
  moved : Bool

inductive PciEvent where
  | write (addr : Addr) (val : BitVec 64)
  | timer (mem : GuestMem)
  | enable (msix msi : Bool)

/-- The level of the interrupt pin after these notifications. -/
def PciIrq.levelAfter (level : Bool) (irqs : List PciIrq) : Bool :=
  irqs.foldl (fun l q => match q with
    | .intx b => b
    | .msix _ | .msi _ => l) level

namespace PciRun

open SmartEthPci

def irqStatus (s : PciRun) : Word := s.dev.regs (REG_IRQ_STS >>> 2)

/-- After a step that leaves the device as `dev`, and makes these notifications. -/
def next (s : PciRun) (dev : SmartEthPci) (irqs : List PciIrq) (moved : Bool) : PciRun where
  dev := dev
  level := PciIrq.levelAfter s.level irqs
  before := s.irqStatus
  moved := moved

def step (s : PciRun) : PciEvent → Option PciRun
  | .write addr val =>
    if addr &&& 3 = 0 then some (s.next (s.dev.mmioWrite addr val).1 (s.dev.mmioWrite addr val).2 false) else none
  | .timer mem =>
    if s.dev.timer then
      let (dev, _, irqs) := { s.dev with timer := false }.dmaTimerCb mem
      some (s.next dev irqs (s.dev.dma.ctrl &&& DMA_START ≠ 0))
    else none
  | .enable msix msi => some (s.next { s.dev with msix := msix, msi := msi } [] false)

/-- A step of a guest that leaves MSI-X and MSI as they are. -/
def intxStep (s : PciRun) : PciEvent → Option PciRun
  | .enable _ _ => none
  | .write addr val => s.step (.write addr val)
  | .timer mem => s.step (.timer mem)

/-- At power-on. -/
def init (msix msi : Bool) : PciRun where
  dev := .new msix msi
  level := false
  before := 0
  moved := false

/-! ## The interrupt pin -/

/-- The pin is high exactly while an interrupt cause is set. -/
def Level (s : PciRun) : Prop := s.level = true ↔ s.irqStatus ≠ 0

/-- A `CTRL` write with the reset bit. -/
def Resets : PciEvent → Prop
  | .write addr val => addr = REG_CTRL ∧ val &&& CTRL_RESET ≠ 0
  | .timer _ | .enable _ _ => False

/-- The device is reset only while no interrupt cause is set. -/
def ResetsIdle (s : PciRun) (e : PciEvent) : Prop := Resets e → s.irqStatus = 0

/-! ## Reset -/

/-- The last step moved no data, and set no interrupt cause. -/
def Quiet (s : PciRun) : Prop := s.moved = false ∧ s.irqStatus &&& ~~~s.before = 0

/-- A `DMA_CTRL` write with the start bit, or an `IRQ_TEST` write. -/
def Requests : PciEvent → Prop
  | .write addr val => (addr = REG_DMA_CTRL ∧ val &&& DMA_START.setWidth 64 ≠ 0) ∨ addr = REG_IRQ_TEST
  | .timer _ | .enable _ _ => False

/-- After a reset, the device is quiet until it is asked for work. -/
def Quiesces (s : PciRun) : Prop :=
  ∀ val t, val &&& CTRL_RESET ≠ 0 → s.step (.write REG_CTRL val) = some t →
    ∀ es, (∀ e ∈ es, ¬ Requests e) → Always step Quiet t es

end PciRun

end SmartEth
