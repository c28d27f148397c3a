import SmartEth.Framework.Run
import SmartEth.Impl.Nic
import SmartEth.Impl.SmartEthPci

/-!
# The Phase 2 device and the NIC side by side

The same aligned 32-bit register writes, none of them a reset, and a transfer
step at the same points: the timer's callback, if the timer is set, and a round
of `process_dma`. Each side has guest memory of its own, which the NIC's bridge
accesses exactly.
-/

namespace SmartEth

structure Phases where
  pci : SmartEthPci
  pciMem : GuestMem
  nic : SmartNic
  nicMem : GuestMem

inductive PhasesEvent where
  | write (addr : Addr) (val : Word)
  | transfer

namespace Phases

/-- The timer fires. -/
def pciTransfer (s : SmartEthPci) (mem : GuestMem) : SmartEthPci × GuestMem :=
  if s.timer then
    let (s, mem, _) := { s with timer := false }.dmaTimerCb mem
    (s, mem)
  else (s, mem)

/-- A round of `process_dma`. -/
def nicTransfer (s : SmartNic) (mem : GuestMem) : SmartNic × GuestMem :=
  if s.dmaPending then
    let ((s, _), mem) := s.processDmaBody.exec exactDma mem
    (s, mem)
  else (s, mem)

def step (s : Phases) : PhasesEvent → Option Phases
  | .write addr val =>
    if addr &&& 3 = 0 ∧ ¬ (addr = SC_REG_CTRL ∧ val &&& SC_CTRL_RESET ≠ 0) then
      some { s with pci := (s.pci.mmioWrite addr (val.setWidth 64)).1, nic := (s.nic.onMmioWrite addr val).1 }
    else none
  | .transfer =>
    let (pci, pciMem) := pciTransfer s.pci s.pciMem
    let (nic, nicMem) := nicTransfer s.nic s.nicMem
    some ⟨pci, pciMem, nic, nicMem⟩

/-- Both from power-on, with the same guest memory. -/
def init (msix msi netif : Bool) (mem : GuestMem) : Phases :=
  ⟨.new msix msi, mem, { SmartNic.new with bridge := true, netif := netif }, mem⟩

/-- What the guest can see of a transfer. -/
structure Agree (s : Phases) : Prop where
  mem : s.pciMem = s.nicMem
  buf : s.pci.dmaBuf.take 4096 = s.nic.dma.buf.take 4096
  status : s.pci.mmioRead SC_REG_IRQ_STS = s.nic.onMmioRead SC_REG_IRQ_STS

/-- At a transfer step, `DMA_CTRL` asks for an interrupt as it did when the
transfer was started, or the interrupt is set already. -/
def Latched (s : Phases) (e : PhasesEvent) : Prop :=
  e = .transfer → s.nic.dmaPending = true →
    (s.nic.reg SC_REG_DMA_CTRL &&& SC_DMA_IRQ_EN ≠ 0 ↔ s.nic.dma.irqEn = true) ∨
      s.nic.reg SC_REG_IRQ_STS &&& SC_IRQ_DMA_DONE ≠ 0

instance (s : Phases) : (e : PhasesEvent) → Decidable (Latched s e)
  | .write _ _ => .isTrue nofun
  | .transfer => decidable_of_iff (s.nic.dmaPending = true →
      (s.nic.reg SC_REG_DMA_CTRL &&& SC_DMA_IRQ_EN ≠ 0 ↔ s.nic.dma.irqEn = true) ∨
        s.nic.reg SC_REG_IRQ_STS &&& SC_IRQ_DMA_DONE ≠ 0) ⟨fun h _ => h, fun h => h rfl⟩

end Phases

end SmartEth
