import SmartEth.Impl.Protocol

/-!
# The Phase 2 device (`smarteth_pci.c`)

The registers, the interrupts and the DMA engine of the QEMU device. `regs` is a
function of the word index, as in `RegBlock`. `pci_dma_read` and `pci_dma_write`
are taken to move the bytes exactly.
-/

namespace SmartEth

/-- What the device does to its interrupt lines: `msix_notify`, `msi_notify`,
`pci_set_irq`. -/
inductive PciIrq where
  | msix (vector : Word)
  | msi (vector : Word)
  | intx (level : Bool)
  deriving DecidableEq

/-- The `dma` of `SmartEthState`. -/
structure SmartEthPciDma where
  src : Addr
  dst : Addr
  len : Word
  ctrl : Word

namespace SmartEthPci

def REG_CTRL : Addr := 0x000
def REG_STATUS : Addr := 0x004
def REG_IRQ_STS : Addr := 0x00C
def REG_MAC_LO : Addr := 0x010
def REG_MAC_HI : Addr := 0x014
def REG_DMA_SRC : Addr := 0x040
def REG_DMA_DST : Addr := 0x048
def REG_DMA_LEN : Addr := 0x050
def REG_DMA_CTRL : Addr := 0x058
def REG_DMA_STS : Addr := 0x05C
def REG_DEV_ID : Addr := 0x100
def REG_IRQ_TEST : Addr := 0x200
def REG_COUNT : Addr := 0x400 / 4

def CTRL_RESET : BitVec 64 := 0x00000001
def STATUS_READY : Word := 0x00000001
def STATUS_DMA_BSY : Word := 0x00000002
def IRQ_DMA_DONE : Word := 0x00000001
def IRQ_TEST : Word := 0x00000002
def DMA_START : Word := 0x00000001
def DMA_DIR_WRITE : Word := 0x00000002
def DMA_IRQ_EN : Word := 0x00000004
def DMA_BUF_SIZE : Nat := 4096
def SMARTETH_DEV_ID : Word := 0x52414D53

end SmartEthPci

/-- `msix` and `msi` tell whether the guest has enabled them, `timer` whether
`dma_timer` is set. -/
structure SmartEthPci where
  regs : Addr → Word
  msix : Bool
  msi : Bool
  dma : SmartEthPciDma
  timer : Bool
  dmaBuf : List Byte
  macAddr : Vector Byte 6
  dmaBuf_length : dmaBuf.length = SmartEthPci.DMA_BUF_SIZE

namespace SmartEthPci

def setReg (s : SmartEthPci) (idx : Addr) (val : Word) : SmartEthPci :=
  { s with regs := fun i => if i = idx then val else s.regs i }

@[simp] theorem regs_setReg_self (s : SmartEthPci) (i : Addr) (v : Word) : (s.setReg i v).regs i = v := if_pos rfl

theorem regs_setReg_ne {s : SmartEthPci} {i j : Addr} {v : Word} (h : j ≠ i) : (s.setReg i v).regs j = s.regs j :=
  if_neg h

/-- The MAC address, to its two registers. -/
def setMac (s : SmartEthPci) : SmartEthPci :=
  (s.setReg (REG_MAC_LO >>> 2) ((s.macAddr.get 0).setWidth 32 ||| (s.macAddr.get 1).setWidth 32 <<< 8 |||
    (s.macAddr.get 2).setWidth 32 <<< 16 ||| (s.macAddr.get 3).setWidth 32 <<< 24)).setReg (REG_MAC_HI >>> 2)
    ((s.macAddr.get 4).setWidth 32 ||| (s.macAddr.get 5).setWidth 32 <<< 8)

/-- `smarteth_instance_init`, `smarteth_realize`. -/
def new (msix msi : Bool) : SmartEthPci :=
  setMac {
    regs := fun _ => 0
    msix := msix
    msi := msi
    dma := ⟨0, 0, 0, 0⟩
    timer := false
    dmaBuf := List.replicate DMA_BUF_SIZE 0
    macAddr := ⟨⟨[0x52, 0x54, 0x00, 0x12, 0x34, 0x56]⟩, rfl⟩
    dmaBuf_length := List.length_replicate }

/-! ## Interrupts -/

/-- `smarteth_raise_irq`: vector 0 for a transfer, 1 for a test. -/
def raiseIrq (s : SmartEthPci) (bits : Word) : SmartEthPci × List PciIrq :=
  (s.setReg (REG_IRQ_STS >>> 2) (s.regs (REG_IRQ_STS >>> 2) ||| bits),
    [if s.msix then .msix (if bits &&& IRQ_DMA_DONE ≠ 0 then 0 else 1)
      else if s.msi then .msi 0
      else .intx true])

/-! ## DMA -/

/-- `s->dma.len`, not above the buffer's. -/
def clampLen (len : Word) : Word :=
  if BitVec.ofNat 32 DMA_BUF_SIZE < len then BitVec.ofNat 32 DMA_BUF_SIZE else len

/-- A transfer between the buffer and guest memory. -/
def transfer (s : SmartEthPci) (mem : GuestMem) : SmartEthPci × GuestMem :=
  if s.dma.ctrl &&& DMA_DIR_WRITE ≠ 0 then
    (s, mem.write s.dma.dst (s.dmaBuf.take s.dma.len.toNat))
  else
    ({ s with
        dmaBuf := overlay s.dmaBuf (mem.read s.dma.src s.dma.len.toNat)
        dmaBuf_length := (length_overlay _ _).trans s.dmaBuf_length }, mem)

/-- `smarteth_dma_timer_cb`. -/
def dmaTimerCb (s : SmartEthPci) (mem : GuestMem) : SmartEthPci × GuestMem × List PciIrq :=
  if s.dma.ctrl &&& DMA_START = 0 then (s, mem, [])
  else
    let (s, mem) := { s with dma := { s.dma with len := clampLen s.dma.len } }.transfer mem
    let s := { s with dma := { s.dma with ctrl := s.dma.ctrl &&& ~~~DMA_START } }.setReg (REG_DMA_STS >>> 2) 0
    if s.dma.ctrl &&& DMA_IRQ_EN ≠ 0 then
      let (s, irqs) := s.raiseIrq IRQ_DMA_DONE
      (s, mem, irqs)
    else (s, mem, [])

/-- `smarteth_start_dma`. -/
def startDma (s : SmartEthPci) : SmartEthPci :=
  { ({ s with
      dma := ⟨(s.regs (REG_DMA_SRC >>> 2)).setWidth 64, (s.regs (REG_DMA_DST >>> 2)).setWidth 64,
        s.regs (REG_DMA_LEN >>> 2), s.regs (REG_DMA_CTRL >>> 2)⟩ }.setReg (REG_DMA_STS >>> 2)
      STATUS_DMA_BSY) with timer := true }

/-! ## Register accesses -/

/-- `smarteth_mmio_read`. -/
def mmioRead (s : SmartEthPci) (addr : Addr) : Word :=
  if addr ≥ REG_COUNT * 4 then 0
  else if addr = REG_DEV_ID then SMARTETH_DEV_ID
  else if addr = REG_STATUS then STATUS_READY
  else s.regs (addr >>> 2)

/-- `smarteth_mmio_write`. -/
def mmioWrite (s : SmartEthPci) (addr : Addr) (val : BitVec 64) : SmartEthPci × List PciIrq :=
  if addr ≥ REG_COUNT * 4 then (s, [])
  else if addr = REG_CTRL then
    if val &&& CTRL_RESET ≠ 0 then ({ s with regs := fun _ => 0 }.setMac, [])
    else (s.setReg (REG_CTRL >>> 2) (val.setWidth 32), [])
  else if addr = REG_IRQ_STS then
    -- write 1 to clear
    let s := s.setReg (REG_IRQ_STS >>> 2) (s.regs (REG_IRQ_STS >>> 2) &&& ~~~val.setWidth 32)
    (s, if s.regs (REG_IRQ_STS >>> 2) = 0 ∧ ¬ s.msix then [.intx false] else [])
  else if addr = REG_DMA_CTRL then
    let s := s.setReg (REG_DMA_CTRL >>> 2) (val.setWidth 32)
    (if val &&& DMA_START.setWidth 64 ≠ 0 then s.startDma else s, [])
  else if addr = REG_IRQ_TEST then if val ≠ 0 then s.raiseIrq IRQ_TEST else (s, [])
  else if addr = REG_STATUS ∨ addr = REG_DEV_ID then (s, [])
  else (s.setReg (addr >>> 2) (val.setWidth 32), [])

end SmartEthPci

end SmartEth
