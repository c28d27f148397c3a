import SmartEth.Framework.Prog
import SmartEth.Impl.Protocol

/-!
# The driver (`smarteth_main.c`)

The functions of the driver as programs of what they do to the device, to memory
that is mapped for DMA, and to the completion that the interrupt handler
signals. Left out are the PCI core's calls, which neither of the two sees, what
only messages show (`irq_count`, `tail_before`, `tail_after`), and fields that
nothing reads.
-/

namespace SmartEth

namespace SmartEthMain

def SMARTETH_RING_SIZE : Nat := 64
def SMARTETH_RX_BUF_SIZE : Nat := 2048

def REG_IRQ_EN : Addr := 0x008
def REG_IRQ_STS : Addr := 0x00C
def REG_DMA_SRC : Addr := 0x040
def REG_DMA_DST : Addr := 0x048
def REG_DMA_LEN : Addr := 0x050
def REG_DMA_CTRL : Addr := 0x058
def REG_TX_RING_BASE_LO : Addr := 0x300
def REG_TX_RING_BASE_HI : Addr := 0x304
def REG_TX_RING_SIZE : Addr := 0x308
def REG_TX_DOORBELL : Addr := 0x30C
def REG_TX_TAIL : Addr := 0x310
def REG_RX_RING_BASE_LO : Addr := 0x320
def REG_RX_RING_BASE_HI : Addr := 0x324
def REG_RX_RING_SIZE : Addr := 0x328
def REG_RX_DOORBELL : Addr := 0x32C
def REG_DEV_ID : Addr := 0x100
def REG_IRQ_TEST : Addr := 0x200

def IRQ_DMA_DONE : Word := 0x00000001
def IRQ_TEST : Word := 0x00000002
def IRQ_TX_DONE : Word := 0x00000004
def IRQ_RX : Word := 0x00000008
def DMA_START : Word := 0x00000001
def DMA_IRQ_EN : Word := 0x00000004
def DESC_FLAG_OWN : Word := 0x80000000

/-- What the driver does: a register access (`ioread32`, `iowrite32`), memory that
it maps for DMA and lets go of again, a store to such memory, one to
`adapter->tx_head`, `wait_for_completion_timeout`, `complete`. -/
inductive DriverOp where
  | readReg (reg : Addr)
  | writeReg (reg : Addr) (val : Word)
  | map (len : Nat)
  | unmap (dma : Addr) (len : Nat)
  | store (dma : Addr) (data : List Byte)
  | setTxHead (head : Word)
  | wait
  | complete

/-- `map` gives the DMA address, or fails; `wait` whether it has not timed out. -/
abbrev DriverOp.Res : DriverOp → Type
  | .readReg _ => Word
  | .writeReg _ _ => Unit
  | .map _ => Option Addr
  | .unmap _ _ => Unit
  | .store _ _ => Unit
  | .setTxHead _ => Unit
  | .wait => Bool
  | .complete => Unit

abbrev DriverM := Prog DriverOp DriverOp.Res

/-- `struct smarteth_adapter`. -/
structure Adapter where
  txRing : Addr
  txHead : Word
  rxRing : Addr
  /-- The buffers that are mapped, `rx_dma`. -/
  rxDma : List Addr

/-- `lower_32_bits`, `upper_32_bits`. -/
def lower (a : Addr) : Word := a.extractLsb' 0 32
def upper (a : Addr) : Word := a.extractLsb' 32 32

def readReg (reg : Addr) : DriverM Word := Prog.call (DriverOp.readReg reg)
def writeReg (reg : Addr) (val : Word) : DriverM Unit := Prog.call (DriverOp.writeReg reg val)
def mapBuf (len : Nat) : DriverM (Option Addr) := Prog.call (DriverOp.map len)
def unmap (dma : Addr) (len : Nat) : DriverM Unit := Prog.call (DriverOp.unmap dma len)
def store (dma : Addr) (data : List Byte) : DriverM Unit := Prog.call (DriverOp.store dma data)
def setTxHead (head : Word) : DriverM Unit := Prog.call (DriverOp.setTxHead head)
def wait : DriverM Bool := Prog.call DriverOp.wait
def complete : DriverM Unit := Prog.call DriverOp.complete

/-- Entry `i` of a ring. -/
def entry (ring : Addr) (i : Nat) : Addr := slot ring SmartEthDesc.size i

/-- Fills a descriptor: its flags last. -/
def fillDesc (desc : Addr) (dma : Addr) (len : Word) : DriverM Unit := do
  store desc (leBytes dma)
  store (desc + 8) (leBytes len)
  store (desc + 12) (leBytes DESC_FLAG_OWN)

/-! ## Receive buffers -/

/-- `smarteth_prepare_rx_buffers`, for the last `n` entries: the buffers mapped,
and whether none has failed. -/
def prepareRxBuffers (ring : Addr) : Nat → DriverM (List Addr × Bool)
  | 0 => pure ([], true)
  | n + 1 => do
    match ← mapBuf SMARTETH_RX_BUF_SIZE with
    | none => pure ([], false)
    | some dma => do
      fillDesc (entry ring (SMARTETH_RING_SIZE - (n + 1))) dma (BitVec.ofNat 32 SMARTETH_RX_BUF_SIZE)
      let (rest, ok) ← prepareRxBuffers ring n
      pure (dma :: rest, ok)

/-- `smarteth_free_rx_buffers`. -/
def freeRxBuffers : List Addr → DriverM Unit
  | [] => pure ()
  | dma :: rest => do
    unmap dma SMARTETH_RX_BUF_SIZE
    freeRxBuffers rest

/-! ## Interrupts -/

/-- `complete`, if the cause is set. -/
def completeIf (irqSts cause : Word) : DriverM Unit := if irqSts &&& cause ≠ 0 then complete else pure ()

/-- `smarteth_irq_handler`. -/
def irqHandler : DriverM Unit := do
  let irqSts ← readReg REG_IRQ_STS
  if irqSts = 0 then pure ()
  else do
    writeReg REG_IRQ_STS irqSts
    completeIf irqSts IRQ_DMA_DONE
    completeIf irqSts IRQ_TX_DONE
    completeIf irqSts IRQ_RX
    completeIf irqSts IRQ_TEST

/-! ## Tests

What they return is whether it is 0. -/

def testDma : DriverM Bool := do
  match ← mapBuf 256 with
  | none => pure false
  | some dma => do
    store dma (List.replicate 256 0xA5)
    writeReg REG_DMA_SRC (lower dma)
    writeReg REG_DMA_DST (upper dma)
    writeReg REG_DMA_LEN 256
    writeReg REG_DMA_CTRL (DMA_START ||| DMA_IRQ_EN)
    let done ← wait
    unmap dma 256
    pure done

def testTx (a : Adapter) : DriverM Bool := do
  match ← mapBuf 256 with
  | none => pure false
  | some dma => do
    store dma (List.replicate 256 0xAA)
    let _tailBefore ← readReg REG_TX_TAIL
    fillDesc (entry a.txRing a.txHead.toNat) dma 256
    setTxHead ((a.txHead + 1) % BitVec.ofNat 32 SMARTETH_RING_SIZE)
    writeReg REG_TX_DOORBELL 1
    let done ← wait
    let _tailAfter ← readReg REG_TX_TAIL
    unmap dma 256
    pure done

def testIrq : DriverM Bool := do
  writeReg REG_IRQ_TEST 1
  wait

/-! ## Probe and remove -/

/-- The registers of the rings, the interrupts, and the RX doorbell. -/
def configWrites (txRing rxRing : Addr) : List (Addr × Word) :=
  [(REG_TX_RING_BASE_LO, lower txRing), (REG_TX_RING_BASE_HI, upper txRing),
    (REG_TX_RING_SIZE, BitVec.ofNat 32 SMARTETH_RING_SIZE),
    (REG_RX_RING_BASE_LO, lower rxRing), (REG_RX_RING_BASE_HI, upper rxRing),
    (REG_RX_RING_SIZE, BitVec.ofNat 32 SMARTETH_RING_SIZE),
    (REG_IRQ_EN, IRQ_DMA_DONE ||| IRQ_TX_DONE ||| IRQ_RX ||| IRQ_TEST),
    (REG_RX_DOORBELL, BitVec.ofNat 32 SMARTETH_RING_SIZE)]

def writeRegs : List (Addr × Word) → DriverM Unit
  | [] => pure ()
  | (reg, val) :: rest => do
    writeReg reg val
    writeRegs rest

/-- The bytes of a ring. -/
def RING_BYTES : Nat := SMARTETH_RING_SIZE * SmartEthDesc.size

/-- `smarteth_probe`, where the PCI core's calls succeed; none if it fails. Its
coherent memory is then released, the buffers that it has mapped are not. -/
def probe : DriverM (Option Adapter) := do
  let devId ← readReg REG_DEV_ID
  if devId ≠ 0x52414D53 then pure none
  else do
    match ← mapBuf RING_BYTES with
    | none => pure none
    | some txRing => do
      store txRing (List.replicate RING_BYTES 0)
      match ← mapBuf RING_BYTES with
      | none => do
        unmap txRing RING_BYTES
        pure none
      | some rxRing => do
        store rxRing (List.replicate RING_BYTES 0)
        let (rxDma, ok) ← prepareRxBuffers rxRing SMARTETH_RING_SIZE
        if !ok then
          unmap rxRing RING_BYTES
          unmap txRing RING_BYTES
          pure none
        else do
          writeRegs (configWrites txRing rxRing)
          pure (some { txRing := txRing, txHead := 0, rxRing := rxRing, rxDma := rxDma })

/-- `smarteth_remove`, and the release of the coherent rings when it has returned. -/
def remove (a : Adapter) : DriverM Unit := do
  writeReg REG_IRQ_EN 0
  freeRxBuffers a.rxDma
  unmap a.rxRing RING_BYTES
  unmap a.txRing RING_BYTES

end SmartEthMain

end SmartEth
