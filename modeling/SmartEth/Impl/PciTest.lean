import SmartEth.Framework.Prog
import SmartEth.Impl.Protocol

/-!
# The DMA test of the firmware (`pci_test.c`)

`test_dma` as a program of what it does to memory, to the device behind BAR0, and to the
console. Accesses are `volatile`, of 32 bits.
-/

namespace SmartEth

namespace PciTest

def REG_DMA_SRC : Word := 0x040
def REG_DMA_DST : Word := 0x048
def REG_DMA_LEN : Word := 0x050
def REG_DMA_CTRL : Word := 0x058
def REG_DMA_STS : Word := 0x05C

def STATUS_DMA_BSY : Word := 0x00000002
def IRQ_DMA_DONE : Word := 0x00000001
def DMA_START : Word := 0x00000001

/-- A 32-bit access, `uart_puts`, `vTaskDelay(pdMS_TO_TICKS(ms))`. -/
inductive FirmwareOp where
  | load (addr : BitVec 64)
  | store (addr : BitVec 64) (val : Word)
  | puts (text : String)
  | delay (ms : Nat)

abbrev FirmwareOp.Res : FirmwareOp → Type
  | .load _ => Word
  | .store _ _ => Unit
  | .puts _ => Unit
  | .delay _ => Unit

abbrev FirmwareM := Prog FirmwareOp FirmwareOp.Res

/-- `pci_test_result_t`. -/
inductive PciTestResult where
  | pass
  | fail
  deriving DecidableEq

def load (addr : BitVec 64) : FirmwareM Word := Prog.call (FirmwareOp.load addr)
def store (addr : BitVec 64) (val : Word) : FirmwareM Unit := Prog.call (FirmwareOp.store addr val)
def uartPuts (text : String) : FirmwareM Unit := Prog.call (FirmwareOp.puts text)
def delay (ms : Nat) : FirmwareM Unit := Prog.call (FirmwareOp.delay ms)

/-- `&reg[offset >> 2]`. -/
def regAddr (bar0 : BitVec 64) (offset : Word) : BitVec 64 := bar0 + (offset >>> 2).setWidth 64 * 4

/-- `smarteth_reg_read`. -/
def smartethRegRead (bar0 : BitVec 64) (offset : Word) : FirmwareM Word := load (regAddr bar0 offset)

/-- `smarteth_reg_write`. -/
def smartethRegWrite (bar0 : BitVec 64) (offset val : Word) : FirmwareM Unit := store (regAddr bar0 offset) val

/-! ## `test_dma` -/

/-- `dma_buf`. -/
def DMA_BUF : BitVec 64 := 0x8F000000

/-- The last `n` of the 64 words of the pattern. -/
def fillPattern : Nat → FirmwareM Unit
  | 0 => pure ()
  | n + 1 => do
    let i := 64 - (n + 1)
    store (DMA_BUF + BitVec.ofNat 64 (4 * i)) (0xAABB0000 + BitVec.ofNat 32 i)
    fillPattern n

/-- `while (timeout--)`: from `timeout` before the test of the condition, `timeout` after the loop. -/
def pollDma (bar0 : BitVec 64) : Nat → FirmwareM Int
  | 0 => pure (-1)
  | timeout + 1 => do
    let dmaSts ← smartethRegRead bar0 REG_DMA_STS
    if dmaSts &&& STATUS_DMA_BSY = 0 then pure timeout
    else do
      delay 1
      pollDma bar0 timeout

/-- `test_dma`. -/
def testDma (bar0 : BitVec 64) : FirmwareM PciTestResult := do
  fillPattern 64
  smartethRegWrite bar0 REG_DMA_SRC (DMA_BUF.setWidth 32)
  smartethRegWrite bar0 REG_DMA_DST 0
  smartethRegWrite bar0 REG_DMA_LEN 256
  smartethRegWrite bar0 REG_DMA_CTRL (DMA_START ||| IRQ_DMA_DONE)
  uartPuts "[TEST] DMA started (reading 256 bytes from guest memory)...\n"
  let timeout ← pollDma bar0 500
  if timeout ≤ 0 then do
    uartPuts "[TEST] DMA  TIMEOUT  FAIL\n"
    pure .fail
  else do
    uartPuts "[TEST] DMA completed  PASS\n"
    pure .pass

end PciTest

end SmartEth
