import SmartEth.Impl.PciTest
import SmartEth.Impl.PciConfig
import SmartEth.Impl.Uart

/-!
# The self-test of the firmware (`pci_test.c`, `main.c`)

The scan and the tests, as programs of what they do to memory, to config space and the
registers (both are memory to the program), and to the console. A test gives what the source
returns; `vTaskPciTest` ignores what the tests come to, which is on the console.
-/

namespace SmartEth.PciTest

def REG_CTRL : Word := 0x000
def REG_STATUS : Word := 0x004
def REG_IRQ_STS : Word := 0x00C
def REG_MAC_LO : Word := 0x010
def REG_MAC_HI : Word := 0x014
def REG_SCRATCH0 : Word := 0x020
def REG_DEV_ID : Word := 0x100
def REG_IRQ_TEST : Word := 0x200

def CTRL_RESET : Word := 0x00000001
def STATUS_READY : Word := 0x00000001
def IRQ_TEST : Word := 0x00000002

/-- `uart_printf`. -/
def uartPrintf (fmt : String) (args : List Word) : FirmwareM Unit := uartPuts (Printf.text fmt args)

/-! ## Config space -/

def PCIE_ECAM_BASE : BitVec 64 := 0x30000000

section

variable (bus dev func offset : Word)

/-- `&ecam[addr >> 2]`. -/
def ecamPtr : BitVec 64 := PCIE_ECAM_BASE + (PciConfig.ecamAddr bus dev func offset >>> 2).setWidth 64 * 4

/-- `pci_config_read32`. -/
def pciConfigRead32 : FirmwareM Word := load (ecamPtr bus dev func offset)

/-- `pci_config_read16`. -/
def pciConfigRead16 : FirmwareM (BitVec 16) := do
  let val ← pciConfigRead32 bus dev func (offset &&& ~~~3)
  pure (if offset &&& 2 ≠ 0 then (val >>> 16).setWidth 16 else (val &&& 0xFFFF).setWidth 16)

/-- `pci_config_read8`. -/
def pciConfigRead8 : FirmwareM Byte := do
  let val ← pciConfigRead32 bus dev func (offset &&& ~~~3)
  pure ((val >>> ((offset &&& 3) * 8).toNat &&& 0xFF).setWidth 8)

/-- `pci_config_write32`. -/
def pciConfigWrite32 (val : Word) : FirmwareM Unit := store (ecamPtr bus dev func offset) val

/-- `pci_config_write16`. -/
def pciConfigWrite16 (val : BitVec 16) : FirmwareM Unit := do
  let aligned := offset &&& ~~~3
  let old ← pciConfigRead32 bus dev func aligned
  let shift := if offset &&& 2 ≠ 0 then 16 else 0
  pciConfigWrite32 bus dev func aligned ((old &&& ~~~((0xFFFF : Word) <<< shift)) ||| val.setWidth 32 <<< shift)

end

/-! ## The scan -/

/-- BAR0 is programmed if it has no address. -/
def programBar0 (dev : Word) : FirmwareM Unit := do
  let pciMmioBase : Word := 0x40000000
  let bar0Lo ← pciConfigRead32 0 dev 0 PciConfig.PCI_BAR0
  uartPrintf "      RAW BAR0 before = 0x%x\n" [bar0Lo]
  if bar0Lo &&& ~~~0xF = 0 then do
    uartPuts "      Programming BAR0...\n"
    pciConfigWrite32 0 dev 0 PciConfig.PCI_BAR0 pciMmioBase
  else pure ()

/-- What is done with the SmartEth device that is found. -/
def enableDev (dev : Word) : FirmwareM (BitVec 64) := do
  uartPrintf "[PCI] Found SmartEth at Dev %d\n" [dev]
  programBar0 dev
  let cmd ← pciConfigRead16 0 dev 0 PciConfig.PCI_COMMAND
  let cmd := cmd ||| 0x0006
  pciConfigWrite16 0 dev 0 PciConfig.PCI_COMMAND cmd
  uartPrintf "      COMMAND reg = 0x%x\n" [cmd.setWidth 32]
  let bar0Lo ← pciConfigRead32 0 dev 0 PciConfig.PCI_BAR0
  let bar0 : BitVec 64 := (bar0Lo &&& ~~~0xF).setWidth 64
  uartPrintf "      BAR0 after prog = 0x%x\n" [bar0.setWidth 32]
  if bar0 &&& ~~~0xF ≠ 0 then do
    uartPuts "[PCI] BAR0 programmed successfully\n"
    pure bar0
  else do
    uartPuts "[PCI] BAR0 still zero after programming!\n"
    pure 0

/-- The loop of `smarteth_pci_scan`, over the devices that are left. -/
def scanDevices : List Word → FirmwareM (BitVec 64)
  | [] => do
    uartPuts "[PCI] SmartEth device NOT found!\n"
    pure 0
  | dev :: devs => do
    let vendor ← pciConfigRead16 0 dev 0 PciConfig.PCI_VENDOR_ID
    if vendor = 0xFFFF ∨ vendor = 0x0000 then scanDevices devs
    else do
      let device ← pciConfigRead16 0 dev 0 PciConfig.PCI_DEVICE_ID
      let hdrType ← pciConfigRead8 0 dev 0 0x0E
      uartPrintf "  Dev %d: vendor=0x%x device=0x%x hdr=0x%x\n"
        [dev, vendor.setWidth 32, device.setWidth 32, hdrType.setWidth 32]
      if vendor = PciConfig.SMARTETH_VENDOR_ID ∧ device = PciConfig.SMARTETH_DEVICE_ID then enableDev dev
      else scanDevices devs

/-- `smarteth_pci_scan`. -/
def smartethPciScan : FirmwareM (BitVec 64) := do
  uartPuts "[PCI] Scanning for SmartEth device...\n"
  scanDevices PciConfig.scanDevs

/-! ## The tests -/

section

variable (bar0 : BitVec 64)

/-- `test_device_id`. -/
def testDeviceId : FirmwareM PciTestResult := do
  let devId ← smartethRegRead bar0 REG_DEV_ID
  uartPrintf "[TEST] DEV_ID = 0x%x" [devId]
  if devId = 0x52414D53 then do
    uartPuts "  PASS\n"
    pure .pass
  else do
    uartPuts "  FAIL (unexpected value)\n"
    pure .fail

/-- `test_status`. -/
def testStatus : FirmwareM PciTestResult := do
  let status ← smartethRegRead bar0 REG_STATUS
  uartPrintf "[TEST] STATUS = 0x%x" [status]
  if status &&& STATUS_READY ≠ 0 then do
    uartPuts "  PASS (device ready)\n"
    pure .pass
  else do
    uartPuts "  FAIL (not ready)\n"
    pure .fail

/-- `REG_SCRATCH0 + (i % 4) * 4`. -/
def scratchReg (i : Nat) : Word := REG_SCRATCH0 + BitVec.ofNat 32 (i % 4) * 4

/-- The loop of `test_scratch_regs` from `i` on, with the patterns that are left. -/
def testScratchFrom : Nat → List Word → PciTestResult → FirmwareM PciTestResult
  | _, [], passed => pure passed
  | i, pattern :: patterns, passed => do
    smartethRegWrite bar0 (scratchReg i) pattern
    let val ← smartethRegRead bar0 (scratchReg i)
    if val = pattern then do
      uartPrintf "[TEST] SCRATCH[%d] = 0x%x  PASS\n" [BitVec.ofNat 32 i, val]
      testScratchFrom (i + 1) patterns passed
    else do
      uartPrintf "[TEST] SCRATCH[%d] = 0x%x (expected 0x%x)  FAIL\n" [BitVec.ofNat 32 i, val, pattern]
      testScratchFrom (i + 1) patterns .fail

/-- `test_scratch_regs`. -/
def testScratchRegs : FirmwareM PciTestResult :=
  testScratchFrom bar0 0 [0x00000000, 0xFFFFFFFF, 0xAAAAAAAA, 0x12345678, 0xDEADBEEF] .pass

/-- `test_ctrl_reset`. -/
def testCtrlReset : FirmwareM PciTestResult := do
  smartethRegWrite bar0 REG_SCRATCH0 0xDEAD
  smartethRegWrite bar0 REG_CTRL CTRL_RESET
  let val ← smartethRegRead bar0 REG_SCRATCH0
  uartPrintf "[TEST] CTRL_RESET: SCRATCH0 after reset = 0x%x" [val]
  if val = 0 then do
    uartPuts "  PASS\n"
    pure .pass
  else do
    uartPuts "  FAIL (not cleared)\n"
    pure .fail

/-- `test_mac_addr`. -/
def testMacAddr : FirmwareM PciTestResult := do
  let macLo ← smartethRegRead bar0 REG_MAC_LO
  let macHi ← smartethRegRead bar0 REG_MAC_HI
  uartPrintf "[TEST] MAC = %x:%x:%x:%x:%x:%x\n" [macLo &&& 0xFF, (macLo >>> 8) &&& 0xFF, (macLo >>> 16) &&& 0xFF,
    (macLo >>> 24) &&& 0xFF, macHi &&& 0xFF, (macHi >>> 8) &&& 0xFF]
  uartPuts "[TEST] MAC readback  PASS\n"
  pure .pass

/-- `test_interrupt`. -/
def testInterrupt : FirmwareM PciTestResult := do
  uartPuts "[TEST] Triggering device interrupt (REG_IRQ_TEST)...\n"
  smartethRegWrite bar0 REG_IRQ_STS IRQ_TEST
  smartethRegWrite bar0 REG_IRQ_TEST 1
  let irqSts ← smartethRegRead bar0 REG_IRQ_STS
  uartPrintf "[TEST] IRQ_STS after trigger = 0x%x\n" [irqSts]
  if irqSts &&& IRQ_TEST ≠ 0 then do
    uartPuts "[TEST] Interrupt status bit set  PASS (device side)\n"
    smartethRegWrite bar0 REG_IRQ_STS IRQ_TEST
    pure .pass
  else do
    uartPuts "[TEST] Interrupt status bit NOT set  FAIL\n"
    pure .fail

/-- `all_pass |= result`, `PCI_TEST_PASS` being 0 and `PCI_TEST_FAIL` -1. -/
def PciTestResult.or : PciTestResult → PciTestResult → PciTestResult
  | .pass, result => result
  | .fail, _ => .fail

/-- `all_pass |= test(bar0)`, one test after another. -/
def runAll : List (BitVec 64 → FirmwareM PciTestResult) → PciTestResult → FirmwareM PciTestResult
  | [], allPass => pure allPass
  | test :: tests, allPass => do
    let result ← test bar0
    runAll tests (allPass.or result)

def PciTestResult.text : PciTestResult → String
  | .pass => "PASSED"
  | .fail => "FAILED"

/-- `smarteth_run_tests`. -/
def smartethRunTests : FirmwareM PciTestResult := do
  uartPuts "\n====== PCIe Device Tests ======\n"
  let allPass ← runAll bar0
    [testDeviceId, testStatus, testScratchRegs, testCtrlReset, testMacAddr, testDma, testInterrupt] .pass
  uartPuts "====== Tests "
  uartPuts allPass.text
  uartPuts " ======\n\n"
  pure allPass

end

/-- `vTaskPciTest`. -/
def vTaskPciTest : FirmwareM Unit := do
  delay 1000
  uartPuts "\n"
  uartPuts "========================================\n"
  uartPuts "  PCIe Device Test Phase 2\n"
  uartPuts "========================================\n"
  let bar0 ← smartethPciScan
  (if bar0 ≠ 0 then do
    let _ ← smartethRunTests bar0
    pure ()
  else uartPuts "[PCI] SmartEth device not present (expected without -device)\n")
  uartPuts "[PCI] Test task complete, deleting self.\n"

end SmartEth.PciTest
