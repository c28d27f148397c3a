import SmartEth.Impl.Protocol

/-!
# Config space accesses of the firmware (`pci_test.c`)

Config space is reached through ECAM, as 32-bit words at an address composed of bus, device,
function and offset: `words` is a function of `addr >> 2`. `w1c` gives the bits of each word
that a write clears where it has a one; the others are plain.
-/

namespace SmartEth

structure PciConfig where
  words : Word → Word
  w1c : Word → Word

namespace PciConfig

def PCIE_ECAM_BUS_SHIFT : Nat := 20
def PCIE_ECAM_DEV_SHIFT : Nat := 15
def PCIE_ECAM_FUNC_SHIFT : Nat := 12

def PCI_VENDOR_ID : Word := 0x00
def PCI_DEVICE_ID : Word := 0x02
def PCI_COMMAND : Word := 0x04
def PCI_BAR0 : Word := 0x10
def SMARTETH_VENDOR_ID : BitVec 16 := 0x1efd
def SMARTETH_DEVICE_ID : BitVec 16 := 0x0001

/-- `addr` in `pci_config_read32` and `pci_config_write32`. -/
def ecamAddr (bus dev func offset : Word) : Word :=
  bus <<< PCIE_ECAM_BUS_SHIFT ||| dev <<< PCIE_ECAM_DEV_SHIFT ||| func <<< PCIE_ECAM_FUNC_SHIFT |||
    (offset &&& ~~~3)

/-- What a write of `val` makes of a word: write 1 to clear in `w1c`. -/
def store {w : Nat} (w1c old val : BitVec w) : BitVec w := (old &&& ~~~val &&& w1c) ||| (val &&& ~~~w1c)

variable (c : PciConfig) (bus dev func offset : Word)

/-- `pci_config_read32`. -/
def read32 : Word := c.words (ecamAddr bus dev func offset >>> 2)

/-- `pci_config_read16`. -/
def read16 : BitVec 16 :=
  let val := c.read32 bus dev func (offset &&& ~~~3)
  if offset &&& 2 ≠ 0 then (val >>> 16).setWidth 16 else (val &&& 0xFFFF).setWidth 16

/-- `pci_config_read8`. -/
def read8 : Byte :=
  let val := c.read32 bus dev func (offset &&& ~~~3)
  (val >>> ((offset &&& 3) * 8).toNat &&& 0xFF).setWidth 8

/-- `pci_config_write32`. -/
def write32 (val : Word) : PciConfig :=
  let idx := ecamAddr bus dev func offset >>> 2
  { c with words := fun i => if i = idx then store (c.w1c i) (c.words i) val else c.words i }

/-- `pci_config_write16`. -/
def write16 (val : BitVec 16) : PciConfig :=
  let aligned := offset &&& ~~~3
  let old := c.read32 bus dev func aligned
  let shift := if offset &&& 2 ≠ 0 then 16 else 0
  c.write32 bus dev func aligned ((old &&& ~~~((0xFFFF : Word) <<< shift)) ||| val.setWidth 32 <<< shift)

/-! ## The scan -/

/-- A SmartEth device is found: BAR0 is programmed if it has no address, MMIO and bus
mastering are enabled. -/
def enable : PciConfig × BitVec 64 :=
  let pciMmioBase : Word := 0x40000000
  let c := if c.read32 0 dev 0 PCI_BAR0 &&& ~~~0xF = 0 then c.write32 0 dev 0 PCI_BAR0 pciMmioBase else c
  let cmd := c.read16 0 dev 0 PCI_COMMAND ||| 0x0006
  let c := c.write16 0 dev 0 PCI_COMMAND cmd
  let bar0 : BitVec 64 := (c.read32 0 dev 0 PCI_BAR0 &&& ~~~0xF).setWidth 64
  (c, if bar0 &&& ~~~0xF ≠ 0 then bar0 else 0)

/-- The rest of the loop of `smarteth_pci_scan`. -/
def scanFrom : List Word → PciConfig × BitVec 64
  | [] => (c, 0)
  | dev :: devs =>
    let vendor := c.read16 0 dev 0 PCI_VENDOR_ID
    if vendor = 0xFFFF ∨ vendor = 0x0000 then scanFrom devs
    else if vendor = SMARTETH_VENDOR_ID ∧ c.read16 0 dev 0 PCI_DEVICE_ID = SMARTETH_DEVICE_ID then c.enable dev
    else scanFrom devs

def scanDevs : List Word := (List.range 32).map (BitVec.ofNat 32)

/-- `smarteth_pci_scan`: the config space it leaves, and the address it returns. -/
def smartethPciScan : PciConfig × BitVec 64 := c.scanFrom scanDevs

end PciConfig

end SmartEth
