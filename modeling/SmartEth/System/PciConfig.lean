import SmartEth.Impl.PciConfig

/-!
# One half of a config word

What a 16-bit write to config space ought to do, and what stands in its way: the bits
of the other half.
-/

namespace SmartEth

namespace PciConfig

/-- The upper or the lower half of a word. -/
def half (upper : Bool) (w : Word) : BitVec 16 := if upper then (w >>> 16).setWidth 16 else w.setWidth 16

/-- A byte of config space. -/
structure Place where
  bus : Word
  dev : Word
  func : Word
  offset : Word
  dev_lt : dev < 32
  func_lt : func < 8
  offset_lt : offset < 4096

namespace Place

variable (p q : Place)

/-- Its word. -/
def index : Word := ecamAddr p.bus p.dev p.func p.offset >>> 2

/-- Its half of the word. -/
def upper : Bool := p.offset &&& 2 ≠ 0

def Even : Prop := p.offset &&& 1 = 0

/-- Two bytes of one half. An address has 12 bits for the bus. -/
def SameHalf : Prop :=
  p.bus.setWidth 12 = q.bus.setWidth 12 ∧ p.dev = q.dev ∧ p.func = q.func ∧ p.offset >>> 1 = q.offset >>> 1

end Place

variable (c : PciConfig) (p : Place)

def read16At : BitVec 16 := c.read16 p.bus p.dev p.func p.offset

def read8At : Byte := c.read8 p.bus p.dev p.func p.offset

def write16At (val : BitVec 16) : PciConfig := c.write16 p.bus p.dev p.func p.offset val

/-- The write changes the 16 bits at `p` only; its plain bits read back; every other byte and
every other half reads as before. -/
structure OnlyHalf (val : BitVec 16) : Prop where
  words : ∀ i, i ≠ p.index → (c.write16At p val).words i = c.words i
  other : half (!p.upper) ((c.write16At p val).words p.index) = half (!p.upper) (c.words p.index)
  plain : (c.write16At p val).read16At p &&& ~~~half p.upper (c.w1c p.index) =
    val &&& ~~~half p.upper (c.w1c p.index)
  bytes : ∀ q : Place, ¬ p.SameHalf q → (c.write16At p val).read8At q = c.read8At q
  halves : ∀ q : Place, ¬ p.SameHalf q → (c.write16At p val).read16At q = c.read16At q

/-- No write-1-to-clear bit is set in the other half of the word. -/
def OtherClear : Prop := half (!p.upper) (c.words p.index &&& c.w1c p.index) = 0

def PCI_STATUS : Word := 0x06

/-- The device that the scan finds. -/
def foundDev : Option Word :=
  scanDevs.find? fun dev =>
    c.read16 0 dev 0 PCI_VENDOR_ID = SMARTETH_VENDOR_ID ∧ c.read16 0 dev 0 PCI_DEVICE_ID = SMARTETH_DEVICE_ID

/-- The write-1-to-clear bits that are set in the Status register of a device on bus 0. -/
def statusSet (dev : Word) : BitVec 16 :=
  c.read16 0 dev 0 PCI_STATUS &&& half true (c.w1c (ecamAddr 0 dev 0 PCI_STATUS >>> 2))

end PciConfig

end SmartEth
