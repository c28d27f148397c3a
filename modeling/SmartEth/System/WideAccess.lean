import SmartEth.Impl.ScBridge
import SmartEth.Impl.SmartEthPci

/-!
# Register accesses of 8 bytes

Both devices declare accesses of 4 to 8 bytes as implemented. Their handlers get
the size of an access with its address, and do not look at it.
-/

namespace SmartEth

/-- The handlers of a `MemoryRegionOps`, each with the size of the access. -/
structure MmioOps (σ : Type) where
  regs : σ → Addr → Word
  read : σ → Addr → Nat → σ × BitVec 64
  write : σ → Addr → BitVec 64 → Nat → σ

namespace MmioOps

variable {σ : Type} (ops : MmioOps σ)

def lowWord (val : BitVec 64) : Word := val.setWidth 32

def highWord (val : BitVec 64) : Word := (val >>> 32).setWidth 32

/-- The low word to `addr`, then the high word to `addr + 4`. -/
def writeHalves (s : σ) (addr : Addr) (val : BitVec 64) : σ :=
  ops.write (ops.write s addr ((lowWord val).setWidth 64) 4) (addr + 4) ((highWord val).setWidth 64) 4

/-- The low word from `addr`, then the high word from `addr + 4`. -/
def readHalves (s : σ) (addr : Addr) : BitVec 64 :=
  let low := ops.read s addr 4
  let high := ops.read low.1 (addr + 4) 4
  low.2 ||| high.2 <<< 32

/-- A write of 8 bytes leaves the registers as the two of 4 bytes do. -/
def WritesWhole (s : σ) (addr : Addr) (val : BitVec 64) : Prop :=
  ops.regs (ops.write s addr val 8) = ops.regs (ops.writeHalves s addr val)

def ReadsWhole (s : σ) (addr : Addr) : Prop := (ops.read s addr 8).2 = ops.readHalves s addr

end MmioOps

def smartethMmioOps : MmioOps SmartEthPci where
  regs := SmartEthPci.regs
  read s addr _ := (s, (s.mmioRead addr).setWidth 64)
  write s addr val _ := (s.mmioWrite addr val).1

/-- `ans` is what SystemC answers to the read of a register: its value, and the status. -/
def scBridgeMmioOps (ans : Addr → Word × Word) : MmioOps ScBridge where
  regs := ScBridge.regs
  read s addr _ :=
    if s.forwardsRead addr then
      let r := s.mmioReadBegin.mmioReadFinish addr (ans addr).1 (ans addr).2
      (r.1, r.2.setWidth 64)
    else (s, (s.mmioReadLocal addr).setWidth 64)
  write s addr val _ := (s.mmioWrite addr val).1

namespace MmioOps

/-- An address that an access of 8 bytes may have. -/
def Wide (addr : Addr) : Prop := addr &&& 7 = 0 ∧ addr < SC_REG_COUNT

instance (addr : Addr) : Decidable (Wide addr) := inferInstanceAs (Decidable (_ ∧ _))

/-- The write of the high word changes nothing, the low word being written: the upper register
ignores writes, or the bits to clear are clear, or it holds the word already. -/
def HighKept (regs : Addr → Word) (addr : Addr) (low high : Word) : Prop :=
  if addr + 4 = SC_REG_STATUS then True
  else if addr + 4 = SC_REG_IRQ_STS then regs (SC_REG_IRQ_STS >>> 2) &&& high = 0
  else if addr + 4 = SC_REG_DMA_STS ∧ low &&& SC_DMA_START ≠ 0 then high = SC_STATUS_DMA_BSY
  else regs ((addr + 4) >>> 2) = high

/-- A write of 8 bytes to `IRQ_TEST` raises no interrupt that its low word does not, or
the interrupt is raised already. -/
def TestKept (regs : Addr → Word) (addr : Addr) (low high : Word) : Prop :=
  addr = SC_REG_IRQ_TEST → low = 0 → high ≠ 0 →
    regs (SC_REG_IRQ_STS >>> 2) ||| SmartEthPci.IRQ_TEST = regs (SC_REG_IRQ_STS >>> 2)

/-- The upper register is not `STATUS`, which is never read as zero, and holds zero. -/
def HighZero (regs : Addr → Word) (addr : Addr) : Prop :=
  addr + 4 ≠ SC_REG_STATUS ∧ regs ((addr + 4) >>> 2) = 0

/-- SystemC answers zero for the upper register; or an error, and the bridge's copy is zero. -/
def AnswersZero (ans : Addr → Word × Word) (regs : Addr → Word) (addr : Addr) : Prop :=
  if (ans (addr + 4)).2 = PcieStatus.ok.code then (ans (addr + 4)).1 = 0 else regs ((addr + 4) >>> 2) = 0

end MmioOps

end SmartEth
