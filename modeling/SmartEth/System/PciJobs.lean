import SmartEth.Framework.Run
import SmartEth.Impl.SmartEthPci

/-!
# The transfers of the Phase 2 device

The device among what the guest does: aligned register writes of 32 or 64 bits, writes to guest
memory, MSI-X and MSI turned on and off, and the timer's callback while the timer is set.

What should come of it is a matter of the events alone, the latest first: the last value of a
register (`lastReg`), the transfer that is started and not yet made (`pending`), and what memory,
the device's buffer and its interrupts have come to (`outcome`).
-/

namespace SmartEth

inductive JobEvent where
  | write (addr : Addr) (val : BitVec 64)
  | timer
  | guest (addr : Addr) (data : List Byte)
  | enable (msix msi : Bool)

/-- What the transfers leave behind: guest memory, the device's buffer, and for each transfer
whether it raised an interrupt. -/
structure Outcome where
  mem : GuestMem
  buf : List Byte
  raised : List Bool

structure PciJobs where
  dev : SmartEthPci
  mem : GuestMem
  raised : List Bool

namespace PciJobs

open SmartEthPci

def outcome (s : PciJobs) : Outcome := ⟨s.mem, s.dev.dmaBuf, s.raised⟩

def step (s : PciJobs) : JobEvent → Option PciJobs
  | .write addr val => if addr &&& 3 = 0 then some { s with dev := (s.dev.mmioWrite addr val).1 } else none
  | .timer =>
    if s.dev.timer then
      let (dev, mem, irqs) := { s.dev with timer := false }.dmaTimerCb s.mem
      some ⟨dev, mem, s.raised ++ [!irqs.isEmpty]⟩
    else none
  | .guest addr data => some { s with mem := s.mem.write addr data }
  | .enable msix msi => some { s with dev := { s.dev with msix := msix, msi := msi } }

/-- At power-on. -/
def init (msix msi : Bool) (mem : GuestMem) : PciJobs := ⟨.new msix msi, mem, []⟩

/-! ## What should come of the events -/

/-- A `CTRL` write with the reset bit. -/
def IsReset (addr : Addr) (val : BitVec 64) : Prop := addr = REG_CTRL ∧ val &&& CTRL_RESET ≠ 0

/-- A `DMA_CTRL` write with the start bit. -/
def IsStart (addr : Addr) (val : BitVec 64) : Prop := addr = REG_DMA_CTRL ∧ val &&& DMA_START.setWidth 64 ≠ 0

instance (addr : Addr) (val : BitVec 64) : Decidable (IsReset addr val) := inferInstanceAs (Decidable (_ ∧ _))

instance (addr : Addr) (val : BitVec 64) : Decidable (IsStart addr val) := inferInstanceAs (Decidable (_ ∧ _))

/-- The last value written to a register, none since the last reset being 0. -/
def lastReg (reg : Addr) : List JobEvent → Word
  | [] => 0
  | .write addr val :: past =>
    if IsReset addr val then 0 else if addr = reg then val.setWidth 32 else lastReg reg past
  | _ :: past => lastReg reg past

/-- The parameters of the last start, if the timer has not come since. -/
def pending : List JobEvent → Option SmartEthPciDma
  | [] => none
  | .timer :: _ => none
  | .write addr val :: past =>
    if IsStart addr val then
      some ⟨(lastReg REG_DMA_SRC past).setWidth 64, (lastReg REG_DMA_DST past).setWidth 64, lastReg REG_DMA_LEN past,
        val.setWidth 32⟩
    else pending past
  | _ :: past => pending past

/-- A transfer of at most the buffer's length. -/
def perform (job : SmartEthPciDma) (o : Outcome) : Outcome :=
  let len := min job.len.toNat SmartEthPci.DMA_BUF_SIZE
  let raised := o.raised ++ [decide (job.ctrl &&& DMA_IRQ_EN ≠ 0)]
  if job.ctrl &&& DMA_DIR_WRITE ≠ 0 then ⟨o.mem.write job.dst (o.buf.take len), o.buf, raised⟩
  else ⟨o.mem, overlay o.buf (o.mem.read job.src len), raised⟩

def outcomeOf (mem : GuestMem) : List JobEvent → Outcome
  | [] => ⟨mem, List.replicate SmartEthPci.DMA_BUF_SIZE 0, []⟩
  | .timer :: past => (pending past).elim (outcomeOf mem past) fun job => perform job (outcomeOf mem past)
  | .guest addr data :: past => { outcomeOf mem past with mem := (outcomeOf mem past).mem.write addr data }
  | _ :: past => outcomeOf mem past

end PciJobs

end SmartEth
