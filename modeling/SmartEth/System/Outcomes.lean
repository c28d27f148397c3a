import SmartEth.Impl.DescRing
import SmartEth.Impl.Nic

/-!
# What a section comes to

One section of the NIC on guest memory, each of its DMA operations either exact or
without any effect (`Faulty`): a frame received, a pass of `process_tx`, a transfer.
-/

namespace SmartEth

open DescRing SmartNic

/-- Guest memory, and what a section has brought about. -/
structure Faulty where
  mem : GuestMem
  /-- Which of the DMA operations to come succeed; those beyond them fail. -/
  oks : List Bool
  failed : Bool
  sent : List (List Byte)
  irqs : List Word

namespace Faulty

/-- Before a section. -/
def start (mem : GuestMem) (oks : List Bool) : Faulty := ⟨mem, oks, false, [], []⟩

/-- Whether the next DMA operation succeeds. -/
def ok (s : Faulty) : Bool := s.oks.getD 0 false

def answer (s : Faulty) : (e : NicOp) → e.Res × Faulty
  | .dmaRead addr len =>
    (if s.ok then some (s.mem.read addr len.toNat) else none,
      { s with oks := s.oks.tail, failed := s.failed || !s.ok })
  | .dmaWrite addr data =>
    (s.ok, { s with
      mem := if s.ok then s.mem.write addr data else s.mem
      oks := s.oks.tail
      failed := s.failed || !s.ok })
  | .sendIrq vector => ((), { s with irqs := s.irqs ++ [vector] })
  | .transmit data => ((), { s with sent := s.sent ++ [data] })

end Faulty

/-! ## The address filter -/

/-- A frame that a NIC with this address should take: a group address, or its own. -/
def Accepts (mac : Vector Byte 6) (data : List Byte) : Prop :=
  14 ≤ data.length ∧ (data.getD 0 0 &&& 0x01 ≠ 0 ∨ data.take 6 = mac.toList)

/-- The address as `on_packet_rx` takes it apart: the bytes of each register the other way round. -/
def swapped (mac : Vector Byte 6) : Vector Byte 6 :=
  #v[mac.getD 3 0, mac.getD 2 0, mac.getD 1 0, mac.getD 0 0, mac.getD 5 0, mac.getD 4 0]

/-- A unicast frame to exactly one of the two addresses. -/
def Confused (mac : Vector Byte 6) (data : List Byte) : Prop :=
  14 ≤ data.length ∧ data.getD 0 0 &&& 0x01 = 0 ∧
    (data.take 6 = mac.toList ↔ data.take 6 ≠ (swapped mac).toList)

/-- `on_packet_rx`, from the ring on. -/
def SmartNic.rxRing (s : SmartNic) (data : List Byte) : NicM SmartNic :=
  if s.reg SC_REG_RX_RING_SIZE = 0 ∨ s.rxRingBase = 0 then pure s
  else do
    match ← s.readDesc s.rxDescAddr with
    | none => pure s
    | some desc => if !desc.own then pure s else s.rxDeliver data s.rxDescAddr desc

/-! ## Reception -/

namespace Rx

variable (nic : SmartNic) (data : List Byte) (mem : GuestMem) (oks : List Bool)

/-- The descriptor at the tail. -/
def desc : SmartEthDesc := descAt mem nic.rxDescAddr

def copyLen : Nat := min data.length (desc nic mem).length.toNat

/-- Memory with the frame in the buffer. -/
def stored : GuestMem := mem.write (desc nic mem).addr (data.take (copyLen nic data mem))

/-- Then with the descriptor written back. -/
def published : GuestMem :=
  (stored nic data mem).write nic.rxDescAddr (rxComplete (desc nic mem) (copyLen nic data mem)).toBytes

def run : SmartNic × Faulty := (nic.onPacketRx data).exec Faulty.answer (.start mem oks)

/-- The whole frame is in the buffer, and the descriptor says so. -/
structure Delivered (t : SmartNic × Faulty) : Prop where
  failed : t.2.failed = false
  frame : t.2.mem.read (desc nic mem).addr data.length = data
  own : (desc nic t.2.mem).own = false
  done : (desc nic t.2.mem).done = true
  length : (desc nic t.2.mem).length.toNat = data.length
  tail : t.1.reg SC_REG_RX_TAIL = nextTail (nic.reg SC_REG_RX_TAIL) (nic.reg SC_REG_RX_RING_SIZE)

/-- The registers and the descriptor are as before. -/
structure Dropped (t : SmartNic × Faulty) : Prop where
  regs : t.1.regs = nic.regs
  desc : t.2.mem.read nic.rxDescAddr SmartEthDesc.size = mem.read nic.rxDescAddr SmartEthDesc.size

/-- A frame too long for the buffer, completed with an error. -/
structure Marked (t : SmartNic × Faulty) : Prop where
  failed : t.2.failed = false
  long : (desc nic mem).length.toNat < data.length
  own : (desc nic t.2.mem).own = false
  done : (desc nic t.2.mem).done = true
  err : (desc nic t.2.mem).err = true

/-- A descriptor given back as done, without an error, for a frame that its buffer does not hold. -/
structure Partial (t : SmartNic × Faulty) : Prop where
  given : (desc nic mem).own = true ∧ (desc nic t.2.mem).own = false
  done : (desc nic t.2.mem).done = true
  err : (desc nic t.2.mem).err = false
  frame : t.2.mem.read (desc nic mem).addr data.length ≠ data

/-- What the NIC makes of a frame. -/
def AllOrNothing : Prop :=
  Delivered nic data mem (run nic data mem oks) ∨ Dropped nic mem (run nic data mem oks) ∨
    Marked nic data mem (run nic data mem oks)

/-- The frame gets as far as the buffer. -/
def Stores : Prop :=
  nic.bridge = true ∧ oks.getD 0 false = true ∧ (desc nic mem).own = true ∧ oks.getD 1 false = true

/-- A frame that gets as far as the buffer fits, or its descriptor bears ERR already. And where the buffer
overlaps the descriptor, they are to hold the same: the frame and the descriptor given back, or if that is not
written, the descriptor as it was and the frame. -/
def Fits : Prop :=
  Stores nic mem oks →
    if oks.getD 2 false then
      (data.length ≤ (desc nic mem).length.toNat ∧ Mem.Agree (desc nic mem).addr data
        nic.rxDescAddr (rxComplete (desc nic mem) data.length).toBytes) ∨
      ((desc nic mem).length.toNat < data.length ∧ (desc nic mem).err = true)
    else Mem.Agree nic.rxDescAddr (mem.read nic.rxDescAddr SmartEthDesc.size) (desc nic mem).addr
      (data.take (copyLen nic data mem))

end Rx

/-! ## A transfer -/

/-- Guest memory, what the bridge's operations return, and the vectors sent. A read that returns true has put `read`
into the buffer. -/
structure Callbacks where
  mem : GuestMem
  read : Option (List Byte)
  write : Bool
  irqs : List Word

def Callbacks.answer (c : Callbacks) : (e : NicOp) → e.Res × Callbacks
  | .dmaRead _ _ => (c.read, c)
  | .dmaWrite addr data => (c.write, { c with mem := if c.write then c.mem.write addr data else c.mem })
  | .sendIrq vector => ((), { c with irqs := c.irqs ++ [vector] })
  | .transmit _ => ((), c)

namespace DmaReport

variable (nic : SmartNic) (mem : GuestMem) (read : Option (List Byte)) (write : Bool)

def run : (SmartNic × Nat) × Callbacks := nic.processDmaBody.exec Callbacks.answer ⟨mem, read, write, []⟩

/-- The callback of the transfer's direction returns true. -/
def Returns : Prop := nic.bridge = true ∧ if nic.dma.dirWrite then write = true else read.isSome = true

/-- The bytes of the transfer are where it should bring them. -/
def Moved (t : (SmartNic × Nat) × Callbacks) : Prop :=
  if nic.dma.dirWrite then t.2.mem = mem.write nic.dma.dst (nic.dma.buf.take nic.dma.len.toNat)
  else t.1.1.dma.buf.take nic.dma.len.toNat = mem.read nic.dma.src nic.dma.len.toNat

/-- The cause is set where it was not, or a vector is sent. -/
def Reported (t : (SmartNic × Nat) × Callbacks) : Prop :=
  (nic.regs.irqStatus &&& SC_IRQ_DMA_DONE = 0 ∧ t.1.1.regs.irqStatus &&& SC_IRQ_DMA_DONE ≠ 0) ∨ t.2.irqs ≠ []

/-- What is reported has come to pass. -/
def Honest : Prop :=
  Reported nic (run nic mem read write) →
    (nic.dma.len ≠ 0 → Returns nic read write) ∧ Moved nic mem (run nic mem read write)

/-- Nothing is to be reported: the control register does not ask for it, or without a bridge it is reported
already. -/
def Silent : Prop :=
  nic.reg SC_REG_DMA_CTRL &&& SC_DMA_IRQ_EN = 0 ∨
    (nic.bridge = false ∧ nic.regs.irqStatus &&& SC_IRQ_DMA_DONE ≠ 0)

/-- The callback brings the bytes. -/
def Brings : Prop :=
  nic.bridge = true ∧
    if nic.dma.dirWrite then write = true
    else ∃ bs, read = some bs ∧
      (overlay nic.dma.buf bs).take nic.dma.len.toNat = mem.read nic.dma.src nic.dma.len.toNat

/-- What a START write latches: the registers, the length up to the size of the buffer. -/
def Latches (data : Word) : Prop :=
  let d := (nic.onMmioWrite SC_REG_DMA_CTRL data).1.dma
  d.src = (nic.reg SC_REG_DMA_SRC).setWidth 64 ∧ d.dst = (nic.reg SC_REG_DMA_DST).setWidth 64 ∧
    d.len.toNat = min (nic.reg SC_REG_DMA_LEN).toNat DMA_MAX_BUF ∧ d.dirWrite = (data &&& SC_DMA_DIR_WRITE != 0)

end DmaReport

end SmartEth
