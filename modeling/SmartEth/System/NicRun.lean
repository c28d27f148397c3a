import SmartEth.System.TxRing

/-!
# The NIC on its own

Register writes, resets, frames and the sections of the processes, each under
`g_reg_mtx`, in any order that the processes' code allows; any DMA may fail or
give anything. `process_dma` looks at `m_dma_pending` before it takes the lock.
A state also tells what its last step did: the interrupt status before it, and
the vectors it sent.
-/

namespace SmartEth

/-- The interrupts among what a section has done. -/
def NicOp.vector : NicOp → Option Word
  | .sendIrq v => some v
  | _ => none

def NicOut.vector : NicOut → Option Word
  | .irq v => some v
  | .notifyTx => none

/-- The bridge's answers, and the operations so far. -/
def Replies.logged (s : Replies × List NicOp) (e : NicOp) : e.Res × (Replies × List NicOp) :=
  ((s.1.answer e).1, (s.1.answer e).2, s.2 ++ [e])

/-- A section with these answers, and the vectors it sends. -/
def NicM.runSends {α : Type} (p : NicM α) (r : Replies) : α × List Word :=
  ((p.exec Replies.logged (r, [])).1, (p.exec Replies.logged (r, [])).2.2.filterMap NicOp.vector)

structure NicRun where
  nic : SmartNic
  /-- `process_dma` is past its check. -/
  dmaChecked : Bool
  txLoc : TxLoc
  before : Word
  sent : List Word

inductive NicEvent where
  | write (addr : Addr) (data : Word)
  | reset
  | packet (data : List Byte) (r : Replies)
  | pollIrq
  | dmaCheck
  | processDma (r : Replies)
  | txWake
  | txIteration (r : Replies)
  | txDone (r : Replies)

/-- A register write is aligned. -/
def NicEvent.aligned : NicEvent → Bool
  | .write addr _ => addr &&& 3 = 0
  | _ => true

namespace NicRun

/-- After a step that leaves the NIC as `nic`, and sends `sent`. -/
def next (s : NicRun) (nic : SmartNic) (sent : List Word) : NicRun :=
  { s with nic := nic, before := s.nic.regs.irqStatus, sent := sent }

def step (s : NicRun) : NicEvent → Option NicRun
  | .write addr data =>
    some (s.next (s.nic.onMmioWrite addr data).1 ((s.nic.onMmioWrite addr data).2.filterMap NicOut.vector))
  | .reset => some (s.next s.nic.onReset [])
  | .packet data r =>
    let x := (s.nic.onPacketRx data).runSends r
    some (s.next x.1 x.2)
  | .pollIrq => some (s.next s.nic (s.nic.pollIrqBody.runSends ⟨[], []⟩).2)
  | .dmaCheck => if s.nic.dmaPending then some { s.next s.nic [] with dmaChecked := true } else none
  | .processDma r =>
    if s.dmaChecked then
      let x := s.nic.processDmaBody.runSends r
      some { s.next x.1.1 x.2 with dmaChecked := false }
    else none
  | .txWake => if s.txLoc = .wait then some { s.next s.nic [] with txLoc := .loop } else none
  | .txIteration r =>
    if s.txLoc = .loop then
      let x := s.nic.processTxIteration.runSends r
      some { s.next x.1.1 x.2 with txLoc := if x.1.2.isSome then .loop else .done }
    else none
  | .txDone r =>
    if s.txLoc = .done then
      let x := s.nic.processTxDone.runSends r
      some { s.next x.1 x.2 with txLoc := .wait }
    else none

/-- A step below the driver, which writes registers at their addresses. -/
def driverStep (s : NicRun) (e : NicEvent) : Option NicRun := if e.aligned then s.step e else none

/-- The NIC as constructed, its pointers set or not. -/
def init (bridge netif : Bool) : NicRun where
  nic := { SmartNic.new with bridge := bridge, netif := netif }
  dmaChecked := false
  txLoc := .wait
  before := 0
  sent := []

/-- A frame goes into a buffer: the filter accepts it, the ring is configured, its
next descriptor is the NIC's, and no DMA fails. -/
structure Delivers (nic : SmartNic) (data : List Byte) (r : Replies) : Prop where
  bridge : nic.bridge = true
  rxMatch : nic.rxMatch data = true
  ring : ¬ (nic.reg SC_REG_RX_RING_SIZE = 0 ∨ nic.rxRingBase = 0)
  desc : ∃ bs reads, r.reads = some bs :: reads ∧
    (SmartEthDesc.ofBytes (overlay (List.replicate SmartEthDesc.size 0) bs)).own = true
  writes : ∃ writes, r.writes = true :: true :: writes

/-! ## Reset -/

/-- The registers and the requests of a NIC as constructed. -/
structure PowerOn (nic : SmartNic) : Prop where
  regs : nic.regs.regs = RegBlock.new.regs
  dma : nic.dmaPending = false
  tx : nic.txPending = false

/-- Both resets restore power-on. -/
def Restores (s : NicRun) : Prop :=
  (∀ data : Word, data &&& SC_CTRL_RESET ≠ 0 → PowerOn (s.nic.onMmioWrite SC_REG_CTRL data).1) ∧
    PowerOn s.nic.onReset

/-! ## Interrupts -/

/-- What the last step sent, it sent for a cause that is enabled. The registers are
as at the send, since a step does nothing after it. -/
def Masked (s : NicRun) : Prop := s.sent ≠ [] → s.nic.regs.irqStatus &&& s.nic.reg SC_REG_IRQ_EN ≠ 0

/-- The step does not send, or an enabled cause is set: after an acknowledgement in
what it leaves, otherwise in what is set already or is about to be. -/
def Enabled (s : NicRun) : NicEvent → Prop
  | .write addr data =>
    s.nic.bridge = true →
      (addr = SC_REG_IRQ_STS → s.nic.regs.irqStatus &&& ~~~data &&& s.nic.reg SC_REG_IRQ_EN ≠ 0) ∧
      (addr = SC_REG_IRQ_TEST → data ≠ 0 →
        (s.nic.regs.irqStatus ||| SC_IRQ_TEST) &&& s.nic.reg SC_REG_IRQ_EN ≠ 0)
  | .pollIrq =>
    s.nic.bridge = true → s.nic.regs.irqStatus ≠ 0 → s.nic.regs.irqStatus &&& s.nic.reg SC_REG_IRQ_EN ≠ 0
  | .processDma _ =>
    s.nic.bridge = true → s.nic.reg SC_REG_DMA_CTRL &&& SC_DMA_IRQ_EN ≠ 0 →
      (s.nic.regs.irqStatus ||| SC_IRQ_DMA_DONE) &&& s.nic.reg SC_REG_IRQ_EN ≠ 0
  | _ => True

instance (s : NicRun) : (e : NicEvent) → Decidable (Enabled s e)
  | .write _ _ => inferInstanceAs (Decidable (_ → (_ → _) ∧ (_ → _ → _)))
  | .pollIrq | .processDma _ => inferInstanceAs (Decidable (_ → _ → _))
  | .reset | .packet _ _ | .dmaCheck | .txWake | .txIteration _ | .txDone _ => .isTrue trivial

/-- An enabled cause that the last step has set was sent with vector 0, the one that
the driver has allocated. -/
def Reaches (s : NicRun) : Prop :=
  s.nic.bridge = true → s.nic.regs.irqStatus &&& ~~~s.before &&& s.nic.reg SC_REG_IRQ_EN ≠ 0 → 0 ∈ s.sent

/-- The step sets neither RX nor TX_DONE while it is enabled and clear. -/
def OnVectorZero (s : NicRun) : NicEvent → Prop
  | .packet data r => Delivers s.nic data r →
      ¬ (s.nic.reg SC_REG_IRQ_EN &&& SC_IRQ_RX ≠ 0 ∧ s.nic.regs.irqStatus &&& SC_IRQ_RX = 0)
  | .txDone _ => s.nic.bridge = true →
      ¬ (s.nic.reg SC_REG_IRQ_EN &&& SC_IRQ_TX_DONE ≠ 0 ∧ s.nic.regs.irqStatus &&& SC_IRQ_TX_DONE = 0)
  | _ => True

end NicRun

end SmartEth
