import SmartEth.Framework.Prog
import SmartEth.Impl.RegBlock
import SmartEth.Impl.DmaEngine
import SmartEth.Impl.PktProc

/-!
# The NIC (`nic.cpp`)

The callbacks and the bodies of the SystemC processes, each as one critical
section of `g_reg_mtx`: what it does to the registers while it holds the lock,
and in between the operations (`NicOp`) through which it waits for the bridge
or the network. The register callbacks do none: they give the events they
notify and the interrupts they send (`NicOut`).
-/

namespace SmartEth

/-- What a NIC thread asks of the bridge and the network. -/
inductive NicOp where
  | dmaRead (addr : Addr) (len : Word)
  | dmaWrite (addr : Addr) (data : List Byte)
  | sendIrq (vector : Word)
  | transmit (data : List Byte)
  deriving DecidableEq

/-- `dma_read` gives the bytes it put into the caller's buffer, or fails;
`dma_write` whether it did not fail. -/
abbrev NicOp.Res : NicOp → Type
  | .dmaRead _ _ => Option (List Byte)
  | .dmaWrite _ _ => Bool
  | .sendIrq _ => Unit
  | .transmit _ => Unit

abbrev NicM := Prog NicOp NicOp.Res

/-- What a register callback does besides. -/
inductive NicOut where
  | notifyTx
  | irq (vector : Word)
  deriving DecidableEq

/-- `bridge` and `netif` tell whether the pointers are set. -/
structure SmartNic where
  bridge : Bool
  netif : Bool
  regs : RegBlock
  dma : DmaEngine
  pkt : PktProc
  dmaPending : Bool
  txPending : Bool

namespace SmartNic

/-- The constructor. -/
def new : SmartNic where
  bridge := false
  netif := false
  regs := .new
  dma := .new
  pkt := .new
  dmaPending := false
  txPending := false

/-- `m_regs.get_reg(reg >> 2)`. -/
def reg (s : SmartNic) (reg : Addr) : Word := s.regs.getReg (reg >>> 2)

/-- `m_regs.set_reg(reg >> 2, val)`. -/
def setReg (s : SmartNic) (reg : Addr) (val : Word) : SmartNic :=
  { s with regs := s.regs.setReg (reg >>> 2) val }

@[simp] theorem reg_setReg_self (s : SmartNic) (a : Addr) (v : Word) : (s.setReg a v).reg a = v :=
  RegBlock.getReg_setReg_self _ _ _

theorem reg_setReg_ne {s : SmartNic} {a b : Addr} {v : Word} (h : b >>> 2 ≠ a >>> 2) :
    (s.setReg a v).reg b = s.reg b := RegBlock.getReg_setReg_ne h

def dmaReadBridge (s : SmartNic) (addr : Addr) (len : Word) : NicM (Option (List Byte)) :=
  if s.bridge then Prog.call (NicOp.dmaRead addr len) else pure none

def dmaWriteBridge (s : SmartNic) (addr : Addr) (data : List Byte) : NicM Bool :=
  if s.bridge then Prog.call (NicOp.dmaWrite addr data) else pure false

/-- Reads a descriptor into a local variable: what the read leaves out of it is
indeterminate in the source, zero here. -/
def readDesc (s : SmartNic) (descAddr : Addr) : NicM (Option SmartEthDesc) := do
  let r ← s.dmaReadBridge descAddr (BitVec.ofNat 32 SmartEthDesc.size)
  pure (r.map fun bs => .ofBytes (overlay (List.replicate SmartEthDesc.size 0) bs))

/-- Sets an interrupt cause, and sends vector `vector`. -/
def raiseIrq (s : SmartNic) (cause vector : Word) : NicM SmartNic :=
  let s := s.setReg SC_REG_IRQ_STS (s.regs.irqStatus ||| cause)
  if s.bridge then do
    Prog.call (NicOp.sendIrq vector)
    pure s
  else pure s

/-! ## Register callbacks -/

def onMmioRead (s : SmartNic) (addr : Addr) : Word :=
  let val := s.regs.read addr
  if addr = SC_REG_DMA_STS then
    (val &&& ~~~0x02) ||| (if s.dma.status != 0 then 0x02 else 0)
  else val

/-- There is no register at an address from `SC_REG_COUNT` on. -/
theorem onMmioRead_of_ge (s : SmartNic) {addr : Addr} (h : SC_REG_COUNT ≤ addr) : s.onMmioRead addr = 0 := by
  have hne : addr ≠ SC_REG_DMA_STS := fun he => absurd (he ▸ h) (by decide)
  rw [onMmioRead, if_neg hne, RegBlock.read, if_pos h]

/-- `DMA_CTRL` written with the start bit. -/
def startDma (s : SmartNic) (data : Word) : SmartNic :=
  let dma := s.dma.configure ((s.reg SC_REG_DMA_SRC).setWidth 64) ((s.reg SC_REG_DMA_DST).setWidth 64)
    (s.reg SC_REG_DMA_LEN) data
  { ({ s with dma := dma }.setReg SC_REG_DMA_STS SC_STATUS_DMA_BSY) with dmaPending := true }

def onMmioWrite (s : SmartNic) (addr : Addr) (data : Word) : SmartNic × List NicOut :=
  let (regs, irq) := s.regs.write addr data
  let s := { s with regs := regs }
  let s := if addr = SC_REG_DMA_CTRL ∧ data &&& SC_DMA_START ≠ 0 then s.startDma data else s
  let (s, notify) := if addr = SC_REG_TX_DOORBELL ∧ data ≠ 0 then
    ({ s with txPending := true }, [NicOut.notifyTx]) else (s, [])
  (s, notify ++ if irq && s.bridge then [.irq 0] else [])

/-- What a register write does to the NIC, apart from what it sends. -/
theorem onMmioWrite_fst (s : SmartNic) (addr : Addr) (data : Word) :
    (s.onMmioWrite addr data).1 =
      let t := { s with
        regs := (s.regs.write addr data).1
        txPending := s.txPending || (addr = SC_REG_TX_DOORBELL ∧ data ≠ 0) }
      if addr = SC_REG_DMA_CTRL ∧ data &&& SC_DMA_START ≠ 0 then t.startDma data else t := by
  simp only [onMmioWrite]
  by_cases hd : addr = SC_REG_DMA_CTRL ∧ data &&& SC_DMA_START ≠ 0
  · have ht : ¬ (addr = SC_REG_TX_DOORBELL ∧ data ≠ 0) := by
      rw [hd.1]
      exact fun h => absurd h.1 (by decide)
    rw [if_pos hd, if_neg ht, if_pos hd, decide_eq_false ht, Bool.or_false]
  · rw [if_neg hd, if_neg hd]
    by_cases ht : addr = SC_REG_TX_DOORBELL ∧ data ≠ 0
    · rw [if_pos ht, decide_eq_true ht, Bool.or_true]
    · rw [if_neg ht, decide_eq_false ht, Bool.or_false]

/-- What a register write notifies and sends. -/
theorem onMmioWrite_snd (s : SmartNic) (addr : Addr) (data : Word) :
    (s.onMmioWrite addr data).2 = (if addr = SC_REG_TX_DOORBELL ∧ data ≠ 0 then [NicOut.notifyTx] else []) ++
      if (s.regs.write addr data).2 && s.bridge then [.irq 0] else [] := by
  have hb : ∀ u : SmartNic,
      (if addr = SC_REG_DMA_CTRL ∧ data &&& SC_DMA_START ≠ 0 then u.startDma data else u).bridge = u.bridge := by
    intro u
    split <;> rfl
  simp only [onMmioWrite]
  split
  · dsimp only
    rw [hb]
  · dsimp only
    rw [hb]

def onReset (s : SmartNic) : SmartNic :=
  { s with regs := s.regs.reset, dmaPending := false, txPending := false }

/-! ## Reception -/

/-- The address filter: a group address, or the address in the MAC registers,
its first byte the high byte of `MAC_LO`. -/
def rxMatch (s : SmartNic) (data : List Byte) : Bool :=
  let lo := s.reg SC_REG_MAC_LO
  let hi := s.reg SC_REG_MAC_HI
  let nicMac : List Byte := [lo.extractLsb' 24 8, lo.extractLsb' 16 8, lo.extractLsb' 8 8,
    lo.extractLsb' 0 8, hi.extractLsb' 8 8, hi.extractLsb' 0 8]
  data.length ≥ 14 && (data.getD 0 0 &&& 0x01 != 0 || data.take 6 == nicMac)

def rxRingBase (s : SmartNic) : Addr :=
  (s.reg SC_REG_RX_RING_BASE_HI).setWidth 64 <<< 32 ||| (s.reg SC_REG_RX_RING_BASE_LO).setWidth 64

def rxDescAddr (s : SmartNic) : Addr := s.rxRingBase + (s.reg SC_REG_RX_TAIL).setWidth 64 * 16

/-- The descriptor with the data's length, given back to the host. -/
def rxComplete (desc : SmartEthDesc) (copyLen : Nat) : SmartEthDesc :=
  { desc.complete with length := BitVec.ofNat 32 copyLen }

theorem length_rxComplete {desc : SmartEthDesc} {copyLen : Nat} (h : copyLen ≤ desc.length.toNat) :
    (rxComplete desc copyLen).length.toNat = copyLen := by
  have := desc.length.isLt
  rw [rxComplete, BitVec.toNat_ofNat, Nat.mod_eq_of_lt (by omega)]

/-- The tail of a ring that moves on by one: `(tail + 1) % ring_size`. -/
def nextTail (tail ringSize : Word) : Word := (tail + 1) % ringSize

/-- The tail moves on round the ring. -/
theorem nextTail_toNat {tail ringSize : Word} {n c : Nat} (hn : 0 < n) (ht : tail.toNat = c % n)
    (hs : ringSize.toNat = n) : (nextTail tail ringSize).toNat = (c + 1) % n := by
  have hlt : n < 2 ^ 32 := hs ▸ ringSize.isLt
  have hc := Nat.mod_lt c hn
  have h1 : (1 : Word).toNat = 1 := rfl
  have h2 : (c % n + 1) % 2 ^ 32 = c % n + 1 := Nat.mod_eq_of_lt (by omega)
  rw [nextTail, BitVec.toNat_umod, BitVec.toNat_add, ht, hs, h1, h2, Nat.mod_add_mod]

/-- A frame that the filter accepts, and the descriptor read for it: copied to
the buffer, then published. -/
def rxDeliver (s : SmartNic) (data : List Byte) (descAddr : Addr) (desc : SmartEthDesc) : NicM SmartNic := do
  let copyLen := min data.length desc.length.toNat
  if ← s.dmaWriteBridge desc.addr (data.take copyLen) then
    if ← s.dmaWriteBridge descAddr (rxComplete desc copyLen).toBytes then
      let s := s.setReg SC_REG_RX_TAIL (nextTail (s.reg SC_REG_RX_TAIL) (s.reg SC_REG_RX_RING_SIZE))
      if s.reg SC_REG_IRQ_EN &&& SC_IRQ_RX ≠ 0 then s.raiseIrq SC_IRQ_RX 1 else pure s
    else pure s
  else pure s

def onPacketRx (s : SmartNic) (data : List Byte) : NicM SmartNic :=
  let s := { s with pkt := (s.pkt.receive data).1 }
  if !s.rxMatch data then pure s
  else if s.reg SC_REG_RX_RING_SIZE = 0 ∨ s.rxRingBase = 0 then pure s
  else do
    match ← s.readDesc s.rxDescAddr with
    | none => pure s
    | some desc => if !desc.own then pure s else s.rxDeliver data s.rxDescAddr desc

/-! ## Processes -/

/-- `poll_irq`, after its wait: vector 0 for a finished transfer, 1 for any other cause. -/
def pollIrqBody (s : SmartNic) : NicM Unit :=
  let irq := s.regs.irqStatus
  if irq ≠ 0 ∧ s.bridge then
    Prog.call (NicOp.sendIrq (if irq &&& SC_IRQ_DMA_DONE ≠ 0 then 0 else 1))
  else pure ()

/-- `process_dma`, from the lock to its second wait, whose time it gives. -/
def processDmaBody (s : SmartNic) : NicM (SmartNic × Nat) := do
  let (dma, delay) ← s.dma.start s.dmaReadBridge s.dmaWriteBridge
  let s := { ({ s with dma := dma }.setReg SC_REG_DMA_STS 0) with dmaPending := false }
  if s.reg SC_REG_DMA_CTRL &&& SC_DMA_IRQ_EN ≠ 0 then
    let s ← s.raiseIrq SC_IRQ_DMA_DONE 0
    pure (s, delay)
  else pure (s, delay)

/-- The NIC when a transfer is over, before the interrupt. -/
def dmaDone (s : SmartNic) (dma : DmaEngine) : SmartNic :=
  { ({ s with dma := dma }.setReg SC_REG_DMA_STS 0) with dmaPending := false }

theorem processDmaBody_eq (s : SmartNic) :
    s.processDmaBody = s.dma.start s.dmaReadBridge s.dmaWriteBridge >>= fun r =>
      if (s.dmaDone r.1).reg SC_REG_DMA_CTRL &&& SC_DMA_IRQ_EN ≠ 0 then
        (s.dmaDone r.1).raiseIrq SC_IRQ_DMA_DONE 0 >>= fun t => pure (t, r.2)
      else pure (s.dmaDone r.1, r.2) := rfl

theorem reg_dmaDone {s : SmartNic} {dma : DmaEngine} {a : Addr} (h : a >>> 2 ≠ SC_REG_DMA_STS >>> 2) :
    (s.dmaDone dma).reg a = s.reg a := reg_setReg_ne h

def txRingBase (s : SmartNic) : Addr :=
  (s.reg SC_REG_TX_RING_BASE_HI).setWidth 64 <<< 32 ||| (s.reg SC_REG_TX_RING_BASE_LO).setWidth 64

def txDescAddr (s : SmartNic) : Addr := s.txRingBase + (s.reg SC_REG_TX_TAIL).setWidth 64 * 16

/-- Moves the ring on: the tail by one, the doorbell down by one. -/
def txAdvance (s : SmartNic) : SmartNic :=
  (s.setReg SC_REG_TX_TAIL (nextTail (s.reg SC_REG_TX_TAIL) (s.reg SC_REG_TX_RING_SIZE))).setReg
    SC_REG_TX_DOORBELL (s.reg SC_REG_TX_DOORBELL - 1)

/-- A frame read from the host: handed to the network, then given back. The
time to wait if that succeeds. -/
def txSend (s : SmartNic) (descAddr : Addr) (desc : SmartEthDesc) (pktData : List Byte) :
    NicM (SmartNic × Option Nat) := do
  if s.netif then Prog.call (NicOp.transmit pktData) else pure ()
  if ← s.dmaWriteBridge descAddr desc.complete.toBytes then
    pure (s.txAdvance, some (100 + desc.length.toNat / 4 * 2))
  else pure (s, none)

/-- A descriptor read for the frame at the tail. -/
def txFetch (s : SmartNic) (descAddr : Addr) (desc : SmartEthDesc) : NicM (SmartNic × Option Nat) :=
  if !desc.own then pure ({ s with txPending := false }, none)
  else do
    match ← s.dmaReadBridge desc.addr desc.length with
    | none => pure (s, none)
    | some pkt => s.txSend descAddr desc (overlay (List.replicate desc.length.toNat 0) pkt)

/-- One pass of the inner loop of `process_tx`, from the lock to its wait: the
time to wait there, or none if the pass leaves the loop. -/
def processTxIteration (s : SmartNic) : NicM (SmartNic × Option Nat) :=
  if !s.txPending then pure (s, none)
  else if s.reg SC_REG_TX_RING_SIZE = 0 ∨ s.reg SC_REG_TX_DOORBELL = 0 ∨ s.txRingBase = 0 then
    pure ({ s with txPending := false }, none)
  else do
    match ← s.readDesc s.txDescAddr with
    | none => pure (s, none)
    | some desc => s.txFetch s.txDescAddr desc

theorem processTxIteration_idle {s : SmartNic} (hp : ¬ s.txPending = true) : s.processTxIteration = pure (s, none) :=
  if_pos (by simp [hp])

theorem processTxIteration_stopped {s : SmartNic} (hp : s.txPending = true)
    (hr : s.reg SC_REG_TX_RING_SIZE = 0 ∨ s.reg SC_REG_TX_DOORBELL = 0 ∨ s.txRingBase = 0) :
    s.processTxIteration = pure ({ s with txPending := false }, none) :=
  (if_neg (by simp [hp])).trans (if_pos hr)

theorem processTxIteration_ready {s : SmartNic} (hp : s.txPending = true)
    (hr : ¬ (s.reg SC_REG_TX_RING_SIZE = 0 ∨ s.reg SC_REG_TX_DOORBELL = 0 ∨ s.txRingBase = 0)) :
    s.processTxIteration = s.readDesc s.txDescAddr >>= fun r =>
      match r with
      | none => pure (s, none)
      | some desc => s.txFetch s.txDescAddr desc :=
  (if_neg (by simp [hp])).trans (if_neg hr)

/-- `process_tx`, after its inner loop. -/
def processTxDone (s : SmartNic) : NicM SmartNic :=
  if s.reg SC_REG_IRQ_EN &&& SC_IRQ_TX_DONE ≠ 0 then s.raiseIrq SC_IRQ_TX_DONE 1 else pure s

/-! ## Operations, with the bridge set -/

section Bridge

variable {s : SmartNic} {α : Type}

theorem dmaReadBridge_bind (hb : s.bridge = true) (addr : Addr) (len : Word)
    (f : Option (List Byte) → NicM α) :
    (s.dmaReadBridge addr len >>= f) = .op (.dmaRead addr len) f := by
  simp only [dmaReadBridge, hb, ite_true, Prog.call_bind]

theorem dmaWriteBridge_bind (hb : s.bridge = true) (addr : Addr) (data : List Byte)
    (f : Bool → NicM α) :
    (s.dmaWriteBridge addr data >>= f) = .op (.dmaWrite addr data) f := by
  simp only [dmaWriteBridge, hb, ite_true, Prog.call_bind]

theorem readDesc_bind (hb : s.bridge = true) (descAddr : Addr) (f : Option SmartEthDesc → NicM α) :
    (s.readDesc descAddr >>= f) = .op (.dmaRead descAddr (BitVec.ofNat 32 SmartEthDesc.size)) fun r =>
      f (r.map fun bs => .ofBytes (overlay (List.replicate SmartEthDesc.size 0) bs)) := by
  simp only [readDesc, dmaReadBridge, hb, ite_true, Prog.call_bind, Prog.op_bind, Prog.pure_eq,
    Prog.ret_bind]

/-- Without the bridge nothing is read. -/
theorem readDesc_bind_of_not (hb : ¬ s.bridge = true) (descAddr : Addr) (f : Option SmartEthDesc → NicM α) :
    (s.readDesc descAddr >>= f) = f none := by
  have hread : s.dmaReadBridge descAddr (BitVec.ofNat 32 SmartEthDesc.size) = pure none := if_neg hb
  rw [readDesc, hread]
  rfl

end Bridge

end SmartNic

/-! ## Answers -/

/-- What the bridge will answer: what reads put into the caller's buffer, if they
do not fail, and whether writes do not. Operations beyond these fail. -/
structure Replies where
  reads : List (Option (List Byte))
  writes : List Bool

def Replies.answer (r : Replies) : (e : NicOp) → e.Res × Replies
  | .dmaRead _ _ => (r.reads.head?.join, { r with reads := r.reads.tail })
  | .dmaWrite _ _ => (r.writes.head?.getD false, { r with writes := r.writes.tail })
  | .sendIrq _ => ((), r)
  | .transmit _ => ((), r)

/-- A critical section with these answers. -/
def NicM.runWith {α : Type} (p : NicM α) (r : Replies) : α := (p.exec Replies.answer r).1

/-- DMA that is exact and does not fail. -/
def exactDma (mem : GuestMem) : (e : NicOp) → e.Res × GuestMem
  | .dmaRead addr len => (some (mem.read addr len.toNat), mem)
  | .dmaWrite addr data => (true, mem.write addr data)
  | .sendIrq _ => ((), mem)
  | .transmit _ => ((), mem)

end SmartEth
