import SmartEth.Impl.DescRing
import SmartEth.Impl.PcieBridge
import SmartEth.Impl.ScBridge

/-!
# Completions on the way to the host

`on_packet_rx` and `process_tx` over the bridge, message by message. A
`dma_write` and a `send_irq` only send; a `dma_read` waits until QEMU has handled
its request, and gets the guest bytes as they were then. QEMU handles the
messages one by one, in the order in which they were sent; other threads send
register answers and interrupts among them. No DMA fails, and no `dma_write` is
of more than 4096 bytes, which QEMU would cut off.

Each message is kept with what it is for (`PubMsg`): a write into a ring gives a
descriptor back (`Back`), and belongs, as an interrupt does, to one call of
`on_packet_rx` or to one activation of `process_tx` (`Act`).
-/

namespace SmartEth

/-- The two rings. -/
structure Layout where
  rxBase : Addr
  rxSize : Nat
  txBase : Addr
  txSize : Nat

/-- A call of `on_packet_rx`, an activation of `process_tx`. -/
inductive Act where
  | rx (n : Nat)
  | tx (n : Nat)
  deriving DecidableEq

/-- A write-back: whose it is, where, the descriptor, and for a frame received
the bytes copied to its buffer. -/
structure Back where
  act : Act
  addr : Addr
  desc : SmartEthDesc
  frame : Option (List Byte)

/-- A message to QEMU. -/
inductive PubMsg where
  | read (addr : Addr) (len : Word)
  | write (addr : Addr) (data : List Byte) (back : Option Back)
  | irq (vector : Word) (act : Act)
  | other (m : Msg)

def PubMsg.msg : PubMsg → Msg
  | .read addr len => dmaReadReq addr len
  | .write addr data _ => dmaWriteReq addr data
  | .irq vector _ => msiIrqMsg vector
  | .other m => m

/-- What a bridge call comes to: `dma_read` is a request, and the wait for its
answer. -/
inductive LinkOp where
  | read (addr : Addr) (len : Word)
  | await
  | write (addr : Addr) (data : List Byte)
  | irq (vector : Word)
  | transmit (data : List Byte)

abbrev LinkOp.Res : LinkOp → Type
  | .await => List Byte
  | _ => Unit

abbrev LinkM := Prog LinkOp LinkOp.Res

/-- The bridge calls, none of which fails. -/
def bridgeOp : (e : NicOp) → LinkM e.Res
  | .dmaRead addr len => do
    Prog.call (LinkOp.read addr len)
    let bs ← Prog.call LinkOp.await
    pure (some (bs.take len.toNat))
  | .dmaWrite addr data => do
    Prog.call (LinkOp.write addr data)
    pure true
  | .sendIrq vector => Prog.call (LinkOp.irq vector)
  | .transmit data => Prog.call (LinkOp.transmit data)

structure Publish where
  nic : SmartNic
  qemu : ScBridge
  mem : GuestMem
  /-- The messages QEMU has handled, and those on their way. -/
  handled : List PubMsg
  queue : List PubMsg
  /-- The answer to a `dma_read` that has come. -/
  reply : Option (List Byte)
  /-- The write-back that stands at an address in guest memory, its descriptor and
  its buffer not used again by the host. -/
  live : Addr → Option Back
  /-- Whose messages are being sent, and the frame of the call. -/
  now : Act
  frame : List Byte
  rxCalls : Nat
  txRuns : Nat

inductive PublishHost where
  | qemu
  | other (m : Msg)
  | rxDesc (i : Nat) (desc : SmartEthDesc)
  | txDesc (i : Nat) (desc : SmartEthDesc)
  | write (addr : Addr) (data : List Byte)

inductive PublishPart where
  | packetRx (data : List Byte)
  | txIteration
  | txDone

namespace Publish

open DescRing

variable (L : Layout)

abbrev rxRing : Region 64 := ringRegion L.rxBase L.rxSize

abbrev txRing : Region 64 := ringRegion L.txBase L.txSize

/-- The rings' registers, and the bridge. -/
structure Configured (nic : SmartNic) : Prop where
  bridge : nic.bridge = true
  rxBase : nic.rxRingBase = L.rxBase
  rxSize : (nic.reg SC_REG_RX_RING_SIZE).toNat = L.rxSize
  rxTail : (nic.reg SC_REG_RX_TAIL).toNat < L.rxSize
  txBase : nic.txRingBase = L.txBase
  txSize : (nic.reg SC_REG_TX_RING_SIZE).toNat = L.txSize
  txTail : (nic.reg SC_REG_TX_TAIL).toNat < L.txSize

instance (nic : SmartNic) : Decidable (Configured L nic) :=
  decidable_of_iff (nic.bridge = true ∧ nic.rxRingBase = L.rxBase ∧
      (nic.reg SC_REG_RX_RING_SIZE).toNat = L.rxSize ∧ (nic.reg SC_REG_RX_TAIL).toNat < L.rxSize ∧
      nic.txRingBase = L.txBase ∧ (nic.reg SC_REG_TX_RING_SIZE).toNat = L.txSize ∧
      (nic.reg SC_REG_TX_TAIL).toNat < L.txSize)
    ⟨fun ⟨h1, h2, h3, h4, h5, h6, h7⟩ => ⟨h1, h2, h3, h4, h5, h6, h7⟩,
      fun h => ⟨h.bridge, h.rxBase, h.rxSize, h.rxTail, h.txBase, h.txSize, h.txTail⟩⟩

/-- QEMU handles the next message. -/
def handle (s : Publish) : Option Publish :=
  match s.queue with
  | [] => none
  | x :: rest =>
    let h := s.qemu.handleMsg s.mem x.msg
    some { s with
      qemu := h.bridge
      mem := h.mem
      handled := s.handled ++ [x]
      queue := rest
      reply := match x with
        | .read _ _ => h.sent.head?.map fun m => m.payload.drop 4
        | _ => s.reply
      live := match x with
        | .write _ _ (some b) => fun a => if a = b.addr then some b else s.live a
        | _ => s.live }

/-- QEMU; other threads of the NIC; and the host, which changes a receive
descriptor only while it owns it, for buffers that overlap neither the rings nor
a buffer in use, changes transmit descriptors, and writes memory outside the
rings and the buffers it has given to the NIC. -/
def env (s : Publish) : PublishHost → Option Publish
  | .qemu => s.handle
  | .other m =>
    if m.kind ≠ some .dmaRead ∧ m.kind ≠ some .dmaWrite then some { s with queue := s.queue ++ [.other m] }
    else none
  | .rxDesc i d =>
    if i < L.rxSize ∧ ¬ (entry L.rxBase s.mem i).own ∧
        (InUse d → (bufRegion d).Disjoint (rxRing L) ∧ (bufRegion d).Disjoint (txRing L) ∧
          ∀ j < L.rxSize, j ≠ i → InUse (entry L.rxBase s.mem j) →
            (bufRegion d).Disjoint (bufRegion (entry L.rxBase s.mem j))) then
      some { s with
        mem := s.mem.write (entryAddr L.rxBase i) d.toBytes
        live := fun a => if a = entryAddr L.rxBase i then none else s.live a }
    else none
  | .txDesc i d =>
    if i < L.txSize then
      some { s with
        mem := s.mem.write (entryAddr L.txBase i) d.toBytes
        live := fun a => if a = entryAddr L.txBase i then none else s.live a }
    else none
  | .write addr data =>
    if (⟨addr, data.length⟩ : Region 64).Disjoint (rxRing L) ∧
        (⟨addr, data.length⟩ : Region 64).Disjoint (txRing L) ∧
        ∀ j < L.rxSize, (entry L.rxBase s.mem j).own →
          (⟨addr, data.length⟩ : Region 64).Disjoint (bufRegion (entry L.rxBase s.mem j)) then
      some { s with
        mem := s.mem.write addr data
        live := fun a => (s.live a).filter fun b =>
          b.frame.isNone ∨ (⟨addr, data.length⟩ : Region 64).Disjoint (bufRegion b.desc) }
    else none

/-- A write into a ring gives a descriptor back. -/
def backOf (s : Publish) (addr : Addr) (data : List Byte) : Option Back :=
  if data ≠ [] ∧ (addr ∈ rxRing L ∨ addr ∈ txRing L) then
    let d := SmartEthDesc.ofBytes data
    some ⟨s.now, addr, d, match s.now with
      | .rx _ => some (s.frame.take d.length.toNat)
      | .tx _ => none⟩
  else none

def send (s : Publish) (x : PubMsg) : Publish := { s with queue := s.queue ++ [x] }

def act (s : Publish) : (e : LinkOp) → Unit → Option (e.Res × Publish)
  | .read addr len, _ => some ((), { s.send (.read addr len) with reply := none })
  | .await, _ => s.reply.map fun bs => (bs, { s with reply := none })
  | .write addr data, _ =>
    if data.length ≤ DMA_BUF_SIZE then some ((), s.send (.write addr data (s.backOf L addr data)))
    else none
  | .irq vector, _ => some ((), s.send (.irq vector s.now))
  | .transmit _, _ => some ((), s)

def world : World Publish PublishHost Unit LinkOp LinkOp.Res where
  env := env L
  act := act L

/-- A register write of the host's that leaves the rings where they are, and what
the bridge sends for it. -/
def idle (s : Publish) : Addr × Word → Option Publish
  | (addr, data) =>
    let (nic, outs) := s.nic.onMmioWrite addr data
    if Configured L nic then
      some { s with
        nic := nic
        queue := s.queue ++ (PcieBridge.outMsgs outs ++ [statusMsg .mmioWrite]).map .other }
    else none

/-- A call of `on_packet_rx`, or a critical section of `process_tx`, whose
activation ends with the one past its loop. -/
def start (s : Publish) : PublishPart → Option (Publish × LinkM SmartNic)
  | .packetRx data =>
    some ({ s with now := .rx s.rxCalls, frame := data, rxCalls := s.rxCalls + 1 },
      (s.nic.onPacketRx data).subst bridgeOp)
  | .txIteration =>
    some ({ s with now := .tx s.txRuns }, (do pure (← s.nic.processTxIteration).1).subst bridgeOp)
  | .txDone =>
    some ({ s with now := .tx s.txRuns, txRuns := s.txRuns + 1 }, s.nic.processTxDone.subst bridgeOp)

def finish (s : Publish) (nic : SmartNic) : Publish := { s with nic := nic }

def machine : Machine Publish PublishHost Unit LinkOp LinkOp.Res (Addr × Word) PublishPart SmartNic where
  toWorld := world L
  idle := idle L
  start := start
  finish := finish

/-- Nothing sent yet; the rings do not overlap, nor do buffers in use overlap them
or one another. -/
structure Start (s : Publish) : Prop where
  conf : Configured L s.nic
  rings : (rxRing L).Disjoint (txRing L)
  handled : s.handled = []
  queue : s.queue = []
  live : ∀ a, s.live a = none
  rx : ∀ i < L.rxSize, InUse (entry L.rxBase s.mem i) →
    (bufRegion (entry L.rxBase s.mem i)).Disjoint (rxRing L)
  tx : ∀ i < L.rxSize, InUse (entry L.rxBase s.mem i) →
    (bufRegion (entry L.rxBase s.mem i)).Disjoint (txRing L)
  bufs : ∀ i < L.rxSize, ∀ j < L.rxSize, i ≠ j → InUse (entry L.rxBase s.mem i) →
    InUse (entry L.rxBase s.mem j) →
    (bufRegion (entry L.rxBase s.mem i)).Disjoint (bufRegion (entry L.rxBase s.mem j))

end Publish

end SmartEth
