import SmartEth.Impl.DescRing
import SmartEth.System.NicRun

/-!
# Where the NIC looks for descriptors

Runs of the NIC below the driver, in which a state also tells the descriptors that its
last step read or wrote back, each with the ring's registers at that moment:
`on_packet_rx` and a pass of `process_tx` hold `g_reg_mtx` throughout, and change neither
base nor size.
-/

namespace SmartEth

/-- Where an access to guest memory goes. -/
def NicOp.dmaAddr : NicOp → Option Addr
  | .dmaRead addr _ => some addr
  | .dmaWrite addr _ => some addr
  | .sendIrq _ => none
  | .transmit _ => none

def NicOp.isDmaWrite : NicOp → Bool
  | .dmaWrite _ _ => true
  | _ => false

/-- What a section does with these answers, in order. -/
def NicM.doing {α : Type} (p : NicM α) (r : Replies) : List NicOp := (p.exec Replies.logged (r, [])).2.2

/-- A descriptor that is read or written, and its ring's registers then. -/
structure DescAccess where
  addr : Addr
  base : Addr
  size : Word
  deriving DecidableEq

/-- It is one of the ring's. -/
def DescAccess.InRing (a : DescAccess) : Prop := ∃ i < a.size.toNat, a.addr = DescRing.entryAddr a.base i

structure RingBounds where
  run : NicRun
  accesses : List DescAccess

namespace RingBounds

/-- The descriptors among what `on_packet_rx` does: it reads one, and writes it back after the buffer. -/
def rxDescs (ops : List NicOp) : List Addr := (ops.take 1 ++ (ops.drop 2).take 1).filterMap NicOp.dmaAddr

/-- The descriptors among what a pass of `process_tx` does: it reads one before the buffer, and writes nothing else. -/
def txDescs (ops : List NicOp) : List Addr := (ops.take 1 ++ ops.filter NicOp.isDmaWrite).filterMap NicOp.dmaAddr

def accessesOf (nic : SmartNic) : NicEvent → List DescAccess
  | .packet data r =>
    (rxDescs ((nic.onPacketRx data).doing r)).map (⟨·, nic.rxRingBase, nic.reg SC_REG_RX_RING_SIZE⟩)
  | .txIteration r =>
    (txDescs (nic.processTxIteration.doing r)).map (⟨·, nic.txRingBase, nic.reg SC_REG_TX_RING_SIZE⟩)
  | _ => []

def step (s : RingBounds) (e : NicEvent) : Option RingBounds :=
  (s.run.driverStep e).map (⟨·, accessesOf s.run.nic e⟩)

def init (bridge netif : Bool) : RingBounds := ⟨.init bridge netif, []⟩

/-- The last step kept to the rings. -/
def Within (s : RingBounds) : Prop := ∀ a ∈ s.accesses, a.InRing

/-- `on_packet_rx` comes to the ring with this frame. -/
def RxReaches (nic : SmartNic) (data : List Byte) : Prop :=
  nic.bridge = true ∧ nic.rxMatch data = true ∧ ¬ (nic.reg SC_REG_RX_RING_SIZE = 0 ∨ nic.rxRingBase = 0)

/-- A pass of `process_tx` comes to the ring. -/
def TxReaches (nic : SmartNic) : Prop :=
  nic.bridge = true ∧ nic.txPending = true ∧
    ¬ (nic.reg SC_REG_TX_RING_SIZE = 0 ∨ nic.reg SC_REG_TX_DOORBELL = 0 ∨ nic.txRingBase = 0)

/-- A step that comes to a ring finds its tail in range. -/
def TailInRange (s : RingBounds) : NicEvent → Prop
  | .packet data _ =>
    RxReaches s.run.nic data → s.run.nic.reg SC_REG_RX_TAIL < s.run.nic.reg SC_REG_RX_RING_SIZE
  | .txIteration _ =>
    TxReaches s.run.nic → s.run.nic.reg SC_REG_TX_TAIL < s.run.nic.reg SC_REG_TX_RING_SIZE
  | _ => True

instance (nic : SmartNic) (data : List Byte) : Decidable (RxReaches nic data) :=
  inferInstanceAs (Decidable (_ ∧ _ ∧ ¬ (_ ∨ _)))

instance (nic : SmartNic) : Decidable (TxReaches nic) := inferInstanceAs (Decidable (_ ∧ _ ∧ ¬ (_ ∨ _ ∨ _)))

instance (s : RingBounds) : (e : NicEvent) → Decidable (TailInRange s e)
  | .packet _ _ | .txIteration _ => inferInstanceAs (Decidable (_ → _))
  | .write _ _ | .reset | .pollIrq | .dmaCheck | .processDma _ | .txWake | .txDone _ => .isTrue trivial

/-- The tails of both rings are in range, as far as the rings have a size. -/
structure Tails (nic : SmartNic) : Prop where
  rx : nic.reg SC_REG_RX_RING_SIZE ≠ 0 → nic.reg SC_REG_RX_TAIL < nic.reg SC_REG_RX_RING_SIZE
  tx : nic.reg SC_REG_TX_RING_SIZE ≠ 0 → nic.reg SC_REG_TX_TAIL < nic.reg SC_REG_TX_RING_SIZE

/-- A register write leaves the tails in range. -/
def KeepsTails (s : RingBounds) : NicEvent → Prop
  | .write addr data => Tails (s.run.nic.onMmioWrite addr data).1
  | _ => True

end RingBounds

end SmartEth
