import SmartEth.System.Outcomes
import SmartEth.System.TxRing

/-!
# Transmission with failing DMA

A pass of `process_tx`, some of whose DMA operations fail. Then the ring of `TxRing`
with such passes: any DMA operation may fail, and the doorbell may be rung again at
any time.
-/

namespace SmartEth.TxRetry

open DescRing SmartNic

section

variable (nic : SmartNic) (mem : GuestMem) (oks : List Bool)

/-- The descriptor at the tail. -/
def desc : SmartEthDesc := descAt mem nic.txDescAddr

def pass : (SmartNic × Option Nat) × Faulty := nic.processTxIteration.exec Faulty.answer (.start mem oks)

/-- A pass that does not move the ring on leaves no trace: no frame, the descriptor, the tail and the doorbell as
they were. -/
def Traceless : Prop :=
  let t := pass nic mem oks
  t.1.2 = none → t.2.sent = [] ∧
    t.2.mem.read nic.txDescAddr SmartEthDesc.size = mem.read nic.txDescAddr SmartEthDesc.size ∧
    t.1.1.reg SC_REG_TX_TAIL = nic.reg SC_REG_TX_TAIL ∧ t.1.1.reg SC_REG_TX_DOORBELL = nic.reg SC_REG_TX_DOORBELL

/-- The frame at the tail is read and sent, and then its descriptor cannot be written back. -/
structure Strands : Prop where
  pending : nic.txPending = true
  ring : ¬ (nic.reg SC_REG_TX_RING_SIZE = 0 ∨ nic.reg SC_REG_TX_DOORBELL = 0 ∨ nic.txRingBase = 0)
  bridge : nic.bridge = true
  netif : nic.netif = true
  own : oks.getD 0 false = true ∧ (desc nic mem).own = true
  read : oks.getD 1 false = true
  writeBack : oks.getD 2 false = false

end

/-! ## Runs -/

/-- DMA operations that fail, or are exact. -/
def act (s : TxRing) : (e : NicOp) → Bool → Option (e.Res × TxRing)
  | .dmaRead addr len, ok => some (if ok then some (s.mem.read addr len.toNat) else none, s)
  | .dmaWrite addr data, ok =>
    some (ok, if ok then { s with mem := s.mem.write addr data, completed := s.completed + 1 } else s)
  | .sendIrq _, _ => some ((), s)
  | .transmit data, _ => some ((), { s with sent := s.sent ++ [data] })

def machine (base : Addr) (n : Nat) : Machine TxRing TxHost Bool NicOp NicOp.Res TxIdle TxPart (SmartNic × Option Nat)
    where
  env := TxRing.env base n false
  act := act
  idle := TxRing.idle
  start := TxRing.start false
  finish := TxRing.finish

/-- The operation does not fail to write a descriptor back. -/
def WritesBack (_ : TxRing) (e : NicOp) (ok : Bool) : Prop :=
  match e with
  | .dmaWrite _ _ => ok = true
  | _ => True

instance (s : TxRing) (e : NicOp) (ok : Bool) : Decidable (WritesBack s e ok) :=
  match e with
  | .dmaWrite _ _ => inferInstanceAs (Decidable (ok = true))
  | .dmaRead _ _ | .sendIrq _ | .transmit _ => .isTrue trivial

/-- The frames sent are the first of those posted, each of them once. -/
def Once (s : TxRing) : Prop := s.sent <+: s.posted.map TxFrame.bytes

end SmartEth.TxRetry
