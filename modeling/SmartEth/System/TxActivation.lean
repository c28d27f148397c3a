import SmartEth.System.NicRun

/-!
# Activations of process_tx

The NIC on its own, with a count of the descriptors completed since `process_tx` was
last woken.
-/

namespace SmartEth

structure TxActivation where
  run : NicRun
  /-- Descriptors completed since the last wake-up. -/
  completed : Nat
  /-- There was no pass since. -/
  fresh : Bool
  /-- The first pass since had all it takes to complete a descriptor. -/
  first : Bool

namespace TxActivation

/-- A pass has all it takes to complete a descriptor: work is pending, the ring is configured, the descriptor at
its tail is the NIC's, and no DMA fails. -/
def completes (nic : SmartNic) (r : Replies) : Bool :=
  nic.txPending &&
    !(nic.reg SC_REG_TX_RING_SIZE = 0 ∨ nic.reg SC_REG_TX_DOORBELL = 0 ∨ nic.txRingBase = 0) && nic.bridge &&
    match r.reads with
    | some bs :: some _ :: _ =>
      (SmartEthDesc.ofBytes (overlay (List.replicate SmartEthDesc.size 0) bs)).own && r.writes.head?.getD false
    | _ => false

def step (s : TxActivation) (e : NicEvent) : Option TxActivation :=
  (s.run.step e).map fun t =>
    match e with
    | .txWake => ⟨t, 0, true, false⟩
    | .txIteration r =>
      { run := t
        completed := s.completed + if (s.run.nic.processTxIteration.runSends r).1.2.isSome then 1 else 0
        fresh := false
        first := if s.fresh then completes s.run.nic r else s.first }
    | _ => { s with run := t }

def init (bridge netif : Bool) : TxActivation := ⟨.init bridge netif, 0, true, false⟩

def isDone : NicEvent → Bool
  | .txDone _ => true
  | _ => false

/-- The interrupt is enabled, and a descriptor was completed. -/
def Due (s : TxActivation) : Prop := s.run.nic.reg SC_REG_IRQ_EN &&& SC_IRQ_TX_DONE ≠ 0 ∧ 1 ≤ s.completed

/-- Where it is due, the cause is set and its interrupt sent; and it is due where the cause was set anew or an
interrupt sent. -/
def Right (s : TxActivation) : Prop :=
  (Due s → s.run.nic.regs.irqStatus &&& SC_IRQ_TX_DONE ≠ 0 ∧ s.run.sent = [1]) ∧
    ((s.run.before &&& SC_IRQ_TX_DONE = 0 ∧ s.run.nic.regs.irqStatus &&& SC_IRQ_TX_DONE ≠ 0) ∨ s.run.sent ≠ [] →
      Due s)

/-- If the interrupt is enabled at the end of an activation, its first pass had all it takes (or there is no
bridge to send it, and the cause is set already). -/
def FirstCompletes (s : TxActivation) (e : NicEvent) : Prop :=
  isDone e = true → s.run.nic.reg SC_REG_IRQ_EN &&& SC_IRQ_TX_DONE ≠ 0 →
    s.first = true ∨ (s.run.nic.bridge = false ∧ s.run.nic.regs.irqStatus &&& SC_IRQ_TX_DONE ≠ 0)

instance (s : TxActivation) (e : NicEvent) : Decidable (FirstCompletes s e) :=
  inferInstanceAs (Decidable (_ → _ → _))

end TxActivation

end SmartEth
