import SmartEth.Framework.Run
import SmartEth.Impl.Nic
import SmartEth.Impl.SmartEthMain

/-!
# Interrupt causes and the driver's handler

The NIC over a connected bridge, and executions of `smarteth_irq_handler`, as many at a
time as there may be. A handler's register accesses, and the host's other writes, are
forwarded as messages, which the NIC handles in order, each some time after it was sent;
its own sections come in between. The host neither writes `IRQ_STS` otherwise nor resets
the device.
-/

namespace SmartEth

open SmartEthMain

/-- A register access on its way to the NIC, and the handler it is of. -/
inductive ToNic where
  | write (addr : Addr) (data : Word) (author : Option Nat)
  | read (addr : Addr) (author : Nat)

/-- Whose read it is. -/
def ToNic.asker : ToNic → Option Nat
  | .write _ _ _ => none
  | .read _ i => some i

/-- An execution of `smarteth_irq_handler`. -/
structure Handler where
  /-- What it has yet to do. -/
  rest : DriverM Unit
  /-- Its read is on its way. -/
  waiting : Bool
  /-- What its read has returned. -/
  read : Option Word
  /-- How often it has called `complete`. -/
  signals : Nat

structure IrqRun where
  nic : SmartNic
  queue : List ToNic
  handlers : List Handler

inductive IrqEvent where
  | write (addr : Addr) (data : Word)
  /-- The interrupt handler is called. -/
  | call
  /-- A step of handler `i`. -/
  | run (i : Nat)
  /-- The NIC handles the next message. -/
  | handle
  | packet (data : List Byte) (r : Replies)
  | pollIrq
  | processDma (r : Replies)
  | txIteration (r : Replies)
  | txDone (r : Replies)

namespace IrqRun

/-- Handler `i` has come to `h`. -/
def setHandler (s : IrqRun) (i : Nat) (h : Handler) : IrqRun := { s with handlers := s.handlers.set i h }

def post (s : IrqRun) (m : ToNic) : IrqRun := { s with queue := s.queue ++ [m] }

/-- The next operation of a handler. -/
def runHandler (s : IrqRun) (i : Nat) (h : Handler) : Option IrqRun :=
  match h.rest with
  | .op (.readReg reg) _ => some ((s.post (.read reg i)).setHandler i { h with waiting := true })
  | .op (.writeReg reg val) k => some ((s.post (.write reg val (some i))).setHandler i { h with rest := k () })
  | .op .complete k => some (s.setHandler i { h with rest := k (), signals := h.signals + 1 })
  | _ => none

/-- The reply to a handler's read. -/
def reply (s : IrqRun) (i : Nat) (v : Word) : Option IrqRun :=
  match s.handlers[i]? with
  | some h =>
    match h.rest with
    | .op (.readReg _) k => some (s.setHandler i { h with rest := k v, waiting := false, read := some v })
    | _ => none
  | none => none

def step (s : IrqRun) : IrqEvent → Option IrqRun
  | .write addr data =>
    if addr &&& 3 = 0 ∧ addr ≠ SC_REG_IRQ_STS ∧ ¬ (addr = SC_REG_CTRL ∧ data &&& SC_CTRL_RESET ≠ 0) then
      some (s.post (.write addr data none))
    else none
  | .call => some { s with handlers := s.handlers ++ [⟨irqHandler, false, none, 0⟩] }
  | .run i =>
    match s.handlers[i]? with
    | some h => if h.waiting then none else s.runHandler i h
    | none => none
  | .handle =>
    match s.queue with
    | [] => none
    | .write addr data _ :: queue => some { s with nic := (s.nic.onMmioWrite addr data).1, queue := queue }
    | .read addr i :: queue => { s with queue := queue }.reply i (s.nic.onMmioRead addr)
  | .packet data r => some { s with nic := (s.nic.onPacketRx data).runWith r }
  | .pollIrq => some s
  | .processDma r => some { s with nic := (s.nic.processDmaBody.runWith r).1 }
  | .txIteration r => some { s with nic := (s.nic.processTxIteration.runWith r).1 }
  | .txDone r => some { s with nic := s.nic.processTxDone.runWith r }

def init (netif : Bool) : IrqRun := ⟨{ SmartNic.new with bridge := true, netif := netif }, [], []⟩

/-- How many of the causes that the handler knows are set. -/
def causes (v : Word) : Nat := [IRQ_DMA_DONE, IRQ_TX_DONE, IRQ_RX, IRQ_TEST].countP fun c => v &&& c ≠ 0

/-- A step clears a cause only by the write of a handler whose read has returned it. -/
def Seen (s : IrqRun) (e : IrqEvent) (t : IrqRun) : Prop :=
  ∀ i, s.nic.regs.irqStatus.getLsbD i = true → t.nic.regs.irqStatus.getLsbD i = false →
    e = .handle ∧ ∃ j h v queue, s.queue = .write SC_REG_IRQ_STS v (some j) :: queue ∧
      s.handlers[j]? = some h ∧ h.read = some v ∧ v.getLsbD i = true

/-- A handler that is done has called `complete` for each cause that its read has returned. -/
def Acted (h : Handler) : Prop := h.rest = .ret () → ∃ v, h.read = some v ∧ h.signals = causes v

end IrqRun

end SmartEth
