import SmartEth.Framework.Writers
import SmartEth.Impl.Layout
import SmartEth.Impl.PcieBridge

/-!
# The senders of SystemC (`PcieBridge::send_all`)

`send_all` writes a message in as many writes as it takes, and takes no lock of
its own. NIC threads send DMA requests and interrupts, `g_reg_mtx` held; the
socket thread sends an interrupt from a register callback, with the lock, and its
replies after the callback, without it. One `SendAll` is all of them at work on
the one socket.
-/

namespace SmartEth

inductive Sender where
  | socket
  | nic (i : Nat)
  deriving DecidableEq

/-- `holder` is the thread that holds `g_reg_mtx`. -/
structure SendAll where
  holder : Option Sender
  out : Writers Sender Byte

inductive SendAllEvent where
  | lock (x : Sender)
  | unlock (x : Sender)
  | send (x : Sender) (m : Msg)
  | write (x : Sender) (n : Nat)

namespace SendAll

/-- The messages a thread sends, with the lock or without it. -/
def sends (s : SendAll) : Sender → Msg → Bool
  | .socket, m =>
    match m.kind with
    | some .mmioRead | some .mmioWrite | some .bridgeReset => s.holder ≠ some .socket
    | some .msiIrq => s.holder = some .socket
    | _ => false
  | .nic i, m =>
    match m.kind with
    | some .dmaRead | some .dmaWrite | some .msiIrq => s.holder = some (.nic i)
    | _ => false

def step (s : SendAll) : SendAllEvent → Option SendAll
  | .lock x => if s.holder = none ∧ (s.out.sending x).isNone then some { s with holder := some x } else none
  | .unlock x =>
    if s.holder = some x ∧ (s.out.sending x).isNone then some { s with holder := none } else none
  | .send x m =>
    if s.sends x m then (s.out.start x m.frame.cells).map fun w => { s with out := w } else none
  | .write x n => (s.out.write x n).map fun w => { s with out := w }

/-- Nothing has been sent. -/
structure Start (s : SendAll) : Prop where
  sending : ∀ x, s.out.sending x = none
  stream : s.out.stream = []
  begun : s.out.begun = []

/-- A thread writes while no other is part of the way through a message. -/
def Alone (s : SendAll) : SendAllEvent → Prop
  | .write x _ => s.out.AloneAt x
  | _ => True

end SendAll

end SmartEth
