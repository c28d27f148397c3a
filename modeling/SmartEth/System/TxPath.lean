import SmartEth.System.NetSockets
import SmartEth.System.TxRing

/-!
# From guest memory to the capture socket

`process_tx` and the host around its ring, as in `TxRing`; where `process_tx` hands a frame to
`NetIf::transmit`, its two writes to the capture socket accept what they accept.
-/

namespace SmartEth

structure TxPath where
  ring : Machine.State NicOp NicOp.Res (SmartNic × Option Nat) TxRing
  net : NetTx

inductive TxPathEvent where
  /-- A step of the ring that transmits nothing. -/
  | ring (e : Machine.Event TxHost Unit TxIdle TxPart)
  /-- `NetIf::transmit`, whose writes accept `n` and `k` bytes. -/
  | transmit (n k : Nat)

namespace TxPath

variable (base : Addr) (size : Nat) (driver : Bool)

/-- The frame that `process_tx` is about to transmit. -/
def sending (s : TxPath) : Option (List Byte) :=
  match s.ring.cur with
  | some (.op (.transmit data) _) => some data
  | _ => none

def step (s : TxPath) : TxPathEvent → Option TxPath
  | .ring e =>
    if s.sending.isSome ∧ e matches .act () then none
    else ((TxRing.machine base size driver).step s.ring e).map fun ring => { s with ring := ring }
  | .transmit n k =>
    match s.sending, (TxRing.machine base size driver).step s.ring (.act ()) with
    | some data, some ring => (s.net.step ⟨data, n, k⟩).map fun net => ⟨ring, net⟩
    | _, _ => none

/-- Nothing is posted, and nothing is on the socket. -/
def start (connected : Bool) (r : TxRing) : TxPath := ⟨⟨r, none⟩, NetTx.start connected⟩

/-- Both writes accept all they are offered. -/
def Whole (s : TxPath) : TxPathEvent → Prop
  | .ring _ => True
  | .transmit n k => ∀ data, s.sending = some data → NetTx.Whole s.net ⟨data, n, k⟩

/-- What is on the socket are the first frames that the host has posted, each as its length and its
data, in order: as many as were transmitted. -/
def Framed (s : TxPath) : Prop :=
  s.net.stream = framesCells ((s.ring.st.posted.take s.net.frames.length).map fun f => NetRx.wire f.bytes)

end TxPath

end SmartEth
