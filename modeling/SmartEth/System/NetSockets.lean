import SmartEth.Framework.Frames
import SmartEth.Impl.NetIf

/-!
# Frames on the sockets of the network interface

On the injection socket the test tool has sent `frames`, each as its length and its data,
and closes the connection. A `read` of `listener_thread` returns any positive number of
bytes up to the number asked for, and none only when the stream is at its end. To the
capture socket go the calls of `NetIf::transmit`, one at a time (`m_tx_mtx`). A `write` to
a stream socket accepts any positive number of the bytes it is offered, if it is offered
any.
-/

namespace SmartEth

/-! ## The injection socket -/

structure NetRx where
  /-- What is still to be read. -/
  stream : List Byte
  netif : NetIf

/-- A `read` returns `n` bytes. -/
structure NetRead where
  n : Nat
  stale : BitVec 32

namespace NetRx

/-- `[length:4][data:length]`. -/
def wire (data : List Byte) : Frame Byte := ⟨leBytes (BitVec.ofNat 32 data.length), data⟩

def start (frames : List (List Byte)) : NetRx := ⟨framesCells (frames.map wire), .start⟩

def step (s : NetRx) (e : NetRead) : Option NetRx :=
  if s.netif.phase ≠ .returned ∧ e.n ≤ s.netif.asked ∧ e.n ≤ s.stream.length ∧ (e.n = 0 → s.stream = []) then
    some ⟨s.stream.drop e.n, s.netif.onRead e.stale (s.stream.take e.n)⟩
  else none

/-- A frame that the callback is to be called for. -/
abbrev Deliverable (data : List Byte) : Prop := 0 < data.length ∧ data.length ≤ 16384

/-- The thread is in step with the frames: some are behind it, and the callback was called
for those among them that it is to be called for; the rest is in front of it, but for what
it has of the data of the first. -/
def InStep (frames : List (List Byte)) (s : NetRx) : Prop :=
  ∃ pre post, frames = pre ++ post ∧ s.netif.calls = pre.filter (Deliverable ·) ∧
    match s.netif.phase with
    | .length => s.stream = framesCells (post.map wire)
    | .data pktLen buf => ∃ rest post', rest ≠ [] ∧ post = (buf ++ rest) :: post' ∧ Deliverable (buf ++ rest) ∧
        pktLen.toNat = (buf ++ rest).length ∧ s.stream = rest ++ framesCells (post'.map wire)
    | .returned => post = []

/-- A `read` of a length returns all of it, and the length is at most 16384. -/
def ReadsLength (s : NetRx) (e : NetRead) : Prop :=
  s.netif.phase = .length → s.stream ≠ [] → e.n = 4 ∧ (ofLeBytes 32 s.stream).toNat ≤ 16384

instance (s : NetRx) (e : NetRead) : Decidable (ReadsLength s e) := inferInstanceAs (Decidable (_ → _ → _))

end NetRx

/-! ## The capture socket -/

structure NetTx where
  /-- `m_tx_fd` is open. -/
  connected : Bool
  /-- The bytes written so far. -/
  stream : List Byte
  /-- The frames transmitted so far. -/
  frames : List (List Byte)

/-- A call, and how many bytes its two writes accept. -/
structure NetSend where
  data : List Byte
  n : Nat
  k : Nat

namespace NetTx

def start (connected : Bool) : NetTx := ⟨connected, [], []⟩

/-- What two writes may accept of the length and the data. -/
def Accepted (e : NetSend) : Prop := 0 < e.n ∧ e.n ≤ 4 ∧ e.k ≤ e.data.length ∧ (e.k = 0 → e.data = [])

instance (e : NetSend) : Decidable (Accepted e) := inferInstanceAs (Decidable (_ ∧ _))

def step (s : NetTx) (e : NetSend) : Option NetTx :=
  if e.data.length < 2 ^ 32 ∧ Accepted e then
    if s.connected then
      some { s with stream := s.stream ++ NetIf.transmit e.data e.n e.k, frames := s.frames ++ [e.data] }
    else some s
  else none

/-- The stream is the frames, each as its length and its data. -/
def WellFramed (s : NetTx) : Prop := s.stream = framesCells (s.frames.map NetRx.wire)

instance (s : NetTx) : Decidable s.WellFramed := inferInstanceAs (Decidable (_ = _))

/-- Both writes accept all they are offered. -/
def Whole (s : NetTx) (e : NetSend) : Prop := s.connected = true → e.n = 4 ∧ e.k = e.data.length

end NetTx

end SmartEth
