import SmartEth.Framework.Bytes

/-!
# The network side (`net_if.cpp`)

`NetIf::listener_thread` from one `read` of the injection socket to the next, with the
callback registered, as `main.cpp` does before it starts the thread; and `NetIf::transmit`,
whose two writes to the capture socket are not looked at again.
-/

namespace SmartEth

/-- Which `read` the thread is at: that of a length, or one of the data, part of which it
has; or the thread has returned. -/
inductive ListenerPhase where
  | length
  | data (pktLen : BitVec 32) (buf : List Byte)
  | returned
  deriving DecidableEq

structure NetIf where
  phase : ListenerPhase
  /-- The packets that `m_rx_cb` was called with. -/
  calls : List (List Byte)

namespace NetIf

/-- The thread is past `accept`. -/
def start : NetIf := ⟨.length, []⟩

/-- How many bytes the `read` asks for. -/
def asked (s : NetIf) : Nat :=
  match s.phase with
  | .length => 4
  | .data pktLen buf => pktLen.toNat - buf.length
  | .returned => 0

/-- The `read` returns `bs`, no bytes at the end of the stream. What it leaves out of
`pkt_len` is whatever the memory of the local variable held (`stale`). -/
def onRead (s : NetIf) (stale : BitVec 32) (bs : List Byte) : NetIf :=
  match s.phase with
  | .length =>
    if bs = [] then { s with phase := .returned }
    else
      let pktLen := ofLeBytes 32 (overlay (leBytes stale) bs)
      if pktLen = 0 ∨ pktLen > 16384 then s else { s with phase := .data pktLen [] }
  | .data pktLen buf =>
    if bs = [] then { s with phase := .returned }
    else if (buf ++ bs).length < pktLen.toNat then { s with phase := .data pktLen (buf ++ bs) }
    else { phase := .length, calls := s.calls ++ [buf ++ bs] }
  | .returned => s

/-- What `transmit` writes of a frame, where its two writes accept `n` and `k` bytes. -/
def transmit (data : List Byte) (n k : Nat) : List Byte :=
  (leBytes (BitVec.ofNat 32 data.length)).take n ++ data.take k

end NetIf

end SmartEth
