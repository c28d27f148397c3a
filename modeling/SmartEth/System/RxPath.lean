import SmartEth.Impl.SmartEthMain
import SmartEth.System.NetSockets
import SmartEth.System.RxRing

/-!
# From the injection socket to guest memory

`listener_thread` reads the frames that the test tool has sent, and calls `on_packet_rx` for each
that it has read; it reads on when that call is over. Around the call are the host and its ring,
as in `RxRing`; the ring is the one that `smarteth_probe` sets up (`Probing`).
-/

namespace SmartEth

structure RxPath where
  net : NetRx
  ring : Machine.State NicOp NicOp.Res SmartNic RxRing

inductive RxPathEvent where
  /-- A `read` of the socket, and the call that it may lead to. -/
  | read (e : NetRead)
  | host (e : RxHost)
  /-- The next operation of the call, and whether it succeeds. -/
  | dma (ok : Bool)
  | finish

namespace RxPath

variable (base : Addr) (n : Nat)

def step (s : RxPath) : RxPathEvent → Option RxPath
  | .read e =>
    match s.ring.cur, s.net.step e with
    | none, some net =>
      match net.netif.calls.drop s.net.netif.calls.length with
      | [] => some { s with net := net }
      | data :: _ => ((RxRing.machine base n).step s.ring (.start data)).map fun ring => ⟨net, ring⟩
    | _, _ => none
  | .host e => ((RxRing.machine base n).step s.ring (.env e)).map fun ring => { s with ring := ring }
  | .dma ok => ((RxRing.machine base n).step s.ring (.act ok)).map fun ring => { s with ring := ring }
  | .finish => ((RxRing.machine base n).step s.ring .finish).map fun ring => { s with ring := ring }

/-- The test tool has sent `frames`, and nothing of them has been read. -/
def start (frames : List (List Byte)) (r : RxRing) : RxPath := ⟨NetRx.start frames, ⟨r, none⟩⟩

/-- A `read` of a length returns all of it, and the length is at most 16384. -/
def ReadsLength (s : RxPath) : RxPathEvent → Prop
  | .read e => NetRx.ReadsLength s.net e
  | _ => True

/-- The host gives no descriptor to the NIC. -/
def Unarmed : RxRing → RxHost → Prop
  | _, .desc _ d => d.own = false
  | _, .write _ _ => True

/-- No DMA fails. -/
def Exact : RxRing → NicOp → Bool → Prop := fun _ _ ok => ok = true

/-- Every length is read as a whole, no DMA fails, and the host gives no descriptor to the NIC. -/
def Plain (s : RxPath) : RxPathEvent → Prop
  | .read e => NetRx.ReadsLength s.net e
  | .host e => Unarmed s.ring.st e
  | .dma ok => ok = true
  | .finish => True

/-- A frame that gets to the ring: the callback is called for it, and the address filter accepts it. -/
abbrev Passes (nic : SmartNic) (data : List Byte) : Prop := NetRx.Deliverable data ∧ nic.rxMatch data = true

end RxPath

/-! ## The ring that the driver sets up -/

/-- The NIC and guest memory, while `smarteth_probe` runs alone, and the addresses that its mappings get. -/
structure Probing where
  nic : SmartNic
  mem : GuestMem
  dma : List Addr

namespace Probing

open SmartEthMain DescRing

def answer (s : Probing) : (e : DriverOp) → e.Res × Probing
  | .readReg reg => (s.nic.onMmioRead reg, s)
  | .writeReg reg val => ((), { s with nic := (s.nic.onMmioWrite reg val).1 })
  | .map _ => (s.dma.head?, { s with dma := s.dma.tail })
  | .unmap _ _ => ((), s)
  | .store dma data => ((), { s with mem := s.mem.write dma data })
  | .setTxHead _ => ((), s)
  | .wait => (true, s)
  | .complete => ((), s)

/-- The ring that nothing was received into yet. -/
def ring (s : Probing) : RxRing := ⟨s.nic, s.mem, [], [], [], fun _ => none⟩

/-- A receive buffer. -/
abbrev bufOf (dma : Addr) : Region 64 := ⟨dma, SMARTETH_RX_BUF_SIZE⟩

/-- What the kernel maps for the receive ring: one buffer for each entry, and nothing overlaps. -/
structure Mapped (rx : Addr) (bufs : List Addr) : Prop where
  length : bufs.length = SMARTETH_RING_SIZE
  nonzero : rx ≠ 0
  ring : ∀ b ∈ bufs, (bufOf b).Disjoint (ringRegion rx SMARTETH_RING_SIZE)
  apart : bufs.Pairwise fun a b => (bufOf a).Disjoint (bufOf b)

end Probing

end SmartEth
