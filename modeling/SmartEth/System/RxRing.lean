import SmartEth.Impl.DescRing
import SmartEth.Impl.Nic

/-!
# The receive ring

`on_packet_rx` and the host around a ring of `n` descriptors at `base` in guest
memory. Any DMA may fail; one that fails leaves memory as it is. The host
changes a descriptor only while its OWN flag is clear, gives the NIC buffers
that overlap neither the ring nor a buffer in use, and writes other memory as it
likes. It acts at any time, also between two operations of `on_packet_rx`; the
calls themselves follow one another, since each holds `g_reg_mtx`.
-/

namespace SmartEth

/-- A write of the NIC, and memory before it. -/
structure RxWrite where
  addr : Addr
  data : List Byte
  mem : GuestMem

/-- A descriptor that was given back: where it is, the descriptor the host had
put there, and what was then in the bytes of its buffer that the new one counts. -/
structure RxDone where
  addr : Addr
  desc : SmartEthDesc
  frame : List Byte

structure RxRing where
  nic : SmartNic
  mem : GuestMem
  /-- The frames that the address filter accepted. -/
  accepted : List (List Byte)
  writes : List RxWrite
  completed : List RxDone
  /-- The completion whose descriptor stands in an entry, and whose buffer the
  host has not used again. -/
  live : Nat → Option RxDone

inductive RxHost where
  | desc (i : Nat) (desc : SmartEthDesc)
  | write (addr : Addr) (data : List Byte)

namespace RxRing

open DescRing

variable (base : Addr) (n : Nat)

/-- The host changes a descriptor it owns; or it writes memory that is neither
the ring's nor in a buffer given to the NIC. -/
def env (s : RxRing) : RxHost → Option RxRing
  | .desc i d =>
    if i < n ∧ ¬ (entry base s.mem i).own ∧
        (InUse d → (bufRegion d).Disjoint (ringRegion base n) ∧
          ∀ j < n, j ≠ i → InUse (entry base s.mem j) →
            (bufRegion d).Disjoint (bufRegion (entry base s.mem j))) then
      some { s with
        mem := s.mem.write (entryAddr base i) d.toBytes
        live := fun j => if j = i then none else s.live j }
    else none
  | .write addr data =>
    if (⟨addr, data.length⟩ : Region 64).Disjoint (ringRegion base n) ∧
        ∀ j < n, (entry base s.mem j).own →
          (⟨addr, data.length⟩ : Region 64).Disjoint (bufRegion (entry base s.mem j)) then
      some { s with
        mem := s.mem.write addr data
        live := fun j =>
          if (⟨addr, data.length⟩ : Region 64).Disjoint (bufRegion (entry base s.mem j)) then s.live j
          else none }
    else none

/-- A write to guest memory; one into the ring gives a descriptor back. -/
def store (s : RxRing) (addr : Addr) (data : List Byte) : RxRing :=
  let s' : RxRing := { s with mem := s.mem.write addr data, writes := s.writes ++ [⟨addr, data, s.mem⟩] }
  if data ≠ [] ∧ addr ∈ ringRegion base n then
    let d := descAt s.mem addr
    let c : RxDone := ⟨addr, d, s.mem.read d.addr (SmartEthDesc.ofBytes data).length.toNat⟩
    { s' with
      completed := s.completed ++ [c]
      live := fun j => if entryAddr base j = addr then some c else s.live j }
  else s'

/-- DMA that is exact if it does not fail, as the choice tells. -/
def act (s : RxRing) : (e : NicOp) → Bool → Option (e.Res × RxRing)
  | .dmaRead addr len, ok => some (if ok then some (s.mem.read addr len.toNat) else none, s)
  | .dmaWrite addr data, ok => some (ok, if ok then s.store base n addr data else s)
  | .sendIrq _, _ => some ((), s)
  | .transmit _, _ => some ((), s)

def world : World RxRing RxHost Bool NicOp NicOp.Res where
  env := env base n
  act := act base n

/-- A frame from the network. -/
def start (s : RxRing) (data : List Byte) : Option (RxRing × NicM SmartNic) :=
  some ({ s with accepted := if s.nic.rxMatch data then s.accepted ++ [data] else s.accepted },
    s.nic.onPacketRx data)

def finish (s : RxRing) (nic : SmartNic) : RxRing := { s with nic := nic }

def machine : Machine RxRing RxHost Bool NicOp NicOp.Res Empty (List Byte) SmartNic where
  toWorld := world base n
  idle := fun _ e => nomatch e
  start := start
  finish := finish

/-- The ring's registers. -/
structure Configured (nic : SmartNic) : Prop where
  base : nic.rxRingBase = base
  size : (nic.reg SC_REG_RX_RING_SIZE).toNat = n

/-- A ring that nothing was received into yet. -/
structure Start (s : RxRing) : Prop where
  conf : Configured base n s.nic
  tail : s.nic.reg SC_REG_RX_TAIL = 0
  accepted : s.accepted = []
  writes : s.writes = []
  completed : s.completed = []
  live : ∀ i, s.live i = none
  ring : ∀ i < n, InUse (entry base s.mem i) → (bufRegion (entry base s.mem i)).Disjoint (ringRegion base n)
  bufs : ∀ i < n, ∀ j < n, i ≠ j → InUse (entry base s.mem i) → InUse (entry base s.mem j) →
    (bufRegion (entry base s.mem i)).Disjoint (bufRegion (entry base s.mem j))

end RxRing

end SmartEth
