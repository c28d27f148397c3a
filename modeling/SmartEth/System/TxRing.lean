import SmartEth.Impl.DescRing
import SmartEth.Impl.Nic

/-!
# The transmit ring

`process_tx` and the host around a ring of `n` descriptors at `base` in guest
memory. DMA is exact and does not fail. The host posts frames in ring order,
into entries whose OWN flag is clear, and rings the doorbell; it may use memory
of its own meanwhile, also between two operations of a pass. A doorbell write is
handled (`on_mmio_write`) only while `process_tx` does not hold `g_reg_mtx`.

With `driver`, the host rings the doorbell with 1, once for each frame
(`smarteth_test_tx`), and `process_tx` runs in the order of its code: woken by
its event, through its loop, past the interrupt, back to its wait. Without it,
any value but 0 may be rung at any time and the parts of `process_tx` run in any
order.
-/

namespace SmartEth

/-- A frame as the host posts it: its descriptor and what is in its buffer. -/
structure TxFrame where
  desc : SmartEthDesc
  bytes : List Byte

/-- Where `process_tx` is between two critical sections: at `wait(m_tx_event)`,
in its inner loop, or past it, before the interrupt. -/
inductive TxLoc where
  | wait | loop | done
  deriving DecidableEq

structure TxRing where
  nic : SmartNic
  mem : GuestMem
  /-- Guest memory as the host's writes alone make it. -/
  hostMem : GuestMem
  posted : List TxFrame
  /-- How many descriptors the NIC has written back. -/
  completed : Nat
  /-- The frames handed to `NetIf::transmit`. -/
  sent : List (List Byte)
  /-- Doorbell writes on their way to the NIC. -/
  rung : List Word
  /-- How many of them it has handled. -/
  handled : Nat
  /-- What they have overwritten in the doorbell register, in all. -/
  merged : Nat
  loc : TxLoc
  /-- A notification of `m_tx_event` is outstanding. -/
  notified : Bool

inductive TxHost where
  | post (desc : SmartEthDesc)
  | write (addr : Addr) (data : List Byte)
  | ring (val : Word)

inductive TxIdle where
  | doorbell | wake

inductive TxPart where
  | iteration | done

namespace TxRing

open DescRing

variable (base : Addr) (n : Nat) (driver : Bool)

/-- The host stores `data`: to guest memory, and to its own view of it. -/
def hostStore (s : TxRing) (addr : Addr) (data : List Byte) : TxRing :=
  { s with mem := s.mem.write addr data, hostMem := s.hostMem.write addr data }

/-- The host posts a descriptor it owns the entry of, for a buffer outside the
ring; writes memory that is neither the ring's nor a posted frame's; or rings
the doorbell. -/
def env (s : TxRing) : TxHost → Option TxRing
  | .post d =>
    if d.own ∧ ¬ (entry base s.mem (s.posted.length % n)).own ∧
        (bufRegion d).Disjoint (ringRegion base n) then
      some { s.hostStore (entryAddr base (s.posted.length % n)) d.toBytes with
        posted := s.posted ++ [⟨d, s.mem.read d.addr d.length.toNat⟩] }
    else none
  | .write addr data =>
    if (⟨addr, data.length⟩ : Region 64).Disjoint (ringRegion base n) ∧
        ∀ i < n, (entry base s.mem i).own →
          (⟨addr, data.length⟩ : Region 64).Disjoint (bufRegion (entry base s.mem i)) then
      some (s.hostStore addr data)
    else none
  | .ring val =>
    if driver then
      if val = 1 ∧ s.handled + s.rung.length < s.posted.length then
        some { s with rung := s.rung ++ [val] } else none
    else if val ≠ 0 then some { s with rung := s.rung ++ [val] } else none

/-- Exact DMA. The only descriptors `process_tx` writes are those it gives back. -/
def act (s : TxRing) : (e : NicOp) → Unit → Option (e.Res × TxRing)
  | .dmaRead addr len, _ => some (some (s.mem.read addr len.toNat), s)
  | .dmaWrite addr data, _ =>
    some (true, { s with mem := s.mem.write addr data, completed := s.completed + 1 })
  | .sendIrq _, _ => some ((), s)
  | .transmit data, _ => some ((), { s with sent := s.sent ++ [data] })

def world : World TxRing TxHost Unit NicOp NicOp.Res where
  env := env base n driver
  act := act

/-- A doorbell write is handled; or the kernel, which runs only while
`process_tx` waits, delivers an outstanding notification, and it wakes
`process_tx` if that waits for it. -/
def idle (s : TxRing) : TxIdle → Option TxRing
  | .doorbell =>
    match s.rung with
    | [] => none
    | val :: rest =>
      let (nic, outs) := s.nic.onMmioWrite SC_REG_TX_DOORBELL val
      some { s with
        nic := nic
        rung := rest
        handled := s.handled + 1
        merged := s.merged + (s.nic.reg SC_REG_TX_DOORBELL).toNat
        notified := s.notified || outs.contains .notifyTx }
  | .wake =>
    if s.notified ∧ s.loc ≠ .done then
      some { s with notified := false, loc := if s.loc = .wait then .loop else s.loc }
    else none

def start (s : TxRing) : TxPart → Option (TxRing × NicM (SmartNic × Option Nat))
  | .iteration =>
    if driver ∧ s.loc ≠ .loop then none
    else some ({ s with loc := .loop }, s.nic.processTxIteration)
  | .done =>
    if driver ∧ s.loc ≠ .done then none
    else some ({ s with loc := .done }, do pure (← s.nic.processTxDone, none))

def finish (s : TxRing) (r : SmartNic × Option Nat) : TxRing :=
  { s with
    nic := r.1
    loc := match s.loc with
      | .loop => if r.2.isSome then .loop else .done
      | _ => .wait }

def machine : Machine TxRing TxHost Unit NicOp NicOp.Res TxIdle TxPart (SmartNic × Option Nat) where
  toWorld := world base n driver
  idle := idle
  start := start driver
  finish := finish

/-- The ring's registers, and the bridge and network it needs. -/
structure Configured (nic : SmartNic) : Prop where
  bridge : nic.bridge = true
  netif : nic.netif = true
  base : nic.txRingBase = base
  size : (nic.reg SC_REG_TX_RING_SIZE).toNat = n

/-- A ring that nothing was posted to yet. -/
structure Start (s : TxRing) : Prop where
  conf : Configured base n s.nic
  tail : s.nic.reg SC_REG_TX_TAIL = 0
  hostMem : s.hostMem = s.mem
  posted : s.posted = []
  completed : s.completed = 0
  sent : s.sent = []
  own : ∀ i < n, (entry base s.mem i).own = false

end TxRing

end SmartEth
