import SmartEth.Impl.DescRing
import SmartEth.Impl.SmartEthMain
import SmartEth.System.TxRing

/-!
# The driver and the NIC

One call of the driver after another, operation by operation, among the NIC's threads
at their work and the frames that arrive. A register write is posted and reaches the
NIC after those before it; a read waits for them. Both need `g_reg_mtx`, which a
section of a NIC thread holds from its start to its end. A DMA write is made when it
is sent: QEMU takes the messages in order. The completion may be signalled at any
time.
-/

namespace SmartEth

open SmartEthMain

inductive DriverCall where
  | probe
  | testDma
  | testTx
  | testIrq
  | remove
  deriving DecidableEq

/-- How a call ends: the new adapter, whether the test returns 0, or nothing. -/
inductive CallEnd where
  | probed (a : Option Adapter)
  | tested (ok : Bool)
  | removed

/-- What the kernel decides: where memory is mapped, that a wait is over, or that
either fails. -/
inductive DriverChoice where
  | mapped (addr : Addr)
  | done
  | fails

/-- `on_packet_rx`, `process_dma`, and the two sections of `process_tx`. -/
inductive NicThread where
  | rx
  | dma
  | tx
  | txDone
  deriving DecidableEq

/-- The rest of a section, which ends with the NIC and whether `process_tx` stays in
its loop. -/
structure NicSect where
  thread : NicThread
  rest : NicM (SmartNic × Bool)

structure DriverNic where
  nic : SmartNic
  mem : GuestMem
  adapter : Option Adapter
  call : Option DriverCall
  /-- What is mapped for DMA. -/
  mapped : List (Region 64)
  /-- Register writes on their way to the NIC. -/
  posted : List (Addr × Word)
  /-- `test_done`. -/
  completions : Nat
  sect : Option NicSect
  /-- `process_dma` is past its check. -/
  dmaChecked : Bool
  txLoc : TxLoc
  /-- Every DMA so far was within what was mapped then. -/
  confined : Bool

/-- How a DMA call of the NIC ends. It moves the bytes, or fails; or it returns true and
does not: a read that an acknowledgement or a late reply ends, with the bytes that
these leave to it, and a write that QEMU does not make. -/
inductive DmaEnd where
  | moved
  | failed
  | other (bytes : List Byte)

inductive DriverEvent where
  /-- The NIC handles the next register write. -/
  | handle
  /-- The interrupt handler signals the completion. -/
  | signal
  | packet (data : List Byte)
  | dmaCheck
  | processDma
  | txWake
  | txIteration
  | txDone
  /-- The next operation of the section, and how it ends if it is a DMA call. -/
  | nicOp (r : DmaEnd)
  | nicEnd

/-- The range that DMA touches. -/
def NicOp.region : NicOp → Option (Region 64)
  | .dmaRead addr len => some ⟨addr, len.toNat⟩
  | .dmaWrite addr data => some ⟨addr, data.length⟩
  | .sendIrq _ => none
  | .transmit _ => none

namespace DriverNic

/-! ## The driver -/

/-- The range lies in memory that is mapped. -/
def Within (mapped : List (Region 64)) (r : Region 64) : Prop :=
  r.len = 0 ∨ ∃ m ∈ mapped, (r.base - m.base).toNat + r.len ≤ m.len

instance (mapped : List (Region 64)) (r : Region 64) : Decidable (Within mapped r) :=
  inferInstanceAs (Decidable (_ ∨ ∃ m ∈ mapped, _))

/-- Memory that the kernel may map: below the driver's DMA mask, and none that is
mapped already. -/
def Free (mapped : List (Region 64)) (r : Region 64) : Prop :=
  r.base.toNat + r.len ≤ 2 ^ 32 ∧ ∀ m ∈ mapped, r.Disjoint m

instance (mapped : List (Region 64)) (r : Region 64) : Decidable (Free mapped r) :=
  inferInstanceAs (Decidable (_ ∧ ∀ m ∈ mapped, _))

def act (s : DriverNic) : (e : DriverOp) → DriverChoice → Option (e.Res × DriverNic)
  | .readReg reg, _ => if s.posted = [] ∧ s.sect.isNone then some (s.nic.onMmioRead reg, s) else none
  | .writeReg reg val, _ => some ((), { s with posted := s.posted ++ [(reg, val)] })
  | .map len, .mapped addr =>
    if Free s.mapped ⟨addr, len⟩ then some (some addr, { s with mapped := ⟨addr, len⟩ :: s.mapped }) else none
  | .map _, .fails => some (none, s)
  | .map _, .done => none
  | .unmap dma len, _ => some ((), { s with mapped := s.mapped.erase ⟨dma, len⟩ })
  | .store dma data, _ => some ((), { s with mem := s.mem.write dma data })
  | .setTxHead head, _ => some ((), { s with adapter := s.adapter.map fun a => { a with txHead := head } })
  | .wait, .done => if s.completions = 0 then none else some (true, { s with completions := s.completions - 1 })
  | .wait, .fails => some (false, s)
  | .wait, .mapped _ => none
  | .complete, _ => some ((), { s with completions := s.completions + 1 })

/-- A call starts: `smarteth_probe` without an adapter, any other with one. -/
def start (s : DriverNic) : DriverCall → Option (DriverNic × DriverM CallEnd)
  | .probe =>
    match s.adapter with
    | none => some ({ s with call := some .probe, completions := 0 }, do pure (.probed (← probe)))
    | some _ => none
  | .testDma => s.adapter.map fun _ => ({ s with call := some .testDma }, do pure (.tested (← testDma)))
  | .testTx => s.adapter.map fun a => ({ s with call := some .testTx }, do pure (.tested (← testTx a)))
  | .testIrq => s.adapter.map fun _ => ({ s with call := some .testIrq }, do pure (.tested (← testIrq)))
  | .remove => s.adapter.map fun a => ({ s with call := some .remove }, do
      remove a
      pure .removed)

def finish (s : DriverNic) : CallEnd → DriverNic
  | .probed a => { s with call := none, adapter := a }
  | .tested _ => { s with call := none }
  | .removed => { s with call := none, adapter := none }

/-! ## The NIC -/

/-- A section starts, if none holds the lock. -/
def enter (s : DriverNic) (thread : NicThread) (rest : NicM (SmartNic × Bool)) : Option DriverNic :=
  match s.sect with
  | none => some { s with sect := some ⟨thread, rest⟩ }
  | some _ => none

/-- What the operation gives, and what it leaves of memory. -/
def dmaAnswer (mem : GuestMem) (r : DmaEnd) : (e : NicOp) → e.Res × GuestMem
  | .dmaRead addr len =>
    match r with
    | .moved => (some (mem.read addr len.toNat), mem)
    | .failed => (none, mem)
    | .other bytes => (some (bytes.take len.toNat), mem)
  | .dmaWrite addr data =>
    match r with
    | .moved => (true, mem.write addr data)
    | .failed => (false, mem)
    | .other _ => (true, mem)
  | .sendIrq _ => ((), mem)
  | .transmit _ => ((), mem)

/-- Where `process_tx` is after a section. -/
def txAfter (loc : TxLoc) (thread : NicThread) (again : Bool) : TxLoc :=
  match thread with
  | .tx => if again then .loop else .done
  | .txDone => .wait
  | .rx | .dma => loc

def env (s : DriverNic) : DriverEvent → Option DriverNic
  | .handle =>
    match s.sect, s.posted with
    | none, w :: rest => some { s with nic := (s.nic.onMmioWrite w.1 w.2).1, posted := rest }
    | _, _ => none
  | .signal => some { s with completions := s.completions + 1 }
  | .packet data => s.enter .rx do pure (← s.nic.onPacketRx data, false)
  | .dmaCheck =>
    if s.nic.dmaPending ∧ ∀ x, s.sect = some x → x.thread ≠ .dma then some { s with dmaChecked := true } else none
  | .processDma =>
    if s.dmaChecked then
      { s with dmaChecked := false }.enter .dma do pure ((← s.nic.processDmaBody).1, false)
    else none
  | .txWake => if s.txLoc = .wait then some { s with txLoc := .loop } else none
  | .txIteration =>
    if s.txLoc = .loop then
      s.enter .tx do
        let (nic, delay) ← s.nic.processTxIteration
        pure (nic, delay.isSome)
    else none
  | .txDone => if s.txLoc = .done then s.enter .txDone do pure (← s.nic.processTxDone, false) else none
  | .nicOp r =>
    match s.sect with
    | some ⟨thread, .op e k⟩ =>
      let (res, mem) := dmaAnswer s.mem r e
      some { s with
        mem := mem
        sect := some ⟨thread, k res⟩
        confined := s.confined && decide (∀ r ∈ e.region, Within s.mapped r) }
    | _ => none
  | .nicEnd =>
    match s.sect with
    | some ⟨thread, .ret (nic, again)⟩ =>
      some { s with nic := nic, sect := none, txLoc := txAfter s.txLoc thread again }
    | _ => none

def machine : Machine DriverNic DriverEvent DriverChoice DriverOp DriverOp.Res Empty DriverCall CallEnd where
  env := env
  act := act
  idle := fun _ e => e.elim
  start := start
  finish := finish

/-- What a plain register will hold when the writes on their way have been handled. -/
def settled (s : DriverNic) (addr : Addr) : Word := (lastWritten addr s.posted).getD (s.nic.reg addr)

/-- The NIC as constructed, the driver not loaded. -/
def init (netif : Bool) (mem : GuestMem) : DriverNic where
  nic := { SmartNic.new with bridge := true, netif := netif }
  mem := mem
  adapter := none
  call := none
  mapped := []
  posted := []
  completions := 0
  sect := none
  dmaChecked := false
  txLoc := .wait
  confined := true

end DriverNic

end SmartEth
