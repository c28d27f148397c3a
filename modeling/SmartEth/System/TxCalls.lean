import SmartEth.Framework.Ring
import SmartEth.Impl.DescRing
import SmartEth.Impl.SmartEthMain

/-!
# TX tests and any NIC

One `smarteth_test_tx` after another, operation by operation, among a NIC that may write any
descriptor it owns at any time, in any order, or none: it gives a frame back when it clears OWN.
What a register reads, when a wait ends and how, and where buffers are mapped is open.
-/

namespace SmartEth

open SmartEthMain

structure TxCalls where
  adapter : Adapter
  mem : GuestMem
  /-- How many frames have been posted: the OWN flag of their descriptor stored. -/
  posted : Nat
  /-- The frames given back. -/
  given : Nat → Bool
  /-- The last operation of a call has overwritten no descriptor of the NIC. -/
  clear : Bool
  /-- The last operation of a call has found room for what it stored in the ring. -/
  room : Bool

inductive TxNicEvent where
  /-- The NIC writes the descriptor in entry `i`. -/
  | serve (i : Nat) (d : SmartEthDesc)
  /-- Someone writes outside the ring. -/
  | write (addr : Addr) (data : List Byte)

/-- What a register reads, where memory is mapped, and whether a wait has not timed out. -/
structure TxChoice where
  word : Word
  addr : Option Addr
  done : Bool

namespace TxCalls

/-- The adapter as `smarteth_probe` leaves it: the ring all zeros. -/
def start (ring : Addr) (mem : GuestMem) : TxCalls where
  adapter := ⟨ring, 0, 0, []⟩
  mem := mem.write ring (List.replicate RING_BYTES 0)
  posted := 0
  given := fun _ => false
  clear := true
  room := true

variable (s : TxCalls)

def desc (i : Nat) : SmartEthDesc := DescRing.entry s.adapter.txRing s.mem i

/-- What is stored there is, in part, of entry `i`. -/
def Touches (dma : Addr) (data : List Byte) (i : Nat) : Prop :=
  ¬ (⟨dma, data.length⟩ : Region 64).Disjoint (DescRing.entryRegion s.adapter.txRing i)

instance (dma : Addr) (data : List Byte) (i : Nat) : Decidable (s.Touches dma data i) :=
  inferInstanceAs (Decidable (¬ _))

/-- A store into a descriptor that is the NIC's. -/
def Overwrites : DriverOp → Prop
  | .store dma data => ∃ i < SMARTETH_RING_SIZE, s.Touches dma data i ∧ (s.desc i).own = true
  | _ => False

/-- What is stored into the ring finds room: the frame posted a whole ring before has been given back. -/
def Room : DriverOp → Prop
  | .store dma data => (∃ i < SMARTETH_RING_SIZE, s.Touches dma data i) →
      SMARTETH_RING_SIZE ≤ s.posted → s.given (s.posted - SMARTETH_RING_SIZE) = true
  | _ => True

instance : (e : DriverOp) → Decidable (s.Overwrites e)
  | .store dma data =>
    inferInstanceAs (Decidable (∃ i < SMARTETH_RING_SIZE, s.Touches dma data i ∧ (s.desc i).own = true))
  | .readReg _ | .writeReg _ _ | .map _ | .unmap _ _ | .setTxHead _ | .wait | .complete => .isFalse id

instance : (e : DriverOp) → Decidable (s.Room e)
  | .store dma data => inferInstanceAs (Decidable ((∃ i < SMARTETH_RING_SIZE, s.Touches dma data i) → _ → _))
  | .readReg _ | .writeReg _ _ | .map _ | .unmap _ _ | .setTxHead _ | .wait | .complete => .isTrue trivial

def env : TxNicEvent → Option TxCalls
  | .serve i d =>
    if i < SMARTETH_RING_SIZE ∧ (s.desc i).own = true then
      some { s with
        mem := s.mem.write (DescRing.entryAddr s.adapter.txRing i) d.toBytes
        given := fun j => s.given j || (!d.own && lastIn SMARTETH_RING_SIZE s.posted i = some j) }
    else none
  | .write addr data =>
    if (⟨addr, data.length⟩ : Region 64).Disjoint (DescRing.ringRegion s.adapter.txRing SMARTETH_RING_SIZE) then
      some { s with mem := s.mem.write addr data }
    else none

/-- The flags of the descriptor at `tx_head`. -/
def flagsAddr : Addr := entry s.adapter.txRing s.adapter.txHead.toNat + 12

/-- What an operation does to memory, the adapter and the frames posted. -/
def effect : (e : DriverOp) → TxChoice → Option (e.Res × TxCalls)
  | .readReg _, c => some (c.word, s)
  | .writeReg _ _, _ => some ((), s)
  | .map len, c =>
    match c.addr with
    | some addr =>
      if (⟨addr, len⟩ : Region 64).Disjoint (DescRing.ringRegion s.adapter.txRing SMARTETH_RING_SIZE) then
        some (some addr, s)
      else none
    | none => some (none, s)
  | .unmap _ _, _ => some ((), s)
  | .store dma data, _ =>
    some ((), { s with mem := s.mem.write dma data, posted := if dma = s.flagsAddr then s.posted + 1 else s.posted })
  | .setTxHead head, _ => some ((), { s with adapter := { s.adapter with txHead := head } })
  | .wait, c => some (c.done, s)
  | .complete, _ => some ((), s)

def act (e : DriverOp) (c : TxChoice) : Option (e.Res × TxCalls) :=
  (s.effect e c).map fun x => (x.1, { x.2 with clear := ¬ s.Overwrites e, room := s.Room e })

def machine : Machine TxCalls TxNicEvent TxChoice DriverOp DriverOp.Res Empty Unit Bool where
  env := env
  act := act
  idle := fun _ e => e.elim
  start := fun s _ => some (s, testTx s.adapter)
  finish := fun s _ => s

/-- The operations of the calls. -/
def IsAct : Machine.Event TxNicEvent TxChoice Empty Unit → Prop
  | .act _ => True
  | _ => False

/-- No descriptor of the NIC is overwritten. -/
def Clear (s : Machine.State DriverOp DriverOp.Res Bool TxCalls) : Prop := s.st.clear = true

/-- A call stores into the ring only if there is room. -/
def HasRoom :
    Machine.State DriverOp DriverOp.Res Bool TxCalls → Machine.Event TxNicEvent TxChoice Empty Unit → Prop :=
  Machine.Meets (fun _ _ => True) (fun s e _ => s.Room e) (fun _ _ => True)

end TxCalls

end SmartEth
