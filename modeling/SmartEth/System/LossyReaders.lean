import Mathlib.Data.Finset.Card
import Mathlib.Data.Finset.Range
import SmartEth.System.Readers

/-!
# Register reads and a connection that may be lost

The readers of `Readers`, `n` vCPU threads, with what goes wrong: a request cannot
be sent, or the I/O thread leaves its loop. What was on its way is then lost; the
threads in a read are left where they are.
-/

namespace SmartEth

structure LossyReaders where
  readers : Readers
  /-- The I/O thread is in its loop. -/
  ioRunning : Bool

inductive LossyEvent where
  | on (e : ReaderEvent)
  /-- `sc_bridge_send_all` fails, or there is no socket any more. -/
  | sendFail (t : Nat)
  | ioExit

/-- A read begins. -/
def LossyEvent.isEnter : LossyEvent → Bool
  | .on (.enter _ _) => true
  | _ => false

namespace LossyReaders

/-- A request is sent only while there is a socket. -/
def can (n : Nat) (s : LossyReaders) : ReaderEvent → Bool
  | .enter t _ => t < n
  | .send _ => s.ioRunning
  | _ => true

def step (n : Nat) (s : LossyReaders) : LossyEvent → Option LossyReaders
  | .on e => if s.can n e then (s.readers.step e).map fun r => { s with readers := r } else none
  | .sendFail t =>
    match s.readers.pc t with
    | .pending addr =>
      let r := s.readers.setPc t (.sent addr s.readers.count)
      some { s with readers := { r with count := r.count + 1 } }
    | _ => none
  | .ioExit =>
    if s.ioRunning then
      let r := s.readers
      some ⟨{ r with bridge := { r.bridge with connected := false }, toPeer := [], fromPeer := [] }, false⟩
    else none

/-- The I/O thread is in its loop, and no thread reading. -/
structure Start (s : LossyReaders) : Prop where
  ioRunning : s.ioRunning = true
  pc : ∀ t, s.readers.pc t = .idle
  sleepers : s.readers.sleepers = []
  toPeer : s.readers.toPeer = []
  fromPeer : s.readers.fromPeer = []

/-- A thread asleep in its read, nothing of which is on its way, that the I/O thread
does not signal any more, whatever happens, as long as no other read begins. -/
structure Abandoned (n : Nat) (s : LossyReaders) (t : Nat) : Prop where
  asleep : ∃ addr num, s.readers.pc t = .asleep addr num ∧
    (∀ x ∈ s.readers.toPeer, x.1 ≠ num) ∧ ∀ x ∈ s.readers.fromPeer, x.1 ≠ num
  never : ∀ es u, (∀ e ∈ es, e.isEnter = false) → run (step n) s es = some u →
    step n u (.on (.io (some t))) = none

/-- The number of threads at such a place. -/
def count (n : Nat) (p : ReaderPc → Bool) (pc : Nat → ReaderPc) : Nat :=
  ((Finset.range n).filter fun t => p (pc t)).card

def isPending : ReaderPc → Bool
  | .pending _ => true
  | _ => false

/-- The reads in flight. -/
def inFlight (n : Nat) (s : LossyReaders) : Nat := count n ReaderPc.inFlight s.readers.pc

/-- The replies that are still to come. -/
def toCome (n : Nat) (s : LossyReaders) : Nat :=
  if s.ioRunning then s.readers.toPeer.length + s.readers.fromPeer.length + count n isPending s.readers.pc else 0

/-- The threads that need a reply: those in flight, or if `mmio_pending` is clear
only those asleep. -/
def needy (n : Nat) (s : LossyReaders) : Nat :=
  if s.readers.bridge.mmioPending then s.inFlight n else s.readers.sleepers.length

/-- A reader sets `mmio_pending` only while the I/O thread is in its loop, and as
many replies are to come as other reads are in flight. A request cannot be sent
only when there is a reply to spare, and the I/O thread leaves its loop only when
no thread needs a reply. -/
def Safe (n : Nat) (s : LossyReaders) : LossyEvent → Prop
  | .on (.setPending _) => s.ioRunning = true ∧ s.inFlight n ≤ s.toCome n
  | .sendFail _ => s.ioRunning = true → s.needy n < s.toCome n
  | .ioExit => s.needy n = 0
  | _ => True

instance (n : Nat) (s : LossyReaders) : (e : LossyEvent) → Decidable (Safe n s e)
  | .on (.setPending _) => inferInstanceAs (Decidable (s.ioRunning = true ∧ s.inFlight n ≤ s.toCome n))
  | .sendFail _ => inferInstanceAs (Decidable (s.ioRunning = true → s.needy n < s.toCome n))
  | .ioExit => inferInstanceAs (Decidable (s.needy n = 0))
  | .on (.enter _ _) | .on (.send _) | .on (.unlock _) | .on (.check _) | .on (.wake _) | .on (.finish _)
  | .on (.peer _) | .on (.io _) => .isTrue trivial

end LossyReaders

end SmartEth
