import SmartEth.Framework.Run
import SmartEth.System.Link

/-!
# The register lock and the link

A NIC thread holds `g_reg_mtx` over a whole critical section, also while a
`dma_read` in it waits for its answer. The socket thread takes the messages from
QEMU in their order, and waits for the lock with one that needs it. QEMU sends
register messages at any time. To set `m_dma_pending` and to send the request is
one step here: what might come in between may as well come after.
-/

namespace SmartEth

/-- The critical sections of the NIC threads. -/
inductive NicSection where
  | pollIrq
  | processDma
  | txIteration
  | txDone
  | packetRx (data : List Byte)

def NicSection.body (nic : SmartNic) : NicSection → NicM SmartNic
  | .pollIrq => do
    nic.pollIrqBody
    pure nic
  | .processDma => do
    let r ← nic.processDmaBody
    pure r.1
  | .txIteration => do
    let r ← nic.processTxIteration
    pure r.1
  | .txDone => nic.processTxDone
  | .packetRx data => nic.onPacketRx data

structure LockLink where
  link : Link
  /-- What is left of the section of the thread that holds the lock. -/
  holder : Option (NicM SmartNic)
  /-- The number of the request that it waits for in `dma_read`. -/
  waiting : Option Nat
  /-- The message with which the socket thread waits for the lock. -/
  blocked : Option Msg

inductive LockLinkEvent where
  | enter (sec : NicSection)
  | readSend
  | readUnsent
  | readReturn
  | readTimeout
  | write (ok : Bool)
  | irq
  | transmit
  | leave
  | qemu
  | register (m : Msg)
  | take
  | handle

namespace LockLink

open PcieBridge

/-- The holder goes on with `p`, not waiting. -/
def goOn (s : LockLink) (p : NicM SmartNic) : LockLink := { s with holder := some p, waiting := none }

def step (s : LockLink) : LockLinkEvent → Option LockLink
  | .enter sec =>
    match s.holder with
    | none => some (s.goOn (sec.body s.link.nic))
    | some _ => none
  | .readSend =>
    match s.holder, s.waiting with
    | some (.op (.dmaRead addr len) _), none =>
      if s.link.bridge.sockOpen then
        some { s with
          link := { s.link with bridge := s.link.bridge.dmaReadBegin }.send (dmaReadReq addr len)
          waiting := some s.link.count }
      else none
    | _, _ => none
  | .readUnsent =>
    match s.holder, s.waiting with
    | some (.op (.dmaRead _ _) k), none =>
      some { s.goOn (k none) with link := { s.link with bridge := s.link.bridge.dmaReadUnsent } }
    | _, _ => none
  | .readReturn =>
    match s.holder, s.waiting with
    | some (.op (.dmaRead _ len) k), some _ =>
      if s.link.bridge.dmaPending then none else some (s.goOn (k (some (s.link.bridge.dmaReadResult len))))
    | _, _ => none
  | .readTimeout =>
    match s.holder, s.waiting with
    | some (.op (.dmaRead _ _) k), some _ =>
      if s.link.bridge.dmaPending then some (s.goOn (k none)) else none
    | _, _ => none
  | .write ok =>
    match s.holder with
    | some (.op (.dmaWrite addr data) k) =>
      some { s.goOn (k ok) with link := if ok then s.link.send (dmaWriteReq addr data) else s.link }
    | _ => none
  | .irq =>
    match s.holder with
    | some (.op (.sendIrq vector) k) => some { s.goOn (k ()) with link := s.link.send (msiIrqMsg vector) }
    | _ => none
  | .transmit =>
    match s.holder with
    | some (.op (.transmit _) k) => some (s.goOn (k ()))
    | _ => none
  | .leave =>
    match s.holder with
    | some (.ret nic) => some { s with link := { s.link with nic := nic }, holder := none, waiting := none }
    | _ => none
  | .qemu => s.link.qemuStep.map fun l => { s with link := l }
  | .register m =>
    if needsLock m then some { s with link := { s.link with fromQemu := s.link.fromQemu ++ [(none, m)] } }
    else none
  | .take =>
    match s.blocked, s.link.fromQemu with
    | none, (_, m) :: rest =>
      if needsLock m then some { s with link := { s.link with fromQemu := rest }, blocked := some m }
      else s.link.recv.map fun l => { s with link := l }
    | _, _ => none
  | .handle =>
    match s.blocked, s.holder with
    | some m, none =>
      let h := s.link.bridge.handleMessage s.link.nic m
      some { s with
        link := h.sent.foldl Link.send { s.link with bridge := h.bridge, nic := h.nic }
        blocked := none }
    | _, _ => none

/-- No thread holds the lock or waits for it. -/
structure Start (s : LockLink) : Prop where
  holder : s.holder = none
  waiting : s.waiting = none
  blocked : s.blocked = none

/-- A NIC thread waits with the lock for the answer to its request; the socket
thread waits for the lock; and the answer is behind the message it holds. -/
def Deadlock (s : LockLink) : Prop :=
  ∃ num, s.waiting = some num ∧ s.link.bridge.dmaPending = true ∧ s.blocked ≠ none ∧
    ∃ r ∈ s.link.fromQemu, r.1 = some num ∧ r.2.kind = some .dmaRead

/-- The messages whose handling clears `m_dma_pending`. -/
def clears (m : Msg) : Bool :=
  match m.kind with
  | some .dmaRead | some .dmaWrite => true
  | _ => false

/-- The socket thread comes to the end of these messages, or to one that clears
`m_dma_pending`, without the lock. -/
def passable : List (Option Nat × Msg) → Bool
  | [] => true
  | (_, m) :: rest => clears m || (!needsLock m && passable rest)

/-- A `dma_read` sends its request only when the socket thread does not wait for
the lock, and none of the messages on their way makes it wait before
`m_dma_pending` is cleared. While `m_dma_pending` is set, QEMU sends a register
message only when it has answered the request that a `dma_read` waits for, or a
message that clears the flag is on its way. -/
def Apart (s : LockLink) : LockLinkEvent → Prop
  | .readSend => s.blocked = none ∧ passable s.link.fromQemu
  | .register _ => ∀ num, s.waiting = some num → s.link.bridge.dmaPending = true →
    (∀ x ∈ s.link.toQemu, x.1 ≠ num) ∨ ∃ x ∈ s.link.fromQemu, clears x.2
  | _ => True

instance (s : LockLink) : (e : LockLinkEvent) → Decidable (Apart s e)
  | .readSend => inferInstanceAs (Decidable (_ ∧ _ = true))
  | .register _ => inferInstanceAs (Decidable (∀ num ∈ s.waiting, s.link.bridge.dmaPending = true →
      (∀ x ∈ s.link.toQemu, x.1 ≠ num) ∨ ∃ x ∈ s.link.fromQemu, clears x.2 = true))
  | .enter _ | .readUnsent | .readReturn | .readTimeout | .write _ | .irq | .transmit | .leave | .qemu | .take
  | .handle => .isTrue trivial

end LockLink

end SmartEth
