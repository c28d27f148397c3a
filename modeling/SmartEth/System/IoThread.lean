import SmartEth.Framework.Dispatch
import SmartEth.Impl.Layout
import SmartEth.Impl.Payload

/-!
# The I/O thread among the guest's accesses

QEMU's side of the bridge. The I/O thread (`sc_bridge_io_thread`) reads a message, handles it and
writes the answer, under a lock at a time, and only then reads on; meanwhile the guest writes its
memory, turns MSI-X on and off and accesses registers, from any number of vCPUs. SystemC's messages
come as a stream of bytes, and the connection is not lost.

Against it stands what the messages are for: each is done at one point (`PcieSent.effect`,
`QemuSide.exec`).
-/

namespace SmartEth

/-- What the I/O thread and the guest both work on. -/
structure QemuSide where
  bridge : ScBridge
  mem : GuestMem
  /-- The messages written to the socket. -/
  sent : List Msg
  /-- What the I/O thread has yet to write. -/
  answer : List Msg
  /-- The vectors notified. -/
  irqs : List Word

inductive QemuEvent where
  /-- The I/O thread writes its answer. -/
  | answer
  | guest (addr : Addr) (data : List Byte)
  | msix (enabled : Bool)
  /-- `sc_bridge_mmio_read` sets `mmio_pending`, sends its request, and picks up the answer. -/
  | readBegin
  | readSend (addr : Addr)
  | readFinish (addr : Addr)
  | write (addr : Addr) (val : BitVec 64)

namespace QemuSide

/-- What happens besides the messages. -/
def other (s : QemuSide) : QemuEvent → Option QemuSide
  | .answer => if s.answer = [] then none else some { s with sent := s.sent ++ s.answer, answer := [] }
  | .guest addr data => some { s with mem := s.mem.write addr data }
  | .msix enabled => some { s with bridge := { s.bridge with msix := enabled } }
  | .readBegin => some { s with bridge := s.bridge.mmioReadBegin }
  | .readSend addr => if s.bridge.forwardsRead addr then some { s with sent := s.sent ++ [mmioReadReq addr] } else none
  | .readFinish addr =>
    if s.bridge.mmioPending then none
    else some { s with bridge := (s.bridge.mmioReadFinish addr s.bridge.mmioRespData s.bridge.mmioRespStatus).1 }
  | .write addr val =>
    some { s with bridge := (s.bridge.mmioWrite addr val).1, sent := s.sent ++ (s.bridge.mmioWrite addr val).2.toList }

/-- Only the I/O thread's own writing changes what it has to write. -/
theorem answer_other {s t : QemuSide} {e : QemuEvent} (h : s.other e = some t) : t.answer = s.answer ∨ t.answer = [] := by
  cases e <;> simp only [other] at h
  case answer =>
    split at h <;> cases h
    exact .inr rfl
  case readSend =>
    split at h <;> cases h
    exact .inl rfl
  case readFinish =>
    split at h <;> cases h
    exact .inl rfl
  all_goals
    cases h
    exact .inl rfl

/-- `sc_bridge_handle_msg`, with `beyond` behind the payload in memory. -/
def onMsg (pci : PciDma) (beyond : Nat → Byte) (s : QemuSide) (r : Received) : QemuSide :=
  let request := (ScBridge.readMsg r.type r.length).eval (buffer r.payload beyond)
  let h := s.bridge.perform pci s.mem request
  { s with bridge := h.bridge, mem := h.mem, answer := s.answer ++ h.sent, irqs := s.irqs ++ h.irqs }

/-- The I/O thread reads on when it has nothing to write. -/
def ioThread (pci : PciDma) : FrameHandler Byte QemuSide QemuEvent (Nat → Byte) where
  idle s := s.answer.isEmpty
  handle beyond s f := s.onMsg pci beyond (.ofFrame f)
  other := other
  keeps s e t h hs := by
    rw [List.isEmpty_iff] at hs ⊢
    exact (answer_other h).elim (·.trans hs) id

end QemuSide

/-! ## What the messages are for -/

/-- What a message does to guest memory, to a register read that waits, to the guest's interrupts,
and what it is answered with. -/
def PcieSent.effect (pci : PciDma) (s : QemuSide) : PcieSent → QemuSide
  | mmioReadResp data =>
    { s with bridge := { s.bridge with
        mmioRespData := data
        mmioRespStatus := PcieStatus.ok.code
        mmioPending := false } }
  | mmioWriteResp => s
  | resetResp => s
  | dmaRead addr len =>
    { s with answer := s.answer ++ [dmaReadResp (pci.read s.mem addr (min len.toNat DMA_BUF_SIZE))] }
  | dmaWrite addr data _ =>
    { s with
      mem := pci.write s.mem addr (data.take DMA_BUF_SIZE)
      answer := s.answer ++ [statusMsg .dmaWrite] }
  | irq vector => { s with irqs := s.irqs ++ if s.bridge.msix then [vector] else [] }

inductive ExecEvent where
  | message (x : PcieSent)
  | other (e : QemuEvent)

namespace ExecEvent

def message? : ExecEvent → Option PcieSent
  | message x => some x
  | other _ => none

def other? : ExecEvent → Option QemuEvent
  | message _ => none
  | other e => some e

end ExecEvent

/-- A message is done at one point, where the one before it is answered. -/
def QemuSide.exec (pci : PciDma) (s : QemuSide) : ExecEvent → Option QemuSide
  | .message x => if s.answer = [] then some (x.effect pci s) else none
  | .other e => s.other e

end SmartEth
