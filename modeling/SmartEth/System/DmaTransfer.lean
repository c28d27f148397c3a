import SmartEth.Framework.Run
import SmartEth.Impl.Payload
import SmartEth.System.Link

/-!
# A DMA call from end to end

One `dma_read` (`DmaRead`) and one `dma_write` (`DmaWrite`), from the call to
guest memory and back. How `pci_dma_read` and `pci_dma_write` turn out is given by
a `PciDma`. The guest writes its memory as it likes, and other messages than those
of DMA calls come and go.
-/

namespace SmartEth

/-- The I/O thread handles the next message. -/
def Link.qemuStepPci (pci : PciDma) (l : Link) : Option Link :=
  match l.toQemu with
  | [] => none
  | (num, m) :: rest =>
    let h := l.qemu.handleMsgPci pci l.mem m
    some { l with
      qemu := h.bridge
      mem := h.mem
      toQemu := rest
      fromQemu := l.fromQemu ++ h.sent.map (some num, ·) }

/-- The messages of DMA calls. -/
def dmaKinds : List PcieMsgType := [.dmaRead, .dmaWrite]

def isDma (m : Msg) : Bool := dmaKinds.any fun k => m.kind = some k

/-- What happens besides the call. -/
inductive LinkEvent where
  | qemu
  | socket
  | guest (addr : Addr) (data : List Byte)
  /-- QEMU or SystemC sends a message that is not of a DMA call. -/
  | fromQemu (m : Msg)
  | toQemu (m : Msg)

namespace Link

def event (pci : PciDma) (l : Link) : LinkEvent → Option Link
  | .qemu => l.qemuStepPci pci
  | .socket => l.recv
  | .guest addr data => some { l with mem := l.mem.write addr data }
  | .fromQemu m => if isDma m then none else some { l with fromQemu := l.fromQemu ++ [(none, m)] }
  | .toQemu m => if isDma m then none else some (l.send m)

/-- Guest memory before and after the handling of `m`, if that is the next step. -/
def serves (l l' : Link) (m : Msg) : LinkEvent → Option (GuestMem × GuestMem)
  | .qemu =>
    match l.toQemu with
    | (_, m') :: _ => if m' = m then some (l.mem, l'.mem) else none
    | [] => none
  | _ => none

end Link

/-! ## `dma_read` -/

/-- Where a `dma_read` is: `m_dma_pending` set; the request sent. -/
inductive DmaReadPc where
  | idle
  | begun
  | sent
  | returned (ok : Bool)
  deriving DecidableEq

structure DmaRead where
  link : Link
  pc : DmaReadPc
  /-- The caller's buffer. -/
  buf : List Byte
  /-- Guest memory when QEMU handled the request. -/
  served : Option GuestMem

inductive DmaReadEvent where
  | call
  | send (ok : Bool)
  | finish
  | timeout
  | link (e : LinkEvent)

namespace DmaRead

def step (pci : PciDma) (addr : Addr) (len : Word) (s : DmaRead) : DmaReadEvent → Option DmaRead
  | .call =>
    match s.pc with
    | .idle =>
      if s.link.bridge.sockOpen then
        some { s with link := { s.link with bridge := s.link.bridge.dmaReadBegin }, pc := .begun }
      else some { s with pc := .returned false }
    | _ => none
  | .send ok =>
    match s.pc with
    | .begun =>
      if ok then some { s with link := s.link.send (dmaReadReq addr len), pc := .sent }
      else some { s with link := { s.link with bridge := s.link.bridge.dmaReadUnsent }, pc := .returned false }
    | _ => none
  | .finish =>
    match s.pc with
    | .sent =>
      if s.link.bridge.dmaPending then none
      else some { s with buf := overlay s.buf (s.link.bridge.dmaReadResult len), pc := .returned true }
    | _ => none
  | .timeout =>
    match s.pc with
    | .sent => if s.link.bridge.dmaPending then some { s with pc := .returned false } else none
    | _ => none
  | .link e =>
    (s.link.event pci e).map fun l =>
      { s with link := l, served := ((s.link.serves l (dmaReadReq addr len) e).map (·.1)).or s.served }

/-- The call is about to be made, with a buffer of `len` bytes. No other `dma_read`
is on its way, and a `dma_write` on its way is a whole one. -/
structure Start (len : Word) (s : DmaRead) : Prop where
  pc : s.pc = .idle
  sockOpen : s.link.bridge.sockOpen = true
  buf : s.buf.length = len.toNat
  served : s.served = none
  toQemu : Without [.dmaRead] s.link.toQemu
  fromQemu : Without [.dmaRead] s.link.fromQemu
  whole : ∀ x ∈ s.link.toQemu, x.2.kind = some .dmaWrite → 12 ≤ x.2.payload.length

/-- QEMU has served the request in full, and the caller's buffer holds the bytes of
guest memory. -/
def InFull (pci : PciDma) (addr : Addr) (len : Word) (s : DmaRead) : Prop :=
  ∃ mem, s.served = some mem ∧ len.toNat ≤ DMA_BUF_SIZE ∧ pci.readOk addr len.toNat = true ∧
    s.buf = mem.read addr len.toNat

end DmaRead

/-! ## `dma_write` -/

structure DmaWrite where
  link : Link
  /-- What `dma_write` has returned. -/
  returned : Option Bool
  /-- Guest memory before and after QEMU handled the request. -/
  served : Option (GuestMem × GuestMem)

inductive DmaWriteEvent where
  | call (ok : Bool)
  | link (e : LinkEvent)

namespace DmaWrite

def step (pci : PciDma) (addr : Addr) (data : List Byte) (s : DmaWrite) : DmaWriteEvent → Option DmaWrite
  | .call ok =>
    match s.returned with
    | none =>
      if s.link.bridge.sockOpen && ok then
        some { s with link := s.link.send (dmaWriteReq addr data), returned := some true }
      else some { s with returned := some false }
    | some _ => none
  | .link e =>
    (s.link.event pci e).map fun l =>
      { s with link := l, served := (s.link.serves l (dmaWriteReq addr data) e).or s.served }

/-- The call is about to be made, and no other `dma_write` is on its way. -/
structure Start (s : DmaWrite) : Prop where
  returned : s.returned = none
  served : s.served = none
  toQemu : Without [.dmaWrite] s.link.toQemu

/-- QEMU has written all the bytes to guest memory, and nothing else. -/
def InFull (addr : Addr) (data : List Byte) (s : DmaWrite) : Prop :=
  ∃ before after, s.served = some (before, after) ∧ after = before.write addr data

end DmaWrite

end SmartEth
