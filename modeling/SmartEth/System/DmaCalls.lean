import SmartEth.Framework.Run
import SmartEth.System.Link

/-!
# DMA calls over the link

Calls of `dma_read` and `dma_write`, one at a time, as `g_reg_mtx` has it. A
`dma_read` sets `m_dma_pending`, sends its request, and returns when it finds
the flag clear, or after 5 seconds while it is set; a `dma_write` only sends.
QEMU and the socket thread take their steps at any time, and the guest writes
its memory as it likes.
-/

namespace SmartEth

/-- A `dma_read` that has not returned: the length asked for, and the number of
its request once that is sent. -/
structure DmaCall where
  len : Word
  num : Option Nat

structure DmaCalls where
  link : Link
  call : Option DmaCall
  /-- The requests whose call returned true, with the bytes it put into `buf`. -/
  returned : List (Nat × List Byte)
  /-- The requests QEMU has answered, with the data of the answer. -/
  answers : List (Nat × List Byte)

inductive DmaCallEvent where
  | readBegin (len : Word)
  | readSend (addr : Addr)
  | readUnsent
  | readReturn
  | readTimeout
  | write (addr : Addr) (data : List Byte)
  | qemu
  | socket
  | guest (addr : Addr) (data : List Byte)

namespace DmaCalls

def step (s : DmaCalls) : DmaCallEvent → Option DmaCalls
  | .readBegin len =>
    match s.call with
    | none =>
      if s.link.bridge.sockOpen then
        some { s with
          link := { s.link with bridge := s.link.bridge.dmaReadBegin }
          call := some ⟨len, none⟩ }
      else none
    | some _ => none
  | .readSend addr =>
    match s.call with
    | some ⟨len, none⟩ =>
      some { s with
        link := s.link.send (dmaReadReq addr len)
        call := some ⟨len, some s.link.count⟩ }
    | _ => none
  | .readUnsent =>
    match s.call with
    | some ⟨_, none⟩ =>
      some { s with
        link := { s.link with bridge := s.link.bridge.dmaReadUnsent }
        call := none }
    | _ => none
  | .readReturn =>
    match s.call with
    | some ⟨len, some num⟩ =>
      if s.link.bridge.dmaPending then none
      else some { s with
        call := none
        returned := s.returned ++ [(num, s.link.bridge.dmaReadResult len)] }
    | _ => none
  | .readTimeout =>
    match s.call with
    | some ⟨_, some _⟩ => if s.link.bridge.dmaPending then some { s with call := none } else none
    | _ => none
  | .write addr data =>
    match s.call with
    | none =>
      if s.link.bridge.sockOpen then some { s with link := s.link.send (dmaWriteReq addr data) } else none
    | some _ => none
  | .qemu => s.link.qemuStep.map fun l => { s with link := l, answers := s.answers ++ s.link.nextAnswer }
  | .socket => s.link.recv.map fun l => { s with link := l }
  | .guest addr data => some { s with link := { s.link with mem := s.link.mem.write addr data } }

/-- Connected, with nothing on its way and no call made. -/
structure Start (s : DmaCalls) : Prop where
  call : s.call = none
  drained : s.link.Drained
  returned : s.returned = []

/-- What a `dma_read` that returned true gave its caller is the data of the answer
to its own request. -/
def Matched (s : DmaCalls) : Prop := ∀ r ∈ s.returned, r ∈ s.answers

/-- A `dma_read` begins when nothing is on its way. -/
def ReadsDrained (s : DmaCalls) : DmaCallEvent → Prop
  | .readBegin _ => s.link.Drained
  | _ => True

end DmaCalls

end SmartEth
