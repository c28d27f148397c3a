import SmartEth.Framework.Run
import SmartEth.System.Link

/-!
# Register accesses in program order

One vCPU in one `sc_bridge_mmio_read` or `sc_bridge_mmio_write` after another,
while connected, with the I/O thread and the socket thread at their work. The NIC
changes its registers, and sends DMA requests and interrupts, at any time.
-/

namespace SmartEth

/-- Where the vCPU is in `sc_bridge_mmio_read`: `mmio_pending` set; the request
sent, about to look at `mmio_pending`; in `qemu_cond_wait`; with what it has
picked up. -/
inductive VcpuPc where
  | idle
  | pending (addr : Addr)
  | sent (addr : Addr)
  | asleep (addr : Addr)
  | got (addr : Addr) (result status : Word)

/-- Woken up from `qemu_cond_wait`. -/
def VcpuPc.rouse : VcpuPc → VcpuPc
  | .asleep addr => .sent addr
  | pc => pc

/-- A write that was forwarded, or a read that has returned. -/
inductive MmioAccess where
  | write (addr : Addr) (data : Word)
  | read (addr : Addr) (value : Word)
  deriving DecidableEq

structure MmioOrder where
  link : Link
  pc : VcpuPc
  /-- The accesses of the vCPU, in program order. -/
  trace : List MmioAccess

inductive MmioEvent where
  | readBegin (addr : Addr)
  | readSend
  | check
  | wake
  | readReturn
  | write (addr : Addr) (val : BitVec 64)
  | qemu
  | socket
  /-- A step of the NIC by itself. -/
  | nic (f : SmartNic → SmartNic)
  | nicSend (m : Msg)
  | dma (f : PcieBridge → PcieBridge)
  | guest (addr : Addr) (data : List Byte)

namespace MmioOrder

def step (s : MmioOrder) : MmioEvent → Option MmioOrder
  | .readBegin addr =>
    match s.pc with
    | .idle =>
      if s.link.qemu.forwardsRead addr then
        some { s with link := { s.link with qemu := s.link.qemu.mmioReadBegin }, pc := .pending addr }
      else some { s with trace := s.trace ++ [.read addr (s.link.qemu.mmioReadLocal addr)] }
    | _ => none
  | .readSend =>
    match s.pc with
    | .pending addr =>
      some { s with
        link := { s.link with fromQemu := s.link.fromQemu ++ [(none, mmioReadReq addr)] }
        pc := .sent addr }
    | _ => none
  | .check =>
    match s.pc with
    | .sent addr =>
      if s.link.qemu.mmioPending then some { s with pc := .asleep addr }
      else some { s with pc := .got addr s.link.qemu.mmioRespData s.link.qemu.mmioRespStatus }
    | _ => none
  | .wake =>
    match s.pc with
    | .asleep addr => some { s with pc := .sent addr }
    | _ => none
  | .readReturn =>
    match s.pc with
    | .got addr result status =>
      let (qemu, value) := s.link.qemu.mmioReadFinish addr result status
      some { link := { s.link with qemu := qemu }, pc := .idle, trace := s.trace ++ [.read addr value] }
    | _ => none
  | .write addr val =>
    match s.pc with
    | .idle =>
      let (qemu, m) := s.link.qemu.mmioWrite addr val
      some { s with
        link := { s.link with qemu := qemu, fromQemu := s.link.fromQemu ++ m.toList.map (none, ·) }
        trace := s.trace ++ m.toList.map fun _ => .write addr (val.setWidth 32) }
    | _ => none
  | .qemu =>
    match s.link.toQemu with
    | [] => none
    | (_, m) :: _ =>
      let signal := (s.link.qemu.handleMsg s.link.mem m).signal
      s.link.qemuStep.map fun l => { s with link := l, pc := if signal then s.pc.rouse else s.pc }
  | .socket => s.link.recv.map fun l => { s with link := l }
  | .nic f => some { s with link := { s.link with nic := f s.link.nic } }
  | .nicSend m => if m.kind ≠ some .mmioRead then some { s with link := s.link.send m } else none
  | .dma f => some { s with link := { s.link with bridge := f s.link.bridge } }
  | .guest addr data => some { s with link := { s.link with mem := s.link.mem.write addr data } }

/-! ### What a step of the vCPU does -/

section

variable {s t : MmioOrder}

/-- The read is forwarded, or returns at once. -/
theorem step_readBegin {addr : Addr} (h : s.step (.readBegin addr) = some t) : s.pc = .idle ∧
    (s.link.qemu.forwardsRead addr = true ∧
        t = { s with link := { s.link with qemu := s.link.qemu.mmioReadBegin }, pc := .pending addr } ∨
      s.link.qemu.forwardsRead addr = false ∧
        t = { s with trace := s.trace ++ [.read addr (s.link.qemu.mmioReadLocal addr)] }) := by
  simp only [step] at h
  split at h
  · rename_i hpc
    refine ⟨hpc, ?_⟩
    split at h <;> rename_i hf
    · exact .inl ⟨hf, (Option.some.inj h).symm⟩
    · exact .inr ⟨by simpa using hf, (Option.some.inj h).symm⟩
  · simp at h

theorem step_readSend (h : s.step .readSend = some t) : ∃ addr, s.pc = .pending addr ∧ t = { s with
    link := { s.link with fromQemu := s.link.fromQemu ++ [(none, mmioReadReq addr)] }
    pc := .sent addr } := by
  simp only [step] at h
  split at h
  · rename_i addr hpc
    exact ⟨addr, hpc, (Option.some.inj h).symm⟩
  · simp at h

/-- The vCPU falls asleep, or picks up what is in the slot. -/
theorem step_check (h : s.step .check = some t) : ∃ addr, s.pc = .sent addr ∧
    (s.link.qemu.mmioPending = true ∧ t = { s with pc := .asleep addr } ∨
      s.link.qemu.mmioPending = false ∧
        t = { s with pc := .got addr s.link.qemu.mmioRespData s.link.qemu.mmioRespStatus }) := by
  simp only [step] at h
  split at h
  · rename_i addr hpc
    refine ⟨addr, hpc, ?_⟩
    split at h <;> rename_i hp
    · exact .inl ⟨hp, (Option.some.inj h).symm⟩
    · exact .inr ⟨by simpa using hp, (Option.some.inj h).symm⟩
  · simp at h

theorem step_wake (h : s.step .wake = some t) : ∃ addr, s.pc = .asleep addr ∧ t = { s with pc := .sent addr } := by
  simp only [step] at h
  split at h
  · rename_i addr hpc
    exact ⟨addr, hpc, (Option.some.inj h).symm⟩
  · simp at h

theorem step_readReturn (h : s.step .readReturn = some t) : ∃ addr result status,
    s.pc = .got addr result status ∧ t = {
      link := { s.link with qemu := (s.link.qemu.mmioReadFinish addr result status).1 }
      pc := .idle
      trace := s.trace ++ [.read addr (s.link.qemu.mmioReadFinish addr result status).2] } := by
  simp only [step] at h
  split at h
  · rename_i addr result status hpc
    exact ⟨addr, result, status, hpc, (Option.some.inj h).symm⟩
  · simp at h

theorem step_write {addr : Addr} {val : BitVec 64} (h : s.step (.write addr val) = some t) : s.pc = .idle ∧
    t = { s with
      link := { s.link with
        qemu := (s.link.qemu.mmioWrite addr val).1
        fromQemu := s.link.fromQemu ++ (s.link.qemu.mmioWrite addr val).2.toList.map (none, ·) }
      trace := s.trace ++
        (s.link.qemu.mmioWrite addr val).2.toList.map fun _ => .write addr (val.setWidth 32) } := by
  simp only [step] at h
  split at h
  · rename_i hpc
    exact ⟨hpc, (Option.some.inj h).symm⟩
  · simp at h

theorem step_nicSend {m : Msg} (h : s.step (.nicSend m) = some t) :
    m.kind ≠ some .mmioRead ∧ t = { s with link := s.link.send m } := by
  simp only [step] at h
  split at h
  · rename_i hm
    exact ⟨hm, (Option.some.inj h).symm⟩
  · simp at h

end

/-- Connected, with no access made, and only DMA and interrupt messages on their
way. -/
structure Start (s : MmioOrder) : Prop where
  connected : s.link.qemu.connected = true
  pc : s.pc = .idle
  trace : s.trace = []
  toQemu : ∀ x ∈ s.link.toQemu, x.2.kind ≠ some .mmioRead
  fromQemu : ∀ x ∈ s.link.fromQemu, PcieBridge.needsLock x.2 = false

/-- The next message for the socket thread is the request of a read. -/
def Handles (s : MmioOrder) (addr : Addr) : Prop :=
  ∃ x rest, s.link.fromQemu = (x, mmioReadReq addr) :: rest

end MmioOrder

/-! ## The synchronous register file -/

/-- What changes the registers: a step of the NIC by itself, or a write. -/
inductive NicChange where
  | own (f : SmartNic → SmartNic)
  | write (addr : Addr) (data : Word)

namespace NicChange

def apply (nic : SmartNic) : NicChange → SmartNic
  | own f => f nic
  | write addr data => (nic.onMmioWrite addr data).1

def replay (nic : SmartNic) (h : List NicChange) : SmartNic := h.foldl apply nic

def writes (h : List NicChange) : List (Addr × Word) :=
  h.filterMap fun
    | write addr data => some (addr, data)
    | own _ => none

def owns (h : List NicChange) : List (SmartNic → SmartNic) :=
  h.filterMap fun
    | own f => some f
    | write _ _ => none

end NicChange

def MmioAccess.writes (trace : List MmioAccess) : List (Addr × Word) :=
  trace.filterMap fun
    | .write addr data => some (addr, data)
    | .read _ _ => none

/-- The steps that the NIC takes by itself in a run. -/
def MmioEvent.owns (es : List MmioEvent) : List (SmartNic → SmartNic) :=
  es.filterMap fun
    | .nic f => some f
    | _ => none

/-- The next step of the vCPU in its read, of the I/O thread or of the socket
thread; no wake-up but by the I/O thread. -/
def MmioEvent.ofThreads : MmioEvent → Bool
  | .readSend | .check | .readReturn | .qemu | .socket => true
  | _ => false

namespace MmioOrder

/-- A read of `addr` after the accesses `pre` gives what the register file gives
when the writes of `pre` have been applied, in order, and what the NIC did by
itself before the read was handled, in the run `es` from `s`. -/
def InOrder (s : MmioOrder) (es : List MmioEvent) (pre : List MmioAccess) (addr : Addr) (value : Word) : Prop :=
  ∃ es₁ es₂ u h, es = es₁ ++ es₂ ∧ run step s es₁ = some u ∧ u.trace = pre ∧
    NicChange.writes h = MmioAccess.writes pre ∧ NicChange.owns h = MmioEvent.owns es₁ ∧
    value = (NicChange.replay s.link.nic h).onMmioRead addr ∧
    (addr < SC_REG_COUNT →
      u.Handles addr ∧ es₂.head? = some .socket ∧ u.link.nic = NicChange.replay s.link.nic h)

end MmioOrder

end SmartEth
