import SmartEth.System.Connection
import SmartEth.Proof.MmioOrder
import SmartEth.Proof.PlainRegs

/-!
# Register accesses while SystemC comes and goes

A plain register of the NIC holds what was last forwarded to it (`Sent`), and the
bridge's copy what the vCPU last wrote or read. The two differ after a write that was
not forwarded, and the connection does not bring them together: every read returns
what was last written exactly in the runs in which no such register is read through
the connection (`reads_own_writes_iff`).
-/

namespace SmartEth.Connection

open MmioOrder SmartNic

variable {nic : SmartNic} {addr : Addr}

/-! ## The accesses -/

theorem readsOwnWrites_write {l : List MmioAccess} (a : Addr) (d : Word) :
    ReadsOwnWrites (l ++ [.write a d]) ↔ ReadsOwnWrites l := by
  constructor
  · intro h pre addr value post v hl
    exact h pre addr value (post ++ [.write a d]) v (by rw [hl, List.append_assoc, List.cons_append])
  · intro h pre addr value post v hl
    obtain ⟨-, he⟩ | ⟨post', hl'⟩ := snoc_eq_append_cons hl
    · simp at he
    · exact h pre addr value post' v hl'

theorem readsOwnWrites_read {l : List MmioAccess} (a : Addr) (value : Word) :
    ReadsOwnWrites (l ++ [.read a value]) ↔
      ReadsOwnWrites l ∧ ∀ v, Plain a → lastWritten a (MmioAccess.writes l) = some v → value = v := by
  constructor
  · intro h
    refine ⟨fun pre addr value' post v hl => ?_, fun v => h l a value [] v rfl⟩
    exact h pre addr value' (post ++ [.read a value]) v (by rw [hl, List.append_assoc, List.cons_append])
  · rintro ⟨h, hlast⟩ pre addr value' post v hl
    obtain ⟨rfl, he⟩ | ⟨post', hl'⟩ := snoc_eq_append_cons hl
    · cases he
      exact hlast v
    · exact h pre addr value' post' v hl'

/-! ## What the vCPU may find -/

/-- What a read is answered with. -/
def Sent (nic : SmartNic) (s : Connection) (addr : Addr) (value : Word) : Prop :=
  Plain addr → value = forwarded nic s addr

/-- Once the connection is over, a read that is not answered waits for ever. -/
def Over (P : Addr → Word → Prop) (q : ScBridge) : VcpuPc → Prop
  | .idle => True
  | .pending _ | .asleep _ => q.mmioPending = true
  | .sent addr => q.mmioPending = false → q.mmioRespStatus = PcieStatus.ok.code ∧ P addr q.mmioRespData
  | .got addr result status => status = PcieStatus.ok.code ∧ P addr result

theorem Over.mono {P Q : Addr → Word → Prop} {q : ScBridge} {pc : VcpuPc} (h : Over P q pc)
    (hPQ : ∀ addr value, P addr value → Q addr value) : Over Q q pc := by
  cases pc with
  | sent addr => exact fun hp => ⟨(h hp).1, hPQ _ _ (h hp).2⟩
  | got addr result status => exact ⟨h.1, hPQ _ _ h.2⟩
  | _ => exact h

theorem over_of_flight {P : Addr → Word → Prop} {m : MmioOrder} (h : Flight P m) : Over P m.link.qemu m.pc := by
  have hwait : ∀ addr, Waiting m addr → Over P m.link.qemu m.pc := by
    intro addr w
    rcases w.pc with hpc | hpc <;> rw [hpc]
    · intro hn
      rw [w.pending] at hn
      cases hn
    · exact w.pending
  cases h with
  | idle pc quiet => rw [pc]; trivial
  | pending pc quiet pending => rw [pc]; exact pending
  | asked asked => exact hwait _ asked.waiting
  | answered answered _ => exact hwait _ answered.waiting
  | come come value =>
    rw [come.pc]
    exact fun _ => ⟨come.status, come.data ▸ value⟩
  | got pc _ value => rw [pc]; exact ⟨rfl, value⟩

/-- The register that a read is for. -/
def reading : VcpuPc → Option Addr
  | .idle => none
  | .pending addr | .sent addr | .asleep addr | .got addr _ _ => some addr

/-- The reads are aligned. -/
theorem aligned_step {m m' : MmioOrder} {s : Connection} {e : MmioEvent} (ha : s.allows e = true)
    (he : m.step e = some m') (h : ∀ addr, reading m.pc = some addr → addr &&& 3 = 0) :
    ∀ addr, reading m'.pc = some addr → addr &&& 3 = 0 := by
  cases e with
  | readBegin a =>
    obtain ⟨hpc, ⟨-, rfl⟩ | ⟨-, rfl⟩⟩ := step_readBegin he
    · intro addr hr
      cases hr
      exact of_decide_eq_true ha
    · exact h
  | readSend =>
    obtain ⟨a, hpc, rfl⟩ := step_readSend he
    rw [hpc] at h
    exact h
  | check =>
    obtain ⟨a, hpc, ⟨-, rfl⟩ | ⟨-, rfl⟩⟩ := step_check he <;> rw [hpc] at h <;> exact h
  | wake =>
    obtain ⟨a, hpc, rfl⟩ := step_wake he
    rw [hpc] at h
    exact h
  | readReturn =>
    obtain ⟨a, result, status, hpc, rfl⟩ := step_readReturn he
    intro addr hr
    cases hr
  | qemu =>
    have hrouse : ∀ pc : VcpuPc, reading pc.rouse = reading pc := fun pc => by cases pc <;> rfl
    have hpc : reading m'.pc = reading m.pc := by
      cases hq : m.link.toQemu with
      | nil => simp [MmioOrder.step, hq] at he
      | cons x rest =>
        simp only [MmioOrder.step, Link.qemuStep, hq, Option.map_some, Option.some.injEq] at he
        subst he
        dsimp only
        split
        · exact hrouse _
        · rfl
    rw [hpc]
    exact h
  | socket =>
    obtain ⟨l, -, rfl⟩ := Option.map_eq_some_iff.mp he
    exact h
  | nicSend msg =>
    obtain ⟨-, rfl⟩ := step_nicSend he
    exact h
  | write _ _ | nic _ => simp [allows] at ha
  | dma f | guest addr data =>
    cases he
    exact h

/-! ## What the NIC's registers hold -/

/-- A step of the NIC that leaves the plain registers alone. -/
def KeepsPlain (f : SmartNic → SmartNic) : Prop := ∀ nic addr, Plain addr → (f nic).reg addr = nic.reg addr

theorem keepsPlain_work (w : NicWork) : KeepsPlain w.run := by
  intro nic addr h
  cases w with
  | packet data r => exact ((nic.onPacketRx_frame data).exec _ _).reg addr h.hostReg
  | processDma r => exact (nic.processDmaBody_frame.exec _ _).reg addr h.hostReg
  | txIteration r => exact (nic.processTxIteration_frame.exec _ _).reg addr h.hostReg
  | txDone r => exact (nic.processTxDone_frame.exec _ _).reg addr h.hostReg

/-- After some changes, a plain register holds the last value written. -/
theorem reg_replay (h : Plain addr) {c : List NicChange} (hw : ∀ w ∈ NicChange.writes c, Ordinary w)
    (ho : ∀ f ∈ NicChange.owns c, KeepsPlain f) (nic : SmartNic) :
    (NicChange.replay nic c).reg addr = (lastWritten addr (NicChange.writes c)).getD (nic.reg addr) := by
  induction c generalizing nic with
  | nil => rfl
  | cons x c ih =>
    have hcons : NicChange.replay nic (x :: c) = NicChange.replay (NicChange.apply nic x) c := rfl
    cases x with
    | own f =>
      rw [hcons, ih hw (fun g hg => ho g (List.mem_cons_of_mem f hg)), NicChange.apply,
        ho f List.mem_cons_self nic addr h]
      rfl
    | write a d =>
      have hws : NicChange.writes (.write a d :: c) = (a, d) :: NicChange.writes c := rfl
      rw [hws] at hw ⊢
      rw [hcons, ih (fun v hv => hw v (List.mem_cons_of_mem _ hv)) ho, NicChange.apply,
        h.reg_onMmioWrite nic (hw (a, d) List.mem_cons_self), getD_lastWritten_cons]

/-! ## Steps -/

variable {s t : Connection}

/-- What an allowed step does to the trace and to the copy: a read that returns is
added, and an answer copied. -/
theorem trace_step {m : MmioOrder} {e : MmioEvent} (ha : s.allows e = true) (he : s.mmio.step e = some m) :
    e ≠ .readReturn ∧ m.trace = s.mmio.trace ∧ m.link.qemu.regs = s.mmio.link.qemu.regs ∨
      (∃ addr, e = .readBegin addr ∧
        m = { s.mmio with trace := s.mmio.trace ++ [.read addr (s.mmio.link.qemu.mmioReadLocal addr)] }) ∨
      ∃ addr result status, e = .readReturn ∧ s.mmio.pc = .got addr result status ∧ m = {
        link := { s.mmio.link with qemu := (s.mmio.link.qemu.mmioReadFinish addr result status).1 }
        pc := .idle
        trace := s.mmio.trace ++ [.read addr (s.mmio.link.qemu.mmioReadFinish addr result status).2] } := by
  cases e with
  | readBegin addr =>
    obtain ⟨-, ⟨-, rfl⟩ | ⟨-, rfl⟩⟩ := step_readBegin he
    · exact .inl ⟨by simp, rfl, rfl⟩
    · exact .inr (.inl ⟨addr, rfl, rfl⟩)
  | readReturn =>
    obtain ⟨addr, result, status, hpc, rfl⟩ := step_readReturn he
    exact .inr (.inr ⟨addr, result, status, rfl, hpc, rfl⟩)
  | readSend =>
    obtain ⟨addr, -, rfl⟩ := step_readSend he
    exact .inl ⟨by simp, rfl, rfl⟩
  | check => obtain ⟨addr, -, ⟨-, rfl⟩ | ⟨-, rfl⟩⟩ := step_check he <;> exact .inl ⟨by simp, rfl, rfl⟩
  | wake =>
    obtain ⟨addr, -, rfl⟩ := step_wake he
    exact .inl ⟨by simp, rfl, rfl⟩
  | qemu =>
    refine .inl ⟨by simp, (qemu_frame he).1, ?_⟩
    cases hq : s.mmio.link.toQemu with
    | nil => simp [MmioOrder.step, hq] at he
    | cons x rest =>
      simp only [MmioOrder.step, Link.qemuStep, hq, Option.map_some, Option.some.injEq] at he
      subst he
      exact ScBridge.regs_handleMsg _ _ _
  | socket =>
    obtain ⟨l, hl, rfl⟩ := Option.map_eq_some_iff.mp he
    refine .inl ⟨by simp, rfl, ?_⟩
    cases hq : s.mmio.link.fromQemu with
    | nil => simp [Link.recv, hq] at hl
    | cons x rest =>
      simp only [Link.recv, hq, Option.some.injEq] at hl
      obtain ⟨out, -, hs⟩ := Link.foldl_send { s.mmio.link with
        bridge := (s.mmio.link.bridge.handleMessage s.mmio.link.nic x.2).bridge
        nic := (s.mmio.link.bridge.handleMessage s.mmio.link.nic x.2).nic
        fromQemu := rest } (s.mmio.link.bridge.handleMessage s.mmio.link.nic x.2).sent
      rw [← hl, hs]
  | nicSend m =>
    obtain ⟨-, rfl⟩ := step_nicSend he
    exact .inl ⟨by simp, rfl, rfl⟩
  | write _ _ | nic _ => simp [allows] at ha
  | dma f | guest addr data =>
    cases he
    exact .inl ⟨by simp, rfl, rfl⟩

/-- No write is forwarded in an allowed step. -/
theorem writes_trace {m : MmioOrder} {e : MmioEvent} (ha : s.allows e = true) (he : s.mmio.step e = some m) :
    MmioAccess.writes m.trace = MmioAccess.writes s.mmio.trace := by
  rcases trace_step ha he with ⟨-, ht, -⟩ | ⟨addr, -, rfl⟩ | ⟨addr, result, status, -, -, rfl⟩
  · rw [ht]
  · rw [writes_trace_append]
    exact List.append_nil _
  · rw [writes_trace_append]
    exact List.append_nil _

theorem step_mmio {e : MmioEvent} (h : s.step (.mmio e) = some t) : s.allows e = true ∧
    ∃ m, s.mmio.step e = some m ∧
      t = { s with mmio := m, accesses := s.accesses ++ m.trace.drop s.mmio.trace.length } := by
  simp only [step] at h
  split at h
  · rename_i ha
    obtain ⟨m, hm, rfl⟩ := Option.map_eq_some_iff.mp h
    exact ⟨ha, m, hm, rfl⟩
  · simp at h

theorem step_write {addr : Addr} {val : Word} (h : s.step (.write addr val) = some t) : Ordinary (addr, val) ∧
    s.mmio.pc = .idle ∧ ∃ m, s.mmio.step (.write addr (val.setWidth 64)) = some m ∧
      t = { s with mmio := m, accesses := s.accesses ++ [.write addr val] } := by
  simp only [step] at h
  split at h
  · rename_i ho
    obtain ⟨m, hm, rfl⟩ := Option.map_eq_some_iff.mp h
    exact ⟨ho, (MmioOrder.step_write hm).1, m, hm, rfl⟩
  · simp at h

theorem step_unsent (h : s.step .unsent = some t) : s.io ≠ .loop ∧
    ∃ addr, s.mmio.pc = .pending addr ∧ t = { s with mmio := { s.mmio with pc := .sent addr } } := by
  simp only [step] at h
  split at h
  · rename_i addr hpc
    split at h
    · simp at h
    · rename_i hio
      exact ⟨hio, addr, hpc, (Option.some.inj h).symm⟩
  · simp at h

/-- What every run keeps of the bridges: how the vCPU's read stands, and that the NIC's
registers hold what was forwarded, but for what is on its way. -/
structure Inv (nic : SmartNic) (s : Connection) : Prop where
  connected : s.mmio.link.qemu.connected = decide (s.io = .loop)
  idle : s.io = .accept → s.mmio.pc = .idle
  aligned : ∀ addr, reading s.mmio.pc = some addr → addr &&& 3 = 0
  flight : s.io ≠ .done → Flight (Sent nic s) s.mmio
  ended : s.io = .done → Over (Sent nic s) s.mmio.link.qemu s.mmio.pc
  ordinary : ∀ w ∈ MmioAccess.writes s.mmio.trace, Ordinary w
  changes : s.io ≠ .done → ∃ es, Changes nic es s.mmio ∧ ∀ f ∈ MmioEvent.owns es, KeepsPlain f

/-- What the vCPU may find, connected or not. -/
theorem Inv.found (h : Inv nic s) : Over (Sent nic s) s.mmio.link.qemu s.mmio.pc := by
  by_cases hio : s.io = .done
  · exact h.ended hio
  · exact over_of_flight (h.flight hio)

theorem inv_init (msix : Bool) (bridge : PcieBridge) (nic : SmartNic) (mem : GuestMem) :
    Inv nic (init msix bridge nic mem) := by
  refine ⟨rfl, fun _ => rfl, ?_, fun _ => .idle rfl ⟨.nil, .nil⟩, fun _ => trivial, ?_, fun _ => ?_⟩
  · intro addr h
    cases h
  · intro w hw
    cases hw
  · refine ⟨[], ⟨[], rfl, rfl, rfl⟩, fun f hf => ?_⟩
    cases hf

/-- With no write on its way, the NIC answers with what was forwarded. -/
theorem Inv.answer (h : Inv nic s) (hio : s.io ≠ .done) (hq : queued s.mmio.link.fromQemu = []) (addr : Addr) :
    Sent nic s addr (s.mmio.link.nic.onMmioRead addr) := by
  intro hp
  obtain ⟨es, ⟨c, hn, ho, hw⟩, hes⟩ := h.changes hio
  rw [hq, List.append_nil] at hw
  have hord : ∀ w ∈ NicChange.writes c, Ordinary w := hw ▸ h.ordinary
  rw [hp.onMmioRead, hn, reg_replay hp hord (ho ▸ hes), forwarded, hw]

theorem Inv.write (h : Inv nic s) {addr : Addr} {val : Word} (he : s.step (.write addr val) = some t) :
    Inv nic t := by
  obtain ⟨ho, hpc, m, hm, rfl⟩ := step_write he
  have hnil : s.io ≠ .done → Flight (fun _ _ => True) m := fun hio =>
    ((h.flight hio).mono fun _ _ _ => trivial).step hm fun _ hs => by cases hs
  obtain ⟨-, rfl⟩ := MmioOrder.step_write hm
  refine ⟨?_, fun _ => hpc, ?_, fun hio => .idle hpc ((hnil hio).of_idle hpc), fun _ => ?_, ?_, fun hio => ?_⟩
  · exact (ScBridge.connected_mmioWrite _ _ _).trans h.connected
  · intro a ha
    rw [hpc] at ha
    cases ha
  · rw [hpc]
    trivial
  · intro w hw
    rw [writes_trace_append] at hw
    rcases List.mem_append.mp hw with hw | hw
    · exact h.ordinary w hw
    · cases hs : (s.mmio.link.qemu.mmioWrite addr (val.setWidth 64)).2 with
      | none =>
        rw [hs] at hw
        cases hw
      | some msg =>
        rw [hs] at hw
        obtain rfl : w = (addr, (val.setWidth 64).setWidth 32) := List.mem_singleton.mp hw
        rw [setWidth_setWidth_word]
        exact ho
  · obtain ⟨es, hc, hes⟩ := h.changes hio
    refine ⟨es ++ [.write addr (val.setWidth 64)], hc.step (h.flight hio).noReset hm, ?_⟩
    rw [owns_events_append]
    intro f hf
    rcases List.mem_append.mp hf with hf | hf
    · exact hes f hf
    · cases hf

/-- A step of the vCPU while not connected. -/
theorem unconnected_step {P : Addr → Word → Prop} {m : MmioOrder} {e : MmioEvent} (hio : s.io ≠ .loop)
    (ha : s.allows e = true) (hc : s.mmio.link.qemu.connected = false) (he : s.mmio.step e = some m)
    (h : Over P s.mmio.link.qemu s.mmio.pc) :
    m.link.qemu.connected = false ∧ Over P m.link.qemu m.pc ∧ (s.mmio.pc = .idle → m.pc = .idle) := by
  cases e with
  | readBegin addr =>
    obtain ⟨-, ⟨hf, -⟩ | ⟨-, rfl⟩⟩ := step_readBegin he
    · rw [ScBridge.forwardsRead, hc, Bool.and_false] at hf
      cases hf
    · exact ⟨hc, h, id⟩
  | check =>
    obtain ⟨addr, hpc, ⟨hp, rfl⟩ | ⟨hp, rfl⟩⟩ := step_check he <;> rw [hpc] at h ⊢
    · exact ⟨hc, hp, by simp⟩
    · exact ⟨hc, h hp, by simp⟩
  | wake =>
    obtain ⟨addr, hpc, rfl⟩ := step_wake he
    rw [hpc] at h ⊢
    refine ⟨hc, fun hn => ?_, by simp⟩
    cases (show s.mmio.link.qemu.mmioPending = true from h).symm.trans hn
  | readReturn =>
    obtain ⟨addr, result, status, -, rfl⟩ := step_readReturn he
    exact ⟨(ScBridge.connected_mmioReadFinish _ _ _ _).trans hc, trivial, fun _ => rfl⟩
  | dma f | guest addr data =>
    cases he
    exact ⟨hc, h, id⟩
  | readSend | qemu | socket | nicSend m | write _ _ | nic _ => simp [allows, hio] at ha

theorem Inv.mmio {e : MmioEvent} (h : Inv nic s) (he : s.step (.mmio e) = some t) : Inv nic t := by
  obtain ⟨ha, m, hm, rfl⟩ := step_mmio he
  have hw := writes_trace ha hm
  have hsent : ∀ (l : List MmioAccess) addr value, Sent nic s addr value →
      Sent nic { s with mmio := m, accesses := l } addr value := by
    intro l addr value hs hp
    rw [forwarded, hw]
    exact hs hp
  have hown : MmioEvent.owns [e] = [] := by
    cases e with
    | nic f => simp [allows] at ha
    | _ => rfl
  by_cases hio : s.io = .done
  · have hc : s.mmio.link.qemu.connected = false := h.connected.trans (by rw [hio]; rfl)
    obtain ⟨hc', ho, -⟩ := unconnected_step (P := Sent nic { s with mmio := m, accesses := [] }) (by simp [hio])
      ha hc hm ((h.ended hio).mono (hsent []))
    refine ⟨hc'.trans (by rw [hio]; rfl), fun hi => ?_, aligned_step ha hm h.aligned, fun hn => absurd hio hn,
      fun _ => ho, hw ▸ h.ordinary, fun hn => absurd hio hn⟩
    cases hio.symm.trans hi
  · have hf := (h.flight hio).step hm fun addr _ _ hq => h.answer hio hq addr
    have hr := (h.flight hio).noReset
    refine ⟨(step_connected hr hm).trans h.connected, fun hi => ?_, aligned_step ha hm h.aligned,
      fun _ => hf.mono (hsent _), fun hd => absurd hd hio, hw ▸ h.ordinary, fun _ => ?_⟩
    · have hc : s.mmio.link.qemu.connected = false := h.connected.trans (by rw [show s.io = .accept from hi]; rfl)
      exact (unconnected_step (by simp [show s.io = .accept from hi]) ha hc hm h.found).2.2 (h.idle hi)
    · obtain ⟨es, hch, hes⟩ := h.changes hio
      refine ⟨es ++ [e], hch.step hr hm, ?_⟩
      rw [owns_events_append, hown, List.append_nil]
      exact hes

theorem Inv.step {e : ConnectionEvent} (h : Inv nic s) (he : s.step e = some t) : Inv nic t := by
  cases e with
  | connect =>
    simp only [Connection.step, Option.ite_none_right_eq_some, Option.some.injEq] at he
    obtain ⟨hio, rfl⟩ := he
    have hpc := h.idle hio
    have hne : s.io ≠ .done := by simp [hio]
    have quiet := (h.flight hne).of_idle hpc
    refine ⟨rfl, fun hi => ?_, h.aligned, fun _ => .idle hpc ⟨quiet.req, quiet.rep⟩, fun hd => ?_, h.ordinary,
      fun _ => h.changes hne⟩
    · cases hi
    · cases hd
  | refuse =>
    simp only [Connection.step, Option.ite_none_right_eq_some, Option.some.injEq] at he
    obtain ⟨hio, rfl⟩ := he
    refine ⟨h.connected.trans (by rw [hio]; rfl), fun hi => ?_, h.aligned, fun hn => absurd rfl hn, fun _ => h.found,
      h.ordinary, fun hn => absurd rfl hn⟩
    cases hi
  | disconnect =>
    simp only [Connection.step, Option.ite_none_right_eq_some, Option.some.injEq] at he
    obtain ⟨hio, rfl⟩ := he
    have hover : Over (Sent nic s) { s.mmio.link.qemu with connected := false } s.mmio.pc := by
      have := h.found
      cases hpc : s.mmio.pc <;> rw [hpc] at this <;> exact this
    refine ⟨rfl, fun hi => ?_, h.aligned, fun hn => absurd rfl hn, fun _ => hover, h.ordinary,
      fun hn => absurd rfl hn⟩
    cases hi
  | write addr val => exact h.write he
  | unsent =>
    obtain ⟨hio, addr, hpc, rfl⟩ := step_unsent he
    have hdone : s.io = .done := by
      cases hi : s.io with
      | accept =>
        rw [h.idle hi] at hpc
        cases hpc
      | loop => exact absurd hi hio
      | done => rfl
    have hover := h.ended hdone
    have hal := h.aligned
    rw [hpc] at hover hal
    refine ⟨h.connected, fun hi => ?_, hal, fun hn => absurd hdone hn, fun _ hn => ?_, h.ordinary,
      fun hn => absurd hdone hn⟩
    · cases hdone.symm.trans hi
    · cases (show s.mmio.link.qemu.mmioPending = true from hover).symm.trans hn
  | nic w =>
    simp only [Connection.step, Option.some.injEq] at he
    subst he
    have hm : s.mmio.step (.nic w.run) =
        some { s.mmio with link := { s.mmio.link with nic := w.run s.mmio.link.nic } } := rfl
    refine ⟨h.connected, h.idle, h.aligned, fun hio => ?_, h.ended, h.ordinary, fun hio => ?_⟩
    · exact (h.flight hio).step hm fun _ hs => by cases hs
    · obtain ⟨es, hch, hes⟩ := h.changes hio
      refine ⟨es ++ [.nic w.run], hch.step (h.flight hio).noReset hm, ?_⟩
      rw [owns_events_append]
      intro f hf
      rcases List.mem_append.mp hf with hf | hf
      · exact hes f hf
      · rw [List.mem_singleton.mp hf]
        exact keepsPlain_work w
  | mmio e => exact h.mmio he

/-! ## The bridge's copy -/

/-- Where all reads returned what was last written, the copy holds it. -/
def Cached (s : Connection) : Prop := ReadsOwnWrites s.accesses → ∀ addr v, Plain addr →
  lastWritten addr (MmioAccess.writes s.accesses) = some v → s.mmio.link.qemu.regs (addr >>> 2) = v

/-- A step that accesses nothing, and leaves the copy alone. -/
theorem Cached.same (h : Cached s) (ha : t.accesses = s.accesses)
    (hr : t.mmio.link.qemu.regs = s.mmio.link.qemu.regs) : Cached t := by
  rw [Cached, ha, hr]
  exact h

theorem lastWritten_writes_read (l : List MmioAccess) (a : Addr) (value : Word) :
    MmioAccess.writes (l ++ [.read a value]) = MmioAccess.writes l := by
  rw [writes_trace_append]
  exact List.append_nil _

theorem lastWritten_writes_write (l : List MmioAccess) (a : Addr) (d : Word) :
    lastWritten addr (MmioAccess.writes (l ++ [.write a d])) =
      if a = addr then some d else lastWritten addr (MmioAccess.writes l) := by
  rw [writes_trace_append, show MmioAccess.writes [.write a d] = [(a, d)] from rfl, lastWritten_append,
    lastWritten_singleton]
  by_cases h : a = addr
  · rw [if_pos h, if_pos h]
    rfl
  · rw [if_neg h, if_neg h]
    rfl

/-- A step, as the reads see it: it keeps `ReadsOwnWrites` exactly when what it
returns was forwarded. -/
structure StepReads (nic : SmartNic) (s : Connection) (e : ConnectionEvent) (t : Connection) : Prop where
  cached : Cached t
  reads : ReadsOwnWrites s.accesses → (ReadsOwnWrites t.accesses ↔ Forwarded nic s e)

theorem stepReads_same {e : ConnectionEvent} (hc : Cached s) (ha : t.accesses = s.accesses)
    (hr : t.mmio.link.qemu.regs = s.mmio.link.qemu.regs) (he : e ≠ .mmio .readReturn) : StepReads nic s e t := by
  refine ⟨hc.same ha hr, fun hown => ?_⟩
  rw [ha]
  refine iff_of_true hown ?_
  cases e with
  | mmio e =>
    cases e with
    | readReturn => exact absurd rfl he
    | _ => trivial
  | _ => trivial

theorem stepReads_write {val : Word} (hc : Cached s) (he : s.step (.write addr val) = some t) :
    StepReads nic s (.write addr val) t := by
  obtain ⟨ho, -, m, hm, rfl⟩ := step_write he
  obtain ⟨-, rfl⟩ := MmioOrder.step_write hm
  refine ⟨fun hown a v hp hl => ?_, fun hown => iff_of_true ((readsOwnWrites_write _ _).mpr hown) trivial⟩
  have hown' : ReadsOwnWrites s.accesses := (readsOwnWrites_write _ _).mp hown
  rw [lastWritten_writes_write] at hl
  have hregs := hp.regs_mmioWrite s.mmio.link.qemu ho
  dsimp only at hregs ⊢
  rw [hregs]
  by_cases ha : addr = a
  · rw [if_pos ha] at hl ⊢
    exact Option.some.inj hl
  · rw [if_neg ha] at hl ⊢
    exact hc hown' a v hp hl

theorem stepReads_mmio {e : MmioEvent} (h : Inv nic s) (hc : Cached s) (he : s.step (.mmio e) = some t) :
    StepReads nic s (.mmio e) t := by
  obtain ⟨ha, m, hm, rfl⟩ := step_mmio he
  rcases trace_step ha hm with ⟨hne, ht, hr⟩ | ⟨a, rfl, rfl⟩ | ⟨a, result, status, rfl, hpc, rfl⟩
  · refine stepReads_same hc ?_ hr (by simpa using hne)
    rw [ht, List.drop_length, List.append_nil]
  · -- a read from the copy
    dsimp only
    rw [List.drop_left]
    refine ⟨fun hown b v hp hl => ?_, fun hown => iff_of_true ((readsOwnWrites_read _ _).mpr ⟨hown, ?_⟩) trivial⟩
    · rw [lastWritten_writes_read] at hl
      exact hc ((readsOwnWrites_read _ _).mp hown).1 b v hp hl
    · intro v hp hl
      rw [hp.mmioReadLocal]
      exact hc hown a v hp hl
  · -- a read that SystemC has answered
    have hfound := h.found
    have hal := h.aligned a (by rw [hpc]; rfl)
    rw [hpc] at hfound
    obtain ⟨rfl, hsent⟩ := hfound
    dsimp only
    rw [List.drop_left, ScBridge.mmioReadFinish, if_neg (not_not.mpr rfl)]
    refine ⟨fun hown b v hp hl => ?_, fun hown => ?_⟩
    · rw [lastWritten_writes_read] at hl
      obtain ⟨hown', hlast⟩ := (readsOwnWrites_read _ _).mp hown
      by_cases hb : b = a
      · subst hb
        exact (if_pos rfl).trans (hlast v hp hl)
      · have hi : b >>> 2 ≠ a >>> 2 := fun he => hb ((shift_inj hp.1 hal).mp he)
        exact (if_neg hi).trans (hc hown' b v hp hl)
    · have hf : Forwarded nic s (.mmio .readReturn) ↔ (Plain a → ∀ v,
          lastWritten a (MmioAccess.writes s.accesses) = some v → forwarded nic s a = v) := by
        rw [Forwarded, hpc]
        rfl
      rw [readsOwnWrites_read, hf, and_iff_right hown]
      constructor
      · intro hlast hp v hl
        rw [← hsent hp]
        exact hlast v hp hl
      · intro hfwd v hp hl
        rw [hsent hp]
        exact hfwd hp v hl

theorem stepReads {e : ConnectionEvent} (h : Inv nic s) (hc : Cached s) (he : s.step e = some t) :
    StepReads nic s e t := by
  cases e with
  | connect | refuse | disconnect =>
    simp only [Connection.step, Option.ite_none_right_eq_some, Option.some.injEq] at he
    obtain ⟨-, rfl⟩ := he
    exact stepReads_same hc rfl rfl (by simp)
  | write addr val => exact stepReads_write hc he
  | unsent =>
    obtain ⟨-, addr, -, rfl⟩ := step_unsent he
    exact stepReads_same hc rfl rfl (by simp)
  | nic w =>
    simp only [Connection.step, Option.some.injEq] at he
    subst he
    exact stepReads_same hc rfl rfl (by simp)
  | mmio e => exact stepReads_mmio h hc he

/-! ## Runs -/

/-- Every read of a plain register returns what was last written to it if and only
if no read that SystemC answers is of a register whose last write was not forwarded
(and is not what the NIC holds by chance). -/
theorem reads_own_writes_iff (msix : Bool) (bridge : PcieBridge) (nic : SmartNic) (mem : GuestMem)
    {es : List ConnectionEvent} (hr : (run step (init msix bridge nic mem) es).isSome) :
    Always step (fun s => ReadsOwnWrites s.accesses) (init msix bridge nic mem) es ↔
      Along step (Forwarded nic) (init msix bridge nic mem) es := by
  refine always_iff_along (I := fun s => Inv nic s ∧ Cached s) ?_ ?_ ⟨inv_init msix bridge nic mem, ?_⟩ ?_ hr
  · intro s e t h he
    exact ⟨h.1.step he, (stepReads h.1 h.2 he).cached⟩
  · intro s e t h hown he
    exact (stepReads h.1 h.2 he).reads hown
  · intro _ addr v _ hl
    simp [lastWritten, init, MmioAccess.writes] at hl
  · intro pre addr value post v hl
    simp [init] at hl

/-- As constructed, not connected. -/
def exampleInit : Connection := init false ⟨true, false, []⟩ .new fun _ => 0

/-- SystemC connects, then `SCRATCH0` is written and read. -/
def forwardedScratch : List ConnectionEvent :=
  [.connect, .write SC_REG_SCRATCH0 5, .mmio (.readBegin SC_REG_SCRATCH0), .mmio .readSend, .mmio .socket,
    .mmio .socket, .mmio .qemu, .mmio .qemu, .mmio .check, .mmio .readReturn]

theorem reads_own_writes_scratch :
    ((run step exampleInit forwardedScratch).map fun s => s.accesses) =
        some [.write SC_REG_SCRATCH0 5, .read SC_REG_SCRATCH0 5] ∧
      (Always step (fun s => ReadsOwnWrites s.accesses) exampleInit forwardedScratch ↔
        Along step (Forwarded .new) exampleInit forwardedScratch) :=
  ⟨by decide +kernel, reads_own_writes_iff false _ .new _ (by decide +kernel)⟩

/-- `SCRATCH0` is written, SystemC connects, and `SCRATCH0` is read. -/
def unforwardedScratch : List ConnectionEvent :=
  [.write SC_REG_SCRATCH0 5, .connect, .mmio (.readBegin SC_REG_SCRATCH0), .mmio .readSend, .mmio .socket,
    .mmio .qemu, .mmio .check, .mmio .readReturn]

/-- It reads as zero. -/
theorem scratch_not_read_back : ¬ ∀ (msix : Bool) (bridge : PcieBridge) (nic : SmartNic) (mem : GuestMem)
    (es : List ConnectionEvent), Always step (fun s => ReadsOwnWrites s.accesses) (init msix bridge nic mem) es := by
  intro h
  have hr : ((run step exampleInit unforwardedScratch).map fun s => s.accesses) =
      some [.write SC_REG_SCRATCH0 5, .read SC_REG_SCRATCH0 0] := by decide +kernel
  obtain ⟨t, ht, ha⟩ := Option.map_eq_some_iff.mp hr
  have hown := h false _ .new _ _ _ (List.prefix_refl _) t ht
  have := hown [.write SC_REG_SCRATCH0 5] SC_REG_SCRATCH0 0 [] 5 ha (by decide) rfl
  exact absurd this (by decide)

end SmartEth.Connection
