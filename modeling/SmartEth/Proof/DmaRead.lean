import SmartEth.System.DmaTransfer

/-!
# A DMA read from end to end

A `dma_read` that returns true got all its bytes from guest memory, in every run,
exactly when no acknowledgement of a `dma_write` is on its way, the length is not
over `DMA_BUF_SIZE`, and `pci_dma_read` succeeds (`end_to_end_iff`). A longer read,
or one that fails on the QEMU side, returns true with what there is
(`long_read_returns`).
-/

namespace SmartEth

theorem isDma_eq_false {m : Msg} : isDma m = false ↔ ∀ k ∈ dmaKinds, m.kind ≠ some k := by
  simp [isDma]

theorem without_singleton {α : Type} {a : α} {m : Msg} (h : isDma m = false) : Without dmaKinds [(a, m)] :=
  fun x hx => by
    rw [List.mem_singleton.mp hx]
    exact isDma_eq_false.mp h

namespace Link

variable {l l' : Link} {pci : PciDma}

/-- The I/O thread handles a message that is not of a DMA call. -/
theorem qemuStepPci_other {x : Nat × Msg} {rest : List (Nat × Msg)} (hq : l.toQemu = x :: rest)
    (hx : isDma x.2 = false) :
    l.qemuStepPci pci = some { l with qemu := (l.qemu.handleMsg l.mem x.2).bridge, toQemu := rest } := by
  have hk := isDma_eq_false.mp hx
  have hr : x.2.kind ≠ some .dmaRead := hk _ (by decide)
  have hw : x.2.kind ≠ some .dmaWrite := hk _ (by decide)
  obtain ⟨num, m⟩ := x
  simp only [qemuStepPci, hq, ScBridge.handleMsgPci_of_not_dma pci l.qemu l.mem hr hw, l.qemu.mem_handleMsg l.mem hw,
    l.qemu.sent_eq_nil l.mem hr hw, List.map_nil, List.append_nil]

/-- The I/O thread serves a `dma_read`. -/
theorem qemuStepPci_read {num : Nat} {addr : Addr} {len : Word} {rest : List (Nat × Msg)}
    (hq : l.toQemu = (num, dmaReadReq addr len) :: rest) : l.qemuStepPci pci = some { l with
      toQemu := rest
      fromQemu := l.fromQemu ++ [(some num, dmaReadResp (pci.read l.mem addr (ScBridge.dmaLen len)))] } := by
  simp only [qemuStepPci, hq, ScBridge.handleMsgPci_dmaReadReq, List.map_cons, List.map_nil]

/-- The socket thread handles a message that is not of a DMA call. -/
theorem recv_other {x : Option Nat × Msg} {rest : List (Option Nat × Msg)} (hq : l.fromQemu = x :: rest)
    (hx : isDma x.2 = false) : ∃ nic count out, l.recv = some { l with
      nic := nic, fromQemu := rest, toQemu := l.toQemu ++ out, count := count } ∧ Without dmaKinds out := by
  have hk := isDma_eq_false.mp hx
  obtain ⟨hb, hs⟩ := l.bridge.handleMessage_of_not_dma l.nic (hk .dmaRead (by decide)) (hk .dmaWrite (by decide))
  obtain ⟨out, ho, he⟩ := foldl_send { l with
    bridge := (l.bridge.handleMessage l.nic x.2).bridge
    nic := (l.bridge.handleMessage l.nic x.2).nic
    fromQemu := rest } (l.bridge.handleMessage l.nic x.2).sent
  simp only [hb] at he
  refine ⟨(l.bridge.handleMessage l.nic x.2).nic, _, out, by simp only [recv, hq, hb, he]; rfl, fun y hy k hk => ?_⟩
  have hm := List.mem_map_of_mem (f := Prod.snd) hy
  rw [ho] at hm
  simp only [dmaKinds, List.mem_cons, List.not_mem_nil, or_false] at hk
  rcases hk with rfl | rfl
  · exact (hs _ hm).1
  · exact (hs _ hm).2

/-- The socket thread handles the answer to a `dma_read`. -/
theorem recv_dmaReadResp {a : Option Nat} {data : List Byte} {rest : List (Option Nat × Msg)}
    (hq : l.fromQemu = (a, dmaReadResp data) :: rest) : l.recv = some { l with
      bridge := { l.bridge with dmaResp := data, dmaPending := false }, fromQemu := rest } := by
  simp only [recv, hq, PcieBridge.handleMessage_dmaReadResp, List.foldl_nil]

theorem sockOpen_event {e : LinkEvent} (he : l.event pci e = some l') : l'.bridge.sockOpen = l.bridge.sockOpen := by
  cases e with
  | qemu =>
    simp only [event, qemuStepPci] at he
    split at he <;> cases he
    rfl
  | socket =>
    simp only [event, recv] at he
    split at he
    · simp at he
    · rename_i a m rest hq
      obtain ⟨out, -, hout⟩ := foldl_send { l with
        bridge := (l.bridge.handleMessage l.nic m).bridge
        nic := (l.bridge.handleMessage l.nic m).nic
        fromQemu := rest } (l.bridge.handleMessage l.nic m).sent
      rw [hout] at he
      cases he
      exact PcieBridge.sockOpen_handleMessage _ _ _
  | guest addr data =>
    cases he
    rfl
  | fromQemu m | toQemu m =>
    simp only [event] at he
    split at he <;> cases he
    rfl

/-- No message of a DMA call is on its way. -/
structure Calm (l : Link) : Prop where
  toQemu : Without dmaKinds l.toQemu
  fromQemu : Without dmaKinds l.fromQemu

theorem isDma_head {α : Type} {x : α × Msg} {q : List (α × Msg)} (h : Without dmaKinds (x :: q)) :
    isDma x.2 = false := isDma_eq_false.mpr fun _ hk => h.head hk

theorem isDma_dmaReadReq (addr : Addr) (len : Word) : isDma (dmaReadReq addr len) = true := by
  simp [isDma, dmaKinds, dmaReadReq]

/-- What the next step of the I/O thread serves. -/
theorem serves_qemu {x : Nat × Msg} {rest : List (Nat × Msg)} (hq : l.toQemu = x :: rest) (m : Msg) :
    l.serves l' m .qemu = if x.2 = m then some (l.mem, l'.mem) else none := by
  simp only [serves, hq]

theorem serves_other {x : Nat × Msg} {rest : List (Nat × Msg)} (hq : l.toQemu = x :: rest) (hx : isDma x.2 = false)
    (addr : Addr) (len : Word) : l.serves l' (dmaReadReq addr len) .qemu = none := by
  rw [serves_qemu hq]
  refine if_neg fun he => ?_
  rw [he, isDma_dmaReadReq] at hx
  cases hx

/-- The steps that are not the I/O thread's or the socket thread's: they append. -/
theorem event_append {e : LinkEvent} (hq : e ≠ .qemu) (hs : e ≠ .socket) (he : l.event pci e = some l') :
    ∃ out out', l'.toQemu = l.toQemu ++ out ∧ l'.fromQemu = l.fromQemu ++ out' ∧ Without dmaKinds out ∧
      Without dmaKinds out' ∧ l'.bridge = l.bridge ∧ ∀ m, l.serves l' m e = none := by
  cases e with
  | qemu => exact absurd rfl hq
  | socket => exact absurd rfl hs
  | guest addr data =>
    cases he
    exact ⟨[], [], (List.append_nil _).symm, (List.append_nil _).symm, .nil, .nil, rfl, fun _ => rfl⟩
  | fromQemu m =>
    simp only [event] at he
    split at he <;> cases he
    rename_i hm
    exact ⟨[], [(none, m)], (List.append_nil _).symm, rfl, .nil, without_singleton (by simpa using hm), rfl,
      fun _ => rfl⟩
  | toQemu m =>
    simp only [event] at he
    split at he <;> cases he
    rename_i hm
    exact ⟨[(l.count, m)], [], rfl, (List.append_nil _).symm, without_singleton (by simpa using hm), .nil, rfl,
      fun _ => rfl⟩

theorem Calm.event {e : LinkEvent} (h : Calm l) (he : l.event pci e = some l') (addr : Addr) (len : Word) :
    Calm l' ∧ l'.bridge = l.bridge ∧ l.serves l' (dmaReadReq addr len) e = none := by
  by_cases hq : e = .qemu
  · subst hq
    cases hto : l.toQemu with
    | nil => simp [Link.event, qemuStepPci, hto] at he
    | cons x rest =>
      have ht := hto ▸ h.toQemu
      obtain rfl := Option.some.inj ((qemuStepPci_other hto (isDma_head ht)).symm.trans he)
      exact ⟨⟨ht.tail, h.fromQemu⟩, rfl, serves_other hto (isDma_head ht) addr len⟩
  by_cases hs : e = .socket
  · subst hs
    cases hfrom : l.fromQemu with
    | nil => simp [Link.event, recv, hfrom] at he
    | cons x rest =>
      have hf := hfrom ▸ h.fromQemu
      obtain ⟨nic, count, out, hr, hout⟩ := recv_other hfrom (isDma_head hf)
      obtain rfl := Option.some.inj (hr.symm.trans he)
      exact ⟨⟨h.toQemu.append hout, hf.tail⟩, rfl, rfl⟩
  obtain ⟨out, out', ht, hf, hout, hout', hb, hserves⟩ := event_append hq hs he
  exact ⟨⟨ht ▸ h.toQemu.append hout, hf ▸ h.fromQemu.append hout'⟩, hb, hserves _⟩

/-- The request of a `dma_read` is the only message of a DMA call. -/
structure Asked (l : Link) (addr : Addr) (len : Word) : Prop where
  toQemu : ∃ pre, Single dmaKinds l.toQemu (dmaReadReq addr len) pre
  fromQemu : Without dmaKinds l.fromQemu

/-- The answer is the only one. -/
structure Answered (l : Link) (data : List Byte) : Prop where
  toQemu : Without dmaKinds l.toQemu
  fromQemu : ∃ pre, Single dmaKinds l.fromQemu (dmaReadResp data) pre

theorem Asked.event {e : LinkEvent} {addr : Addr} {len : Word} (h : Asked l addr len)
    (he : l.event pci e = some l') : l'.bridge = l.bridge ∧
      (Asked l' addr len ∧ l.serves l' (dmaReadReq addr len) e = none ∨
        Answered l' (pci.read l.mem addr (ScBridge.dmaLen len)) ∧
          (l.serves l' (dmaReadReq addr len) e).map (·.1) = some l.mem) := by
  obtain ⟨⟨pre, hreq⟩, hrep⟩ := h
  by_cases hq : e = .qemu
  · subst hq
    cases pre with
    | nil =>
      -- the request is served
      obtain ⟨num, rest, hto, hrest⟩ := hreq.nil
      obtain rfl := Option.some.inj ((qemuStepPci_read hto).symm.trans he)
      refine ⟨rfl, .inr ⟨⟨hrest, _, hrep.single _ _⟩, ?_⟩⟩
      rw [serves_qemu hto, if_pos rfl]
      rfl
    | cons x pre =>
      obtain ⟨rest, hto, hx, hsingle⟩ := hreq.cons
      have hx' := isDma_eq_false.mpr hx
      obtain rfl := Option.some.inj ((qemuStepPci_other hto hx').symm.trans he)
      exact ⟨rfl, .inl ⟨⟨⟨pre, hsingle⟩, hrep⟩, serves_other hto hx' addr len⟩⟩
  by_cases hs : e = .socket
  · subst hs
    cases hfrom : l.fromQemu with
    | nil => simp [Link.event, recv, hfrom] at he
    | cons x rest =>
      have hf := hfrom ▸ hrep
      obtain ⟨nic, count, out, hr, hout⟩ := recv_other hfrom (isDma_head hf)
      obtain rfl := Option.some.inj (hr.symm.trans he)
      exact ⟨rfl, .inl ⟨⟨⟨pre, hreq.append hout⟩, hf.tail⟩, rfl⟩⟩
  obtain ⟨out, out', ht, hf, hout, hout', hb, hserves⟩ := event_append hq hs he
  exact ⟨hb, .inl ⟨⟨⟨pre, ht ▸ hreq.append hout⟩, hf ▸ hrep.append hout'⟩, hserves _⟩⟩

theorem Answered.event {e : LinkEvent} {data : List Byte} (h : Answered l data) (he : l.event pci e = some l')
    (addr : Addr) (len : Word) : l.serves l' (dmaReadReq addr len) e = none ∧
      (Answered l' data ∧ l'.bridge = l.bridge ∨
        Calm l' ∧ l'.bridge = { l.bridge with dmaResp := data, dmaPending := false }) := by
  obtain ⟨hreq, pre, hrep⟩ := h
  by_cases hq : e = .qemu
  · subst hq
    cases hto : l.toQemu with
    | nil => simp [Link.event, qemuStepPci, hto] at he
    | cons x rest =>
      have ht := hto ▸ hreq
      obtain rfl := Option.some.inj ((qemuStepPci_other hto (isDma_head ht)).symm.trans he)
      exact ⟨serves_other hto (isDma_head ht) addr len, .inl ⟨⟨ht.tail, pre, hrep⟩, rfl⟩⟩
  by_cases hs : e = .socket
  · subst hs
    cases pre with
    | nil =>
      obtain ⟨a, rest, hfrom, hrest⟩ := hrep.nil
      obtain rfl := Option.some.inj ((recv_dmaReadResp hfrom).symm.trans he)
      exact ⟨rfl, .inr ⟨⟨hreq, hrest⟩, rfl⟩⟩
    | cons x pre =>
      obtain ⟨rest, hfrom, hx, hsingle⟩ := hrep.cons
      obtain ⟨nic, count, out, hr, hout⟩ := recv_other hfrom (isDma_eq_false.mpr hx)
      obtain rfl := Option.some.inj (hr.symm.trans he)
      exact ⟨rfl, .inl ⟨⟨hreq.append hout, pre, hsingle⟩, rfl⟩⟩
  obtain ⟨out, out', ht, hf, hout, hout', hb, hserves⟩ := event_append hq hs he
  exact ⟨hserves _, .inl ⟨⟨ht ▸ hreq.append hout, pre, hf ▸ hrep.append hout'⟩, hb⟩⟩

end Link

namespace DmaRead

open Link

variable {s t : DmaRead} {pci : PciDma} {addr : Addr} {len : Word}

/-- How far a call has come whose answer is the only thing that completes it. -/
inductive Phase (addr : Addr) (len : Word) (s : DmaRead) : Prop
  | idle (pc : s.pc = .idle) (calm : Calm s.link)
  | begun (pc : s.pc = .begun) (calm : Calm s.link) (pending : s.link.bridge.dmaPending = true)
  | asked (pc : s.pc = .sent) (asked : Asked s.link addr len) (pending : s.link.bridge.dmaPending = true)
  | answered {mem : GuestMem} (pc : s.pc = .sent) (answered : Answered s.link (mem.read addr len.toNat))
      (pending : s.link.bridge.dmaPending = true) (served : s.served = some mem)
  | done {mem : GuestMem} (pc : s.pc = .sent) (calm : Calm s.link) (served : s.served = some mem)
      (resp : s.link.bridge.dmaResp = mem.read addr len.toNat)
  | failed (pc : s.pc = .returned false)
  | returned {mem : GuestMem} (pc : s.pc = .returned true) (calm : Calm s.link) (served : s.served = some mem)
      (buf : s.buf = mem.read addr len.toNat)

structure Inv (addr : Addr) (len : Word) (s : DmaRead) : Prop where
  phase : Phase addr len s
  buf : s.buf.length = len.toNat

theorem Phase.link {e : LinkEvent} {l : Link} (h : Phase addr len s) (hlen : len.toNat ≤ DMA_BUF_SIZE)
    (hok : pci.readOk addr len.toNat = true) (he : s.link.event pci e = some l) : Phase addr len { s with
      link := l
      served := ((s.link.serves l (dmaReadReq addr len) e).map (·.1)).or s.served } := by
  have hread : ∀ mem : GuestMem, pci.read mem addr (ScBridge.dmaLen len) = mem.read addr len.toNat := fun mem => by
    rw [ScBridge.dmaLen, Nat.min_eq_left hlen, PciDma.read, if_pos hok]
  cases h with
  | idle pc calm =>
    obtain ⟨hc, -, hs⟩ := calm.event he addr len
    exact .idle pc hc
  | begun pc calm pending =>
    obtain ⟨hc, hb, hs⟩ := calm.event he addr len
    exact .begun pc hc (hb ▸ pending)
  | asked pc asked pending =>
    obtain ⟨hb, ⟨ha, hs⟩ | ⟨ha, hs⟩⟩ := asked.event he
    · exact .asked pc ha (hb ▸ pending)
    · exact .answered pc (hread s.link.mem ▸ ha) (hb ▸ pending) (by rw [hs]; rfl)
  | answered pc answered pending served =>
    obtain ⟨hs, ⟨ha, hb⟩ | ⟨hc, hb⟩⟩ := answered.event he addr len
    · exact .answered pc ha (hb ▸ pending) (by rw [hs]; exact served)
    · exact .done pc hc (by rw [hs]; exact served) (by rw [hb])
  | done pc calm served resp =>
    obtain ⟨hc, hb, hs⟩ := calm.event he addr len
    exact .done pc hc (by rw [hs]; exact served) (hb ▸ resp)
  | failed pc => exact .failed pc
  | returned pc calm served buf =>
    obtain ⟨hc, hb, hs⟩ := calm.event he addr len
    exact .returned pc hc (by rw [hs]; exact served) buf

theorem Phase.of_idle (h : Phase addr len s) (hpc : s.pc = .idle) : Calm s.link := by
  cases h with
  | idle _ calm => exact calm
  | begun pc _ _ | asked pc _ _ => cases hpc.symm.trans pc
  | answered pc _ _ _ | done pc _ _ _ | returned pc _ _ _ => cases hpc.symm.trans pc
  | failed pc => cases hpc.symm.trans pc

theorem Phase.of_begun (h : Phase addr len s) (hpc : s.pc = .begun) :
    Calm s.link ∧ s.link.bridge.dmaPending = true := by
  cases h with
  | begun _ calm pending => exact ⟨calm, pending⟩
  | idle pc _ => cases hpc.symm.trans pc
  | asked pc _ _ => cases hpc.symm.trans pc
  | answered pc _ _ _ | done pc _ _ _ | returned pc _ _ _ => cases hpc.symm.trans pc
  | failed pc => cases hpc.symm.trans pc

/-- The call is completed only by the answer to its request. -/
theorem Phase.of_sent (h : Phase addr len s) (hpc : s.pc = .sent) (hpend : s.link.bridge.dmaPending = false) :
    ∃ mem, Calm s.link ∧ s.served = some mem ∧ s.link.bridge.dmaResp = mem.read addr len.toNat := by
  cases h with
  | done _ calm served resp => exact ⟨_, calm, served, resp⟩
  | asked _ _ pending => cases hpend.symm.trans pending
  | answered _ _ pending _ => cases hpend.symm.trans pending
  | idle pc _ => cases hpc.symm.trans pc
  | begun pc _ _ => cases hpc.symm.trans pc
  | returned pc _ _ _ => cases hpc.symm.trans pc
  | failed pc => cases hpc.symm.trans pc

theorem Inv.step {e : DmaReadEvent} (h : Inv addr len s) (hlen : len.toNat ≤ DMA_BUF_SIZE)
    (hok : pci.readOk addr len.toNat = true) (he : s.step pci addr len e = some t) : Inv addr len t := by
  obtain ⟨hp, hbuf⟩ := h
  cases e with
  | call =>
    simp only [DmaRead.step] at he
    split at he
    · rename_i hpc
      have hc := hp.of_idle hpc
      split at he <;> cases he
      · exact ⟨.begun rfl ⟨hc.toQemu, hc.fromQemu⟩ rfl, hbuf⟩
      · exact ⟨.failed rfl, hbuf⟩
    · simp at he
  | send ok =>
    simp only [DmaRead.step] at he
    split at he
    · rename_i hpc
      obtain ⟨hc, hpend⟩ := hp.of_begun hpc
      split at he <;> cases he
      · exact ⟨.asked rfl ⟨⟨_, hc.toQemu.single _ _⟩, hc.fromQemu⟩ hpend, hbuf⟩
      · exact ⟨.failed rfl, hbuf⟩
    · simp at he
  | finish =>
    simp only [DmaRead.step] at he
    split at he
    · rename_i hpc
      rw [Option.ite_none_left_eq_some, Option.some.injEq] at he
      obtain ⟨hpend, rfl⟩ := he
      obtain ⟨mem, hc, hserved, hresp⟩ := hp.of_sent hpc (by simpa using hpend)
      have hall : s.link.bridge.dmaReadResult len = mem.read addr len.toNat := by
        rw [PcieBridge.dmaReadResult, hresp, List.take_of_length_le (Mem.length_read _ _ _).le]
      have hlength : (s.link.bridge.dmaReadResult len).length = s.buf.length := by
        rw [hall, hbuf, Mem.length_read]
      exact ⟨.returned rfl hc hserved ((overlay_eq hlength).trans hall), (length_overlay _ _).trans hbuf⟩
    · simp at he
  | timeout =>
    simp only [DmaRead.step] at he
    split at he
    · rw [Option.ite_none_right_eq_some, Option.some.injEq] at he
      obtain ⟨-, rfl⟩ := he
      exact ⟨.failed rfl, hbuf⟩
    · simp at he
  | link e =>
    obtain ⟨l, hl, rfl⟩ := Option.map_eq_some_iff.mp he
    exact ⟨hp.link hlen hok hl, hbuf⟩

/-- No `dma_write` on its way is unacknowledged, and no acknowledgement is on its
way. -/
def NoAck (s : DmaRead) : Prop := Without [.dmaWrite] s.link.toQemu ∧ Without [.dmaWrite] s.link.fromQemu

theorem without_dmaKinds {α : Type} {q : List (α × Msg)} (hr : Without [.dmaRead] q) (hw : Without [.dmaWrite] q) :
    Without dmaKinds q := fun x hx k hk => by
  simp only [dmaKinds, List.mem_cons, List.not_mem_nil, or_false] at hk
  rcases hk with rfl | rfl
  · exact hr x hx _ (List.mem_singleton_self _)
  · exact hw x hx _ (List.mem_singleton_self _)

theorem Start.inv (h0 : Start len s) (hack : NoAck s) : Inv addr len s :=
  ⟨.idle h0.pc ⟨without_dmaKinds h0.toQemu hack.1, without_dmaKinds h0.fromQemu hack.2⟩, h0.buf⟩

/-- A `dma_read` that nothing else completes, and that QEMU can serve, returns true
only with all its bytes. -/
theorem inFull_of_run {es : List DmaReadEvent} (h0 : Start len s) (hack : NoAck s) (hlen : len.toNat ≤ DMA_BUF_SIZE)
    (hok : pci.readOk addr len.toNat = true) (h : run (step pci addr len) s es = some t)
    (ht : t.pc = .returned true) : InFull pci addr len t := by
  have hi : Inv addr len t := run_inv (fun _ _ _ hi he => Inv.step hi hlen hok he) (h0.inv hack) h
  cases hi.phase with
  | @returned mem _ _ served buf => exact ⟨mem, served, hlen, hok, buf⟩
  | idle pc _ => cases ht.symm.trans pc
  | begun pc _ _ | asked pc _ _ => cases ht.symm.trans pc
  | answered pc _ _ _ | done pc _ _ _ => cases ht.symm.trans pc
  | failed pc => cases ht.symm.trans pc

/-! ## Runs that fall short -/

variable (pci addr len)

/-- The I/O thread handles a message that is not a `dma_read`; a `dma_write` it
acknowledges. -/
theorem qemu_step {x : Nat × Msg} {rest : List (Nat × Msg)} (hq : s.link.toQemu = x :: rest)
    (hx : x.2.kind ≠ some .dmaRead) : ∃ t, step pci addr len s (.link .qemu) = some t ∧ t.link.toQemu = rest ∧
      t.pc = s.pc ∧ t.served = s.served ∧ (∃ out, t.link.fromQemu = s.link.fromQemu ++ out) ∧
      (x.2.kind = some .dmaWrite → 12 ≤ x.2.payload.length → ∃ y ∈ t.link.fromQemu, isDma y.2 = true) := by
  obtain ⟨num, m⟩ := x
  have hne : m ≠ dmaReadReq addr len := fun he => hx (he ▸ kind_makeMsg _ _)
  refine ⟨{ s with link := { s.link with
    qemu := (s.link.qemu.handleMsgPci pci s.link.mem m).bridge
    mem := (s.link.qemu.handleMsgPci pci s.link.mem m).mem
    toQemu := rest
    fromQemu := s.link.fromQemu ++ (s.link.qemu.handleMsgPci pci s.link.mem m).sent.map (some num, ·) } },
    ?_, rfl, rfl, rfl, ⟨_, rfl⟩, fun hk hl => ?_⟩
  · simp only [step, Link.event, Link.qemuStepPci, hq, Option.map_some, Link.serves, hne, if_false, Option.map_none,
      Option.none_or]
  · refine ⟨(some num, statusMsg .dmaWrite), List.mem_append_right _ ?_, by simp [isDma, dmaKinds, statusMsg]⟩
    have hl' : ¬ m.payload.length < 12 := Nat.not_lt.mpr hl
    simp only [ScBridge.handleMsgPci, show m.kind = some .dmaWrite from hk, hl', if_false, List.map_cons,
      List.map_nil, List.mem_singleton]

/-- The I/O thread serves the request. -/
theorem serve_step {num : Nat} {rest : List (Nat × Msg)} (hq : s.link.toQemu = (num, dmaReadReq addr len) :: rest) :
    ∃ t, step pci addr len s (.link .qemu) = some t ∧ t.pc = s.pc ∧ t.link.fromQemu =
      s.link.fromQemu ++ [(some num, dmaReadResp (pci.read s.link.mem addr (ScBridge.dmaLen len)))] := by
  refine ⟨{ s with
    link := { s.link with
      toQemu := rest
      fromQemu := s.link.fromQemu ++ [(some num, dmaReadResp (pci.read s.link.mem addr (ScBridge.dmaLen len)))] }
    served := some s.link.mem }, ?_, rfl, rfl⟩
  simp only [step, Link.event, Link.qemuStepPci_read hq, Option.map_some, Link.serves, hq, if_true, Option.some_or]

/-- The I/O thread handles all the messages before a request. -/
theorem run_qemu {pre rest : List (Nat × Msg)} (hq : s.link.toQemu = pre ++ rest) (hpre : Without [.dmaRead] pre) :
    ∃ es t, run (step pci addr len) s es = some t ∧ t.link.toQemu = rest ∧ t.pc = s.pc ∧ t.served = s.served ∧
      (∃ out, t.link.fromQemu = s.link.fromQemu ++ out) ∧
      ((∃ x ∈ pre, x.2.kind = some .dmaWrite ∧ 12 ≤ x.2.payload.length) →
        ∃ y ∈ t.link.fromQemu, isDma y.2 = true) := by
  induction pre generalizing s with
  | nil =>
    refine ⟨[], s, rfl, hq, rfl, rfl, ⟨[], (List.append_nil _).symm⟩, ?_⟩
    rintro ⟨x, hx, -⟩
    cases hx
  | cons x pre ih =>
    obtain ⟨u, hu, hto, hpc, hserved, ⟨out, hout⟩, hack⟩ :=
      qemu_step pci addr len hq (hpre.head (List.mem_singleton_self _))
    obtain ⟨es, t, ht, hto', hpc', hserved', ⟨out', hout'⟩, hack'⟩ := ih hto hpre.tail
    refine ⟨_, t, run_cons_some.mpr ⟨u, hu, ht⟩, hto', hpc'.trans hpc, hserved'.trans hserved, ⟨out ++ out', ?_⟩, ?_⟩
    · rw [hout', hout, List.append_assoc]
    · rintro ⟨y, hy, hk, hl⟩
      rcases List.mem_cons.mp hy with rfl | hy
      · obtain ⟨z, hz, hd⟩ := hack hk hl
        exact ⟨z, hout' ▸ List.mem_append_left _ hz, hd⟩
      · exact hack' ⟨y, hy, hk, hl⟩

/-- The socket thread handles a message; one of a DMA call completes the call. -/
theorem socket_step {x : Option Nat × Msg} {rest : List (Option Nat × Msg)} (hq : s.link.fromQemu = x :: rest) :
    ∃ t, step pci addr len s (.link .socket) = some t ∧ t.link.fromQemu = rest ∧ t.pc = s.pc ∧
      t.served = s.served ∧ (isDma x.2 = true → t.link.bridge.dmaPending = false) := by
  obtain ⟨out, -, he⟩ := Link.foldl_send { s.link with
    bridge := (s.link.bridge.handleMessage s.link.nic x.2).bridge
    nic := (s.link.bridge.handleMessage s.link.nic x.2).nic
    fromQemu := rest } (s.link.bridge.handleMessage s.link.nic x.2).sent
  refine ⟨{ s with link := { s.link with
    bridge := (s.link.bridge.handleMessage s.link.nic x.2).bridge
    nic := (s.link.bridge.handleMessage s.link.nic x.2).nic
    fromQemu := rest
    toQemu := s.link.toQemu ++ out
    count := s.link.count + (s.link.bridge.handleMessage s.link.nic x.2).sent.length } }, ?_, rfl, rfl, rfl,
    fun hd => ?_⟩
  · simp only [step, Link.event, Link.recv, hq, he, Option.map_some, Link.serves, Option.map_none, Option.none_or]
  simp only [isDma, dmaKinds, List.any_cons, List.any_nil, Bool.or_false, Bool.or_eq_true, decide_eq_true_eq] at hd
  rcases hd with hk | hk <;> simp only [PcieBridge.handleMessage, hk]

/-- A call that waits, with a message of a DMA call on its way, returns true. -/
theorem run_finish (hpc : s.pc = .sent) (hd : ∃ y ∈ s.link.fromQemu, isDma y.2 = true) :
    ∃ es t, run (step pci addr len) s es = some t ∧ t.pc = .returned true ∧ t.served = s.served := by
  obtain ⟨y, hy, hd⟩ := hd
  generalize hq : s.link.fromQemu = q at hy
  induction q generalizing s with
  | nil => cases hy
  | cons x rest ih =>
    obtain ⟨u, hu, hfrom, hpc', hserved, hclear⟩ := socket_step pci addr len hq
    by_cases hx : isDma x.2 = true
    · refine ⟨[.link .socket, .finish], { u with
        buf := overlay u.buf (u.link.bridge.dmaReadResult len), pc := .returned true }, ?_, rfl, hserved⟩
      refine run_cons_some.mpr ⟨u, hu, run_cons_some.mpr ⟨_, ?_, rfl⟩⟩
      simp only [step, hpc'.trans hpc, hclear hx, Bool.false_eq_true, if_false]
    · have hy' : y ∈ rest := by
        rcases List.mem_cons.mp hy with rfl | hy
        · exact absurd hd hx
        · exact hy
      obtain ⟨es, t, ht, hret, hserved'⟩ := ih (hpc'.trans hpc) hfrom hy'
      exact ⟨_, t, run_cons_some.mpr ⟨u, hu, ht⟩, hret, hserved'.trans hserved⟩

/-- The call sends its request, and the I/O thread comes to it. -/
theorem run_sent (h0 : Start len s) : ∃ es t num, run (step pci addr len) s es = some t ∧
    t.link.toQemu = [(num, dmaReadReq addr len)] ∧ t.pc = .sent ∧ t.served = none ∧
      (¬ NoAck s → ∃ y ∈ t.link.fromQemu, isDma y.2 = true) := by
  let u : DmaRead := { s with
    link := { s.link with bridge := s.link.bridge.dmaReadBegin }.send (dmaReadReq addr len), pc := .sent }
  have hcall : run (step pci addr len) s [.call, .send true] = some u := by
    simp only [run, step, h0.pc, h0.sockOpen, if_true, Option.bind_some]
    rfl
  have hu : u.link.toQemu = s.link.toQemu ++ [(s.link.count, dmaReadReq addr len)] := rfl
  obtain ⟨es, t, ht, hto, hpc, hserved, ⟨out, hout⟩, hack⟩ := run_qemu pci addr len hu h0.toQemu
  refine ⟨_, t, _, run_append_some hcall ht, hto, hpc, hserved.trans h0.served, fun hn => ?_⟩
  rw [NoAck, not_and_or] at hn
  rcases hn with hn | hn
  · obtain ⟨x, hx, hk⟩ : ∃ x ∈ s.link.toQemu, x.2.kind = some .dmaWrite := by
      simpa [Without] using hn
    exact hack ⟨x, hx, hk, h0.whole x hx hk⟩
  · obtain ⟨y, hy, hk⟩ : ∃ y ∈ s.link.fromQemu, y.2.kind = some .dmaWrite := by
      simpa [Without] using hn
    exact ⟨y, hout ▸ List.mem_append_left _ hy, by simp [isDma, dmaKinds, hk]⟩

/-- A `dma_read` returns true, in every run, only with all its bytes from guest
memory, if and only if nothing else completes it, its length is not over
`DMA_BUF_SIZE`, and `pci_dma_read` succeeds. -/
theorem end_to_end_iff (h0 : Start len s) :
    (∀ es t, run (step pci addr len) s es = some t → t.pc = .returned true → InFull pci addr len t) ↔
      NoAck s ∧ len.toNat ≤ DMA_BUF_SIZE ∧ pci.readOk addr len.toNat = true := by
  constructor
  · intro h
    obtain ⟨es, u, num, hu, hto, hpc, hserved, hack⟩ := run_sent pci addr len h0
    -- were an acknowledgement on its way, the call would return before it is served
    have hno : NoAck s := by
      by_contra hn
      obtain ⟨es', t, ht, hret, hs⟩ := run_finish pci addr len hpc (hack hn)
      obtain ⟨mem, hm, -⟩ := h _ t (run_append_some hu ht) hret
      rw [hs, hserved] at hm
      cases hm
    -- otherwise it is served, and returns
    obtain ⟨v, hv, hvpc, hfrom⟩ := serve_step pci addr len hto
    have hd : ∃ y ∈ v.link.fromQemu, isDma y.2 = true :=
      ⟨_, hfrom ▸ List.mem_append_right _ (List.mem_singleton_self _), by simp [isDma, dmaKinds, dmaReadResp]⟩
    obtain ⟨es', t, ht, hret, -⟩ := run_finish pci addr len (hvpc.trans hpc) hd
    obtain ⟨mem, -, hlen, hok, -⟩ := h _ t (run_append_some hu (run_cons_some.mpr ⟨v, hv, ht⟩)) hret
    exact ⟨hno, hlen, hok⟩
  · rintro ⟨hack, hlen, hok⟩ es t hr ht
    exact inFull_of_run h0 hack hlen hok hr ht

/-- Connected, nothing on its way, and zeros in the buffer. -/
def exampleStart (len : Word) : DmaRead where
  link := {
    bridge := ⟨true, false, []⟩
    nic := .new
    qemu := ⟨true, true, false, 0, 0, ScBridge.resetRegs⟩
    mem := fun _ => 0xff
    toQemu := []
    fromQemu := []
    count := 0 }
  pc := .idle
  buf := List.replicate len.toNat 0
  served := none

theorem exampleStart_start (len : Word) : Start len (exampleStart len) :=
  ⟨rfl, rfl, List.length_replicate, rfl, .nil, .nil, fun x hx => (by cases hx)⟩

def exampleEvents : List DmaReadEvent := [.call, .send true, .link .qemu, .link .socket, .finish]

theorem end_to_end_four : ∃ t, run (step .exact 0x1000 4) (exampleStart 4) exampleEvents = some t ∧
    t.pc = .returned true ∧ InFull .exact 0x1000 4 t := by
  have hr : ((run (step .exact 0x1000 4) (exampleStart 4) exampleEvents).map fun t => t.pc) =
      some (.returned true) := by decide +kernel
  obtain ⟨t, ht, hpc⟩ := Option.map_eq_some_iff.mp hr
  have hfull := (end_to_end_iff .exact 0x1000 4 (exampleStart_start 4)).mpr ⟨⟨.nil, .nil⟩, by decide, rfl⟩
  exact ⟨t, ht, hpc, hfull _ t ht hpc⟩

/-- A read of 4097 bytes returns true, the last byte of its buffer as it was. -/
theorem long_read_returns : ∃ t, run (step .exact 0x1000 4097) (exampleStart 4097) exampleEvents = some t ∧
    t.pc = .returned true ∧ t.buf[4096]? = some 0 ∧ t.link.mem (0x1000 + 4096) = 0xff ∧
      ¬ InFull .exact 0x1000 4097 t := by
  have hr : ((run (step .exact 0x1000 4097) (exampleStart 4097) exampleEvents).map fun t =>
      (t.pc, t.buf[4096]?, t.link.mem (0x1000 + 4096))) = some (.returned true, some 0, 0xff) := by decide +kernel
  obtain ⟨t, ht, he⟩ := Option.map_eq_some_iff.mp hr
  rw [Prod.mk.injEq, Prod.mk.injEq] at he
  refine ⟨t, ht, he.1, he.2.1, he.2.2, ?_⟩
  rintro ⟨mem, -, hlen, -⟩
  exact absurd hlen (by decide)

end DmaRead

end SmartEth
