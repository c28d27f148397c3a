import SmartEth.System.MmioOrder

/-!
# Program order through the bridge

A read's request is behind all the writes before it, and the vCPU sends nothing
while it waits, so the read is handled when exactly these writes have been
(`Changes`). Where the read is on its way is its `Flight`: its request or its
answer is the only register read in the queues, and nothing else ends the wait.
From both, what a read returns is in program order (`program_order`).
-/

namespace SmartEth.MmioOrder

open PcieBridge NicChange

variable {s t : MmioOrder} {P : Addr → Word → Prop}

/-! ## Writes on their way -/

/-- The write that a message asks for. -/
def writeOf (m : Msg) : Option (Addr × Word) :=
  if m.kind = some .mmioWrite then some (ofLeBytes 64 m.payload, ofLeBytes 32 (m.payload.drop 8)) else none

theorem writeOf_mmioWriteMsg (addr : Addr) (data : Word) : writeOf (mmioWriteMsg addr data) = some (addr, data) := by
  have ha : ofLeBytes 64 (leBytes addr ++ leBytes data) = addr := ofLeBytes_leBytes (by decide) _ _
  have hd : ofLeBytes 32 (leBytes data) = data := by
    have h := ofLeBytes_leBytes (w := 32) (by decide) data []
    rwa [List.append_nil] at h
  rw [writeOf, mmioWriteMsg, if_pos (kind_makeMsg _ _), payload_makeMsg, ha,
    List.drop_left' (length_leBytes addr), hd]

theorem writeOf_of_kind {m : Msg} (h : m.kind ≠ some .mmioWrite) : writeOf m = none := if_neg h

/-- The writes on their way to SystemC. -/
def queued (q : List (Option Nat × Msg)) : List (Addr × Word) := q.filterMap fun x => writeOf x.2

theorem queued_append (q q' : List (Option Nat × Msg)) : queued (q ++ q') = queued q ++ queued q' :=
  List.filterMap_append

theorem queued_cons_none {x : Option Nat × Msg} {q : List (Option Nat × Msg)} (h : writeOf x.2 = none) :
    queued (x :: q) = queued q := List.filterMap_cons_none h

theorem queued_cons_some {x : Option Nat × Msg} {q : List (Option Nat × Msg)} {w : Addr × Word}
    (h : writeOf x.2 = some w) : queued (x :: q) = w :: queued q := List.filterMap_cons_some h

/-- No answer to a register read. -/
abbrev NoAnswer (q : List (Nat × Msg)) : Prop := Without [.mmioRead] q

/-- No register read, and no reset. -/
abbrev NoRead (q : List (Option Nat × Msg)) : Prop := Without [.mmioRead, .bridgeReset] q

/-! ## Steps of the I/O thread and the socket thread -/

/-- The I/O thread handles a message that is not the answer to a register read:
the bridge does not change, and only answers to DMA requests are sent. -/
theorem qemu_other {x : Nat × Msg} {rest : List (Nat × Msg)} (hq : s.link.toQemu = x :: rest)
    (hx : x.2.kind ≠ some .mmioRead) : ∃ mem out, step s .qemu = some { s with
      link := { s.link with mem := mem, toQemu := rest, fromQemu := s.link.fromQemu ++ out } } ∧
      NoRead out ∧ queued out = [] := by
  obtain ⟨num, m⟩ := x
  obtain ⟨hb, hs⟩ := s.link.qemu.handleMsg_of_not_read s.link.mem hx
  let out : List (Option Nat × Msg) := (s.link.qemu.handleMsg s.link.mem m).sent.map (some num, ·)
  have hkind : ∀ y ∈ out, y.2.kind = some .dmaRead ∨ y.2.kind = some .dmaWrite := by
    rintro y hy
    obtain ⟨r, hr, rfl⟩ := List.mem_map.mp hy
    exact ScBridge.kind_sent _ _ hr
  refine ⟨(s.link.qemu.handleMsg s.link.mem m).mem, out, ?_, fun y hy k hk => ?_, ?_⟩
  · simp only [step, Link.qemuStep, hq, hb, hs, Option.map_some, Bool.false_eq_true, if_false]
    rfl
  · rcases hkind y hy with h | h <;> rw [h] <;> rintro ⟨⟩ <;> simp at hk
  · refine List.filterMap_eq_nil_iff.mpr fun y hy => writeOf_of_kind fun hk => ?_
    rcases hkind y hy with h | h <;> rw [h] at hk <;> cases hk

/-- The I/O thread handles the answer to a register read. -/
theorem qemu_answer {num : Nat} {value : Word} {rest : List (Nat × Msg)}
    (hq : s.link.toQemu = (num, mmioReadResp value) :: rest) : step s .qemu = some { s with
      link := { s.link with
        qemu := { s.link.qemu with
          mmioRespData := value
          mmioRespStatus := PcieStatus.ok.code
          mmioPending := false }
        toQemu := rest }
      pc := s.pc.rouse } := by
  simp only [step, Link.qemuStep, hq, ScBridge.handleMsg_mmioReadResp, Option.map_some, if_true, List.map_nil,
    List.append_nil]

/-- The NIC after a message that is not a reset. -/
theorem handleMessage_nic (b : PcieBridge) (nic : SmartNic) {m : Msg} (h : m.kind ≠ some .bridgeReset) :
    (b.handleMessage nic m).nic = (writeOf m).elim nic fun w => (nic.onMmioWrite w.1 w.2).1 := by
  unfold handleMessage writeOf
  split <;> rename_i hk <;> simp_all

/-- The socket thread handles a message that is not a reset. -/
theorem socket_cons {x : Option Nat × Msg} {rest : List (Option Nat × Msg)} (hq : s.link.fromQemu = x :: rest)
    (hr : x.2.kind ≠ some .bridgeReset) : ∃ bridge count out, step s .socket = some { s with link := { s.link with
      bridge := bridge
      nic := (writeOf x.2).elim s.link.nic fun w => (s.link.nic.onMmioWrite w.1 w.2).1
      fromQemu := rest
      toQemu := s.link.toQemu ++ out
      count := count } } ∧ out.map Prod.snd = (s.link.bridge.handleMessage s.link.nic x.2).sent := by
  obtain ⟨out, ho, he⟩ := Link.foldl_send { s.link with
    bridge := (s.link.bridge.handleMessage s.link.nic x.2).bridge
    nic := (s.link.bridge.handleMessage s.link.nic x.2).nic
    fromQemu := rest } (s.link.bridge.handleMessage s.link.nic x.2).sent
  simp only [handleMessage_nic _ _ hr] at he
  refine ⟨(s.link.bridge.handleMessage s.link.nic x.2).bridge,
    s.link.count + (s.link.bridge.handleMessage s.link.nic x.2).sent.length, out, ?_, ho⟩
  simp only [step, Link.recv, hq, he, handleMessage_nic _ _ hr, Option.map_some]

/-- The socket thread handles a message that is not a register read. -/
theorem socket_other {x : Option Nat × Msg} {rest : List (Option Nat × Msg)} (hq : s.link.fromQemu = x :: rest)
    (hx : x.2.kind ≠ some .mmioRead) (hr : x.2.kind ≠ some .bridgeReset) :
    ∃ bridge count nic out, step s .socket = some { s with link := { s.link with
      bridge := bridge
      nic := nic
      fromQemu := rest
      toQemu := s.link.toQemu ++ out
      count := count } } ∧ NoAnswer out := by
  obtain ⟨bridge, count, out, ht, ho⟩ := socket_cons hq hr
  refine ⟨_, _, _, out, ht, fun y hy k hk => ?_⟩
  have hm := List.mem_map_of_mem (f := Prod.snd) hy
  rw [ho] at hm
  rw [List.mem_singleton.mp hk]
  exact kind_sent_ne _ _ hx hm

/-- The socket thread handles a register read. -/
theorem socket_read {x : Option Nat} {addr : Addr} {rest : List (Option Nat × Msg)}
    (hq : s.link.fromQemu = (x, mmioReadReq addr) :: rest) : step s .socket = some { s with link := { s.link with
      fromQemu := rest
      toQemu := s.link.toQemu ++ [(s.link.count, mmioReadResp (s.link.nic.onMmioRead addr))]
      count := s.link.count + 1 } } := by
  simp only [step, Link.recv, hq, handleMessage_mmioReadReq, List.foldl_cons, List.foldl_nil, Link.send,
    Option.map_some]

/-! ## A read on its way -/

/-- The vCPU waits for the answer to its read. -/
structure Waiting (s : MmioOrder) (addr : Addr) : Prop where
  pc : s.pc = .sent addr ∨ s.pc = .asleep addr
  pending : s.link.qemu.mmioPending = true

/-- The request is on its way, behind `pre`. -/
structure Asked (s : MmioOrder) (addr : Addr) (pre : List (Option Nat × Msg)) : Prop where
  waiting : Waiting s addr
  req : ∃ post, s.link.fromQemu = pre ++ (none, mmioReadReq addr) :: post ∧ NoRead post ∧ queued post = []
  pre : NoRead pre
  rep : NoAnswer s.link.toQemu

/-- The answer is on its way, behind `pre`. -/
structure Answered (s : MmioOrder) (addr : Addr) (value : Word) (pre : List (Nat × Msg)) : Prop where
  waiting : Waiting s addr
  req : NoRead s.link.fromQemu
  rep : ∃ num post, s.link.toQemu = pre ++ (num, mmioReadResp value) :: post ∧ NoAnswer post
  pre : NoAnswer pre

/-- No read is on its way. -/
structure Quiet (s : MmioOrder) : Prop where
  req : NoRead s.link.fromQemu
  rep : NoAnswer s.link.toQemu

/-- The answer has come. -/
structure Come (s : MmioOrder) (addr : Addr) (value : Word) : Prop where
  pc : s.pc = .sent addr
  quiet : Quiet s
  pending : s.link.qemu.mmioPending = false
  data : s.link.qemu.mmioRespData = value
  status : s.link.qemu.mmioRespStatus = PcieStatus.ok.code

/-- Where the read is, with a property `P` of the value it was answered with. -/
inductive Flight (P : Addr → Word → Prop) (s : MmioOrder) : Prop
  | idle (pc : s.pc = .idle) (quiet : Quiet s)
  | pending {addr : Addr} (pc : s.pc = .pending addr) (quiet : Quiet s) (pending : s.link.qemu.mmioPending = true)
  | asked {addr : Addr} {pre : List (Option Nat × Msg)} (asked : Asked s addr pre)
  | answered {addr : Addr} {value : Word} {pre : List (Nat × Msg)} (answered : Answered s addr value pre)
      (value : P addr value)
  | come {addr : Addr} {value : Word} (come : Come s addr value) (value : P addr value)
  | got {addr : Addr} {value : Word} (pc : s.pc = .got addr value PcieStatus.ok.code) (quiet : Quiet s)
      (value : P addr value)

theorem Flight.mono {Q : Addr → Word → Prop} (h : Flight P s) (hPQ : ∀ addr value, P addr value → Q addr value) :
    Flight Q s := by
  cases h with
  | idle pc quiet => exact .idle pc quiet
  | pending pc quiet pending => exact .pending pc quiet pending
  | asked asked => exact .asked asked
  | answered answered value => exact .answered answered (hPQ _ _ value)
  | come come value => exact .come come (hPQ _ _ value)
  | got pc quiet value => exact .got pc quiet (hPQ _ _ value)

section

variable {out : List (Nat × Msg)} {out' : List (Option Nat × Msg)} {addr : Addr} {value : Word}

/-- What a step may put at the ends of the queues: nothing that belongs to a read
or a write. -/
structure Appends (s t : MmioOrder) (out : List (Nat × Msg)) (out' : List (Option Nat × Msg)) : Prop where
  pc : t.pc = s.pc
  qemu : t.link.qemu = s.link.qemu
  toQemu : t.link.toQemu = s.link.toQemu ++ out
  fromQemu : t.link.fromQemu = s.link.fromQemu ++ out'
  noAnswer : NoAnswer out
  noRead : NoRead out'
  noWrite : queued out' = []

theorem Appends.quiet (h : Appends s t out out') (q : Quiet s) : Quiet t :=
  ⟨h.fromQemu ▸ q.req.append h.noRead, h.toQemu ▸ q.rep.append h.noAnswer⟩

theorem Appends.waiting (h : Appends s t out out') (w : Waiting s addr) : Waiting t addr :=
  ⟨h.pc ▸ w.pc, h.qemu ▸ w.pending⟩

theorem Appends.asked {pre : List (Option Nat × Msg)} (h : Appends s t out out') (ha : Asked s addr pre) :
    Asked t addr pre := by
  obtain ⟨waiting, ⟨post, hreq, hpost, hq⟩, hpre, rep⟩ := ha
  refine ⟨h.waiting waiting, ⟨post ++ out', ?_, hpost.append h.noRead, ?_⟩, hpre, h.toQemu ▸ rep.append h.noAnswer⟩
  · rw [h.fromQemu, hreq, List.append_assoc, List.cons_append]
  · rw [queued_append, hq, h.noWrite, List.append_nil]

theorem Appends.answered {pre : List (Nat × Msg)} (h : Appends s t out out') (ha : Answered s addr value pre) :
    Answered t addr value pre := by
  obtain ⟨waiting, req, ⟨num, post, hrep, hpost⟩, hpre⟩ := ha
  refine ⟨h.waiting waiting, h.fromQemu ▸ req.append h.noRead, ⟨num, post ++ out, ?_, hpost.append h.noAnswer⟩, hpre⟩
  rw [h.toQemu, hrep, List.append_assoc, List.cons_append]

theorem Appends.flight (h : Appends s t out out') (hf : Flight P s) : Flight P t := by
  cases hf with
  | idle pc quiet => exact .idle (h.pc.trans pc) (h.quiet quiet)
  | pending pc quiet pending => exact .pending (h.pc.trans pc) (h.quiet quiet) (h.qemu ▸ pending)
  | asked asked => exact .asked (h.asked asked)
  | answered answered value => exact .answered (h.answered answered) value
  | come come value =>
    obtain ⟨pc, quiet, pending, data, status⟩ := come
    exact .come ⟨h.pc.trans pc, h.quiet quiet, h.qemu ▸ pending, h.qemu ▸ data, h.qemu ▸ status⟩ value
  | got pc quiet value => exact .got (h.pc.trans pc) (h.quiet quiet) value

theorem appends_nil (hpc : t.pc = s.pc) (hqemu : t.link.qemu = s.link.qemu) (hto : t.link.toQemu = s.link.toQemu)
    (hfrom : t.link.fromQemu = s.link.fromQemu) : Appends s t [] [] :=
  ⟨hpc, hqemu, hto.trans (List.append_nil _).symm, hfrom.trans (List.append_nil _).symm, fun x hx => (by cases hx),
    fun x hx => (by cases hx), rfl⟩

end

theorem Asked.socket_cons {addr : Addr} {x : Option Nat × Msg} {pre : List (Option Nat × Msg)}
    (h : Asked s addr (x :: pre)) : ∃ t, step s .socket = some t ∧ Asked t addr pre := by
  obtain ⟨waiting, ⟨post, hreq, hpost, hq⟩, hpre, rep⟩ := h
  obtain ⟨bridge, count, nic, out, ht, hout⟩ := socket_other hreq (hpre.head (by decide)) (hpre.head (by decide))
  exact ⟨_, ht, ⟨waiting.pc, waiting.pending⟩, ⟨post, rfl, hpost, hq⟩, hpre.tail, rep.append hout⟩

/-- The request is handled: by then, no write is on its way. -/
theorem Asked.socket_nil {addr : Addr} (h : Asked s addr []) : ∃ t pre, step s .socket = some t ∧
    Answered t addr (s.link.nic.onMmioRead addr) pre ∧ s.Handles addr ∧ queued s.link.fromQemu = [] := by
  obtain ⟨waiting, ⟨post, hreq, hpost, hq⟩, -, rep⟩ := h
  have hw : writeOf (mmioReadReq addr) = none := writeOf_of_kind (by rw [mmioReadReq, kind_makeMsg]; decide)
  refine ⟨_, s.link.toQemu, socket_read hreq, ⟨⟨waiting.pc, waiting.pending⟩, hpost, ⟨_, [], rfl, ?_⟩, rep⟩,
    ⟨none, post, hreq⟩, ?_⟩
  · intro x hx
    cases hx
  · rw [hreq]
    exact (queued_cons_none hw).trans hq

theorem Answered.qemu_cons {addr : Addr} {value : Word} {x : Nat × Msg} {pre : List (Nat × Msg)}
    (h : Answered s addr value (x :: pre)) : ∃ t, step s .qemu = some t ∧ Answered t addr value pre := by
  obtain ⟨waiting, req, ⟨num, post, hrep, hpost⟩, hpre⟩ := h
  obtain ⟨mem, out, ht, hout, -⟩ := qemu_other hrep (hpre.head (by decide))
  exact ⟨_, ht, ⟨waiting.pc, waiting.pending⟩, req.append hout, ⟨num, post, rfl, hpost⟩, hpre.tail⟩

theorem Answered.qemu_nil {addr : Addr} {value : Word} (h : Answered s addr value []) :
    ∃ t, step s .qemu = some t ∧ Come t addr value := by
  obtain ⟨waiting, req, ⟨num, post, hrep, hpost⟩, -⟩ := h
  have hpc : s.pc.rouse = .sent addr := by rcases waiting.pc with hpc | hpc <;> rw [hpc] <;> rfl
  exact ⟨_, qemu_answer hrep, hpc, ⟨req, hpost⟩, rfl, rfl, rfl⟩

/-! ## Steps -/

theorem Quiet.qemu (h : Quiet s) (he : step s .qemu = some t) :
    Quiet t ∧ t.pc = s.pc ∧ t.link.qemu = s.link.qemu := by
  cases hq : s.link.toQemu with
  | nil => simp [step, hq] at he
  | cons x rest =>
    have hrep := hq ▸ h.rep
    obtain ⟨mem, out, ht, hout, -⟩ := qemu_other hq (hrep.head (by decide))
    obtain rfl := Option.some.inj (ht.symm.trans he)
    exact ⟨⟨h.req.append hout, hrep.tail⟩, rfl, rfl⟩

theorem Quiet.socket (h : Quiet s) (he : step s .socket = some t) :
    Quiet t ∧ t.pc = s.pc ∧ t.link.qemu = s.link.qemu := by
  cases hq : s.link.fromQemu with
  | nil => simp [step, Link.recv, hq] at he
  | cons x rest =>
    have hreq := hq ▸ h.req
    obtain ⟨bridge, count, nic, out, ht, hout⟩ := socket_other hq (hreq.head (by decide)) (hreq.head (by decide))
    obtain rfl := Option.some.inj (ht.symm.trans he)
    exact ⟨⟨hreq.tail, h.rep.append hout⟩, rfl, rfl⟩

theorem Flight.qemu (h : Flight P s) (he : step s .qemu = some t) : Flight P t := by
  cases h with
  | idle pc quiet =>
    obtain ⟨hq, hpc, -⟩ := quiet.qemu he
    exact .idle (hpc.trans pc) hq
  | pending pc quiet pending =>
    obtain ⟨hq, hpc, hqemu⟩ := quiet.qemu he
    exact .pending (hpc.trans pc) hq (hqemu ▸ pending)
  | @asked addr pre asked =>
    -- the answers that come in do not end the wait
    obtain ⟨waiting, ⟨post, hreq, hpost, hq⟩, hpre, rep⟩ := asked
    cases hto : s.link.toQemu with
    | nil => simp [step, hto] at he
    | cons x rest =>
      have hrep := hto ▸ rep
      obtain ⟨mem, out, ht, hout, hw⟩ := qemu_other hto (hrep.head (by decide))
      obtain rfl := Option.some.inj (ht.symm.trans he)
      refine .asked ⟨⟨waiting.pc, waiting.pending⟩, ⟨post ++ out, ?_, hpost.append hout, ?_⟩, hpre, hrep.tail⟩
      · simp only [hreq, List.append_assoc, List.cons_append]
      · rw [queued_append, hq, hw, List.append_nil]
  | @answered addr value pre answered hP =>
    cases pre with
    | nil =>
      obtain ⟨u, hu, hc⟩ := answered.qemu_nil
      obtain rfl := Option.some.inj (hu.symm.trans he)
      exact .come hc hP
    | cons x pre =>
      obtain ⟨u, hu, ha⟩ := answered.qemu_cons
      obtain rfl := Option.some.inj (hu.symm.trans he)
      exact .answered ha hP
  | come come hP =>
    obtain ⟨hq, hpc, hqemu⟩ := come.quiet.qemu he
    exact .come ⟨hpc.trans come.pc, hq, hqemu ▸ come.pending, hqemu ▸ come.data, hqemu ▸ come.status⟩ hP
  | got pc quiet hP =>
    obtain ⟨hq, hpc, -⟩ := quiet.qemu he
    exact .got (hpc.trans pc) hq hP

theorem Flight.socket (h : Flight P s) (he : step s .socket = some t)
    (hP : ∀ addr, s.Handles addr → queued s.link.fromQemu = [] → P addr (s.link.nic.onMmioRead addr)) :
    Flight P t := by
  cases h with
  | idle pc quiet =>
    obtain ⟨hq, hpc, -⟩ := quiet.socket he
    exact .idle (hpc.trans pc) hq
  | pending pc quiet pending =>
    obtain ⟨hq, hpc, hqemu⟩ := quiet.socket he
    exact .pending (hpc.trans pc) hq (hqemu ▸ pending)
  | @asked addr pre asked =>
    cases pre with
    | nil =>
      obtain ⟨u, pre, hu, ha, hh, hw⟩ := asked.socket_nil
      obtain rfl := Option.some.inj (hu.symm.trans he)
      exact .answered ha (hP addr hh hw)
    | cons x pre =>
      obtain ⟨u, hu, ha⟩ := asked.socket_cons
      obtain rfl := Option.some.inj (hu.symm.trans he)
      exact .asked ha
  | @answered addr value pre answered hv =>
    obtain ⟨waiting, req, ⟨num, post, hrep, hpost⟩, hpre⟩ := answered
    cases hq : s.link.fromQemu with
    | nil => simp [step, Link.recv, hq] at he
    | cons x rest =>
      have hreq := hq ▸ req
      obtain ⟨bridge, count, nic, out, ht, hout⟩ := socket_other hq (hreq.head (by decide)) (hreq.head (by decide))
      obtain rfl := Option.some.inj (ht.symm.trans he)
      refine .answered ⟨⟨waiting.pc, waiting.pending⟩, hreq.tail, ⟨num, post ++ out, ?_, hpost.append hout⟩, hpre⟩ hv
      simp only [hrep, List.append_assoc, List.cons_append]
  | come come hv =>
    obtain ⟨hq, hpc, hqemu⟩ := come.quiet.socket he
    exact .come ⟨hpc.trans come.pc, hq, hqemu ▸ come.pending, hqemu ▸ come.data, hqemu ▸ come.status⟩ hv
  | got pc quiet hv =>
    obtain ⟨hq, hpc, -⟩ := quiet.socket he
    exact .got (hpc.trans pc) hq hv

/-! ## Steps of the vCPU -/

theorem Waiting.elim {addr : Addr} {pc : VcpuPc} (h : Waiting s addr) (hpc : s.pc = pc)
    (hne : ∀ addr, pc ≠ .sent addr ∧ pc ≠ .asleep addr) : False := by
  rcases h.pc with h | h
  · exact (hne addr).1 (hpc.symm.trans h)
  · exact (hne addr).2 (hpc.symm.trans h)

theorem Flight.of_idle (h : Flight P s) (hpc : s.pc = .idle) : Quiet s := by
  cases h with
  | idle _ quiet => exact quiet
  | pending pc _ _ | got pc _ _ => cases hpc.symm.trans pc
  | asked asked => exact (asked.waiting.elim hpc (by simp)).elim
  | answered answered _ => exact (answered.waiting.elim hpc (by simp)).elim
  | come come _ => cases hpc.symm.trans come.pc

theorem Flight.of_pending {addr : Addr} (h : Flight P s) (hpc : s.pc = .pending addr) :
    Quiet s ∧ s.link.qemu.mmioPending = true := by
  cases h with
  | pending _ quiet pending => exact ⟨quiet, pending⟩
  | idle pc _ | got pc _ _ => cases hpc.symm.trans pc
  | asked asked => exact (asked.waiting.elim hpc (by simp)).elim
  | answered answered _ => exact (answered.waiting.elim hpc (by simp)).elim
  | come come _ => cases hpc.symm.trans come.pc

theorem Flight.of_got {addr : Addr} {result status : Word} (h : Flight P s) (hpc : s.pc = .got addr result status) :
    Quiet s ∧ status = PcieStatus.ok.code ∧ P addr result := by
  cases h with
  | got pc quiet value =>
    cases hpc.symm.trans pc
    exact ⟨quiet, rfl, value⟩
  | idle pc _ | pending pc _ _ => cases hpc.symm.trans pc
  | asked asked => exact (asked.waiting.elim hpc (by simp)).elim
  | answered answered _ => exact (answered.waiting.elim hpc (by simp)).elim
  | come come _ => cases hpc.symm.trans come.pc

/-- A waiting vCPU that moves in its wait. -/
theorem Flight.of_waiting {addr : Addr} (h : Flight P s) (hs : s.pc = .sent addr ∨ s.pc = .asleep addr)
    (hpend : s.pc = .asleep addr ∨ s.link.qemu.mmioPending = true) {pc : VcpuPc}
    (hpc : pc = .sent addr ∨ pc = .asleep addr) : Flight P { s with pc := pc } := by
  have haddr : ∀ {addr'}, Waiting s addr' → addr' = addr := fun w => by
    rcases w.pc with h₁ | h₁ <;> rcases hs with h₂ | h₂ <;> cases h₁.symm.trans h₂ <;> rfl
  cases h with
  | asked asked =>
    cases haddr asked.waiting
    exact .asked ⟨⟨hpc, asked.waiting.pending⟩, asked.req, asked.pre, asked.rep⟩
  | answered answered value =>
    cases haddr answered.waiting
    exact .answered ⟨⟨hpc, answered.waiting.pending⟩, answered.req, answered.rep, answered.pre⟩ value
  | come come _ =>
    rcases hpend with h | h
    · cases h.symm.trans come.pc
    · rw [come.pending] at h
      cases h
  | idle pc _ | pending pc _ _ | got pc _ _ => rcases hs with h | h <;> cases h.symm.trans pc

/-- What the vCPU finds when the wait is over. -/
theorem Flight.of_come {addr : Addr} (h : Flight P s) (hs : s.pc = .sent addr)
    (hpend : s.link.qemu.mmioPending = false) : ∃ value, Come s addr value ∧ P addr value := by
  cases h with
  | come come value =>
    cases hs.symm.trans come.pc
    exact ⟨_, come, value⟩
  | asked asked => cases hpend.symm.trans asked.waiting.pending
  | answered answered _ => cases hpend.symm.trans answered.waiting.pending
  | idle pc _ | pending pc _ _ | got pc _ _ => cases hs.symm.trans pc

theorem noRead_write {q : List (Option Nat × Msg)} (h : NoRead q) (qemu : ScBridge) (addr : Addr) (val : BitVec 64) :
    NoRead (q ++ (qemu.mmioWrite addr val).2.toList.map (none, ·)) := by
  refine h.append fun x hx k hk => ?_
  obtain ⟨m, hm, rfl⟩ := List.mem_map.mp hx
  have : m.kind = some .mmioWrite := by
    unfold ScBridge.mmioWrite at hm
    split at hm <;> (try split at hm) <;> simp only [Option.toList_some, Option.toList_none, List.mem_singleton,
      List.not_mem_nil] at hm
    rw [hm, mmioWriteMsg, kind_makeMsg]
  rw [this]
  rintro ⟨⟩
  simp at hk

theorem Flight.step {e : MmioEvent} (h : Flight P s) (he : step s e = some t)
    (hP : ∀ addr, e = .socket → s.Handles addr → queued s.link.fromQemu = [] →
      P addr (s.link.nic.onMmioRead addr)) : Flight P t := by
  cases e with
  | readBegin addr =>
    obtain ⟨hpc, h'⟩ := step_readBegin he
    have quiet := h.of_idle hpc
    obtain ⟨-, rfl⟩ | ⟨-, rfl⟩ := h'
    · exact .pending rfl ⟨quiet.req, quiet.rep⟩ rfl
    · exact .idle hpc ⟨quiet.req, quiet.rep⟩
  | readSend =>
    obtain ⟨addr, hpc, rfl⟩ := step_readSend he
    obtain ⟨quiet, pending⟩ := h.of_pending hpc
    exact .asked ⟨⟨.inl rfl, pending⟩, ⟨[], rfl, by simp [Without], rfl⟩, quiet.req, quiet.rep⟩
  | check =>
    obtain ⟨addr, hpc, ⟨hpend, rfl⟩ | ⟨hpend, rfl⟩⟩ := step_check he
    · exact h.of_waiting (.inl hpc) (.inr hpend) (.inr rfl)
    · obtain ⟨value, come, hv⟩ := h.of_come hpc hpend
      rw [come.data, come.status]
      exact .got rfl ⟨come.quiet.req, come.quiet.rep⟩ hv
  | wake =>
    obtain ⟨addr, hpc, rfl⟩ := step_wake he
    exact h.of_waiting (.inr hpc) (.inl hpc) (.inl rfl)
  | readReturn =>
    obtain ⟨addr, result, status, hpc, rfl⟩ := step_readReturn he
    obtain ⟨quiet, -, -⟩ := h.of_got hpc
    exact .idle rfl ⟨quiet.req, quiet.rep⟩
  | write addr val =>
    obtain ⟨hpc, rfl⟩ := step_write he
    have quiet := h.of_idle hpc
    exact .idle hpc ⟨noRead_write quiet.req _ _ _, quiet.rep⟩
  | qemu => exact h.qemu he
  | socket => exact h.socket he fun addr hh hw => hP addr rfl hh hw
  | nic f | dma f | guest addr data =>
    cases he
    refine Appends.flight (s := s) (appends_nil ?_ ?_ ?_ ?_) h <;> rfl
  | nicSend m =>
    obtain ⟨hm, rfl⟩ := step_nicSend he
    have happ : Appends s { s with link := s.link.send m } [(s.link.count, m)] [] :=
      ⟨rfl, rfl, rfl, (List.append_nil _).symm, by simpa [Without] using hm, by simp [Without], rfl⟩
    exact happ.flight h

/-! ## What the registers have seen -/

variable {nic : SmartNic}

/-- The registers hold what the vCPU's writes made of them, in order, and the steps
of the NIC by itself, except for the writes that are still on their way. -/
def Changes (nic : SmartNic) (es : List MmioEvent) (s : MmioOrder) : Prop :=
  ∃ h, s.link.nic = replay nic h ∧ owns h = MmioEvent.owns es ∧
    MmioAccess.writes s.trace = writes h ++ queued s.link.fromQemu

theorem replay_append (nic : SmartNic) (h h' : List NicChange) : replay nic (h ++ h') = replay (replay nic h) h' :=
  List.foldl_append

theorem writes_append (h h' : List NicChange) : writes (h ++ h') = writes h ++ writes h' := List.filterMap_append

theorem owns_append (h h' : List NicChange) : owns (h ++ h') = owns h ++ owns h' := List.filterMap_append

/-- Writes, one after another. -/
def ofWrites (ws : List (Addr × Word)) : List NicChange := ws.map fun w => .write w.1 w.2

theorem writes_ofWrites (ws : List (Addr × Word)) : writes (ofWrites ws) = ws := by
  rw [writes, ofWrites, List.filterMap_map]
  exact List.filterMap_some

theorem owns_ofWrites (ws : List (Addr × Word)) : owns (ofWrites ws) = [] := by
  rw [owns, ofWrites, List.filterMap_map]
  exact List.filterMap_eq_nil_iff.mpr fun _ _ => rfl

theorem owns_events_append (es es' : List MmioEvent) :
    MmioEvent.owns (es ++ es') = MmioEvent.owns es ++ MmioEvent.owns es' := List.filterMap_append

theorem writes_trace_append (l l' : List MmioAccess) :
    MmioAccess.writes (l ++ l') = MmioAccess.writes l ++ MmioAccess.writes l' := List.filterMap_append

/-- The changes after some more, and what is on its way then. -/
theorem Changes.of_step {es : List MmioEvent} {e : MmioEvent} (h : Changes nic es s) (c : List NicChange)
    (hnic : t.link.nic = replay s.link.nic c) (howns : owns c = MmioEvent.owns [e]) (d : List MmioAccess)
    (htrace : t.trace = s.trace ++ d)
    (hq : queued s.link.fromQemu ++ MmioAccess.writes d = writes c ++ queued t.link.fromQemu) :
    Changes nic (es ++ [e]) t := by
  obtain ⟨h, hn, ho, hw⟩ := h
  refine ⟨h ++ c, ?_, ?_, ?_⟩
  · rw [hnic, hn, replay_append]
  · rw [owns_events_append, ← ho, ← howns]
    exact owns_append h c
  · rw [htrace, writes_trace_append, hw, writes_append, List.append_assoc, hq, List.append_assoc]

theorem Changes.of_same {es : List MmioEvent} {e : MmioEvent} (h : Changes nic es s)
    (hnic : t.link.nic = s.link.nic) (howns : MmioEvent.owns [e] = []) (htrace : t.trace = s.trace)
    (hq : queued t.link.fromQemu = queued s.link.fromQemu) : Changes nic (es ++ [e]) t :=
  h.of_step [] hnic howns.symm [] (htrace.trans (List.append_nil _).symm) ((List.append_nil _).trans hq.symm)

/-- The message of a write that is forwarded. -/
theorem queued_write (qemu : ScBridge) (addr : Addr) (val : BitVec 64) :
    queued ((qemu.mmioWrite addr val).2.toList.map (none, ·)) =
      MmioAccess.writes ((qemu.mmioWrite addr val).2.toList.map fun _ => .write addr (val.setWidth 32)) := by
  unfold ScBridge.mmioWrite
  split <;> (try split)
  · exact List.filterMap_cons_some (writeOf_mmioWriteMsg addr (val.setWidth 32))
  · rfl
  · rfl

theorem qemu_frame (he : step s .qemu = some t) :
    t.trace = s.trace ∧ t.link.nic = s.link.nic ∧ queued t.link.fromQemu = queued s.link.fromQemu ∧
      t.link.qemu.connected = s.link.qemu.connected := by
  cases hq : s.link.toQemu with
  | nil => simp [MmioOrder.step, hq] at he
  | cons x rest =>
    obtain ⟨num, m⟩ := x
    simp only [MmioOrder.step, Link.qemuStep, hq, Option.map_some, Option.some.injEq] at he
    subst he
    refine ⟨rfl, rfl, ?_, ScBridge.connected_handleMsg _ _ _⟩
    dsimp only
    have hout : queued ((s.link.qemu.handleMsg s.link.mem m).sent.map (some num, ·)) = [] := by
      refine List.filterMap_eq_nil_iff.mpr fun y hy => writeOf_of_kind fun hk => ?_
      obtain ⟨r, hr, rfl⟩ := List.mem_map.mp hy
      rcases ScBridge.kind_sent _ _ hr with h | h <;> rw [h] at hk <;> cases hk
    rw [queued_append, hout, List.append_nil]

theorem Flight.noReset (h : Flight P s) : ∀ x ∈ s.link.fromQemu, x.2.kind ≠ some .bridgeReset := by
  have hfree : ∀ {q : List (Option Nat × Msg)}, NoRead q → ∀ x ∈ q, x.2.kind ≠ some .bridgeReset :=
    fun hq x hx => hq x hx _ (by decide)
  cases h with
  | idle _ quiet | pending _ quiet _ | got _ quiet _ => exact hfree quiet.req
  | answered answered _ => exact hfree answered.req
  | come come _ => exact hfree come.quiet.req
  | @asked addr pre asked =>
    obtain ⟨post, hreq, hpost, -⟩ := asked.req
    rw [hreq]
    intro x hx
    rcases List.mem_append.mp hx with hx | hx
    · exact hfree asked.pre x hx
    · rcases List.mem_cons.mp hx with rfl | hx
      · rw [mmioReadReq, kind_makeMsg]
        decide
      · exact hfree hpost x hx

theorem Changes.step {es : List MmioEvent} {e : MmioEvent} (h : Changes nic es s)
    (hr : ∀ x ∈ s.link.fromQemu, x.2.kind ≠ some .bridgeReset) (he : step s e = some t) :
    Changes nic (es ++ [e]) t := by
  cases e with
  | readBegin addr =>
    obtain ⟨-, ⟨-, rfl⟩ | ⟨-, rfl⟩⟩ := step_readBegin he
    · exact h.of_same rfl rfl rfl rfl
    · exact h.of_step [] rfl rfl _ rfl (List.append_nil _)
  | readSend =>
    obtain ⟨addr, -, rfl⟩ := step_readSend he
    have hw : writeOf (mmioReadReq addr) = none := writeOf_of_kind (by rw [mmioReadReq, kind_makeMsg]; decide)
    refine h.of_same rfl rfl rfl ?_
    dsimp only
    rw [queued_append, queued_cons_none hw]
    exact List.append_nil _
  | check =>
    obtain ⟨addr, -, ⟨-, rfl⟩ | ⟨-, rfl⟩⟩ := step_check he <;> exact h.of_same rfl rfl rfl rfl
  | wake =>
    obtain ⟨addr, -, rfl⟩ := step_wake he
    exact h.of_same rfl rfl rfl rfl
  | readReturn =>
    obtain ⟨addr, result, status, -, rfl⟩ := step_readReturn he
    exact h.of_step [] rfl rfl _ rfl (List.append_nil _)
  | write addr val =>
    obtain ⟨-, rfl⟩ := step_write he
    refine h.of_step [] rfl rfl _ rfl ?_
    dsimp only
    rw [queued_append, queued_write]
    rfl
  | qemu =>
    obtain ⟨htrace, hnic, hq, -⟩ := qemu_frame he
    exact h.of_same hnic rfl htrace hq
  | socket =>
    cases hq : s.link.fromQemu with
    | nil => simp [MmioOrder.step, Link.recv, hq] at he
    | cons x rest =>
      obtain ⟨bridge, count, out, ht, -⟩ := socket_cons hq (hr x (hq ▸ List.mem_cons_self))
      obtain rfl := Option.some.inj (ht.symm.trans he)
      cases hw : writeOf x.2 with
      | none =>
        refine h.of_same rfl rfl rfl ?_
        rw [hq, queued_cons_none hw]
      | some w =>
        refine h.of_step [.write w.1 w.2] rfl rfl [] (List.append_nil _).symm ?_
        rw [hq, queued_cons_some hw]
        exact List.append_nil _
  | nic f =>
    cases he
    exact h.of_step [.own f] rfl rfl [] (List.append_nil _).symm (List.append_nil _)
  | nicSend m =>
    obtain ⟨-, rfl⟩ := step_nicSend he
    exact h.of_same rfl rfl rfl rfl
  | dma f | guest addr data =>
    cases he
    exact h.of_same rfl rfl rfl rfl

/-! ## Runs -/

theorem step_connected {e : MmioEvent} (hr : ∀ x ∈ s.link.fromQemu, x.2.kind ≠ some .bridgeReset)
    (he : step s e = some t) : t.link.qemu.connected = s.link.qemu.connected := by
  cases e with
  | readBegin addr => obtain ⟨-, ⟨-, rfl⟩ | ⟨-, rfl⟩⟩ := step_readBegin he <;> rfl
  | check => obtain ⟨addr, -, ⟨-, rfl⟩ | ⟨-, rfl⟩⟩ := step_check he <;> rfl
  | readReturn =>
    obtain ⟨addr, result, status, -, rfl⟩ := step_readReturn he
    exact ScBridge.connected_mmioReadFinish _ _ _ _
  | write addr val =>
    obtain ⟨-, rfl⟩ := step_write he
    exact ScBridge.connected_mmioWrite _ _ _
  | qemu => exact (qemu_frame he).2.2.2
  | socket =>
    cases hq : s.link.fromQemu with
    | nil => simp [MmioOrder.step, Link.recv, hq] at he
    | cons x rest =>
      obtain ⟨bridge, count, out, ht, -⟩ := socket_cons hq (hr x (hq ▸ List.mem_cons_self))
      obtain rfl := Option.some.inj (ht.symm.trans he)
      rfl
  | readSend =>
    obtain ⟨addr, -, rfl⟩ := step_readSend he
    rfl
  | wake =>
    obtain ⟨addr, -, rfl⟩ := step_wake he
    rfl
  | nicSend m =>
    obtain ⟨-, rfl⟩ := step_nicSend he
    rfl
  | nic f | dma f | guest addr data =>
    cases he
    rfl

/-- What has been said of a read stays true as the run goes on. -/
theorem InOrder.snoc {s₀ : MmioOrder} {es : List MmioEvent} {pre : List MmioAccess} {addr : Addr} {value : Word}
    (h : InOrder s₀ es pre addr value) (e : MmioEvent) : InOrder s₀ (es ++ [e]) pre addr value := by
  obtain ⟨es₁, es₂, u, h, rfl, hu, ht, hw, ho, hv, hh⟩ := h
  refine ⟨es₁, es₂ ++ [e], u, h, (List.append_assoc _ _ _), hu, ht, hw, ho, hv, fun ha => ?_⟩
  obtain ⟨h₁, h₂, h₃⟩ := hh ha
  exact ⟨h₁, by rw [List.head?_append, h₂]; rfl, h₃⟩

/-- The invariant of a run `es` from `s₀`. -/
structure Inv (s₀ : MmioOrder) (es : List MmioEvent) (s : MmioOrder) : Prop where
  connected : s.link.qemu.connected = true
  changes : Changes s₀.link.nic es s
  flight : Flight (InOrder s₀ es s.trace) s
  reads : ∀ pre addr value post, s.trace = pre ++ .read addr value :: post → InOrder s₀ es pre addr value

theorem inv_start (h0 : Start s) : Inv s [] s := by
  have hreq : NoRead s.link.fromQemu := fun x hx k hk hkind => by
    have hl := h0.fromQemu x hx
    rw [needsLock, hkind] at hl
    simp only [List.mem_cons, List.not_mem_nil, or_false] at hk
    rcases hk with rfl | rfl <;> cases hl
  have hrep : NoAnswer s.link.toQemu := fun x hx k hk => by
    rw [List.mem_singleton.mp hk]
    exact h0.toQemu x hx
  refine ⟨h0.connected, ⟨[], rfl, rfl, ?_⟩, .idle h0.pc ⟨hreq, hrep⟩, fun pre addr value post ht => ?_⟩
  · have hq : queued s.link.fromQemu = [] := List.filterMap_eq_nil_iff.mpr fun x hx => writeOf_of_kind fun hk => by
      have hl := h0.fromQemu x hx
      rw [needsLock, hk] at hl
      cases hl
    rw [h0.trace, hq]
    rfl
  · rw [h0.trace] at ht
    simp at ht

/-- The read of `addr` returns `value` in the next step. -/
def Returns (s : MmioOrder) (addr : Addr) (value : Word) : Prop :=
  (∃ result status, s.pc = .got addr result status ∧ value = (s.link.qemu.mmioReadFinish addr result status).2) ∨
    s.link.qemu.forwardsRead addr = false ∧ value = s.link.qemu.mmioReadLocal addr

/-- What a step adds to the accesses: nothing, unless the vCPU is idle after it. -/
theorem step_trace {e : MmioEvent} (he : step s e = some t) : t.trace = s.trace ∨
    t.pc = .idle ∧ ∃ a, t.trace = s.trace ++ [a] ∧ ∀ addr value, a = .read addr value → Returns s addr value := by
  cases e with
  | readBegin addr =>
    obtain ⟨hpc, ⟨-, rfl⟩ | ⟨hf, rfl⟩⟩ := step_readBegin he
    · exact .inl rfl
    · refine .inr ⟨hpc, _, rfl, fun addr value ha => ?_⟩
      cases ha
      exact .inr ⟨hf, rfl⟩
  | check =>
    obtain ⟨addr, -, ⟨-, rfl⟩ | ⟨-, rfl⟩⟩ := step_check he <;> exact .inl rfl
  | readReturn =>
    obtain ⟨addr, result, status, hpc, rfl⟩ := step_readReturn he
    refine .inr ⟨rfl, _, rfl, fun addr value ha => ?_⟩
    cases ha
    exact .inl ⟨_, _, hpc, rfl⟩
  | write addr val =>
    obtain ⟨hpc, rfl⟩ := step_write he
    cases hm : (s.link.qemu.mmioWrite addr val).2 with
    | none => exact .inl (by simp)
    | some m => exact .inr ⟨hpc, .write addr (val.setWidth 32), by simp, by simp⟩
  | qemu => exact .inl (qemu_frame he).1
  | socket =>
    obtain ⟨l, -, rfl⟩ := Option.map_eq_some_iff.mp he
    exact .inl rfl
  | readSend =>
    obtain ⟨addr, -, rfl⟩ := step_readSend he
    exact .inl rfl
  | wake =>
    obtain ⟨addr, -, rfl⟩ := step_wake he
    exact .inl rfl
  | nicSend m =>
    obtain ⟨-, rfl⟩ := step_nicSend he
    exact .inl rfl
  | nic f | dma f | guest addr data =>
    cases he
    exact .inl rfl

theorem snoc_eq_append_cons {α : Type} {l pre post : List α} {a x : α} (h : l ++ [a] = pre ++ x :: post) :
    l = pre ∧ a = x ∨ ∃ post', l = pre ++ x :: post' := by
  rcases List.eq_nil_or_concat post with rfl | ⟨post', b, rfl⟩
  · obtain ⟨h₁, h₂⟩ := List.append_inj' h rfl
    exact .inl ⟨h₁, List.head_eq_of_cons_eq h₂⟩
  · rw [List.concat_eq_append, ← List.cons_append, ← List.append_assoc] at h
    exact .inr ⟨post', (List.append_inj' h rfl).1⟩

/-- What a read returns is in order. -/
theorem Inv.returns {s₀ : MmioOrder} {es : List MmioEvent} {addr : Addr} {value : Word} (h : Inv s₀ es s)
    (hrun : run MmioOrder.step s₀ es = some s) (e : MmioEvent) (hr : Returns s addr value) :
    InOrder s₀ (es ++ [e]) s.trace addr value := by
  rcases hr with ⟨result, status, hpc, rfl⟩ | ⟨hf, rfl⟩
  · obtain ⟨-, rfl, hin⟩ := h.flight.of_got hpc
    exact hin.snoc e
  · have hge : SC_REG_COUNT ≤ addr := by
      rw [ScBridge.forwardsRead, h.connected, Bool.and_true, decide_eq_false_iff_not] at hf
      exact BitVec.not_lt.mp hf
    obtain ⟨c, -, ho, hw⟩ := h.changes
    -- the writes on their way do not matter to this read
    refine ⟨es, [e], s, c ++ ofWrites (queued s.link.fromQemu), rfl, hrun, rfl, ?_, ?_, ?_,
      fun hlt => absurd hlt (BitVec.not_lt.mpr hge)⟩
    · rw [hw, writes_append, writes_ofWrites]
    · rw [← ho, owns_append, owns_ofWrites, List.append_nil]
    · rw [SmartNic.onMmioRead_of_ge _ hge, ScBridge.mmioReadLocal, if_pos hge]

theorem Inv.step {s₀ : MmioOrder} {es : List MmioEvent} {e : MmioEvent} (h : Inv s₀ es s)
    (hrun : run MmioOrder.step s₀ es = some s) (he : MmioOrder.step s e = some t) : Inv s₀ (es ++ [e]) t := by
  have hf : Flight (InOrder s₀ (es ++ [e]) s.trace) t := by
    refine (h.flight.mono fun _ _ hin => hin.snoc e).step he fun addr hs hh hw => ?_
    subst hs
    obtain ⟨c, hn, ho, hwr⟩ := h.changes
    rw [hw, List.append_nil] at hwr
    exact ⟨es, [.socket], s, c, rfl, hrun, rfl, hwr.symm, ho, hn ▸ rfl, fun _ => ⟨hh, rfl, hn⟩⟩
  have hold : ∀ pre addr value post, s.trace = pre ++ .read addr value :: post →
      InOrder s₀ (es ++ [e]) pre addr value :=
    fun pre addr value post ht => (h.reads pre addr value post ht).snoc e
  refine ⟨(step_connected h.flight.noReset he).trans h.connected, h.changes.step h.flight.noReset he, ?_, ?_⟩
  · rcases step_trace he with ht | ⟨hpc, -⟩
    · exact ht ▸ hf
    · exact .idle hpc (hf.of_idle hpc)
  · rcases step_trace he with ht | ⟨-, a, ht, ha⟩
    · exact ht ▸ hold
    · intro pre addr value post hpre
      rw [ht] at hpre
      rcases snoc_eq_append_cons hpre with ⟨rfl, rfl⟩ | ⟨post', hpost⟩
      · exact h.returns hrun e (ha addr value rfl)
      · exact hold pre addr value post' hpost

/-! ## A read returns -/

/-- The threads can go on until the vCPU is idle. -/
def CanReturn (s : MmioOrder) : Prop :=
  ∃ es u, (∀ e ∈ es, e.ofThreads = true) ∧ run MmioOrder.step s es = some u ∧ u.pc = .idle

theorem CanReturn.cons {e : MmioEvent} (hu : CanReturn t) (he : MmioOrder.step s e = some t)
    (ho : e.ofThreads = true) : CanReturn s := by
  obtain ⟨es, u, hes, hr, hpc⟩ := hu
  refine ⟨e :: es, u, fun x hx => ?_, run_cons_some.mpr ⟨t, he, hr⟩, hpc⟩
  rcases List.mem_cons.mp hx with rfl | hx
  · exact ho
  · exact hes x hx

theorem canReturn_of_idle (h : s.pc = .idle) : CanReturn s := ⟨[], s, fun x hx => (by cases hx), rfl, h⟩

theorem canReturn_of_got {addr : Addr} {result status : Word} (h : s.pc = .got addr result status) :
    CanReturn s := by
  obtain ⟨t, ht, hpc⟩ : ∃ t, MmioOrder.step s .readReturn = some t ∧ t.pc = .idle :=
    ⟨_, by simp only [MmioOrder.step, h]; rfl, rfl⟩
  exact (canReturn_of_idle hpc).cons ht rfl

theorem Come.canReturn {addr : Addr} {value : Word} (h : Come s addr value) : CanReturn s := by
  obtain ⟨t, ht, hpc⟩ : ∃ t, MmioOrder.step s .check = some t ∧
      t.pc = .got addr s.link.qemu.mmioRespData s.link.qemu.mmioRespStatus :=
    ⟨_, by simp only [MmioOrder.step, h.pc, h.pending]; rfl, rfl⟩
  exact (canReturn_of_got hpc).cons ht rfl

theorem Answered.canReturn {addr : Addr} {value : Word} {pre : List (Nat × Msg)}
    (h : Answered s addr value pre) : CanReturn s := by
  induction pre generalizing s with
  | nil =>
    obtain ⟨t, ht, hc⟩ := h.qemu_nil
    exact hc.canReturn.cons ht rfl
  | cons x pre ih =>
    obtain ⟨t, ht, ha⟩ := h.qemu_cons
    exact (ih ha).cons ht rfl

theorem Asked.canReturn {addr : Addr} {pre : List (Option Nat × Msg)} (h : Asked s addr pre) : CanReturn s := by
  induction pre generalizing s with
  | nil =>
    obtain ⟨t, pre, ht, ha, -⟩ := h.socket_nil
    exact ha.canReturn.cons ht rfl
  | cons x pre ih =>
    obtain ⟨t, ht, ha⟩ := h.socket_cons
    exact (ih ha).cons ht rfl

theorem Flight.canReturn (h : Flight P s) : CanReturn s := by
  cases h with
  | idle pc _ => exact canReturn_of_idle pc
  | @pending addr pc quiet pending =>
    have ha : Asked { s with
        link := { s.link with fromQemu := s.link.fromQemu ++ [(none, mmioReadReq addr)] }
        pc := .sent addr } addr s.link.fromQemu :=
      ⟨⟨.inl rfl, pending⟩, ⟨[], rfl, fun x hx => (by cases hx), rfl⟩, quiet.req, quiet.rep⟩
    exact ha.canReturn.cons (e := .readSend) (by simp only [MmioOrder.step, pc]) rfl
  | asked asked => exact asked.canReturn
  | answered answered _ => exact answered.canReturn
  | come come _ => exact come.canReturn
  | got pc _ _ => exact canReturn_of_got pc

/-- Every read returns what the register file gives after the vCPU's earlier
writes, in order, and the steps of the NIC by itself until then; a message that
is not the answer to a read changes nothing of what a read waits for; and a read
that has begun can return. -/
theorem program_order {es : List MmioEvent} (h0 : Start s) (h : run MmioOrder.step s es = some t) :
    (∀ pre addr value post, t.trace = pre ++ .read addr value :: post → InOrder s es pre addr value) ∧
      (∀ num m rest u, t.link.toQemu = (num, m) :: rest → m.kind ≠ some .mmioRead →
        MmioOrder.step t .qemu = some u → u.pc = t.pc ∧ u.link.qemu = t.link.qemu) ∧
      ∃ es' u, (∀ e ∈ es', e.ofThreads = true) ∧ run MmioOrder.step t es' = some u ∧ u.pc = .idle := by
  have hi : Inv s es t := run_inv_events (inv_start h0) (fun _ _ _ _ hr hi he => hi.step hr he) h
  refine ⟨hi.reads, fun num m rest u hq hm he => ?_, hi.flight.canReturn⟩
  obtain ⟨mem, out, ht, -⟩ := qemu_other hq hm
  obtain rfl := Option.some.inj (ht.symm.trans he)
  exact ⟨rfl, rfl⟩

/-- Two writes and a read of the second register, with an interrupt before the
answer. -/
def exampleEvents : List MmioEvent :=
  [.write SC_REG_MAC_LO 1, .write SC_REG_MAC_HI 2, .readBegin SC_REG_MAC_HI, .readSend, .check,
    .nicSend (msiIrqMsg 0), .socket, .socket, .socket, .qemu, .qemu, .qemu, .qemu, .check, .readReturn]

def exampleStart : MmioOrder where
  link := {
    bridge := ⟨true, false, []⟩
    nic := .new
    qemu := ⟨true, true, false, 0, 0, ScBridge.resetRegs⟩
    mem := fun _ => 0
    toQemu := []
    fromQemu := []
    count := 0 }
  pc := .idle
  trace := []

theorem program_order_two_writes : ∃ t, run MmioOrder.step exampleStart exampleEvents = some t ∧
    t.trace = [.write SC_REG_MAC_LO 1, .write SC_REG_MAC_HI 2, .read SC_REG_MAC_HI 2] ∧
    InOrder exampleStart exampleEvents [.write SC_REG_MAC_LO 1, .write SC_REG_MAC_HI 2] SC_REG_MAC_HI 2 := by
  have hr : ((run MmioOrder.step exampleStart exampleEvents).map fun t => t.trace) =
      some [.write SC_REG_MAC_LO 1, .write SC_REG_MAC_HI 2, .read SC_REG_MAC_HI 2] := by decide +kernel
  obtain ⟨t, ht, he⟩ := Option.map_eq_some_iff.mp hr
  have h0 : Start exampleStart := ⟨rfl, rfl, rfl, fun x hx => (by cases hx), fun x hx => (by cases hx)⟩
  exact ⟨t, ht, he, (program_order h0 ht).1 _ _ _ [] he⟩

end SmartEth.MmioOrder
