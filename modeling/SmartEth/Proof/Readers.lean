import SmartEth.System.Readers

/-!
# Answers to register reads

All readers share `mmio_pending` and the slot for the answer. While one read is
in flight at a time, what is on its way is that read's request or its answer
(`Flight`), and what the reader picks up is its own (`matched_of_oneReader`). A
second reader that comes in while the first waits gets its answer, or the other
way round (`readers_mixed`).
-/

namespace SmartEth.Readers

open ScBridge

/-- A thread's part in what is on its way. -/
inductive Stage where
  | out
  | begun
  | asked (num : Nat)

def stage : ReaderPc → Stage
  | .idle | .entered _ | .got _ _ _ _ => .out
  | .pending _ => .begun
  | .sent _ num | .waiting _ num | .asleep _ num => .asked num

theorem inFlight_eq_false {pc : ReaderPc} : pc.inFlight = false ↔ stage pc = .out := by
  cases pc <;> simp [ReaderPc.inFlight, stage]

/-- No thread but `t` is in flight. -/
def Only (s : Readers) (t : Nat) (st : Stage) : Prop :=
  stage (s.pc t) = st ∧ ∀ u ≠ t, stage (s.pc u) = .out

/-- One read in flight, and how far it has come. -/
inductive Flight (s : Readers) : Prop
  | none (out : ∀ u, stage (s.pc u) = .out) (req : s.toPeer = []) (rep : s.fromPeer = [])
  | begun {t : Nat} (only : Only s t .begun) (pending : s.bridge.mmioPending = true)
      (req : s.toPeer = []) (rep : s.fromPeer = [])
  | asked {t num : Nat} {m : Msg} (only : Only s t (.asked num)) (pending : s.bridge.mmioPending = true)
      (req : s.toPeer = [(num, m)]) (rep : s.fromPeer = [])
  | answered {t num : Nat} {data : Word} (only : Only s t (.asked num))
      (pending : s.bridge.mmioPending = true) (req : s.toPeer = [])
      (rep : s.fromPeer = [(num, mmioReadResp data)]) (answer : (num, data) ∈ s.answers)
  | done {t num : Nat} (only : Only s t (.asked num)) (req : s.toPeer = []) (rep : s.fromPeer = [])
      (answer : (num, s.bridge.mmioRespData) ∈ s.answers)
      (status : s.bridge.mmioRespStatus = PcieStatus.ok.code)

/-- What was picked up is the data of the own answer. -/
def Picked (s : Readers) : Prop :=
  ∀ t addr num result status, s.pc t = .got addr num result status →
    status = PcieStatus.ok.code ∧ (num, result) ∈ s.answers

structure Inv (s : Readers) : Prop where
  flight : Flight s
  picked : Picked s
  matched : Matched s

variable {s t : Readers}

theorem Only.congr {t : Readers} {u : Nat} {st : Stage} (h : Only s u st)
    (hs : ∀ u, stage (t.pc u) = stage (s.pc u)) : Only t u st :=
  ⟨(hs u).trans h.1, fun v hv => (hs v).trans (h.2 v hv)⟩

/-- Steps that leave the stages and what is on its way. -/
theorem Flight.congr (h : Flight s) (hs : ∀ u, stage (t.pc u) = stage (s.pc u))
    (hp : t.bridge.mmioPending = s.bridge.mmioPending) (hd : t.bridge.mmioRespData = s.bridge.mmioRespData)
    (hst : t.bridge.mmioRespStatus = s.bridge.mmioRespStatus) (hq : t.toPeer = s.toPeer)
    (hr : t.fromPeer = s.fromPeer) (ha : t.answers = s.answers) : Flight t := by
  cases h with
  | none out req rep => exact .none (fun u => (hs u).trans (out u)) (hq.trans req) (hr.trans rep)
  | begun only pending req rep => exact .begun (only.congr hs) (hp.trans pending) (hq.trans req) (hr.trans rep)
  | asked only pending req rep => exact .asked (only.congr hs) (hp.trans pending) (hq.trans req) (hr.trans rep)
  | answered only pending req rep answer =>
    exact .answered (only.congr hs) (hp.trans pending) (hq.trans req) (hr.trans rep) (ha ▸ answer)
  | done only req rep answer status =>
    exact .done (only.congr hs) (hq.trans req) (hr.trans rep) (by rw [hd, ha]; exact answer) (hst.trans status)

theorem stage_setPc {u : Nat} {pc : ReaderPc} (h : stage pc = stage (s.pc u)) (v : Nat) :
    stage ((s.setPc u pc).pc v) = stage (s.pc v) := by
  simp only [setPc]
  split
  · rename_i e; rw [e, h]
  · rfl

theorem only_setPc {u : Nat} (pc : ReaderPc) (h : ∀ v ≠ u, stage (s.pc v) = .out) :
    Only (s.setPc u pc) u (stage pc) := by
  refine ⟨by simp only [setPc, ite_true], fun v hv => ?_⟩
  simp only [setPc, if_neg hv]
  exact h v hv

/-- The thread in flight is the only one. -/
theorem Only.eq {u v : Nat} {st st' : Stage} (h : Only s u st) (hv : stage (s.pc v) = st') (hne : st' ≠ .out) :
    v = u ∧ st' = st := by
  by_cases e : v = u
  · exact ⟨e, by rw [← hv, e, h.1]⟩
  · exact absurd ((hv.symm.trans (h.2 v e))) hne

/-- The pick-ups after a thread has moved on, to something else than a pick-up. -/
theorem Picked.setPc {u : Nat} (pc : ReaderPc) (h : Picked s)
    (hpc : ∀ addr num result status, pc = .got addr num result status →
      status = PcieStatus.ok.code ∧ (num, result) ∈ s.answers) : Picked (s.setPc u pc) := by
  intro v addr num result status hv
  simp only [Readers.setPc] at hv
  split at hv
  · exact hpc _ _ _ _ hv
  · exact h v _ _ _ _ hv

theorem rouse_stage (u v : Nat) : stage ((s.rouse u).pc v) = stage (s.pc v) := by
  unfold rouse
  split
  · rename_i h
    exact stage_setPc (by rw [h]; rfl) v
  · rfl

theorem rouse_eq (u : Nat) : ∃ pc l, s.rouse u = { s with pc := pc, sleepers := l } := by
  unfold rouse
  split
  · exact ⟨_, _, rfl⟩
  · exact ⟨s.pc, s.sleepers, rfl⟩

theorem Picked.rouse (h : Picked s) (u : Nat) : Picked (s.rouse u) := by
  unfold Readers.rouse
  split
  · exact h.setPc (s := s) (.waiting _ _) nofun
  · exact h

/-! ## Steps -/

theorem Inv.setPending {u : Nat} (h : Inv s) (hok : ∀ u, (s.pc u).inFlight = false)
    (he : s.step (.setPending u) = some t) : Inv t := by
  obtain ⟨addr, hu, rfl⟩ := step_setPending he
  have hout : ∀ v, stage (s.pc v) = .out := fun v => inFlight_eq_false.mp (hok v)
  refine ⟨?_, h.picked.setPc (s := s) _ nofun, ⟨h.matched.returned, h.matched.stored⟩⟩
  have honly := only_setPc (s := s) (u := u) (.pending addr) fun v _ => hout v
  cases h.flight with
  | none _ req rep => exact .begun honly rfl req rep
  | begun only _ _ _ => exact absurd (only.1.symm.trans (hout _)) nofun
  | asked only _ _ _ | answered only _ _ _ _ | done only _ _ _ _ =>
    exact absurd (only.1.symm.trans (hout _)) nofun

theorem Inv.send {u : Nat} (h : Inv s) (he : s.step (.send u) = some t) : Inv t := by
  obtain ⟨addr, hu, rfl⟩ := step_send he
  have hst : stage (s.pc u) = .begun := by rw [hu]; rfl
  refine ⟨?_, h.picked.setPc (s := s) _ nofun, ⟨h.matched.returned, h.matched.stored⟩⟩
  cases h.flight with
  | begun only pending req rep =>
    obtain ⟨rfl, -⟩ := only.eq hst nofun
    have honly := only_setPc (s := s) (u := u) (.sent addr s.count) only.2
    exact .asked honly pending (congrArg (· ++ [(s.count, mmioReadReq addr)]) req) rep
  | none out _ _ => exact absurd (hst.symm.trans (out u)) nofun
  | asked only _ _ _ | answered only _ _ _ _ | done only _ _ _ _ =>
    exact absurd (only.eq hst nofun).2 nofun

theorem Inv.check {u : Nat} (h : Inv s) (he : s.step (.check u) = some t) : Inv t := by
  obtain ⟨addr, num, hu, ⟨-, rfl⟩ | ⟨hpend, rfl⟩⟩ := step_check he
  · exact ⟨h.flight.congr (stage_setPc (s := s) (by rw [hu]; rfl)) rfl rfl rfl rfl rfl rfl,
      h.picked.setPc (s := s) _ nofun, ⟨h.matched.returned, h.matched.stored⟩⟩
  · have hst : stage (s.pc u) = .asked num := by rw [hu]; rfl
    cases h.flight with
    | done only req rep answer status =>
      obtain ⟨rfl, hnum⟩ := only.eq hst nofun
      obtain rfl := Stage.asked.inj hnum
      have honly := only_setPc (s := s) (u := u)
        (.got addr num s.bridge.mmioRespData s.bridge.mmioRespStatus) only.2
      refine ⟨.none (fun v => ?_) req rep, h.picked.setPc (s := s) _ ?_, ⟨h.matched.returned, h.matched.stored⟩⟩
      · by_cases hv : v = u
        · rw [hv]; exact honly.1
        · exact honly.2 v hv
      · intro _ _ _ _ hgot
        cases hgot
        exact ⟨status, answer⟩
    | none out _ _ => exact absurd (hst.symm.trans (out u)) nofun
    | begun only _ _ _ => exact absurd (only.eq hst nofun).2 nofun
    | asked _ pending _ _ | answered _ pending _ _ _ => simp [pending] at hpend

theorem Inv.finish {u : Nat} (h : Inv s) (he : s.step (.finish u) = some t) : Inv t := by
  obtain ⟨addr, num, result, status, hu, rfl⟩ := step_finish he
  obtain ⟨rfl, hans⟩ := h.picked u addr num result status hu
  have hfin : s.bridge.mmioReadFinish addr result PcieStatus.ok.code =
      ({ s.bridge with regs := fun i => if i = addr >>> 2 then result else s.bridge.regs i }, result) :=
    if_neg (not_not.mpr rfl)
  rw [hfin]
  refine ⟨h.flight.congr (stage_setPc (s := s) (by rw [hu]; rfl)) rfl rfl rfl rfl rfl rfl,
    h.picked.setPc (s := s) _ nofun, ⟨fun r hr => ?_, fun r hr => ?_⟩⟩
  · rcases List.mem_append.mp hr with hr | hr
    · exact h.matched.returned r hr
    · rw [List.mem_singleton.mp hr]; exact hans
  · rw [if_neg (not_not.mpr rfl)] at hr
    rcases List.mem_append.mp hr with hr | hr
    · obtain ⟨d, hd, he⟩ := h.matched.stored r hr
      exact ⟨d, List.mem_append_left _ hd, he⟩
    · exact ⟨⟨num, addr, result⟩, List.mem_append_right _ (List.mem_singleton_self _),
        List.mem_singleton.mp hr⟩

theorem Inv.peer {data : Word} (h : Inv s) (he : s.step (.peer data) = some t) : Inv t := by
  obtain ⟨num, m, rest, hq, rfl⟩ := step_peer he
  refine ⟨?_, fun u _ _ _ _ hu => ?_, ⟨fun r hr => ?_, h.matched.stored⟩⟩
  · cases h.flight with
    | asked only pending req rep =>
      rw [hq, List.cons.injEq, Prod.mk.injEq] at req
      obtain ⟨⟨rfl, -⟩, rfl⟩ := req
      exact .answered (only.congr fun _ => rfl) pending rfl
        (congrArg (· ++ [(num, mmioReadResp data)]) rep) (List.mem_append_right _ (List.mem_singleton_self _))
    | none _ req _ | begun _ _ req _ | answered _ _ req _ _ | done _ req _ _ _ => simp [req] at hq
  · obtain ⟨h1, h2⟩ := h.picked u _ _ _ _ hu
    exact ⟨h1, List.mem_append_left _ h2⟩
  · exact List.mem_append_left _ (h.matched.returned r hr)

/-- The answer arrives. -/
theorem Flight.io {num : Nat} {m : Msg} {rest : List (Nat × Msg)} (h : Flight s)
    (hq : s.fromPeer = (num, m) :: rest) :
    Flight { s with bridge := (s.bridge.handleMsg (fun _ => 0) m).bridge, fromPeer := rest } := by
  cases h with
  | answered only pending req rep answer =>
    rw [hq, List.cons.injEq, Prod.mk.injEq] at rep
    obtain ⟨⟨rfl, rfl⟩, rfl⟩ := rep
    rw [handleMsg_mmioReadResp]
    exact .done (only.congr fun _ => rfl) req rfl answer rfl
  | none _ _ rep | begun _ _ _ rep | asked _ _ _ rep | done _ _ rep _ _ =>
    rw [hq] at rep; cases rep

/-- A thread is roused. -/
theorem Inv.rouse (h : Inv s) (u : Nat) : Inv (s.rouse u) := by
  have hst := rouse_stage (s := s) u
  obtain ⟨pc, l, he⟩ := rouse_eq (s := s) u
  have hp := h.picked.rouse u
  rw [he] at hst hp ⊢
  exact ⟨h.flight.congr hst rfl rfl rfl rfl rfl rfl, hp, ⟨h.matched.returned, h.matched.stored⟩⟩

theorem Inv.io {woken : Option Nat} (h : Inv s) (he : s.step (.io woken) = some t) : Inv t := by
  obtain ⟨num, m, rest, hq, he⟩ := step_io he
  have h' : Inv { s with bridge := (s.bridge.handleMsg (fun _ => 0) m).bridge, fromPeer := rest } :=
    ⟨h.flight.io hq, h.picked, ⟨h.matched.returned, h.matched.stored⟩⟩
  obtain ⟨u, -, -, rfl⟩ | ⟨-, rfl⟩ := he
  · exact h'.rouse u
  · exact h'

/-- A thread that moves on with nothing sent and nothing picked up. -/
theorem Inv.move {u : Nat} {pc : ReaderPc} {b : Option Nat} (h : Inv s) (hst : stage pc = stage (s.pc u))
    (hpc : ∀ addr num result status, pc ≠ .got addr num result status) : Inv { s.setPc u pc with bql := b } :=
  ⟨h.flight.congr (stage_setPc (s := s) hst) rfl rfl rfl rfl rfl rfl,
    h.picked.setPc (s := s) _ fun _ _ _ _ hg => absurd hg (hpc _ _ _ _), ⟨h.matched.returned, h.matched.stored⟩⟩

theorem Inv.step {e : ReaderEvent} (h : Inv s) (hok : OneReader s e) (he : s.step e = some t) : Inv t := by
  cases e with
  | setPending u => exact h.setPending hok he
  | send u => exact h.send he
  | check u => exact h.check he
  | finish u => exact h.finish he
  | peer data => exact h.peer he
  | io woken => exact h.io he
  | enter u addr =>
    obtain ⟨hu, rfl⟩ := step_enter he
    exact h.move (by rw [hu]; rfl) (by simp)
  | unlock u =>
    obtain ⟨addr, num, hu, rfl⟩ := step_unlock he
    exact h.move (by rw [hu]; rfl) (by simp)
  | wake u =>
    obtain ⟨-, rfl⟩ := step_wake he
    exact h.rouse u

theorem Inv.start (h : Start s) : Inv s := by
  refine ⟨.none (fun u => by rw [h.pc u]; rfl) h.toPeer h.fromPeer, fun u _ _ _ _ hu => ?_, ?_, ?_⟩
  · rw [h.pc u] at hu; cases hu
  · rw [h.returned]; exact fun r hr => nomatch hr
  · rw [h.stored]; exact fun r hr => nomatch hr

/-- In every state of a run in which a reader sets `mmio_pending` only while no
other read is in flight, what each read has returned and stored is the data of
the answer to its own request. -/
theorem matched_of_oneReader {es : List ReaderEvent} (h0 : Start s) (hok : Along step OneReader s es)
    (h : run step s es = some t) : Matched t :=
  (run_inv_along (fun _ _ _ hi hok he => Inv.step hi hok he) (.start h0) hok h).matched

/-- Connected, and nobody reads. -/
def exampleStart : Readers where
  bridge := ⟨true, true, false, 0, 0, fun _ => 0⟩
  bql := none
  pc := fun _ => .idle
  sleepers := []
  toPeer := []
  fromPeer := []
  count := 0
  answers := []
  returned := []
  stored := []

theorem exampleStart_start : Start exampleStart := ⟨fun _ => rfl, rfl, rfl, rfl, rfl⟩

/-- Thread `u` reads a register, alone. -/
def exampleRead (u : Nat) (addr : Addr) (data : Word) : List ReaderEvent :=
  [.enter u addr, .setPending u, .send u, .unlock u, .check u, .peer data, .io (some u), .check u, .finish u]

theorem exampleRead_along (hs : ∀ u, s.pc u = .idle) (u : Nat) (addr : Addr) (data : Word) :
    Along step OneReader s (exampleRead u addr data) := by
  refine ⟨trivial, fun s₁ h₁ => ⟨?_, fun _ _ => ⟨trivial, fun _ _ => ⟨trivial, fun _ _ => ⟨trivial, fun _ _ =>
    ⟨trivial, fun _ _ => ⟨trivial, fun _ _ => ⟨trivial, fun _ _ => ⟨trivial, fun _ _ => trivial⟩⟩⟩⟩⟩⟩⟩⟩⟩
  obtain ⟨-, rfl⟩ := step_enter h₁
  intro v
  by_cases hv : v = u <;> simp [Readers.setPc, hv, hs, ReaderPc.inFlight]

theorem exampleRead_idle : ∃ t, run step exampleStart (exampleRead 0 SC_REG_DEV_ID SC_DEV_ID) = some t ∧
    ∀ v, t.pc v = .idle := by
  refine ⟨_, rfl, fun v => ?_⟩
  by_cases hv : v = 0
  · subst hv
    rfl
  · -- each of its steps changes thread 0 only
    iterate 8 refine (if_neg hv).trans ?_
    rfl

/-- Two threads read in turn. -/
def exampleTurn : List ReaderEvent :=
  exampleRead 0 SC_REG_DEV_ID SC_DEV_ID ++ exampleRead 1 SC_REG_STATUS SC_STATUS_READY

theorem matched_of_oneReader_turn : ∃ t, run step exampleStart exampleTurn = some t ∧
    t.returned.map (·.result) = [SC_DEV_ID, SC_STATUS_READY] ∧ Matched t := by
  have hr : ((run step exampleStart exampleTurn).map fun t => t.returned.map (·.result)) =
      some [SC_DEV_ID, SC_STATUS_READY] := by decide +kernel
  obtain ⟨t, ht, he⟩ := Option.map_eq_some_iff.mp hr
  obtain ⟨u, hu, hidle⟩ := exampleRead_idle
  have hok : Along step OneReader exampleStart exampleTurn :=
    (exampleRead_along (fun _ => rfl) _ _ _).append fun s hs => by
      cases hs.symm.trans hu
      exact exampleRead_along hidle _ _ _
  exact ⟨t, ht, he, matched_of_oneReader exampleStart_start hok ht⟩

/-- One thread reads `DEV_ID`; while it waits, another reads `STATUS`, and the first
wakes up after both answers have come. -/
def exampleTwo : List ReaderEvent :=
  [.enter 0 SC_REG_DEV_ID, .setPending 0, .send 0, .unlock 0, .check 0,
    .enter 1 SC_REG_STATUS, .setPending 1, .send 1, .unlock 1, .check 1,
    .peer SC_DEV_ID, .peer SC_STATUS_READY, .io (some 0), .io (some 1), .check 0, .finish 0]

/-- The first returns, and stores for `DEV_ID`, what `STATUS` holds. -/
theorem readers_mixed : ∃ t, run step exampleStart exampleTwo = some t ∧
    t.returned.map (fun r => (r.num, r.addr, r.result)) = [(0, SC_REG_DEV_ID, SC_STATUS_READY)] ∧
    t.stored = [(0, SC_REG_DEV_ID >>> 2, SC_STATUS_READY)] ∧ ¬ Matched t := by
  have h1 : ((run step exampleStart exampleTwo).map fun t =>
      t.returned.map fun r => (r.num, r.addr, r.result)) =
      some [(0, SC_REG_DEV_ID, SC_STATUS_READY)] := by decide +kernel
  have h2 : ((run step exampleStart exampleTwo).map fun t => (t.stored, t.answers)) =
      some ([(0, SC_REG_DEV_ID >>> 2, SC_STATUS_READY)],
        [(0, SC_DEV_ID), (1, SC_STATUS_READY)]) := by decide +kernel
  obtain ⟨t, ht, hret⟩ := Option.map_eq_some_iff.mp h1
  rw [ht, Option.map_some, Option.some.injEq, Prod.mk.injEq] at h2
  obtain ⟨hsto, hans⟩ := h2
  refine ⟨t, ht, hret, hsto, fun hm => ?_⟩
  obtain ⟨r, hr, he'⟩ := List.mem_map.mp (hret ▸ List.mem_singleton_self _ :
    (0, SC_REG_DEV_ID, SC_STATUS_READY) ∈ t.returned.map fun r => (r.num, r.addr, r.result))
  have := hm.returned r hr
  simp only [Prod.mk.injEq] at he'
  rw [he'.1, he'.2.2, hans] at this
  exact absurd this (by decide)

end SmartEth.Readers
