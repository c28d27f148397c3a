import SmartEth.Framework.Run
import SmartEth.Impl.ScBridge

/-!
# Register reads through the bridge

Any number of vCPU threads in `sc_bridge_mmio_read` while connected, the I/O
thread, and a peer that answers reads in the order of the requests. A thread
holds the BQL from its entry until it waits, and again when it stores what it
got. `mmio_cv` wakes one of those asleep for each answer; a thread may also wake
up by itself.
-/

namespace SmartEth

/-- Where a thread is in `sc_bridge_mmio_read`: entered; `mmio_pending` set; the
request sent, under its number; the BQL released, about to look at
`mmio_pending`; in `qemu_cond_wait`; with what it has picked up. -/
inductive ReaderPc where
  | idle
  | entered (addr : Addr)
  | pending (addr : Addr)
  | sent (addr : Addr) (num : Nat)
  | waiting (addr : Addr) (num : Nat)
  | asleep (addr : Addr) (num : Nat)
  | got (addr : Addr) (num : Nat) (result status : Word)

/-- The thread has set `mmio_pending`, and not picked up an answer yet. -/
def ReaderPc.inFlight : ReaderPc → Bool
  | .pending _ | .sent _ _ | .waiting _ _ | .asleep _ _ => true
  | _ => false

/-- A read that has returned. -/
structure ReadDone where
  num : Nat
  addr : Addr
  result : Word

structure Readers where
  bridge : ScBridge
  bql : Option Nat
  pc : Nat → ReaderPc
  /-- The threads asleep on `mmio_cv`. -/
  sleepers : List Nat
  toPeer : List (Nat × Msg)
  fromPeer : List (Nat × Msg)
  /-- The number of the next request. -/
  count : Nat
  /-- The data the peer has answered, by request. -/
  answers : List (Nat × Word)
  returned : List ReadDone
  /-- What was stored into `regs`: the request it was stored for, the index, the data. -/
  stored : List (Nat × Addr × Word)

inductive ReaderEvent where
  | enter (t : Nat) (addr : Addr)
  | setPending (t : Nat)
  | send (t : Nat)
  | unlock (t : Nat)
  | check (t : Nat)
  | wake (t : Nat)
  | finish (t : Nat)
  | peer (data : Word)
  | io (woken : Option Nat)

namespace Readers

def setPc (s : Readers) (t : Nat) (pc : ReaderPc) : Readers :=
  { s with pc := fun u => if u = t then pc else s.pc u }

/-- A thread asleep looks at `mmio_pending` again. -/
def rouse (s : Readers) (t : Nat) : Readers :=
  match s.pc t with
  | .asleep addr num => { s.setPc t (.waiting addr num) with sleepers := s.sleepers.erase t }
  | _ => s

def step (s : Readers) : ReaderEvent → Option Readers
  | .enter t addr =>
    match s.pc t with
    | .idle =>
      if s.bql = none ∧ s.bridge.connected ∧ addr < SC_REG_COUNT then
        some { s.setPc t (.entered addr) with bql := some t }
      else none
    | _ => none
  | .setPending t =>
    match s.pc t with
    | .entered addr => some { s.setPc t (.pending addr) with bridge := s.bridge.mmioReadBegin }
    | _ => none
  | .send t =>
    match s.pc t with
    | .pending addr =>
      some { s.setPc t (.sent addr s.count) with
        toPeer := s.toPeer ++ [(s.count, mmioReadReq addr)]
        count := s.count + 1 }
    | _ => none
  | .unlock t =>
    match s.pc t with
    | .sent addr num => some { s.setPc t (.waiting addr num) with bql := none }
    | _ => none
  | .check t =>
    match s.pc t with
    | .waiting addr num =>
      if s.bridge.mmioPending then
        some { s.setPc t (.asleep addr num) with sleepers := s.sleepers ++ [t] }
      else some (s.setPc t (.got addr num s.bridge.mmioRespData s.bridge.mmioRespStatus))
    | _ => none
  | .wake t => if t ∈ s.sleepers then some (s.rouse t) else none
  | .finish t =>
    match s.pc t with
    | .got addr num result status =>
      if s.bql = none then
        let (bridge, value) := s.bridge.mmioReadFinish addr result status
        some { s.setPc t .idle with
          bridge := bridge
          returned := s.returned ++ [⟨num, addr, value⟩]
          stored := s.stored ++ if status ≠ PcieStatus.ok.code then [] else [(num, addr >>> 2, result)] }
      else none
    | _ => none
  | .peer data =>
    match s.toPeer with
    | [] => none
    | (num, _) :: rest =>
      some { s with
        toPeer := rest
        fromPeer := s.fromPeer ++ [(num, mmioReadResp data)]
        answers := s.answers ++ [(num, data)] }
  | .io woken =>
    match s.fromPeer with
    | [] => none
    | (_, m) :: rest =>
      let h := s.bridge.handleMsg (fun _ => 0) m
      let s' : Readers := { s with bridge := h.bridge, fromPeer := rest }
      match woken with
      | some t => if h.signal ∧ t ∈ s.sleepers then some (s'.rouse t) else none
      | none => if h.signal ∧ s.sleepers ≠ [] then none else some s'

/-! ## What a step does -/

section

variable {s s' : Readers} {t : Nat}

theorem step_enter {addr : Addr} (h : s.step (.enter t addr) = some s') :
    s.pc t = .idle ∧ s' = { s.setPc t (.entered addr) with bql := some t } := by
  simp only [step] at h
  split at h
  · rename_i hpc
    rw [Option.ite_none_right_eq_some, Option.some.injEq] at h
    exact ⟨hpc, h.2.symm⟩
  · simp at h

theorem step_setPending (h : s.step (.setPending t) = some s') : ∃ addr, s.pc t = .entered addr ∧
    s' = { s.setPc t (.pending addr) with bridge := s.bridge.mmioReadBegin } := by
  simp only [step] at h
  split at h
  · rename_i addr hpc
    exact ⟨addr, hpc, (Option.some.inj h).symm⟩
  · simp at h

theorem step_send (h : s.step (.send t) = some s') : ∃ addr, s.pc t = .pending addr ∧
    s' = { s.setPc t (.sent addr s.count) with
      toPeer := s.toPeer ++ [(s.count, mmioReadReq addr)]
      count := s.count + 1 } := by
  simp only [step] at h
  split at h
  · rename_i addr hpc
    exact ⟨addr, hpc, (Option.some.inj h).symm⟩
  · simp at h

theorem step_unlock (h : s.step (.unlock t) = some s') : ∃ addr num, s.pc t = .sent addr num ∧
    s' = { s.setPc t (.waiting addr num) with bql := none } := by
  simp only [step] at h
  split at h
  · rename_i addr num hpc
    exact ⟨addr, num, hpc, (Option.some.inj h).symm⟩
  · simp at h

/-- The thread falls asleep, or picks up what is in the slot. -/
theorem step_check (h : s.step (.check t) = some s') : ∃ addr num, s.pc t = .waiting addr num ∧
    (s.bridge.mmioPending = true ∧
        s' = { s.setPc t (.asleep addr num) with sleepers := s.sleepers ++ [t] } ∨
      s.bridge.mmioPending = false ∧
        s' = s.setPc t (.got addr num s.bridge.mmioRespData s.bridge.mmioRespStatus)) := by
  simp only [step] at h
  split at h
  · rename_i addr num hpc
    refine ⟨addr, num, hpc, ?_⟩
    split at h <;> rename_i hp
    · exact .inl ⟨hp, (Option.some.inj h).symm⟩
    · exact .inr ⟨by simpa using hp, (Option.some.inj h).symm⟩
  · simp at h

theorem step_wake (h : s.step (.wake t) = some s') : t ∈ s.sleepers ∧ s' = s.rouse t := by
  simp only [step, Option.ite_none_right_eq_some, Option.some.injEq] at h
  exact ⟨h.1, h.2.symm⟩

theorem step_finish (h : s.step (.finish t) = some s') : ∃ addr num result status,
    s.pc t = .got addr num result status ∧ s' = { s.setPc t .idle with
      bridge := (s.bridge.mmioReadFinish addr result status).1
      returned := s.returned ++ [⟨num, addr, (s.bridge.mmioReadFinish addr result status).2⟩]
      stored := s.stored ++ if status ≠ PcieStatus.ok.code then [] else [(num, addr >>> 2, result)] } := by
  simp only [step] at h
  split at h
  · rename_i addr num result status hpc
    rw [Option.ite_none_right_eq_some, Option.some.injEq] at h
    exact ⟨addr, num, result, status, hpc, h.2.symm⟩
  · simp at h

theorem step_peer {data : Word} (h : s.step (.peer data) = some s') : ∃ num m rest,
    s.toPeer = (num, m) :: rest ∧ s' = { s with
      toPeer := rest
      fromPeer := s.fromPeer ++ [(num, mmioReadResp data)]
      answers := s.answers ++ [(num, data)] } := by
  simp only [step] at h
  split at h
  · simp at h
  · rename_i num m rest hq
    exact ⟨num, m, rest, hq, (Option.some.inj h).symm⟩

/-- A message is handled, and a thread roused if there is one to be woken up. -/
theorem step_io {woken : Option Nat} (h : s.step (.io woken) = some s') : ∃ num m rest,
    s.fromPeer = (num, m) :: rest ∧
      let r : Readers := { s with bridge := (s.bridge.handleMsg (fun _ => 0) m).bridge, fromPeer := rest }
      (∃ u ∈ s.sleepers, woken = some u ∧ s' = r.rouse u) ∨
        (¬ ((s.bridge.handleMsg (fun _ => 0) m).signal ∧ s.sleepers ≠ []) ∧ s' = r) := by
  simp only [step] at h
  split at h
  · simp at h
  · rename_i num m rest hq
    refine ⟨num, m, rest, hq, ?_⟩
    split at h
    · rw [Option.ite_none_right_eq_some, Option.some.injEq] at h
      exact .inl ⟨_, h.1.2, rfl, h.2.symm⟩
    · rw [Option.ite_none_left_eq_some, Option.some.injEq] at h
      exact .inr ⟨h.1, h.2.symm⟩

end

/-- Connected, and no thread reading. -/
structure Start (s : Readers) : Prop where
  pc : ∀ t, s.pc t = .idle
  toPeer : s.toPeer = []
  fromPeer : s.fromPeer = []
  returned : s.returned = []
  stored : s.stored = []

/-- What a read returned, and what it stored, is the data of the answer to its own
request. -/
structure Matched (s : Readers) : Prop where
  returned : ∀ r ∈ s.returned, (r.num, r.result) ∈ s.answers
  stored : ∀ r ∈ s.stored, ∃ d ∈ s.returned, r = (d.num, d.addr >>> 2, d.result)

/-- A reader sets `mmio_pending` only while no other read is in flight. -/
def OneReader (s : Readers) : ReaderEvent → Prop
  | .setPending _ => ∀ u, (s.pc u).inFlight = false
  | _ => True

end Readers

end SmartEth
