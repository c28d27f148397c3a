import SmartEth.System.Kernel

/-!
# Waiting with the lock held

`process_dma` and `process_tx` each have a wait in the scope of a `lock_guard`.
A run never has a process that waits with the lock held if and only if those two
waits are never reached: `process_dma` never finds a transfer pending, and no
pass of `process_tx` completes a descriptor (`free_iff_short`). Once one is
reached, any other process that comes to its lock deadlocks the kernel.
-/

namespace SmartEth

open SmartNic

/-- A pass of the inner loop of `process_tx` completes a descriptor: a frame is
pending and rung for, the descriptor is the NIC's, and no DMA fails. -/
structure SmartNic.TxServes (s : SmartNic) (r : Replies) : Prop where
  bridge : s.bridge = true
  pending : s.txPending = true
  ring : ¬ (s.reg SC_REG_TX_RING_SIZE = 0 ∨ s.reg SC_REG_TX_DOORBELL = 0 ∨ s.txRingBase = 0)
  desc : ∃ bs, r.reads.head?.join = some bs ∧
    (SmartEthDesc.ofBytes (overlay (List.replicate SmartEthDesc.size 0) bs)).own = true
  data : ∃ bs, r.reads.tail.head?.join = some bs
  back : r.writes.head?.getD false = true

section

variable {s : SmartNic} {r : Replies}

/-- What follows the descriptor waits if it is the NIC's and no DMA fails. -/
theorem SmartNic.txFetch_isSome (hb : s.bridge = true) (a : Addr) (d : SmartEthDesc) :
    ((s.txFetch a d).runWith r).2.isSome = true ↔
      d.own = true ∧ (∃ bs, r.reads.head?.join = some bs) ∧ r.writes.head?.getD false = true := by
  unfold NicM.runWith txFetch
  cases ho : d.own with
  | false => simp
  | true =>
    simp only [Bool.not_true, Bool.false_eq_true, ite_false, dmaReadBridge_bind hb, Prog.exec_op,
      Replies.answer, true_and]
    cases hr : r.reads.head?.join with
    | none => simp
    | some bs =>
      -- the network takes the frame; only the write-back can fail now
      have hw : ∀ r' : Replies, r'.writes = r.writes →
          ((s.dmaWriteBridge a d.complete.toBytes >>= fun b =>
            if b then pure (s.txAdvance, some (100 + d.length.toNat / 4 * 2))
            else (pure (s, none) : NicM (SmartNic × Option Nat))).exec Replies.answer r').1.2.isSome =
              r.writes.head?.getD false := fun r' he => by
        simp only [dmaWriteBridge_bind hb, Prog.exec_op, Replies.answer, he]
        cases r.writes.head?.getD false <;> rfl
      simp only [Option.some.injEq, exists_eq', true_and]
      rw [← hw { r with reads := r.reads.tail } rfl]
      unfold txSend
      split
      · rfl
      · rfl

/-- A pass waits exactly if it completes a descriptor. -/
theorem SmartNic.processTxIteration_isSome :
    (s.processTxIteration.runWith r).2.isSome = true ↔ s.TxServes r := by
  unfold NicM.runWith processTxIteration
  split
  · rename_i hp
    exact iff_of_false (by simp) fun h => by simp [h.pending] at hp
  split
  · rename_i hr
    exact iff_of_false (by simp) fun h => h.ring hr
  rename_i hp hr
  cases hb : s.bridge with
  | false =>
    refine iff_of_false ?_ fun h => by simp [h.bridge] at hb
    simp [readDesc, dmaReadBridge, hb]
  | true =>
    rw [readDesc_bind hb, Prog.exec_op]
    simp only [Replies.answer]
    cases hd : r.reads.head?.join with
    | none =>
      refine iff_of_false (by simp) fun h => ?_
      obtain ⟨bs, h, -⟩ := h.desc
      rw [hd] at h
      cases h
    | some bs =>
      refine (txFetch_isSome hb _ _).trans ⟨fun hs => ?_, fun h => ?_⟩
      · obtain ⟨ho, hdata, hw⟩ := hs
        exact ⟨hb, by simpa using hp, hr, ⟨bs, hd, ho⟩, hdata, hw⟩
      · obtain ⟨bs', h', ho⟩ := h.desc
        obtain rfl := Option.some.inj (hd.symm.trans h')
        exact ⟨ho, h.data, h.back⟩

end

namespace Kernel

/-- The process that runs is about to come to a wait in the scope of its lock. -/
def Holds (s : Kernel) (r : Replies) (p : ScProcess) : Prop :=
  p = .processDma ∧ s.loc p = .lock ∨ p = .processTx ∧ s.loc p = .first ∧ s.nic.TxServes r

/-- What a process does up to its next wait or lock, as to the lock. -/
inductive Section (s : Kernel) (r : Replies) (p : ScProcess) (t : Kernel) : Prop
  | release (hp : p = .processDma ∨ p = .processTx) (loc : s.loc p = .second) (holder : t.holder = none)
      (deadlock : t.deadlock = s.deadlock)
  | hold (why : Holds s r p) (free : s.holder = none) (holder : t.holder = some p) (loc : t.loc p = .second)
      (running : t.running = none)
  | stuck (loc : p = .processDma ∨ p = .processTx → s.loc p ≠ .second) (held : s.holder ≠ none)
      (eq : t = { s with deadlock := true })
  | other (loc : p = .processDma ∨ p = .processTx → s.loc p ≠ .second) (why : ¬ Holds s r p)
      (holder : t.holder = s.holder) (deadlock : t.deadlock = s.deadlock)
      (locs : ∀ q ≠ p, t.loc q = s.loc q)

variable {s t : Kernel} {r : Replies}

theorem loc_suspend_self (s : Kernel) (p : ScProcess) (l : ScLoc) (w : ScWait) :
    (s.suspend p l w).loc p = l := by
  simp only [suspend, setLoc, ite_true]

theorem locked_section {p : ScProcess} {body : Kernel} (loc : p = .processDma ∨ p = .processTx → s.loc p ≠ .second)
    (h : s.holder = none → Section s r p body) : Section s r p (s.locked body) := by
  by_cases hf : s.holder = none
  · rw [locked, if_pos hf]; exact h hf
  · rw [locked, if_neg hf]; exact .stuck loc hf rfl

theorem suspend_section {p : ScProcess} {nic : SmartNic} {l : ScLoc} {w : ScWait}
    (loc : p = .processDma ∨ p = .processTx → s.loc p ≠ .second) (why : ¬ Holds s r p) :
    Section s r p ({ s with nic := nic }.suspend p l w) :=
  .other loc why rfl rfl fun _ hq => if_neg hq

theorem setLoc_section {p : ScProcess} {nic : SmartNic} {l : ScLoc}
    (loc : p = .processDma ∨ p = .processTx → s.loc p ≠ .second) (why : ¬ Holds s r p) :
    Section s r p ({ s with nic := nic }.setLoc p l) :=
  .other loc why rfl rfl fun _ hq => if_neg hq

theorem runPollIrq_section : Section s r .pollIrq s.runPollIrq := by
  have loc : ScProcess.pollIrq = .processDma ∨ ScProcess.pollIrq = .processTx → s.loc .pollIrq ≠ .second :=
    by simp
  have why : ¬ Holds s r .pollIrq := by simp [Holds]
  unfold runPollIrq
  split
  · exact suspend_section loc why
  · exact locked_section loc fun _ => suspend_section loc why

theorem runProcessDma_section : Section s r .processDma (s.runProcessDma r) := by
  unfold runProcessDma
  split
  case h_1 hl =>
    exact suspend_section (fun _ => by simp [hl]) (by simp [Holds, hl])
  case h_2 hl =>
    split
    · exact suspend_section (fun _ => by simp [hl]) (by simp [Holds, hl])
    · exact setLoc_section (fun _ => by simp [hl]) (by simp [Holds, hl])
  case h_3 hl =>
    exact locked_section (fun _ => by simp [hl]) fun hf =>
      .hold (.inl ⟨rfl, hl⟩) hf rfl (loc_suspend_self ..) rfl
  case h_4 hl =>
    exact .release (.inl rfl) hl rfl rfl

theorem runProcessTx_section : Section s r .processTx (s.runProcessTx r) := by
  unfold runProcessTx
  split
  case h_1 hl =>
    exact suspend_section (fun _ => by simp [hl]) (by simp [Holds, hl])
  case h_2 hl =>
    have hloc : ScProcess.processTx = .processDma ∨ ScProcess.processTx = .processTx →
        s.loc .processTx ≠ .second := fun _ => by simp [hl]
    have hs := processTxIteration_isSome (s := s.nic) (r := r)
    dsimp only
    split
    case h_1 hd =>
      refine locked_section hloc fun _ => setLoc_section hloc fun hw => ?_
      obtain ⟨hp, -⟩ | ⟨-, -, hw⟩ := hw
      · cases hp
      · rw [hd] at hs
        cases hs.mpr hw
    case h_2 delay hd =>
      rw [hd] at hs
      exact locked_section hloc fun hf => .hold (.inr ⟨rfl, hl, hs.mp rfl⟩) hf rfl (loc_suspend_self ..) rfl
  case h_3 hl =>
    exact .release (.inr rfl) hl rfl rfl
  case h_4 hl =>
    refine locked_section (fun _ => by simp [hl]) fun _ =>
      suspend_section (fun _ => by simp [hl]) (by simp [Holds, hl])

theorem runProcessRx_section : Section s r .processRx s.runProcessRx := by
  have loc : ScProcess.processRx = .processDma ∨ ScProcess.processRx = .processTx →
      s.loc .processRx ≠ .second := by simp
  have why : ¬ Holds s r .processRx := by simp [Holds]
  unfold runProcessRx
  split
  · split <;> exact suspend_section loc why
  · exact suspend_section loc why
  · exact setLoc_section loc why

theorem runProcess_section (p : ScProcess) : Section s r p (s.runProcess r p) := by
  cases p with
  | pollIrq => exact runPollIrq_section
  | processDma => exact runProcessDma_section
  | processTx => exact runProcessTx_section
  | processRx => exact runProcessRx_section

/-- Who holds the lock in a wait is at its second. -/
def HolderWaits (s : Kernel) : Prop :=
  ∀ p, s.holder = some p → (p = .processDma ∨ p = .processTx) ∧ s.loc p = .second

theorem Section.holderWaits {p : ScProcess} (h : Section s r p t) (hi : HolderWaits s) : HolderWaits t := by
  intro q hq
  cases h with
  | release _ _ holder _ =>
    rw [holder] at hq; cases hq
  | hold why _ holder loc _ =>
    obtain rfl := Option.some.inj (holder.symm.trans hq)
    refine ⟨?_, loc⟩
    obtain h | h := why
    · exact .inl h.1
    · exact .inr h.1
  | stuck _ _ eq =>
    subst eq; exact hi q hq
  | other loc _ holder _ locs =>
    rw [holder] at hq
    obtain ⟨hp, hl⟩ := hi q hq
    refine ⟨hp, ?_⟩
    rw [locs q fun e => loc (e ▸ hp) (e ▸ hl)]
    exact hl

/-- A section leaves the lock free if and only if it is not one of the two. -/
theorem Section.free {p : ScProcess} (h : Section s r p t) (hi : HolderWaits s) (hf : Free s)
    (hr : s.running = some p) : Free t ↔ ¬ Holds s r p := by
  -- a holder that runs has just come back from its second wait
  have hloc : ∀ q, s.holder = some q → (p = .processDma ∨ p = .processTx) ∧ s.loc p = .second := fun q hq => by
    obtain rfl := Option.some.inj (hr.symm.trans (hf.holder q hq))
    exact hi p hq
  cases h with
  | release _ loc holder deadlock =>
    refine iff_of_true ⟨fun q hq => ?_, deadlock.trans hf.deadlock⟩ ?_
    · rw [holder] at hq; cases hq
    · rintro (⟨-, h⟩ | ⟨-, h, -⟩) <;> rw [loc] at h <;> cases h
  | hold why _ holder _ running =>
    refine iff_of_false (fun h => ?_) (not_not.mpr why)
    have := h.holder p holder
    rw [running] at this
    cases this
  | stuck loc held eq =>
    obtain ⟨q, hq⟩ := Option.ne_none_iff_exists'.mp held
    obtain ⟨hp, hl⟩ := hloc q hq
    exact absurd hl (loc hp)
  | other loc why holder deadlock _ =>
    refine iff_of_true ⟨fun q hq => ?_, deadlock.trans hf.deadlock⟩ why
    rw [holder] at hq
    obtain ⟨hp, hl⟩ := hloc q hq
    exact absurd hl (loc hp)

/-- The step is not one after which a process waits in the scope of its lock. -/
def Short (s : Kernel) : KernelEvent → Prop
  | .run r => ∀ p, s.running = some p → ¬ Holds s r p
  | _ => True

variable {reg : ScProcess → Registration}

/-- A step of another kind leaves the lock, and who runs unless nobody does. -/
theorem step_other {e : KernelEvent} (he : step reg s e = some t) (hr : ∀ r, e ≠ .run r) :
    t.holder = s.holder ∧ t.deadlock = s.deadlock ∧ t.loc = s.loc ∧
      (s.running ≠ none → t.running = s.running) := by
  cases e with
  | run r => exact absurd rfl (hr r)
  | pick p =>
    simp only [step] at he
    split at he
    · rw [Option.ite_none_right_eq_some, Option.some.injEq] at he
      obtain ⟨⟨hn, -⟩, rfl⟩ := he
      exact ⟨rfl, rfl, rfl, fun h => absurd hn h⟩
    · cases he
  | wake p =>
    simp only [step] at he
    split at he
    · rw [Option.ite_none_right_eq_some, Option.some.injEq] at he
      obtain ⟨-, rfl⟩ := he
      exact ⟨rfl, rfl, rfl, fun _ => rfl⟩
    · cases he
  | write addr data | reset | packet data r | deliver e | advance now =>
    simp only [step, Option.ite_none_right_eq_some, Option.some.injEq] at he
    obtain ⟨-, rfl⟩ := he
    exact ⟨rfl, rfl, rfl, fun _ => rfl⟩

theorem step_run (he : step reg s (.run r) = some t) :
    ∃ p, s.running = some p ∧ s.deadlock = false ∧ t = s.runProcess r p := by
  simp only [step] at he
  split at he
  · rename_i p hp
    split at he
    · cases he
    · rename_i hd
      exact ⟨p, hp, by simpa using hd, (Option.some.inj he).symm⟩
  · cases he

theorem step_holderWaits {e : KernelEvent} (hi : HolderWaits s) (he : step reg s e = some t) :
    HolderWaits t := by
  by_cases hr : ∃ r, e = .run r
  · obtain ⟨r, rfl⟩ := hr
    obtain ⟨p, -, -, rfl⟩ := step_run he
    exact (runProcess_section p).holderWaits hi
  · obtain ⟨hh, -, hl, -⟩ := step_other he fun r h => hr ⟨r, h⟩
    intro q hq
    rw [hl]
    exact hi q (hh ▸ hq)

theorem step_free {e : KernelEvent} (hi : HolderWaits s) (hf : Free s) (he : step reg s e = some t) :
    Free t ↔ Short s e := by
  by_cases hr : ∃ r, e = .run r
  · obtain ⟨r, rfl⟩ := hr
    obtain ⟨p, hp, -, rfl⟩ := step_run he
    rw [(runProcess_section p).free hi hf hp, Short]
    exact ⟨fun h q hq => Option.some.inj (hp.symm.trans hq) ▸ h, fun h => h p hp⟩
  · obtain ⟨hh, hd, -, hrun⟩ := step_other he fun r h => hr ⟨r, h⟩
    refine iff_of_true ⟨fun q hq => ?_, hd.trans hf.deadlock⟩ ?_
    · have hq' := hf.holder q (hh ▸ hq)
      rw [hrun (by rw [hq']; exact Option.some_ne_none q), hq']
    · cases e with
      | run r => exact absurd ⟨r, rfl⟩ hr
      | _ => trivial

/-- Whatever is registered and scheduled: no process waits with the lock held,
and none runs into it, in any state of a run, if and only if no step of the run
takes `process_dma` past its check or completes a descriptor in `process_tx`. -/
theorem free_iff_short {bridge netif : Bool} {es : List KernelEvent}
    (h : (run (step reg) (init reg bridge netif) es).isSome) :
    Always (step reg) Free (init reg bridge netif) es ↔
      Along (step reg) Short (init reg bridge netif) es :=
  always_iff_along (fun _ _ _ hi he => step_holderWaits hi he) (fun _ _ _ hi hf he => step_free hi hf he)
    (fun _ hp => nomatch hp) ⟨fun _ hp => (nomatch hp), rfl⟩ h

/-- All processes run from the start of the simulation. -/
def allRunning : ScProcess → Registration := fun _ => ⟨false, []⟩

/-- Each process comes to its first wait. -/
def exampleBoot : List KernelEvent :=
  [.pick .pollIrq, .run ⟨[], []⟩, .pick .processDma, .run ⟨[], []⟩, .pick .processTx, .run ⟨[], []⟩,
    .pick .processRx, .run ⟨[], []⟩]

/-- A doorbell without a ring, with both sections of the pass of `process_tx` for it; and a section of `poll_irq`. -/
def exampleIdle : List KernelEvent :=
  exampleBoot ++ [.write SC_REG_TX_DOORBELL 1, .deliver .tx, .pick .processTx, .run ⟨[], []⟩, .run ⟨[], []⟩] ++
    (List.range 9).flatMap (fun i => [.advance (10 * (i + 1)), .wake .processDma, .pick .processDma, .run ⟨[], []⟩]) ++
    [.advance 100, .wake .pollIrq, .pick .pollIrq, .run ⟨[], []⟩]

theorem free_iff_short_idle : (∃ t, run (step allRunning) (init allRunning true true) exampleIdle = some t ∧
      (t.now, t.nic.txPending, t.loc .processTx, t.deadlock) = (100, false, .first, false)) ∧
    (Always (step allRunning) Free (init allRunning true true) exampleIdle ↔
      Along (step allRunning) Short (init allRunning true true) exampleIdle) := by
  have hr : (run (step allRunning) (init allRunning true true) exampleIdle).map
      (fun t => (t.now, t.nic.txPending, t.loc .processTx, t.deadlock)) = some (100, false, .first, false) := by
    decide +kernel
  obtain ⟨t, ht, he⟩ := Option.map_eq_some_iff.mp hr
  exact ⟨⟨t, ht, he⟩, free_iff_short (ht ▸ rfl)⟩

/-- A transfer of 256 bytes, from 10 ns to 188 ns. -/
def exampleTransfer : List KernelEvent :=
  exampleBoot ++ [.write SC_REG_DMA_LEN 256, .write SC_REG_DMA_CTRL SC_DMA_START, .advance 10,
    .wake .processDma, .pick .processDma, .run ⟨[], []⟩, .run ⟨[some []], []⟩]

/-- `process_dma` waits with the lock, and `poll_irq` runs into it at 100 ns. -/
theorem lock_held : (∃ t, run (step allRunning) (init allRunning true true) exampleTransfer = some t ∧
      t.running = none ∧ t.holder = some .processDma ∧ ¬ Free t) ∧
    ∃ t, run (step allRunning) (init allRunning true true)
      (exampleTransfer ++ [.advance 100, .wake .pollIrq, .pick .pollIrq, .run ⟨[], []⟩]) = some t ∧
      t.now = 100 ∧ t.deadlock = true := by
  have h1 : ((run (step allRunning) (init allRunning true true) exampleTransfer).map fun t =>
      (t.running, t.holder)) = some (none, some .processDma) := by decide +kernel
  have h2 : ((run (step allRunning) (init allRunning true true)
      (exampleTransfer ++ [.advance 100, .wake .pollIrq, .pick .pollIrq, .run ⟨[], []⟩])).map fun t =>
      (t.now, t.deadlock)) = some (100, true) := by decide +kernel
  obtain ⟨t, ht, he⟩ := Option.map_eq_some_iff.mp h1
  obtain ⟨u, hu, hd⟩ := Option.map_eq_some_iff.mp h2
  rw [Prod.mk.injEq] at he hd
  refine ⟨⟨t, ht, he.1, he.2, fun hf => ?_⟩, u, hu, hd⟩
  have := hf.holder _ he.2
  rw [he.1] at this
  cases this

end Kernel

end SmartEth
