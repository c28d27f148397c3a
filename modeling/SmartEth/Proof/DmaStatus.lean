import SmartEth.Framework.Run
import SmartEth.Impl.Nic

/-!
# DMA status reads

Register accesses and runs of `process_dma`, each under `g_reg_mtx`, in any
order; left out are direct writes of `DMA_STS` and resets. A read of `DMA_STS`
shows `m_busy` of the engine, which is set only while `process_dma` holds the
lock: whoever reads finds it clear (`busy_eq_false`). So the status is truthful
exactly while no transfer is to be executed (`truthful_iff`).
-/

namespace SmartEth

/-! ## The register and the transfers -/

structure DmaStatus where
  nic : SmartNic
  /-- A transfer was started that `process_dma` has not executed. -/
  started : Bool

inductive DmaStatusEvent where
  | write (addr : Addr) (data : Word)
  | read (addr : Addr)
  | processDma (r : Replies)

namespace DmaStatus

/-- A `DMA_CTRL` write with the start bit. -/
def isStart : DmaStatusEvent → Bool
  | .write addr data => addr = SC_REG_DMA_CTRL ∧ data &&& SC_DMA_START ≠ 0
  | _ => false

def step (s : DmaStatus) : DmaStatusEvent → Option DmaStatus
  | .write addr data =>
    if addr &&& 3 = 0 ∧ addr ≠ SC_REG_DMA_STS ∧ ¬ (addr = SC_REG_CTRL ∧ data &&& SC_CTRL_RESET ≠ 0) then
      some ⟨(s.nic.onMmioWrite addr data).1, s.started || isStart (.write addr data)⟩
    else none
  | .read _ => some s
  | .processDma r =>
    if s.nic.dmaPending then some ⟨(s.nic.processDmaBody.runWith r).1, false⟩ else some s

/-- The NIC as constructed, its pointers set or not. -/
def init (bridge netif : Bool) : DmaStatus :=
  ⟨{ SmartNic.new with bridge := bridge, netif := netif }, false⟩

/-- What a read of `DMA_STS` shows. -/
def busy (nic : SmartNic) : Bool := nic.onMmioRead SC_REG_DMA_STS &&& SC_STATUS_DMA_BSY != 0

/-- The status is busy exactly while a transfer is to be executed. -/
def Truthful (s : DmaStatus) : Prop := busy s.nic = true ↔ s.started = true

/-! ## What a read shows -/

open SmartNic

/-- A read takes the busy bit from the engine. -/
theorem busy_eq_false {nic : SmartNic} (h : nic.dma.busy = false) : busy nic = false := by
  have hs : nic.dma.status = 0 := by rw [DmaEngine.status, h]; rfl
  have h2 : (~~~0x02 : Word) &&& SC_STATUS_DMA_BSY = 0 := by decide
  rw [busy, onMmioRead, if_pos rfl, hs, bne_self_eq_false, if_neg Bool.false_ne_true, bne_eq_false_iff_eq]
  rw [show (0 : Word) = 0#32 from rfl, BitVec.or_zero, BitVec.and_assoc, h2]
  exact BitVec.and_zero

theorem onMmioWrite_busy (nic : SmartNic) (addr : Addr) (data : Word) :
    (nic.onMmioWrite addr data).1.dma.busy = nic.dma.busy := by
  simp only [onMmioWrite, startDma, setReg, DmaEngine.configure]
  split <;> split <;> rfl

/-- A START write leaves a transfer pending; without a reset, other writes keep
what is pending. -/
theorem onMmioWrite_dmaPending (nic : SmartNic) (addr : Addr) (data : Word) :
    (nic.onMmioWrite addr data).1.dmaPending = (nic.dmaPending || isStart (.write addr data)) := by
  simp only [onMmioWrite, startDma, setReg, isStart]
  split <;> split <;> simp_all

/-- A transfer is over when `DmaEngine::start` returns. -/
theorem start_busy {d : DmaEngine} (h : d.busy = false) (readCb : Addr → Word → NicM (Option (List Byte)))
    (writeCb : Addr → List Byte → NicM Bool) (r : Replies) :
    ((d.start readCb writeCb).exec Replies.answer r).1.1.busy = false := by
  rw [DmaEngine.start]
  split
  · exact h
  · dsimp only
    split <;> rw [Prog.exec_bind] <;> rfl

theorem raiseIrq_dma (nic : SmartNic) (cause vector : Word) (r : Replies) :
    ((nic.raiseIrq cause vector).exec Replies.answer r).1.dma = nic.dma := by
  unfold raiseIrq
  dsimp only
  split <;> rfl

theorem processDmaBody_busy {nic : SmartNic} (h : nic.dma.busy = false) (r : Replies) :
    (nic.processDmaBody.runWith r).1.dma.busy = false := by
  rw [NicM.runWith, processDmaBody, Prog.exec_bind]
  have hb := start_busy h nic.dmaReadBridge nic.dmaWriteBridge r
  generalize (nic.dma.start nic.dmaReadBridge nic.dmaWriteBridge).exec Replies.answer r = x at hb
  dsimp only
  split
  · rw [Prog.exec_bind]
    exact (congrArg DmaEngine.busy (raiseIrq_dma _ _ _ _)).trans hb
  · exact hb

/-- What every step keeps. -/
structure Inv (s : DmaStatus) : Prop where
  busy : s.nic.dma.busy = false
  pending : s.started = true → s.nic.dmaPending = true

theorem Inv.step {s t : DmaStatus} {e : DmaStatusEvent} (h : Inv s) (he : s.step e = some t) : Inv t := by
  cases e with
  | write addr data =>
    simp only [DmaStatus.step, Option.ite_none_right_eq_some, Option.some.injEq] at he
    obtain ⟨-, rfl⟩ := he
    refine ⟨(onMmioWrite_busy _ _ _).trans h.busy, fun hs => ?_⟩
    rw [onMmioWrite_dmaPending]
    rw [Bool.or_eq_true] at hs ⊢
    exact hs.imp_left h.pending
  | read addr =>
    cases he; exact h
  | processDma r =>
    simp only [DmaStatus.step] at he
    split at he <;> cases he
    · exact ⟨processDmaBody_busy h.busy r, nofun⟩
    · exact h

/-- The status is truthful exactly while nothing was started. -/
theorem Inv.truthful {s : DmaStatus} (h : Inv s) : Truthful s ↔ s.started = false := by
  rw [Truthful, busy_eq_false h.busy]
  cases s.started <;> decide

/-- A step leaves the status truthful unless it starts a transfer. -/
theorem Inv.truthful_step {s t : DmaStatus} {e : DmaStatusEvent} (h : Inv s) (hs : Truthful s)
    (he : s.step e = some t) : Truthful t ↔ isStart e = false := by
  rw [h.truthful] at hs
  rw [(h.step he).truthful]
  cases e with
  | write addr data =>
    simp only [DmaStatus.step, Option.ite_none_right_eq_some, Option.some.injEq] at he
    obtain ⟨-, rfl⟩ := he
    rw [hs, Bool.false_or]
  | read addr =>
    cases he
    exact iff_of_true hs rfl
  | processDma r =>
    simp only [DmaStatus.step] at he
    split at he <;> cases he
    · exact iff_of_true rfl rfl
    · exact iff_of_true hs rfl

theorem Inv.init (bridge netif : Bool) : Inv (init bridge netif) := ⟨rfl, nofun⟩

/-- In every state that is reached, the status is truthful if and only if nothing
was started since `process_dma` last executed a transfer; so it is throughout a
run if and only if the run has no START write. -/
theorem truthful_iff {bridge netif : Bool} {es : List DmaStatusEvent} {t : DmaStatus}
    (h : run step (init bridge netif) es = some t) :
    (Truthful t ↔ t.started = false) ∧
      (Always step Truthful (init bridge netif) es ↔
        Along step (fun _ e => isStart e = false) (init bridge netif) es) := by
  have hi : Inv (DmaStatus.init bridge netif) := .init bridge netif
  refine ⟨(run_inv (fun _ _ _ hi he => hi.step he) hi h).truthful, ?_⟩
  refine always_iff_along (fun _ _ _ hi he => hi.step he) (fun _ _ _ hi hs he => hi.truthful_step hs he)
    hi (hi.truthful.mpr rfl) ?_
  rw [h]; rfl

/-- A transfer of 64 bytes. -/
def exampleRun : List DmaStatusEvent :=
  [.write SC_REG_DMA_SRC 0x2000, .write SC_REG_DMA_LEN 64, .write SC_REG_DMA_CTRL SC_DMA_START]

/-- The guest reads 'not busy' although the transfer it started was not executed. -/
theorem started_not_busy : ∃ t, run step (init true true) exampleRun = some t ∧ t.started = true ∧
    busy t.nic = false ∧ ¬ Truthful t := by
  have hr : ((run step (init true true) exampleRun).map fun t => (t.started, busy t.nic)) =
      some (true, false) := by decide +kernel
  obtain ⟨t, ht, he⟩ := Option.map_eq_some_iff.mp hr
  rw [Prod.mk.injEq] at he
  refine ⟨t, ht, he.1, he.2, ?_⟩
  rw [Truthful, he.1, he.2]
  decide

theorem truthful_iff_executed : ∃ t,
    run step (init true true) (exampleRun ++ [.processDma ⟨[some []], []⟩, .read SC_REG_DMA_STS]) = some t ∧
    (Truthful t ↔ t.started = false) := by
  have hr : (run step (init true true)
      (exampleRun ++ [.processDma ⟨[some []], []⟩, .read SC_REG_DMA_STS])).isSome = true := by decide +kernel
  obtain ⟨t, ht⟩ := Option.isSome_iff_exists.mp hr
  exact ⟨t, ht, (truthful_iff ht).1⟩

end DmaStatus

end SmartEth
