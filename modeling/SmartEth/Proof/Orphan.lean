import SmartEth.System.Kernel

/-!
# Pending work without a process

With the registration of the constructor no process is ever activated
(`run_never`), so whatever is pending stays so until a `BRIDGE_RESET`. It is
attended to exactly if nothing was started since (`attended_iff`).
-/

namespace SmartEth

open SmartNic

namespace SmartNic

/-- A register write that leaves work for a process: a START, or a doorbell that
is not 0. -/
def asksForWork (addr : Addr) (data : Word) : Bool :=
  (addr = SC_REG_DMA_CTRL ∧ data &&& SC_DMA_START ≠ 0) ∨ (addr = SC_REG_TX_DOORBELL ∧ data ≠ 0)

/-- Work is pending. -/
def pending (s : SmartNic) : Bool := s.dmaPending || s.txPending

theorem onMmioWrite_pending (s : SmartNic) (addr : Addr) (data : Word) :
    (s.onMmioWrite addr data).1.pending = (s.pending || asksForWork addr data) := by
  simp only [onMmioWrite, startDma, setReg, pending, asksForWork]
  split <;> split <;> simp_all

/-- The reception of a frame leaves both flags alone. -/
theorem raiseIrq_pending (s : SmartNic) (cause vector : Word) (r : Replies) :
    ((s.raiseIrq cause vector).exec Replies.answer r).1.pending = s.pending := by
  unfold raiseIrq
  dsimp only
  split <;> rfl

theorem rxDeliver_pending (s : SmartNic) (data : List Byte) (a : Addr) (d : SmartEthDesc) (r : Replies) :
    ((s.rxDeliver data a d).exec Replies.answer r).1.pending = s.pending := by
  unfold rxDeliver
  dsimp only
  rw [Prog.exec_bind]
  split
  · rw [Prog.exec_bind]
    split
    · split
      · exact raiseIrq_pending _ _ _ _
      · rfl
    · rfl
  · rfl

theorem onPacketRx_pending (s : SmartNic) (data : List Byte) (r : Replies) :
    ((s.onPacketRx data).runWith r).pending = s.pending := by
  unfold NicM.runWith onPacketRx
  dsimp only
  split
  · rfl
  split
  · rfl
  rw [Prog.exec_bind]
  split
  · rfl
  split
  · rfl
  · exact rxDeliver_pending _ _ _ _ _

end SmartNic

namespace Kernel

/-- Whether work was asked for since the last `BRIDGE_RESET`, or before if `b`. -/
def orphaned : Bool → List KernelEvent → Bool
  | b, [] => b
  | b, .write addr data :: es => orphaned (b || asksForWork addr data) es
  | _, .reset :: es => orphaned false es
  | b, _ :: es => orphaned b es

/-- No process was activated. -/
structure Never (s : Kernel) : Prop where
  wait : ∀ p, s.wait p = .never
  running : s.running = none

theorem Never.init (bridge netif : Bool) : Never (init registration bridge netif) :=
  ⟨fun p => by cases p <;> rfl, rfl⟩

/-- Without sensitivity, no event activates a process. -/
theorem notify_never (e : ScEvent) (p : ScProcess) : notify registration e p .never = .never := by
  cases p <;> rfl

/-- What a step does to a simulation that never starts. -/
theorem step_never {s t : Kernel} {e : KernelEvent} (h : Never s) (he : step registration s e = some t) :
    Never t ∧ ∀ es, orphaned s.nic.pending (e :: es) = orphaned t.nic.pending es := by
  cases e with
  | write addr data =>
    simp only [step, Option.ite_none_right_eq_some, Option.some.injEq] at he
    obtain ⟨-, rfl⟩ := he
    refine ⟨⟨h.wait, h.running⟩, fun es => ?_⟩
    rw [orphaned, onMmioWrite_pending]
  | reset =>
    simp only [step, Option.ite_none_right_eq_some, Option.some.injEq] at he
    obtain ⟨-, rfl⟩ := he
    exact ⟨⟨h.wait, h.running⟩, fun es => rfl⟩
  | packet data r =>
    simp only [step, Option.ite_none_right_eq_some, Option.some.injEq] at he
    obtain ⟨-, rfl⟩ := he
    refine ⟨⟨h.wait, h.running⟩, fun es => ?_⟩
    rw [orphaned, onPacketRx_pending]
    all_goals exact nofun
  | pick p =>
    simp only [step, h.wait p] at he
    cases he
  | run r =>
    simp only [step, h.running] at he
    cases he
  | wake p =>
    simp only [step, h.wait p] at he
    cases he
  | deliver e =>
    simp only [step, Option.ite_none_right_eq_some, Option.some.injEq] at he
    obtain ⟨-, rfl⟩ := he
    refine ⟨⟨fun p => ?_, h.running⟩, fun es => rfl⟩
    dsimp only
    rw [h.wait p, notify_never]
  | advance now =>
    simp only [step, Option.ite_none_right_eq_some, Option.some.injEq] at he
    obtain ⟨-, rfl⟩ := he
    exact ⟨⟨h.wait, h.running⟩, fun es => rfl⟩

/-- A run of a simulation that never starts. -/
theorem run_never {s t : Kernel} {es : List KernelEvent} (h : Never s)
    (hr : run (step registration) s es = some t) :
    Never t ∧ t.nic.pending = orphaned s.nic.pending es := by
  induction es generalizing s with
  | nil => cases hr; exact ⟨h, rfl⟩
  | cons e es ih =>
    obtain ⟨s', he, hr'⟩ := run_cons_some.mp hr
    obtain ⟨h', ho⟩ := step_never h he
    rw [ho]
    exact ih h' hr'

/-- Where no process was activated, work is attended to only if there is none. -/
theorem Never.attended {s : Kernel} (h : Never s) : Attended s ↔ s.nic.pending = false := by
  rw [pending, Bool.or_eq_false_iff]
  constructor
  · rintro ⟨hd, ht⟩
    rw [h.wait] at hd ht
    refine ⟨Bool.eq_false_iff.mpr fun e => ?_, Bool.eq_false_iff.mpr fun e => ?_⟩
    · cases hd e
    · rcases ht e with h' | h'
      · cases h'
      · exact h'.1 rfl
  · rintro ⟨hd, ht⟩
    exact ⟨fun e => (by rw [hd] at e; cases e), fun e => (by rw [ht] at e; cases e)⟩

/-- In every state that is reached, pending work is attended to if and only if no
work was asked for since the last `BRIDGE_RESET`. -/
theorem attended_iff {bridge netif : Bool} {es : List KernelEvent} {t : Kernel}
    (h : run (step registration) (init registration bridge netif) es = some t) :
    Attended t ↔ orphaned false es = false := by
  obtain ⟨hn, hp⟩ := run_never (.init bridge netif) h
  rw [hn.attended, hp]
  rfl

/-- A doorbell, and a reset. -/
def exampleReset : List KernelEvent := [.write SC_REG_TX_DOORBELL 1, .reset, .deliver .tx, .advance 1000]

theorem attended_iff_reset : ∃ t,
    run (step registration) (init registration true true) exampleReset = some t ∧
    (Attended t ↔ orphaned false exampleReset = false) := by
  have hr : (run (step registration) (init registration true true) exampleReset).isSome = true := by
    decide +kernel
  obtain ⟨t, ht⟩ := Option.isSome_iff_exists.mp hr
  exact ⟨t, ht, attended_iff ht⟩

/-- A transfer is started, and a frame rung for; a millisecond passes. -/
def exampleOrphan : List KernelEvent :=
  [.write SC_REG_DMA_LEN 64, .write SC_REG_DMA_CTRL SC_DMA_START, .write SC_REG_TX_DOORBELL 1,
    .deliver .tx, .advance 1000000]

/-- Neither process was activated. -/
theorem never_attended : ∃ t,
    run (step registration) (init registration true true) exampleOrphan = some t ∧
    t.nic.dmaPending = true ∧ t.nic.txPending = true ∧ t.wait .processDma = .never ∧
    t.wait .processTx = .never ∧ ¬ Attended t := by
  have hr : ((run (step registration) (init registration true true) exampleOrphan).map fun t =>
      (t.nic.dmaPending, t.nic.txPending)) = some (true, true) := by decide +kernel
  obtain ⟨t, ht, he⟩ := Option.map_eq_some_iff.mp hr
  rw [Prod.mk.injEq] at he
  obtain ⟨hn, -⟩ := run_never (.init true true) ht
  refine ⟨t, ht, he.1, he.2, hn.wait _, hn.wait _, fun ha => ?_⟩
  rw [hn.attended, pending, he.1] at ha
  cases ha

end Kernel

end SmartEth
