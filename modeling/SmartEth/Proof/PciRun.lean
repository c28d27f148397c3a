import SmartEth.System.PciRun

/-!
# The Phase 2 device on its own

A reset clears `IRQ_STS` without a word to the interrupt pin, and neither stops the
timer nor forgets the transfer that it will perform. So the pin follows the status
exactly in the runs that reset only while no cause is set (`level_iff_resetsIdle`), and
a reset quiesces the device exactly while the timer is not set (`quiesces_iff`).
-/

namespace SmartEth

namespace SmartEthPci

variable {s : SmartEthPci} {addr : Addr} {val : BitVec 64}

/-- What a register write does to the interrupt status, the pin and the timer. -/
inductive WriteEffect (s : SmartEthPci) (addr : Addr) (val : BitVec 64) : Prop
  | reset (reg : addr = REG_CTRL) (bit : val &&& CTRL_RESET ≠ 0)
      (eq : s.mmioWrite addr val = ({ s with regs := fun _ => 0 }.setMac, []))
  | ack (reg : addr = REG_IRQ_STS)
      (eq : s.mmioWrite addr val =
        (s.setReg (REG_IRQ_STS >>> 2) (s.regs (REG_IRQ_STS >>> 2) &&& ~~~val.setWidth 32),
          if s.regs (REG_IRQ_STS >>> 2) &&& ~~~val.setWidth 32 = 0 ∧ ¬ s.msix then [.intx false] else []))
  | start (reg : addr = REG_DMA_CTRL) (bit : val &&& DMA_START.setWidth 64 ≠ 0)
      (eq : s.mmioWrite addr val = ((s.setReg (REG_DMA_CTRL >>> 2) (val.setWidth 32)).startDma, []))
  | test (reg : addr = REG_IRQ_TEST) (eq : s.mmioWrite addr val = s.raiseIrq IRQ_TEST)
  | other (noReset : ¬ (addr = REG_CTRL ∧ val &&& CTRL_RESET ≠ 0)) {regs : Addr → Word}
      (eq : s.mmioWrite addr val = ({ s with regs := regs }, []))
      (status : regs (REG_IRQ_STS >>> 2) = s.regs (REG_IRQ_STS >>> 2))

theorem mmioWrite_effect (ha : addr &&& 3 = 0) : WriteEffect s addr val := by
  have hset : ∀ i, ¬ (addr = REG_CTRL ∧ val &&& CTRL_RESET ≠ 0) →
      s.mmioWrite addr val = (s.setReg i (val.setWidth 32), []) → REG_IRQ_STS >>> 2 ≠ i → WriteEffect s addr val :=
    fun i hr heq hi => .other hr heq (regs_setReg_ne hi)
  by_cases hge : addr ≥ REG_COUNT * 4
  · refine .other (fun h => ?_) (?_ : s.mmioWrite addr val = ({ s with regs := s.regs }, [])) rfl
    · rw [h.1] at hge
      exact absurd hge (by decide)
    · rw [mmioWrite, if_pos hge]
  by_cases hctrl : addr = REG_CTRL
  · by_cases hr : val &&& CTRL_RESET = 0
    · refine hset (REG_CTRL >>> 2) (fun h => h.2 hr) ?_ (by decide)
      rw [mmioWrite, if_neg hge, if_pos hctrl, if_neg (not_not.mpr hr)]
    · exact .reset hctrl hr (by rw [mmioWrite, if_neg hge, if_pos hctrl, if_pos hr])
  have hnr : ¬ (addr = REG_CTRL ∧ val &&& CTRL_RESET ≠ 0) := fun h => hctrl h.1
  by_cases hirq : addr = REG_IRQ_STS
  · refine .ack hirq ?_
    rw [mmioWrite, if_neg hge, if_neg hctrl, if_pos hirq]
    dsimp only
    rw [regs_setReg_self]
    rfl
  by_cases hdma : addr = REG_DMA_CTRL
  · by_cases hs : val &&& DMA_START.setWidth 64 = 0
    · refine hset (REG_DMA_CTRL >>> 2) hnr ?_ (by decide)
      rw [mmioWrite, if_neg hge, if_neg hctrl, if_neg hirq, if_pos hdma]
      dsimp only
      rw [if_neg (not_not.mpr hs)]
    · refine .start hdma hs ?_
      rw [mmioWrite, if_neg hge, if_neg hctrl, if_neg hirq, if_pos hdma]
      dsimp only
      rw [if_pos hs]
  by_cases htest : addr = REG_IRQ_TEST
  · by_cases hv : val = 0
    · refine .other hnr (?_ : s.mmioWrite addr val = ({ s with regs := s.regs }, [])) rfl
      rw [mmioWrite, if_neg hge, if_neg hctrl, if_neg hirq, if_neg hdma, if_pos htest, if_neg (not_not.mpr hv)]
    · refine .test htest ?_
      rw [mmioWrite, if_neg hge, if_neg hctrl, if_neg hirq, if_neg hdma, if_pos htest, if_pos hv]
  by_cases hro : addr = REG_STATUS ∨ addr = REG_DEV_ID
  · refine .other hnr (?_ : s.mmioWrite addr val = ({ s with regs := s.regs }, [])) rfl
    rw [mmioWrite, if_neg hge, if_neg hctrl, if_neg hirq, if_neg hdma, if_neg htest, if_pos hro]
  · refine hset (addr >>> 2) hnr ?_ fun h => hirq ((shift_inj rfl ha).mp h).symm
    rw [mmioWrite, if_neg hge, if_neg hctrl, if_neg hirq, if_neg hdma, if_neg htest, if_neg hro]

/-- The notification of `smarteth_raise_irq`. -/
theorem raiseIrq_level (h : s.msix = false ∧ s.msi = false) (level : Bool) (bits : Word) :
    PciIrq.levelAfter level (s.raiseIrq bits).2 = true := by
  simp only [raiseIrq, h.1, h.2, Bool.false_eq_true, if_false]
  rfl

theorem raiseIrq_status (bits : Word) :
    (s.raiseIrq bits).1.regs (REG_IRQ_STS >>> 2) = s.regs (REG_IRQ_STS >>> 2) ||| bits := regs_setReg_self _ _ _

/-- What a callback leaves alone. -/
structure Kept (s t : SmartEthPci) : Prop where
  msix : t.msix = s.msix
  msi : t.msi = s.msi
  timer : t.timer = s.timer
  status : t.regs (REG_IRQ_STS >>> 2) = s.regs (REG_IRQ_STS >>> 2)

/-- The callback says nothing, or raises `IRQ_DMA_DONE` as the last thing it does. -/
theorem dmaTimerCb_effect (s : SmartEthPci) (mem : GuestMem) : ∃ u, Kept s u ∧
    (((s.dmaTimerCb mem).1 = u ∧ (s.dmaTimerCb mem).2.2 = []) ∨
      ((s.dmaTimerCb mem).1 = (u.raiseIrq IRQ_DMA_DONE).1 ∧
        (s.dmaTimerCb mem).2.2 = (u.raiseIrq IRQ_DMA_DONE).2)) := by
  have htransfer : ∀ v : SmartEthPci, Kept v (v.transfer mem).1 := by
    intro v
    rw [transfer]
    split
    · exact ⟨rfl, rfl, rfl, rfl⟩
    · exact ⟨rfl, rfl, rfl, rfl⟩
  rw [dmaTimerCb]
  split
  · exact ⟨s, ⟨rfl, rfl, rfl, rfl⟩, .inl ⟨rfl, rfl⟩⟩
  have hv := htransfer { s with dma := { s.dma with len := clampLen s.dma.len } }
  generalize transfer { s with dma := { s.dma with len := clampLen s.dma.len } } mem = r at hv
  obtain ⟨v, m⟩ := r
  have hu : Kept s ({ v with dma := { v.dma with ctrl := v.dma.ctrl &&& ~~~DMA_START } }.setReg
      (REG_DMA_STS >>> 2) 0) := by
    refine ⟨hv.msix, hv.msi, hv.timer, Eq.trans ?_ hv.status⟩
    exact regs_setReg_ne (by decide)
  dsimp only
  split
  · exact ⟨_, hu, .inr ⟨rfl, rfl⟩⟩
  · exact ⟨_, hu, .inl ⟨rfl, rfl⟩⟩

end SmartEthPci

namespace PciRun

open SmartEthPci

variable {s t : PciRun}

theorem step_write {addr : Addr} {val : BitVec 64} (h : s.step (.write addr val) = some t) : addr &&& 3 = 0 ∧
    t = s.next (s.dev.mmioWrite addr val).1 (s.dev.mmioWrite addr val).2 false := by
  simp only [step, Option.ite_none_right_eq_some, Option.some.injEq] at h
  exact ⟨h.1, h.2.symm⟩

theorem step_timer {mem : GuestMem} (h : s.step (.timer mem) = some t) : s.dev.timer = true ∧
    t = s.next ({ s.dev with timer := false }.dmaTimerCb mem).1 ({ s.dev with timer := false }.dmaTimerCb mem).2.2
      (s.dev.dma.ctrl &&& DMA_START ≠ 0) := by
  simp only [step, Option.ite_none_right_eq_some, Option.some.injEq] at h
  exact ⟨h.1, h.2.symm⟩

/-! ## The interrupt pin -/

/-- MSI-X and MSI are disabled. -/
def Intx (s : PciRun) : Prop := s.dev.msix = false ∧ s.dev.msi = false

theorem mmioWrite_irq (s : SmartEthPci) {addr : Addr} (ha : addr &&& 3 = 0) (val : BitVec 64) :
    (s.mmioWrite addr val).1.msix = s.msix ∧ (s.mmioWrite addr val).1.msi = s.msi := by
  cases (mmioWrite_effect ha : WriteEffect s addr val) with
  | reset reg bit eq | ack reg eq | start reg bit eq | test reg eq | other noReset eq status =>
    rw [eq]
    exact ⟨rfl, rfl⟩

theorem Intx.step {e : PciEvent} (h : Intx s) (he : s.intxStep e = some t) : Intx t := by
  cases e with
  | enable msix msi => cases he
  | write addr val =>
    obtain ⟨ha, rfl⟩ := step_write he
    have hirq := mmioWrite_irq s.dev ha val
    exact ⟨hirq.1.trans h.1, hirq.2.trans h.2⟩
  | timer mem =>
    obtain ⟨-, rfl⟩ := step_timer he
    obtain ⟨u, hu, ⟨heq, -⟩ | ⟨heq, -⟩⟩ := dmaTimerCb_effect { s.dev with timer := false } mem
    · exact ⟨(congrArg SmartEthPci.msix heq).trans (hu.msix.trans h.1), (congrArg SmartEthPci.msi heq).trans (hu.msi.trans h.2)⟩
    · exact ⟨(congrArg SmartEthPci.msix heq).trans (hu.msix.trans h.1), (congrArg SmartEthPci.msi heq).trans (hu.msi.trans h.2)⟩

theorem and_not_ne_zero {a b : Word} (h : a &&& ~~~b ≠ 0) : a ≠ 0 := by
  rintro rfl
  exact h BitVec.zero_and

theorem or_ne_zero {a b : Word} (h : b ≠ 0) : a ||| b ≠ 0 := fun ho => h (BitVec.or_eq_zero_iff.mp ho).2

/-- A step that raises an interrupt. -/
theorem Level.raise {u : SmartEthPci} (h : u.msix = false ∧ u.msi = false) {bits : Word} (hb : bits ≠ 0) (moved : Bool) :
    Level (s.next (u.raiseIrq bits).1 (u.raiseIrq bits).2 moved) := by
  refine iff_of_true (raiseIrq_level h _ _) ?_
  rw [irqStatus, next, raiseIrq_status]
  exact or_ne_zero hb

/-- A step that keeps the status, and says nothing. -/
theorem Level.keep (h : Level s) {u : SmartEthPci} (hu : u.regs (REG_IRQ_STS >>> 2) = s.irqStatus) (moved : Bool) :
    Level (s.next u [] moved) := by
  rw [Level, irqStatus, next, hu]
  exact h

theorem level_step {e : PciEvent} (hx : Intx s) (h : Level s) (he : s.intxStep e = some t) :
    Level t ↔ ResetsIdle s e := by
  cases e with
  | enable msix msi => cases he
  | timer mem =>
    obtain ⟨-, rfl⟩ := step_timer he
    refine iff_of_true ?_ False.elim
    obtain ⟨u, hu, ⟨heq, hirq⟩ | ⟨heq, hirq⟩⟩ := dmaTimerCb_effect { s.dev with timer := false } mem
    · rw [heq, hirq]
      exact h.keep hu.status _
    · rw [heq, hirq]
      exact .raise ⟨hu.msix.trans hx.1, hu.msi.trans hx.2⟩ (by decide) _
  | write addr val =>
    obtain ⟨ha, rfl⟩ := step_write he
    have hne : ∀ {a : Addr}, addr = a → a ≠ REG_CTRL → ResetsIdle s (.write addr val) := fun h1 h2 hr =>
      absurd (h1.symm.trans hr.1) h2
    cases (mmioWrite_effect ha : WriteEffect s.dev addr val) with
    | reset reg bit eq =>
      -- the status is cleared, and the pin keeps its level
      rw [eq]
      have hzero : ({ s.dev with regs := fun _ => 0 }.setMac).regs (REG_IRQ_STS >>> 2) = 0 := rfl
      constructor
      · intro hl _
        by_contra hsts
        exact hl.mp (h.mpr hsts) hzero
      · intro hidle
        have hsts := hidle ⟨reg, bit⟩
        refine iff_of_false (fun hl => h.mp hl hsts) (not_not.mpr hzero)
    | ack reg eq =>
      rw [eq]
      refine iff_of_true ?_ (hne reg (by decide))
      rw [Level, irqStatus, next, regs_setReg_self]
      by_cases hz : s.dev.regs (REG_IRQ_STS >>> 2) &&& ~~~val.setWidth 32 = 0
      · rw [if_pos ⟨hz, by simp [hx.1]⟩]
        exact iff_of_false (by simp [PciIrq.levelAfter]) (not_not.mpr hz)
      · rw [if_neg fun hand => hz hand.1]
        exact iff_of_true (h.mpr (and_not_ne_zero hz)) hz
    | start reg bit eq =>
      rw [eq]
      refine iff_of_true (h.keep ?_ false) (hne reg (by decide))
      rfl
    | test reg eq =>
      rw [eq]
      exact iff_of_true (.raise hx (by decide) _) (hne reg (by decide))
    | other noReset eq status =>
      rw [eq]
      exact iff_of_true (h.keep status _) fun hr => absurd hr noReset

/-- From power-on, MSI-X and MSI disabled: the pin follows the status in every state if and only if the device
is reset only while no cause is set. -/
theorem level_iff_resetsIdle {es : List PciEvent} {t : PciRun} (h : run intxStep (init false false) es = some t) :
    Always intxStep Level (init false false) es ↔ Along intxStep ResetsIdle (init false false) es := by
  refine always_iff_along (I := Intx) (fun s e t hs he => hs.step he) (fun s e t hs hl he => level_step hs hl he)
    ⟨rfl, rfl⟩ ?_ (h ▸ rfl)
  exact iff_of_false (by simp [init]) (not_not.mpr rfl)

/-- A test interrupt, acknowledged, and a reset. -/
def exampleAcked : List PciEvent := [.write REG_IRQ_TEST 1, .write REG_IRQ_STS 2, .write REG_CTRL 1]

theorem level_iff_resetsIdle_acked : ∃ t, run intxStep (init false false) exampleAcked = some t ∧
    (Always intxStep Level (init false false) exampleAcked ↔
      Along intxStep ResetsIdle (init false false) exampleAcked) := by
  have hr : (run intxStep (init false false) exampleAcked).isSome = true := by decide +kernel
  obtain ⟨t, ht⟩ := Option.isSome_iff_exists.mp hr
  exact ⟨t, ht, level_iff_resetsIdle ht⟩

/-- A reset while the test interrupt is set: the status is zero, and the pin is high. -/
theorem level_left_high : ¬ ∀ es : List PciEvent, (run intxStep (init false false) es).isSome →
    Always intxStep Level (init false false) es := by
  intro h
  have hr : (run intxStep (init false false) [.write REG_IRQ_TEST 1, .write REG_CTRL 1]).map
      (fun t => (t.level, t.irqStatus)) = some (true, 0) := by decide +kernel
  obtain ⟨t, ht, hlevel⟩ := Option.map_eq_some_iff.mp hr
  have hl := h _ (ht ▸ rfl) _ (List.prefix_refl _) t ht
  rw [Prod.mk.injEq] at hlevel
  exact hl.mp hlevel.1 hlevel.2

/-! ## Reset -/

/-- A 32-bit mask tests the same bits of a 64-bit value and of its low half. -/
theorem and_setWidth (x : BitVec 64) (m : Word) : x &&& m.setWidth 64 = (x.setWidth 32 &&& m).setWidth 64 := by
  apply BitVec.eq_of_getLsbD_eq
  intro i hi
  simp only [BitVec.getLsbD_and, BitVec.getLsbD_setWidth]
  by_cases h : i < 32
  · simp [h, hi]
  · simp [h, hi, BitVec.getLsbD_of_ge m i (by omega)]

/-- The timer is set only for a transfer that has not been performed. -/
def Armed (s : PciRun) : Prop := s.dev.timer = true → s.dev.dma.ctrl &&& DMA_START ≠ 0

theorem timer_dmaTimerCb (s : SmartEthPci) (mem : GuestMem) : (s.dmaTimerCb mem).1.timer = s.timer := by
  obtain ⟨u, hu, ⟨heq, -⟩ | ⟨heq, -⟩⟩ := dmaTimerCb_effect s mem
  · exact (congrArg SmartEthPci.timer heq).trans hu.timer
  · exact (congrArg SmartEthPci.timer heq).trans hu.timer

theorem Armed.step {e : PciEvent} (h : Armed s) (he : s.step e = some t) : Armed t := by
  cases e with
  | enable msix msi =>
    cases he
    exact h
  | timer mem =>
    obtain ⟨-, rfl⟩ := step_timer he
    intro ht
    cases (timer_dmaTimerCb _ mem).symm.trans ht
  | write addr val =>
    obtain ⟨ha, rfl⟩ := step_write he
    cases (mmioWrite_effect ha : WriteEffect s.dev addr val) with
    | start reg bit eq =>
      rw [eq]
      intro _ hz
      refine bit ?_
      rw [and_setWidth, show val.setWidth 32 &&& DMA_START = 0 from hz]
      rfl
    | reset reg bit eq | ack reg eq | test reg eq | other noReset eq status =>
      rw [eq]
      exact h

/-- Nothing to do, and no cause set. -/
structure AtRest (s : PciRun) : Prop where
  timer : s.dev.timer = false
  status : s.irqStatus = 0

theorem AtRest.quiet (h : AtRest t) (hm : t.moved = false) : Quiet t := by
  refine ⟨hm, ?_⟩
  rw [h.status]
  exact BitVec.zero_and

theorem AtRest.step {e : PciEvent} (h : AtRest s) (hr : ¬ Requests e) (he : s.step e = some t) :
    AtRest t ∧ Quiet t := by
  suffices hsuff : AtRest t ∧ t.moved = false from ⟨hsuff.1, hsuff.1.quiet hsuff.2⟩
  cases e with
  | enable msix msi =>
    cases he
    exact ⟨⟨h.timer, h.status⟩, rfl⟩
  | timer mem => cases h.timer.symm.trans (step_timer he).1
  | write addr val =>
    obtain ⟨ha, rfl⟩ := step_write he
    refine ⟨?_, rfl⟩
    cases (mmioWrite_effect ha : WriteEffect s.dev addr val) with
    | start reg bit eq => exact absurd (.inl ⟨reg, bit⟩) hr
    | test reg eq => exact absurd (.inr reg) hr
    | reset reg bit eq =>
      rw [eq]
      exact ⟨h.timer, rfl⟩
    | ack reg eq =>
      rw [eq]
      refine ⟨h.timer, (regs_setReg_self _ _ _).trans ?_⟩
      rw [show s.dev.regs (REG_IRQ_STS >>> 2) = 0 from h.status]
      exact BitVec.zero_and
    | other noReset eq status =>
      rw [eq]
      exact ⟨h.timer, status.trans h.status⟩

/-- Where no transfer is pending, a reset quiesces the device. -/
theorem quiesces_of_timer (h : s.dev.timer = false) : Quiesces s := by
  intro val t hv ht es hes pre hp u hu
  have hrest : AtRest t ∧ Quiet t := by
    obtain ⟨ha, rfl⟩ := step_write ht
    have heq : s.dev.mmioWrite REG_CTRL val = ({ s.dev with regs := fun _ => 0 }.setMac, []) := by
      cases (mmioWrite_effect ha : WriteEffect s.dev REG_CTRL val) with
      | reset reg bit eq => exact eq
      | ack reg eq | start reg bit eq | test reg eq => exact absurd reg (by decide)
      | other noReset eq status => exact absurd ⟨rfl, hv⟩ noReset
    rw [heq]
    have hidle : AtRest (s.next { s.dev with regs := fun _ => 0 }.setMac [] false) := ⟨h, rfl⟩
    exact ⟨hidle, hidle.quiet rfl⟩
  have hall : Along step (fun _ e => ¬ Requests e) t pre := along_of_forall fun e he _ => hes e (hp.subset he)
  exact (run_inv_along (I := fun s => AtRest s ∧ Quiet s) (fun _ e _ hs hr he => hs.1.step hr he) hrest hall hu).2

/-- In every reachable state: a reset quiesces the device if and only if no transfer is pending. -/
theorem quiesces_iff {msix msi : Bool} {es : List PciEvent} (h : run step (init msix msi) es = some s) :
    Quiesces s ↔ s.dev.timer = false := by
  refine ⟨fun hq => ?_, quiesces_of_timer⟩
  by_contra hset
  have htimer : s.dev.timer = true := by simpa using hset
  have harmed : Armed s := run_inv (I := Armed) (fun _ _ _ hs he => hs.step he) (fun ht => by cases ht) h
  have heq : s.dev.mmioWrite REG_CTRL 1 = ({ s.dev with regs := fun _ => 0 }.setMac, []) := rfl
  have hreset : s.step (.write REG_CTRL 1) = some (s.next { s.dev with regs := fun _ => 0 }.setMac [] false) := by
    rw [step, if_pos (by decide), heq]
  generalize hu : s.next { s.dev with regs := fun _ => 0 }.setMac [] false = u at hreset
  have htu : u.dev.timer = true := by rw [← hu]; exact htimer
  have hau : u.dev.dma.ctrl &&& DMA_START ≠ 0 := by rw [← hu]; exact harmed htimer
  -- the timer fires after the reset
  obtain ⟨v, hv⟩ : ∃ v, u.step (.timer fun _ => 0) = some v := by simp [step, htu]
  have hmoved : v.moved = true := by
    rw [(step_timer hv).2]
    exact decide_eq_true hau
  have hquiet := hq 1 u (by decide) hreset [.timer fun _ => 0] (fun e he => by
    rw [List.mem_singleton.mp he]
    exact id) _ (List.prefix_refl _) v (run_cons_some.mpr ⟨v, hv, rfl⟩)
  cases hmoved.symm.trans hquiet.1

/-- A transfer that has been performed. -/
def exampleTransfer : List PciEvent :=
  [.write REG_DMA_LEN 16, .write REG_DMA_CTRL 5, .timer fun _ => 0]

theorem quiesces_after_transfer : ∃ s, run step (init false false) exampleTransfer = some s ∧
    s.irqStatus = IRQ_DMA_DONE ∧ (Quiesces s ↔ s.dev.timer = false) := by
  have hr : (run step (init false false) exampleTransfer).map irqStatus = some IRQ_DMA_DONE := by decide +kernel
  obtain ⟨s, hs, hsts⟩ := Option.map_eq_some_iff.mp hr
  exact ⟨s, hs, hsts, quiesces_iff hs⟩

/-- A transfer that has been started, and a reset: the timer fires, and moves the data. -/
theorem reset_moves_data : ¬ ∀ (es : List PciEvent) (s : PciRun), run step (init false false) es = some s →
    Quiesces s := by
  intro h
  have hr : ((run step (init false false) [.write REG_DMA_CTRL 1]).bind fun s =>
      (s.step (.write REG_CTRL 1)).bind fun t => t.step (.timer fun _ => 0)).map (·.moved) = some true := by
    decide +kernel
  obtain ⟨u, hu, hmoved⟩ := Option.map_eq_some_iff.mp hr
  obtain ⟨s, hs, hu⟩ := Option.bind_eq_some_iff.mp hu
  obtain ⟨t, ht, hu⟩ := Option.bind_eq_some_iff.mp hu
  have hquiet := h _ s hs 1 t (by decide) ht [.timer fun _ => 0] (fun e he => by
    rw [List.mem_singleton.mp he]
    exact id) _ (List.prefix_refl _) u (run_cons_some.mpr ⟨u, hu, rfl⟩)
  cases hmoved.symm.trans hquiet.1

end PciRun

end SmartEth
