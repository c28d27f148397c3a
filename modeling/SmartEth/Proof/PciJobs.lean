import SmartEth.Proof.PciSelfTest
import SmartEth.System.PciJobs

/-!
# Every transfer is that of the last start

The parameters of a transfer are those that the registers had when it was started, whatever is
written to them before the timer comes, a reset included; a start before that takes the place of
the one that is pending (`Inv.step`). So the events alone tell what the transfers of a run leave
behind (`transfers_by_history`).
-/

namespace SmartEth.PciJobs

open SmartEthPci
open PciTest (PlainReg mmioWrite_plain)

/-! ## Registers -/

/-- A parameter of a transfer. -/
structure Parameter (reg : Addr) : Prop where
  plain : PlainReg reg
  aligned : reg &&& 3 = 0
  status : reg ≠ REG_DMA_STS
  cleared : ∀ s : SmartEthPci, ({ s with regs := fun _ => 0 }.setMac).regs (reg >>> 2) = 0

theorem parameter_src : Parameter REG_DMA_SRC :=
  ⟨⟨by decide, by decide, by decide, by decide, by decide, by decide⟩, by decide, by decide, fun _ => rfl⟩

theorem parameter_dst : Parameter REG_DMA_DST :=
  ⟨⟨by decide, by decide, by decide, by decide, by decide, by decide⟩, by decide, by decide, fun _ => rfl⟩

theorem parameter_len : Parameter REG_DMA_LEN :=
  ⟨⟨by decide, by decide, by decide, by decide, by decide, by decide⟩, by decide, by decide, fun _ => rfl⟩

variable {s t : PciJobs} {reg addr : Addr} {val : BitVec 64} {past : List JobEvent} {mem : GuestMem}

theorem mmioWrite_reset (d : SmartEthPci) (h : IsReset addr val) :
    (d.mmioWrite addr val).1 = { d with regs := fun _ => 0 }.setMac := by
  obtain ⟨rfl, hbit⟩ := h
  rw [SmartEthPci.mmioWrite, if_neg (by decide), if_pos rfl, if_pos hbit]

/-- A write to another register, and no reset. -/
theorem reg_mmioWrite_ne (hp : Parameter reg) (d : SmartEthPci) (haddr : addr &&& 3 = 0) (hr : ¬ IsReset addr val)
    (hne : addr ≠ reg) : (d.mmioWrite addr val).1.regs (reg >>> 2) = d.regs (reg >>> 2) := by
  have hset {other : Addr} (h : other &&& 3 = 0) (hor : other ≠ reg) (v : Word) (u : SmartEthPci) :
      (u.setReg (other >>> 2) v).regs (reg >>> 2) = u.regs (reg >>> 2) :=
    regs_setReg_ne fun hs => hor ((shift_inj hp.aligned h).mp hs).symm
  rw [SmartEthPci.mmioWrite]
  split
  · rfl
  split
  · rename_i hctrl
    rw [if_neg fun hbit => hr ⟨hctrl, hbit⟩]
    exact hset (by decide) hp.plain.ctrl.symm _ _
  split
  · exact hset (by decide) hp.plain.irqSts.symm _ _
  split
  · dsimp only
    split
    · refine (hset (by decide) hp.status.symm _ _).trans ?_
      exact hset (by decide) hp.plain.dmaCtrl.symm _ _
    · exact hset (by decide) hp.plain.dmaCtrl.symm _ _
  split
  · split
    · exact hset (by decide) hp.plain.irqSts.symm _ _
    · rfl
  split
  · rfl
  · exact hset haddr hne _ _

theorem reg_mmioWrite (val : BitVec 64) (hp : Parameter reg) (d : SmartEthPci) (haddr : addr &&& 3 = 0)
    (h : d.regs (reg >>> 2) = lastReg reg past) :
    (d.mmioWrite addr val).1.regs (reg >>> 2) = lastReg reg (.write addr val :: past) := by
  rw [lastReg]
  by_cases hr : IsReset addr val
  · rw [if_pos hr, mmioWrite_reset d hr]
    exact hp.cleared d
  · rw [if_neg hr]
    by_cases heq : addr = reg
    · rw [if_pos heq, heq, mmioWrite_plain hp.plain]
      exact regs_setReg_self _ _ _
    · rw [if_neg heq, reg_mmioWrite_ne hp d haddr hr heq, h]

/-! ## The pending transfer -/

/-- A write that starts nothing leaves the transfers alone. -/
theorem mmioWrite_idle (val : BitVec 64) (d : SmartEthPci) (haddr : addr &&& 3 = 0) (h : ¬ IsStart addr val) :
    ∃ regs, (d.mmioWrite addr val).1 = { d with regs := regs } := by
  cases (mmioWrite_effect haddr : WriteEffect d addr val) with
  | start reg bit eq => exact absurd ⟨reg, bit⟩ h
  | reset reg bit eq | ack reg eq | test reg eq | other noReset eq status =>
    rw [eq]
    exact ⟨_, rfl⟩

theorem mmioWrite_start (d : SmartEthPci) (h : IsStart addr val) :
    (d.mmioWrite addr val).1 = (d.setReg (REG_DMA_CTRL >>> 2) (val.setWidth 32)).startDma := by
  obtain ⟨rfl, hbit⟩ := h
  rw [SmartEthPci.mmioWrite, if_neg (by decide), if_neg (by decide), if_neg (by decide), if_pos rfl]
  dsimp only
  rw [if_pos hbit]

theorem start_bit (h : IsStart addr val) : val.setWidth 32 &&& DMA_START ≠ 0 := by
  intro hz
  refine h.2 ?_
  rw [PciRun.and_setWidth, hz]
  rfl

theorem clampLen_toNat (len : Word) : (clampLen len).toNat = min len.toNat SmartEthPci.DMA_BUF_SIZE := by
  have hsize : (BitVec.ofNat 32 SmartEthPci.DMA_BUF_SIZE).toNat = SmartEthPci.DMA_BUF_SIZE := rfl
  rw [clampLen]
  split
  · rename_i h
    rw [BitVec.lt_def, hsize] at h
    omega
  · rename_i h
    rw [BitVec.lt_def, hsize] at h
    omega

/-- The start bit is not the one that asks for an interrupt. -/
theorem irqEn_of_started (ctrl : Word) : ctrl &&& ~~~DMA_START &&& DMA_IRQ_EN = ctrl &&& DMA_IRQ_EN := by
  rw [BitVec.and_assoc]
  rfl

/-- The transfer of the callback. -/
theorem transfer_eq (d : SmartEthPci) (mem : GuestMem) (raised : List Bool) :
    let job := { d.dma with len := clampLen d.dma.len }
    let r := { d with dma := job }.transfer mem
    Outcome.mk r.2 r.1.dmaBuf (raised ++ [decide (d.dma.ctrl &&& DMA_IRQ_EN ≠ 0)]) =
      perform d.dma ⟨mem, d.dmaBuf, raised⟩ := by
  dsimp only
  unfold SmartEthPci.transfer perform
  dsimp only
  rw [← clampLen_toNat]
  split
  · rfl
  · rfl

theorem ctrl_transfer (d : SmartEthPci) (mem : GuestMem) : (d.transfer mem).1.dma = d.dma := by
  unfold SmartEthPci.transfer
  split
  · rfl
  · rfl

/-- What the callback does for a transfer that is started. -/
theorem dmaTimerCb_started (d : SmartEthPci) (mem : GuestMem) (h : d.dma.ctrl &&& DMA_START ≠ 0) (raised : List Bool) :
    let r := d.dmaTimerCb mem
    Outcome.mk r.2.1 r.1.dmaBuf (raised ++ [!r.2.2.isEmpty]) = perform d.dma ⟨mem, d.dmaBuf, raised⟩ := by
  have htransfer := transfer_eq d mem raised
  have hdma := ctrl_transfer { d with dma := { d.dma with len := clampLen d.dma.len } } mem
  rw [← htransfer, SmartEthPci.dmaTimerCb, if_neg h]
  generalize SmartEthPci.transfer { d with dma := { d.dma with len := clampLen d.dma.len } } mem = r at hdma
  obtain ⟨u, m⟩ := r
  have hctrl := congrArg SmartEthPciDma.ctrl hdma
  change u.dma.ctrl = d.dma.ctrl at hctrl
  dsimp only [setReg]
  rw [hctrl, irqEn_of_started]
  by_cases hen : d.dma.ctrl &&& DMA_IRQ_EN = 0
  · rw [if_neg (not_not.mpr hen), decide_eq_false (not_not.mpr hen)]
    rfl
  · rw [if_pos hen, decide_eq_true hen]
    rfl

/-! ## Runs -/

/-- The device after the events `past`, the latest first. -/
structure Inv (mem : GuestMem) (past : List JobEvent) (s : PciJobs) : Prop where
  src : s.dev.regs (REG_DMA_SRC >>> 2) = lastReg REG_DMA_SRC past
  dst : s.dev.regs (REG_DMA_DST >>> 2) = lastReg REG_DMA_DST past
  len : s.dev.regs (REG_DMA_LEN >>> 2) = lastReg REG_DMA_LEN past
  timer : s.dev.timer = (pending past).isSome
  job : ∀ job, pending past = some job → s.dev.dma = job ∧ job.ctrl &&& DMA_START ≠ 0
  outcome : s.outcome = outcomeOf mem past

theorem Inv.init (msix msi : Bool) (mem : GuestMem) : Inv mem [] (init msix msi mem) :=
  ⟨rfl, rfl, rfl, rfl, nofun, rfl⟩

theorem Inv.write (h : Inv mem past s) (ha : addr &&& 3 = 0) :
    Inv mem (.write addr val :: past) { s with dev := (s.dev.mmioWrite addr val).1 } := by
  have hsrc := reg_mmioWrite val parameter_src s.dev ha h.src
  have hdst := reg_mmioWrite val parameter_dst s.dev ha h.dst
  have hlen := reg_mmioWrite val parameter_len s.dev ha h.len
  by_cases hs : IsStart addr val
  · -- the parameters are those of now
    have hstart := mmioWrite_start s.dev hs
    have hpend : pending (.write addr val :: past) = some ⟨(lastReg REG_DMA_SRC past).setWidth 64,
        (lastReg REG_DMA_DST past).setWidth 64, lastReg REG_DMA_LEN past, val.setWidth 32⟩ := if_pos hs
    refine ⟨hsrc, hdst, hlen, ?_, fun job hjob => ?_, ?_⟩
    · rw [hpend]
      exact congrArg SmartEthPci.timer hstart
    · rw [hpend, Option.some.injEq] at hjob
      subst hjob
      refine ⟨(congrArg SmartEthPci.dma hstart).trans ?_, start_bit hs⟩
      rw [← h.src, ← h.dst, ← h.len]
      rfl
    · exact (congrArg (fun d : SmartEthPci => Outcome.mk s.mem d.dmaBuf s.raised) hstart).trans h.outcome
  · obtain ⟨regs, hregs⟩ := mmioWrite_idle val s.dev ha hs
    have hpend : pending (.write addr val :: past) = pending past := if_neg hs
    refine ⟨hsrc, hdst, hlen, ?_, fun job hjob => ?_, ?_⟩
    · rw [hpend]
      exact (congrArg SmartEthPci.timer hregs).trans h.timer
    · rw [hpend] at hjob
      obtain ⟨hdma, hbit⟩ := h.job job hjob
      exact ⟨(congrArg SmartEthPci.dma hregs).trans hdma, hbit⟩
    · exact (congrArg (fun d : SmartEthPci => Outcome.mk s.mem d.dmaBuf s.raised) hregs).trans h.outcome

theorem Inv.timer_cb (h : Inv mem past s) (ht : s.dev.timer = true) :
    let r := { s.dev with timer := false }.dmaTimerCb s.mem
    Inv mem (.timer :: past) ⟨r.1, r.2.1, s.raised ++ [!r.2.2.isEmpty]⟩ := by
  obtain ⟨job, hjob⟩ := Option.isSome_iff_exists.mp (h.timer.symm.trans ht)
  obtain ⟨hdma, hbit⟩ := h.job job hjob
  have hreg {reg : Addr} (hp : Parameter reg) (hirq : reg >>> 2 ≠ REG_IRQ_STS >>> 2) (hsts : reg >>> 2 ≠ REG_DMA_STS >>> 2)
      (hr : s.dev.regs (reg >>> 2) = lastReg reg past) :
      ({ s.dev with timer := false }.dmaTimerCb s.mem).1.regs (reg >>> 2) = lastReg reg (.timer :: past) :=
    (PciTest.regs_dmaTimerCb _ _ hirq hsts).trans hr
  refine ⟨hreg parameter_src (by decide) (by decide) h.src, hreg parameter_dst (by decide) (by decide) h.dst,
    hreg parameter_len (by decide) (by decide) h.len, ?_, nofun, ?_⟩
  · exact PciRun.timer_dmaTimerCb _ _
  · refine (dmaTimerCb_started { s.dev with timer := false } s.mem (hdma ▸ hbit) s.raised).trans ?_
    rw [outcomeOf, hjob, Option.elim_some, ← h.outcome, hdma]
    rfl

theorem Inv.step {e : JobEvent} (h : Inv mem past s) (he : s.step e = some t) : Inv mem (e :: past) t := by
  cases e with
  | write addr val =>
    simp only [PciJobs.step, Option.ite_none_right_eq_some, Option.some.injEq] at he
    obtain ⟨ha, rfl⟩ := he
    exact h.write ha
  | timer =>
    simp only [PciJobs.step, Option.ite_none_right_eq_some, Option.some.injEq] at he
    obtain ⟨ht, rfl⟩ := he
    exact h.timer_cb ht
  | guest addr data =>
    cases he
    refine ⟨h.src, h.dst, h.len, h.timer, h.job, ?_⟩
    rw [outcomeOf, ← h.outcome]
    rfl
  | enable msix msi =>
    cases he
    exact ⟨h.src, h.dst, h.len, h.timer, h.job, h.outcome⟩

theorem Inv.run {es : List JobEvent} (h : Inv mem past s) (hes : SmartEth.run PciJobs.step s es = some t) :
    Inv mem (es.reverse ++ past) t := by
  induction es generalizing s past with
  | nil =>
    cases hes
    exact h
  | cons e es ih =>
    obtain ⟨u, hu, hes⟩ := run_cons_some.mp hes
    rw [List.reverse_cons, List.append_assoc]
    exact ih (h.step hu) hes

/-- In every run from power-on, what guest memory, the device's buffer and its interrupts have come
to is told by the events alone: each callback makes the transfer of the last start before it, with
the values last written to the registers before that start, and raises an interrupt if that start
asked for one; the timer is set exactly while a start has had no callback. -/
theorem transfers_by_history (msix msi : Bool) (mem : GuestMem) (es : List JobEvent) (t : PciJobs)
    (h : run step (init msix msi mem) es = some t) :
    t.outcome = outcomeOf mem es.reverse ∧ t.dev.timer = (pending es.reverse).isSome := by
  have hinv := (Inv.init msix msi mem).run h
  rw [List.append_nil] at hinv
  exact ⟨hinv.outcome, hinv.timer⟩

/-- A transfer that is started, its source and its control then overwritten, and a reset: the buffer gets
the bytes at the first source, and there is no interrupt. -/
def overtaken : List JobEvent :=
  [.guest 0x40 [7], .write REG_DMA_SRC 0x40, .write REG_DMA_LEN 1, .write REG_DMA_CTRL 1, .write REG_DMA_SRC 0x80,
    .write REG_DMA_CTRL 4, .write REG_CTRL 1, .timer]

theorem transfers_by_history_overtaken : ∃ t, run step (init false false fun _ => 0) overtaken = some t ∧
    t.outcome = outcomeOf (fun _ => 0) overtaken.reverse ∧ t.raised = [false] := by
  have hr : (run step (init false false fun _ => 0) overtaken).map (·.raised) = some [false] := by decide +kernel
  obtain ⟨t, ht, hraised⟩ := Option.map_eq_some_iff.mp hr
  exact ⟨t, ht, (transfers_by_history false false _ _ t ht).1, hraised⟩

end SmartEth.PciJobs
