import SmartEth.System.Outcomes
import SmartEth.Proof.NicRun

/-!
# A transfer, as reported

`DmaEngine::start` drops what its callbacks return, so `process_dma` reports a transfer
that failed like any other (`processDmaBody_exec`): what is reported has come to pass
exactly where nothing is to be reported or the callback brings the bytes
(`honest_iff`).
-/

namespace SmartEth.DmaReport

open SmartNic

/-- The engine is idle whenever the lock is free. -/
theorem busy_eq_false {bridge netif : Bool} {es : List NicEvent} {s : NicRun}
    (h : SmartEth.run NicRun.step (NicRun.init bridge netif) es = some s) : s.nic.dma.busy = false := by
  have hP : Stable fun u => u.dma.busy = false := .of_setReg (fun _ _ h => h) (fun _ h => h) fun _ h => h
  refine run_inv (I := fun s : NicRun => s.nic.dma.busy = false) (fun s e t hs he => ?_) rfl h
  refine NicRun.step_keeps hP (fun addr data _ hu => ?_) (fun hu => hu) (fun hu => ?_) he hs
  · rw [onMmioWrite_fst]
    dsimp only
    split
    · exact hu
    · exact hu
  · rw [processDmaBody_eq]
    refine .bind (Prog.Ensures.mono (Q := fun x : DmaEngine × Nat => x.1.busy = false) ?_ fun x hx => ?_)
    · rw [DmaEngine.start]
      split
      · exact hu
      dsimp only
      split
      · exact .bind (Prog.ensures_of_forall _ fun _ => rfl)
      · exact .bind (Prog.ensures_of_forall _ fun _ => rfl)
    · split
      · exact .bind ((hP.raiseIrq (s := s.nic.dmaDone x.1) hx _ _).mono fun _ h => h)
      · exact hx

section

variable {nic : SmartNic} {mem : GuestMem} {read : Option (List Byte)} {write : Bool}

/-- A transfer of nothing. -/
theorem start_empty (h0 : nic.dma.len = 0) (c : Callbacks) :
    (nic.dma.start nic.dmaReadBridge nic.dmaWriteBridge).exec Callbacks.answer c = ((nic.dma, 0), c) := by
  rw [DmaEngine.start, if_pos (by rw [h0, beq_self_eq_true, Bool.or_true])]
  rfl

/-- A transfer to the guest. -/
theorem start_write (hd : nic.dma.busy = false) (h0 : nic.dma.len ≠ 0) (hw : nic.dma.dirWrite = true) (c : Callbacks) :
    let t := (nic.dma.start nic.dmaReadBridge nic.dmaWriteBridge).exec Callbacks.answer c
    t.2.irqs = c.irqs ∧ (nic.bridge = true ∧ c.write = true →
      t.2.mem = c.mem.write nic.dma.dst (nic.dma.buf.take nic.dma.len.toNat)) := by
  rw [DmaEngine.start, hd, Bool.false_or, if_neg (beq_iff_eq.not.mpr h0)]
  dsimp only
  rw [hw, if_pos rfl, dmaWriteBridge]
  by_cases hb : nic.bridge = true
  · rw [if_pos hb]
    refine ⟨rfl, fun h => ?_⟩
    exact if_pos h.2
  · rw [if_neg hb]
    exact ⟨rfl, fun h => absurd h.1 hb⟩

/-- A transfer from the guest. -/
theorem start_read (hd : nic.dma.busy = false) (h0 : nic.dma.len ≠ 0) (hw : nic.dma.dirWrite = false) (c : Callbacks) :
    let t := (nic.dma.start nic.dmaReadBridge nic.dmaWriteBridge).exec Callbacks.answer c
    t.2.irqs = c.irqs ∧ ∀ bs, nic.bridge = true ∧ c.read = some bs → t.1.1.buf = overlay nic.dma.buf bs := by
  rw [DmaEngine.start, hd, Bool.false_or, if_neg (beq_iff_eq.not.mpr h0)]
  dsimp only
  rw [hw, if_neg Bool.false_ne_true, dmaReadBridge]
  by_cases hb : nic.bridge = true
  · rw [if_pos hb]
    refine ⟨rfl, fun bs h => ?_⟩
    obtain ⟨mem, read, write, irqs⟩ := c
    obtain rfl : read = some bs := h.2
    rfl
  · rw [if_neg hb]
    exact ⟨rfl, fun bs h => absurd h.1 hb⟩

theorem start_irqs (hd : nic.dma.busy = false) (c : Callbacks) :
    ((nic.dma.start nic.dmaReadBridge nic.dmaWriteBridge).exec Callbacks.answer c).2.irqs = c.irqs := by
  by_cases h0 : nic.dma.len = 0
  · rw [start_empty h0]
  · cases hw : nic.dma.dirWrite with
    | true => exact (start_write hd h0 hw c).1
    | false => exact (start_read hd h0 hw c).1

/-- What comes after the transfer. -/
theorem processDmaBody_exec (c : Callbacks) :
    let x := (nic.dma.start nic.dmaReadBridge nic.dmaWriteBridge).exec Callbacks.answer c
    nic.processDmaBody.exec Callbacks.answer c =
      if nic.reg SC_REG_DMA_CTRL &&& SC_DMA_IRQ_EN ≠ 0 then
        (((nic.dmaDone x.1.1).setReg SC_REG_IRQ_STS (nic.regs.irqStatus ||| SC_IRQ_DMA_DONE), x.1.2),
          { x.2 with irqs := x.2.irqs ++ if nic.bridge then [0] else [] })
      else ((nic.dmaDone x.1.1, x.1.2), x.2) := by
  intro x
  have hsts : (nic.dmaDone x.1.1).regs.irqStatus = nic.regs.irqStatus := RegBlock.getReg_setReg_ne (by decide)
  have hbr : ∀ v, ((nic.dmaDone x.1.1).setReg SC_REG_IRQ_STS v).bridge = nic.bridge := fun _ => rfl
  rw [processDmaBody_eq, Prog.exec_bind, reg_dmaDone (by decide)]
  by_cases hi : nic.reg SC_REG_DMA_CTRL &&& SC_DMA_IRQ_EN ≠ 0
  · rw [if_pos hi, if_pos hi, Prog.exec_bind, raiseIrq, hsts, hbr]
    cases hb : nic.bridge with
    | true => rfl
    | false =>
      rw [if_neg Bool.false_ne_true, if_neg Bool.false_ne_true, List.append_nil]
      rfl
  · rw [if_neg hi, if_neg hi]
    rfl

/-- The registers do not tell how it went. -/
theorem regs_run : (run nic mem read write).1.1.regs =
    if nic.reg SC_REG_DMA_CTRL &&& SC_DMA_IRQ_EN ≠ 0 then
      ((nic.setReg SC_REG_DMA_STS 0).setReg SC_REG_IRQ_STS (nic.regs.irqStatus ||| SC_IRQ_DMA_DONE)).regs
    else (nic.setReg SC_REG_DMA_STS 0).regs := by
  rw [run, processDmaBody_exec]
  split
  · rfl
  · rfl

theorem irqs_run (hd : nic.dma.busy = false) : (run nic mem read write).2.irqs =
    if nic.reg SC_REG_DMA_CTRL &&& SC_DMA_IRQ_EN ≠ 0 ∧ nic.bridge = true then [0] else [] := by
  rw [run, processDmaBody_exec]
  by_cases hi : nic.reg SC_REG_DMA_CTRL &&& SC_DMA_IRQ_EN ≠ 0
  · rw [if_pos hi]
    dsimp only
    rw [start_irqs hd, List.nil_append]
    cases hb : nic.bridge with
    | true => rw [if_pos rfl, if_pos ⟨hi, rfl⟩]
    | false => rw [if_neg Bool.false_ne_true, if_neg fun h => Bool.false_ne_true h.2]
  · rw [if_neg hi, if_neg fun h => hi h.1]
    exact start_irqs hd _

/-- It is reported unless there is nothing to report. -/
theorem reported_iff (hd : nic.dma.busy = false) : Reported nic (run nic mem read write) ↔ ¬ Silent nic := by
  rw [Reported, irqs_run hd, regs_run, Silent]
  by_cases hi : nic.reg SC_REG_DMA_CTRL &&& SC_DMA_IRQ_EN = 0
  · -- the cause is as before
    have hsts : (nic.setReg SC_REG_DMA_STS 0).regs.irqStatus = nic.regs.irqStatus :=
      RegBlock.getReg_setReg_ne (by decide)
    rw [if_neg (not_not.mpr hi), if_neg (fun h => h.1 hi), hsts]
    refine iff_of_false ?_ fun h => h (.inl hi)
    rintro (⟨h0, h1⟩ | h)
    · exact h1 h0
    · exact h rfl
  · rw [if_pos hi]
    have hset : ((nic.setReg SC_REG_DMA_STS 0).setReg SC_REG_IRQ_STS
        (nic.regs.irqStatus ||| SC_IRQ_DMA_DONE)).regs.irqStatus &&& SC_IRQ_DMA_DONE ≠ 0 := by
      rw [setReg, RegBlock.irqStatus, RegBlock.getReg_setReg_self]
      exact NicRun.or_and_ne_zero (by decide)
    cases hb : nic.bridge with
    | true =>
      rw [if_pos ⟨hi, rfl⟩]
      refine iff_of_true (.inr (by decide)) ?_
      rintro (h | h)
      · exact hi h
      · exact Bool.false_ne_true h.1.symm
    | false =>
      rw [if_neg (fun h => Bool.false_ne_true h.2)]
      constructor
      · rintro (h | h) (h' | h')
        · exact hi h'
        · exact h'.2 h.1
        · exact h rfl
        · exact h rfl
      · intro h
        by_cases hz : nic.regs.irqStatus &&& SC_IRQ_DMA_DONE = 0
        · exact .inl ⟨hz, hset⟩
        · exact absurd (.inr ⟨rfl, hz⟩) h

/-- A callback that returns true and has moved the bytes is one that brings them. -/
theorem brings_iff (hd : nic.dma.busy = false) (h0 : nic.dma.len ≠ 0) :
    Returns nic read write ∧ Moved nic mem (run nic mem read write) ↔ Brings nic mem read write := by
  have hbuf : (run nic mem read write).1.1.dma.buf =
      ((nic.dma.start nic.dmaReadBridge nic.dmaWriteBridge).exec Callbacks.answer ⟨mem, read, write, []⟩).1.1.buf := by
    rw [run, processDmaBody_exec]
    split
    · rfl
    · rfl
  have hmem : (run nic mem read write).2.mem =
      ((nic.dma.start nic.dmaReadBridge nic.dmaWriteBridge).exec Callbacks.answer ⟨mem, read, write, []⟩).2.mem := by
    rw [run, processDmaBody_exec]
    split
    · rfl
    · rfl
  rw [Returns, Moved, Brings, hbuf, hmem]
  cases hw : nic.dma.dirWrite with
  | true =>
    have hstart := (start_write hd h0 hw ⟨mem, read, write, []⟩).2
    simp only [ite_true]
    exact ⟨fun h => h.1, fun h => ⟨h, hstart h⟩⟩
  | false =>
    have hstart := (start_read hd h0 hw ⟨mem, read, write, []⟩).2
    simp only [Bool.false_eq_true, if_false]
    constructor
    · rintro ⟨⟨hb, hr⟩, hm⟩
      obtain ⟨bs, hbs⟩ := Option.isSome_iff_exists.mp hr
      exact ⟨hb, bs, hbs, hstart bs ⟨hb, hbs⟩ ▸ hm⟩
    · rintro ⟨hb, bs, hbs, hm⟩
      exact ⟨⟨hb, Option.isSome_iff_exists.mpr ⟨bs, hbs⟩⟩, (hstart bs ⟨hb, hbs⟩).symm ▸ hm⟩

/-- A transfer of nothing has moved all of it. -/
theorem moved_of_empty (h0 : nic.dma.len = 0) : Moved nic mem (run nic mem read write) := by
  rw [Moved, h0]
  split
  · rw [run, processDmaBody_exec, start_empty h0]
    split
    · rfl
    · rfl
  · rfl

theorem honest_iff_brings (hd : nic.dma.busy = false) :
    Honest nic mem read write ↔ Silent nic ∨ nic.dma.len = 0 ∨ Brings nic mem read write := by
  rw [Honest, reported_iff hd]
  by_cases h0 : nic.dma.len = 0
  · exact iff_of_true (fun _ => ⟨fun h => absurd h0 h, moved_of_empty h0⟩) (.inr (.inl h0))
  · rw [← brings_iff hd h0]
    by_cases hs : Silent nic
    · exact iff_of_true (fun h => absurd hs h) (.inl hs)
    · simp only [hs, h0, ne_eq, not_false_eq_true, forall_true_left, false_or]

end

/-- What a START write latches. -/
theorem latches (nic : SmartNic) {data : Word} (h : data &&& SC_DMA_START ≠ 0) : Latches nic data := by
  rw [Latches, onMmioWrite_fst]
  dsimp only
  rw [if_pos ⟨rfl, h⟩]
  have hreg : ∀ a : Addr, a >>> 2 ≠ SC_REG_DMA_CTRL >>> 2 →
      (nic.regs.write SC_REG_DMA_CTRL data).1.getReg (a >>> 2) = nic.reg a :=
    fun a ha => RegBlock.getReg_setReg_ne ha
  refine ⟨?_, ?_, ?_, rfl⟩
  · exact congrArg (BitVec.setWidth 64) (hreg SC_REG_DMA_SRC (by decide))
  · exact congrArg (BitVec.setWidth 64) (hreg SC_REG_DMA_DST (by decide))
  · rw [← hreg SC_REG_DMA_LEN (by decide), ← DmaEngine.toNat_clampLen]
    rfl

/-- In every state that is reached, whatever the callbacks return: what is reported of the latched transfer has come to
pass exactly if nothing is to be reported, or nothing to be moved, or the callback brings the bytes; and the registers
do not tell how it went. -/
theorem honest_iff {bridge netif : Bool} {es : List NicEvent} {s : NicRun}
    (h : SmartEth.run NicRun.step (NicRun.init bridge netif) es = some s) (mem : GuestMem) (read : Option (List Byte))
    (write : Bool) :
    (Honest s.nic mem read write ↔ Silent s.nic ∨ s.nic.dma.len = 0 ∨ Brings s.nic mem read write) ∧
      (∀ mem' read' write', (run s.nic mem' read' write').1.1.regs = (run s.nic mem read write).1.1.regs) ∧
      ∀ data, data &&& SC_DMA_START ≠ 0 → Latches s.nic data :=
  ⟨honest_iff_brings (busy_eq_false h), fun _ _ _ => regs_run.trans regs_run.symm, fun _ => latches s.nic⟩

/-- A transfer of 64 bytes, about to be executed. -/
def exampleRun (ctrl : Word) : List NicEvent :=
  [.write SC_REG_DMA_SRC 0x2000, .write SC_REG_DMA_DST 0x3000, .write SC_REG_DMA_LEN 64,
    .write SC_REG_DMA_CTRL (SC_DMA_START ||| SC_DMA_IRQ_EN ||| ctrl), .dmaCheck]

/-- One to the guest that succeeds is reported as it went. -/
theorem honest_write : ∃ s,
    SmartEth.run NicRun.step (NicRun.init true true) (exampleRun SC_DMA_DIR_WRITE) = some s ∧
      Honest s.nic (fun _ => 0) none true := by
  have hr : (SmartEth.run NicRun.step (NicRun.init true true) (exampleRun SC_DMA_DIR_WRITE)).map
      (fun s => (s.nic.bridge, s.nic.dma.dirWrite)) = some (true, true) := by decide +kernel
  obtain ⟨s, hs, he⟩ := Option.map_eq_some_iff.mp hr
  rw [Prod.mk.injEq] at he
  refine ⟨s, hs, (honest_iff hs (fun _ => 0) none true).1.mpr (.inr (.inr ⟨he.1, ?_⟩))⟩
  rw [he.2]
  rfl

/-- One from the guest that fails is reported as done. -/
theorem failed_read_reported : ∃ s,
    SmartEth.run NicRun.step (NicRun.init true true) (exampleRun 0) = some s ∧ s.dmaChecked = true ∧
      ¬ Honest s.nic (fun _ => 0) none false := by
  have hr : (SmartEth.run NicRun.step (NicRun.init true true) (exampleRun 0)).map
      (fun s => (s.dmaChecked, s.nic.bridge, s.nic.dma.dirWrite, s.nic.dma.len,
        s.nic.reg SC_REG_DMA_CTRL &&& SC_DMA_IRQ_EN)) = some (true, true, false, 64, SC_DMA_IRQ_EN) := by
    decide +kernel
  obtain ⟨s, hs, he⟩ := Option.map_eq_some_iff.mp hr
  simp only [Prod.mk.injEq] at he
  obtain ⟨hc, hb, hw, hl, hi⟩ := he
  refine ⟨s, hs, hc, fun hh => ?_⟩
  rcases (honest_iff_brings (busy_eq_false hs)).mp hh with (h | h) | h | h
  · rw [hi] at h
    exact absurd h (by decide)
  · exact absurd (h.1.symm.trans hb) (by decide)
  · exact absurd (hl.symm.trans h) (by decide)
  · have hr := h.2
    rw [hw, if_neg Bool.false_ne_true] at hr
    obtain ⟨bs, hbs, -⟩ := hr
    cases hbs

end SmartEth.DmaReport
