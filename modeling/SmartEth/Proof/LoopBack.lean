import SmartEth.System.LoopBack
import SmartEth.Proof.Driver
import SmartEth.Proof.DmaOutcome

/-!
# A loop-back copies guest memory

The buffer keeps between two transfers what the first has read (`read_spec`), as many bytes
as it has room for, and the second writes them (`writeBack_spec`): a copy, overlapping or
not (`loop_back`).
-/

namespace SmartEth.LoopBack

open SmartNic

variable {nic : SmartNic} {mem : GuestMem}

/-- A register that no transfer changes. -/
abbrev Kept (a : Addr) : Prop := ∀ b ∈ LOOP_REGS, a >>> 2 ≠ b >>> 2

/-- `DMA_CTRL` written with the start bit. -/
theorem onMmioWrite_start (nic : SmartNic) {ctrl : Word} (h : ctrl &&& SC_DMA_START ≠ 0) :
    (nic.onMmioWrite SC_REG_DMA_CTRL ctrl).1 = (nic.setReg SC_REG_DMA_CTRL ctrl).startDma ctrl := by
  have hw : (nic.regs.write SC_REG_DMA_CTRL ctrl).1 = nic.regs.setReg (SC_REG_DMA_CTRL >>> 2) ctrl := rfl
  rw [onMmioWrite_fst, hw]
  dsimp only
  rw [if_pos ⟨rfl, h⟩, decide_eq_false fun ht => absurd ht.1 (by decide), Bool.or_false]
  rfl

/-- What comes after the transfer itself changes two registers. -/
theorem exec_processDmaBody (nic : SmartNic) (mem : GuestMem) :
    let x := (nic.dma.start nic.dmaReadBridge nic.dmaWriteBridge).exec exactDma mem
    let y := nic.processDmaBody.exec exactDma mem
    y.2 = x.2 ∧ y.1.1.dma = x.1.1 ∧ y.1.1.bridge = nic.bridge ∧ ∀ a, Kept a → y.1.1.reg a = nic.reg a := by
  intro x y
  have hy : y = ((if (nic.dmaDone x.1.1).reg SC_REG_DMA_CTRL &&& SC_DMA_IRQ_EN ≠ 0 then
      (nic.dmaDone x.1.1).raiseIrq SC_IRQ_DMA_DONE 0 >>= fun t => pure (t, x.1.2)
      else pure (nic.dmaDone x.1.1, x.1.2) : NicM (SmartNic × Nat))).exec exactDma x.2 := by
    show nic.processDmaBody.exec exactDma mem = _
    rw [processDmaBody_eq, Prog.exec_bind]
  have hdone : ∀ a, Kept a → (nic.dmaDone x.1.1).reg a = nic.reg a := fun a ha =>
    reg_dmaDone (ha SC_REG_DMA_STS (by decide))
  rw [hy]
  split
  · rw [raiseIrq, Prog.exec_bind]
    have hset : ∀ a, Kept a → ∀ v, ((nic.dmaDone x.1.1).setReg SC_REG_IRQ_STS v).reg a = nic.reg a := fun a ha v =>
      (reg_setReg_ne (ha SC_REG_IRQ_STS (by decide))).trans (hdone a ha)
    split
    · exact ⟨rfl, rfl, rfl, fun a ha => hset a ha _⟩
    · exact ⟨rfl, rfl, rfl, fun a ha => hset a ha _⟩
  · exact ⟨rfl, rfl, rfl, hdone⟩

theorem write_nil (mem : GuestMem) (a : Addr) : mem.write a [] = mem := funext fun _ => rfl

/-- What a copy leaves at the start of the buffer. -/
theorem take_overlay {buf bs : List Byte} (h : bs.length ≤ buf.length) : (overlay buf bs).take bs.length = bs := by
  rw [overlay, List.take_of_length_le h]
  exact List.take_left

/-- A transfer from the guest fills the start of the buffer. -/
theorem exec_start_read (nic : SmartNic) (mem : GuestMem) (hb : nic.bridge = true) (hbusy : nic.dma.busy = false)
    (hd : nic.dma.dirWrite = false) :
    let x := (nic.dma.start nic.dmaReadBridge nic.dmaWriteBridge).exec exactDma mem
    x.2 = mem ∧ x.1.1.busy = false ∧
      x.1.1.buf.take nic.dma.len.toNat = mem.read nic.dma.src nic.dma.len.toNat := by
  by_cases h0 : nic.dma.len = 0
  · rw [DmaEngine.start, if_pos (by rw [h0, beq_self_eq_true, Bool.or_true]), h0]
    exact ⟨rfl, hbusy, rfl⟩
  · rw [DmaEngine.start, hbusy, Bool.false_or, if_neg (beq_iff_eq.not.mpr h0)]
    dsimp only
    rw [hd, if_neg Bool.false_ne_true, dmaReadBridge, if_pos hb]
    refine ⟨rfl, rfl, ?_⟩
    have hlen : (mem.read nic.dma.src nic.dma.len.toNat).length ≤ nic.dma.buf.length := by
      rw [Mem.length_read, nic.dma.buf_length]
      exact nic.dma.len_le
    have ht := take_overlay hlen
    rw [Mem.length_read] at ht
    exact ht

/-- A transfer to the guest. -/
theorem exec_start_write (nic : SmartNic) (mem : GuestMem) (hb : nic.bridge = true) (hbusy : nic.dma.busy = false)
    (hd : nic.dma.dirWrite = true) :
    ((nic.dma.start nic.dmaReadBridge nic.dmaWriteBridge).exec exactDma mem).2 =
      mem.write nic.dma.dst (nic.dma.buf.take nic.dma.len.toNat) := by
  by_cases h0 : nic.dma.len = 0
  · rw [DmaEngine.start, if_pos (by rw [h0, beq_self_eq_true, Bool.or_true]), h0]
    exact (write_nil mem _).symm
  · rw [DmaEngine.start, hbusy, Bool.false_or, if_neg (beq_iff_eq.not.mpr h0)]
    dsimp only
    rw [hd, if_pos rfl, dmaWriteBridge, if_pos hb]
    rfl

/-! ## A transfer and its programming -/

/-- The NIC when a transfer is programmed: two registers, then `DMA_CTRL`. -/
def programmed (nic : SmartNic) (reg : Addr) (val len ctrl : Word) : SmartNic :=
  (((nic.setReg reg val).setReg SC_REG_DMA_LEN len).setReg SC_REG_DMA_CTRL ctrl).startDma ctrl

theorem write_eq (s : LoopBack) {reg : Addr} (hr : Plain reg) (val len : Word) {ctrl : Word}
    (hc : ctrl &&& SC_DMA_START ≠ 0) :
    ((s.write reg val).write SC_REG_DMA_LEN len).write SC_REG_DMA_CTRL ctrl =
      ⟨programmed s.nic reg val len ctrl, s.mem⟩ := by
  have hl : Plain SC_REG_DMA_LEN := by decide
  rw [write, write, write]
  dsimp only
  rw [hr.onMmioWrite, hl.onMmioWrite, onMmioWrite_start _ hc]
  rfl

theorem programmed_kept {reg : Addr} (hr : reg ∈ LOOP_REGS) (val len ctrl : Word) {a : Addr} (ha : Kept a) :
    (programmed nic reg val len ctrl).reg a = nic.reg a := by
  refine (reg_setReg_ne (ha SC_REG_DMA_STS (by decide))).trans ?_
  refine (reg_setReg_ne (ha SC_REG_DMA_CTRL (by decide))).trans ?_
  exact (reg_setReg_ne (ha SC_REG_DMA_LEN (by decide))).trans (reg_setReg_ne (ha reg hr))

theorem processDma_eq {s : LoopBack} (h : s.nic.dmaPending = true) :
    s.processDma = ⟨(s.nic.processDmaBody.exec exactDma s.mem).1.1, (s.nic.processDmaBody.exec exactDma s.mem).2⟩ :=
  if_pos h

/-- What `DMA_CTRL` latches. -/
theorem programmed_len (reg : Addr) (val len ctrl : Word) :
    (programmed nic reg val len ctrl).dma.len.toNat = min len.toNat DMA_MAX_BUF := by
  have hreg : (((nic.setReg reg val).setReg SC_REG_DMA_LEN len).setReg SC_REG_DMA_CTRL ctrl).reg SC_REG_DMA_LEN =
      len := by
    rw [reg_setReg_ne (by decide), reg_setReg_self]
  rw [← DmaEngine.toNat_clampLen]
  exact congrArg (fun l => (DmaEngine.clampLen l).toNat) hreg

theorem programmed_val {reg : Addr} (hl : reg >>> 2 ≠ SC_REG_DMA_LEN >>> 2) (hc : reg >>> 2 ≠ SC_REG_DMA_CTRL >>> 2)
    (val len ctrl : Word) :
    (((nic.setReg reg val).setReg SC_REG_DMA_LEN len).setReg SC_REG_DMA_CTRL ctrl).reg reg = val := by
  rw [reg_setReg_ne hc, reg_setReg_ne hl, reg_setReg_self]

/-- What a transfer from the guest comes to. -/
theorem read_spec {s : LoopBack} (hb : s.nic.bridge = true) (hbusy : s.nic.dma.busy = false) (src len : Word)
    {ctrl : Word} (hc : Starts ctrl false) :
    (s.read src len ctrl).mem = s.mem ∧ (s.read src len ctrl).nic.bridge = true ∧
      (s.read src len ctrl).nic.dma.busy = false ∧
      (s.read src len ctrl).nic.dma.buf.take (min len.toNat DMA_MAX_BUF) =
        s.mem.read (src.setWidth 64) (min len.toNat DMA_MAX_BUF) ∧
      ∀ a, Kept a → (s.read src len ctrl).nic.reg a = s.nic.reg a := by
  have hsrc : (programmed s.nic SC_REG_DMA_SRC src len ctrl).dma.src = src.setWidth 64 :=
    congrArg (BitVec.setWidth 64) (programmed_val (by decide) (by decide) src len ctrl)
  obtain ⟨hx, hbusy', hbuf⟩ :=
    exec_start_read (programmed s.nic SC_REG_DMA_SRC src len ctrl) s.mem hb hbusy hc.2
  obtain ⟨hy, hdma, hbr, hkept⟩ := exec_processDmaBody (programmed s.nic SC_REG_DMA_SRC src len ctrl) s.mem
  rw [programmed_len, hsrc] at hbuf
  rw [read, write_eq s (by decide) src len hc.1, processDma_eq rfl]
  refine ⟨hy.trans hx, hbr.trans hb, ?_, ?_, fun a ha => (hkept a ha).trans (programmed_kept (by decide) _ _ _ ha)⟩
  · dsimp only
    rw [hdma]
    exact hbusy'
  · dsimp only
    rw [hdma]
    exact hbuf

/-- What a transfer to the guest comes to. -/
theorem writeBack_spec {s : LoopBack} (hb : s.nic.bridge = true) (hbusy : s.nic.dma.busy = false) (dst len : Word)
    {ctrl : Word} (hc : Starts ctrl true) :
    (s.writeBack dst len ctrl).mem =
        s.mem.write (dst.setWidth 64) (s.nic.dma.buf.take (min len.toNat DMA_MAX_BUF)) ∧
      ∀ a, Kept a → (s.writeBack dst len ctrl).nic.reg a = s.nic.reg a := by
  have hdst : (programmed s.nic SC_REG_DMA_DST dst len ctrl).dma.dst = dst.setWidth 64 :=
    congrArg (BitVec.setWidth 64) (programmed_val (by decide) (by decide) dst len ctrl)
  have hx := exec_start_write (programmed s.nic SC_REG_DMA_DST dst len ctrl) s.mem hb hbusy hc.2
  obtain ⟨hy, -, -, hkept⟩ := exec_processDmaBody (programmed s.nic SC_REG_DMA_DST dst len ctrl) s.mem
  rw [programmed_len, hdst] at hx
  rw [writeBack, write_eq s (by decide) dst len hc.1, processDma_eq rfl]
  exact ⟨hy.trans hx, fun a ha => (hkept a ha).trans (programmed_kept (by decide) _ _ _ ha)⟩

/-- Guest memory with a loop-back done: the bytes at `src`, as many as the buffer takes, are at `dst`; and only the
registers of the transfers have changed. -/
theorem loop_back {netif : Bool} {es : List NicEvent} {s : NicRun}
    (h : run NicRun.step (NicRun.init true netif) es = some s) (mem : GuestMem) (src dst len : Word) {c c' : Word}
    (hc : Starts c false) (hc' : Starts c' true) :
    (((⟨s.nic, mem⟩ : LoopBack).read src len c).writeBack dst len c').mem =
        mem.write (dst.setWidth 64) (mem.read (src.setWidth 64) (min len.toNat 4096)) ∧
      ∀ a, Kept a → (((⟨s.nic, mem⟩ : LoopBack).read src len c).writeBack dst len c').nic.reg a = s.nic.reg a := by
  have hb : s.nic.bridge = true := run_inv (I := fun s : NicRun => s.nic.bridge = true)
    (fun s e t hs he => (NicRun.step_frame he).1.trans hs) rfl h
  obtain ⟨hmem, hb', hbusy', hbuf, hreg⟩ := read_spec (s := ⟨s.nic, mem⟩) hb (DmaReport.busy_eq_false h) src len hc
  obtain ⟨hmem', hreg'⟩ := writeBack_spec hb' hbusy' dst len hc'
  refine ⟨?_, fun a ha => (hreg' a ha).trans (hreg a ha)⟩
  rw [hmem', hmem, hbuf]
  rfl

/-- Over itself: the bytes at 0x1000 to 0x1002, which overlap them. -/
theorem loop_back_overlap :
    let s : LoopBack :=
      ⟨(NicRun.init true false).nic, fun a => if a = 0x1000 then 1 else if a = 0x1001 then 2 else 3⟩
    let t := (s.read 0x1000 3 SC_DMA_START).writeBack 0x1001 3 (SC_DMA_START ||| SC_DMA_DIR_WRITE)
    t.mem = s.mem.write 0x1001 [1, 2, 3] ∧ ∀ a, Kept a → t.nic.reg a = s.nic.reg a := by
  have hrun : run NicRun.step (NicRun.init true false) [] = some (NicRun.init true false) := rfl
  exact loop_back hrun _ 0x1000 0x1001 3 (by decide) (by decide)

end SmartEth.LoopBack
