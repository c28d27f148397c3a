import SmartEth.Proof.RegFiles
import SmartEth.System.Phases

/-!
# The two DMA engines

While every transfer step is `Latched`, the two sides stay the same (`Same.step`);
one that is not sets the interrupt status on one side only. So they agree after
each transfer step if and only if every step is `Latched` (`agree_iff_latched`).
-/

namespace SmartEth

theorem overlay_nil (buf : List Byte) : overlay buf [] = buf := by
  rw [overlay, List.take_nil, List.nil_append, List.length_nil, List.drop_zero]

/-- A status that has a bit already does not change when it is set. -/
theorem or_eq_self_iff (sts : Word) : sts ||| SC_IRQ_DMA_DONE = sts ↔ sts &&& SC_IRQ_DMA_DONE ≠ 0 := by
  have ht : SC_IRQ_DMA_DONE = BitVec.twoPow 32 0 := by decide
  have h0 : BitVec.twoPow 32 0 ≠ 0#32 := by decide
  rw [ht, BitVec.and_twoPow]
  constructor
  · intro h
    have hb := congrArg (·.getLsbD 0) h
    simp only [BitVec.getLsbD_or, BitVec.getLsbD_twoPow] at hb
    rw [if_pos (by simpa using hb)]
    exact h0
  · intro h
    have hb : sts.getLsbD 0 = true := by
      by_contra hn
      exact h (if_neg hn)
    apply BitVec.eq_of_getLsbD_eq
    intro i hi
    rw [BitVec.getLsbD_or, BitVec.getLsbD_twoPow]
    by_cases h0i : 0 = i
    · subst h0i
      simp [hb]
    · simp [h0i]

namespace Phases

open SmartNic

/-! ## One transfer -/

/-- What a transfer leaves in guest memory. -/
def memAfter (dirWrite : Bool) (dst : Addr) (len : Word) (buf : List Byte) (mem : GuestMem) : GuestMem :=
  if dirWrite then mem.write dst (buf.take len.toNat) else mem

/-- What a transfer leaves in the buffer. -/
def bufAfter (dirWrite : Bool) (src : Addr) (len : Word) (buf : List Byte) (mem : GuestMem) : List Byte :=
  if dirWrite then buf else overlay buf (mem.read src len.toNat)

/-- What a transfer leaves of the interrupt status. -/
def statusAfter (irq : Bool) (sts : Word) : Word := if irq then sts ||| SC_IRQ_DMA_DONE else sts

theorem statusAfter_eq_iff {irq irq' : Bool} {sts : Word} :
    statusAfter irq sts = statusAfter irq' sts ↔
      (irq = true ↔ irq' = true) ∨ sts &&& SC_IRQ_DMA_DONE ≠ 0 := by
  rw [← or_eq_self_iff]
  have hc : (sts = sts ||| SC_IRQ_DMA_DONE) ↔ (sts ||| SC_IRQ_DMA_DONE = sts) := eq_comm
  cases irq <;> cases irq' <;> simp [statusAfter, hc]

/-- `DmaEngine::start` with exact DMA. -/
theorem start_exec {s : SmartNic} (hb : s.bridge = true) {d : DmaEngine} (hd : d.busy = false) (mem : GuestMem) :
    ∃ d' delay, (d.start s.dmaReadBridge s.dmaWriteBridge).exec exactDma mem =
        ((d', delay), memAfter d.dirWrite d.dst d.len d.buf mem) ∧
      d'.buf = bufAfter d.dirWrite d.src d.len d.buf mem ∧ d'.busy = false := by
  rw [DmaEngine.start, hd, Bool.false_or]
  by_cases h0 : d.len = 0
  · -- nothing to move: an empty copy changes nothing
    rw [if_pos (beq_iff_eq.mpr h0)]
    refine ⟨d, 0, ?_, ?_, hd⟩
    · rw [memAfter, h0]
      exact congrArg (Prod.mk (d, 0)) (ite_self mem).symm
    · rw [bufAfter, h0]
      split
      · rfl
      · exact (overlay_nil _).symm
  · rw [if_neg (beq_iff_eq.not.mpr h0)]
    dsimp only
    cases hw : d.dirWrite with
    | true =>
      rw [if_pos rfl, dmaWriteBridge_bind hb]
      exact ⟨_, _, rfl, rfl, rfl⟩
    | false =>
      rw [if_neg Bool.false_ne_true, dmaReadBridge_bind hb]
      exact ⟨_, _, rfl, rfl, rfl⟩

/-- A round of `process_dma` with a transfer to execute. -/
theorem nicTransfer_pending {s : SmartNic} (hb : s.bridge = true) (hd : s.dma.busy = false)
    (hp : s.dmaPending = true) (mem : GuestMem) :
    ∃ s', nicTransfer s mem = (s', memAfter s.dma.dirWrite s.dma.dst s.dma.len s.dma.buf mem) ∧
      s'.dma.buf = bufAfter s.dma.dirWrite s.dma.src s.dma.len s.dma.buf mem ∧ s'.dma.busy = false ∧
      s'.bridge = true ∧ s'.dmaPending = false ∧
      s'.regs = (s.regs.setReg (SC_REG_DMA_STS >>> 2) 0).setReg (SC_REG_IRQ_STS >>> 2)
        (statusAfter (s.reg SC_REG_DMA_CTRL &&& SC_DMA_IRQ_EN != 0) s.regs.irqStatus) := by
  obtain ⟨d', delay, he, hbuf, hbusy⟩ := start_exec hb hd mem
  have hraise : ∀ t : SmartNic, t.bridge = true → ∀ m : GuestMem,
      (t.raiseIrq SC_IRQ_DMA_DONE 0).exec exactDma m =
        (t.setReg SC_REG_IRQ_STS (t.regs.irqStatus ||| SC_IRQ_DMA_DONE), m) := by
    intro t ht m
    rw [raiseIrq, if_pos (show (t.setReg _ _).bridge = true from ht)]
    rfl
  rw [nicTransfer, if_pos hp, processDmaBody_eq, Prog.exec_bind, he]
  dsimp only
  rw [reg_dmaDone (by decide)]
  by_cases hi : s.reg SC_REG_DMA_CTRL &&& SC_DMA_IRQ_EN ≠ 0
  · rw [if_pos hi, bne_iff_ne.mpr hi, Prog.exec_bind, hraise (s.dmaDone d') hb]
    exact ⟨_, rfl, hbuf, hbusy, hb, rfl, rfl⟩
  · rw [if_neg hi, bne_eq_false_iff_eq.mpr (not_not.mp hi)]
    exact ⟨_, rfl, hbuf, hbusy, hb, rfl, (RegBlock.setReg_getReg _ _).symm⟩

/-- The timer's callback, with a transfer to execute. -/
theorem pciTransfer_pending {s : SmartEthPci} (ht : s.timer = true)
    (hs : s.dma.ctrl &&& SmartEthPci.DMA_START ≠ 0) (mem : GuestMem) :
    ∃ s', pciTransfer s mem = (s', memAfter (s.dma.ctrl &&& SmartEthPci.DMA_DIR_WRITE != 0) s.dma.dst
        (SmartEthPci.clampLen s.dma.len) s.dmaBuf mem) ∧
      s'.dmaBuf = bufAfter (s.dma.ctrl &&& SmartEthPci.DMA_DIR_WRITE != 0) s.dma.src
        (SmartEthPci.clampLen s.dma.len) s.dmaBuf mem ∧ s'.timer = false ∧ s'.macAddr = s.macAddr ∧
      s'.regs = ((s.setReg (SC_REG_DMA_STS >>> 2) 0).setReg (SC_REG_IRQ_STS >>> 2)
        (statusAfter (s.dma.ctrl &&& SmartEthPci.DMA_IRQ_EN != 0) (s.regs (SC_REG_IRQ_STS >>> 2)))).regs := by
  have hctrl : (s.dma.ctrl &&& ~~~SmartEthPci.DMA_START) &&& SmartEthPci.DMA_IRQ_EN =
      s.dma.ctrl &&& SmartEthPci.DMA_IRQ_EN := by
    rw [BitVec.and_assoc]
    rfl
  have hkeep : (fun i => if i = SC_REG_IRQ_STS >>> 2 then s.regs (SC_REG_IRQ_STS >>> 2)
      else if i = SC_REG_DMA_STS >>> 2 then 0 else s.regs i) =
      fun i => if i = SC_REG_DMA_STS >>> 2 then 0 else s.regs i := by
    funext i
    by_cases hi : i = SC_REG_IRQ_STS >>> 2
    · subst hi
      rfl
    · rw [if_neg hi]
  rw [pciTransfer, if_pos ht, SmartEthPci.dmaTimerCb]
  dsimp only
  rw [if_neg hs, SmartEthPci.transfer]
  dsimp only
  by_cases hw : s.dma.ctrl &&& SmartEthPci.DMA_DIR_WRITE = 0
  · have hw' : (s.dma.ctrl &&& SmartEthPci.DMA_DIR_WRITE != 0) = false := bne_eq_false_iff_eq.mpr hw
    rw [if_neg (not_not.mpr hw), hw']
    simp only [SmartEthPci.setReg, hctrl]
    by_cases hi : s.dma.ctrl &&& SmartEthPci.DMA_IRQ_EN ≠ 0
    · rw [if_pos hi, bne_iff_ne.mpr hi]
      exact ⟨_, rfl, rfl, rfl, rfl, rfl⟩
    · rw [if_neg hi, bne_eq_false_iff_eq.mpr (not_not.mp hi)]
      exact ⟨_, rfl, rfl, rfl, rfl, hkeep.symm⟩
  · have hw' : (s.dma.ctrl &&& SmartEthPci.DMA_DIR_WRITE != 0) = true := bne_iff_ne.mpr hw
    rw [if_pos hw, hw']
    simp only [SmartEthPci.setReg, hctrl]
    by_cases hi : s.dma.ctrl &&& SmartEthPci.DMA_IRQ_EN ≠ 0
    · rw [if_pos hi, bne_iff_ne.mpr hi]
      exact ⟨_, rfl, rfl, rfl, rfl, rfl⟩
    · rw [if_neg hi, bne_eq_false_iff_eq.mpr (not_not.mp hi)]
      exact ⟨_, rfl, rfl, rfl, rfl, hkeep.symm⟩

/-! ## Both sides -/

theorem clampLen_eq (len : Word) : SmartEthPci.clampLen len = DmaEngine.clampLen len := by
  rw [SmartEthPci.clampLen, DmaEngine.clampLen]
  by_cases h : len.toNat ≤ DMA_MAX_BUF
  · rw [if_pos h, if_neg (BitVec.not_lt.mpr (BitVec.le_def.mpr h))]
  · rw [if_neg h, if_pos (BitVec.lt_def.mpr (not_le.mp h))]
    rfl

/-- A transfer that is pending, as each side has latched it. -/
structure SameDma (p : SmartEthPciDma) (d : DmaEngine) : Prop where
  start : p.ctrl &&& SmartEthPci.DMA_START ≠ 0
  src : p.src = d.src
  dst : p.dst = d.dst
  len : SmartEthPci.clampLen p.len = d.len
  dirWrite : (p.ctrl &&& SmartEthPci.DMA_DIR_WRITE != 0) = d.dirWrite
  irqEn : (p.ctrl &&& SmartEthPci.DMA_IRQ_EN != 0) = d.irqEn

/-- The two sides as long as every transfer step is `Latched`. -/
structure Same (s : Phases) : Prop where
  regs : Mirrors s.nic.regs s.pci
  mem : s.pciMem = s.nicMem
  buf : s.pci.dmaBuf = s.nic.dma.buf
  bridge : s.nic.bridge = true
  busy : s.nic.dma.busy = false
  timer : s.pci.timer = s.nic.dmaPending
  dma : s.nic.dmaPending = true → SameDma s.pci.dma s.nic.dma

theorem Same.init (msix msi netif : Bool) (mem : GuestMem) : Same (init msix msi netif mem) :=
  ⟨.new msix msi, rfl, rfl, rfl, rfl, rfl, fun h => by simp [Phases.init, SmartNic.new] at h⟩

/-- A write that starts no transfer leaves the engine alone. -/
theorem mmioWrite_dma (s : SmartEthPci) {w : RegWrite} (hs : w.starts = false) :
    let t := (s.mmioWrite w.addr (w.val.setWidth 64)).1
    t.dma = s.dma ∧ t.timer = s.timer ∧ t.dmaBuf = s.dmaBuf := by
  simp only [RegWrite.starts, decide_eq_false_iff_not, not_and, not_not] at hs
  have hs64 : w.addr = SmartEthPci.REG_DMA_CTRL →
      ¬ (w.val.setWidth 64 &&& SmartEthPci.DMA_START.setWidth 64 ≠ 0) :=
    fun h => not_not.mpr ((setWidth_and_eq_zero (b := SC_DMA_START)).mpr (hs h))
  rw [SmartEthPci.mmioWrite]
  split
  · exact ⟨rfl, rfl, rfl⟩
  split
  · split <;> exact ⟨rfl, rfl, rfl⟩
  split
  · exact ⟨rfl, rfl, rfl⟩
  split
  · rename_i h
    dsimp only
    rw [if_neg (hs64 h)]
    exact ⟨rfl, rfl, rfl⟩
  split
  · split <;> exact ⟨rfl, rfl, rfl⟩
  split <;> exact ⟨rfl, rfl, rfl⟩

/-- The START write. -/
theorem mmioWrite_start (s : SmartEthPci) {val : Word} (hs : val &&& SC_DMA_START ≠ 0) :
    (s.mmioWrite SC_REG_DMA_CTRL (val.setWidth 64)).1 = (s.setReg (SC_REG_DMA_CTRL >>> 2) val).startDma := by
  have hs64 : val.setWidth 64 &&& SmartEthPci.DMA_START.setWidth 64 ≠ 0 :=
    (setWidth_and_eq_zero (b := SC_DMA_START)).not.mpr hs
  rw [SmartEthPci.mmioWrite, if_neg (by decide), if_neg (by decide), if_neg (by decide), if_pos (by decide),
    setWidth_setWidth_word]
  dsimp only
  rw [if_pos hs64]
  rfl

theorem Same.write {s : Phases} (h : Same s) {addr : Addr} {val : Word} :
    Same { s with pci := (s.pci.mmioWrite addr (val.setWidth 64)).1, nic := (s.nic.onMmioWrite addr val).1 } := by
  by_cases hst : addr = SC_REG_DMA_CTRL ∧ val &&& SC_DMA_START ≠ 0
  · obtain ⟨rfl, hv⟩ := hst
    have hm : Mirrors (s.nic.regs.setReg (SC_REG_DMA_CTRL >>> 2) val) (s.pci.setReg (SC_REG_DMA_CTRL >>> 2) val) :=
      h.regs.setReg _ _
    have hctrl : (s.pci.setReg (SC_REG_DMA_CTRL >>> 2) val).regs (SmartEthPci.REG_DMA_CTRL >>> 2) = val := by
      have hidx : SmartEthPci.REG_DMA_CTRL >>> 2 = SC_REG_DMA_CTRL >>> 2 := rfl
      simp only [SmartEthPci.setReg, hidx, if_true]
    have hn := onMmioWrite_fst s.nic SC_REG_DMA_CTRL val
    rw [if_pos ⟨rfl, hv⟩] at hn
    rw [hn, mmioWrite_start s.pci hv]
    have hm' := hm.setReg (SC_REG_DMA_STS >>> 2) SC_STATUS_DMA_BSY
    refine ⟨⟨hm'.regs, hm'.mac⟩, h.mem, h.buf, h.bridge, h.busy, rfl, fun _ => ?_⟩
    refine ⟨?_, ?_, ?_, ?_, ?_, ?_⟩
    · show (s.pci.setReg _ val).regs _ &&& _ ≠ 0
      rw [hctrl]
      exact hv
    · exact congrArg (BitVec.setWidth 64) (congrFun hm.regs (SC_REG_DMA_SRC >>> 2))
    · exact congrArg (BitVec.setWidth 64) (congrFun hm.regs (SC_REG_DMA_DST >>> 2))
    · exact (clampLen_eq _).trans (congrArg DmaEngine.clampLen (congrFun hm.regs (SC_REG_DMA_LEN >>> 2)))
    · show ((s.pci.setReg _ val).regs _ &&& _ != 0) = _
      rw [hctrl]
      rfl
    · show ((s.pci.setReg _ val).regs _ &&& _ != 0) = _
      rw [hctrl]
      rfl
  · have hs : (⟨addr, val⟩ : RegWrite).starts = false := decide_eq_false hst
    obtain ⟨e1, e2, e3⟩ := mmioWrite_dma s.pci hs
    have hn := onMmioWrite_fst s.nic addr val
    rw [if_neg hst] at hn
    rw [hn]
    exact ⟨h.regs.write hs, h.mem, e3.trans h.buf, h.bridge, h.busy, e2.trans h.timer, fun hp => e1 ▸ h.dma hp⟩

/-- A transfer step with nothing to transfer. -/
theorem transfer_idle {s : Phases} (h : Same s) (hp : s.nic.dmaPending = false) : s.step .transfer = some s := by
  have ht := h.timer
  rw [hp] at ht
  simp only [step, pciTransfer, nicTransfer, hp, ht]
  rfl

/-- A transfer step leaves memory and buffer the same, and the status if the step
is `Latched`. -/
theorem Same.transfer {s t : Phases} (h : Same s) (hp : s.nic.dmaPending = true)
    (he : s.step .transfer = some t) :
    (Latched s .transfer → Same t) ∧ (Agree t ↔ Latched s .transfer) := by
  have hd := h.dma hp
  obtain ⟨pci, hpci, hbuf, htimer, hmac, hregs⟩ := pciTransfer_pending (h.timer.trans hp) hd.start s.pciMem
  obtain ⟨nic, hnic, hbuf', hbusy, hbridge, hpend, hregs'⟩ := nicTransfer_pending h.bridge h.busy hp s.nicMem
  simp only [step, hpci, hnic, Option.some.injEq] at he
  subst he
  rw [hd.irqEn] at hregs
  rw [hd.dirWrite, hd.src, hd.len, h.buf, h.mem] at hbuf
  rw [hd.dirWrite, hd.dst, hd.len, h.buf, h.mem]
  have hsts : s.pci.regs (SC_REG_IRQ_STS >>> 2) = s.nic.regs.irqStatus := congrFun h.regs.regs _
  rw [hsts] at hregs
  have hiff : Latched s .transfer ↔
      statusAfter s.nic.dma.irqEn s.nic.regs.irqStatus =
        statusAfter (s.nic.reg SC_REG_DMA_CTRL &&& SC_DMA_IRQ_EN != 0) s.nic.regs.irqStatus := by
    have h1 : ((s.nic.reg SC_REG_DMA_CTRL &&& SC_DMA_IRQ_EN != 0) = true) ↔
        s.nic.reg SC_REG_DMA_CTRL &&& SC_DMA_IRQ_EN ≠ 0 := bne_iff_ne
    rw [statusAfter_eq_iff, Latched, h1]
    exact ⟨fun hl => (hl rfl hp).imp_left Iff.symm, fun hl _ _ => hl.imp_left Iff.symm⟩
  have hm : Mirrors (s.nic.regs.setReg (SC_REG_DMA_STS >>> 2) 0) (s.pci.setReg (SC_REG_DMA_STS >>> 2) 0) :=
    h.regs.setReg _ _
  have hread : pci.mmioRead SC_REG_IRQ_STS = statusAfter s.nic.dma.irqEn s.nic.regs.irqStatus ∧
      nic.onMmioRead SC_REG_IRQ_STS =
        statusAfter (s.nic.reg SC_REG_DMA_CTRL &&& SC_DMA_IRQ_EN != 0) s.nic.regs.irqStatus := by
    constructor
    · show pci.regs (SC_REG_IRQ_STS >>> 2) = _
      rw [hregs]
      rfl
    · show nic.regs.irqStatus = _
      rw [hregs']
      exact RegBlock.getReg_setReg_self _ _ _
  rw [hiff]
  refine ⟨fun hl => ⟨⟨?_, ?_⟩, rfl, hbuf.trans hbuf'.symm, hbridge, hbusy, htimer.trans hpend.symm, fun hp' => ?_⟩,
    fun ha => ?_, fun hl => ⟨rfl, ?_, ?_⟩⟩
  · rw [hregs, hregs', hl]
    exact (hm.setReg _ _).regs
  · rw [hmac, hregs']
    exact h.regs.mac
  · rw [hpend] at hp'
    simp at hp'
  · have hs := ha.status
    rwa [hread.1, hread.2] at hs
  · rw [hbuf, hbuf']
  · rw [hread.1, hread.2, hl]

/-- Whatever the guest writes, the two sides agree after each transfer step if and
only if every transfer step is `Latched`. -/
theorem agree_iff_latched {msix msi netif : Bool} {mem : GuestMem} {es : List PhasesEvent}
    (h : (run step (init msix msi netif mem) es).isSome) :
    AfterEach step (fun e => e = .transfer) Agree (init msix msi netif mem) es ↔
      Along step Latched (init msix msi netif mem) es := by
  refine afterEach_iff_along (I := Same) ?_ ?_ ?_ (Same.init msix msi netif mem) h
  · intro s e t hs hok he
    cases e with
    | write addr val =>
      simp only [step, Option.ite_none_right_eq_some, Option.some.injEq] at he
      obtain ⟨-, rfl⟩ := he
      exact hs.write
    | transfer =>
      cases hp : s.nic.dmaPending with
      | true => exact (hs.transfer hp he).1 hok
      | false =>
        rw [transfer_idle hs hp] at he
        cases he
        exact hs
  · rintro s e t hs rfl he
    cases hp : s.nic.dmaPending with
    | true => exact (hs.transfer hp he).2
    | false =>
      rw [transfer_idle hs hp] at he
      cases he
      refine iff_of_true ⟨hs.mem, by rw [hs.buf], congrFun hs.regs.regs _⟩ fun _ h' => ?_
      rw [hp] at h'
      simp at h'
  · intro s e hn h'
    exact absurd h' hn

/-- A transfer with its interrupt, whose `DMA_CTRL` is then written before the transfer step. -/
def relatched : List PhasesEvent :=
  [.write SC_REG_DMA_CTRL (SC_DMA_START ||| SC_DMA_IRQ_EN), .write SC_REG_DMA_CTRL 0, .transfer]

/-- The device raises the interrupt that the start asked for, the NIC does not. -/
theorem relatched_disagree : ¬ AfterEach step (fun e => e = .transfer) Agree
    (init true false true fun _ => 0) relatched := by
  intro h
  have hr : ((run step (init true false true fun _ => 0) relatched).map fun t =>
      (t.pci.mmioRead SC_REG_IRQ_STS, t.nic.onMmioRead SC_REG_IRQ_STS)) = some (1, 0) := by decide +kernel
  obtain ⟨t, ht, he⟩ := Option.map_eq_some_iff.mp hr
  have := (h (relatched.take 2) .transfer (List.prefix_refl _) rfl t ht).status
  rw [Prod.mk.injEq] at he
  rw [he.1, he.2] at this
  simp at this

/-- A transfer with its interrupt, and one without. -/
def exampleTransfers : List PhasesEvent :=
  [.write SC_REG_DMA_LEN 16, .write SC_REG_DMA_CTRL (SC_DMA_START ||| SC_DMA_IRQ_EN), .transfer,
    .write SC_REG_IRQ_STS SC_IRQ_DMA_DONE, .write SC_REG_DMA_CTRL SC_DMA_START, .transfer]

theorem agree_iff_latched_transfers :
    AfterEach step (fun e => e = .transfer) Agree (init true false true fun _ => 0) exampleTransfers :=
  (agree_iff_latched (by decide +kernel)).mpr (by decide +kernel)

end Phases

end SmartEth
