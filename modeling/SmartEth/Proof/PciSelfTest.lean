import SmartEth.Proof.BarTests
import SmartEth.Proof.PciRun

/-!
# The self-test of the Phase 2 device

The device passes every test but possibly the DMA test, which polls `DMA_STS` up to 500 times: it
passes exactly if the timer's callback, which does the transfer and clears the busy bit, comes
before the 499th read is over (`phase2_verdict`).
-/

namespace SmartEth.PciTest

open SmartEthPci (mmioWrite_effect WriteEffect)

/-! ## The registers -/

/-- An aligned register that only takes what is written to it. -/
structure PlainReg (a : Addr) : Prop where
  lt : a < SmartEthPci.REG_COUNT * 4
  ctrl : a ≠ SmartEthPci.REG_CTRL
  irqSts : a ≠ SmartEthPci.REG_IRQ_STS
  dmaCtrl : a ≠ SmartEthPci.REG_DMA_CTRL
  irqTest : a ≠ SmartEthPci.REG_IRQ_TEST
  readOnly : ¬ (a = SmartEthPci.REG_STATUS ∨ a = SmartEthPci.REG_DEV_ID)

section Device

variable {s : SmartEthPci} {a : Addr}

theorem mmioWrite_plain (h : PlainReg a) (val : BitVec 64) :
    s.mmioWrite a val = (s.setReg (a >>> 2) (val.setWidth 32), []) := by
  rw [SmartEthPci.mmioWrite, if_neg (BitVec.not_le.mpr h.lt), if_neg h.ctrl, if_neg h.irqSts, if_neg h.dmaCtrl,
    if_neg h.irqTest, if_neg h.readOnly]

theorem mmioRead_plain (hlt : a < SmartEthPci.REG_COUNT * 4)
    (hro : ¬ (a = SmartEthPci.REG_STATUS ∨ a = SmartEthPci.REG_DEV_ID)) : s.mmioRead a = s.regs (a >>> 2) := by
  rw [SmartEthPci.mmioRead, if_neg (BitVec.not_le.mpr hlt), if_neg fun h => hro (.inr h), if_neg fun h => hro (.inl h)]

/-- A write that does not start a transfer changes registers only. -/
theorem mmioWrite_regs (ha : a &&& 3 = 0) (hd : a ≠ SmartEthPci.REG_DMA_CTRL) (val : BitVec 64) :
    ∃ regs, (s.mmioWrite a val).1 = { s with regs := regs } := by
  cases (mmioWrite_effect ha : WriteEffect s a val) with
  | start reg bit eq => exact absurd reg hd
  | reset reg bit eq | ack reg eq | test reg eq | other noReset eq status =>
    rw [eq]
    exact ⟨_, rfl⟩

theorem regs_transfer (s : SmartEthPci) (mem : GuestMem) : (s.transfer mem).1.regs = s.regs := by
  rw [SmartEthPci.transfer]
  split
  · rfl
  · rfl

/-- The callback changes two registers at most. -/
theorem regs_dmaTimerCb (s : SmartEthPci) (mem : GuestMem) {i : Addr} (hi : i ≠ SmartEthPci.REG_IRQ_STS >>> 2)
    (hd : i ≠ SmartEthPci.REG_DMA_STS >>> 2) : (s.dmaTimerCb mem).1.regs i = s.regs i := by
  rw [SmartEthPci.dmaTimerCb]
  split
  · rfl
  have hr := regs_transfer { s with dma := { s.dma with len := SmartEthPci.clampLen s.dma.len } } mem
  generalize SmartEthPci.transfer { s with dma := { s.dma with len := SmartEthPci.clampLen s.dma.len } } mem = x at hr
  obtain ⟨u, m⟩ := x
  have hset : ({ u with dma := { u.dma with ctrl := u.dma.ctrl &&& ~~~SmartEthPci.DMA_START } }.setReg
      (SmartEthPci.REG_DMA_STS >>> 2) 0).regs i = s.regs i :=
    (SmartEthPci.regs_setReg_ne hd).trans (congrFun hr i)
  dsimp only
  split
  · exact (SmartEthPci.regs_setReg_ne hi).trans hset
  · exact hset

theorem step_pci {mem : GuestMem} {e : Unit} {x : SmartEthPci × GuestMem} (h : pciDevice.step s mem e = some x) :
    s.timer = true ∧ x = (({ s with timer := false }.dmaTimerCb mem).1, ({ s with timer := false }.dmaTimerCb mem).2.1) := by
  simp only [pciDevice, Option.ite_none_right_eq_some, Option.some.injEq] at h
  exact ⟨h.1, h.2.symm⟩

theorem regOffset_aligned (reg : Word) : regOffset reg &&& 3 = 0 := by
  apply BitVec.eq_of_toNat_eq
  have hm : (regOffset reg &&& 3).toNat = (regOffset reg).toNat % 4 := by
    rw [BitVec.toNat_and, show BitVec.toNat (3 : BitVec 64) = 2 ^ 2 - 1 from rfl, Nat.and_two_pow_sub_one_eq_mod]
  rw [hm, regOffset, toNat_scaled]
  exact Nat.mul_mod_left _ 4

/-! ## What the tests ask -/

theorem plain_scratch {reg : Word} (h : reg ∈ scratchRegs) : PlainReg (regOffset reg) ∧
    regOffset reg >>> 2 ≠ SmartEthPci.REG_IRQ_STS >>> 2 ∧ regOffset reg >>> 2 ≠ SmartEthPci.REG_DMA_STS >>> 2 := by
  simp only [scratchRegs, List.mem_cons, List.not_mem_nil, or_false] at h
  rcases h with rfl | rfl | rfl | rfl
  all_goals exact ⟨⟨by decide, by decide, by decide, by decide, by decide, by decide⟩, by decide, by decide⟩

theorem readBack_plain (h : PlainReg a) (val : Word) :
    ((s.mmioWrite a (val.setWidth 64)).1.mmioRead a) = val := by
  rw [mmioRead_plain h.lt h.readOnly, mmioWrite_plain h]
  refine (SmartEthPci.regs_setReg_self _ _ _).trans ?_
  rw [BitVec.setWidth_setWidth_of_le _ (by decide), BitVec.setWidth_eq]

theorem pci_answers (I : SmartEthPci → Prop) : Answers pciDevice I where
  size := by decide
  devId := fun s _ => by
    show s.mmioRead (regOffset REG_DEV_ID) = _
    rw [SmartEthPci.mmioRead, if_neg (by decide), if_pos (by decide)]
    rfl
  status := fun s _ => by
    have hread : s.mmioRead (regOffset REG_STATUS) = SmartEthPci.STATUS_READY := by
      rw [SmartEthPci.mmioRead, if_neg (by decide), if_neg (by decide), if_pos (by decide)]
    show s.mmioRead (regOffset REG_STATUS) &&& STATUS_READY ≠ 0
    rw [hread]
    decide
  readBack := fun s reg val hr _ => readBack_plain (plain_scratch hr).1 val
  scratch := fun s mem e t reg hr _ ht => by
    obtain ⟨-, rfl⟩ := step_pci ht
    obtain ⟨hp, hi, hd⟩ := plain_scratch hr
    show SmartEthPci.mmioRead _ _ = s.mmioRead _
    rw [mmioRead_plain hp.lt hp.readOnly, mmioRead_plain hp.lt hp.readOnly]
    exact regs_dmaTimerCb _ mem hi hd
  reset := fun s _ => by
    obtain ⟨hp, -, -⟩ := plain_scratch (show REG_SCRATCH0 ∈ scratchRegs by decide)
    have hw : (s.mmioWrite (regOffset REG_CTRL) (CTRL_RESET.setWidth 64)).1 = { s with regs := fun _ => 0 }.setMac := by
      rw [SmartEthPci.mmioWrite, if_neg (by decide), if_pos (by decide), if_pos (by decide)]
    show (s.mmioWrite (regOffset REG_CTRL) (CTRL_RESET.setWidth 64)).1.mmioRead (regOffset REG_SCRATCH0) = 0
    rw [mmioRead_plain hp.lt hp.readOnly, hw]
    rfl

theorem mmioRead_irqSts (s : SmartEthPci) :
    s.mmioRead (regOffset REG_IRQ_STS) = s.regs (SmartEthPci.REG_IRQ_STS >>> 2) :=
  mmioRead_plain (by decide) (by decide)

theorem or_test_ne_zero (w : Word) : (w ||| SmartEthPci.IRQ_TEST) &&& IRQ_TEST ≠ 0 := by
  rw [BitVec.and_or_distrib_right]
  exact fun h => absurd (BitVec.or_eq_zero_iff.mp h).2 (by decide)

theorem pci_interrupts (I : SmartEthPci → Prop) : Interrupts pciDevice I where
  raise := fun s _ => by
    have hw : (s.mmioWrite (regOffset REG_IRQ_TEST) ((1 : Word).setWidth 64)).1 = (s.raiseIrq SmartEthPci.IRQ_TEST).1 := by
      rw [SmartEthPci.mmioWrite, if_neg (by decide), if_neg (by decide), if_neg (by decide), if_neg (by decide),
        if_pos (by decide), if_pos (by decide)]
    show (s.mmioWrite (regOffset REG_IRQ_TEST) ((1 : Word).setWidth 64)).1.mmioRead _ &&& IRQ_TEST ≠ 0
    rw [mmioRead_irqSts, hw, SmartEthPci.raiseIrq_status]
    exact or_test_ne_zero _
  keep := fun s mem e t _ ht hs => by
    obtain ⟨-, rfl⟩ := step_pci ht
    have hs' : s.regs (SmartEthPci.REG_IRQ_STS >>> 2) &&& IRQ_TEST ≠ 0 := mmioRead_irqSts s ▸ hs
    show SmartEthPci.mmioRead _ _ &&& IRQ_TEST ≠ 0
    rw [mmioRead_irqSts]
    obtain ⟨u, hu, ⟨heq, -⟩ | ⟨heq, -⟩⟩ := SmartEthPci.dmaTimerCb_effect { s with timer := false } mem
    · rw [heq, hu.status]
      exact hs'
    · rw [heq, SmartEthPci.raiseIrq_status, hu.status, BitVec.and_or_distrib_right]
      exact fun h => hs' (BitVec.or_eq_zero_iff.mp h).1

end Device

/-! ## Operations other than those of the DMA test -/

section Board

variable {slot : Word} {c : PciConfig} {bar0 : BitVec 64} {b t : Board SmartEthPci Unit}

/-- A step of the board: the callback runs. -/
theorem env_pci {e : Unit} (h : (Board.world pciDevice slot).env b e = some t) : b.dev.timer = true ∧
    t = { b with
      dev := ({ b.dev with timer := false }.dmaTimerCb b.mem).1
      mem := ({ b.dev with timer := false }.dmaTimerCb b.mem).2.1 }.log (.inl e) := by
  obtain ⟨x, hx, rfl⟩ := Option.map_eq_some_iff.mp h
  obtain ⟨ht, rfl⟩ := step_pci hx
  exact ⟨ht, rfl⟩

/-- They change registers, and the trace shows nothing of a transfer. -/
theorem after_tests {e : FirmwareOp} (hm : Mapped 4096 slot b.cfg bar0) (h : Tests bar0 e) :
    ∃ regs, b.after pciDevice slot e = { b with dev := { b.dev with regs := regs } }.log (.inr e) ∧
      lastTransfer bar0 (b.trace ++ [.inr e]) = lastTransfer bar0 b.trace := by
  rw [lastTransfer_snoc, watch_tests h]
  cases h with
  | puts text => exact ⟨b.dev.regs, rfl, rfl⟩
  | read hr =>
    refine ⟨b.dev.regs, ?_, rfl⟩
    have hread := perform_read (D := pciDevice) hm (Nat.lt_of_lt_of_le (regOffset_lt (polled_lt hr)) (by decide))
    rw [Board.after, hread]
    rfl
  | write hr val =>
    obtain ⟨regs, hregs⟩ := mmioWrite_regs (s := b.dev) (regOffset_aligned _) (tested_ne hr) (val.setWidth 64)
    refine ⟨regs, ?_, rfl⟩
    have hwrite := perform_write (D := pciDevice) hm (Nat.lt_of_lt_of_le (regOffset_lt (tested_lt hr)) (by decide)) val
    rw [Board.after, hwrite, ← hregs]
    rfl

end Board

/-! ## The DMA test -/

section Dma

variable {slot : Word} {c : PciConfig} {bar0 : BitVec 64} {quiet : Prop} {b t : Board SmartEthPci Unit} {k j : Nat}

/-- The parameters that the test sets. -/
def testParams : SmartEthPciDma := ⟨DMA_BUF, 0, 256, DMA_START ||| IRQ_DMA_DONE⟩

/-- The callback of the test's transfer. -/
theorem dmaTimerCb_test {s : SmartEthPci} (h : s.dma = testParams) (mem : GuestMem) :
    (s.dmaTimerCb mem).1.regs (SmartEthPci.REG_DMA_STS >>> 2) = 0 ∧
      (s.dmaTimerCb mem).1.dmaBuf.take 256 = mem.read DMA_BUF 256 ∧ (s.dmaTimerCb mem).2.1 = mem := by
  obtain ⟨regs, msix, msi, dma, timer, buf, mac, hbuf⟩ := s
  subst h
  have hstart : ¬ testParams.ctrl &&& SmartEthPci.DMA_START = 0 := by decide
  have hread : ¬ testParams.ctrl &&& SmartEthPci.DMA_DIR_WRITE ≠ 0 := by decide
  have hirq : ¬ testParams.ctrl &&& ~~~SmartEthPci.DMA_START &&& SmartEthPci.DMA_IRQ_EN ≠ 0 := by decide
  have hlen : (SmartEthPci.clampLen testParams.len).toNat = 256 := by decide
  have hlength : (mem.read DMA_BUF 256).length = 256 := Mem.length_read _ _ _
  rw [SmartEthPci.dmaTimerCb, if_neg hstart, SmartEthPci.transfer, if_neg hread]
  dsimp only [SmartEthPci.setReg]
  rw [if_neg hirq]
  refine ⟨by simp, ?_, rfl⟩
  show (overlay buf (mem.read DMA_BUF (SmartEthPci.clampLen testParams.len).toNat)).take 256 = _
  have htake : (mem.read DMA_BUF 256).take buf.length = mem.read DMA_BUF 256 :=
    List.take_of_length_le (by rw [hlength, hbuf]; decide)
  rw [hlen, overlay, htake]
  exact List.take_left' hlength

/-- Memory holds the pattern, if nothing else was pending. -/
abbrev Filled (quiet : Prop) (mem : GuestMem) : Prop := quiet → mem.read DMA_BUF 256 = patternBytes 64

/-- After `k` reads of `DMA_STS`, the transfer has not been done. -/
structure Pending (c : PciConfig) (bar0 : BitVec 64) (quiet : Prop) (k : Nat) (b : Board SmartEthPci Unit) : Prop where
  cfg : b.cfg = c
  timer : b.dev.timer = true
  dma : b.dev.dma = testParams
  transfer : lastTransfer bar0 b.trace = some ⟨k, none⟩
  mem : Filled quiet b.mem

/-- It was done after `j` of them. -/
structure Done (c : PciConfig) (bar0 : BitVec 64) (quiet : Prop) (k j : Nat) (b : Board SmartEthPci Unit) : Prop where
  cfg : b.cfg = c
  timer : b.dev.timer = false
  buf : b.dev.dmaBuf.take 256 = b.mem.read DMA_BUF 256
  transfer : lastTransfer bar0 b.trace = some ⟨k, some j⟩
  mem : Filled quiet b.mem

theorem Pending.step (h : Pending c bar0 quiet k b) {e : Unit} (he : (Board.world pciDevice slot).env b e = some t) :
    Done c bar0 quiet k k t ∧ t.dev.regs (SmartEthPci.REG_DMA_STS >>> 2) = 0 := by
  obtain ⟨-, rfl⟩ := env_pci he
  obtain ⟨hsts, hbuf, hmem⟩ := dmaTimerCb_test (s := { b.dev with timer := false }) h.dma b.mem
  refine ⟨⟨h.cfg, PciRun.timer_dmaTimerCb _ _, ?_, ?_, ?_⟩, hsts⟩
  · exact hbuf.trans (congrArg (Mem.read · DMA_BUF 256) hmem.symm)
  · refine (lastTransfer_snoc _ _).trans ?_
    rw [h.transfer]
    rfl
  · show Filled quiet (SmartEthPci.dmaTimerCb _ _).2.1
    rw [hmem]
    exact h.mem

theorem Done.step (h : Done c bar0 quiet k j b) {e : Unit}
    (he : (Board.world pciDevice slot).env b e = some t) : False := by
  cases h.timer.symm.trans (env_pci he).1

/-- What the test comes to: it passes if the transfer is done before the 499th read is over. -/
def Result (c : PciConfig) (bar0 : BitVec 64) (quiet : Prop) : PciTestResult → Board SmartEthPci Unit → Prop
  | .pass, b => ∃ k < 499, Done c bar0 quiet (k + 1) k b
  | .fail, b => Pending c bar0 quiet 500 b ∨ ∃ k, 499 ≤ k ∧ Done c bar0 quiet 500 k b

theorem Pending.tests (h : Pending c bar0 quiet k b) (hm : Mapped 4096 slot c bar0) {e : FirmwareOp} (he : Tests bar0 e) :
    Pending c bar0 quiet k (b.after pciDevice slot e) := by
  obtain ⟨regs, heq, hw⟩ := after_tests (h.cfg.symm ▸ hm) he
  rw [heq]
  exact ⟨h.cfg, h.timer, h.dma, hw.trans h.transfer, h.mem⟩

theorem Done.tests (h : Done c bar0 quiet k j b) (hm : Mapped 4096 slot c bar0) {e : FirmwareOp} (he : Tests bar0 e) :
    Done c bar0 quiet k j (b.after pciDevice slot e) := by
  obtain ⟨regs, heq, hw⟩ := after_tests (h.cfg.symm ▸ hm) he
  rw [heq]
  exact ⟨h.cfg, h.timer, h.buf, hw.trans h.transfer, h.mem⟩

/-- What the DMA test has come to does not change. -/
theorem Result.steady (hm : Mapped 4096 slot c bar0) (quiet : Prop) (r : PciTestResult) :
    Steady pciDevice slot c bar0 (fun _ => True) (Result c bar0 quiet r) := by
  refine ⟨hm, fun b e t h he => ?_, fun b h => ?_, fun _ _ => trivial, fun b e he h => ?_⟩
  · cases r with
    | pass =>
      obtain ⟨k, -, hd⟩ := h
      exact (hd.step he).elim
    | fail =>
      rcases h with hp | ⟨k, -, hd⟩
      · exact .inr ⟨500, by decide, (hp.step he).1⟩
      · exact (hd.step he).elim
  · cases r with
    | pass =>
      obtain ⟨k, -, hd⟩ := h
      exact hd.cfg
    | fail =>
      rcases h with hp | ⟨k, -, hd⟩
      · exact hp.cfg
      · exact hd.cfg
  · cases r with
    | pass =>
      obtain ⟨k, hk, hd⟩ := h
      exact ⟨k, hk, hd.tests hm he⟩
    | fail =>
      rcases h with hp | ⟨k, hk, hd⟩
      · exact .inl (hp.tests hm he)
      · exact .inr ⟨k, hk, hd.tests hm he⟩

/-! ### The loop -/

/-- Before read `k`, counted from 0: the register tells whether the transfer has been done. -/
def Polling (c : PciConfig) (bar0 : BitVec 64) (quiet : Prop) (k : Nat) (b : Board SmartEthPci Unit) : Prop :=
  (Pending c bar0 quiet k b ∧ b.dev.regs (SmartEthPci.REG_DMA_STS >>> 2) = SmartEthPci.STATUS_DMA_BSY) ∨
    (Done c bar0 quiet k k b ∧ b.dev.regs (SmartEthPci.REG_DMA_STS >>> 2) = 0)

theorem Polling.stable : (Board.world pciDevice slot).Stable (Polling c bar0 quiet k) := by
  rintro b e t (⟨h, -⟩ | ⟨h, -⟩) he
  · exact .inr (h.step he)
  · exact (h.step he).elim

/-- A read of `DMA_STS`. -/
theorem perform_dmaSts (hm : Mapped 4096 slot b.cfg bar0) : b.perform pciDevice slot (.load (regAddr bar0 REG_DMA_STS)) =
    (b.dev.regs (SmartEthPci.REG_DMA_STS >>> 2), b) := by
  have hread : b.dev.mmioRead (regOffset REG_DMA_STS) = b.dev.regs (SmartEthPci.REG_DMA_STS >>> 2) :=
    mmioRead_plain (by decide) (by decide)
  rw [perform_read (D := pciDevice) hm (Nat.lt_of_lt_of_le (regOffset_lt (by decide)) (by decide))]
  exact Prod.ext hread rfl

/-- The loop from read `k` on, with `n` reads left. -/
theorem pollDma_leads (hm : Mapped 4096 slot c bar0) {n : Nat} (hn : k + n = 500) (h : Polling c bar0 quiet k b) :
    (Board.world pciDevice slot).Leads (pollDma bar0 n)
      (fun timeout => Result c bar0 quiet (if timeout ≤ 0 then .fail else .pass)) b := by
  induction n generalizing k b with
  | zero =>
    obtain rfl : k = 500 := hn
    refine .ret (Result.steady hm quiet .fail).stable ?_ fun _ h => h
    exact h.imp And.left fun hd => ⟨500, by decide, hd.1⟩
  | succ n ih =>
    rw [pollDma]
    refine op_leads Polling.stable h fun b hb => ?_
    have hcfg : b.cfg = c := hb.elim (fun h => h.1.cfg) fun h => h.1.cfg
    have hpolls : ∀ j, lastTransfer bar0 b.trace = some ⟨k, j⟩ →
        lastTransfer bar0 (b.trace ++ [.inr (.load (regAddr bar0 REG_DMA_STS))]) = some ⟨k + 1, j⟩ := by
      intro j hj
      rw [lastTransfer_snoc, hj, watch_dmaSts]
      rfl
    rw [perform_dmaSts (hcfg.symm ▸ hm)]
    rcases hb with ⟨hp, hsts⟩ | ⟨hd, hsts⟩
    · -- busy: the loop waits, and goes on
      have hp' : Pending c bar0 quiet (k + 1) (b.log (.inr (.load (regAddr bar0 REG_DMA_STS)))) :=
        ⟨hp.cfg, hp.timer, hp.dma, hpolls _ hp.transfer, hp.mem⟩
      have hbusy : ¬ b.dev.regs (SmartEthPci.REG_DMA_STS >>> 2) &&& STATUS_DMA_BSY = 0 := by
        rw [hsts]
        decide
      rw [if_neg hbusy]
      refine op_leads Polling.stable (.inl ⟨hp', hsts⟩) fun b hb => ih (k := k + 1) (by omega) ?_
      have hdelay : lastTransfer bar0 (b.trace ++ [.inr (.delay 1)]) = lastTransfer bar0 b.trace := lastTransfer_snoc _ _
      rcases hb with ⟨h, hs⟩ | ⟨h, hs⟩
      · exact .inl ⟨⟨h.cfg, h.timer, h.dma, hdelay.trans h.transfer, h.mem⟩, hs⟩
      · exact .inr ⟨⟨h.cfg, h.timer, h.buf, hdelay.trans h.transfer, h.mem⟩, hs⟩
    · -- idle: `n` reads are left
      have hd' : Done c bar0 quiet (k + 1) k (b.log (.inr (.load (regAddr bar0 REG_DMA_STS)))) :=
        ⟨hd.cfg, hd.timer, hd.buf, hpolls _ hd.transfer, hd.mem⟩
      have hidle : b.dev.regs (SmartEthPci.REG_DMA_STS >>> 2) &&& STATUS_DMA_BSY = 0 := by
        rw [hsts]
        rfl
      rw [if_pos hidle]
      refine .ret (Result.steady hm quiet _).stable ?_ fun _ h => h
      by_cases h0 : n = 0
      · subst h0
        obtain rfl : k = 499 := by omega
        exact .inr ⟨499, by decide, hd'⟩
      · rw [if_neg (by omega)]
        exact ⟨k, by omega, hd'⟩

/-! ### The start of the transfer -/

def paramRegs : List Word := [REG_DMA_SRC, REG_DMA_DST, REG_DMA_LEN]

theorem param_plain {reg : Word} (h : reg ∈ paramRegs) : PlainReg (regOffset reg) ∧ reg < 0x400 ∧
    regOffset reg >>> 2 ≠ SmartEthPci.REG_IRQ_STS >>> 2 ∧ regOffset reg >>> 2 ≠ SmartEthPci.REG_DMA_STS >>> 2 := by
  simp only [paramRegs, List.mem_cons, List.not_mem_nil, or_false] at h
  rcases h with rfl | rfl | rfl
  all_goals exact ⟨⟨by decide, by decide, by decide, by decide, by decide, by decide⟩, by decide, by decide, by decide⟩

theorem param_inj {r r' : Word} (h : r ∈ paramRegs) (h' : r' ∈ paramRegs) (hne : r ≠ r') :
    regOffset r >>> 2 ≠ regOffset r' >>> 2 := by
  simp only [paramRegs, List.mem_cons, List.not_mem_nil, or_false] at h h'
  rcases h with rfl | rfl | rfl <;> rcases h' with rfl | rfl | rfl <;> first | exact absurd rfl hne | decide

/-- Before the transfer is started. If nothing was pending before the test, nothing is, and memory is as `M` says;
the parameters set so far are `vals`. -/
structure Setup (c : PciConfig) (quiet : Prop) (M : GuestMem → Prop) (vals : List (Word × Word))
    (b : Board SmartEthPci Unit) : Prop where
  cfg : b.cfg = c
  mem : quiet → b.dev.timer = false ∧ M b.mem
  vals : ∀ x ∈ vals, x.1 ∈ paramRegs ∧ b.dev.regs (regOffset x.1 >>> 2) = x.2

namespace Setup

variable {M M' : GuestMem → Prop} {vals : List (Word × Word)}

theorem stable : (Board.world pciDevice slot).Stable (Setup c quiet M vals) := by
  intro b e t h he
  obtain ⟨ht, rfl⟩ := env_pci he
  refine ⟨h.cfg, fun hq => ?_, fun x hx => ?_⟩
  · cases ht.symm.trans (h.mem hq).1
  · obtain ⟨hp, hv⟩ := h.vals x hx
    obtain ⟨-, -, hi, hd⟩ := param_plain hp
    exact ⟨hp, (regs_dmaTimerCb _ _ hi hd).trans hv⟩

theorem steady (hm : Mapped 4096 slot c bar0) (quiet : Prop) :
    Steady pciDevice slot c bar0 (fun _ => True) (Setup c quiet (fun _ => True) []) := by
  refine ⟨hm, stable, fun _ h => h.cfg, fun _ _ => trivial, fun b e he h => ?_⟩
  obtain ⟨regs, heq, -⟩ := after_tests (h.cfg.symm ▸ hm) he
  rw [heq]
  exact ⟨h.cfg, h.mem, fun x hx => by cases hx⟩

theorem puts (h : Setup c quiet M vals b) (text : String) :
    (Board.world pciDevice slot).Leads (uartPuts text) (fun _ => Setup c quiet M vals) b :=
  call_leads stable h (fun _ => stable) fun _ hb => ⟨hb.cfg, hb.mem, hb.vals⟩

/-- A word of the buffer is stored. -/
theorem store (hm : Mapped 4096 slot c bar0) (h : Setup c quiet M vals b) {addr : BitVec 64} (ha : 0x80000000 ≤ addr.toNat)
    {val : Word} (hM : ∀ mem : GuestMem, M mem → M' (mem.write addr (leBytes val))) :
    (Board.world pciDevice slot).Leads (PciTest.store addr val) (fun _ => Setup c quiet M' vals) b := by
  refine call_leads stable h (fun _ => stable) fun b hb => ?_
  have ht : target pciDevice.size slot b.cfg addr = .memory := (hb.cfg.symm ▸ hm).target_ram ha
  simp only [Board.perform, ht]
  exact ⟨hb.cfg, fun hq => ⟨(hb.mem hq).1, hM _ (hb.mem hq).2⟩, hb.vals⟩

/-- A parameter is set. -/
theorem param (hm : Mapped 4096 slot c bar0) (h : Setup c quiet M vals b) {reg : Word} (hr : reg ∈ paramRegs)
    (hnew : ∀ x ∈ vals, x.1 ≠ reg) (val : Word) :
    (Board.world pciDevice slot).Leads (smartethRegWrite bar0 reg val)
      (fun _ => Setup c quiet M ((reg, val) :: vals)) b := by
  refine call_leads stable h (fun _ => stable) fun b hb => ?_
  obtain ⟨hp, hlt, -, -⟩ := param_plain hr
  have hwrite := perform_write (D := pciDevice) (hb.cfg.symm ▸ hm)
    (Nat.lt_of_lt_of_le (regOffset_lt hlt) (by decide)) val
  have hdev : pciDevice.write b.dev (regOffset reg) val = b.dev.setReg (regOffset reg >>> 2) val := by
    show (b.dev.mmioWrite (regOffset reg) (val.setWidth 64)).1 = _
    rw [mmioWrite_plain hp, BitVec.setWidth_setWidth_of_le _ (by decide), BitVec.setWidth_eq]
  rw [hwrite, hdev]
  refine ⟨hb.cfg, hb.mem, fun x hx => ?_⟩
  rcases List.mem_cons.mp hx with rfl | hx
  · exact ⟨hr, SmartEthPci.regs_setReg_self _ _ _⟩
  · obtain ⟨hx', hv⟩ := hb.vals x hx
    exact ⟨hx', (SmartEthPci.regs_setReg_ne (param_inj hx' hr (hnew x hx))).trans hv⟩

end Setup

/-! ### The pattern -/

theorem length_patternBytes (n : Nat) : (patternBytes n).length = 4 * n := by
  induction n with
  | zero => rfl
  | succ n ih =>
    rw [patternBytes, List.range_succ, List.flatMap_append, List.length_append, ← patternBytes, ih, List.flatMap_cons,
      List.flatMap_nil, List.append_nil, length_leBytes]
    omega

theorem patternBytes_succ (n : Nat) :
    patternBytes (n + 1) = patternBytes n ++ leBytes (0xAABB0000 + BitVec.ofNat 32 n) := by
  rw [patternBytes, List.range_succ, List.flatMap_append, ← patternBytes, List.flatMap_cons, List.flatMap_nil,
    List.append_nil]

/-- The first `n` words of the buffer have been stored. -/
def Stored (n : Nat) (mem : GuestMem) : Prop := ∃ m : GuestMem, mem = m.write DMA_BUF (patternBytes n)

theorem Stored.next {n : Nat} (hn : n < 64) {mem : GuestMem} (h : Stored n mem) :
    Stored (n + 1) (mem.write (DMA_BUF + BitVec.ofNat 64 (4 * n)) (leBytes (0xAABB0000 + BitVec.ofNat 32 n))) := by
  obtain ⟨m, rfl⟩ := h
  have hlen := length_patternBytes n
  refine ⟨m, ?_⟩
  rw [patternBytes_succ, Mem.write_append _ _ _ _ (by rw [hlen, length_leBytes]; omega), hlen]

/-- The loop, with `n` words left. -/
theorem fillPattern_leads (hm : Mapped 4096 slot c bar0) {n : Nat} (hn : n ≤ 64)
    (h : Setup c quiet (Stored (64 - n)) [] b) :
    (Board.world pciDevice slot).Leads (fillPattern n) (fun _ => Setup c quiet (Stored 64) []) b := by
  induction n generalizing b with
  | zero => exact .ret Setup.stable h fun _ h => h
  | succ n ih =>
    have ha : 0x80000000 ≤ (DMA_BUF + BitVec.ofNat 64 (4 * (64 - (n + 1)))).toNat := by
      rw [BitVec.toNat_add, BitVec.toNat_ofNat, show DMA_BUF.toNat = 0x8F000000 from rfl]
      omega
    rw [fillPattern]
    refine (h.store hm ha fun mem hs => hs.next (by omega)).seq fun _ b hb => ?_
    rw [show 64 - (n + 1) + 1 = 64 - n by omega] at hb
    exact ih (by omega) hb

theorem Stored.filled {mem : GuestMem} (h : Stored 64 mem) : mem.read DMA_BUF 256 = patternBytes 64 := by
  obtain ⟨m, rfl⟩ := h
  have hlen := length_patternBytes 64
  have hread := Mem.read_write_self m DMA_BUF (patternBytes 64) (by rw [hlen]; decide)
  rwa [hlen] at hread

/-! ### The test -/

/-- What the write of `DMA_CTRL` makes of the device. -/
theorem start_test {s : SmartEthPci} (hsrc : s.regs (regOffset REG_DMA_SRC >>> 2) = DMA_BUF.setWidth 32)
    (hdst : s.regs (regOffset REG_DMA_DST >>> 2) = 0) (hlen : s.regs (regOffset REG_DMA_LEN >>> 2) = 256) :
    (pciDevice.write s (regOffset REG_DMA_CTRL) (DMA_START ||| IRQ_DMA_DONE)).timer = true ∧
      (pciDevice.write s (regOffset REG_DMA_CTRL) (DMA_START ||| IRQ_DMA_DONE)).dma = testParams ∧
      (pciDevice.write s (regOffset REG_DMA_CTRL) (DMA_START ||| IRQ_DMA_DONE)).regs (SmartEthPci.REG_DMA_STS >>> 2) =
        SmartEthPci.STATUS_DMA_BSY := by
  have hw : pciDevice.write s (regOffset REG_DMA_CTRL) (DMA_START ||| IRQ_DMA_DONE) =
      (s.setReg (SmartEthPci.REG_DMA_CTRL >>> 2) (DMA_START ||| IRQ_DMA_DONE)).startDma := by
    show (s.mmioWrite (regOffset REG_DMA_CTRL) ((DMA_START ||| IRQ_DMA_DONE).setWidth 64)).1 = _
    rw [SmartEthPci.mmioWrite, if_neg (by decide), if_neg (by decide), if_neg (by decide), if_pos (by decide)]
    dsimp only
    rw [if_pos (by decide)]
    rfl
  rw [hw]
  refine ⟨rfl, ?_, by simp [SmartEthPci.startDma, SmartEthPci.setReg]⟩
  show SmartEthPciDma.mk _ _ _ _ = testParams
  have hsrc' : (s.setReg (SmartEthPci.REG_DMA_CTRL >>> 2) (DMA_START ||| IRQ_DMA_DONE)).regs
      (SmartEthPci.REG_DMA_SRC >>> 2) = DMA_BUF.setWidth 32 := (SmartEthPci.regs_setReg_ne (by decide)).trans hsrc
  have hdst' : (s.setReg (SmartEthPci.REG_DMA_CTRL >>> 2) (DMA_START ||| IRQ_DMA_DONE)).regs
      (SmartEthPci.REG_DMA_DST >>> 2) = 0 := (SmartEthPci.regs_setReg_ne (by decide)).trans hdst
  have hlen' : (s.setReg (SmartEthPci.REG_DMA_CTRL >>> 2) (DMA_START ||| IRQ_DMA_DONE)).regs
      (SmartEthPci.REG_DMA_LEN >>> 2) = 256 := (SmartEthPci.regs_setReg_ne (by decide)).trans hlen
  rw [hsrc', hdst', hlen', SmartEthPci.regs_setReg_self]
  rfl

theorem Polling.puts (h : Polling c bar0 quiet k b) (text : String) :
    (Board.world pciDevice slot).Leads (uartPuts text) (fun _ => Polling c bar0 quiet k) b := by
  refine call_leads Polling.stable h (fun _ => Polling.stable) fun b hb => ?_
  have ht : lastTransfer bar0 (b.trace ++ [.inr (.puts text)]) = lastTransfer bar0 b.trace := lastTransfer_snoc _ _
  rcases hb with ⟨h, hs⟩ | ⟨h, hs⟩
  · exact .inl ⟨⟨h.cfg, h.timer, h.dma, ht.trans h.transfer, h.mem⟩, hs⟩
  · exact .inr ⟨⟨h.cfg, h.timer, h.buf, ht.trans h.transfer, h.mem⟩, hs⟩

theorem startDma_leads (hm : Mapped 4096 slot c bar0) (h : Setup c quiet (Stored 64)
      [(REG_DMA_LEN, 256), (REG_DMA_DST, 0), (REG_DMA_SRC, DMA_BUF.setWidth 32)] b) :
    (Board.world pciDevice slot).Leads (smartethRegWrite bar0 REG_DMA_CTRL (DMA_START ||| IRQ_DMA_DONE))
      (fun _ => Polling c bar0 quiet 0) b := by
  refine call_leads Setup.stable h (fun _ => Polling.stable) fun b hb => ?_
  have hwrite := perform_write (D := pciDevice) (hb.cfg.symm ▸ hm)
    (Nat.lt_of_lt_of_le (regOffset_lt (show REG_DMA_CTRL < 0x400 by decide)) (by decide)) (DMA_START ||| IRQ_DMA_DONE)
  obtain ⟨htimer, hdma, hsts⟩ := start_test (hb.vals (REG_DMA_SRC, DMA_BUF.setWidth 32) (by simp)).2
    (hb.vals (REG_DMA_DST, 0) (by simp)).2 (hb.vals (REG_DMA_LEN, 256) (by simp)).2
  rw [hwrite]
  refine .inl ⟨⟨hb.cfg, htimer, hdma, ?_, fun hq => (hb.mem hq).2.filled⟩, hsts⟩
  exact (lastTransfer_snoc _ _).trans (watch_dmaCtrl _ _)

/-- `test_dma`. -/
theorem testDma_leads (hm : Mapped 4096 slot c bar0) (h : Setup c quiet (fun _ => True) [] b) :
    (Board.world pciDevice slot).Leads (testDma bar0) (Result c bar0 quiet) b := by
  have hstart : Setup c quiet (Stored (64 - 64)) [] b :=
    ⟨h.cfg, fun hq => ⟨(h.mem hq).1, b.mem, rfl⟩, h.vals⟩
  refine (fillPattern_leads hm le_rfl hstart).seq fun _ b hb => ?_
  refine (hb.param hm (show REG_DMA_SRC ∈ paramRegs by decide) (by simp) (DMA_BUF.setWidth 32)).seq fun _ b hb => ?_
  refine (hb.param hm (show REG_DMA_DST ∈ paramRegs by decide) (by simp; decide) 0).seq fun _ b hb => ?_
  refine (hb.param hm (show REG_DMA_LEN ∈ paramRegs by decide) (by simp; decide) 256).seq fun _ b hb => ?_
  refine (startDma_leads hm hb).seq fun _ b hb => ?_
  refine (hb.puts _).seq fun _ b hb => ?_
  refine (pollDma_leads hm (Nat.zero_add 500) hb).seq fun timeout b hb => ?_
  split
  · rename_i hle
    rw [if_pos hle] at hb
    have hS := Result.steady hm quiet .fail
    exact (hS.puts hb _).seq fun _ b hb => .ret hS.stable hb fun _ h => h
  · rename_i hle
    rw [if_neg hle] at hb
    have hS := Result.steady hm quiet .pass
    exact (hS.puts hb _).seq fun _ b hb => .ret hS.stable hb fun _ h => h

/-- All tests: the DMA test decides. -/
theorem runAll_leads (hm : Mapped 4096 slot c bar0) (h : Setup c quiet (fun _ => True) [] b) :
    (Board.world pciDevice slot).Leads (runAll bar0 [testDeviceId, testStatus, testScratchRegs, testCtrlReset, testMacAddr,
      testDma, testInterrupt] .pass) (Result c bar0 quiet) b := by
  refine (Setup.steady hm quiet).runAll (pci_answers _) h (fun r => (Result.steady hm quiet r).stable)
    (fun b hb => testDma_leads hm hb) fun r b hb => ?_
  have hpass := (Result.steady hm quiet r).testInterrupt (pci_answers _) hb (pci_interrupts _)
  refine hpass.mono ?_
  rintro _ b ⟨rfl, hb⟩
  cases r with
  | pass => exact hb
  | fail => exact hb

/-! ## The verdict -/

theorem Result.cfg {r : PciTestResult} (hm : Mapped 4096 slot c bar0) (h : Result c bar0 quiet r b) : b.cfg = c :=
  (Result.steady hm quiet r).cfg b h

theorem Result.pass_iff {r : PciTestResult} (h : Result c bar0 quiet r b) :
    r = .pass ↔ ∃ w k, lastTransfer bar0 b.trace = some w ∧ w.done = some k ∧ k < 499 := by
  cases r with
  | pass =>
    obtain ⟨k, hk, hd⟩ := h
    exact iff_of_true rfl ⟨_, k, hd.transfer, rfl, hk⟩
  | fail =>
    refine iff_of_false nofun ?_
    rintro ⟨w, k, hw, hk, hlt⟩
    rcases h with hp | ⟨j, hj, hd⟩
    · obtain rfl := Option.some.inj (hp.transfer.symm.trans hw)
      cases hk
    · obtain rfl := Option.some.inj (hd.transfer.symm.trans hw)
      obtain rfl := Option.some.inj hk
      omega

theorem Result.polls_le {r : PciTestResult} (h : Result c bar0 quiet r b) :
    ∃ w, lastTransfer bar0 b.trace = some w ∧ w.polls ≤ 500 := by
  cases r with
  | pass =>
    obtain ⟨k, hk, hd⟩ := h
    exact ⟨_, hd.transfer, by dsimp only; omega⟩
  | fail =>
    rcases h with hp | ⟨j, -, hd⟩
    · exact ⟨_, hp.transfer, le_rfl⟩
    · exact ⟨_, hd.transfer, le_rfl⟩

end Dma

/-- Whatever config space, registers and memory hold at power-on, and whenever the timer's callback runs: the
firmware reports success if and only if the callback of its transfer comes within the first 499 reads of
`DMA_STS`. Then the device holds the 256 bytes that are in guest memory. -/
theorem phase2_verdict {slot : Word} {b t : Board SmartEthPci Unit} {es : List (Unit ⊕ Unit)}
    (hfound : b.cfg.foundDev = some slot) (hplain : PlainRegs b.cfg slot) (hfits : BarFits 4096 b.cfg slot)
    (hrun : run (Board.world pciDevice slot).go (b, vTaskPciTest) es = some (t, .ret ())) :
    ∃ r w, report r <:+ console t.trace ∧ lastTransfer (bar0Of t.cfg slot) t.trace = some w ∧ w.polls ≤ 500 ∧
      (r = .pass ↔ ∃ k < 499, w.done = some k) ∧
      (r = .pass → t.dev.dmaBuf.take 256 = t.mem.read DMA_BUF 256 ∧
        (b.dev.timer = false → t.mem.read DMA_BUF 256 = patternBytes 64)) := by
  have hen := (enabled (b.cfg.lt_of_foundDev hfound) hplain).1
  have hm := mapped_of_enabled (by decide) hfits hen
  let P : SmartEthPci → Prop := fun s => b.dev.timer = false → s.timer = false
  have hP : Keeps pciDevice P := fun s mem e x hs hx hq => by cases (step_pci hx).1.symm.trans (hs hq)
  have htask := task_leads hP hfound hplain (b := b) ⟨rfl, fun h => h⟩
    (Result.steady hm (b.dev.timer = false)) fun u hu =>
      run_leads (Result.steady hm (b.dev.timer = false)) (Setup.steady hm _)
        ⟨hu.cfg, fun hq => ⟨hu.dev hq, trivial⟩, fun x hx => by cases hx⟩ fun u hu => runAll_leads hm hu
  obtain ⟨r, hr, hreport⟩ := htask.run hrun
  obtain ⟨w, hw, hpolls⟩ := hr.polls_le
  rw [← hr.cfg hm] at hw
  refine ⟨r, w, hreport, hw, hpolls, ?_, ?_⟩
  · rw [hr.pass_iff, ← hr.cfg hm]
    constructor
    · rintro ⟨w', k, hw', hk, hlt⟩
      obtain rfl := Option.some.inj (hw.symm.trans hw')
      exact ⟨k, hlt, hk⟩
    · rintro ⟨k, hlt, hk⟩
      exact ⟨w, k, hw, hk, hlt⟩
  · rintro rfl
    obtain ⟨k, -, hd⟩ := hr
    exact ⟨hd.buf, hd.mem⟩

/-- The callback comes after one read of `DMA_STS`. -/
def exampleInTime : List (Unit ⊕ Unit) := List.replicate 124 (.inr ()) ++ .inl () :: List.replicate 14 (.inr ())

theorem phase2_verdict_passed : ∃ t, run (Board.world pciDevice 1).go (abortedBoard, vTaskPciTest) exampleInTime =
      some (t, .ret ()) ∧ report .pass <:+ console t.trace ∧ t.dev.dmaBuf.take 256 = patternBytes 64 := by
  have hr : (run (Board.world pciDevice 1).go (abortedBoard, vTaskPciTest) exampleInTime).map (fun x =>
      (x.2.result?, (lastTransfer (bar0Of x.1.cfg 1) x.1.trace).bind (·.done))) = some (some (), some 1) := by
    decide +kernel
  obtain ⟨⟨t, p⟩, hrun, he⟩ := Option.map_eq_some_iff.mp hr
  obtain ⟨hp, hdone⟩ := Prod.mk.inj he
  obtain rfl := Prog.result?_eq_some hp
  have hfound : abortedBoard.cfg.foundDev = some 1 := show PciConfig.abortedSpace.foundDev = some 1 by decide
  have hbar : bar0Of abortedBoard.cfg 1 = 0 := by decide
  obtain ⟨r, w, hreport, hw, -, hpass, hbuf⟩ := phase2_verdict hfound ⟨by decide, by decide⟩ (.inl hbar) hrun
  rw [hw] at hdone
  obtain rfl := hpass.mpr ⟨1, by decide, hdone⟩
  obtain ⟨hbuf, hmem⟩ := hbuf rfl
  exact ⟨t, hrun, hreport, hbuf.trans (hmem rfl)⟩

end SmartEth.PciTest
