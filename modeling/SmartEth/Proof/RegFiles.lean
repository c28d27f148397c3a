import SmartEth.System.RegFiles

/-!
# Three register files

`RegBlock` and the Phase 2 device read the same after the same writes
(`read_eq_mmioRead`). The bridge reads as `RegBlock` does exactly after writes
that are `Alike` (`readLocal_eq_read_iff`): its default MAC address is another,
and a test interrupt leaves its status alone.
-/

namespace SmartEth

/-! ## Addresses and indices -/

/-- A mask tests the same bits of a value that was widened. -/
theorem setWidth_and_eq_zero {a b : Word} : a.setWidth 64 &&& b.setWidth 64 = 0 ↔ a &&& b = 0 := by
  rw [← BitVec.setWidth_and]
  constructor
  · intro h
    have h32 := congrArg (BitVec.setWidth 32) h
    rwa [BitVec.setWidth_setWidth_of_le _ (by decide), BitVec.setWidth_eq] at h32
  · intro h
    rw [h]
    rfl

theorem setWidth_eq_zero {a : Word} : a.setWidth 64 = 0 ↔ a = 0 := by
  constructor
  · intro h
    have h32 := congrArg (BitVec.setWidth 32) h
    rwa [BitVec.setWidth_setWidth_of_le _ (by decide), BitVec.setWidth_eq] at h32
  · intro h
    rw [h]
    rfl

@[simp] theorem setWidth_setWidth_word (a : Word) : (a.setWidth 64).setWidth 32 = a := by
  rw [BitVec.setWidth_setWidth_of_le _ (by decide), BitVec.setWidth_eq]

/-! ## `RegBlock` and the Phase 2 device -/

/-- The same registers, and the same MAC address to go back to. -/
structure Mirrors (b : RegBlock) (s : SmartEthPci) : Prop where
  regs : s.regs = b.regs
  mac : s.macAddr = b.mac

namespace Mirrors

variable {b : RegBlock} {s : SmartEthPci}

theorem new (msix msi : Bool) : Mirrors .new (.new msix msi) := ⟨rfl, rfl⟩

theorem setReg (h : Mirrors b s) (i : Addr) (v : Word) : Mirrors (b.setReg i v) (s.setReg i v) := by
  refine ⟨?_, h.mac⟩
  simp only [SmartEthPci.setReg, RegBlock.setReg, h.regs]

theorem read (h : Mirrors b s) (addr : Addr) : b.read addr = s.mmioRead addr := by
  simp only [RegBlock.read, SmartEthPci.mmioRead, h.regs]
  rfl

theorem reset (h : Mirrors b s) : Mirrors (((b.reset).setMac b.mac).setReg (SC_REG_IRQ_STS >>> 2) 0)
    { s with regs := fun _ => 0 }.setMac := by
  refine ⟨funext fun i => ?_, h.mac⟩
  simp only [SmartEthPci.setMac, SmartEthPci.setReg, RegBlock.setReg, RegBlock.setMac, RegBlock.reset, h.mac]
  by_cases hi : i = SC_REG_IRQ_STS >>> 2
  · subst hi
    rfl
  · rw [if_neg hi, ite_self]
    rfl

/-- A write that starts no transfer. -/
theorem write (h : Mirrors b s) {w : RegWrite} (hs : w.starts = false) :
    Mirrors (b.write w.addr w.val).1 (s.mmioWrite w.addr (w.val.setWidth 64)).1 := by
  obtain ⟨addr, val⟩ := w
  simp only [RegWrite.starts, decide_eq_false_iff_not, not_and, not_not] at hs
  have hsts : s.regs (SmartEthPci.REG_IRQ_STS >>> 2) = b.irqStatus := congrFun h.regs _
  rw [RegBlock.write, SmartEthPci.mmioWrite]
  by_cases hge : addr ≥ SC_REG_COUNT
  · rw [if_pos hge, if_pos (show addr ≥ SmartEthPci.REG_COUNT * 4 from hge)]
    exact h
  rw [if_neg hge, if_neg (show ¬ addr ≥ SmartEthPci.REG_COUNT * 4 from hge)]
  by_cases hctrl : addr = SC_REG_CTRL
  · rw [if_pos hctrl, if_pos (show addr = SmartEthPci.REG_CTRL from hctrl)]
    have hr64 : val.setWidth 64 &&& SmartEthPci.CTRL_RESET = 0 ↔ val &&& SC_CTRL_RESET = 0 :=
      setWidth_and_eq_zero (b := SC_CTRL_RESET)
    by_cases hr : val &&& SC_CTRL_RESET = 0
    · rw [if_neg (bne_iff_ne.not.mpr (not_not.mpr hr)), if_neg (not_not.mpr (hr64.mpr hr)), setWidth_setWidth_word]
      exact h.setReg _ _
    · rw [if_pos (bne_iff_ne.mpr hr), if_pos (hr64.not.mpr hr)]
      exact h.reset
  rw [if_neg hctrl, if_neg (show ¬ addr = SmartEthPci.REG_CTRL from hctrl)]
  by_cases hirq : addr = SC_REG_IRQ_STS
  · rw [if_pos hirq, if_pos (show addr = SmartEthPci.REG_IRQ_STS from hirq)]
    dsimp only
    rw [setWidth_setWidth_word, hsts]
    exact h.setReg _ _
  rw [if_neg hirq, if_neg (show ¬ addr = SmartEthPci.REG_IRQ_STS from hirq)]
  by_cases hdma : addr = SC_REG_DMA_CTRL
  · rw [if_pos hdma, if_pos (show addr = SmartEthPci.REG_DMA_CTRL from hdma), setWidth_setWidth_word]
    have hs64 : val.setWidth 64 &&& SmartEthPci.DMA_START.setWidth 64 = 0 :=
      (setWidth_and_eq_zero (b := SC_DMA_START)).mpr (hs hdma)
    dsimp only
    rw [if_neg (not_not.mpr hs64)]
    exact h.setReg _ _
  rw [if_neg hdma, if_neg (show ¬ addr = SmartEthPci.REG_DMA_CTRL from hdma)]
  by_cases htest : addr = SC_REG_IRQ_TEST
  · rw [if_pos htest, if_pos (show addr = SmartEthPci.REG_IRQ_TEST from htest)]
    by_cases hv : val = 0
    · rw [if_neg (bne_iff_ne.not.mpr (not_not.mpr hv)), if_neg (not_not.mpr (setWidth_eq_zero.mpr hv))]
      exact h
    · rw [if_pos (bne_iff_ne.mpr hv), if_pos fun h0 => hv (setWidth_eq_zero.mp h0), SmartEthPci.raiseIrq, hsts]
      exact h.setReg _ _
  rw [if_neg htest, if_neg (show ¬ addr = SmartEthPci.REG_IRQ_TEST from htest)]
  by_cases hro : addr = SC_REG_STATUS ∨ addr = SC_REG_DEV_ID
  · rw [if_pos hro, if_pos (show addr = SmartEthPci.REG_STATUS ∨ addr = SmartEthPci.REG_DEV_ID from hro)]
    exact h
  · rw [if_neg hro, if_neg (show ¬ (addr = SmartEthPci.REG_STATUS ∨ addr = SmartEthPci.REG_DEV_ID) from hro),
      setWidth_setWidth_word]
    exact h.setReg _ _

theorem writes (h : Mirrors b s) {ws : List RegWrite} (hs : ∀ w ∈ ws, w.starts = false) :
    Mirrors (b.writes ws) (s.writes ws) := by
  induction ws generalizing b s with
  | nil => exact h
  | cons w ws ih =>
    exact ih (h.write (hs w List.mem_cons_self)) fun w' hw => hs w' (List.mem_cons_of_mem w hw)

end Mirrors

/-- After the same writes, none of them a start, `RegBlock` and the Phase 2
device read the same. -/
theorem read_eq_mmioRead (msix msi : Bool) {ws : List RegWrite}
    (hw : ∀ w ∈ ws, w.Aligned ∧ w.starts = false) :
    ∀ pre, pre <+: ws → ∀ addr : Addr, addr &&& 3 = 0 →
      (RegBlock.new.writes pre).read addr = ((SmartEthPci.new msix msi).writes pre).mmioRead addr := by
  intro pre hp addr _
  have hpre : ∀ w ∈ pre, w.starts = false := fun w hm => (hw w (hp.subset hm)).2
  exact ((Mirrors.new msix msi).writes hpre).read addr

/-- A test interrupt, its acknowledgement and a reset. -/
def resetWrites : List RegWrite :=
  [⟨SC_REG_MAC_LO, 7⟩, ⟨SC_REG_IRQ_TEST, 1⟩, ⟨SC_REG_IRQ_STS, 2⟩, ⟨SC_REG_CTRL, 1⟩]

theorem read_eq_mmioRead_reset : (RegBlock.new.writes resetWrites).read SC_REG_MAC_LO =
    ((SmartEthPci.new true false).writes resetWrites).mmioRead SC_REG_MAC_LO :=
  read_eq_mmioRead true false (by simp only [RegWrite.Aligned, resetWrites]; decide) resetWrites (List.prefix_refl _)
    SC_REG_MAC_LO (by decide)

/-! ## The writes since the last reset -/

open RegWrite

namespace RegWrite

theorem sinceReset_concat (ws : List RegWrite) (w : RegWrite) :
    sinceReset (ws ++ [w]) = if w.resets then [] else sinceReset ws ++ [w] := by
  rw [sinceReset, List.foldl_append, List.foldl_cons, List.foldl_nil]
  rfl

theorem lastTo_concat (a : Addr) (ws : List RegWrite) (w : RegWrite) :
    lastTo a (ws ++ [w]) = if w.addr = a then some w.val else lastTo a ws := by
  rw [lastTo, List.filter_append, List.map_append]
  by_cases h : w.addr = a
  · rw [if_pos h, List.filter_singleton, decide_eq_true h, cond_true, List.map_singleton,
      List.getLast?_concat]
  · rw [if_neg h, List.filter_singleton, decide_eq_false h, cond_false, List.map_nil,
      List.append_nil, lastTo]

/-- An interrupt write does not acknowledge. -/
theorem acks_eq_false_of_tests {w : RegWrite} (h : w.tests = true) : w.acks = false := by
  simp only [tests, acks, decide_eq_true_eq, decide_eq_false_iff_not, not_and] at h ⊢
  intro ha
  rw [h.1] at ha
  simp [SC_REG_IRQ_TEST, SC_REG_IRQ_STS] at ha

theorem acked_concat (ws : List RegWrite) (w : RegWrite) :
    Acked (ws ++ [w]) ↔ w.acks = true ∨ Acked ws ∧ w.tests = false := by
  constructor
  · intro h
    by_cases ha : w.acks = true
    · exact .inl ha
    refine .inr ⟨fun pre t post hws ht => ?_, ?_⟩
    · obtain ⟨a, hmem, hack⟩ := h pre t (post ++ [w]) (by rw [hws]; simp) ht
      rcases List.mem_append.mp hmem with hpost | hlast
      · exact ⟨a, hpost, hack⟩
      · rw [List.mem_singleton.mp hlast] at hack
        exact absurd hack ha
    · by_contra ht
      obtain ⟨a, hmem, -⟩ := h ws w [] rfl (by simpa using ht)
      simp at hmem
  · intro h pre t post heq ht
    rcases List.eq_nil_or_concat' post with rfl | ⟨post', l, rfl⟩
    · -- the interrupt write is the last one
      obtain ⟨-, hwt⟩ := List.append_inj' heq rfl
      obtain rfl : w = t := by simpa using hwt
      rcases h with ha | ⟨-, hw⟩
      · rw [acks_eq_false_of_tests ht] at ha
        simp at ha
      · rw [hw] at ht
        simp at ht
    · have he : ws ++ [w] = (pre ++ t :: post') ++ [l] := by
        rw [heq, List.append_assoc, List.cons_append]
      obtain ⟨hpre, hwl⟩ := List.append_inj' he rfl
      obtain rfl : w = l := by simpa using hwl
      rcases h with ha | ⟨hws, -⟩
      · exact ⟨w, List.mem_append_right _ (List.mem_singleton_self w), ha⟩
      · obtain ⟨a, hm, hack⟩ := hws pre t post' hpre ht
        exact ⟨a, List.mem_append_left _ hm, hack⟩

end RegWrite

/-! ## One write -/

section Write

variable {w : RegWrite} {a : Addr}

theorem RegBlock.regs_setReg (b : RegBlock) {c : Addr} (ha : a &&& 3 = 0) (hc : c &&& 3 = 0) (v : Word) :
    (b.setReg (c >>> 2) v).regs (a >>> 2) = if a = c then v else b.regs (a >>> 2) := by
  simp only [RegBlock.setReg, shift_inj ha hc]

theorem ScBridge.regs_setReg (s : ScBridge) {c : Addr} (ha : a &&& 3 = 0) (hc : c &&& 3 = 0) (v : Word) :
    (s.setReg c v).regs (a >>> 2) = if a = c then v else s.regs (a >>> 2) := by
  simp only [ScBridge.setReg, shift_inj ha hc]

/-- A write that is neither a start nor a reset changes the bridge's copy of its
own register only. -/
theorem ScBridge.regs_mmioWrite (s : ScBridge) (hw : w.Aligned) (ha : a &&& 3 = 0) (hs : w.starts = false)
    (hr : w.resets = false) :
    (s.mmioWrite w.addr (w.val.setWidth 64)).1.regs (a >>> 2) =
      if takesWrite w.addr = true ∧ a = w.addr then
        if a = SC_REG_IRQ_STS then s.regs (a >>> 2) &&& ~~~w.val else w.val
      else s.regs (a >>> 2) := by
  simp only [RegWrite.starts, RegWrite.resets, decide_eq_false_iff_not] at hs hr
  rw [ne_eq, ← setWidth_and_eq_zero (b := SC_DMA_START)] at hs
  rw [ne_eq, ← setWidth_and_eq_zero (b := SC_CTRL_RESET)] at hr
  rw [ScBridge.mmioWrite]
  by_cases ht : takesWrite w.addr = true
  · rw [if_pos ht, mmioWriteLocal, if_neg hr, setWidth_setWidth_word]
    by_cases hirq : w.addr = SC_REG_IRQ_STS
    · rw [if_pos hirq, ScBridge.regs_setReg s ha hw]
      by_cases hwa : a = w.addr
      · rw [if_pos hwa, if_pos ⟨ht, hwa⟩, if_pos (hwa.trans hirq), hwa]
      · rw [if_neg hwa, if_neg fun h => hwa h.2]
    · rw [if_neg hirq, if_neg hs, ScBridge.regs_setReg s ha hw]
      by_cases hwa : a = w.addr
      · rw [if_pos hwa, if_pos ⟨ht, hwa⟩, if_neg fun h => hirq (hwa.symm.trans h)]
      · rw [if_neg hwa, if_neg fun h => hwa h.2]
  · rw [if_neg ht, if_neg fun h => ht h.1]

/-- A write changes its own register, except that the interrupt registers have
rules of their own. -/
theorem RegBlock.regs_write (b : RegBlock) (hw : w.Aligned) (ha : a &&& 3 = 0) (hr : w.resets = false)
    (h1 : a ≠ SC_REG_IRQ_STS) (h2 : a ≠ SC_REG_IRQ_TEST) :
    (b.write w.addr w.val).1.regs (a >>> 2) =
      if ScBridge.takesWrite w.addr = true ∧ a = w.addr then w.val else b.regs (a >>> 2) := by
  have hsts : (SC_REG_IRQ_STS &&& 3 : Addr) = 0 := by decide
  rw [RegBlock.write_of_not_reset b (by simpa [RegWrite.resets] using hr)]
  simp only [ScBridge.takesWrite, decide_eq_true_eq, Bool.and_eq_true, and_assoc]
  by_cases hro : w.addr < SC_REG_COUNT ∧ w.addr ≠ SC_REG_STATUS ∧ w.addr ≠ SC_REG_DEV_ID
  · rw [if_neg (not_not.mpr hro)]
    by_cases hirq : w.addr = SC_REG_IRQ_STS
    · rw [if_pos hirq, RegBlock.regs_setReg b ha hsts, if_neg h1, if_neg fun h => h1 (h.2.2.2.trans hirq)]
    rw [if_neg hirq]
    by_cases htest : w.addr = SC_REG_IRQ_TEST
    · have ha' : a ≠ w.addr := fun h => h2 (h.trans htest)
      rw [if_pos htest]
      by_cases hv : w.val = 0
      · rw [if_pos hv, if_neg fun h => ha' h.2.2.2]
      · rw [if_neg hv, RegBlock.regs_setReg b ha hsts, if_neg h1, if_neg fun h => ha' h.2.2.2]
    · rw [if_neg htest, RegBlock.regs_setReg b ha hw]
      by_cases hwa : a = w.addr
      · rw [if_pos hwa, if_pos ⟨hro.1, hro.2.1, hro.2.2, hwa⟩]
      · rw [if_neg hwa, if_neg fun h => hwa h.2.2.2]
  · rw [if_pos hro, if_neg fun h => hro ⟨h.1, h.2.1, h.2.2.1⟩]

theorem RegBlock.irqStatus_write (b : RegBlock) (hw : w.Aligned) (hr : w.resets = false) :
    (b.write w.addr w.val).1.irqStatus =
      if w.tests = true then b.irqStatus ||| SC_IRQ_TEST
      else if w.addr = SC_REG_IRQ_STS then b.irqStatus &&& ~~~w.val
      else b.irqStatus := by
  have hsts : (SC_REG_IRQ_STS &&& 3 : Addr) = 0 := by decide
  rw [RegBlock.write_of_not_reset b (by simpa [RegWrite.resets] using hr)]
  simp only [RegWrite.tests, decide_eq_true_eq]
  by_cases hirq : w.addr = SC_REG_IRQ_STS
  · rw [if_pos hirq, if_neg, if_pos hirq, if_neg]
    · exact RegBlock.getReg_setReg_self _ _ _
    · rw [hirq]; simp [SC_REG_IRQ_STS, SC_REG_IRQ_TEST]
    · rw [hirq]; decide
  rw [if_neg hirq, if_neg hirq]
  by_cases htest : w.addr = SC_REG_IRQ_TEST
  · rw [if_pos htest, if_neg (by rw [htest]; decide)]
    by_cases hv : w.val = 0
    · rw [if_pos hv, if_neg fun h => h.2 hv]
    · rw [if_neg hv, if_pos ⟨htest, hv⟩]
      exact RegBlock.getReg_setReg_self _ _ _
  · rw [if_neg htest, if_neg (show ¬ (w.addr = SC_REG_IRQ_TEST ∧ w.val ≠ 0) from fun h => htest h.1)]
    split
    · rfl
    · refine RegBlock.getReg_setReg_ne fun h => hirq ?_
      exact ((shift_inj hsts hw).mp h).symm

theorem RegBlock.irqTest_write (b : RegBlock) (hw : w.Aligned) (hr : w.resets = false) :
    (b.write w.addr w.val).1.regs (SC_REG_IRQ_TEST >>> 2) = b.regs (SC_REG_IRQ_TEST >>> 2) := by
  have ht : (SC_REG_IRQ_TEST &&& 3 : Addr) = 0 := by decide
  have hne : SC_REG_IRQ_TEST >>> 2 ≠ SC_REG_IRQ_STS >>> 2 := by decide
  rw [RegBlock.write_of_not_reset b (by simpa [RegWrite.resets] using hr)]
  split
  · rfl
  split
  · exact RegBlock.getReg_setReg_ne hne
  split
  · split
    · rfl
    · exact RegBlock.getReg_setReg_ne hne
  · rename_i h
    refine RegBlock.getReg_setReg_ne fun he => h ?_
    exact ((shift_inj ht hw).mp he).symm

end Write

/-! ## The bridge and `RegBlock` -/

/-- A register of the MAC address: alike since it was written, and before that
as each side's reset leaves it. -/
def MacCompared (a : Addr) (x y : Word) (ws : List RegWrite) (s : ScBridge) (b : RegBlock) : Prop :=
  (∃ w ∈ sinceReset ws, w.addr = a) ∧ s.regs (a >>> 2) = b.regs (a >>> 2) ∨
    (¬ ∃ w ∈ sinceReset ws, w.addr = a) ∧ s.regs (a >>> 2) = x ∧ b.regs (a >>> 2) = y

/-- The bridge's copy and `RegBlock` after the writes `ws`. -/
structure Compared (ws : List RegWrite) (s : ScBridge) (b : RegBlock) : Prop where
  connected : s.connected = false
  mac : b.mac = RegBlock.new.mac
  plain : ∀ a : Addr, a &&& 3 = 0 → a ∉ [SC_REG_DEV_ID, SC_REG_STATUS, SC_REG_MAC_LO, SC_REG_MAC_HI,
    SC_REG_IRQ_STS, SC_REG_IRQ_TEST] → s.regs (a >>> 2) = b.regs (a >>> 2)
  macLo : MacCompared SC_REG_MAC_LO 0x00541234 0x12005452 ws s b
  macHi : MacCompared SC_REG_MAC_HI 0x0056 0x5634 ws s b
  status : s.regs (SC_REG_IRQ_STS >>> 2) = 0
  acked : Acked (sinceReset ws) ∧ b.irqStatus = 0 ∨ ¬ Acked (sinceReset ws) ∧ b.irqStatus = SC_IRQ_TEST
  test : s.regs (SC_REG_IRQ_TEST >>> 2) = (lastTo SC_REG_IRQ_TEST (sinceReset ws)).getD 0
  noTest : b.regs (SC_REG_IRQ_TEST >>> 2) = 0

theorem RegWrite.acked_nil : Acked [] := by
  intro pre w post h
  simp at h

/-- After a reset, as at power-on. -/
theorem Compared.of_reset {ws : List RegWrite} {s : ScBridge} {b : RegBlock} (h : sinceReset ws = [])
    (hc : s.connected = false) (hs : s.regs = ScBridge.resetRegs) (hb : b = RegBlock.new) :
    Compared ws s b := by
  have hn : ∀ a : Addr, ¬ ∃ w ∈ sinceReset ws, w.addr = a := by
    rintro a ⟨w, hw, -⟩
    rw [h] at hw
    simp at hw
  subst hb
  refine ⟨hc, rfl, fun a ha hne => ?_, .inr ⟨hn _, ?_, rfl⟩, .inr ⟨hn _, ?_, rfl⟩, ?_, .inl ⟨h ▸ acked_nil, rfl⟩,
    ?_, rfl⟩
  · have hidx : ∀ c : Addr, c &&& 3 = 0 → c ∈ [SC_REG_DEV_ID, SC_REG_STATUS, SC_REG_MAC_LO, SC_REG_MAC_HI,
        SC_REG_IRQ_STS, SC_REG_IRQ_TEST] → a >>> 2 ≠ c >>> 2 := by
      intro c hc hm he
      exact hne ((shift_inj ha hc).mp he ▸ hm)
    rw [hs, ScBridge.resetRegs, if_neg (hidx _ (by decide) (by decide)), if_neg (hidx _ (by decide) (by decide)),
      if_neg (hidx _ (by decide) (by decide)), if_neg (hidx _ (by decide) (by decide)), RegBlock.new,
      RegBlock.setMac]
    simp only [RegBlock.setReg]
    rw [if_neg (hidx _ (by decide) (by decide)), if_neg (hidx _ (by decide) (by decide))]
  · rw [hs]; rfl
  · rw [hs]; rfl
  · rw [hs]; rfl
  · rw [hs, h]; rfl

/-- The bit of the test interrupt, unless it is cleared. -/
theorem test_and_not (val : Word) : SC_IRQ_TEST &&& ~~~val = if val &&& SC_IRQ_TEST ≠ 0 then 0 else SC_IRQ_TEST := by
  have ht : SC_IRQ_TEST = BitVec.twoPow 32 1 := by decide
  have h0 : BitVec.twoPow 32 1 ≠ 0#32 := by decide
  rw [BitVec.and_comm, ht, BitVec.and_twoPow, BitVec.and_twoPow, BitVec.getLsbD_not]
  cases val.getLsbD 1 <;> simp [h0]

/-- The test interrupt is pending exactly while it is not acknowledged. -/
theorem Compared.acked_write {ws : List RegWrite} {s : ScBridge} {b : RegBlock} (h : Compared ws s b)
    (w : RegWrite) :
    let sts := if w.tests = true then b.irqStatus ||| SC_IRQ_TEST
      else if w.addr = SC_REG_IRQ_STS then b.irqStatus &&& ~~~w.val else b.irqStatus
    (w.acks = true ∨ Acked (sinceReset ws) ∧ w.tests = false) ∧ sts = 0 ∨
      ¬ (w.acks = true ∨ Acked (sinceReset ws) ∧ w.tests = false) ∧ sts = SC_IRQ_TEST := by
  intro sts
  by_cases ht : w.tests = true
  · have hsts : sts = SC_IRQ_TEST := by
      show (if w.tests = true then _ else _) = _
      rw [if_pos ht]
      rcases h.acked with ⟨-, h0⟩ | ⟨-, h0⟩ <;> rw [h0] <;> decide
    refine .inr ⟨?_, hsts⟩
    rintro (ha | ⟨-, hf⟩)
    · rw [acks_eq_false_of_tests ht] at ha
      simp at ha
    · rw [ht] at hf
      simp at hf
  have hf : w.tests = false := by simpa using ht
  have hsts : sts = if w.acks = true then 0 else b.irqStatus := by
    show (if w.tests = true then _ else _) = _
    rw [if_neg ht]
    simp only [RegWrite.acks, decide_eq_true_eq]
    by_cases hirq : w.addr = SC_REG_IRQ_STS
    · rw [if_pos hirq]
      rcases h.acked with ⟨-, h0⟩ | ⟨-, h0⟩ <;> rw [h0]
      · rw [ite_self]
        exact BitVec.zero_and
      · rw [test_and_not]
        simp only [hirq, true_and]
    · rw [if_neg hirq, if_neg fun h => hirq h.1]
  rw [hsts]
  by_cases ha : w.acks = true
  · rw [if_pos ha]
    exact .inl ⟨.inl ha, rfl⟩
  · rw [if_neg ha]
    rcases h.acked with ⟨hk, h0⟩ | ⟨hk, h0⟩
    · exact .inl ⟨.inr ⟨hk, hf⟩, h0⟩
    · refine .inr ⟨?_, h0⟩
      rintro (h1 | ⟨h1, -⟩)
      · exact ha h1
      · exact hk h1

/-- A write that is neither a reset nor a start. -/
theorem Compared.write {ws : List RegWrite} {s : ScBridge} {b : RegBlock} (h : Compared ws s b) {w : RegWrite}
    (hw : w.Aligned) (hs : w.starts = false) (hr : w.resets = false) :
    Compared (ws ++ [w]) (s.mmioWrite w.addr (w.val.setWidth 64)).1 (b.write w.addr w.val).1 := by
  have hc := sinceReset_concat ws w
  rw [hr, if_neg Bool.false_ne_true] at hc
  -- a register that has no rule of its own, read alike or written
  have hreg : ∀ a : Addr, a &&& 3 = 0 → a ≠ SC_REG_IRQ_STS → a ≠ SC_REG_IRQ_TEST →
      (s.mmioWrite w.addr (w.val.setWidth 64)).1.regs (a >>> 2) =
        (if ScBridge.takesWrite w.addr = true ∧ a = w.addr then w.val else s.regs (a >>> 2)) ∧
      (b.write w.addr w.val).1.regs (a >>> 2) =
        (if ScBridge.takesWrite w.addr = true ∧ a = w.addr then w.val else b.regs (a >>> 2)) := by
    intro a ha h1 h2
    refine ⟨?_, RegBlock.regs_write b hw ha hr h1 h2⟩
    rw [ScBridge.regs_mmioWrite s hw ha hs hr, if_neg h1]
  have hmac : ∀ (a : Addr) (x y : Word), a &&& 3 = 0 → ScBridge.takesWrite a = true → a ≠ SC_REG_IRQ_STS →
      a ≠ SC_REG_IRQ_TEST → MacCompared a x y ws s b →
      MacCompared a x y (ws ++ [w]) (s.mmioWrite w.addr (w.val.setWidth 64)).1 (b.write w.addr w.val).1 := by
    intro a x y ha ht h1 h2 hm
    obtain ⟨e1, e2⟩ := hreg a ha h1 h2
    rw [MacCompared, hc, e1, e2]
    by_cases hwa : a = w.addr
    · have hin : ∃ v ∈ sinceReset ws ++ [w], v.addr = a :=
        ⟨w, List.mem_append_right _ (List.mem_singleton_self w), hwa.symm⟩
      rw [if_pos ⟨hwa ▸ ht, hwa⟩, if_pos ⟨hwa ▸ ht, hwa⟩]
      exact .inl ⟨hin, rfl⟩
    · have hin : (∃ v ∈ sinceReset ws ++ [w], v.addr = a) ↔ ∃ v ∈ sinceReset ws, v.addr = a := by
        constructor
        · rintro ⟨v, hv, hva⟩
          rcases List.mem_append.mp hv with hv | hv
          · exact ⟨v, hv, hva⟩
          · rw [List.mem_singleton.mp hv] at hva
            exact absurd hva.symm hwa
        · rintro ⟨v, hv, hva⟩
          exact ⟨v, List.mem_append_left _ hv, hva⟩
      rw [if_neg fun h => hwa h.2, if_neg fun h => hwa h.2, hin]
      exact hm
  refine ⟨?_, (RegBlock.mac_write _ _ _).trans h.mac, fun a ha hne => ?_, ?_, ?_, ?_, ?_, ?_, ?_⟩
  · rw [ScBridge.connected_mmioWrite]
    exact h.connected
  · have h1 : a ≠ SC_REG_IRQ_STS := by
      rintro rfl
      exact hne (by decide)
    have h2 : a ≠ SC_REG_IRQ_TEST := by
      rintro rfl
      exact hne (by decide)
    rw [(hreg a ha h1 h2).1, (hreg a ha h1 h2).2, h.plain a ha hne]
  · exact hmac _ _ _ (by decide) (by decide) (by decide) (by decide) h.macLo
  · exact hmac _ _ _ (by decide) (by decide) (by decide) (by decide) h.macHi
  · rw [ScBridge.regs_mmioWrite s hw (by decide) hs hr, if_pos rfl, h.status]
    split
    · exact BitVec.zero_and
    · rfl
  · rw [hc, acked_concat, RegBlock.irqStatus_write b hw hr]
    exact h.acked_write w
  · rw [ScBridge.regs_mmioWrite s hw (by decide) hs hr,
      if_neg (show SC_REG_IRQ_TEST ≠ SC_REG_IRQ_STS by decide), h.test, hc, lastTo_concat]
    by_cases ht : w.addr = SC_REG_IRQ_TEST
    · rw [if_pos ht, if_pos ⟨ht ▸ by decide, ht.symm⟩]
      rfl
    · rw [if_neg ht, if_neg fun h => ht h.2.symm]
  · rw [RegBlock.irqTest_write b hw hr]
    exact h.noTest

theorem Compared.writes (msix : Bool) {ws : List RegWrite} (hw : ∀ w ∈ ws, w.Aligned ∧ w.starts = false) :
    Compared ws ((ScBridge.new msix).writes ws) (RegBlock.new.writes ws) := by
  induction ws using List.reverseRecOn with
  | nil => exact .of_reset rfl rfl rfl rfl
  | append_singleton ws w ih =>
    have h := ih fun v hv => hw v (List.mem_append_left _ hv)
    obtain ⟨ha, hs⟩ := hw w (List.mem_append_right _ (List.mem_singleton_self w))
    have e1 : (ScBridge.new msix).writes (ws ++ [w]) =
        (((ScBridge.new msix).writes ws).mmioWrite w.addr (w.val.setWidth 64)).1 := by
      rw [ScBridge.writes, List.foldl_append]
      rfl
    have e2 : RegBlock.new.writes (ws ++ [w]) = ((RegBlock.new.writes ws).write w.addr w.val).1 := by
      rw [RegBlock.writes, List.foldl_append]
      rfl
    rw [e1, e2]
    by_cases hr : w.resets = true
    · have hc := sinceReset_concat ws w
      rw [if_pos hr] at hc
      simp only [RegWrite.resets, decide_eq_true_eq] at hr
      refine .of_reset hc ?_ ?_ (RegBlock.write_reset h.mac hr)
      · rw [ScBridge.connected_mmioWrite]
        exact h.connected
      · rw [ScBridge.mmioWrite, hr.1, if_pos (by decide), ScBridge.mmioWriteLocal,
          if_pos ⟨rfl, setWidth_and_eq_zero.not.mpr hr.2⟩]
    · exact h.write ha hs (by simpa using hr)

/-- A register that is neither out of range nor read-only is read from the copy. -/
theorem read_of_takesWrite (s : ScBridge) (b : RegBlock) {a : Addr} (h : ScBridge.takesWrite a = true) :
    s.mmioReadLocal a = s.regs (a >>> 2) ∧ b.read a = b.regs (a >>> 2) := by
  simp only [ScBridge.takesWrite, Bool.and_eq_true, decide_eq_true_eq] at h
  obtain ⟨⟨hlt, hst⟩, hid⟩ := h
  have hge : ¬ a ≥ SC_REG_COUNT := BitVec.not_le.mpr hlt
  rw [ScBridge.mmioReadLocal, RegBlock.read, if_neg hge, if_neg hge, if_neg hid, if_neg hid, if_neg hst, if_neg hst]
  exact ⟨rfl, rfl⟩

/-- Other addresses read the same whatever was written. -/
theorem read_of_not_takesWrite (s : ScBridge) (b : RegBlock) {a : Addr} (h : ScBridge.takesWrite a = false) :
    s.mmioReadLocal a = b.read a := by
  simp only [ScBridge.takesWrite, Bool.and_eq_false_iff, decide_eq_false_iff_not, not_not] at h
  rw [ScBridge.mmioReadLocal, RegBlock.read]
  by_cases hge : a ≥ SC_REG_COUNT
  · rw [if_pos hge, if_pos hge]
  rw [if_neg hge, if_neg hge]
  rcases h with (hlt | rfl) | rfl
  · exact absurd (BitVec.not_le.mp hge) hlt
  · rfl
  · rfl

/-- The bridge, not connected, reads as `RegBlock` does if and only if the writes
make them alike. -/
theorem readLocal_eq_read_iff (msix : Bool) {ws : List RegWrite}
    (hw : ∀ w ∈ ws, w.Aligned ∧ w.starts = false) :
    (∀ addr : Addr, ((ScBridge.new msix).writes ws).forwardsRead addr = false) ∧
      ((∀ addr : Addr, addr &&& 3 = 0 →
        ((ScBridge.new msix).writes ws).mmioReadLocal addr = (RegBlock.new.writes ws).read addr) ↔ Alike ws) := by
  have h := Compared.writes msix hw
  refine ⟨fun addr => ?_, fun hread => ?_, fun hal addr ha => ?_⟩
  · rw [ScBridge.forwardsRead, h.connected, Bool.and_false]
  · -- the four registers that may differ
    have heq : ∀ a : Addr, a &&& 3 = 0 → ScBridge.takesWrite a = true →
        ((ScBridge.new msix).writes ws).regs (a >>> 2) = (RegBlock.new.writes ws).regs (a >>> 2) := by
      intro a ha ht
      obtain ⟨e1, e2⟩ := read_of_takesWrite ((ScBridge.new msix).writes ws) (RegBlock.new.writes ws) ht
      rw [← e1, ← e2]
      exact hread a ha
    have hmac : ∀ (a : Addr) (x y : Word), a &&& 3 = 0 → ScBridge.takesWrite a = true → x ≠ y →
        MacCompared a x y ws ((ScBridge.new msix).writes ws) (RegBlock.new.writes ws) →
        ∃ w ∈ sinceReset ws, w.addr = a := by
      rintro a x y ha ht hne (⟨hin, -⟩ | ⟨-, hx, hy⟩)
      · exact hin
      · have := heq a ha ht
        rw [hx, hy] at this
        exact absurd this hne
    refine ⟨hmac _ _ _ (by decide) (by decide) (by decide) h.macLo,
      hmac _ _ _ (by decide) (by decide) (by decide) h.macHi, ?_, ?_⟩
    · rw [← h.test, heq SC_REG_IRQ_TEST (by decide) (by decide)]
      exact h.noTest
    · rcases h.acked with ⟨hk, -⟩ | ⟨-, hsts⟩
      · exact hk
      · have := heq SC_REG_IRQ_STS (by decide) (by decide)
        rw [h.status] at this
        exact absurd (this.trans hsts) (by decide)
  · by_cases ht : ScBridge.takesWrite addr = true
    · obtain ⟨e1, e2⟩ := read_of_takesWrite ((ScBridge.new msix).writes ws) (RegBlock.new.writes ws) ht
      rw [e1, e2]
      by_cases hm : addr ∈ [SC_REG_DEV_ID, SC_REG_STATUS, SC_REG_MAC_LO, SC_REG_MAC_HI, SC_REG_IRQ_STS,
          SC_REG_IRQ_TEST]
      · simp only [List.mem_cons, List.not_mem_nil, or_false] at hm
        rcases hm with rfl | rfl | rfl | rfl | rfl | rfl
        · exact absurd ht (by decide)
        · exact absurd ht (by decide)
        · exact h.macLo.elim (fun h => h.2) fun hn => absurd hal.macLo hn.1
        · exact h.macHi.elim (fun h => h.2) fun hn => absurd hal.macHi hn.1
        · rw [h.status]
          exact h.acked.elim (fun h => h.2.symm) fun hn => absurd hal.acked hn.1
        · rw [h.test, hal.test, h.noTest]
      · exact h.plain addr ha hm
    · exact read_of_not_takesWrite _ _ (by simpa using ht)

/-- At power-on the guest reads another MAC address from the bridge than from the model. -/
theorem powerOn_mac_differs : ¬ ∀ addr : Addr, addr &&& 3 = 0 →
    ((ScBridge.new false).writes []).mmioReadLocal addr = (RegBlock.new.writes []).read addr := by
  intro h
  have := h SC_REG_MAC_LO (by decide)
  exact absurd this (by decide)

/-- The MAC address is set, a test interrupt acknowledged, and `IRQ_TEST` zero again. -/
def alikeWrites : List RegWrite :=
  [⟨SC_REG_MAC_LO, 0x12005452⟩, ⟨SC_REG_MAC_HI, 0x5634⟩, ⟨SC_REG_IRQ_TEST, 1⟩, ⟨SC_REG_IRQ_STS, 2⟩,
    ⟨SC_REG_IRQ_TEST, 0⟩]

theorem alikeWrites_alike : Alike alikeWrites := by
  refine ⟨⟨_, List.mem_cons_self, rfl⟩, ⟨_, List.mem_cons_of_mem _ List.mem_cons_self, rfl⟩, rfl, ?_⟩
  show Acked (alikeWrites.take 4 ++ [⟨SC_REG_IRQ_TEST, 0⟩])
  have hack : Acked (alikeWrites.take 3 ++ [⟨SC_REG_IRQ_STS, 2⟩]) := (acked_concat _ _).mpr (.inl (by decide))
  exact (acked_concat _ _).mpr (.inr ⟨hack, by decide⟩)

theorem readLocal_eq_read_alikeWrites : ((ScBridge.new false).writes alikeWrites).mmioReadLocal SC_REG_IRQ_STS =
    (RegBlock.new.writes alikeWrites).read SC_REG_IRQ_STS :=
  (readLocal_eq_read_iff false (by simp only [RegWrite.Aligned]; decide)).2.mpr alikeWrites_alike SC_REG_IRQ_STS
    (by decide)

end SmartEth
