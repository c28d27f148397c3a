import SmartEth.Proof.BarTests
import SmartEth.Proof.IrqRun
import SmartEth.Proof.DmaOutcome
import SmartEth.Proof.DmaStatus
import SmartEth.Proof.RegFiles

/-!
# The self-test of the SystemC device

The same tests, on the bridge with the NIC. While it is connected `DMA_STS` never shows a transfer
(`DmaStatus.busy_eq_false`), so the DMA test ends at its first read, whatever has become of the
transfer, and every test passes (`connected_verdict`). While it is not, the bridge answers for the
NIC: it reports the transfer as running for ever, and raises no interrupt, and these two tests fail
(`disconnected_verdict`).
-/

namespace SmartEth.PciTest

open SmartNic (HostReg)

/-! ## What the NIC does of itself -/

section Nic

variable {s t : NicRun} {e : NicEvent}

/-- A stable property that transfers keep. -/
theorem own_keeps {P : SmartNic → Prop} (hP : SmartNic.Stable P)
    (hdma : P s.nic → s.nic.processDmaBody.Ensures fun x => P x.1)
    (he : e.own = true) (hs : s.step e = some t) (h : P s.nic) : P t.nic := by
  cases e with
  | write addr data | reset => cases he
  | packet data r =>
    cases hs
    exact NicRun.exec_of_ensures (hP.onPacketRx h data) r
  | pollIrq =>
    cases hs
    exact h
  | dmaCheck | txWake =>
    simp only [NicRun.step, Option.ite_none_right_eq_some, Option.some.injEq] at hs
    obtain ⟨-, rfl⟩ := hs
    exact h
  | processDma r =>
    simp only [NicRun.step, Option.ite_none_right_eq_some, Option.some.injEq] at hs
    obtain ⟨-, rfl⟩ := hs
    exact NicRun.exec_of_ensures (hdma h) r
  | txIteration r =>
    simp only [NicRun.step, Option.ite_none_right_eq_some, Option.some.injEq] at hs
    obtain ⟨-, rfl⟩ := hs
    exact NicRun.exec_of_ensures (hP.processTxIteration h) r
  | txDone r =>
    simp only [NicRun.step, Option.ite_none_right_eq_some, Option.some.injEq] at hs
    obtain ⟨-, rfl⟩ := hs
    exact NicRun.exec_of_ensures (hP.processTxDone h) r

theorem own_reg {a : Addr} (ha : HostReg a) (he : e.own = true) (hs : s.step e = some t) : t.nic.reg a = s.nic.reg a := by
  have hP : SmartNic.Stable fun u => u.reg a = s.nic.reg a :=
    .of_setReg (fun _ hb h => (SmartNic.reg_setReg_ne (ha _ hb)).trans h) (fun _ h => h) fun _ h => h
  exact own_keeps hP (fun _ => s.nic.processDmaBody_frame.mono fun x h => h.reg a ha) he hs rfl

/-- The engine is idle whenever the lock is free. -/
theorem own_busy (he : e.own = true) (hs : s.step e = some t) (h : s.nic.dma.busy = false) : t.nic.dma.busy = false := by
  have hP : SmartNic.Stable fun u => u.dma.busy = false := .of_setReg (fun _ _ h => h) (fun _ h => h) fun _ h => h
  refine own_keeps hP (fun hu => ?_) he hs h
  rw [SmartNic.processDmaBody_eq]
  refine .bind (Prog.Ensures.mono (Q := fun x : DmaEngine × Nat => x.1.busy = false) ?_ fun x hx => ?_)
  · rw [DmaEngine.start]
    split
    · exact hu
    dsimp only
    split
    · exact .bind (Prog.ensures_of_forall _ fun _ => rfl)
    · exact .bind (Prog.ensures_of_forall _ fun _ => rfl)
  · split
    · exact .bind ((hP.raiseIrq (s := s.nic.dmaDone x.1) hx _ _).mono fun _ h => h)
    · exact hx

/-- The NIC loses no interrupt cause of itself. -/
theorem own_status (he : e.own = true) (hs : s.step e = some t) : IrqRun.Keeps s.nic t.nic := by
  cases e with
  | write addr data | reset => cases he
  | packet data r =>
    cases hs
    exact ((NicRun.onPacketRx_ends s.nic data).runSends r).elim .of_quiet .of_raised
  | pollIrq =>
    cases hs
    exact fun _ h => h
  | dmaCheck | txWake =>
    simp only [NicRun.step, Option.ite_none_right_eq_some, Option.some.injEq] at hs
    obtain ⟨-, rfl⟩ := hs
    exact fun _ h => h
  | processDma r =>
    simp only [NicRun.step, Option.ite_none_right_eq_some, Option.some.injEq] at hs
    obtain ⟨-, rfl⟩ := hs
    have hends := (NicRun.processDmaBody_ends s.nic).runSends r
    split at hends
    · exact .of_raised hends
    · exact .of_quiet hends
  | txIteration r =>
    simp only [NicRun.step, Option.ite_none_right_eq_some, Option.some.injEq] at hs
    obtain ⟨-, rfl⟩ := hs
    exact .of_quiet ((NicRun.processTxIteration_ends s.nic).runSends r)
  | txDone r =>
    simp only [NicRun.step, Option.ite_none_right_eq_some, Option.some.injEq] at hs
    obtain ⟨-, rfl⟩ := hs
    have hends := (NicRun.processTxDone_ends s.nic).runSends r
    split at hends
    · exact .of_raised hends
    · exact .of_quiet hends

end Nic

/-! ## Connected -/

section Connected

variable {s : ScBridge × NicRun} {a : Addr}

/-- The bridge is connected, and no transfer is being performed. -/
structure Online (s : ScBridge × NicRun) : Prop where
  connected : s.1.connected = true
  busy : s.2.nic.dma.busy = false

theorem step_sc {mem : GuestMem} {e : NicEvent × GuestMem} {x : (ScBridge × NicRun) × GuestMem}
    (h : scDevice.step s mem e = some x) : e.1.own = true ∧ x.1.1 = s.1 ∧ s.2.step e.1 = some x.1.2 := by
  simp only [scDevice, Option.ite_none_right_eq_some, Option.map_eq_some_iff] at h
  obtain ⟨he, nic, hn, rfl⟩ := h
  exact ⟨he, rfl, hn⟩

theorem read_online (h : s.1.connected = true) (ha : a < SC_REG_COUNT) :
    (scDevice.read s a).1 = s.2.nic.onMmioRead a := by
  have hf : s.1.forwardsRead a = true := by simp [ScBridge.forwardsRead, h, ha]
  show (if s.1.forwardsRead a = true then _ else _ : Word × ScBridge × NicRun).1 = _
  rw [if_pos hf]
  rfl

theorem write_online (h : s.1.connected = true) (ha : ScBridge.takesWrite a = true) (val : Word) :
    (scDevice.write s a val).2.nic = (s.2.nic.onMmioWrite a val).1 := by
  have hw : (s.1.mmioWrite a (val.setWidth 64)).2 = some (mmioWriteMsg a ((val.setWidth 64).setWidth 32)) := by
    rw [ScBridge.mmioWrite, if_pos ha, if_pos h]
  have hx : s.1.mmioWrite a (val.setWidth 64) = ((s.1.mmioWrite a (val.setWidth 64)).1, some (mmioWriteMsg a ((val.setWidth 64).setWidth 32))) :=
    Prod.ext rfl hw
  simp only [scDevice]
  rw [hx]

theorem online_closed : Closed scDevice Online where
  size := by decide
  step := fun s mem e t h ht => by
    obtain ⟨he, h₁, hn⟩ := step_sc ht
    exact ⟨h₁ ▸ h.connected, own_busy he hn h.busy⟩
  read := fun s a h => by
    show Online (if s.1.forwardsRead a = true then _ else _ : Word × ScBridge × NicRun).2
    split
    · exact ⟨(ScBridge.connected_mmioReadFinish _ _ _ _).trans h.connected, h.busy⟩
    · exact h
  write := fun s a val h => by
    have hc : (s.1.mmioWrite a (val.setWidth 64)).1.connected = true :=
      (ScBridge.connected_mmioWrite _ _ _).trans h.connected
    simp only [scDevice]
    split
    · rename_i bridge m hx
      rw [hx] at hc
      exact ⟨hc, (DmaStatus.onMmioWrite_busy _ _ _).trans h.busy⟩
    · rename_i bridge hx
      rw [hx] at hc
      exact ⟨hc, h.busy⟩

/-- A register that only takes what is written to it. -/
structure ScPlain (a : Addr) : Prop where
  takes : ScBridge.takesWrite a = true
  dmaSts : a ≠ SC_REG_DMA_STS
  ctrl : a ≠ SC_REG_CTRL
  irqSts : a ≠ SC_REG_IRQ_STS
  dmaCtrl : a ≠ SC_REG_DMA_CTRL
  irqTest : a ≠ SC_REG_IRQ_TEST

theorem sc_scratch {reg : Word} (h : reg ∈ scratchRegs) : ScPlain (regOffset reg) := by
  simp only [scratchRegs, List.mem_cons, List.not_mem_nil, or_false] at h
  rcases h with rfl | rfl | rfl | rfl
  all_goals exact ⟨by decide, by decide, by decide, by decide, by decide, by decide⟩

theorem hostReg_scratch {reg : Word} (h : reg ∈ scratchRegs) : HostReg (regOffset reg) := by
  intro b hb
  simp only [scratchRegs, SmartNic.NIC_REGS, List.mem_cons, List.not_mem_nil, or_false] at h hb
  rcases h with rfl | rfl | rfl | rfl <;> rcases hb with rfl | rfl | rfl | rfl | rfl <;> decide

theorem ScPlain.lt (h : ScPlain a) : a < SC_REG_COUNT := by
  have ht := h.takes
  simp only [ScBridge.takesWrite, Bool.and_eq_true, decide_eq_true_eq] at ht
  exact ht.1.1

theorem onMmioRead_reg (nic : SmartNic) (ha : ScBridge.takesWrite a = true) (hd : a ≠ SC_REG_DMA_STS) :
    nic.onMmioRead a = nic.reg a := by
  rw [SmartNic.onMmioRead, if_neg hd]
  exact (read_of_takesWrite (ScBridge.new false) nic.regs ha).2

/-- What the NIC makes of a write to such a register. -/
theorem onMmioWrite_plain (nic : SmartNic) (h : ScPlain a) (val : Word) : (nic.onMmioWrite a val).1.reg a = val := by
  have hlt : ¬ ¬ (a < SC_REG_COUNT ∧ a ≠ SC_REG_STATUS ∧ a ≠ SC_REG_DEV_ID) := by
    have ht := h.takes
    simp only [ScBridge.takesWrite, Bool.and_eq_true, decide_eq_true_eq] at ht
    exact not_not.mpr ⟨ht.1.1, ht.1.2, ht.2⟩
  rw [SmartNic.onMmioWrite_fst, RegBlock.write_of_not_reset _ fun hc => h.ctrl hc.1]
  dsimp only
  rw [if_neg fun hd => h.dmaCtrl hd.1, if_neg hlt, if_neg h.irqSts, if_neg h.irqTest]
  exact RegBlock.getReg_setReg_self _ _ _

theorem online_answers : Answers scDevice Online where
  size := by decide
  devId := fun s h => by
    rw [read_online h.connected (by decide), SmartNic.onMmioRead, if_neg (by decide), RegBlock.read, if_neg (by decide),
      if_pos (by decide)]
    rfl
  status := fun s h => by
    rw [read_online h.connected (by decide), SmartNic.onMmioRead, if_neg (by decide), RegBlock.read, if_neg (by decide),
      if_neg (by decide), if_pos (by decide)]
    decide
  readBack := fun s reg val hr h => by
    have hp := sc_scratch hr
    have hw := online_closed.write s (regOffset reg) val h
    rw [read_online hw.connected hp.lt, onMmioRead_reg _ hp.takes hp.dmaSts, write_online h.connected hp.takes]
    exact onMmioWrite_plain _ hp val
  scratch := fun s mem e t reg hr h ht => by
    have hp := sc_scratch hr
    obtain ⟨he, -, hn⟩ := step_sc ht
    rw [read_online (online_closed.step s mem e t h ht).connected hp.lt, read_online h.connected hp.lt,
      onMmioRead_reg _ hp.takes hp.dmaSts, onMmioRead_reg _ hp.takes hp.dmaSts]
    exact own_reg (hostReg_scratch hr) he hn
  reset := fun s h => by
    have hp := sc_scratch (show REG_SCRATCH0 ∈ scratchRegs by decide)
    have hw := online_closed.write s (regOffset REG_CTRL) CTRL_RESET h
    rw [read_online hw.connected hp.lt, onMmioRead_reg _ hp.takes hp.dmaSts, write_online h.connected (by decide),
      SmartNic.onMmioWrite_fst]
    dsimp only
    rw [if_neg fun h => absurd h.1 (by decide), RegBlock.write, if_neg (by decide), if_pos (by decide),
      if_pos (by decide)]
    rfl

theorem and_test_ne_zero {w : Word} : w &&& IRQ_TEST ≠ 0 ↔ w.getLsbD 1 = true := by
  rw [show IRQ_TEST = BitVec.twoPow 32 1 from rfl, BitVec.and_twoPow]
  split
  · rename_i h
    exact iff_of_true (by decide) h
  · rename_i h
    exact iff_of_false (not_not.mpr rfl) h

theorem read_irqSts {s : ScBridge × NicRun} (h : s.1.connected = true) :
    (scDevice.read s (regOffset REG_IRQ_STS)).1 = s.2.nic.regs.irqStatus := by
  rw [read_online h (by decide), onMmioRead_reg _ (by decide) (by decide)]
  rfl

theorem online_interrupts : Interrupts scDevice Online where
  raise := fun s h => by
    have hw := online_closed.write s (regOffset REG_IRQ_TEST) 1 h
    have htest := (NicRun.onMmioWrite_test s.2.nic (show (1 : Word) ≠ 0 by decide)).1
    rw [read_irqSts hw.connected, write_online h.connected (by decide), and_test_ne_zero]
    refine (congrArg (·.getLsbD 1) htest).trans ?_
    rw [BitVec.getLsbD_or, show SC_IRQ_TEST.getLsbD 1 = true by decide, Bool.or_true]
  keep := fun s mem e t h ht hs => by
    obtain ⟨he, -, hn⟩ := step_sc ht
    rw [read_irqSts h.connected, and_test_ne_zero] at hs
    rw [read_irqSts (online_closed.step s mem e t h ht).connected, and_test_ne_zero]
    exact own_status he hn 1 hs

theorem online_idle {s : ScBridge × NicRun} (h : Online s) :
    (scDevice.read s (regOffset REG_DMA_STS)).1 &&& STATUS_DMA_BSY = 0 := by
  rw [read_online h.connected (by decide)]
  exact of_not_not fun hne => absurd ((DmaStatus.busy_eq_false h.busy).symm.trans (bne_iff_ne.mpr hne)) (by decide)

/-- Whatever config space and memory hold, whatever state the NIC is in, and whatever it does meanwhile: while the
bridge is connected the firmware reports success, after one read of `DMA_STS`. -/
theorem connected_verdict {slot : Word} {bridge netif : Bool} {hist : List NicEvent}
    {b t : Board (ScBridge × NicRun) (NicEvent × GuestMem)} {es : List ((NicEvent × GuestMem) ⊕ Unit)}
    (hnic : run NicRun.step (NicRun.init bridge netif) hist = some b.dev.2) (hconn : b.dev.1.connected = true)
    (hfound : b.cfg.foundDev = some slot) (hplain : PlainRegs b.cfg slot) (hfits : BarFits SC_REG_COUNT.toNat b.cfg slot)
    (hrun : run (Board.world scDevice slot).go (b, vTaskPciTest) es = some (t, .ret ())) :
    report .pass <:+ console t.trace ∧ ∃ w, lastTransfer (bar0Of t.cfg slot) t.trace = some w ∧ w.polls = 1 := by
  have hen := (enabled (b.cfg.lt_of_foundDev hfound) hplain).1
  have hm : Mapped scDevice.size slot _ _ := mapped_of_enabled (by decide) hfits hen
  have hC := online_closed
  have hA := online_answers
  -- what the tests come to
  let K : PciTestResult → Board (ScBridge × NicRun) (NicEvent × GuestMem) → Prop := fun r u =>
    r = .pass ∧ Polled (b.cfg.enable slot).1 (bar0Of (b.cfg.enable slot).1 slot) Online 1 u
  have hP := hC.polled_steady hm 1
  have hS := hC.steady hm
  have hK : ∀ r, Steady scDevice slot (b.cfg.enable slot).1 (bar0Of (b.cfg.enable slot).1 slot) Online (K r) := fun r =>
    ⟨hm, stable_and hP.stable _, fun u h => hP.cfg u h.2, fun u h => hP.dev u h.2, fun u e he h => ⟨h.1, hP.ops u e he h.2⟩⟩
  have htask := task_leads hC.step hfound hplain (b := b) ⟨rfl, hconn, DmaReport.busy_eq_false hnic⟩ hK fun u hu =>
    run_leads hK hS hu fun u hu => hS.runAll hA hu (fun r => (hK r).stable)
      (fun u hu => hC.testDma_idle hm (fun _ h => online_idle h) hu) fun r u hu =>
        (hP.testInterrupt hA hu.2 online_interrupts).mono fun r' u hu' => by
          obtain ⟨rfl, -⟩ := hu
          exact hu'
  obtain ⟨r, ⟨rfl, hr⟩, hreport⟩ := htask.run hrun
  obtain ⟨w, hw, hn⟩ := hr.polls
  rw [← hr.on.cfg] at hw
  exact ⟨hreport, w, hw, hn⟩

end Connected

/-! ## Not connected -/

section Offline

variable {s : ScBridge × NicRun} {a : Addr}

/-- The bridge is not connected: it answers on its own. -/
def Offline (s : ScBridge × NicRun) : Prop := s.1.connected = false

theorem setReg_regs (s : ScBridge) (a : Addr) (val : Word) (i : Addr) :
    (s.setReg a val).regs i = if i = a >>> 2 then val else s.regs i := rfl

theorem read_offline (h : Offline s) (a : Addr) : scDevice.read s a = (s.1.mmioReadLocal a, s) := by
  have hf : ¬ s.1.forwardsRead a = true := by simp [ScBridge.forwardsRead, show s.1.connected = false from h]
  exact if_neg hf

theorem write_offline (h : Offline s) (a : Addr) (val : Word) :
    scDevice.write s a val = ((s.1.mmioWrite a (val.setWidth 64)).1, s.2) := by
  have hnone : (s.1.mmioWrite a (val.setWidth 64)).2 = none := by
    rw [ScBridge.mmioWrite, show s.1.connected = false from h]
    split <;> rfl
  have hx : s.1.mmioWrite a (val.setWidth 64) = ((s.1.mmioWrite a (val.setWidth 64)).1, none) := Prod.ext rfl hnone
  simp only [scDevice]
  rw [hx]

theorem offline_closed : Closed scDevice Offline where
  size := by decide
  step := fun s mem e t h ht => (congrArg ScBridge.connected (step_sc ht).2.1).trans h
  read := fun s a h => by
    rw [read_offline h]
    exact h
  write := fun s a val h => by
    rw [write_offline h]
    exact (ScBridge.connected_mmioWrite _ _ _).trans h

/-- What the bridge makes of a write that is not ignored. -/
theorem regs_offline (h : Offline s) (ha : ScBridge.takesWrite a = true) (val : Word) :
    (scDevice.write s a val).1 = s.1.mmioWriteLocal a (val.setWidth 64) := by
  rw [write_offline h, ScBridge.mmioWrite, if_pos ha]

theorem read_local (h : Offline s) (ha : ScBridge.takesWrite a = true) : (scDevice.read s a).1 = s.1.regs (a >>> 2) := by
  rw [read_offline h]
  exact (read_of_takesWrite s.1 RegBlock.new ha).1

theorem offline_answers : Answers scDevice Offline where
  size := by decide
  devId := fun s h => by
    rw [read_offline h]
    show s.1.mmioReadLocal (regOffset REG_DEV_ID) = 0x52414D53
    rw [ScBridge.mmioReadLocal, if_neg (by decide), if_pos (by decide)]
    rfl
  status := fun s h => by
    have hread : s.1.mmioReadLocal (regOffset REG_STATUS) = SC_STATUS_READY := by
      rw [ScBridge.mmioReadLocal, if_neg (by decide), if_neg (by decide), if_pos (by decide)]
    rw [read_offline h]
    show s.1.mmioReadLocal _ &&& STATUS_READY ≠ 0
    rw [hread]
    decide
  readBack := fun s reg val hr h => by
    have hp := sc_scratch hr
    rw [read_local (offline_closed.write s _ val h) hp.takes, regs_offline h hp.takes, ScBridge.mmioWriteLocal,
      if_neg fun hc => hp.ctrl hc.1, if_neg hp.irqSts, if_neg fun hd => hp.dmaCtrl hd.1]
    refine (if_pos rfl).trans ?_
    rw [BitVec.setWidth_setWidth_of_le _ (by decide), BitVec.setWidth_eq]
  scratch := fun s mem e t reg hr h ht => by
    have hp := sc_scratch hr
    rw [read_local (offline_closed.step s mem e t h ht) hp.takes, read_local h hp.takes, (step_sc ht).2.1]
  reset := fun s h => by
    have hp := sc_scratch (show REG_SCRATCH0 ∈ scratchRegs by decide)
    have hw : s.1.mmioWriteLocal (regOffset REG_CTRL) (CTRL_RESET.setWidth 64) = { s.1 with regs := ScBridge.resetRegs } := by
      rw [ScBridge.mmioWriteLocal, if_pos (by decide)]
    rw [read_local (offline_closed.write s _ _ h) hp.takes, regs_offline h (by decide), hw]
    rfl

variable {slot : Word} {c : PciConfig} {bar0 : BitVec 64} {b : Board (ScBridge × NicRun) (NicEvent × GuestMem)}

/-- The NIC's steps change none of the bridge's registers. -/
theorem offline_stable {K : Board (ScBridge × NicRun) (NicEvent × GuestMem) → Prop}
    (hK : (Board.world scDevice slot).Stable K) (L : ScBridge → Prop) :
    (Board.world scDevice slot).Stable fun b => K b ∧ L b.dev.1 := by
  intro b e t h he
  refine ⟨hK b e t h.1 he, ?_⟩
  obtain ⟨x, hx, rfl⟩ := Option.map_eq_some_iff.mp he
  show L x.1.1
  rw [(step_sc hx).2.1]
  exact h.2

/-- The bridge takes a transfer to be running as soon as it is started. -/
theorem offline_testDma (hm : Mapped scDevice.size slot c bar0) (h : On c Offline b) :
    (Board.world scDevice slot).Leads (testDma bar0)
      (fun r b => r = .fail ∧ Polled c bar0 Offline 500 b ∧ Shows "[TEST] DMA  TIMEOUT  FAIL\n" b) b := by
  have hC := offline_closed
  refine hC.testDma_busy hm (fun s => Offline s ∧ s.1.regs (SC_REG_DMA_STS >>> 2) = SC_STATUS_DMA_BSY) (fun n => ?_)
    (fun s a hs => ?_) (fun s hs => ?_) (fun s hs hl => ?_) h
  · have hpolled : (Board.world scDevice slot).Stable (Polled c bar0 Offline n) := hC.polled_stable n
    have hst := offline_stable hpolled fun s : ScBridge =>
      s.connected = false ∧ s.regs (SC_REG_DMA_STS >>> 2) = SC_STATUS_DMA_BSY
    exact hst
  · rw [read_offline hs.1]
    exact hs
  · refine ⟨hC.write s _ _ hs, ?_⟩
    rw [regs_offline hs (by decide), ScBridge.mmioWriteLocal, if_neg (by decide), if_neg (by decide), if_pos (by decide),
      setReg_regs, if_pos rfl]
  · have hread : (scDevice.read s (regOffset REG_DMA_STS)).1 = s.1.regs (SC_REG_DMA_STS >>> 2) :=
      read_local hs (by decide)
    rw [hread, hl.2]
    decide

/-- It raises no interrupt. -/
theorem offline_testInterrupt {K : Board (ScBridge × NicRun) (NicEvent × GuestMem) → Prop}
    (hS : Steady scDevice slot c bar0 Offline K) (h : K b) :
    (Board.world scDevice slot).Leads (testInterrupt bar0)
      (fun r b => r = .fail ∧ K b ∧ Shows "[TEST] Interrupt status bit NOT set  FAIL\n" b) b := by
  have hA := offline_answers
  let L : ScBridge × NicRun → Prop := fun s => s.1.regs (SC_REG_IRQ_STS >>> 2) &&& IRQ_TEST = 0
  have hL : (Board.world scDevice slot).Stable fun b => K b ∧ L b.dev :=
    offline_stable hS.stable fun s => s.regs (SC_REG_IRQ_STS >>> 2) &&& IRQ_TEST = 0
  refine (hS.puts h _).seq fun _ b hb => ?_
  refine (hS.writeTo hA hb L (by decide) hL fun s hs => ?_).seq fun _ b hb => ?_
  · show (scDevice.write s (regOffset REG_IRQ_STS) IRQ_TEST).1.regs _ &&& IRQ_TEST = 0
    rw [regs_offline hs (by decide), ScBridge.mmioWriteLocal, if_neg (by decide), if_pos (by decide),
      setReg_regs, if_pos (by decide), BitVec.and_assoc]
    exact BitVec.and_zero
  -- the write to `IRQ_TEST` is only remembered
  refine (call_leads hL hb (fun _ => hL) fun b hb => ?_).seq fun _ b hb => ?_
  · have hs := hS.dev b hb.1
    refine ⟨hS.ops b _ (.write (by decide) 1) hb.1, ?_⟩
    rw [perform_write (hS.mappedAt hb.1) (Nat.lt_of_lt_of_le (regOffset_lt (by decide)) hA.size)]
    show (scDevice.write b.dev (regOffset REG_IRQ_TEST) 1).1.regs _ &&& IRQ_TEST = 0
    rw [regs_offline hs (by decide), ScBridge.mmioWriteLocal, if_neg (by decide), if_neg (by decide), if_neg (by decide),
      setReg_regs, if_neg (by decide)]
    exact hb.2
  refine (hS.readIn hA hb.1 L (by decide) hL hb.2 (fun v => v &&& IRQ_TEST = 0) fun b hk hl => ?_).seq fun v b hb => ?_
  · have hread : (scDevice.read b.dev (regOffset REG_IRQ_STS)).1 = b.dev.1.regs (SC_REG_IRQ_STS >>> 2) :=
      read_local (hS.dev b hk) (by decide)
    rw [hread]
    exact hl
  refine (hS.puts hb.2 _).seq fun _ b hb' => ?_
  rw [if_neg (not_not.mpr hb.1)]
  refine (hS.show hb' _).seq fun _ b hb => ?_
  exact .ret (hS.stable.and (Shows.stable _)) hb fun _ h => ⟨rfl, h⟩

/-- Whatever config space and memory hold: while the bridge is not connected the firmware reports failure, after 500
reads of `DMA_STS`, of the DMA test and the interrupt test. -/
theorem disconnected_verdict {t : Board (ScBridge × NicRun) (NicEvent × GuestMem)} {es : List ((NicEvent × GuestMem) ⊕ Unit)}
    (hconn : b.dev.1.connected = false) (hfound : b.cfg.foundDev = some slot) (hplain : PlainRegs b.cfg slot)
    (hfits : BarFits SC_REG_COUNT.toNat b.cfg slot)
    (hrun : run (Board.world scDevice slot).go (b, vTaskPciTest) es = some (t, .ret ())) :
    report .fail <:+ console t.trace ∧ Shows "[TEST] DMA  TIMEOUT  FAIL\n" t ∧
      Shows "[TEST] Interrupt status bit NOT set  FAIL\n" t ∧
      ∃ w, lastTransfer (bar0Of t.cfg slot) t.trace = some w ∧ w.polls = 500 := by
  have hen := (enabled (b.cfg.lt_of_foundDev hfound) hplain).1
  have hm : Mapped scDevice.size slot _ _ := mapped_of_enabled (by decide) hfits hen
  have hC := offline_closed
  have hP := hC.polled_steady hm 500
  -- what the tests come to
  let K : PciTestResult → Board (ScBridge × NicRun) (NicEvent × GuestMem) → Prop := fun r u =>
    r = .fail ∧ (Polled (b.cfg.enable slot).1 (bar0Of (b.cfg.enable slot).1 slot) Offline 500 u ∧
      Shows "[TEST] DMA  TIMEOUT  FAIL\n" u) ∧ Shows "[TEST] Interrupt status bit NOT set  FAIL\n" u
  have hD : Steady scDevice slot (b.cfg.enable slot).1 (bar0Of (b.cfg.enable slot).1 slot) Offline fun u =>
      Polled (b.cfg.enable slot).1 (bar0Of (b.cfg.enable slot).1 slot) Offline 500 u ∧ Shows "[TEST] DMA  TIMEOUT  FAIL\n" u :=
    ⟨hm, hP.stable.and (Shows.stable _), fun u h => hP.cfg u h.1, fun u h => hP.dev u h.1,
      fun u e he h => ⟨hP.ops u e he h.1, h.2.after e⟩⟩
  have hK : ∀ r, Steady scDevice slot (b.cfg.enable slot).1 (bar0Of (b.cfg.enable slot).1 slot) Offline (K r) := fun r =>
    ⟨hm, stable_and (hD.stable.and (Shows.stable _)) _, fun u h => hD.cfg u h.2.1, fun u h => hD.dev u h.2.1,
      fun u e he h => ⟨h.1, hD.ops u e he h.2.1, h.2.2.after e⟩⟩
  have hS := hC.steady hm
  have htask := task_leads hC.step hfound hplain (b := b) ⟨rfl, hconn⟩ hK fun u hu =>
    run_leads hK hS hu fun u hu => hS.runAll offline_answers hu (fun r => (hK r).stable)
      (fun u hu => offline_testDma hm hu) fun r u hu => (offline_testInterrupt hD hu.2).mono fun r' u hu' => by
        obtain ⟨rfl, -⟩ := hu
        exact ⟨rfl, hu'.2⟩
  obtain ⟨r, ⟨rfl, ⟨hr, hdma⟩, hirq⟩, hreport⟩ := htask.run hrun
  obtain ⟨w, hw, hn⟩ := hr.polls
  rw [← hr.on.cfg] at hw
  exact ⟨hreport, hdma, hirq, w, hw, hn⟩

end Offline

/-! ## Boards with the bridge -/

/-- The bridge with a NIC that has just been constructed. -/
def bridgeBoard (connected : Bool) : Board (ScBridge × NicRun) (NicEvent × GuestMem) :=
  ⟨PciConfig.abortedSpace, ({ ScBridge.new false with connected := connected }, NicRun.init true true), fun _ => 0, []⟩

theorem connected_verdict_init : ∃ es t,
    run (Board.world scDevice 1).go (bridgeBoard true, vTaskPciTest) es = some (t, .ret ()) ∧
      report .pass <:+ console t.trace := by
  obtain ⟨es, t, ⟨⟩, hrun⟩ := Board.ends scDevice 1 vTaskPciTest (bridgeBoard true)
  have hnic : run NicRun.step (NicRun.init true true) [] = some (bridgeBoard true).dev.2 := rfl
  have hfound : (bridgeBoard true).cfg.foundDev = some 1 := show PciConfig.abortedSpace.foundDev = some 1 by decide
  have hplain : PlainRegs (bridgeBoard true).cfg 1 := ⟨by decide, by decide⟩
  have hbar : bar0Of (bridgeBoard true).cfg 1 = 0 := by decide
  exact ⟨es, t, hrun, (connected_verdict hnic rfl hfound hplain (.inl hbar) hrun).1⟩

theorem disconnected_verdict_init : ∃ es t,
    run (Board.world scDevice 1).go (bridgeBoard false, vTaskPciTest) es = some (t, .ret ()) ∧
      report .fail <:+ console t.trace := by
  obtain ⟨es, t, ⟨⟩, hrun⟩ := Board.ends scDevice 1 vTaskPciTest (bridgeBoard false)
  have hfound : (bridgeBoard false).cfg.foundDev = some 1 := show PciConfig.abortedSpace.foundDev = some 1 by decide
  have hplain : PlainRegs (bridgeBoard false).cfg 1 := ⟨by decide, by decide⟩
  have hbar : bar0Of (bridgeBoard false).cfg 1 = 0 := by decide
  exact ⟨es, t, hrun, (disconnected_verdict rfl hfound hplain (.inl hbar) hrun).1⟩

end SmartEth.PciTest
