import SmartEth.Proof.TestSide

/-!
# What a test that returns 0 has seen

A test that starts with all quiet has no completion to take before its operation is completed
(`Going`): the driver's operations raise nothing, and the last of them gives the NIC the test's
work (`dma_kept`, `tx_kept`, `irq_kept`). So in a run in which every test starts quiet and nothing
disturbs one, every test that returns 0 had its operation completed (`honest_of_quiet`). One
completion that is left over is enough for the next test to return 0 too early
(`dishonest_of_banked`).
-/

namespace SmartEth.TestRun

open SmartEthMain SmartNic

variable {s t : TestRun} {v : Known} {g : Work}

/-! ## Programs of the driver -/

/-- A program among the others keeps every test honest, and so does its end. -/
abbrev Leads (p : DriverM CallEnd) (s : TestRun) : Prop :=
  (machine.guard Undisturbed (fun _ _ _ => True) StartsQuiet).WP Fair p (fun r t => Fair (finish t r)) s

/-- The end of a call that does not return 0 too soon. -/
theorem Fair.finish {r : CallEnd} (h : Fair s) (hr : r = .tested true → s.completed = true) : Fair (finish s r) := by
  cases r with
  | probed a => exact ⟨h.honest, h.handlers, h.sound, h.sect⟩
  | removed => exact ⟨h.honest, h.handlers, h.sound, h.sect⟩
  | tested ok =>
    refine ⟨?_, h.handlers, h.sound, h.sect⟩
    cases ok with
    | false => simp only [TestRun.finish, h.honest, Bool.not_false, Bool.true_or, Bool.and_true]
    | true => simp only [TestRun.finish, h.honest, hr rfl, Bool.or_true, Bool.and_true]

/-- What every step keeps, a program keeps. -/
theorem leads_of_kept {G : TestRun → Prop} (hE : ∀ s e t, G s → env s e = some t → G t)
    (hA : ∀ s e c r t, G s → act s e c = some (r, t) → G t) (hG : ∀ s, G s → Fair s) {p : DriverM CallEnd}
    (hp : p.Ensures fun r => ∀ s, G s → Fair (finish s r)) (h : G s) : Leads p s := by
  have hE' : ∀ s e t, G s → (machine.guard Undisturbed (fun _ _ _ => True) StartsQuiet).env s e = some t → G t :=
    fun s e t hs he => hE s e t hs (Machine.guard_env.mp he).2
  induction p generalizing s with
  | ret r => exact World.WP.ret hE' h hp
  | op e k ih =>
    refine World.WP.op hE' h fun s c r t hs ha => ?_
    have ht := hA s e c r t hs (Machine.guard_act.mp ha).2
    exact ⟨hG t ht, ih r (hp r) ht⟩

theorem tested_false_ne : CallEnd.tested false ≠ .tested true := fun h => by cases h

/-- A call that does not return 0. -/
theorem leads_of_ne {p : DriverM CallEnd} (hp : p.Ensures fun r => r ≠ .tested true) (h : Fair s) : Leads p s :=
  leads_of_kept (fun _ _ _ hs he => (hs.env he).1) (fun _ _ _ _ _ hs ha => (hs.act ha).1) (fun _ hs => hs)
    (hp.mono fun _ hr _ hs => hs.finish fun he => absurd he hr) h

/-- A call whose operation is completed. -/
theorem leads_of_completed (p : DriverM CallEnd) (h : Fair s) (hc : s.completed = true) : Leads p s :=
  leads_of_kept (G := fun s => Fair s ∧ s.completed = true)
    (fun _ _ _ hs he => ⟨(hs.1.env he).1, (hs.1.env he).2 hs.2⟩)
    (fun _ _ _ _ _ hs ha => ⟨(hs.1.act ha).1, (hs.1.act ha).2 hs.2⟩) (fun _ hs => hs.1)
    (Prog.ensures_of_forall p fun _ _ hs => hs.1.finish fun _ => hs.2) ⟨h, hc⟩

/-- Until the operation is completed, `K` holds. -/
structure Going (K : TestRun → Prop) (s : TestRun) : Prop where
  fair : Fair s
  going : s.completed = false → K s

/-- The others keep `K` until they complete the operation. -/
def Kept (K : TestRun → Prop) : Prop :=
  ∀ s e t, Fair s → K s → Undisturbed s e → s.env e = some t → t.completed = false → K t

/-- An operation of the driver, from a state with `K`. -/
theorem Going.op {K : TestRun → Prop} {e : DriverOp} {k : e.Res → DriverM CallEnd} (hK : Kept K) (h : Going K s)
    (hf : ∀ s c r t, K s → s.act e c = some (r, t) → Fair t → Leads (k r) t) : Leads (.op e k) s := by
  refine World.WP.op (K := Going K) (fun s e t hs he => ?_) h fun s c r t hs ha => ?_
  · obtain ⟨hok, he⟩ := Machine.guard_env.mp he
    obtain ⟨hft, hc⟩ := hs.fair.env he
    refine ⟨hft, fun ht => hK s e t hs.fair (hs.going ?_) hok he ht⟩
    exact Bool.eq_false_iff.mpr fun hst => by cases (hc hst).symm.trans ht
  · obtain ⟨-, ha⟩ := Machine.guard_act.mp ha
    obtain ⟨hft, hc⟩ := hs.fair.act ha
    refine ⟨hft, ?_⟩
    by_cases hst : s.completed = true
    · exact leads_of_completed _ hft (hc hst)
    · exact hf s c r t (hs.going (Bool.eq_false_of_not_eq_true hst)) ha hft

/-- Until the operation is completed, the wait finds no completion. -/
theorem Going.wait {K : TestRun → Prop} {f : Bool → DriverM CallEnd} (hK : Kept K) (h : Going K s)
    (hb : ∀ s, K s → s.drv.completions = 0) (hf : (f false).Ensures fun r => r ≠ .tested true) :
    Leads (wait >>= f) s := by
  refine Going.op hK h fun s c r t hs ha hft => ?_
  cases r with
  | false => exact leads_of_ne hf hft
  | true =>
    obtain ⟨drv, hd, -⟩ := act_eq ha
    exact absurd (hb s hs) (wait_taken hd)

/-! ## While nothing is in the NIC's hands -/

/-- The call goes on, and the NIC has nothing of the test. -/
abbrev Calls (v : Known) (s : TestRun) : Prop := Going (Hushed v .nothing) s

theorem Hushed.kept (hv : v.own = none) : Kept (Hushed v g) := fun s e t hf h hok he hc => by
  rcases h.env hf hok he hc with ht | ⟨w, hw⟩
  · exact ht
  · cases hv.symm.trans hw.own

theorem SectOk.nothing {d d' : DriverNic} {x : NicSect} (h : SectOk .nothing d x) (hn : d'.nic = d.nic) :
    SectOk g d' x := by
  cases h with
  | drop pkt =>
    rw [← hn]
    exact .drop pkt
  | transfer work => cases work
  | frame work rest => cases work

theorem Calls.map {len : Nat} {f : Option Addr → DriverM CallEnd} (h : Calls v s) (hv : v.own = none)
    (hfail : ∀ s, Fair s → Leads (f none) s) (hf : ∀ s addr, Calls v s → Leads (f (some addr)) s) :
    Leads (mapBuf len >>= f) s := by
  refine Going.op (Hushed.kept hv) h fun s c r t hs ha hft => ?_
  obtain ⟨d, hd, rfl⟩ := act_eq ha
  cases c with
  | mapped addr =>
    simp only [DriverNic.act, Option.ite_none_right_eq_some, Option.some.injEq, Prod.mk.injEq] at hd
    obtain ⟨-, rfl, rfl⟩ := hd
    exact hf _ addr ⟨hft, fun _ => { hs with sect := fun x hx => (hs.sect x hx).nothing rfl }⟩
  | fails =>
    cases hd
    exact hfail _ hft
  | done => cases hd

theorem Calls.store {dma : Addr} {data : List Byte} {f : Unit → DriverM CallEnd} (h : Calls v s) (hv : v.own = none)
    (hf : ∀ s, Calls { v with mem := v.mem.write dma data } s → Leads (f ()) s) : Leads (store dma data >>= f) s := by
  refine Going.op (Hushed.kept hv) h fun s c r t hs ha hft => ?_
  obtain ⟨d, hd, rfl⟩ := act_eq ha
  cases hd
  exact hf _ ⟨hft, fun _ => { hs with
    mem := congrArg (·.write dma data) hs.mem
    sect := fun x hx => (hs.sect x hx).nothing rfl }⟩

theorem Calls.readReg {reg : Addr} {f : Word → DriverM CallEnd} (h : Calls v s) (hv : v.own = none)
    (hf : ∀ s val, Calls { v with quiet := True } s → Leads (f val) s) : Leads (readReg reg >>= f) s := by
  refine Going.op (Hushed.kept hv) h fun s c r t hs ha hft => ?_
  obtain ⟨d, hd, rfl⟩ := act_eq ha
  simp only [DriverNic.act, Option.ite_none_right_eq_some, Option.some.injEq, Prod.mk.injEq] at hd
  obtain ⟨⟨hp, -⟩, -, rfl⟩ := hd
  exact hf _ r ⟨hft, fun _ => { hs with quiet := fun _ => hp, sect := fun x hx => (hs.sect x hx).nothing rfl }⟩

theorem Calls.setTxHead {a : Adapter} {head : Word} {f : Unit → DriverM CallEnd} (h : Calls v s) (hv : v.own = none)
    (ha : v.adapter = some a)
    (hf : ∀ s, Calls { v with adapter := some { a with txHead := head }, desc := some (entry a.txRing a.txHead.toNat) } s →
      Leads (f ()) s) : Leads (setTxHead head >>= f) s := by
  refine Going.op (Hushed.kept hv) h fun s c r t hs hact hft => ?_
  obtain ⟨d, hd, rfl⟩ := act_eq hact
  cases hd
  have hsa : s.drv.adapter = some a := hs.adapter.trans ha
  refine hf _ ⟨hft, fun _ => { hs with
    adapter := congrArg (Option.map fun a : Adapter => ({ a with txHead := head } : Adapter)) hsa
    desc := congrArg (Option.map fun a : Adapter => entry a.txRing a.txHead.toNat) hsa
    sect := fun x hx => (hs.sect x hx).nothing rfl }⟩

/-- A write that starts nothing, to a register other than those that the call counts on. -/
theorem Calls.writeReg {reg : Addr} {val : Word} {f : Unit → DriverM CallEnd} (h : Calls v s) (hv : v.own = none)
    (hp : Plain reg) (hne : ∀ c ∈ v.cfg, reg ≠ c.1)
    (hf : ∀ s, Calls { v with cfg := (reg, val) :: v.cfg, quiet := False } s → Leads (f ()) s) :
    Leads (writeReg reg val >>= f) s := by
  refine Going.op (Hushed.kept hv) h fun s c r t hs ha hft => ?_
  obtain ⟨d, hd, rfl⟩ := act_eq ha
  cases hd
  obtain ⟨ws, hws, hsilent, hbefore⟩ := hs.posted
  rw [hv, Option.toList_none, List.append_nil] at hws
  refine hf _ ⟨hft, fun _ => { hs with
    posted := ⟨ws ++ [(reg, val)], ?_, fun w hw => ?_, ?_⟩
    settled := fun c hc => ?_
    quiet := False.elim
    sect := fun x hx => (hs.sect x hx).nothing rfl }⟩
  · show s.drv.posted ++ [(reg, val)] = _
    rw [hws, hv, Option.toList_none, List.append_nil]
  · rcases List.mem_append.mp hw with hw | hw
    · exact hsilent w hw
    · rw [List.mem_singleton.mp hw]
      exact .inl hp
  · rw [List.length_append]
    exact hbefore.trans (Nat.le_add_right _ _)
  · refine ⟨?_, (DriverNic.settled_post s.drv reg val c.1).trans ?_⟩
    · rcases List.mem_cons.mp hc with rfl | hc
      · exact hp
      · exact (hs.settled c hc).1
    · rcases List.mem_cons.mp hc with rfl | hc
      · exact if_pos rfl
      · exact (if_neg (hne c hc)).trans (hs.settled c hc).2

/-- The write that gives the NIC the test's work. -/
theorem Hushed.posts {w : Addr × Word} (h : Hushed v .nothing s) (hv : v.own = none) (hw : ¬ Plain w.1) {c : Bool} :
    Hushed { v with own := some w, quiet := False } .nothing
      { s with drv := { s.drv with posted := s.drv.posted ++ [w] }, completed := c } := by
  obtain ⟨ws, hws, hsilent, hbefore⟩ := h.posted
  rw [hv, Option.toList_none, List.append_nil] at hws
  refine { h with
    posted := ⟨ws, congrArg (· ++ [w]) hws, hsilent, hbefore⟩
    settled := fun c hc => ?_
    quiet := False.elim
    sect := fun x hx => (h.sect x hx).nothing rfl }
  obtain ⟨hp, hval⟩ := h.settled c hc
  refine ⟨hp, (DriverNic.settled_post s.drv w.1 w.2 c.1).trans ((if_neg ?_).trans hval)⟩
  intro he
  exact hw (he ▸ hp)

/-- The test's last write, and what it waits for. -/
theorem Calls.hands {reg : Addr} {val : Word} {K : TestRun → Prop} {f : Bool → DriverM CallEnd} (h : Calls v s)
    (hv : v.own = none) (hw : ¬ Plain reg) (hK : Kept K) (hb : ∀ s, K s → s.drv.completions = 0)
    (hin : ∀ s, Hushed { v with own := some (reg, val), quiet := False } .nothing s → K s)
    (hf : (f false).Ensures fun r => r ≠ .tested true) :
    Leads (SmartEthMain.writeReg reg val >>= fun _ => SmartEthMain.wait >>= f) s := by
  refine Going.op (Hushed.kept hv) h fun s c r t hs ha hft => ?_
  obtain ⟨d, hd, rfl⟩ := act_eq ha
  cases hd
  exact Going.wait hK ⟨hft, fun _ => hin _ (hs.posts hv (w := (reg, val)) hw)⟩ hb hf

/-! ## The test's work -/

/-- What the NIC's handling of the last write leaves of what the call knows. -/
theorem Hands.settled {w : Addr × Word} (h : Hands v w s t) (hs : Hushed v .nothing s) (hw : Ordinary w) :
    ∀ c ∈ v.cfg, Plain c.1 ∧ t.drv.settled c.1 = c.2 := by
  intro c hc
  obtain ⟨hp, hval⟩ := hs.settled c hc
  rw [h.after]
  exact ⟨hp, (DriverNic.settled_handle hp h.posted hw).trans hval⟩

/-- A plain register, when only the last write is on its way. -/
theorem Hands.reg {w : Addr × Word} (h : Hands v w s t) (hs : Hushed v .nothing s) (hw : ¬ Plain w.1) :
    ∀ c ∈ v.cfg, s.drv.nic.reg c.1 = c.2 := by
  intro c hc
  obtain ⟨hp, hval⟩ := hs.settled c hc
  refine (DriverNic.settled_of_ne fun x hx => ?_).symm.trans hval
  rw [h.posted, List.mem_singleton] at hx
  subst hx
  exact fun he => hw (he ▸ hp)

theorem Hands.ownWrite {w : Addr × Word} (h : Hands v w s t) : w ∈ s.ownWrite .handle := by
  rw [TestRun.ownWrite, if_pos h.first, h.posted]
  rfl

/-- The start of the test's transfer. -/
theorem dma_taken (hs : Hushed v .nothing s) (h : Hands v (REG_DMA_CTRL, DMA_START ||| DMA_IRQ_EN) s t)
    (hcall : v.call = .testDma) (hlen : (REG_DMA_LEN, 256) ∈ v.cfg) :
    Hushed { v with own := none } .transfer t := by
  have hwrite : (s.drv.nic.onMmioWrite REG_DMA_CTRL (DMA_START ||| DMA_IRQ_EN)).1 =
      (s.drv.nic.setReg SC_REG_DMA_CTRL (DMA_START ||| DMA_IRQ_EN)).startDma (DMA_START ||| DMA_IRQ_EN) :=
    LoopBack.onMmioWrite_start s.drv.nic (by decide)
  have hreg : ∀ a : Addr, a >>> 2 ≠ SC_REG_DMA_CTRL >>> 2 → a >>> 2 ≠ SC_REG_DMA_STS >>> 2 →
      (s.drv.nic.onMmioWrite REG_DMA_CTRL (DMA_START ||| DMA_IRQ_EN)).1.reg a = s.drv.nic.reg a := by
    intro a hctrl hsts
    rw [hwrite]
    exact (reg_setReg_ne hsts).trans (reg_setReg_ne hctrl)
  have hstart : s.startsDma .handle = true :=
    decide_eq_true ⟨hs.call.trans (congrArg some hcall), _, h.ownWrite, rfl, by decide⟩
  have hnotify : s.notifies .handle = false := by
    refine decide_eq_false fun ⟨x, hx, hn⟩ => ?_
    rw [h.posted] at hx
    cases hx
    exact absurd (notifyTx_mem.mp hn).1 (by decide)
  have hset := h.settled hs (by decide)
  have hlen : s.drv.nic.reg REG_DMA_LEN = 256 := h.reg hs (by decide) _ hlen
  have hafter := h.after
  subst hafter
  refine { hs with
    causes := (hreg _ (by decide) (by decide)).trans hs.causes
    tail := (hreg _ (by decide) (by decide)).trans hs.tail
    posted := ⟨[], rfl, nofun, ?_⟩
    settled := hset
    quiet := fun _ => rfl
    work := ?_
    sect := fun x hx => ?_ }
  · show s.before - 1 ≤ 0
    rw [h.first]
  · show Work.Has _ (s.started || s.startsDma .handle) (s.notified || s.notifies .handle) s.desc .transfer
    rw [hstart, hnotify, Bool.or_true, Bool.or_false]
    refine ⟨⟨hs.call.trans (congrArg some hcall), rfl, ?_, ?_, ?_⟩, hs.work.2⟩
    · show (s.drv.nic.onMmioWrite REG_DMA_CTRL (DMA_START ||| DMA_IRQ_EN)).1.dmaPending = true
      rw [hwrite]
      rfl
    · show (s.drv.nic.onMmioWrite REG_DMA_CTRL (DMA_START ||| DMA_IRQ_EN)).1.dma.len ≠ 0
      have hctrl : (s.drv.nic.setReg SC_REG_DMA_CTRL (DMA_START ||| DMA_IRQ_EN)).reg SC_REG_DMA_LEN = 256 :=
        (reg_setReg_ne (by decide)).trans hlen
      rw [hwrite]
      show DmaEngine.clampLen ((s.drv.nic.setReg SC_REG_DMA_CTRL _).reg SC_REG_DMA_LEN) ≠ 0
      rw [hctrl]
      decide
    · show (s.drv.nic.onMmioWrite REG_DMA_CTRL (DMA_START ||| DMA_IRQ_EN)).1.dma.dirWrite = false
      rw [hwrite]
      rfl
  · cases h.sect.symm.trans hx

/-- The start is on its way, or the NIC has the transfer. -/
theorem dma_kept (hcall : v.call = .testDma) (hlen : (REG_DMA_LEN, 256) ∈ v.cfg) (hv : v.own = none) :
    Kept fun s => Hushed { v with own := some (REG_DMA_CTRL, DMA_START ||| DMA_IRQ_EN), quiet := False } .nothing s ∨
      Hushed { v with quiet := False } .transfer s := by
  intro s e t hf h hok he hc
  rcases h with h | h
  · rcases h.env hf hok he hc with ht | ⟨w, hw⟩
    · exact .inl ht
    · obtain rfl := Option.some.inj hw.own
      have ht := dma_taken h hw hcall hlen
      rw [← hv] at ht
      exact .inr ht
  · exact .inr (Hushed.kept (v := { v with quiet := False }) hv s e t hf h hok he hc)

theorem Calls.startDma {f : Bool → DriverM CallEnd} (h : Calls v s) (hv : v.own = none) (hcall : v.call = .testDma)
    (hlen : (REG_DMA_LEN, 256) ∈ v.cfg) (hf : (f false).Ensures fun r => r ≠ .tested true) :
    Leads (SmartEthMain.writeReg REG_DMA_CTRL (DMA_START ||| DMA_IRQ_EN) >>= fun _ => SmartEthMain.wait >>= f) s :=
  h.hands hv (by decide) (dma_kept hcall hlen hv) (fun _ hs => hs.elim (·.banked) (·.banked)) (fun _ hs => .inl hs) hf

/-- The doorbell of the test's frame. -/
theorem tx_taken {ring : Addr} {head : Word} (hs : Hushed v .nothing s) (h : Hands v (REG_TX_DOORBELL, 1) s t)
    (hf : Fair s) (hcall : v.call = .testTx) (hcfg : ∀ c ∈ DriverNic.ringCfg ring, c ∈ v.cfg) (htail : v.tail = head)
    (hbase : ring ≠ 0) (hdesc : v.desc = some (DescRing.entryAddr ring head.toNat))
    (hown : (DescRing.entry ring v.mem head.toNat).own = true) : Hushed { v with own := none } (.frame ring head) t := by
  have hwrite := DriverNic.onMmioWrite_doorbell s.drv.nic
  have hreg : ∀ a : Addr, a >>> 2 ≠ SC_REG_TX_DOORBELL >>> 2 →
      (s.drv.nic.onMmioWrite REG_TX_DOORBELL 1).1.reg a = s.drv.nic.reg a := by
    intro a ha
    rw [hwrite]
    exact reg_setReg_ne ha
  have hset := h.settled hs (by decide)
  have hval := h.reg hs (by decide)
  have hregs : DriverNic.Regs (DriverNic.ringCfg ring) (s.drv.nic.onMmioWrite REG_TX_DOORBELL 1).1 := fun c hc =>
    ⟨(hs.settled c (hcfg c hc)).1,
      (hreg _ ((hs.settled c (hcfg c hc)).1.index_ne (by decide))).trans (hval c (hcfg c hc))⟩
  have htail' : (s.drv.nic.onMmioWrite REG_TX_DOORBELL 1).1.reg SC_REG_TX_TAIL = head :=
    (hreg _ (by decide)).trans (hs.tail.trans htail)
  have hready : DriverNic.Ready ring head (s.drv.nic.onMmioWrite REG_TX_DOORBELL 1).1 := by
    refine hregs.ready ?_ ?_ htail'
    · rw [hwrite]
      exact hf.sound.bridge
    · rw [hwrite]
      exact reg_setReg_self _ _ _
  have hafter := h.after
  subst hafter
  refine { hs with
    causes := (hreg _ (by decide)).trans hs.causes
    tail := htail'.trans htail.symm
    posted := ⟨[], rfl, nofun, ?_⟩
    settled := hset
    quiet := fun _ => rfl
    work := ⟨⟨?_, hs.work.1.2⟩, ?_⟩
    sect := fun x hx => ?_ }
  · show s.before - 1 ≤ 0
    rw [h.first]
  · show (s.drv.nic.onMmioWrite REG_TX_DOORBELL 1).1.dmaPending = false
    rw [hwrite]
    exact hs.work.1.1
  · refine ⟨hs.call.trans (congrArg some hcall), hs.desc.trans hdesc, rfl, hready, ?_, hbase, hs.mem.symm ▸ hown,
      fun hloc => ?_⟩
    · show (s.drv.nic.onMmioWrite REG_TX_DOORBELL 1).1.txPending = true
      rw [hwrite]
    · cases hs.work.2.1.symm.trans hloc
  · cases h.sect.symm.trans hx

/-- The doorbell is on its way, or the NIC has the frame. -/
theorem tx_kept {ring : Addr} {head : Word} (hcall : v.call = .testTx)
    (hcfg : ∀ c ∈ DriverNic.ringCfg ring, c ∈ v.cfg) (htail : v.tail = head) (hbase : ring ≠ 0)
    (hdesc : v.desc = some (DescRing.entryAddr ring head.toNat))
    (hown : (DescRing.entry ring v.mem head.toNat).own = true) (hv : v.own = none) :
    Kept fun s => Hushed { v with own := some (REG_TX_DOORBELL, 1), quiet := False } .nothing s ∨
      Hushed { v with quiet := False } (.frame ring head) s := by
  intro s e t hf h hok he hc
  rcases h with h | h
  · rcases h.env hf hok he hc with ht | ⟨w, hw⟩
    · exact .inl ht
    · obtain rfl := Option.some.inj hw.own
      have ht := tx_taken h hw hf hcall hcfg htail hbase hdesc hown
      rw [← hv] at ht
      exact .inr ht
  · exact .inr (Hushed.kept (v := { v with quiet := False }) hv s e t hf h hok he hc)

theorem Calls.ring {ring : Addr} {head : Word} {f : Bool → DriverM CallEnd} (h : Calls v s) (hv : v.own = none)
    (hcall : v.call = .testTx) (hcfg : ∀ c ∈ DriverNic.ringCfg ring, c ∈ v.cfg) (htail : v.tail = head) (hbase : ring ≠ 0)
    (hdesc : v.desc = some (DescRing.entryAddr ring head.toNat))
    (hown : (DescRing.entry ring v.mem head.toNat).own = true) (hf : (f false).Ensures fun r => r ≠ .tested true) :
    Leads (SmartEthMain.writeReg REG_TX_DOORBELL 1 >>= fun _ => SmartEthMain.wait >>= f) s :=
  h.hands hv (by decide) (tx_kept hcall hcfg htail hbase hdesc hown hv) (fun _ hs => hs.elim (·.banked) (·.banked))
    (fun _ hs => .inl hs) hf

/-- The write that raises the test interrupt is on its way: the NIC completes the operation when it handles it. -/
theorem irq_kept (hcall : v.call = .testIrq) :
    Kept (Hushed { v with own := some (REG_IRQ_TEST, 1), quiet := False } .nothing) := by
  intro s e t hf h hok he hc
  rcases h.env hf hok he hc with ht | ⟨w, hw⟩
  · exact ht
  · obtain rfl := Option.some.inj hw.own
    have hraise : s.raises .handle = true :=
      decide_eq_true ⟨h.call.trans (congrArg some hcall), _, hw.ownWrite, rfl, by decide⟩
    rw [hw.after] at hc
    cases hraise.symm.trans (completed_after hc).2.2.1

/-! ## The tests -/

theorem Calls.testDma (h : Calls v s) (hcall : v.call = .testDma) (hv : v.own = none) (hcfg : v.cfg = []) :
    Leads (testDma >>= fun ok => pure (.tested ok)) s := by
  rw [SmartEthMain.testDma, Prog.bind_assoc]
  refine h.map hv (fun s hs => leads_of_ne tested_false_ne hs) fun s dma hs => ?_
  dsimp only
  rw [Prog.bind_assoc]
  refine hs.store hv fun s hs => ?_
  rw [Prog.bind_assoc]
  have hdst : REG_DMA_DST ≠ REG_DMA_SRC := by decide
  have hlen : REG_DMA_LEN ≠ REG_DMA_DST ∧ REG_DMA_LEN ≠ REG_DMA_SRC := by decide
  refine hs.writeReg hv (by decide) ?_ fun s hs => ?_
  · simp only [hcfg, List.not_mem_nil, IsEmpty.forall_iff, implies_true]
  rw [Prog.bind_assoc]
  refine hs.writeReg hv (by decide) ?_ fun s hs => ?_
  · simp only [hcfg, List.mem_singleton, forall_eq, ne_eq, hdst, not_false_eq_true]
  rw [Prog.bind_assoc]
  refine hs.writeReg hv (by decide) ?_ fun s hs => ?_
  · simp only [hcfg, List.mem_cons, List.not_mem_nil, or_false, forall_eq_or_imp, forall_eq]
    exact hlen
  rw [Prog.bind_assoc]
  exact hs.startDma hv hcall List.mem_cons_self fun _ => tested_false_ne

theorem Calls.fillDesc {desc dma : Addr} {len : Word} {f : Unit → DriverM CallEnd} (h : Calls v s) (hv : v.own = none)
    (hf : ∀ s, Calls { v with mem := v.mem.write desc (SmartEthDesc.toBytes ⟨dma, len, DESC_FLAG_OWN⟩) } s →
      Leads (f ()) s) : Leads (fillDesc desc dma len >>= f) s := by
  rw [SmartEthMain.fillDesc, Prog.bind_assoc]
  refine h.store hv fun s hs => ?_
  rw [Prog.bind_assoc]
  refine hs.store hv fun s hs => hs.store hv fun s hs => hf s ?_
  rw [← DriverNic.write_desc]
  exact hs

theorem Calls.testTx {a : Adapter} (h : Calls v s) (hcall : v.call = .testTx) (hv : v.own = none)
    (ha : v.adapter = some a) (hcfg : ∀ c ∈ DriverNic.ringCfg a.txRing, c ∈ v.cfg) (htail : v.tail = a.txHead)
    (hbase : a.txRing ≠ 0) : Leads (testTx a >>= fun ok => pure (.tested ok)) s := by
  rw [SmartEthMain.testTx, Prog.bind_assoc]
  refine h.map hv (fun s hs => leads_of_ne tested_false_ne hs) fun s dma hs => ?_
  dsimp only
  rw [Prog.bind_assoc]
  refine hs.store hv fun s hs => ?_
  rw [Prog.bind_assoc]
  refine hs.readReg hv fun s _ hs => ?_
  rw [Prog.bind_assoc]
  refine hs.fillDesc hv fun s hs => ?_
  rw [Prog.bind_assoc]
  refine hs.setTxHead hv ha fun s hs => ?_
  rw [Prog.bind_assoc]
  refine hs.ring hv hcall hcfg htail hbase rfl ?_ fun _ _ => tested_false_ne
  -- the descriptor that has been filled
  refine (congrArg SmartEthDesc.own (DescRing.entry_write_self _ _ _)).trans ?_
  show (DESC_FLAG_OWN &&& SMARTETH_DESC_FLAG_OWN != 0) = true
  decide

theorem Calls.testIrq (h : Calls v s) (hcall : v.call = .testIrq) (hv : v.own = none) :
    Leads (testIrq >>= fun ok => pure (.tested ok)) s := by
  rw [SmartEthMain.testIrq, Prog.bind_assoc]
  exact h.hands hv (by decide) (irq_kept hcall) (fun s hs => hs.banked) (fun s hs => hs) tested_false_ne

/-! ## Runs -/

/-- A test starts with all quiet. -/
theorem Fair.calls {a : Adapter} {c : DriverCall} (h : Fair s) (hq : s.Quiet) (ha : s.drv.adapter = some a)
    (hc : c.isTest = true) (cfg : List (Addr × Word)) (hcfg : ∀ w ∈ cfg, Plain w.1 ∧ s.drv.settled w.1 = w.2) :
    Calls ⟨c, cfg, s.drv.mem, some a, none, s.drv.nic.reg SC_REG_TX_TAIL, none, False⟩
      { s with drv := { s.drv with call := some c }, before := s.drv.posted.length, started := false, desc := none,
               completed := false } := by
  refine ⟨⟨h.honest, h.handlers, h.sound, h.sect⟩, fun _ => ?_⟩
  refine ⟨hc, hq.banked, fun p hp => (h.handlers p hp).fresh (hq.handlers p hp), hq.causes, rfl, rfl, ha, rfl, rfl,
    ⟨s.drv.posted, ?_, hq.posted, le_rfl⟩, hcfg, False.elim, ⟨hq.dma, hq.tx⟩, fun x hx => ?_⟩
  · rw [Option.toList_none, List.append_nil]
  · cases hq.sect.symm.trans hx

theorem leads_start {c : DriverCall} {p : DriverM CallEnd} (h : Fair s) (hok : StartsQuiet s c)
    (hs : s.start c = some (t, p)) : Fair t ∧ Leads p t := by
  obtain ⟨⟨d, p⟩, hd, hx⟩ := Option.map_eq_some_iff.mp hs
  obtain ⟨rfl, rfl⟩ := Prod.mk.inj hx
  cases c with
  | probe =>
    obtain ⟨-, rfl, rfl⟩ := DriverNic.start_probe hd
    exact ⟨{ h with }, leads_of_ne (.bind (Prog.ensures_of_forall _ fun _ => nofun)) { h with }⟩
  | remove =>
    obtain ⟨a, -, hx⟩ := Option.map_eq_some_iff.mp hd
    cases hx
    exact ⟨{ h with }, leads_of_ne (.bind (Prog.ensures_of_forall _ fun _ => nofun)) { h with }⟩
  | testDma =>
    obtain ⟨a, ha, hx⟩ := Option.map_eq_some_iff.mp hd
    cases hx
    have hcalls := h.calls (c := .testDma) (hok.1 rfl) ha rfl [] nofun
    exact ⟨hcalls.fair, hcalls.testDma rfl rfl rfl⟩
  | testTx =>
    obtain ⟨a, ha, hx⟩ := Option.map_eq_some_iff.mp hd
    cases hx
    obtain ⟨hbase, hcfg, htail⟩ := hok.2 rfl a ha
    have hplain : ∀ w ∈ DriverNic.ringCfg a.txRing, Plain w.1 := by
      simp only [DriverNic.ringCfg, List.mem_cons, List.not_mem_nil, or_false, forall_eq_or_imp, forall_eq]
      decide
    have hcalls := h.calls (c := .testTx) (hok.1 rfl) ha rfl _ fun w hw => ⟨hplain w hw, hcfg w hw⟩
    exact ⟨hcalls.fair, hcalls.testTx rfl rfl rfl (fun _ hc => hc) htail hbase⟩
  | testIrq =>
    obtain ⟨a, ha, hx⟩ := Option.map_eq_some_iff.mp hd
    cases hx
    have hcalls := h.calls (c := .testIrq) (hok.1 rfl) ha rfl [] nofun
    exact ⟨hcalls.fair, hcalls.testIrq rfl rfl⟩

theorem Fair.init (netif : Bool) (mem : GuestMem) : Fair (init netif mem) := ⟨rfl, nofun, ⟨rfl, rfl⟩, nofun⟩

/-- If every test starts with all quiet, and while one runs the NIC takes no frame in and its DMA moves the bytes, then
every test that returns 0 had its operation completed. -/
theorem honest_of_quiet {netif : Bool} {mem : GuestMem}
    {es : List (Machine.Event TestEvent DriverChoice Empty DriverCall)}
    {t : Machine.State DriverOp DriverOp.Res CallEnd TestRun}
    (hok : Along machine.step (Machine.Meets Undisturbed (fun _ _ _ => True) StartsQuiet) ⟨init netif mem, none⟩ es)
    (h : run machine.step ⟨init netif mem, none⟩ es = some t) : t.st.honest = true := by
  rw [← Machine.run_guard hok] at h
  refine (Machine.inv (I := Fair) (J := Fair) (fun _ hs => hs) (fun s e t hs he => ?_) (fun s e t hs he => ?_)
    (fun _ e => e.elim) (fun s c t p hs hst => ?_) (Fair.init netif mem) h).st.honest
  · exact (hs.env (Machine.guard_env.mp he).2).1
  · exact (hs.env (Machine.guard_env.mp he).2).1
  · obtain ⟨hc, hst⟩ := Machine.guard_start.mp hst
    exact leads_start hs hc hst

/-- What the driver does completes no test interrupt. -/
theorem completed_act {e : DriverOp} {c : DriverChoice} {r : e.Res} (hc : s.drv.call = some .testIrq)
    (h : s.act e c = some (r, t)) : t.drv.call = some .testIrq ∧ t.completed = s.completed := by
  obtain ⟨drv, hd, rfl⟩ := act_eq h
  obtain ⟨-, -, hcall⟩ := act_frame hd
  refine ⟨hcall.trans hc, (congrArg (s.completed || ·) (decide_eq_false fun hg => ?_)).trans (Bool.or_false _)⟩
  cases (hcall.trans hc).symm.trans hg.1

theorem step_act {e : DriverOp} {k : e.Res → DriverM CallEnd} {c : DriverChoice} {r : e.Res}
    (h : s.act e c = some (r, t)) : machine.step ⟨s, some (.op e k)⟩ (.act c) = some ⟨t, some (k r)⟩ :=
  Option.map_eq_some_iff.mpr ⟨_, h, rfl⟩

/-- With a completion left over, `smarteth_test_irq` may return 0 before its write has reached the NIC. -/
theorem dishonest_of_banked {a : Adapter} (ha : s.drv.adapter = some a) (h : s.drv.completions ≠ 0) :
    ∃ t, run machine.step ⟨s, none⟩ [.start .testIrq, .act .done, .act .done, .finish] = some ⟨t, none⟩ ∧
      t.honest = false := by
  obtain ⟨s₁, h₁, hcall, hc, hn⟩ : ∃ u, s.start .testIrq = some (u, testIrq >>= fun ok => pure (.tested ok)) ∧
      u.drv.call = some .testIrq ∧ u.completed = false ∧ u.drv.completions = s.drv.completions :=
    ⟨_, Option.map_eq_some_iff.mpr ⟨_, Option.map_eq_some_iff.mpr ⟨a, ha, rfl⟩, rfl⟩, rfl, rfl, rfl⟩
  obtain ⟨s₂, h₂, hn₂⟩ : ∃ u, s₁.act (.writeReg REG_IRQ_TEST 1) .done = some ((), u) ∧
      u.drv.completions = s₁.drv.completions := ⟨_, rfl, rfl⟩
  obtain ⟨s₃, h₃⟩ : ∃ u, s₂.act .wait .done = some (true, u) :=
    ⟨_, Option.map_eq_some_iff.mpr ⟨_, if_neg (hn₂.trans hn ▸ h), rfl⟩⟩
  obtain ⟨hcall₂, hc₂⟩ := completed_act hcall h₂
  have hc₃ : s₃.completed = false := (completed_act hcall₂ h₃).2.trans (hc₂.trans hc)
  have hstart : machine.step ⟨s, none⟩ (.start .testIrq) = some ⟨s₁, some (.op (.writeReg REG_IRQ_TEST 1) fun _ =>
      .op .wait fun ok => .ret (.tested ok))⟩ := Option.map_eq_some_iff.mpr ⟨_, h₁, rfl⟩
  refine ⟨s₃.finish (.tested true), run_cons_some.mpr ⟨_, hstart, run_cons_some.mpr ⟨_, step_act h₂,
    run_cons_some.mpr ⟨_, step_act h₃, rfl⟩⟩⟩, ?_⟩
  simp only [TestRun.finish, hc₃, Bool.not_true, Bool.or_false, Bool.and_false]

/-! ## Examples -/

/-- An event of the driver and the NIC. -/
def lift : Machine.Event DriverEvent DriverChoice Empty DriverCall → Machine.Event TestEvent DriverChoice Empty DriverCall
  | .env e => .env (.nic e)
  | .act c => .act c
  | .start c => .start c
  | .idle e => .idle e
  | .finish => .finish

def exampleLoad : List (Machine.Event TestEvent DriverChoice Empty DriverCall) := DriverNic.exampleLoad.map lift

/-- Handler `i` is called and runs to its end, and the NIC handles its acknowledgement. -/
def exampleHandler (i : Nat) : List (Machine.Event TestEvent DriverChoice Empty DriverCall) :=
  .env .interrupt :: List.replicate 3 (.env (.handler i)) ++ [.env (.nic .handle)]

/-- `smarteth_test_dma` up to its wait. -/
def exampleTestDma : List (Machine.Event TestEvent DriverChoice Empty DriverCall) :=
  [.start .testDma, .act (.mapped 0x8000)] ++ List.replicate 5 (.act .done)

/-- The NIC handles its register writes and executes the transfer. -/
def exampleTransfer : List (Machine.Event TestEvent DriverChoice Empty DriverCall) :=
  List.replicate 4 (.env (.nic .handle)) ++ [.env (.nic .dmaCheck), .env (.nic .processDma),
    .env (.nic (.nicOp .moved)), .env (.nic (.nicOp .moved)), .env (.nic .nicEnd)]

/-- `smarteth_test_tx` up to its wait, and its frame. -/
def exampleTestTx : List (Machine.Event TestEvent DriverChoice Empty DriverCall) :=
  [.start .testTx, .act (.mapped 0x8000)] ++ List.replicate 7 (.act .done) ++
    [.env (.nic .handle), .env (.nic .txWake), .env (.nic .txIteration)] ++
    List.replicate 3 (.env (.nic (.nicOp .moved))) ++
    [.env (.nic .nicEnd), .env (.nic .txIteration), .env (.nic .nicEnd), .env (.nic .txDone),
      .env (.nic (.nicOp .moved)), .env (.nic .nicEnd)]

/-- The three tests, as they should be. -/
def exampleTests : List (Machine.Event TestEvent DriverChoice Empty DriverCall) :=
  exampleTestDma ++ exampleTransfer ++ exampleHandler 0 ++ List.replicate 2 (.act .done) ++ [.finish] ++
    exampleTestTx ++ exampleHandler 1 ++ List.replicate 3 (.act .done) ++ [.finish] ++
    [.start .testIrq, .act .done, .env (.nic .handle)] ++ exampleHandler 2 ++ [.act .done, .finish]

/-- `smarteth_test_dma` times out before the NIC has handled its writes, and then the transfer is executed. -/
def exampleLate : List (Machine.Event TestEvent DriverChoice Empty DriverCall) :=
  exampleTestDma ++ [.act .fails, .act .done, .finish] ++ exampleTransfer ++ exampleHandler 0

def exampleStart : Machine.State DriverOp DriverOp.Res CallEnd TestRun := ⟨init false fun _ => 0, none⟩

/-- Every completion is taken by the wait of the test that it is for. -/
theorem honest_after_tests : ∃ t, run machine.step exampleStart (exampleLoad ++ exampleTests) = some t ∧
    (t.cur.isNone, t.st.drv.completions) = (true, 0) ∧ t.st.honest = true := by
  have hr : (run (checked machine.step (Machine.Meets Undisturbed (fun _ _ _ => True) StartsQuiet)) exampleStart
      (exampleLoad ++ exampleTests)).map (fun t => (t.cur.isNone, t.st.drv.completions)) = some (true, 0) := by
    decide +kernel
  obtain ⟨t, ht, ha⟩ := Option.map_eq_some_iff.mp hr
  obtain ⟨hok, ht⟩ := run_checked.mp ht
  exact ⟨t, ht, ha, honest_of_quiet hok ht⟩

/-- The interrupt of a transfer that has timed out lets the next test return 0. -/
theorem late_interrupt_counted : ¬ ∀ (netif : Bool) (mem : GuestMem)
    (es : List (Machine.Event TestEvent DriverChoice Empty DriverCall))
    (t : Machine.State DriverOp DriverOp.Res CallEnd TestRun),
    run machine.step ⟨init netif mem, none⟩ es = some t → t.st.honest = true := by
  intro h
  have hr : (run machine.step exampleStart (exampleLoad ++ exampleLate)).map (fun t =>
      (t.cur.isNone, t.st.drv.adapter.isSome, t.st.drv.completions)) = some (true, true, 1) := by
    decide +kernel
  obtain ⟨⟨s, cur⟩, hs, hx⟩ := Option.map_eq_some_iff.mp hr
  simp only [Prod.mk.injEq, Option.isNone_iff_eq_none] at hx
  obtain ⟨rfl, ha, hn⟩ := hx
  obtain ⟨a, ha⟩ := Option.isSome_iff_exists.mp ha
  obtain ⟨t, ht, hf⟩ := dishonest_of_banked ha (hn.trans_ne Nat.one_ne_zero)
  exact absurd ((h _ _ _ _ (run_append_some hs ht)).symm.trans hf) Bool.false_ne_true.symm

end SmartEth.TestRun
