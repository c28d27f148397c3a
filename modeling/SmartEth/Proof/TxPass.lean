import SmartEth.Proof.Driver
import SmartEth.System.TxPosition

/-!
# The NIC and the driver's TX ring

While no frame is rung for, no pass of `process_tx` reads a descriptor (`Still`). From
the doorbell on (`Rung`) the one pass that finds the descriptor gives it back and moves
`TX_TAIL` on by one (`Rung.env`).
-/

namespace SmartEth.DriverNic

open SmartEthMain SmartNic

variable {s t : DriverNic} {tail head : Word} {m : GuestMem} {cfg : List (Addr × Word)} {ring : Addr}

/-! ## While no frame is rung for -/

/-- The TX ring where it is, and no doorbell. -/
structure Idles (tail : Word) (nic nic' : SmartNic) : Prop where
  frame : HostFrame nic nic'
  doorbell : nic'.reg SC_REG_TX_DOORBELL = 0
  tail : nic'.reg SC_REG_TX_TAIL = tail

abbrev NoDma (e : NicOp) : Prop := e.region = none

structure Still (tail : Word) (m : GuestMem) (s : DriverNic) : Prop where
  mem : s.mem = m
  bridge : s.nic.bridge = true
  idles : Idles tail s.nic s.nic
  sect : ∀ x, s.sect = some x → x.rest.Does NoDma fun r => Idles tail s.nic r.1

theorem dmaAnswer_noDma {e : NicOp} (h : NoDma e) (m : GuestMem) (r : DmaEnd) : (dmaAnswer m r e).2 = m := by
  cases e with
  | dmaRead _ _ | dmaWrite _ _ => cases h
  | sendIrq _ | transmit _ => rfl

theorem raiseIrq_idles {nic nic' : SmartNic} (h : Idles tail nic nic') (cause vector : Word) :
    (nic'.raiseIrq cause vector).Does NoDma (Idles tail nic) := by
  have hset : Idles tail nic (nic'.setReg SC_REG_IRQ_STS (nic'.regs.irqStatus ||| cause)) :=
    ⟨h.frame.setReg (by decide) _, (reg_setReg_ne (by decide)).trans h.doorbell,
      (reg_setReg_ne (by decide)).trans h.tail⟩
  rw [raiseIrq]
  split
  · exact ⟨rfl, fun _ => hset⟩
  · exact hset

theorem txDone_idles {nic : SmartNic} (h : Idles tail nic nic) :
    (nic.processTxDone >>= fun n => pure (n, false) : NicM (SmartNic × Bool)).Does NoDma
      fun r => Idles tail nic r.1 := by
  rw [processTxDone]
  split
  · exact .bind ((raiseIrq_idles h _ _).mono fun _ hn => hn)
  · exact h

/-- With the doorbell at zero, a pass reads no descriptor. -/
theorem txIteration_idles {nic : SmartNic} (h : Idles tail nic nic) :
    (nic.processTxIteration >>= fun x => pure (x.1, x.2.isSome) : NicM (SmartNic × Bool)).Does NoDma
      fun r => Idles tail nic r.1 := by
  rw [processTxIteration]
  split
  · exact h
  · rw [if_pos (.inr (.inl h.doorbell))]
    exact ⟨⟨rfl, rfl, fun _ _ => rfl⟩, h.doorbell, h.tail⟩

/-- A step of the NIC's side other than a register write. -/
theorem Still.env {e : DriverEvent} (h : Still tail m s) (hok : TxEvent s e) (hne : e ≠ .handle)
    (he : s.env e = some t) : Still tail m t ∧ t.posted = s.posted ∧ HostFrame s.nic t.nic := by
  have henter : ∀ {th p}, s.enter th p = some t → p.Does NoDma (fun r => Idles tail s.nic r.1) →
      Still tail m t ∧ t.posted = s.posted ∧ HostFrame s.nic t.nic := by
    intro th p hen hp
    obtain ⟨-, rfl⟩ := enter_eq hen
    refine ⟨⟨h.mem, h.bridge, h.idles, fun x hx => ?_⟩, rfl, .refl _⟩
    cases hx
    exact hp
  cases e with
  | handle => exact absurd rfl hne
  | signal =>
    cases he
    exact ⟨⟨h.mem, h.bridge, h.idles, h.sect⟩, rfl, .refl _⟩
  | packet _ | dmaCheck | processDma => exact hok.elim
  | txWake =>
    simp only [DriverNic.env, Option.ite_none_right_eq_some, Option.some.injEq] at he
    obtain ⟨-, rfl⟩ := he
    exact ⟨⟨h.mem, h.bridge, h.idles, h.sect⟩, rfl, .refl _⟩
  | txIteration =>
    simp only [DriverNic.env, Option.ite_none_right_eq_some] at he
    exact henter he.2 (txIteration_idles h.idles)
  | txDone =>
    simp only [DriverNic.env, Option.ite_none_right_eq_some] at he
    exact henter he.2 (txDone_idles h.idles)
  | nicOp r =>
    obtain ⟨th, e, k, hs, rfl⟩ := env_nicOp he
    obtain ⟨hdma, hk⟩ := h.sect _ hs
    refine ⟨⟨(dmaAnswer_noDma hdma _ _).trans h.mem, h.bridge, h.idles, fun x hx => ?_⟩, rfl, .refl _⟩
    cases hx
    exact hk _
  | nicEnd =>
    obtain ⟨th, nic, again, hs, rfl⟩ := env_nicEnd he
    have hr : Idles tail s.nic nic := h.sect _ hs
    refine ⟨⟨h.mem, hr.frame.bridge.trans h.bridge, ⟨.refl _, hr.doorbell, hr.tail⟩, fun x hx => ?_⟩, rfl, hr.frame⟩
    cases hx

/-- Only writes to plain registers are on their way, which will set the registers as in `cfg`. -/
structure Calm (tail : Word) (cfg : List (Addr × Word)) (m : GuestMem) (s : DriverNic) : Prop
    extends Still tail m s where
  posted : ∀ w ∈ s.posted, Plain w.1
  settled : ∀ c ∈ cfg, Plain c.1 ∧ s.settled c.1 = c.2

theorem Calm.env {e : DriverEvent} (h : Calm tail cfg m s) (hok : TxEvent s e) (he : s.env e = some t) :
    Calm tail cfg m t := by
  by_cases hne : e = .handle
  · subst hne
    obtain ⟨hs, w, rest, hp, rfl⟩ := env_handle he
    have hw : Plain w.1 := h.posted w (hp ▸ List.mem_cons_self)
    have hreg : ∀ b ∈ SPECIAL_REGS, (s.nic.setReg w.1 w.2).reg b = s.nic.reg b := fun b hb =>
      reg_setReg_ne (hw.index_ne hb).symm
    refine ⟨⟨h.mem, ?_, ?_, fun x hx => ?_⟩, fun v hv => h.posted v (hp ▸ List.mem_cons_of_mem _ hv), fun c hc => ?_⟩
    · rw [hw.onMmioWrite]
      exact h.bridge
    · rw [hw.onMmioWrite]
      exact ⟨.refl _, (hreg _ (by decide)).trans h.idles.doorbell, (hreg _ (by decide)).trans h.idles.tail⟩
    · cases hs.symm.trans hx
    · obtain ⟨hc', hv⟩ := h.settled c hc
      exact ⟨hc', (settled_handle hc' hp hw.ordinary).trans hv⟩
  · obtain ⟨hst, hp, hf⟩ := h.toStill.env hok hne he
    refine ⟨hst, fun w hw => h.posted w (hp ▸ hw), fun c hc => ?_⟩
    obtain ⟨hc', hv⟩ := h.settled c hc
    refine ⟨hc', ?_⟩
    rw [← hv, DriverNic.settled, DriverNic.settled, hp, hf.reg _ hc'.hostReg]

/-! ## While a frame is rung for -/

/-- The registers hold what `cfg` says. -/
def Regs (cfg : List (Addr × Word)) (nic : SmartNic) : Prop := ∀ c ∈ cfg, Plain c.1 ∧ nic.reg c.1 = c.2

theorem Regs.frame {nic nic' : SmartNic} (h : Regs cfg nic) (hf : HostFrame nic nic') : Regs cfg nic' :=
  fun c hc => ⟨(h c hc).1, (hf.reg _ (h c hc).1.hostReg).trans (h c hc).2⟩

theorem upper_lower (a : Addr) : (upper a).setWidth 64 <<< 32 ||| (lower a).setWidth 64 = a := by
  apply BitVec.eq_of_getLsbD_eq
  intro i hi
  simp only [upper, lower, BitVec.getLsbD_or, BitVec.getLsbD_shiftLeft, BitVec.getLsbD_setWidth,
    BitVec.getLsbD_extractLsb']
  by_cases h : i < 32
  · simp [h, hi]
  · have h1 : i - 32 < 64 := by omega
    have h2 : i - 32 < 32 := by omega
    have h3 : 32 + (i - 32) = i := by omega
    simp [h, hi, h1, h2, h3]

/-- The tail that follows. -/
def next (head : Word) : Word := (head + 1) % BitVec.ofNat 32 SMARTETH_RING_SIZE

/-- Memory when the descriptor at `head` has been given back. -/
def giveBack (ring : Addr) (head : Word) (m : GuestMem) : GuestMem :=
  m.write (DescRing.entryAddr ring head.toNat) (DescRing.entry ring m head.toNat).complete.toBytes

/-- A section of `process_tx` on the memory `m`: it gives back the descriptor at `head`
as the last thing it does, and moves on; or it leaves the ring as it is. -/
def Pass (ring : Addr) (head : Word) (m : GuestMem) (nic : SmartNic) : NicM (SmartNic × Bool) → Prop
  | .ret r => HostFrame nic r.1 ∧ r.1.reg SC_REG_TX_DOORBELL = 1 ∧ r.1.reg SC_REG_TX_TAIL = head
  | .op (.dmaWrite a data) k => m.write a data = giveBack ring head m ∧
      ∃ r, k true = .ret r ∧ Idles (next head) nic r.1
  | .op e k => Pass ring head m nic (k (dmaAnswer m .moved e).1)

/-- One that does give it back. -/
def Sends (ring : Addr) (head : Word) (m : GuestMem) (nic : SmartNic) : NicM (SmartNic × Bool) → Prop
  | .ret _ => False
  | .op (.dmaWrite a data) k => m.write a data = giveBack ring head m ∧
      ∃ r, k true = .ret r ∧ Idles (next head) nic r.1
  | .op e k => Sends ring head m nic (k (dmaAnswer m .moved e).1)

theorem Sends.pass {nic : SmartNic} {p : NicM (SmartNic × Bool)} (h : Sends ring head m nic p) :
    Pass ring head m nic p := by
  induction p with
  | ret r => exact h.elim
  | op e k ih =>
    cases e with
    | dmaWrite a data => exact h
    | dmaRead _ _ | sendIrq _ | transmit _ => exact ih _ h

/-- The NIC with its TX ring at `ring`, the doorbell rung for `head`. -/
structure Ready (ring : Addr) (head : Word) (nic : SmartNic) : Prop where
  bridge : nic.bridge = true
  base : nic.txRingBase = ring
  size : nic.reg SC_REG_TX_RING_SIZE = BitVec.ofNat 32 SMARTETH_RING_SIZE
  doorbell : nic.reg SC_REG_TX_DOORBELL = 1
  tail : nic.reg SC_REG_TX_TAIL = head

theorem Ready.stays {nic : SmartNic} (h : Ready ring head nic) (b : Bool) :
    HostFrame nic { nic with txPending := b } ∧
      SmartNic.reg { nic with txPending := b } SC_REG_TX_DOORBELL = 1 ∧
      SmartNic.reg { nic with txPending := b } SC_REG_TX_TAIL = head :=
  ⟨⟨rfl, rfl, fun _ _ => rfl⟩, h.doorbell, h.tail⟩

theorem Ready.advance {nic : SmartNic} (h : Ready ring head nic) : Idles (next head) nic nic.txAdvance := by
  refine ⟨nic.txAdvance_frame, ?_, ?_⟩
  · rw [txAdvance, reg_setReg_self, h.doorbell]
    rfl
  · rw [txAdvance, reg_setReg_ne (by decide), reg_setReg_self, nextTail, h.tail, h.size]
    rfl

/-- A frame that has been read. -/
theorem Ready.txSend {nic : SmartNic} (h : Ready ring head nic) {addr : Addr} {desc : SmartEthDesc}
    (hback : m.write addr desc.complete.toBytes = giveBack ring head m) (pkt : List Byte) :
    Sends ring head m nic (nic.txSend addr desc pkt >>= fun x => pure (x.1, x.2.isSome)) := by
  have hwrite : Sends ring head m nic ((nic.dmaWriteBridge addr desc.complete.toBytes >>= fun ok =>
      if ok then pure (nic.txAdvance, some (100 + desc.length.toNat / 4 * 2)) else pure (nic, none) :
        NicM (SmartNic × Option Nat)) >>= fun x => pure (x.1, x.2.isSome)) := by
    rw [Prog.bind_assoc, dmaWriteBridge_bind h.bridge]
    exact ⟨hback, _, rfl, h.advance⟩
  rw [SmartNic.txSend]
  split
  · exact hwrite
  · exact hwrite

/-- A pass over the ring that is not stopped finds the descriptor at `head`. -/
theorem Ready.sends {nic : SmartNic} (h : Ready ring head nic)
    (hown : (DescRing.entry ring m head.toNat).own = true) (hp : nic.txPending = true)
    (hr : ¬ (nic.reg SC_REG_TX_RING_SIZE = 0 ∨ nic.reg SC_REG_TX_DOORBELL = 0 ∨ nic.txRingBase = 0)) :
    Sends ring head m nic (nic.processTxIteration >>= fun x => pure (x.1, x.2.isSome)) := by
  have haddr : nic.txDescAddr = DescRing.entryAddr ring head.toNat := by
    rw [txDescAddr, h.base, h.tail]
    exact DescRing.descAddr_eq head
  have hdesc : SmartEthDesc.ofBytes (overlay (List.replicate SmartEthDesc.size 0)
      (m.read nic.txDescAddr (BitVec.ofNat 32 SmartEthDesc.size).toNat)) = DescRing.entry ring m head.toNat := by
    rw [haddr]
    exact DescRing.ofBytes_read_entry m head.toNat
  have hback : m.write nic.txDescAddr (DescRing.entry ring m head.toNat).complete.toBytes = giveBack ring head m := by
    rw [haddr]
    rfl
  have hnown : ¬ (!(DescRing.entry ring m head.toNat).own) = true := by simp [hown]
  rw [processTxIteration_ready hp hr, Prog.bind_assoc, readDesc_bind h.bridge]
  simp only [Sends, dmaAnswer, Option.map_some, hdesc]
  rw [txFetch, if_neg hnown, Prog.bind_assoc, dmaReadBridge_bind h.bridge]
  simp only [Sends, dmaAnswer]
  exact h.txSend hback _

/-- A pass over the ring finds the descriptor at `head`, or none. -/
theorem Ready.txIteration {nic : SmartNic} (h : Ready ring head nic)
    (hown : (DescRing.entry ring m head.toNat).own = true) :
    Pass ring head m nic (nic.processTxIteration >>= fun x => pure (x.1, x.2.isSome)) := by
  by_cases hp : nic.txPending = true
  swap
  · rw [processTxIteration_idle hp]
    exact h.stays nic.txPending
  by_cases hr : nic.reg SC_REG_TX_RING_SIZE = 0 ∨ nic.reg SC_REG_TX_DOORBELL = 0 ∨ nic.txRingBase = 0
  · rw [processTxIteration_stopped hp hr]
    exact h.stays false
  · exact (h.sends hown hp hr).pass

theorem Ready.txDone {nic : SmartNic} (h : Ready ring head nic) :
    Pass ring head m nic (nic.processTxDone >>= fun n => pure (n, false)) := by
  have hset : ∀ v, HostFrame nic (nic.setReg SC_REG_IRQ_STS v) ∧
      (nic.setReg SC_REG_IRQ_STS v).reg SC_REG_TX_DOORBELL = 1 ∧
      (nic.setReg SC_REG_IRQ_STS v).reg SC_REG_TX_TAIL = head := fun v =>
    ⟨(HostFrame.refl nic).setReg (by decide) v, (reg_setReg_ne (by decide)).trans h.doorbell,
      (reg_setReg_ne (by decide)).trans h.tail⟩
  rw [processTxDone]
  split
  · rw [raiseIrq]
    split
    · exact hset _
    · exact hset _
  · exact h.stays nic.txPending

/-- The descriptor has been given back; then the NIC has moved on. -/
inductive Gone (ring : Addr) (head : Word) (m : GuestMem) (s : DriverNic) : Prop
  | given (mem : s.mem = giveBack ring head m) (posted : s.posted = []) (regs : Regs (ringCfg ring) s.nic)
      (bridge : s.nic.bridge = true) {th : NicThread} {r : SmartNic × Bool}
      (sect : s.sect = some ⟨th, .ret r⟩) (idles : Idles (next head) s.nic r.1)
  | done (calm : Calm (next head) (ringCfg ring) (giveBack ring head m) s) (posted : s.posted = [])

/-- From the driver's doorbell on: it is on its way; the NIC has it, and a pass may be
under way; the descriptor is no longer the NIC's. -/
inductive Rung (ring : Addr) (head : Word) (m : GuestMem) (s : DriverNic) : Prop
  | flight (still : Still head m s) (posted : s.posted = [(REG_TX_DOORBELL, 1)]) (regs : Regs (ringCfg ring) s.nic)
  | rung (mem : s.mem = m) (posted : s.posted = []) (regs : Regs (ringCfg ring) s.nic) (ready : Ready ring head s.nic)
      (sect : ∀ x, s.sect = some x → Pass ring head m s.nic x.rest)
  | gone (gone : Gone ring head m s)

theorem Regs.ready {nic : SmartNic} (h : Regs (ringCfg ring) nic) (hb : nic.bridge = true)
    (hd : nic.reg SC_REG_TX_DOORBELL = 1) (ht : nic.reg SC_REG_TX_TAIL = head) : Ready ring head nic := by
  have hlo := (h _ List.mem_cons_self).2
  have hhi := (h _ (List.mem_cons_of_mem _ List.mem_cons_self)).2
  have hsize := (h _ (List.mem_cons_of_mem _ (List.mem_cons_of_mem _ List.mem_cons_self))).2
  refine ⟨hb, ?_, hsize, hd, ht⟩
  rw [txRingBase, show nic.reg SC_REG_TX_RING_BASE_HI = upper ring from hhi,
    show nic.reg SC_REG_TX_RING_BASE_LO = lower ring from hlo]
  exact upper_lower ring

/-- The NIC handles the doorbell. -/
theorem onMmioWrite_doorbell (nic : SmartNic) : (nic.onMmioWrite REG_TX_DOORBELL 1).1 =
    { nic.setReg SC_REG_TX_DOORBELL 1 with txPending := true } := by
  rw [onMmioWrite_fst]
  dsimp only
  rw [if_neg (by decide), decide_eq_true (by decide), Bool.or_true]
  rfl

theorem Gone.env {e : DriverEvent} (h : Gone ring head m s) (hok : TxEvent s e) (he : s.env e = some t) :
    Gone ring head m t := by
  cases h with
  | @given mem posted regs bridge th₀ r sect idles =>
    have henter : ∀ {th p}, ¬ s.enter th p = some t := by
      intro th p hen
      cases (enter_eq hen).1.symm.trans sect
    cases e with
    | handle =>
      obtain ⟨hs, -⟩ := env_handle he
      cases hs.symm.trans sect
    | signal =>
      cases he
      exact .given mem posted regs bridge sect idles
    | packet _ | dmaCheck | processDma => exact hok.elim
    | txWake =>
      simp only [DriverNic.env, Option.ite_none_right_eq_some, Option.some.injEq] at he
      obtain ⟨-, rfl⟩ := he
      exact .given mem posted regs bridge sect idles
    | txIteration | txDone =>
      simp only [DriverNic.env, Option.ite_none_right_eq_some] at he
      exact (henter he.2).elim
    | nicOp r =>
      obtain ⟨th, e, k, hs, -⟩ := env_nicOp he
      cases hs.symm.trans sect
    | nicEnd =>
      obtain ⟨th, nic, again, hs, rfl⟩ := env_nicEnd he
      cases hs.symm.trans sect
      have hregs := regs.frame idles.frame
      refine .done ⟨⟨mem, idles.frame.bridge.trans bridge, ⟨.refl _, idles.doorbell, idles.tail⟩, fun x hx => ?_⟩,
        fun w hw => ?_, fun c hc => ⟨(hregs c hc).1, ?_⟩⟩ posted
      · cases hx
      · rw [show s.posted = [] from posted] at hw
        cases hw
      · rw [settled, show s.posted = [] from posted]
        exact (hregs c hc).2
  | done calm posted =>
    refine .done (calm.env hok he) ?_
    by_cases hne : e = .handle
    · subst hne
      obtain ⟨-, w, rest, hp, -⟩ := env_handle he
      cases posted.symm.trans hp
    · exact (calm.toStill.env hok hne he).2.1.trans posted

theorem Rung.env {e : DriverEvent} (hown : (DescRing.entry ring m head.toNat).own = true) (h : Rung ring head m s)
    (hok : TxEvent s e) (he : s.env e = some t) : Rung ring head m t := by
  cases h with
  | flight still posted regs =>
    by_cases hne : e = .handle
    · subst hne
      obtain ⟨hs, w, rest, hp, rfl⟩ := env_handle he
      obtain ⟨rfl, rfl⟩ := List.cons.inj (posted.symm.trans hp)
      have hf : HostFrame s.nic (s.nic.onMmioWrite REG_TX_DOORBELL 1).1 := by
        rw [onMmioWrite_doorbell]
        exact ((HostFrame.refl s.nic).setReg (b := SC_REG_TX_DOORBELL) (by decide) 1).trans ⟨rfl, rfl, fun _ _ => rfl⟩
      have hregs := regs.frame hf
      refine .rung still.mem rfl hregs (hregs.ready (hf.bridge.trans still.bridge) ?_ ?_) fun x hx => ?_
      · rw [onMmioWrite_doorbell]
        exact reg_setReg_self _ _ _
      · rw [onMmioWrite_doorbell]
        exact (reg_setReg_ne (by decide)).trans still.idles.tail
      · cases hs.symm.trans hx
    · obtain ⟨hst, hp, hf⟩ := still.env hok hne he
      exact .flight hst (hp.trans posted) (regs.frame hf)
  | rung mem posted regs ready sect =>
    have henter : ∀ {th p}, s.enter th p = some t → Pass ring head m s.nic p → Rung ring head m t := by
      intro th p hen hp
      obtain ⟨-, rfl⟩ := enter_eq hen
      refine .rung mem posted regs ready fun x hx => ?_
      cases hx
      exact hp
    cases e with
    | handle =>
      obtain ⟨-, w, rest, hp, -⟩ := env_handle he
      cases posted.symm.trans hp
    | signal =>
      cases he
      exact .rung mem posted regs ready sect
    | packet _ | dmaCheck | processDma => exact hok.elim
    | txWake =>
      simp only [DriverNic.env, Option.ite_none_right_eq_some, Option.some.injEq] at he
      obtain ⟨-, rfl⟩ := he
      exact .rung mem posted regs ready sect
    | txIteration =>
      simp only [DriverNic.env, Option.ite_none_right_eq_some] at he
      exact henter he.2 (ready.txIteration hown)
    | txDone =>
      simp only [DriverNic.env, Option.ite_none_right_eq_some] at he
      exact henter he.2 ready.txDone
    | nicOp r =>
      obtain rfl : r = .moved := hok
      obtain ⟨th, e, k, hs, rfl⟩ := env_nicOp he
      have hpass := sect _ hs
      cases e with
      | dmaWrite a data =>
        obtain ⟨hb, r, hk, hi⟩ := hpass
        have hs' : some (NicSect.mk th (k true)) = some ⟨th, .ret r⟩ := by rw [hk]
        refine .gone (.given ?_ posted regs ready.bridge hs' hi)
        exact (congrArg (·.write a data) mem).trans hb
      | dmaRead _ _ | sendIrq _ | transmit _ =>
        refine .rung mem posted regs ready fun x hx => ?_
        cases hx
        rw [mem]
        exact hpass
    | nicEnd =>
      obtain ⟨th, nic, again, hs, rfl⟩ := env_nicEnd he
      obtain ⟨hf, hd, ht⟩ : _ ∧ _ ∧ _ := sect _ hs
      have hregs := regs.frame hf
      refine .rung mem posted hregs (hregs.ready (hf.bridge.trans ready.bridge) hd ht) fun x hx => ?_
      cases hx
  | gone gone => exact .gone (gone.env hok he)

end SmartEth.DriverNic
