import SmartEth.Proof.LoopBack
import SmartEth.Proof.Sections

/-!
# What the NIC has of the driver's memory

The NIC has the rings that its registers name, and the buffer of the test that runs: none, that
of a frame, or that of a transfer (`Phase`). Each step of the NIC keeps this, and with it the
confinement of its DMA, as long as a frame that it takes in finds the RX ring live, and reads bring what
is in memory (`At.env`).
-/

namespace SmartEth.DriverNic.Confined

open SmartEthMain SmartNic

variable {s t : DriverNic} {nic : SmartNic}

/-! ## The invariant -/

/-- A register write that starts nothing. -/
def Mild (w : Addr × Word) : Prop :=
  (Plain w.1 ∧
    (w.1 = SC_REG_TX_RING_SIZE ∨ w.1 = SC_REG_RX_RING_SIZE → w.2 = BitVec.ofNat 32 SMARTETH_RING_SIZE)) ∨
    w.1 = SC_REG_IRQ_TEST

theorem Mild.ordinary {w : Addr × Word} (h : Mild w) : Ordinary w := by
  rcases h with ⟨h, -⟩ | h
  · exact h.ordinary
  · exact ⟨by rw [h]; decide, fun hr => absurd (h.symm.trans hr.1) (by decide)⟩

/-- What the NIC makes of such a write. -/
structure Handled (nic nic' : SmartNic) : Prop where
  core : Core nic'
  doorbell : nic'.reg SC_REG_TX_DOORBELL = nic.reg SC_REG_TX_DOORBELL
  dma : nic'.dma = nic.dma
  pending : nic'.dmaPending = nic.dmaPending

theorem Mild.handled {w : Addr × Word} (hw : Mild w) (h : Core nic) : Handled nic (nic.onMmioWrite w.1 w.2).1 := by
  rcases hw with ⟨hp, hsize⟩ | hirq
  · rw [hp.onMmioWrite]
    have hset : ∀ {b}, b &&& 3 = 0 → (nic.setReg w.1 w.2).reg b = if w.1 = b then w.2 else nic.reg b := by
      intro b hb
      by_cases hwb : w.1 = b
      · rw [if_pos hwb, ← hwb, reg_setReg_self]
      · rw [if_neg hwb]
        exact reg_setReg_ne fun he => hwb ((shift_inj hb hp.1).mp he).symm
    refine ⟨⟨h.bridge, h.busy, ?_, ?_, ?_, ?_⟩, ?_, rfl, rfl⟩
    · rw [hset (by decide)]
      split
      · exact .inr (hsize (.inl ‹_›))
      · exact h.txSize
    · rw [hset (by decide)]
      split
      · exact .inr (hsize (.inr ‹_›))
      · exact h.rxSize
    · rw [hset (by decide), if_neg (hp.ne (by decide))]
      exact h.txTail
    · rw [hset (by decide), if_neg (hp.ne (by decide))]
      exact h.rxTail
    · rw [hset (by decide), if_neg (hp.ne (by decide))]
  · have hregs : (nic.regs.write w.1 w.2).1 = nic.regs ∨
        ∃ v, (nic.regs.write w.1 w.2).1 = nic.regs.setReg (SC_REG_IRQ_STS >>> 2) v := by
      rw [hirq, RegBlock.write_of_not_reset _ fun hr => absurd hr.1 (by decide), if_neg (by decide),
        if_neg (by decide), if_pos rfl]
      split
      · exact .inl rfl
      · exact .inr ⟨_, rfl⟩
    have hn : (nic.onMmioWrite w.1 w.2).1 = { nic with regs := (nic.regs.write w.1 w.2).1 } := by
      rw [onMmioWrite_fst, hirq]
      dsimp only
      rw [if_neg fun hd => absurd hd.1 (by decide), decide_eq_false fun hd => absurd hd.1 (by decide), Bool.or_false]
    rcases hregs with hr | ⟨v, hr⟩
    · rw [hn, hr]
      exact ⟨h, rfl, rfl, rfl⟩
    · rw [hn, hr]
      exact ⟨h.setReg (core_regs_ne (by decide)) v, reg_setReg_ne (by decide), rfl, rfl⟩

/-- What the NIC has of the test that runs. -/
inductive Phase where
  | idle
  | tx (ring : Addr) (head : Nat) (buf : Addr)
  | dma (buf : Addr)

/-- The memory that the NIC may touch for it. -/
def Phase.lim : Phase → List (Region 64)
  | .idle => []
  | .tx ring _ buf => [txRingRegion ring, ⟨buf, 256⟩]
  | .dma buf => [⟨buf, 256⟩]

/-- The start of a transfer is on its way, or handled. -/
def Started (buf : Addr) (s : DriverNic) : Prop :=
  (∃ ws, s.posted = ws ++ [(REG_DMA_CTRL, DMA_START ||| DMA_IRQ_EN)] ∧ (∀ w ∈ ws, Mild w) ∧
    s.nic.dmaPending = false ∧ s.settled REG_DMA_SRC = lower buf ∧ s.settled REG_DMA_LEN = 256) ∨
  s.posted = [] ∧ (s.nic.dmaPending = true → Latched buf s.nic)

def Link (s : DriverNic) : Phase → Prop
  | .idle => (∀ w ∈ s.posted, Mild w) ∧ s.nic.reg SC_REG_TX_DOORBELL = 0 ∧ s.nic.dmaPending = false
  | .tx ring head buf => (∀ w ∈ s.posted, w = (REG_TX_DOORBELL, 1)) ∧ Regs (ringCfg ring) s.nic ∧
      TxGood ring head buf s.mem ∧ s.nic.dmaPending = false
  | .dma buf => s.nic.reg SC_REG_TX_DOORBELL = 0 ∧ buf.toNat < 2 ^ 32 ∧ Started buf s

/-- The rest of a section. -/
inductive SectOk (p : Phase) (nic : SmartNic) (adapter : Option Adapter) (mapped : List (Region 64)) :
    NicSect → Prop
  | still {th : NicThread} {q : NicM (SmartNic × Bool)} (thread : th ≠ .dma)
      (rest : q.Does NoDma fun r => Ends th nic r.1 ∧ r.1.reg SC_REG_TX_DOORBELL = nic.reg SC_REG_TX_DOORBELL) :
      SectOk p nic adapter mapped ⟨th, q⟩
  | rx {a : Adapter} {q : NicM (SmartNic × Bool)} (holds : adapter = some a)
      (live : ∀ r ∈ rxRegions a, r ∈ mapped)
      (rest : Confines (rxRegions a) (RxGood a) (Ends .rx nic) q) : SectOk p nic adapter mapped ⟨.rx, q⟩
  | tx {ring buf : Addr} {head : Nat} {q : NicM (SmartNic × Bool)} (phase : p = .tx ring head buf)
      (rung : nic.reg SC_REG_TX_DOORBELL ≠ 0)
      (rest : Confines p.lim (TxGood ring head buf) (Ends .tx nic) q) : SectOk p nic adapter mapped ⟨.tx, q⟩
  | dma {buf : Addr} {q : NicM (SmartNic × Bool)} (phase : p = .dma buf) (pending : nic.dmaPending = true)
      (rest : Confines p.lim (fun _ => True) (Ends .dma nic) q) : SectOk p nic adapter mapped ⟨.dma, q⟩

/-- The registers of the RX ring's address. -/
def rxCfg (ring : Addr) : List (Addr × Word) :=
  [(REG_RX_RING_BASE_LO, lower ring), (REG_RX_RING_BASE_HI, upper ring)]

/-- What a call knows between two of its operations. -/
structure View extends DriverNic.View where
  call : Option DriverCall
  /-- What it knows not to be mapped. -/
  gone : List (Region 64)
  /-- The memory whose contents it knows. -/
  own : List (Region 64)
  phase : Phase

/-- The NIC does not touch what the call knows, and not the RX ring for a test; and except in `smarteth_remove` the RX
ring is set up, and mapped with its buffers. -/
structure View.Ok (v : View) : Prop where
  own : ∀ o ∈ v.own, o ∈ v.mapped ∧ o ∉ v.phase.lim ∧ ∀ a, v.adapter = some a → o ∉ rxRegions a
  lim : ∀ r ∈ v.phase.lim, r ∈ v.mapped ∧ ∀ a, v.adapter = some a → r ∉ rxRegions a
  ring : v.phase.lim ≠ [] → ∀ a, v.adapter = some a → txRingRegion a.rxRing ∈ v.mapped
  rx : v.call ≠ some .remove → ∀ a, v.adapter = some a →
    (∀ c ∈ rxCfg a.rxRing, c ∈ v.cfg) ∧ ∀ r ∈ rxRegions a, r ∈ v.mapped

structure At (v : View) (s : DriverNic) : Prop where
  ok : v.Ok
  core : Core s.nic
  confined : s.confined = true
  adapter : s.adapter = v.adapter
  call : s.call = v.call
  mapped : ∀ r ∈ v.mapped, r ∈ s.mapped
  gone : ∀ r ∈ v.gone, r ∉ s.mapped
  apart : s.mapped.Pairwise Region.Disjoint
  mem : ∀ o ∈ v.own, ∀ x ∈ o, s.mem x = v.mem x
  rxGood : ∀ a, v.adapter = some a → RxGood a s.mem
  settled : ∀ c ∈ v.cfg, Plain c.1 ∧ s.settled c.1 = c.2
  quiet : v.quiet → s.posted = []
  link : Link s v.phase
  checked : s.dmaChecked = true → s.nic.dmaPending = true ∧ ∀ x, s.sect = some x → x.thread ≠ .dma
  sect : ∀ x, s.sect = some x → SectOk v.phase s.nic s.adapter s.mapped x

variable {v : View}

/-! ### Steps of the NIC -/

/-- The next operation of a section within `lim`. -/
theorem nicOp_within {lim : List (Region 64)} {G : GuestMem → Prop} {R : SmartNic → Prop} {e : NicOp}
    {k : e.Res → NicM (SmartNic × Bool)} (h : Confines lim G R (.op e k)) (hsub : ∀ r ∈ lim, r ∈ s.mapped)
    (hG : G s.mem) {r : DmaEnd} (hok : r.Right e) :
    (∀ r ∈ e.region, Within s.mapped r) ∧ G (dmaAnswer s.mem r e).2 ∧
      Confines lim G R (k (dmaAnswer s.mem r e).1) ∧
      ∀ x, (∀ r ∈ lim, x ∉ r) → (dmaAnswer s.mem r e).2 x = s.mem x := by
  obtain ⟨hr, hk⟩ := h
  refine ⟨fun r hr' => ?_, (hk _ hG r hok).1, (hk _ hG r hok).2, fun x hx => ?_⟩
  · rcases hr r hr' with h0 | ⟨m, hm, hle⟩
    · exact .inl h0
    · exact .inr ⟨m, hsub m hm, hle⟩
  · cases e with
    | dmaRead _ _ => cases r <;> rfl
    | sendIrq _ | transmit _ => rfl
    | dmaWrite a data =>
      cases r with
      | failed | other _ => rfl
      | moved =>
        refine Mem.write_of_notMem fun hmem => ?_
        obtain ⟨m, hm, hxm⟩ := (hr _ rfl).mem hmem
        exact hx m hm hxm

theorem setWidth_lower {a : Addr} (h : a.toNat < 2 ^ 32) : (lower a).setWidth 64 = a := by
  apply BitVec.eq_of_toNat_eq
  rw [lower, BitVec.toNat_setWidth, BitVec.extractLsb'_toNat, Nat.shiftRight_zero, Nat.mod_eq_of_lt h]
  exact Nat.mod_eq_of_lt (lt_trans h (by decide))

/-- The NIC handles the start of a transfer. -/
theorem startDma_latched {buf : Addr} (h : Core nic) (hlt : buf.toNat < 2 ^ 32)
    (hsrc : nic.reg REG_DMA_SRC = lower buf) (hlen : nic.reg REG_DMA_LEN = 256) :
    let nic' := (nic.onMmioWrite REG_DMA_CTRL (DMA_START ||| DMA_IRQ_EN)).1
    Core nic' ∧ Latched buf nic' ∧ nic'.reg SC_REG_TX_DOORBELL = nic.reg SC_REG_TX_DOORBELL ∧
      nic'.dmaPending = true := by
  intro nic'
  have hn : nic' = (nic.setReg SC_REG_DMA_CTRL (DMA_START ||| DMA_IRQ_EN)).startDma (DMA_START ||| DMA_IRQ_EN) :=
    LoopBack.onMmioWrite_start nic (by decide)
  have hcore := (h.setReg (core_regs_ne (b := SC_REG_DMA_CTRL) (by decide)) (DMA_START ||| DMA_IRQ_EN)).setReg
    (core_regs_ne (b := SC_REG_DMA_STS) (by decide)) SC_STATUS_DMA_BSY
  have hreg : ∀ {a : Addr} {v : Word}, a >>> 2 ≠ SC_REG_DMA_CTRL >>> 2 →
      (nic.setReg SC_REG_DMA_CTRL v).reg a = nic.reg a := fun ha => reg_setReg_ne ha
  rw [hn]
  refine ⟨⟨hcore.bridge, hcore.busy, hcore.txSize, hcore.rxSize, hcore.txTail, hcore.rxTail⟩, ⟨?_, ?_, ?_⟩, ?_,
    rfl⟩
  · show ((nic.setReg SC_REG_DMA_CTRL _).reg SC_REG_DMA_SRC).setWidth 64 = buf
    rw [hreg (by decide)]
    exact (congrArg (BitVec.setWidth 64) hsrc).trans (setWidth_lower hlt)
  · show DmaEngine.clampLen ((nic.setReg SC_REG_DMA_CTRL _).reg SC_REG_DMA_LEN) = 256
    rw [hreg (by decide)]
    exact congrArg DmaEngine.clampLen hlen
  · rfl
  · exact (reg_setReg_ne (by decide)).trans (hreg (by decide))

/-- The NIC handles a register write. -/
theorem At.handle_nic {w : Addr × Word} {rest : List (Addr × Word)} (h : At v s) (hp : s.posted = w :: rest) :
    Ordinary w ∧ Core (s.nic.onMmioWrite w.1 w.2).1 ∧
      (s.nic.dmaPending = true → (s.nic.onMmioWrite w.1 w.2).1.dmaPending = true) ∧
      Link { s with nic := (s.nic.onMmioWrite w.1 w.2).1, posted := rest } v.phase := by
  have hmem : w ∈ s.posted := hp ▸ List.mem_cons_self
  have hrest : ∀ x ∈ rest, x ∈ s.posted := fun x hx => hp ▸ List.mem_cons_of_mem _ hx
  have hl := h.link
  cases hph : v.phase with
  | idle =>
    rw [hph] at hl
    obtain ⟨hmild, hdb, hpend⟩ := hl
    have hw := (hmild w hmem).handled h.core
    exact ⟨(hmild w hmem).ordinary, hw.core, fun hd => hw.pending.trans hd,
      fun x hx => hmild x (hrest x hx), hw.doorbell.trans hdb, hw.pending.trans hpend⟩
  | tx ring head buf =>
    rw [hph] at hl
    obtain ⟨hdb, hregs, hgood, hpend⟩ := hl
    obtain rfl := hdb w hmem
    rw [onMmioWrite_doorbell]
    have hcore := h.core.setReg (core_regs_ne (b := SC_REG_TX_DOORBELL) (by decide)) 1
    refine ⟨⟨by decide, fun hr => absurd hr.1 (by decide)⟩,
      ⟨hcore.bridge, hcore.busy, hcore.txSize, hcore.rxSize, hcore.txTail, hcore.rxTail⟩, id,
      fun x hx => hdb x (hrest x hx), fun c hc => ⟨(hregs c hc).1, ?_⟩, hgood, hpend⟩
    exact (reg_setReg_ne ((hregs c hc).1.index_ne (by decide))).trans (hregs c hc).2
  | dma buf =>
    rw [hph] at hl
    obtain ⟨hdb, hlt, ⟨ws, hws, hmild, hpend, hsrc, hlen⟩ | ⟨hnil, -⟩⟩ := hl
    · cases ws with
      | nil =>
        obtain ⟨rfl, rfl⟩ := List.cons.inj (hp.symm.trans hws)
        rw [DriverNic.settled, hp, lastWritten_singleton, if_neg (by decide)] at hsrc hlen
        obtain ⟨hcore, hlatched, hdb', hpend'⟩ := startDma_latched h.core hlt hsrc hlen
        exact ⟨⟨by decide, fun hr => absurd hr.1 (by decide)⟩, hcore, fun _ => hpend', hdb'.trans hdb, hlt,
          .inr ⟨rfl, fun _ => hlatched⟩⟩
      | cons w' ws =>
        obtain ⟨rfl, hrest'⟩ := List.cons.inj (hp.symm.trans hws)
        have hw := (hmild w List.mem_cons_self).handled h.core
        have hord := (hmild w List.mem_cons_self).ordinary
        refine ⟨hord, hw.core, fun hd => hw.pending.trans hd, hw.doorbell.trans hdb, hlt, .inl ⟨ws, hrest',
          fun x hx => hmild x (List.mem_cons_of_mem _ hx), hw.pending.trans hpend, ?_, ?_⟩⟩
        · exact (settled_handle (by decide) hp hord).trans hsrc
        · exact (settled_handle (by decide) hp hord).trans hlen
    · cases hp.symm.trans hnil

theorem At.env_handle (h : At v s) (he : s.env .handle = some t) : At v t := by
  obtain ⟨hs, w, rest, hp, rfl⟩ := DriverNic.env_handle he
  obtain ⟨hord, hcore, hpend, hlink⟩ := h.handle_nic hp
  refine { h with
    core := hcore
    settled := fun c hc => ?_
    quiet := fun hq => ?_
    link := hlink
    checked := fun hd => ⟨hpend (h.checked hd).1, (h.checked hd).2⟩
    sect := fun x hx => ?_ }
  · obtain ⟨hc', hv⟩ := h.settled c hc
    exact ⟨hc', (settled_handle hc' hp hord).trans hv⟩
  · cases hp.symm.trans (h.quiet hq)
  · cases hs.symm.trans hx

/-- A section starts. -/
theorem At.enter {th : NicThread} {p : NicM (SmartNic × Bool)} (h : At v s) (he : s.enter th p = some t)
    (hth : th = .dma → s.dmaChecked = false) (hp : SectOk v.phase s.nic s.adapter s.mapped ⟨th, p⟩) : At v t := by
  obtain ⟨hs, rfl⟩ := enter_eq he
  refine { h with checked := fun hd => ⟨(h.checked hd).1, fun x hx => ?_⟩, sect := fun x hx => ?_ }
  · cases hx
    intro hdma
    rw [hth hdma] at hd
    cases hd
  · cases hx
    exact hp

/-- The ring that the NIC takes a frame into is the driver's, which holds it and its buffers. -/
theorem At.rxLive (h : At v s) (hl : RxLive s) :
    ∃ a, s.adapter = some a ∧ s.nic.rxRingBase = a.rxRing ∧ ∀ r ∈ rxRegions a, r ∈ s.mapped := by
  obtain ⟨hsome, hcall, hposted⟩ := hl
  obtain ⟨a, ha⟩ := Option.isSome_iff_exists.mp hsome
  obtain ⟨hcfg, hmapped⟩ := h.ok.rx (h.call ▸ hcall) a (h.adapter.symm.trans ha)
  have hlo : s.nic.reg SC_REG_RX_RING_BASE_LO = lower a.rxRing :=
    (settled_of_ne fun w hw => (hposted w hw).1).symm.trans (h.settled _ (hcfg _ List.mem_cons_self)).2
  have hhi : s.nic.reg SC_REG_RX_RING_BASE_HI = upper a.rxRing :=
    (settled_of_ne fun w hw => (hposted w hw).2).symm.trans
      (h.settled _ (hcfg _ (List.mem_cons_of_mem _ List.mem_cons_self))).2
  refine ⟨a, ha, ?_, fun r hr => h.mapped r (hmapped r hr)⟩
  rw [rxRingBase, hlo, hhi]
  exact upper_lower a.rxRing

theorem At.env_packet {data : List Byte} (h : At v s) (hok : Takes s.nic data → RxLive s)
    (he : s.env (.packet data) = some t) : At v t := by
  refine h.enter he (fun hth => by cases hth) ?_
  by_cases ht : Takes s.nic data
  · obtain ⟨a, ha, hbase, hlive⟩ := h.rxLive (hok ht)
    refine .rx ha hlive (rx_confines h.core data hbase fun dma hdma => ?_)
    refine pairwise_disjoint h.apart (hlive _ (List.mem_cons_of_mem _ (List.mem_map_of_mem hdma)))
      (hlive _ List.mem_cons_self) fun heq => ?_
    have hlen : SMARTETH_RX_BUF_SIZE ≠ RING_BYTES := by decide
    exact hlen (congrArg Region.len heq)
  · exact .still (by decide) ((rx_drops h.core ht).mono fun r hr => ⟨hr, hr.doorbell (by decide)⟩)

theorem At.env_dma (h : At v s) (he : s.env .processDma = some t) : At v t := by
  simp only [DriverNic.env, Option.ite_none_right_eq_some] at he
  obtain ⟨hd, he⟩ := he
  obtain ⟨hpend, -⟩ := h.checked hd
  have ht : At v { s with dmaChecked := false } := { h with checked := fun hd => by cases hd }
  refine ht.enter he (fun _ => rfl) ?_
  have hl := h.link
  cases hph : v.phase with
  | idle =>
    rw [hph] at hl
    cases hpend.symm.trans hl.2.2
  | tx ring head buf =>
    rw [hph] at hl
    cases hpend.symm.trans hl.2.2.2
  | dma buf =>
    rw [hph] at hl
    obtain ⟨-, -, ⟨ws, -, -, hnone, -⟩ | ⟨-, hlatched⟩⟩ := hl
    · cases hpend.symm.trans hnone
    · exact .dma rfl hpend (dma_confines h.core (hlatched hpend))

theorem At.env_tx (h : At v s) (he : s.env .txIteration = some t) : At v t := by
  simp only [DriverNic.env, Option.ite_none_right_eq_some] at he
  refine h.enter he.2 (fun hth => by cases hth) ?_
  by_cases hdb : s.nic.reg SC_REG_TX_DOORBELL = 0
  · exact .still (by decide) ((tx_idles h.core hdb).mono fun r hr => ⟨hr.1, hr.2.trans hdb.symm⟩)
  · have hl := h.link
    cases hph : v.phase with
    | idle =>
      rw [hph] at hl
      exact absurd hl.2.1 hdb
    | tx ring head buf =>
      rw [hph] at hl
      exact .tx rfl hdb (tx_confines h.core hl.2.1)
    | dma buf =>
      rw [hph] at hl
      exact absurd hl.1 hdb

/-- The next operation of a section, from what it leaves of memory. -/
theorem At.nicOp_of {th : NicThread} {e : NicOp} {k : e.Res → NicM (SmartNic × Bool)} {r : DmaEnd} (h : At v s)
    (hs : s.sect = some ⟨th, .op e k⟩) (hin : ∀ r ∈ e.region, Within s.mapped r)
    (hmem : ∀ o ∈ v.own, ∀ x ∈ o, (dmaAnswer s.mem r e).2 x = s.mem x)
    (hrx : ∀ a, v.adapter = some a → RxGood a (dmaAnswer s.mem r e).2)
    (htx : ∀ ring head buf, v.phase = .tx ring head buf → TxGood ring head buf (dmaAnswer s.mem r e).2)
    (hsect : SectOk v.phase s.nic s.adapter s.mapped ⟨th, k (dmaAnswer s.mem r e).1⟩) :
    At v { s with
      mem := (dmaAnswer s.mem r e).2
      sect := some ⟨th, k (dmaAnswer s.mem r e).1⟩
      confined := s.confined && decide (∀ r ∈ e.region, Within s.mapped r) } := by
  have hl := h.link
  refine { h with
    confined := ?_
    mem := fun o ho x hx => (hmem o ho x hx).trans (h.mem o ho x hx)
    rxGood := hrx
    link := ?_
    checked := fun hd => ⟨(h.checked hd).1, fun x hx => ?_⟩
    sect := fun x hx => ?_ }
  · rw [h.confined, decide_eq_true hin, Bool.and_self]
  · cases hph : v.phase with
    | idle =>
      rw [hph] at hl
      exact hl
    | tx ring head buf =>
      rw [hph] at hl
      exact ⟨hl.1, hl.2.1, htx ring head buf hph, hl.2.2.2⟩
    | dma buf =>
      rw [hph] at hl
      exact hl
  · obtain rfl := Option.some.inj hx
    exact (h.checked hd).2 ⟨th, .op e k⟩ hs
  · cases hx
    exact hsect

/-- The next operation of a section. -/
theorem At.env_nicOp {r : DmaEnd} (h : At v s) (hok : ∀ th e k, s.sect = some ⟨th, .op e k⟩ → r.Right e)
    (he : s.env (.nicOp r) = some t) : At v t := by
  obtain ⟨th, e, k, hs, rfl⟩ := DriverNic.env_nicOp he
  have hright := hok _ _ _ hs
  have hl := h.link
  have hgood : ∀ ring head buf, v.phase = .tx ring head buf → TxGood ring head buf s.mem := by
    intro ring head buf hph
    rw [hph] at hl
    exact hl.2.2.1
  -- what is mapped apart from the section's ranges is left alone
  have hout : ∀ {lim : List (Region 64)} {m' : GuestMem}, (∀ r ∈ lim, r ∈ s.mapped) →
      (∀ x, (∀ r ∈ lim, x ∉ r) → m' x = s.mem x) → ∀ o ∈ v.mapped, o ∉ lim → ∀ x ∈ o, m' x = s.mem x :=
    fun hsub hm' o ho hno x hx => hm' x fun r hr hxr =>
      pairwise_disjoint h.apart (hsub r hr) (h.mapped o ho) (fun heq => hno (heq ▸ hr)) x hxr hx
  have hrxlim : v.phase.lim ≠ [] → ∀ a, v.adapter = some a →
      txRingRegion a.rxRing ∈ v.mapped ∧ txRingRegion a.rxRing ∉ v.phase.lim := fun hne a ha =>
    ⟨h.ok.ring hne a ha, fun hmem => (h.ok.lim _ hmem).2 a ha List.mem_cons_self⟩
  cases h.sect _ hs with
  | still thread rest =>
    obtain ⟨hdma, hk⟩ := rest
    have hm := dmaAnswer_noDma hdma s.mem r
    refine h.nicOp_of hs (fun r hr => ?_) (fun o _ x _ => congrFun hm x) (fun a ha => hm.symm ▸ h.rxGood a ha)
      (fun ring head buf hph => hm.symm ▸ hgood ring head buf hph) (.still thread (hk _))
    cases hdma.symm.trans hr
  | @rx a q holds live rest =>
    have ha : v.adapter = some a := h.adapter.symm.trans holds
    obtain ⟨hin, hG, hk, hm'⟩ := nicOp_within rest live (h.rxGood a ha) hright
    refine h.nicOp_of hs hin (fun o ho => hout live hm' o (h.ok.own o ho).1 ((h.ok.own o ho).2.2 a ha))
      (fun b hb => ?_) (fun ring head buf hph => ?_) (.rx holds live hk)
    · cases ha.symm.trans hb
      exact hG
    · have hmem : txRingRegion ring ∈ v.phase.lim := by
        rw [hph]
        exact List.mem_cons_self
      exact (hgood ring head buf hph).congr (hout live hm' _ (h.ok.lim _ hmem).1 ((h.ok.lim _ hmem).2 a ha))
  | @tx ring buf head q phase rung rest =>
    have hsub : ∀ r ∈ v.phase.lim, r ∈ s.mapped := fun r hr => h.mapped r (h.ok.lim r hr).1
    obtain ⟨hin, hG, hk, hm'⟩ := nicOp_within rest hsub (hgood ring head buf phase) hright
    have hne : v.phase.lim ≠ [] := by
      rw [phase]
      exact List.cons_ne_nil _ _
    refine h.nicOp_of hs hin (fun o ho => hout hsub hm' o (h.ok.own o ho).1 (h.ok.own o ho).2.1) (fun a ha => ?_)
      (fun ring' head' buf' hph => ?_) (.tx phase rung hk)
    · exact (h.rxGood a ha).congr (hout hsub hm' _ (hrxlim hne a ha).1 (hrxlim hne a ha).2)
    · cases phase.symm.trans hph
      exact hG
  | @dma buf q phase pending rest =>
    have hsub : ∀ r ∈ v.phase.lim, r ∈ s.mapped := fun r hr => h.mapped r (h.ok.lim r hr).1
    obtain ⟨hin, -, hk, hm'⟩ := nicOp_within rest hsub trivial hright
    have hne : v.phase.lim ≠ [] := by
      rw [phase]
      exact List.cons_ne_nil _ _
    refine h.nicOp_of hs hin (fun o ho => hout hsub hm' o (h.ok.own o ho).1 (h.ok.own o ho).2.1) (fun a ha => ?_)
      (fun ring' head' buf' hph => ?_) (.dma phase pending hk)
    · exact (h.rxGood a ha).congr (hout hsub hm' _ (hrxlim hne a ha).1 (hrxlim hne a ha).2)
    · cases phase.symm.trans hph

/-- What a section leaves of the NIC. -/
theorem SectOk.ends {p : Phase} {a : Option Adapter} {mapped : List (Region 64)} {th : NicThread} {nic' : SmartNic}
    {again : Bool} (h : SectOk p nic a mapped ⟨th, .ret (nic', again)⟩) : Ends th nic nic' ∧
      ((∀ ring head buf, p ≠ .tx ring head buf) → nic'.reg SC_REG_TX_DOORBELL = nic.reg SC_REG_TX_DOORBELL) := by
  cases h with
  | still thread rest => exact ⟨rest.1, fun _ => rest.2⟩
  | rx holds live rest => exact ⟨rest, fun _ => rest.doorbell nofun⟩
  | tx phase rung rest => exact ⟨rest, fun hp => absurd phase (hp _ _ _)⟩
  | dma phase pending rest => exact ⟨rest, fun _ => rest.doorbell nofun⟩

/-- A section ends. -/
theorem At.env_nicEnd (h : At v s) (he : s.env .nicEnd = some t) : At v t := by
  obtain ⟨th, nic, again, hs, rfl⟩ := DriverNic.env_nicEnd he
  have hsect := h.sect _ hs
  obtain ⟨hend, hdb⟩ := hsect.ends
  have hl := h.link
  have hpend : s.nic.dmaPending = false → nic.dmaPending = false := fun hf => by
    by_cases hth : th = .dma
    · exact hend.done hth
    · exact (hend.dma hth).2.trans hf
  have hset : ∀ a, Plain a → DriverNic.settled
      { s with nic := nic, sect := none, txLoc := txAfter s.txLoc th again } a = s.settled a := fun a ha =>
    congrArg ((lastWritten a s.posted).getD ·) (hend.host.reg a ha.hostReg)
  refine { h with
    core := hend.core
    settled := fun c hc => ⟨(h.settled c hc).1, (hset _ (h.settled c hc).1).trans (h.settled c hc).2⟩
    link := ?_
    checked := fun hd => ?_
    sect := nofun }
  · cases hph : v.phase with
    | idle =>
      rw [hph] at hl hdb
      exact ⟨hl.1, (hdb nofun).trans hl.2.1, hpend hl.2.2⟩
    | tx ring head buf =>
      rw [hph] at hl
      exact ⟨hl.1, hl.2.1.frame hend.host, hl.2.2.1, hpend hl.2.2.2⟩
    | dma buf =>
      rw [hph] at hl hdb
      obtain ⟨hdb', hlt, hstart⟩ := hl
      refine ⟨(hdb nofun).trans hdb', hlt, ?_⟩
      rcases hstart with ⟨ws, hws, hmild, hp, hsrc, hlen⟩ | ⟨hnil, hlatched⟩
      · exact .inl ⟨ws, hws, hmild, hpend hp, (hset _ (by decide)).trans hsrc, (hset _ (by decide)).trans hlen⟩
      · refine .inr ⟨hnil, fun hp => ?_⟩
        have hth : th ≠ .dma := fun hth => by cases hp.symm.trans (hend.done hth)
        obtain ⟨heng, hp'⟩ := hend.dma hth
        have hl := hlatched (hp'.symm.trans hp)
        exact ⟨(congrArg DmaEngine.src heng).trans hl.src, (congrArg DmaEngine.len heng).trans hl.len,
          (congrArg DmaEngine.dirWrite heng).trans hl.read⟩
  · obtain ⟨hp, hth⟩ := h.checked hd
    exact ⟨(hend.dma (hth _ hs)).2.trans hp, nofun⟩

/-- Every step of the NIC, if a frame that it takes in finds the ring live and a read brings what is in memory. -/
theorem At.env {e : DriverEvent} (h : At v s) (hok : Orderly s e) (he : s.env e = some t) : At v t := by
  cases e with
  | handle => exact h.env_handle he
  | signal =>
    cases he
    exact { h with }
  | packet data => exact h.env_packet hok he
  | dmaCheck =>
    simp only [DriverNic.env, Option.ite_none_right_eq_some, Option.some.injEq] at he
    obtain ⟨hd, rfl⟩ := he
    exact { h with checked := fun _ => hd }
  | processDma => exact h.env_dma he
  | txWake =>
    simp only [DriverNic.env, Option.ite_none_right_eq_some, Option.some.injEq] at he
    obtain ⟨-, rfl⟩ := he
    exact { h with }
  | txIteration => exact h.env_tx he
  | txDone =>
    simp only [DriverNic.env, Option.ite_none_right_eq_some] at he
    exact h.enter he.2 (fun hth => by cases hth)
      (.still (by decide) ((txDone_ends h.core).mono fun r hr => ⟨hr, hr.doorbell (by decide)⟩))
  | nicOp r => exact h.env_nicOp hok he
  | nicEnd => exact h.env_nicEnd he

end SmartEth.DriverNic.Confined
