import Mathlib.Data.List.Pairwise
import SmartEth.Proof.TxPosition
import SmartEth.System.Confined

/-!
# What the NIC's sections touch

A section stays within given ranges of memory, and keeps a property of memory that the ranges
are given with (`Confines`): `on_packet_rx` within the RX ring and its buffers, as long as a
descriptor that is the NIC's names one of them (`rx_confines`); `process_tx` within the TX ring
and the buffer of the test that runs (`tx_confines`), and nowhere while the doorbell is zero
(`tx_idles`); `process_dma` within the buffer that is latched (`dma_confines`).
-/

namespace SmartEth.DriverNic

open SmartEthMain SmartNic

/-- A section touches only `lim`, and keeps `G` in memory, whatever the driver stores meanwhile that keeps it, and
whatever DMA fails or is not made. -/
def Confines (lim : List (Region 64)) (G : GuestMem → Prop) (R : SmartNic → Prop) : NicM (SmartNic × Bool) → Prop
  | .ret r => R r.1
  | .op e k => (∀ r ∈ e.region, Within lim r) ∧
      ∀ m, G m → ∀ r : DmaEnd, r.Right e → G (dmaAnswer m r e).2 ∧ Confines lim G R (k (dmaAnswer m r e).1)

variable {lim : List (Region 64)} {G : GuestMem → Prop} {R R' : SmartNic → Prop} {p : NicM (SmartNic × Bool)}

theorem Confines.of_noDma (h : p.Does NoDma fun r => R r.1) : Confines lim G R p := by
  induction p with
  | ret r => exact h
  | op e k ih =>
    obtain ⟨he, hk⟩ := h
    refine ⟨fun r hr => ?_, fun m hm r _ => ⟨(dmaAnswer_noDma he m r).symm ▸ hm, ih _ (hk _)⟩⟩
    cases he.symm.trans hr

theorem Within.of_mem {r : Region 64} (h : r ∈ lim) : Within lim r := by
  refine .inr ⟨r, h, ?_⟩
  rw [BitVec.sub_self]
  exact (Nat.zero_add _).le

theorem Within.take {a : Addr} {n k : Nat} (h : (⟨a, n⟩ : Region 64) ∈ lim) (hk : k ≤ n) : Within lim ⟨a, k⟩ := by
  refine .inr ⟨_, h, ?_⟩
  dsimp only
  rw [BitVec.sub_self]
  exact (Nat.zero_add _).trans_le hk

/-- An entry of a ring. -/
theorem Within.entry {ring : Addr} {i : Nat} (h : (⟨ring, RING_BYTES⟩ : Region 64) ∈ lim)
    (hi : i < SMARTETH_RING_SIZE) : Within lim (DescRing.entryRegion ring i) := by
  refine .inr ⟨_, h, ?_⟩
  have hlt : i < 64 := hi
  show (slot ring SmartEthDesc.size i - ring).toNat + SmartEthDesc.size ≤ RING_BYTES
  rw [slot, add_ofNat_sub_self, BitVec.toNat_ofNat, SmartEthDesc.size, RING_BYTES, SMARTETH_RING_SIZE,
    SmartEthDesc.size]
  omega

theorem Within.mem {r : Region 64} (h : Within lim r) {x : Addr} (hx : x ∈ r) : ∃ m ∈ lim, x ∈ m := by
  rw [Region.mem_def] at hx
  rcases h with h0 | ⟨m, hm, hle⟩
  · omega
  · refine ⟨m, hm, ?_⟩
    have he : x - m.base = (x - r.base) + (r.base - m.base) := by ring
    rw [Region.mem_def, he, BitVec.toNat_add]
    have := Nat.mod_le ((x - r.base).toNat + (r.base - m.base).toNat) (2 ^ 64)
    omega

theorem pairwise_disjoint {mapped : List (Region 64)} (h : mapped.Pairwise Region.Disjoint) {r o : Region 64}
    (hr : r ∈ mapped) (ho : o ∈ mapped) (hne : r ≠ o) : r.Disjoint o := by
  have : Std.Symm (Region.Disjoint (w := 64)) := ⟨fun _ _ h => h.symm⟩
  exact h.forall hr ho hne

/-! ## Sections -/

structure Core (nic : SmartNic) : Prop where
  bridge : nic.bridge = true
  busy : nic.dma.busy = false
  txSize : nic.reg SC_REG_TX_RING_SIZE = 0 ∨ nic.reg SC_REG_TX_RING_SIZE = BitVec.ofNat 32 SMARTETH_RING_SIZE
  rxSize : nic.reg SC_REG_RX_RING_SIZE = 0 ∨ nic.reg SC_REG_RX_RING_SIZE = BitVec.ofNat 32 SMARTETH_RING_SIZE
  txTail : (nic.reg SC_REG_TX_TAIL).toNat < SMARTETH_RING_SIZE
  rxTail : (nic.reg SC_REG_RX_TAIL).toNat < SMARTETH_RING_SIZE

/-- What a section of `th` leaves of the NIC. -/
structure Ends (th : NicThread) (nic nic' : SmartNic) : Prop where
  core : Core nic'
  host : HostFrame nic nic'
  doorbell : th ≠ .tx → nic'.reg SC_REG_TX_DOORBELL = nic.reg SC_REG_TX_DOORBELL
  dma : th ≠ .dma → nic'.dma = nic.dma ∧ nic'.dmaPending = nic.dmaPending
  done : th = .dma → nic'.dmaPending = false

variable {nic nic' : SmartNic} {th : NicThread}

theorem Core.ends (h : Core nic) (hth : th ≠ .dma) : Ends th nic nic :=
  ⟨h, .refl nic, fun _ => rfl, fun _ => ⟨rfl, rfl⟩, fun hd => absurd hd hth⟩

/-- The registers that `Core` is about. -/
def CORE_REGS : List Addr := [SC_REG_TX_RING_SIZE, SC_REG_RX_RING_SIZE, SC_REG_TX_TAIL, SC_REG_RX_TAIL]

theorem Core.setReg (h : Core nic) {b : Addr} (hb : ∀ a ∈ CORE_REGS, a >>> 2 ≠ b >>> 2) (v : Word) :
    Core (nic.setReg b v) := by
  have hreg : ∀ a ∈ CORE_REGS, (nic.setReg b v).reg a = nic.reg a := fun a ha => reg_setReg_ne (hb a ha)
  exact ⟨h.bridge, h.busy, by rw [hreg _ (by decide)]; exact h.txSize, by rw [hreg _ (by decide)]; exact h.rxSize,
    by rw [hreg _ (by decide)]; exact h.txTail, by rw [hreg _ (by decide)]; exact h.rxTail⟩

/-- Registers that `Core` is not about. -/
theorem core_regs_ne {b : Addr} (hb : b ∈ [SC_REG_IRQ_STS, SC_REG_DMA_CTRL, SC_REG_DMA_STS, SC_REG_TX_DOORBELL]) :
    ∀ a ∈ CORE_REGS, a >>> 2 ≠ b >>> 2 := by
  simp only [List.mem_cons, List.not_mem_nil, or_false] at hb
  simp only [CORE_REGS, List.mem_cons, List.not_mem_nil, or_false, forall_eq_or_imp, forall_eq]
  rcases hb with rfl | rfl | rfl | rfl <;> decide

theorem Ends.irq (h : Ends th nic nic') (v : Word) : Ends th nic (nic'.setReg SC_REG_IRQ_STS v) :=
  ⟨h.core.setReg (core_regs_ne (by decide)) v, h.host.setReg (by decide) v,
    fun hth => (reg_setReg_ne (by decide)).trans (h.doorbell hth), h.dma, h.done⟩

theorem Ends.raiseIrq (h : Ends th nic nic') (cause vector : Word) :
    (nic'.raiseIrq cause vector).Does NoDma (Ends th nic) := by
  rw [SmartNic.raiseIrq]
  split
  · exact ⟨rfl, fun _ => h.irq _⟩
  · exact h.irq _

theorem toNat_nextTail_lt {tail size : Word} (ht : tail.toNat < SMARTETH_RING_SIZE)
    (hs : size = BitVec.ofNat 32 SMARTETH_RING_SIZE) : (nextTail tail size).toNat < SMARTETH_RING_SIZE := by
  have hsize : size.toNat = SMARTETH_RING_SIZE := by
    rw [hs]
    decide
  have hpos : 0 < SMARTETH_RING_SIZE := by decide
  rw [nextTail_toNat hpos (Nat.mod_eq_of_lt ht).symm hsize]
  exact Nat.mod_lt _ hpos

/-! ### `on_packet_rx` -/

/-- A descriptor of the RX ring that is the NIC's names one of the ring's buffers. -/
def RxGood (a : Adapter) (m : GuestMem) : Prop :=
  ∀ i < SMARTETH_RING_SIZE, (DescRing.entry a.rxRing m i).own = true →
    (DescRing.entry a.rxRing m i).addr ∈ a.rxDma ∧
      (DescRing.entry a.rxRing m i).length = BitVec.ofNat 32 SMARTETH_RX_BUF_SIZE

variable {a : Adapter} {m m' : GuestMem}

/-- A store to memory apart from a ring. -/
theorem entry_congr {ring : Addr} (h : ∀ x ∈ txRingRegion ring, m' x = m x) {i : Nat} (hi : i < SMARTETH_RING_SIZE) :
    DescRing.entry ring m' i = DescRing.entry ring m i :=
  congrArg SmartEthDesc.ofBytes (Mem.read_congr fun x hx => h x (slot_sub_table hi x hx))

theorem RxGood.congr (h : RxGood a m) (hm : ∀ x ∈ txRingRegion a.rxRing, m' x = m x) : RxGood a m' := by
  intro i hi
  rw [entry_congr hm hi]
  exact h i hi

theorem RxGood.outside (h : RxGood a m) {addr : Addr} {data : List Byte}
    (hd : (⟨addr, data.length⟩ : Region 64).Disjoint (txRingRegion a.rxRing)) : RxGood a (m.write addr data) :=
  h.congr fun x hx => Mem.write_of_notMem (hd.symm x hx)

/-- An entry is given back. -/
theorem RxGood.complete (h : RxGood a m) {i : Nat} (hi : i < SMARTETH_RING_SIZE) {d : SmartEthDesc}
    (hd : d.own = false) : RxGood a (m.write (DescRing.entryAddr a.rxRing i) d.toBytes) := by
  intro j hj hown
  by_cases hji : j = i
  · rw [hji, DescRing.entry_write_self, hd] at hown
    cases hown
  · rw [DescRing.entry_write_ne (by decide) hj hi hji] at hown ⊢
    exact h j hj hown

theorem rx_drops (h : Core nic) {data : List Byte} (ht : ¬ Takes nic data) :
    (nic.onPacketRx data >>= fun n => pure (n, false) : NicM (SmartNic × Bool)).Does NoDma
      fun r => Ends .rx nic r.1 := by
  have hends : Ends .rx nic { nic with pkt := (nic.pkt.receive data).1 } :=
    ⟨⟨h.bridge, h.busy, h.txSize, h.rxSize, h.txTail, h.rxTail⟩, ⟨rfl, rfl, fun _ _ => rfl⟩, fun _ => rfl,
      fun _ => ⟨rfl, rfl⟩, nofun⟩
  rw [onPacketRx]
  split
  · exact hends
  rename_i hmatch
  rw [if_pos]
  · exact hends
  · by_contra hcfg
    exact ht ⟨Bool.eq_true_of_not_eq_false fun hf => hmatch (congrArg not hf), hcfg⟩

/-- A frame for a buffer of the ring. -/
theorem rxDeliver_confines {u : SmartNic} (hu : Ends .rx nic u) (hsize : u.reg SC_REG_RX_RING_SIZE ≠ 0) {i : Nat}
    (hi : i < SMARTETH_RING_SIZE) (data : List Byte) {d : SmartEthDesc} (haddr : d.addr ∈ a.rxDma)
    (hlen : d.length = BitVec.ofNat 32 SMARTETH_RX_BUF_SIZE)
    (hd : ∀ dma ∈ a.rxDma, (⟨dma, SMARTETH_RX_BUF_SIZE⟩ : Region 64).Disjoint (txRingRegion a.rxRing)) :
    Confines (rxRegions a) (RxGood a) (Ends .rx nic)
      (u.rxDeliver data (DescRing.entryAddr a.rxRing i) d >>= fun n => pure (n, false)) := by
  have hcopy : (data.take (min data.length d.length.toNat)).length ≤ SMARTETH_RX_BUF_SIZE := by
    have hnat : d.length.toNat = SMARTETH_RX_BUF_SIZE := by
      rw [hlen]
      decide
    rw [List.length_take, hnat]
    exact (Nat.min_le_left _ _).trans (Nat.min_le_right _ _)
  have hbuf : (⟨d.addr, SMARTETH_RX_BUF_SIZE⟩ : Region 64) ∈ rxRegions a :=
    List.mem_cons_of_mem _ (List.mem_map_of_mem haddr)
  have htail : Ends .rx nic (u.setReg SC_REG_RX_TAIL
      (nextTail (u.reg SC_REG_RX_TAIL) (u.reg SC_REG_RX_RING_SIZE))) := by
    have hlt := toNat_nextTail_lt hu.core.rxTail (hu.core.rxSize.resolve_left hsize)
    refine ⟨⟨hu.core.bridge, hu.core.busy, ?_, ?_, ?_, ?_⟩, hu.host.setReg (by decide) _,
      fun hth => (reg_setReg_ne (by decide)).trans (hu.doorbell hth), hu.dma, hu.done⟩
    · rw [reg_setReg_ne (by decide)]
      exact hu.core.txSize
    · rw [reg_setReg_ne (by decide)]
      exact hu.core.rxSize
    · rw [reg_setReg_ne (by decide)]
      exact hu.core.txTail
    · rw [reg_setReg_self]
      exact hlt
  rw [rxDeliver, Prog.bind_assoc, dmaWriteBridge_bind hu.core.bridge]
  refine ⟨fun r hr => ?_, fun m hm r _ => ⟨?_, ?_⟩⟩
  · cases hr
    exact Within.take hbuf hcopy
  · cases r with
    | failed | other _ => exact hm
    | moved => exact hm.outside ((hd _ haddr).sub_left (Region.mem_of_le hcopy))
  cases r with
  | failed => exact hu
  | moved | other _ =>
    show Confines _ _ _ ((if true = true then _ else _) >>= _)
    rw [if_pos rfl, Prog.bind_assoc, dmaWriteBridge_bind hu.core.bridge]
    refine ⟨fun r hr => ?_, fun m hm r _ => ⟨?_, ?_⟩⟩
    · cases hr
      rw [SmartEthDesc.length_toBytes]
      exact Within.entry List.mem_cons_self hi
    · cases r with
      | failed | other _ => exact hm
      | moved => exact hm.complete hi d.own_complete
    cases r with
    | failed => exact hu
    | moved | other _ =>
      show Confines _ _ _ ((if true = true then _ else _) >>= _)
      rw [if_pos rfl]
      dsimp only
      refine .of_noDma (.bind ?_)
      split
      · exact htail.raiseIrq _ _
      · exact htail

theorem rx_confines (h : Core nic) (data : List Byte) (hbase : nic.rxRingBase = a.rxRing)
    (hd : ∀ dma ∈ a.rxDma, (⟨dma, SMARTETH_RX_BUF_SIZE⟩ : Region 64).Disjoint (txRingRegion a.rxRing)) :
    Confines (rxRegions a) (RxGood a) (Ends .rx nic) (nic.onPacketRx data >>= fun n => pure (n, false)) := by
  by_cases ht : Takes nic data
  swap
  · exact .of_noDma (rx_drops h ht)
  obtain ⟨hmatch, hcfg⟩ := ht
  generalize hu : ({ nic with pkt := (nic.pkt.receive data).1 } : SmartNic) = u
  have hends : Ends .rx nic u := by
    subst hu
    exact ⟨⟨h.bridge, h.busy, h.txSize, h.rxSize, h.txTail, h.rxTail⟩, ⟨rfl, rfl, fun _ _ => rfl⟩, fun _ => rfl,
      fun _ => ⟨rfl, rfl⟩, nofun⟩
  have hm : u.rxMatch data = true := by
    subst hu
    exact hmatch
  have hc : ¬ (u.reg SC_REG_RX_RING_SIZE = 0 ∨ u.rxRingBase = 0) := by
    subst hu
    exact hcfg
  have hb : u.rxRingBase = a.rxRing := by
    subst hu
    exact hbase
  have hcore := hends.core
  have haddr : u.rxDescAddr = DescRing.entryAddr a.rxRing (u.reg SC_REG_RX_TAIL).toNat := by
    rw [rxDescAddr, hb]
    exact DescRing.descAddr_eq _
  have hring : (⟨a.rxRing, RING_BYTES⟩ : Region 64) ∈ rxRegions a := List.mem_cons_self
  have hwithin := Within.entry hring hcore.rxTail
  rw [onPacketRx, hu, if_neg (by simp [hm]), if_neg hc, Prog.bind_assoc, readDesc_bind hcore.bridge, haddr]
  refine ⟨fun r hr => ?_, fun m hgood r hok => ⟨by cases r <;> exact hgood, ?_⟩⟩
  · cases hr
    exact hwithin
  cases r with
  | other _ => exact hok.elim
  | failed => exact hends
  | moved =>
    have hdesc := @DescRing.ofBytes_read_entry a.rxRing m (u.reg SC_REG_RX_TAIL).toNat
    show Confines _ _ _ ((if !(SmartEthDesc.ofBytes _).own then pure u else u.rxDeliver data _ _) >>= _)
    rw [show (BitVec.ofNat 32 SmartEthDesc.size).toNat = SmartEthDesc.size from rfl, hdesc]
    by_cases hown : (DescRing.entry a.rxRing m (u.reg SC_REG_RX_TAIL).toNat).own = true
    · obtain ⟨hmem, hlen⟩ := hgood _ hcore.rxTail hown
      rw [hown]
      exact rxDeliver_confines hends (fun h0 => hc (.inl h0)) hcore.rxTail data hmem hlen hd
    · rw [Bool.eq_false_of_not_eq_true hown]
      exact hends


/-! ### `process_tx` -/

/-- The only descriptor of the TX ring that may be the NIC's is that of a test. -/
def TxGood (ring : Addr) (h : Nat) (buf : Addr) (m : GuestMem) : Prop :=
  ∀ i < SMARTETH_RING_SIZE, (DescRing.entry ring m i).own = true →
    i = h ∧ (DescRing.entry ring m i).addr = buf ∧ (DescRing.entry ring m i).length = 256

variable {ring buf : Addr} {head : Nat}

theorem TxGood.congr (h : TxGood ring head buf m) (hm : ∀ x ∈ txRingRegion ring, m' x = m x) :
    TxGood ring head buf m' := by
  intro i hi
  rw [entry_congr hm hi]
  exact h i hi

theorem TxGood.complete (h : TxGood ring head buf m) {i : Nat} (hi : i < SMARTETH_RING_SIZE) {d : SmartEthDesc}
    (hd : d.own = false) : TxGood ring head buf (m.write (DescRing.entryAddr ring i) d.toBytes) := by
  intro j hj hown
  by_cases hji : j = i
  · rw [hji, DescRing.entry_write_self, hd] at hown
    cases hown
  · rw [DescRing.entry_write_ne (by decide) hj hi hji] at hown ⊢
    exact h j hj hown

theorem Ends.txPending (h : Core nic) (b : Bool) : Ends .tx nic { nic with txPending := b } :=
  ⟨⟨h.bridge, h.busy, h.txSize, h.rxSize, h.txTail, h.rxTail⟩, ⟨rfl, rfl, fun _ _ => rfl⟩, fun _ => rfl,
    fun _ => ⟨rfl, rfl⟩, nofun⟩

theorem Ends.txAdvance (h : Core nic) (hsize : nic.reg SC_REG_TX_RING_SIZE = BitVec.ofNat 32 SMARTETH_RING_SIZE) :
    Ends .tx nic nic.txAdvance := by
  have hlt := toNat_nextTail_lt h.txTail hsize
  refine ⟨⟨h.bridge, h.busy, ?_, ?_, ?_, ?_⟩, nic.txAdvance_frame, fun hth => absurd rfl hth,
    fun _ => ⟨rfl, rfl⟩, nofun⟩
  · rw [SmartNic.txAdvance, reg_setReg_ne (by decide), reg_setReg_ne (by decide)]
    exact h.txSize
  · rw [SmartNic.txAdvance, reg_setReg_ne (by decide), reg_setReg_ne (by decide)]
    exact h.rxSize
  · rw [SmartNic.txAdvance, reg_setReg_ne (by decide), reg_setReg_self]
    exact hlt
  · rw [SmartNic.txAdvance, reg_setReg_ne (by decide), reg_setReg_ne (by decide)]
    exact h.rxTail

/-- With the doorbell at zero, a pass reads no descriptor. -/
theorem tx_idles (h : Core nic) (hd : nic.reg SC_REG_TX_DOORBELL = 0) :
    (nic.processTxIteration >>= fun x => pure (x.1, x.2.isSome) : NicM (SmartNic × Bool)).Does NoDma
      fun r => Ends .tx nic r.1 ∧ r.1.reg SC_REG_TX_DOORBELL = 0 := by
  rw [processTxIteration]
  split
  · exact ⟨h.ends (by decide), hd⟩
  · rw [if_pos (.inr (.inl hd))]
    exact ⟨.txPending h false, hd⟩

theorem txDone_ends (h : Core nic) :
    (nic.processTxDone >>= fun n => pure (n, false) : NicM (SmartNic × Bool)).Does NoDma
      fun r => Ends .txDone nic r.1 := by
  have hends : Ends .txDone nic nic := h.ends (by decide)
  rw [processTxDone]
  split
  · exact .bind (hends.raiseIrq _ _)
  · exact hends

/-- The frame of the test is read, and its descriptor given back. -/
theorem txSend_confines (h : Core nic) (hsize : nic.reg SC_REG_TX_RING_SIZE = BitVec.ofNat 32 SMARTETH_RING_SIZE)
    {i : Nat} (hi : i < SMARTETH_RING_SIZE) (d : SmartEthDesc) (pkt : List Byte) :
    Confines [txRingRegion ring, ⟨buf, 256⟩] (TxGood ring head buf) (Ends .tx nic)
      (nic.txSend (DescRing.entryAddr ring i) d pkt >>= fun x => pure (x.1, x.2.isSome)) := by
  have hwrite : Confines [txRingRegion ring, ⟨buf, 256⟩] (TxGood ring head buf) (Ends .tx nic)
      ((nic.dmaWriteBridge (DescRing.entryAddr ring i) d.complete.toBytes >>= fun ok =>
        if ok then pure (nic.txAdvance, some (100 + d.length.toNat / 4 * 2)) else pure (nic, none) :
          NicM (SmartNic × Option Nat)) >>= fun x => pure (x.1, x.2.isSome)) := by
    rw [Prog.bind_assoc, dmaWriteBridge_bind h.bridge]
    refine ⟨fun r hr => ?_, fun m hm r _ => ?_⟩
    · cases hr
      rw [SmartEthDesc.length_toBytes]
      exact Within.entry List.mem_cons_self hi
    · cases r with
      | failed => exact ⟨hm, h.ends (by decide)⟩
      | moved => exact ⟨hm.complete hi d.own_complete, .txAdvance h hsize⟩
      | other _ => exact ⟨hm, .txAdvance h hsize⟩
  rw [SmartNic.txSend]
  split
  · exact ⟨(fun r hr => by cases hr), fun m hm _ _ => ⟨hm, hwrite⟩⟩
  · exact hwrite

theorem txFetch_confines (h : Core nic) (hsize : nic.reg SC_REG_TX_RING_SIZE = BitVec.ofNat 32 SMARTETH_RING_SIZE)
    {i : Nat} (hi : i < SMARTETH_RING_SIZE) {d : SmartEthDesc} (hd : d.own = true → d.addr = buf ∧ d.length = 256) :
    Confines [txRingRegion ring, ⟨buf, 256⟩] (TxGood ring head buf) (Ends .tx nic)
      (nic.txFetch (DescRing.entryAddr ring i) d >>= fun x => pure (x.1, x.2.isSome)) := by
  rw [txFetch]
  by_cases hown : d.own = true
  · obtain ⟨hbuf, hlen⟩ := hd hown
    rw [if_neg (by simp [hown]), Prog.bind_assoc, dmaReadBridge_bind h.bridge]
    refine ⟨fun r hr => ?_, fun m hgood r _ => ⟨by cases r <;> exact hgood, ?_⟩⟩
    · cases hr
      rw [hbuf, hlen]
      exact Within.of_mem (List.mem_cons_of_mem _ List.mem_cons_self)
    · cases r with
      | failed => exact h.ends (by decide)
      | moved | other _ => exact txSend_confines h hsize hi d _
  · rw [if_pos (by simp [hown])]
    exact .txPending h false

theorem tx_confines (h : Core nic) (hregs : Regs (ringCfg ring) nic) :
    Confines [txRingRegion ring, ⟨buf, 256⟩] (TxGood ring head buf) (Ends .tx nic)
      (nic.processTxIteration >>= fun x => pure (x.1, x.2.isSome)) := by
  have hlo : nic.reg SC_REG_TX_RING_BASE_LO = lower ring := (hregs _ List.mem_cons_self).2
  have hhi : nic.reg SC_REG_TX_RING_BASE_HI = upper ring := (hregs _ (List.mem_cons_of_mem _ List.mem_cons_self)).2
  have hsize : nic.reg SC_REG_TX_RING_SIZE = BitVec.ofNat 32 SMARTETH_RING_SIZE :=
    (hregs _ (List.mem_cons_of_mem _ (List.mem_cons_of_mem _ List.mem_cons_self))).2
  have haddr : nic.txDescAddr = DescRing.entryAddr ring (nic.reg SC_REG_TX_TAIL).toNat := by
    rw [txDescAddr, txRingBase, hlo, hhi, upper_lower]
    exact DescRing.descAddr_eq _
  rw [processTxIteration]
  split
  · exact h.ends (by decide)
  split
  · exact .txPending h false
  rw [Prog.bind_assoc, readDesc_bind h.bridge, haddr]
  refine ⟨fun r hr => ?_, fun m hgood r hok => ⟨by cases r <;> exact hgood, ?_⟩⟩
  · cases hr
    exact Within.entry List.mem_cons_self h.txTail
  cases r with
  | other _ => exact hok.elim
  | failed => exact h.ends (by decide)
  | moved =>
    have hdesc := @DescRing.ofBytes_read_entry ring m (nic.reg SC_REG_TX_TAIL).toNat
    show Confines _ _ _ (nic.txFetch _ (SmartEthDesc.ofBytes _) >>= _)
    rw [show (BitVec.ofNat 32 SmartEthDesc.size).toNat = SmartEthDesc.size from rfl, hdesc]
    exact txFetch_confines h hsize h.txTail fun hown => (hgood _ h.txTail hown).2

/-! ### `process_dma` -/

/-- The transfer of a test is latched. -/
structure Latched (buf : Addr) (nic : SmartNic) : Prop where
  src : nic.dma.src = buf
  len : nic.dma.len = 256
  read : nic.dma.dirWrite = false

theorem Ends.dmaDone (h : Core nic) {d : DmaEngine} (hd : d.busy = false) : Ends .dma nic (nic.dmaDone d) := by
  have hreg : ∀ a ∈ CORE_REGS, (nic.dmaDone d).reg a = nic.reg a := fun a ha =>
    reg_dmaDone (core_regs_ne (by decide) a ha)
  exact ⟨⟨h.bridge, hd, by rw [hreg _ (by decide)]; exact h.txSize, by rw [hreg _ (by decide)]; exact h.rxSize,
    by rw [hreg _ (by decide)]; exact h.txTail, by rw [hreg _ (by decide)]; exact h.rxTail⟩, nic.dmaDone_frame d,
    fun _ => reg_dmaDone (by decide), fun hth => absurd rfl hth, fun _ => rfl⟩

theorem dma_confines (h : Core nic) (hl : Latched buf nic) :
    Confines [⟨buf, 256⟩] (fun _ => True) (Ends .dma nic)
      (nic.processDmaBody >>= fun x => pure (x.1, false)) := by
  have h0 : nic.dma.len ≠ 0 := by
    rw [hl.len]
    decide
  have hdone : ∀ (d : DmaEngine) (delay : Nat), d.busy = false →
      ((if (nic.dmaDone d).reg SC_REG_DMA_CTRL &&& SC_DMA_IRQ_EN ≠ 0 then
        (nic.dmaDone d).raiseIrq SC_IRQ_DMA_DONE 0 >>= fun t => pure (t, delay) else pure (nic.dmaDone d, delay)) >>=
        fun x => pure (x.1, false) : NicM (SmartNic × Bool)).Does NoDma fun r => Ends .dma nic r.1 := by
    intro d delay hd
    have hends := Ends.dmaDone h hd
    split
    · exact .bind (.bind (hends.raiseIrq _ _))
    · exact hends
  rw [processDmaBody_eq, DmaEngine.start, h.busy, Bool.false_or, if_neg (beq_iff_eq.not.mpr h0)]
  dsimp only
  rw [hl.read, if_neg Bool.false_ne_true, Prog.bind_assoc, Prog.bind_assoc, dmaReadBridge_bind h.bridge]
  refine ⟨fun r hr => ?_, fun m _ r _ => ⟨trivial, .of_noDma ?_⟩⟩
  · cases hr
    rw [hl.src, hl.len]
    exact Within.of_mem List.mem_cons_self
  · exact hdone _ _ rfl

end SmartEth.DriverNic
