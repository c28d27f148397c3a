import SmartEth.System.RingBounds
import SmartEth.Proof.NicRun
import SmartEth.Proof.RxOutcome

/-!
# Descriptors outside the ring

Each access of a section is to the descriptor at the ring's tail (`rxDescs_of_reaches`,
`txDescs_of_reaches`), so the NIC keeps to its rings exactly if the tails are in range
whenever it comes to them (`within_iff_tailInRange`). Nothing sees to that: the NIC brings
a tail into range only when it moves it on, and so keeps what the host's register writes
do not break (`within_of_keepsTails`).
-/

namespace SmartEth

open SmartNic

theorem NicM.doing_op {α : Type} (e : NicOp) (k : e.Res → NicM α) (r : Replies) :
    NicM.doing (Prog.op e k) r = e :: (k (r.answer e).1).doing (r.answer e).2 := by
  rw [doing, Prog.exec_op, Replies.logged, NicM.exec_logged]
  rfl

namespace RingBounds

/-! ## The tail's descriptor -/

theorem inRing_tail_iff (base : Addr) (tail size : Word) :
    DescAccess.InRing ⟨base + tail.setWidth 64 * 16, base, size⟩ ↔ tail < size := by
  rw [DescAccess.InRing, DescRing.descAddr_eq, BitVec.lt_def]
  refine ⟨fun h => ?_, fun h => ⟨tail.toNat, h, rfl⟩⟩
  obtain ⟨i, hi, he⟩ := h
  -- neither offset wraps round
  have ht := tail.isLt
  have hs := size.isLt
  have hoff : (BitVec.ofNat 64 (SmartEthDesc.size * tail.toNat)).toNat =
      (BitVec.ofNat 64 (SmartEthDesc.size * i)).toNat := congrArg BitVec.toNat ((BitVec.add_right_inj _).mp he)
  simp only [BitVec.toNat_ofNat, SmartEthDesc.size] at hoff
  dsimp only at hi
  omega

/-- Accesses that all go to the tail's descriptor. -/
theorem within_map_iff {addrs : List Addr} {base : Addr} {tail : Word} (size : Word) (hne : addrs ≠ [])
    (hall : ∀ a ∈ addrs, a = base + tail.setWidth 64 * 16) :
    (∀ x ∈ addrs.map fun a => (⟨a, base, size⟩ : DescAccess), x.InRing) ↔ tail < size := by
  rw [← inRing_tail_iff base]
  constructor
  · intro h
    obtain ⟨a, ha⟩ := List.exists_mem_of_ne_nil _ hne
    obtain rfl := hall a ha
    exact h _ (List.mem_map_of_mem ha)
  · intro h x hx
    obtain ⟨a, ha, rfl⟩ := List.mem_map.mp hx
    obtain rfl := hall a ha
    exact h

section

variable {nic : SmartNic} {data : List Byte} {r : Replies}

/-! ## Reception -/

/-- After the buffer the descriptor is written back. -/
theorem rxDeliver_doing (hb : nic.bridge = true) (addr : Addr) (desc : SmartEthDesc) {a : Addr}
    (ha : a ∈ ((((nic.rxDeliver data addr desc).doing r).drop 1).take 1).filterMap NicOp.dmaAddr) : a = addr := by
  rw [rxDeliver, dmaWriteBridge_bind hb, NicM.doing_op] at ha
  generalize (r.answer (.dmaWrite desc.addr (data.take (min data.length desc.length.toNat)))).1 = ok at ha
  cases ok with
  | false => cases ha
  | true =>
    rw [if_pos rfl, dmaWriteBridge_bind hb, NicM.doing_op] at ha
    exact List.mem_singleton.mp ha

theorem rxRing_doing (hb : nic.bridge = true) (hr : ¬ (nic.reg SC_REG_RX_RING_SIZE = 0 ∨ nic.rxRingBase = 0)) :
    rxDescs ((nic.rxRing data).doing r) ≠ [] ∧ ∀ a ∈ rxDescs ((nic.rxRing data).doing r), a = nic.rxDescAddr := by
  rw [rxRing, if_neg hr, readDesc_bind hb, NicM.doing_op]
  refine ⟨List.cons_ne_nil _ _, fun a ha => ?_⟩
  rcases List.mem_cons.mp ha with rfl | ha
  · rfl
  generalize (r.answer (.dmaRead nic.rxDescAddr (BitVec.ofNat 32 SmartEthDesc.size))).1 = x at ha
  cases x with
  | none => cases ha
  | some bs =>
    simp only [Option.map_some] at ha
    split at ha
    · cases ha
    · exact rxDeliver_doing hb _ _ ha

theorem rxRing_doing_nil (h : ¬ (nic.bridge = true ∧ ¬ (nic.reg SC_REG_RX_RING_SIZE = 0 ∨ nic.rxRingBase = 0))) :
    (nic.rxRing data).doing r = [] := by
  rw [rxRing]
  by_cases hr : nic.reg SC_REG_RX_RING_SIZE = 0 ∨ nic.rxRingBase = 0
  · rw [if_pos hr]
    rfl
  · rw [if_neg hr, readDesc_bind_of_not fun hb => h ⟨hb, hr⟩]
    rfl

theorem rxDescs_of_reaches (h : RxReaches nic data) :
    rxDescs ((nic.onPacketRx data).doing r) ≠ [] ∧
      ∀ a ∈ rxDescs ((nic.onPacketRx data).doing r), a = nic.rxDescAddr := by
  obtain ⟨hb, hm, hr⟩ := h
  rw [onPacketRx_eq, if_pos hm]
  exact @rxRing_doing { nic with pkt := (nic.pkt.receive data).1 } data r hb hr

theorem rxDescs_of_not_reaches (h : ¬ RxReaches nic data) : rxDescs ((nic.onPacketRx data).doing r) = [] := by
  rw [onPacketRx_eq]
  by_cases hm : nic.rxMatch data = true
  · have hnil := @rxRing_doing_nil { nic with pkt := (nic.pkt.receive data).1 } data r
      fun h' => h ⟨h'.1, hm, h'.2⟩
    rw [if_pos hm, hnil]
    rfl
  · rw [if_neg hm]
    rfl

/-! ## Transmission -/

/-- What is written is the descriptor. -/
theorem txSend_doing (hb : nic.bridge = true) (addr : Addr) (desc : SmartEthDesc) (pktData : List Byte) {a : Addr}
    (ha : a ∈ (((nic.txSend addr desc pktData).doing r).filter NicOp.isDmaWrite).filterMap NicOp.dmaAddr) :
    a = addr := by
  have hwrite : ∀ r, a ∈ ((NicM.doing (.op (.dmaWrite addr desc.complete.toBytes) fun ok =>
      if ok then pure (nic.txAdvance, some (100 + desc.length.toNat / 4 * 2)) else pure (nic, none)) r).filter
        NicOp.isDmaWrite).filterMap NicOp.dmaAddr → a = addr := by
    intro r ha
    rw [NicM.doing_op] at ha
    split at ha
    · exact List.mem_singleton.mp ha
    · exact List.mem_singleton.mp ha
  rw [txSend, dmaWriteBridge_bind hb] at ha
  split at ha
  · rw [Prog.call_bind, NicM.doing_op] at ha
    exact hwrite _ ha
  · exact hwrite _ ha

theorem txFetch_doing (hb : nic.bridge = true) (addr : Addr) (desc : SmartEthDesc) {a : Addr}
    (ha : a ∈ (((nic.txFetch addr desc).doing r).filter NicOp.isDmaWrite).filterMap NicOp.dmaAddr) : a = addr := by
  rw [txFetch] at ha
  split at ha
  · cases ha
  rw [dmaReadBridge_bind hb, NicM.doing_op] at ha
  generalize (r.answer (.dmaRead desc.addr desc.length)).1 = x at ha
  cases x with
  | none => cases ha
  | some bs => exact txSend_doing hb _ _ _ ha

theorem txDescs_of_reaches (h : TxReaches nic) :
    txDescs (nic.processTxIteration.doing r) ≠ [] ∧
      ∀ a ∈ txDescs (nic.processTxIteration.doing r), a = nic.txDescAddr := by
  obtain ⟨hb, hp, hr⟩ := h
  rw [processTxIteration_ready hp hr, readDesc_bind hb, NicM.doing_op]
  refine ⟨List.cons_ne_nil _ _, fun a ha => ?_⟩
  rcases List.mem_cons.mp ha with rfl | ha
  · rfl
  generalize (r.answer (.dmaRead nic.txDescAddr (BitVec.ofNat 32 SmartEthDesc.size))).1 = x at ha
  cases x with
  | none => cases ha
  | some bs => exact txFetch_doing hb _ _ ha

theorem txDescs_of_not_reaches (h : ¬ TxReaches nic) : txDescs (nic.processTxIteration.doing r) = [] := by
  by_cases hp : nic.txPending = true
  swap
  · rw [processTxIteration_idle hp]
    rfl
  by_cases hr : nic.reg SC_REG_TX_RING_SIZE = 0 ∨ nic.reg SC_REG_TX_DOORBELL = 0 ∨ nic.txRingBase = 0
  · rw [processTxIteration_stopped hp hr]
    rfl
  · rw [processTxIteration_ready hp hr, readDesc_bind_of_not fun hb => h ⟨hb, hp, hr⟩]
    rfl

end

/-! ## Runs -/

theorem within_step {s t : RingBounds} {e : NicEvent} (he : s.step e = some t) : Within t ↔ TailInRange s e := by
  obtain ⟨u, -, rfl⟩ := Option.map_eq_some_iff.mp he
  cases e with
  | packet data r =>
    by_cases h : RxReaches s.run.nic data
    · obtain ⟨hne, hall⟩ := rxDescs_of_reaches (r := r) h
      have hiff := within_map_iff (s.run.nic.reg SC_REG_RX_RING_SIZE) hne hall
      exact ⟨fun hw _ => hiff.mp hw, fun hk => hiff.mpr (hk h)⟩
    · refine iff_of_true ?_ fun h' => absurd h' h
      rw [Within, accessesOf, rxDescs_of_not_reaches h]
      exact nofun
  | txIteration r =>
    by_cases h : TxReaches s.run.nic
    · obtain ⟨hne, hall⟩ := txDescs_of_reaches (r := r) h
      have hiff := within_map_iff (s.run.nic.reg SC_REG_TX_RING_SIZE) hne hall
      exact ⟨fun hw _ => hiff.mp hw, fun hk => hiff.mpr (hk h)⟩
    · refine iff_of_true ?_ fun h' => absurd h' h
      rw [Within, accessesOf, txDescs_of_not_reaches h]
      exact nofun
  | write _ _ | reset | pollIrq | dmaCheck | processDma _ | txWake | txDone _ => exact iff_of_true nofun trivial

/-- In every run: every descriptor access of every step is to an entry of the ring, by the base and size in force,
if and only if every step that comes to a ring finds its tail below its size. -/
theorem within_iff_tailInRange {bridge netif : Bool} {es : List NicEvent} {t : RingBounds}
    (h : SmartEth.run step (init bridge netif) es = some t) :
    Always step Within (init bridge netif) es ↔ Along step TailInRange (init bridge netif) es := by
  refine always_iff_along (I := fun _ => True) ?_ ?_ trivial ?_ ?_
  · exact fun _ _ _ _ _ => trivial
  · exact fun _ _ _ _ _ he => within_step he
  · exact nofun
  · rw [h]
    rfl

/-- The RX ring shrinks under its tail, and a frame arrives. -/
def exampleShrunk : List NicEvent :=
  [.write SC_REG_RX_RING_BASE_LO 0x1000, .write SC_REG_RX_RING_SIZE 64, .write SC_REG_RX_TAIL 63,
    .write SC_REG_RX_RING_SIZE 4, NicRun.broadcast]

/-- The descriptor read and written back is number 63 of four. -/
theorem shrunk_ring_overrun : ¬ ∀ (bridge netif : Bool) (es : List NicEvent),
    Always step Within (init bridge netif) es := by
  intro h
  have hr : (SmartEth.run step (init true true) exampleShrunk).map accesses =
      some [⟨0x13F0, 0x1000, 4⟩, ⟨0x13F0, 0x1000, 4⟩] := by decide +kernel
  obtain ⟨t, ht, ha⟩ := Option.map_eq_some_iff.mp hr
  have hin : DescAccess.InRing ⟨0x13F0, 0x1000, 4⟩ :=
    h true true exampleShrunk exampleShrunk (List.prefix_refl _) t ht _ (ha ▸ List.mem_cons_self)
  exact absurd ((inRing_tail_iff 0x1000 63 4).mp hin) (by decide)

/-- Frames for the last descriptor of a ring and, after it, the first. -/
def exampleWrapped : List NicEvent :=
  [.write SC_REG_RX_RING_BASE_LO 0x1000, .write SC_REG_RX_RING_SIZE 4, .write SC_REG_RX_TAIL 3, NicRun.broadcast,
    NicRun.broadcast]

theorem within_iff_tailInRange_wrapped : Always step Within (init true true) exampleWrapped := by
  have hr : ((SmartEth.run step (init true true) exampleWrapped).map fun t => t.run.nic.reg SC_REG_RX_TAIL) =
      some 1 := by decide +kernel
  obtain ⟨t, ht, -⟩ := Option.map_eq_some_iff.mp hr
  exact (within_iff_tailInRange ht).mpr (by decide +kernel)

/-! ## What the NIC sees to itself -/

theorem nextTail_lt (tail : Word) {size : Word} (h : size ≠ 0) : nextTail tail size < size :=
  BitVec.umod_lt _ ((BitVec.pos_iff_ne_zero _).mpr h)

/-- The registers that `Tails` is about. -/
def RING_REGS : List Addr := [SC_REG_RX_TAIL, SC_REG_RX_RING_SIZE, SC_REG_TX_TAIL, SC_REG_TX_RING_SIZE]

theorem Tails.setReg {s : SmartNic} (h : Tails s) {a : Addr}
    (ha : a >>> 2 ∉ RING_REGS.map fun b : Addr => b >>> 2) (v : Word) : Tails (s.setReg a v) := by
  have hreg : ∀ b ∈ RING_REGS, (s.setReg a v).reg b = s.reg b := fun b hb =>
    reg_setReg_ne fun he => ha (he ▸ List.mem_map_of_mem hb)
  refine ⟨?_, ?_⟩
  · rw [hreg SC_REG_RX_TAIL (by decide), hreg SC_REG_RX_RING_SIZE (by decide)]
    exact h.rx
  · rw [hreg SC_REG_TX_TAIL (by decide), hreg SC_REG_TX_RING_SIZE (by decide)]
    exact h.tx

/-- A tail that moves on comes into range. -/
theorem tails_stable : Stable Tails where
  irqStatus := fun v h => h.setReg (by decide) v
  rxAdvance := by
    intro t h
    refine ⟨fun hs => ?_, ?_⟩
    · have hsize : (t.setReg SC_REG_RX_TAIL (nextTail (t.reg SC_REG_RX_TAIL) (t.reg SC_REG_RX_RING_SIZE))).reg
          SC_REG_RX_RING_SIZE = t.reg SC_REG_RX_RING_SIZE := reg_setReg_ne (by decide)
      rw [reg_setReg_self, hsize]
      exact nextTail_lt _ (hsize ▸ hs)
    · rw [reg_setReg_ne (by decide), reg_setReg_ne (by decide)]
      exact h.tx
  txAdvance := by
    intro t h
    refine .setReg ?_ (by decide) _
    refine ⟨?_, fun hs => ?_⟩
    · rw [reg_setReg_ne (by decide), reg_setReg_ne (by decide)]
      exact h.rx
    · have hsize : (t.setReg SC_REG_TX_TAIL (nextTail (t.reg SC_REG_TX_TAIL) (t.reg SC_REG_TX_RING_SIZE))).reg
          SC_REG_TX_RING_SIZE = t.reg SC_REG_TX_RING_SIZE := reg_setReg_ne (by decide)
      rw [reg_setReg_self, hsize]
      exact nextTail_lt _ (hsize ▸ hs)
  pkt := fun _ h => ⟨h.rx, h.tx⟩
  txPending := fun _ h => ⟨h.rx, h.tx⟩

theorem processDmaBody_tails {s : SmartNic} (h : Tails s) : s.processDmaBody.Ensures fun x => Tails x.1 := by
  rw [processDmaBody_eq]
  refine .bind (Prog.ensures_of_forall _ fun x => ?_)
  have hdone : Tails (s.dmaDone x.1) := ⟨h.rx, h.tx⟩
  split
  · exact .bind ((tails_stable.raiseIrq hdone _ _).mono fun _ h => h)
  · exact hdone

theorem onReset_tails (s : SmartNic) : Tails s.onReset := by
  have h : ∀ a, s.onReset.reg a = 0 := fun a => ite_self _
  exact ⟨fun hs => absurd (h _) hs, fun hs => absurd (h _) hs⟩

theorem tails_step {s t : RingBounds} {e : NicEvent} (hs : Tails s.run.nic) (hok : KeepsTails s e)
    (he : s.step e = some t) : Tails t.run.nic := by
  obtain ⟨u, hu, rfl⟩ := Option.map_eq_some_iff.mp he
  simp only [NicRun.driverStep, Option.ite_none_right_eq_some] at hu
  refine NicRun.step_keeps tails_stable (fun addr data hw _ => ?_) (fun _ => onReset_tails _)
    processDmaBody_tails hu.2 hs
  subst hw
  exact hok

theorem Tails.tailInRange {s : RingBounds} (h : Tails s.run.nic) (e : NicEvent) : TailInRange s e := by
  cases e with
  | packet data r => exact fun hr => h.rx fun h0 => hr.2.2 (.inl h0)
  | txIteration r => exact fun hr => h.tx fun h0 => hr.2.2 (.inl h0)
  | write _ _ | reset | pollIrq | dmaCheck | processDma _ | txWake | txDone _ => trivial

/-- As long as the host's writes leave the tails in range, the NIC keeps to its rings. -/
theorem within_of_keepsTails {bridge netif : Bool} {es : List NicEvent}
    (h : Along step KeepsTails (init bridge netif) es) : Always step Within (init bridge netif) es := by
  have h0 : Tails (init bridge netif).run.nic := ⟨fun hs => absurd rfl hs, fun hs => absurd rfl hs⟩
  rintro pre ⟨suf, rfl⟩ t ht
  have hpre : Along step KeepsTails (init bridge netif) pre := (along_append h ht).1
  have hinv : Tails t.run.nic ∧ Within t := by
    refine run_inv_along (I := fun s => Tails s.run.nic ∧ Within s) ?_ ⟨h0, nofun⟩ hpre ht
    exact fun s e u hs hok he => ⟨tails_step hs.1 hok he, (within_step he).mpr (hs.1.tailInRange e)⟩
  exact hinv.2

end RingBounds

end SmartEth
