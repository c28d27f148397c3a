import SmartEth.Impl.SmartEthMain
import SmartEth.System.NicRun
import SmartEth.Proof.NicFrame

/-!
# The NIC on its own

What each section does to the interrupt status and what it sends
(`Quiet`, `Raised`), and that sends come last in it (`sends_last`). So a send is
masked as it should be exactly when its step is `Enabled` (`masked_iff_enabled`).
Neither reset restores power-on from every state, and `on_reset` does from none
(`not_restores`).
-/

namespace SmartEth

/-! ## What a section may come to -/

/-- A section that has sent `vs` does nothing more once it has sent one, and
whatever the bridge answers, its result and the vectors sent meet `Q`. -/
def NicM.Ends {α : Type} (Q : α → List Word → Prop) : NicM α → List Word → Prop
  | .ret a, vs => Q a vs
  | .op e k, vs => vs = [] ∧ ∀ r, NicM.Ends Q (k r) (vs ++ e.vector.toList)

theorem NicM.Ends.bind {α β : Type} {Q : β → List Word → Prop} {p : NicM α} {f : α → NicM β} {vs : List Word}
    (h : p.Ends (fun a vs => (f a).Ends Q vs) vs) : NicM.Ends Q (p >>= f) vs := by
  induction p generalizing vs with
  | ret a => exact h
  | op e k ih => exact ⟨h.1, fun r => ih r (h.2 r)⟩

theorem NicM.Ends.mono {α : Type} {Q Q' : α → List Word → Prop} {p : NicM α} {vs : List Word} (h : p.Ends Q vs)
    (hQ : ∀ a vs, Q a vs → Q' a vs) : p.Ends Q' vs := by
  induction p generalizing vs with
  | ret a => exact hQ _ _ h
  | op e k ih => exact ⟨h.1, fun r => ih r (h.2 r)⟩

@[simp] theorem NicM.runSends_ret {α : Type} (a : α) (r : Replies) :
    NicM.runSends (Prog.ret a) r = (a, []) := rfl

/-- What was done before is in front of what a program logs. -/
theorem NicM.exec_logged {α : Type} (p : NicM α) (r : Replies) (ops : List NicOp) :
    p.exec Replies.logged (r, ops) =
      ((p.exec Replies.logged (r, [])).1, (p.exec Replies.logged (r, [])).2.1,
        ops ++ (p.exec Replies.logged (r, [])).2.2) := by
  induction p generalizing r ops with
  | ret a => simp only [Prog.exec_ret, List.append_nil]
  | op e k ih =>
    simp only [Prog.exec_op, Replies.logged, List.nil_append]
    rw [ih _ _ (ops ++ [e]), ih _ _ [e], List.append_assoc]

theorem NicM.runSends_op {α : Type} (e : NicOp) (k : e.Res → NicM α) (r : Replies) :
    NicM.runSends (Prog.op e k) r =
      (((k (r.answer e).1).runSends (r.answer e).2).1,
        e.vector.toList ++ ((k (r.answer e).1).runSends (r.answer e).2).2) := by
  simp only [NicM.runSends, Prog.exec_op, Replies.logged, List.nil_append]
  rw [NicM.exec_logged _ _ [e], List.filterMap_append]
  cases hv : e.vector <;> simp [hv]

theorem NicM.runSends_dmaRead {α : Type} (addr : Addr) (len : Word) (k : Option (List Byte) → NicM α) (r : Replies) :
    NicM.runSends (Prog.op (.dmaRead addr len) k) r =
      (k r.reads.head?.join).runSends { r with reads := r.reads.tail } := NicM.runSends_op _ _ _

theorem NicM.runSends_dmaWrite {α : Type} (addr : Addr) (data : List Byte) (k : Bool → NicM α) (r : Replies) :
    NicM.runSends (Prog.op (.dmaWrite addr data) k) r =
      (k (r.writes.head?.getD false)).runSends { r with writes := r.writes.tail } := NicM.runSends_op _ _ _

theorem NicM.Ends.runSends {α : Type} {Q : α → List Word → Prop} {p : NicM α} (h : p.Ends Q []) (r : Replies) :
    Q (p.runSends r).1 (p.runSends r).2 := by
  have key : ∀ (p : NicM α) (vs : List Word) (r : Replies), p.Ends Q vs →
      Q (p.runSends r).1 (vs ++ (p.runSends r).2) := by
    intro p
    induction p with
    | ret a =>
      intro vs r h
      rw [NicM.runSends_ret, List.append_nil]
      exact h
    | op e k ih =>
      intro vs r h
      rw [NicM.runSends_op, ← List.append_assoc]
      exact ih _ _ _ (h.2 _)
  exact key p [] r h

theorem NicM.Ends.ensures {α : Type} {Q : α → List Word → Prop} {p : NicM α} {vs : List Word} (h : p.Ends Q vs) :
    p.Ensures fun a => ∃ vs, Q a vs := by
  induction p generalizing vs with
  | ret a => exact ⟨vs, h⟩
  | op e k ih => exact fun r => ih r (h.2 r)

/-- Nothing is done after a send, `vs` sent so far. -/
def NicM.SendsLast {α : Type} : NicM α → List Word → Prop
  | .ret _, _ => True
  | .op e k, vs => vs = [] ∧ ∀ r, NicM.SendsLast (k r) (vs ++ e.vector.toList)

theorem NicM.Ends.sendsLast {α : Type} {Q : α → List Word → Prop} {p : NicM α} {vs : List Word} (h : p.Ends Q vs) :
    p.SendsLast vs := by
  induction p generalizing vs with
  | ret a => trivial
  | op e k ih => exact ⟨h.1, fun r => ih r (h.2 r)⟩

namespace NicRun

open SmartNic

/-- What no section changes. -/
structure Frame (s t : SmartNic) : Prop where
  bridge : t.bridge = s.bridge
  netif : t.netif = s.netif
  mac : t.regs.mac = s.regs.mac
  irqEn : t.reg SC_REG_IRQ_EN = s.reg SC_REG_IRQ_EN

theorem Frame.refl (s : SmartNic) : Frame s s := ⟨rfl, rfl, rfl, rfl⟩

theorem Frame.trans {s t u : SmartNic} (h : Frame s t) (h' : Frame t u) : Frame s u :=
  ⟨h'.bridge.trans h.bridge, h'.netif.trans h.netif, h'.mac.trans h.mac, h'.irqEn.trans h.irqEn⟩

theorem Frame.setReg (s : SmartNic) {a : Addr} (v : Word) (h : SC_REG_IRQ_EN >>> 2 ≠ a >>> 2) :
    Frame s (s.setReg a v) := ⟨rfl, rfl, rfl, reg_setReg_ne h⟩

/-- No cause is set, nothing is sent. -/
structure Quiet (s t : SmartNic) (vs : List Word) : Prop extends Frame s t where
  status : t.regs.irqStatus = s.regs.irqStatus
  sent : vs = []

/-- A cause is set, and a vector sent. -/
structure Raised (cause vector : Word) (s t : SmartNic) (vs : List Word) : Prop extends Frame s t where
  status : t.regs.irqStatus = s.regs.irqStatus ||| cause
  sent : vs = if s.bridge then [vector] else []

theorem status_setReg (s : SmartNic) {a : Addr} (v : Word) (h : SC_REG_IRQ_STS >>> 2 ≠ a >>> 2) :
    (s.setReg a v).regs.irqStatus = s.regs.irqStatus := RegBlock.getReg_setReg_ne h

theorem Quiet.refl (s : SmartNic) : Quiet s s [] := ⟨.refl s, rfl, rfl⟩

theorem Quiet.trans {s t u : SmartNic} {vs : List Word} (h : Quiet s t []) (h' : Quiet t u vs) : Quiet s u vs :=
  ⟨h.toFrame.trans h'.toFrame, h'.status.trans h.status, h'.sent⟩

theorem Raised.of_quiet {cause vector : Word} {s t u : SmartNic} {vs : List Word}
    (h' : Raised cause vector t u vs) (h : Quiet s t []) : Raised cause vector s u vs :=
  ⟨h.toFrame.trans h'.toFrame, h.status ▸ h'.status, h.bridge ▸ h'.sent⟩

theorem Quiet.setReg {s t : SmartNic} {vs : List Word} (h : Quiet s t vs) {a : Addr} (v : Word)
    (h1 : SC_REG_IRQ_EN >>> 2 ≠ a >>> 2) (h2 : SC_REG_IRQ_STS >>> 2 ≠ a >>> 2) : Quiet s (t.setReg a v) vs :=
  ⟨h.toFrame.trans (.setReg t v h1), (status_setReg t v h2).trans h.status, h.sent⟩

theorem raiseIrq_ends {s t : SmartNic} {vs : List Word} (h : Quiet s t vs) (cause vector : Word) :
    (t.raiseIrq cause vector).Ends (Raised cause vector s) vs := by
  have hf : Frame s (t.setReg SC_REG_IRQ_STS (t.regs.irqStatus ||| cause)) :=
    h.toFrame.trans (.setReg t _ (by decide))
  have hs : (t.setReg SC_REG_IRQ_STS (t.regs.irqStatus ||| cause)).regs.irqStatus = s.regs.irqStatus ||| cause := by
    rw [← h.status]
    exact RegBlock.getReg_setReg_self _ _ _
  rw [raiseIrq]
  by_cases hb : t.bridge = true
  · rw [if_pos (show (t.setReg _ _).bridge = true from hb)]
    refine ⟨h.sent, fun _ => ⟨hf, hs, ?_⟩⟩
    rw [h.sent, if_pos (h.bridge.symm.trans hb)]
    rfl
  · rw [if_neg (show ¬ (t.setReg _ _).bridge = true from hb)]
    refine ⟨hf, hs, ?_⟩
    rw [h.sent, if_neg fun hb' => hb (h.bridge.trans hb')]

/-! ## Sections -/

theorem dmaReadBridge_ends (s : SmartNic) (addr : Addr) (len : Word) :
    (s.dmaReadBridge addr len).Ends (fun _ vs => vs = []) [] := by
  rw [dmaReadBridge]
  split
  · exact ⟨rfl, fun _ => rfl⟩
  · rfl

theorem dmaWriteBridge_ends (s : SmartNic) (addr : Addr) (data : List Byte) :
    (s.dmaWriteBridge addr data).Ends (fun _ vs => vs = []) [] := by
  rw [dmaWriteBridge]
  split
  · exact ⟨rfl, fun _ => rfl⟩
  · rfl

/-- A program that goes on after DMA. -/
theorem ends_of_dma {α β : Type} {Q : β → List Word → Prop} {p : NicM α} {f : α → NicM β}
    (h : p.Ends (fun _ vs => vs = []) []) (hf : ∀ a, (f a).Ends Q []) : NicM.Ends Q (p >>= f) [] := by
  refine NicM.Ends.bind (h.mono ?_)
  rintro a _ rfl
  exact hf a

theorem readDesc_ends (s : SmartNic) (addr : Addr) : (s.readDesc addr).Ends (fun _ vs => vs = []) [] :=
  ends_of_dma (dmaReadBridge_ends s _ _) fun _ => rfl

theorem start_ends (s : SmartNic) (d : DmaEngine) :
    (d.start s.dmaReadBridge s.dmaWriteBridge).Ends (fun _ vs => vs = []) [] := by
  rw [DmaEngine.start]
  split
  · rfl
  · dsimp only
    split
    · exact ends_of_dma (dmaWriteBridge_ends s _ _) fun _ => rfl
    · exact ends_of_dma (dmaReadBridge_ends s _ _) fun _ => rfl

theorem dmaDone_quiet (s : SmartNic) (d : DmaEngine) : Quiet s (s.dmaDone d) [] :=
  ⟨⟨rfl, rfl, rfl, reg_dmaDone (by decide)⟩, RegBlock.getReg_setReg_ne (by decide), rfl⟩

theorem processDmaBody_ends (s : SmartNic) :
    s.processDmaBody.Ends (fun x vs =>
      if s.reg SC_REG_DMA_CTRL &&& SC_DMA_IRQ_EN ≠ 0 then Raised SC_IRQ_DMA_DONE 0 s x.1 vs
      else Quiet s x.1 vs) [] := by
  rw [processDmaBody_eq]
  refine ends_of_dma (start_ends s s.dma) fun x => ?_
  rw [reg_dmaDone (by decide)]
  by_cases hi : s.reg SC_REG_DMA_CTRL &&& SC_DMA_IRQ_EN ≠ 0
  · simp only [if_pos hi]
    exact NicM.Ends.bind ((raiseIrq_ends (dmaDone_quiet s x.1) _ _).mono fun _ _ h => h)
  · simp only [if_neg hi]
    exact dmaDone_quiet s x.1

theorem processTxDone_ends (s : SmartNic) :
    s.processTxDone.Ends (fun t vs =>
      if s.reg SC_REG_IRQ_EN &&& SC_IRQ_TX_DONE ≠ 0 then Raised SC_IRQ_TX_DONE 1 s t vs
      else Quiet s t vs) [] := by
  rw [processTxDone]
  by_cases hi : s.reg SC_REG_IRQ_EN &&& SC_IRQ_TX_DONE ≠ 0
  · simp only [if_pos hi]
    exact raiseIrq_ends (.refl s) _ _
  · simp only [if_neg hi]
    exact .refl s

theorem txSend_ends (s : SmartNic) (descAddr : Addr) (desc : SmartEthDesc) (pktData : List Byte) :
    (s.txSend descAddr desc pktData).Ends (fun x vs => Quiet s x.1 vs) [] := by
  have hwrite : NicM.Ends (fun x vs => Quiet s x.1 vs) (s.dmaWriteBridge descAddr desc.complete.toBytes >>=
      fun ok => if ok then pure (s.txAdvance, some (100 + desc.length.toNat / 4 * 2)) else pure (s, none)) [] := by
    refine ends_of_dma (dmaWriteBridge_ends s _ _) fun ok => ?_
    split
    · exact ((Quiet.refl s).setReg _ (by decide) (by decide)).setReg _ (by decide) (by decide)
    · exact .refl s
  rw [txSend]
  split
  · exact ⟨rfl, fun _ => hwrite⟩
  · exact hwrite

theorem txFetch_ends (s : SmartNic) (descAddr : Addr) (desc : SmartEthDesc) :
    (s.txFetch descAddr desc).Ends (fun x vs => Quiet s x.1 vs) [] := by
  rw [txFetch]
  split
  · exact ⟨⟨rfl, rfl, rfl, rfl⟩, rfl, rfl⟩
  · refine ends_of_dma (dmaReadBridge_ends s _ _) fun r => ?_
    cases r with
    | none => exact .refl s
    | some pkt => exact txSend_ends s _ _ _

theorem processTxIteration_ends (s : SmartNic) :
    s.processTxIteration.Ends (fun x vs => Quiet s x.1 vs) [] := by
  rw [processTxIteration]
  split
  · exact .refl s
  split
  · exact ⟨⟨rfl, rfl, rfl, rfl⟩, rfl, rfl⟩
  · refine ends_of_dma (readDesc_ends s _) fun r => ?_
    cases r with
    | none => exact .refl s
    | some desc => exact txFetch_ends s _ _

/-- A frame that is accepted, and its descriptor read. -/
theorem rxDeliver_runSends {s : SmartNic} (hb : s.bridge = true) (data : List Byte) (descAddr : Addr)
    (desc : SmartEthDesc) (r : Replies) :
    let x := (s.rxDeliver data descAddr desc).runSends r
    ((∃ ws, r.writes = true :: true :: ws) ∧ s.reg SC_REG_IRQ_EN &&& SC_IRQ_RX ≠ 0 →
        Raised SC_IRQ_RX 1 s x.1 x.2) ∧
      (¬ ((∃ ws, r.writes = true :: true :: ws) ∧ s.reg SC_REG_IRQ_EN &&& SC_IRQ_RX ≠ 0) → Quiet s x.1 x.2) := by
  intro x
  have hx : x = (s.rxDeliver data descAddr desc).runSends r := rfl
  rw [rxDeliver, dmaWriteBridge_bind hb, NicM.runSends_dmaWrite] at hx
  have hdrop : x = (s, []) → (¬ ∃ ws, r.writes = true :: true :: ws) →
      ((∃ ws, r.writes = true :: true :: ws) ∧ s.reg SC_REG_IRQ_EN &&& SC_IRQ_RX ≠ 0 →
        Raised SC_IRQ_RX 1 s x.1 x.2) ∧
      (¬ ((∃ ws, r.writes = true :: true :: ws) ∧ s.reg SC_REG_IRQ_EN &&& SC_IRQ_RX ≠ 0) → Quiet s x.1 x.2) :=
    fun hx hn => ⟨fun h => absurd h.1 hn, fun _ => hx ▸ .refl s⟩
  cases h1 : r.writes.head?.getD false with
  | false =>
    rw [h1] at hx
    refine hdrop hx ?_
    rintro ⟨ws, hw⟩
    rw [hw] at h1
    simp at h1
  | true =>
    rw [h1, if_pos rfl, dmaWriteBridge_bind hb, NicM.runSends_dmaWrite] at hx
    cases h2 : r.writes.tail.head?.getD false with
    | false =>
      rw [h2] at hx
      refine hdrop hx ?_
      rintro ⟨ws, hw⟩
      rw [hw] at h2
      simp at h2
    | true =>
      rw [h2, if_pos rfl] at hx
      have hw : ∃ ws, r.writes = true :: true :: ws := by
        rcases hws : r.writes with _ | ⟨_ | _, _ | ⟨_ | _, ws⟩⟩ <;> rw [hws] at h1 h2 <;> simp at h1 h2
        exact ⟨ws, rfl⟩
      have hq : Quiet s (s.setReg SC_REG_RX_TAIL (nextTail (s.reg SC_REG_RX_TAIL) (s.reg SC_REG_RX_RING_SIZE))) [] :=
        (Quiet.refl s).setReg _ (by decide) (by decide)
      by_cases hi : s.reg SC_REG_IRQ_EN &&& SC_IRQ_RX ≠ 0
      · rw [if_pos (hq.irqEn.symm ▸ hi)] at hx
        rw [hx]
        exact ⟨fun _ => (raiseIrq_ends hq _ _).runSends _, fun h => absurd ⟨hw, hi⟩ h⟩
      · rw [if_neg (hq.irqEn.symm ▸ hi)] at hx
        rw [hx]
        exact ⟨fun h => absurd h.2 hi, fun _ => hq⟩

/-- What a frame comes to: it raises RX exactly when it is delivered and RX is enabled. -/
theorem onPacketRx_runSends (s : SmartNic) (data : List Byte) (r : Replies) :
    let x := (s.onPacketRx data).runSends r
    (Delivers s data r ∧ s.reg SC_REG_IRQ_EN &&& SC_IRQ_RX ≠ 0 → Raised SC_IRQ_RX 1 s x.1 x.2) ∧
      (¬ (Delivers s data r ∧ s.reg SC_REG_IRQ_EN &&& SC_IRQ_RX ≠ 0) → Quiet s x.1 x.2) := by
  intro x
  have hx : x = (s.onPacketRx data).runSends r := rfl
  rw [onPacketRx] at hx
  generalize hu : ({ s with pkt := (s.pkt.receive data).1 } : SmartNic) = u at hx
  have hq : Quiet s u [] := hu ▸ ⟨⟨rfl, rfl, rfl, rfl⟩, rfl, rfl⟩
  -- a frame that is dropped on the way
  have hdrop : x = (u, []) → ¬ Delivers s data r →
      (Delivers s data r ∧ s.reg SC_REG_IRQ_EN &&& SC_IRQ_RX ≠ 0 → Raised SC_IRQ_RX 1 s x.1 x.2) ∧
        (¬ (Delivers s data r ∧ s.reg SC_REG_IRQ_EN &&& SC_IRQ_RX ≠ 0) → Quiet s x.1 x.2) :=
    fun hx hn => ⟨fun h => absurd h.1 hn, fun _ => hx ▸ hq⟩
  by_cases hm : u.rxMatch data = true
  swap
  · rw [if_pos (by simpa using hm)] at hx
    exact hdrop hx fun h => hm (hu ▸ h.rxMatch)
  rw [if_neg (by simpa using hm)] at hx
  have hring : u.reg SC_REG_RX_RING_SIZE = s.reg SC_REG_RX_RING_SIZE ∧ u.rxRingBase = s.rxRingBase :=
    hu ▸ ⟨rfl, rfl⟩
  by_cases hr : u.reg SC_REG_RX_RING_SIZE = 0 ∨ u.rxRingBase = 0
  · rw [if_pos hr] at hx
    rw [hring.1, hring.2] at hr
    exact hdrop hx fun h => h.ring hr
  rw [if_neg hr] at hx
  by_cases hb : u.bridge = true
  swap
  · rw [readDesc_bind_of_not hb] at hx
    exact hdrop hx fun h => hb (hq.bridge.trans h.bridge)
  rw [readDesc_bind hb, NicM.runSends_dmaRead] at hx
  rcases hreads : r.reads with _ | ⟨_ | bs, reads⟩
  · rw [hreads] at hx
    refine hdrop hx fun h => ?_
    obtain ⟨bs, reads, hd, -⟩ := h.desc
    rw [hreads] at hd
    simp at hd
  · rw [hreads] at hx
    refine hdrop hx fun h => ?_
    obtain ⟨bs, reads', hd, -⟩ := h.desc
    rw [hreads] at hd
    simp at hd
  · rw [hreads] at hx
    have hx' : x = NicM.runSends (if !(SmartEthDesc.ofBytes (overlay (List.replicate SmartEthDesc.size 0) bs)).own
        then pure u else u.rxDeliver data u.rxDescAddr
          (.ofBytes (overlay (List.replicate SmartEthDesc.size 0) bs))) { r with reads := reads } := hx
    generalize hdesc : SmartEthDesc.ofBytes (overlay (List.replicate SmartEthDesc.size 0) bs) = desc at hx'
    by_cases ho : desc.own = true
    · rw [if_neg (by simpa using ho)] at hx'
      obtain ⟨h1, h2⟩ := rxDeliver_runSends hb data u.rxDescAddr desc { r with reads := reads }
      rw [← hx'] at h1 h2
      have hm' : s.rxMatch data = true := by
        rw [← hu] at hm
        exact hm
      have hiff : Delivers s data r ↔ ∃ ws, r.writes = true :: true :: ws := by
        refine ⟨fun h => h.writes, fun hw => ⟨hq.bridge.symm.trans hb, hm', ?_, ⟨bs, reads, hreads, hdesc ▸ ho⟩, hw⟩⟩
        rwa [← hring.1, ← hring.2]
      rw [hiff, ← hq.irqEn]
      exact ⟨fun h => (h1 h).of_quiet hq, fun h => hq.trans (h2 h)⟩
    · rw [if_pos (by simpa using ho)] at hx'
      refine hdrop hx' fun h => ?_
      obtain ⟨bs', reads', hd, ho'⟩ := h.desc
      rw [hreads, List.cons.injEq, Option.some.injEq] at hd
      rw [← hd.1, hdesc] at ho'
      exact ho ho'

theorem rxDeliver_ends (s : SmartNic) (data : List Byte) (descAddr : Addr) (desc : SmartEthDesc) :
    (s.rxDeliver data descAddr desc).Ends (fun t vs => Quiet s t vs ∨ Raised SC_IRQ_RX 1 s t vs) [] := by
  have hq : Quiet s (s.setReg SC_REG_RX_TAIL (nextTail (s.reg SC_REG_RX_TAIL) (s.reg SC_REG_RX_RING_SIZE))) [] :=
    (Quiet.refl s).setReg _ (by decide) (by decide)
  rw [rxDeliver]
  refine ends_of_dma (dmaWriteBridge_ends s _ _) fun ok => ?_
  split
  · refine ends_of_dma (dmaWriteBridge_ends s _ _) fun ok' => ?_
    split
    · dsimp only
      split
      · exact (raiseIrq_ends hq _ _).mono fun _ _ => .inr
      · exact .inl hq
    · exact .inl (.refl s)
  · exact .inl (.refl s)

theorem onPacketRx_ends (s : SmartNic) (data : List Byte) :
    (s.onPacketRx data).Ends (fun t vs => Quiet s t vs ∨ Raised SC_IRQ_RX 1 s t vs) [] := by
  have hq : Quiet s { s with pkt := (s.pkt.receive data).1 } [] := ⟨⟨rfl, rfl, rfl, rfl⟩, rfl, rfl⟩
  rw [onPacketRx]
  generalize ({ s with pkt := (s.pkt.receive data).1 } : SmartNic) = u at hq ⊢
  split
  · exact .inl hq
  split
  · exact .inl hq
  refine ends_of_dma (readDesc_ends u _) fun r => ?_
  cases r with
  | none => exact .inl hq
  | some desc =>
    dsimp only
    split
    · exact .inl hq
    · exact (rxDeliver_ends u _ _ _).mono fun _ _ => Or.imp hq.trans fun h => h.of_quiet hq

theorem pollIrqBody_ends (s : SmartNic) :
    s.pollIrqBody.Ends (fun _ vs => vs ≠ [] ↔ s.regs.irqStatus ≠ 0 ∧ s.bridge = true) [] := by
  rw [pollIrqBody]
  split
  · rename_i h
    exact ⟨rfl, fun _ => iff_of_true (by simp [NicOp.vector]) h⟩
  · rename_i h
    exact iff_of_false (not_not.mpr rfl) h

/-- A section does nothing after it has sent an interrupt. -/
theorem sends_last (s : SmartNic) (data : List Byte) :
    (s.onPacketRx data).SendsLast [] ∧ s.pollIrqBody.SendsLast [] ∧ s.processDmaBody.SendsLast [] ∧
      s.processTxIteration.SendsLast [] ∧ s.processTxDone.SendsLast [] :=
  ⟨(onPacketRx_ends s data).sendsLast, (pollIrqBody_ends s).sendsLast, (processDmaBody_ends s).sendsLast,
    (processTxIteration_ends s).sendsLast, (processTxDone_ends s).sendsLast⟩

/-! ## Reset -/

theorem onMmioWrite_frame (s : SmartNic) (addr : Addr) (data : Word) :
    (s.onMmioWrite addr data).1.bridge = s.bridge ∧ (s.onMmioWrite addr data).1.regs.mac = s.regs.mac := by
  rw [onMmioWrite_fst]
  dsimp only
  split
  · exact ⟨rfl, RegBlock.mac_write _ _ _⟩
  · exact ⟨rfl, RegBlock.mac_write _ _ _⟩

theorem exec_of_ensures {α : Type} {Q : α → Prop} {p : NicM α} (h : p.Ensures Q) (r : Replies) : Q (p.runSends r).1 :=
  h.exec Replies.logged (r, [])

/-- A property that this register write, resets and transfers keep, the step keeps if it is a stable one. -/
theorem step_keeps {P : SmartNic → Prop} (hP : Stable P) {s t : NicRun} {e : NicEvent}
    (hwrite : ∀ addr data, e = .write addr data → P s.nic → P (s.nic.onMmioWrite addr data).1)
    (hreset : P s.nic → P s.nic.onReset) (hdma : P s.nic → s.nic.processDmaBody.Ensures fun x => P x.1)
    (he : s.step e = some t) (hs : P s.nic) : P t.nic := by
  cases e with
  | write addr data =>
    cases he
    exact hwrite addr data rfl hs
  | reset =>
    cases he
    exact hreset hs
  | packet data r =>
    cases he
    exact exec_of_ensures (hP.onPacketRx hs data) r
  | pollIrq =>
    cases he
    exact hs
  | dmaCheck =>
    simp only [step, Option.ite_none_right_eq_some, Option.some.injEq] at he
    obtain ⟨-, rfl⟩ := he
    exact hs
  | processDma r =>
    simp only [step, Option.ite_none_right_eq_some, Option.some.injEq] at he
    obtain ⟨-, rfl⟩ := he
    exact exec_of_ensures (hdma hs) r
  | txWake =>
    simp only [step, Option.ite_none_right_eq_some, Option.some.injEq] at he
    obtain ⟨-, rfl⟩ := he
    exact hs
  | txIteration r =>
    simp only [step, Option.ite_none_right_eq_some, Option.some.injEq] at he
    obtain ⟨-, rfl⟩ := he
    exact exec_of_ensures (hP.processTxIteration hs) r
  | txDone r =>
    simp only [step, Option.ite_none_right_eq_some, Option.some.injEq] at he
    obtain ⟨-, rfl⟩ := he
    exact exec_of_ensures (hP.processTxDone hs) r

/-- No step changes the pointer to the bridge or the stored MAC address. -/
theorem step_frame {s t : NicRun} {e : NicEvent} (he : s.step e = some t) :
    t.nic.bridge = s.nic.bridge ∧ t.nic.regs.mac = s.nic.regs.mac := by
  have hP : Stable fun u => u.bridge = s.nic.bridge ∧ u.regs.mac = s.nic.regs.mac :=
    .of_setReg (fun _ _ h => h) (fun _ h => h) fun _ h => h
  refine step_keeps hP (fun addr data _ _ => ?_) (fun h => h) (fun h => ?_) he ⟨rfl, rfl⟩
  · exact onMmioWrite_frame s.nic addr data
  · rw [processDmaBody_eq]
    refine .bind (Prog.ensures_of_forall _ fun x => ?_)
    split
    · exact .bind ((hP.raiseIrq (s := s.nic.dmaDone x.1) h _ _).mono fun _ h => h)
    · exact h

/-- A `CTRL` reset leaves what is pending. -/
theorem onMmioWrite_reset {s : SmartNic} (hm : s.regs.mac = RegBlock.new.mac) {data : Word}
    (hd : data &&& SC_CTRL_RESET ≠ 0) :
    (s.onMmioWrite SC_REG_CTRL data).1 = { s with regs := RegBlock.new } := by
  rw [onMmioWrite_fst, RegBlock.write_reset hm ⟨rfl, hd⟩]
  dsimp only
  rw [if_neg fun h => absurd h.1 (by decide), decide_eq_false fun h => absurd h.1 (by decide), Bool.or_false]

/-- No reset restores power-on in both ways: `on_reset` leaves all registers zero,
the MAC address too; a `CTRL` reset restores the registers, and leaves requests
that are pending as they are. -/
theorem not_restores {bridge netif : Bool} {es : List NicEvent} {s : NicRun}
    (h : run step (init bridge netif) es = some s) :
    (∀ data : Word, data &&& SC_CTRL_RESET ≠ 0 →
      (PowerOn (s.nic.onMmioWrite SC_REG_CTRL data).1 ↔ s.nic.dmaPending = false ∧ s.nic.txPending = false)) ∧
      s.nic.onReset.regs.regs = (fun _ => 0) ∧ ¬ Restores s := by
  have hm : s.nic.regs.mac = RegBlock.new.mac :=
    run_inv (I := fun s : NicRun => s.nic.regs.mac = RegBlock.new.mac)
      (fun _ _ _ hi he => (step_frame he).2.trans hi) rfl h
  have hz : s.nic.onReset.regs.regs = fun _ => 0 := by
    funext i
    show (if i = _ then (0 : Word) else 0) = 0
    rw [ite_self]
  refine ⟨fun data hd => ?_, hz, fun hr => ?_⟩
  · rw [onMmioWrite_reset hm hd]
    exact ⟨fun hp => ⟨hp.dma, hp.tx⟩, fun hp => ⟨rfl, hp.1, hp.2⟩⟩
  · have hlo := congrFun hr.2.regs (SC_REG_MAC_LO >>> 2)
    rw [hz] at hlo
    exact absurd hlo (by decide)

/-- A transfer is started. -/
def startRun : List NicEvent := [.write SC_REG_DMA_LEN 64, .write SC_REG_DMA_CTRL SC_DMA_START]

/-- A `CTRL` reset leaves the transfer pending that was started before it; and after
`on_reset` the MAC address reads zero. -/
theorem reset_keeps_transfer : ∃ s, run step (init true true) startRun = some s ∧
    (s.nic.onMmioWrite SC_REG_CTRL SC_CTRL_RESET).1.dmaPending = true ∧
    s.nic.onReset.onMmioRead SC_REG_MAC_LO = 0 ∧ ¬ Restores s := by
  have hr : ((run step (init true true) startRun).map fun s =>
      ((s.nic.onMmioWrite SC_REG_CTRL SC_CTRL_RESET).1.dmaPending, s.nic.onReset.onMmioRead SC_REG_MAC_LO)) =
      some (true, 0) := by decide +kernel
  obtain ⟨s, hs, he⟩ := Option.map_eq_some_iff.mp hr
  rw [Prod.mk.injEq] at he
  refine ⟨s, hs, he.1, he.2, fun hres => ?_⟩
  have := (hres.1 SC_CTRL_RESET (by decide)).dma
  rw [he.1] at this
  simp at this

theorem not_restores_startRun : ∃ s, run step (init true true) startRun = some s ∧ ¬ Restores s := by
  have hr : (run step (init true true) startRun).isSome = true := by decide +kernel
  obtain ⟨s, hs⟩ := Option.isSome_iff_exists.mp hr
  exact ⟨s, hs, (not_restores hs).2.2⟩

/-! ## Interrupts -/

/-- A write that changes the interrupt status sends vector 0. -/
theorem onMmioWrite_sent (s : SmartNic) (addr : Addr) (data : Word) :
    (s.onMmioWrite addr data).2.filterMap NicOut.vector =
      if (addr = SC_REG_IRQ_STS ∨ addr = SC_REG_IRQ_TEST ∧ data ≠ 0) ∧ s.bridge = true then [0] else [] := by
  have hn : (if addr = SC_REG_TX_DOORBELL ∧ data ≠ 0 then [NicOut.notifyTx] else []).filterMap NicOut.vector = [] := by
    split <;> rfl
  rw [onMmioWrite_snd, List.filterMap_append, hn, List.nil_append, RegBlock.write_snd]
  by_cases h : (addr = SC_REG_IRQ_STS ∨ addr = SC_REG_IRQ_TEST ∧ data ≠ 0) ∧ s.bridge = true
  · rw [if_pos h, decide_eq_true h.1, h.2]
    rfl
  · rw [if_neg h, if_neg]
    · rfl
    · rw [Bool.and_eq_true, decide_eq_true_eq]
      exact h

/-- An acknowledgement. -/
theorem onMmioWrite_ack (s : SmartNic) (data : Word) :
    (s.onMmioWrite SC_REG_IRQ_STS data).1.regs.irqStatus = s.regs.irqStatus &&& ~~~data ∧
      (s.onMmioWrite SC_REG_IRQ_STS data).1.reg SC_REG_IRQ_EN = s.reg SC_REG_IRQ_EN := by
  rw [onMmioWrite_fst, RegBlock.write_of_not_reset _ fun h => absurd h.1 (by decide)]
  dsimp only
  rw [if_neg fun h => absurd h.1 (by decide), if_neg (by decide), if_pos rfl]
  exact ⟨RegBlock.getReg_setReg_self _ _ _, RegBlock.getReg_setReg_ne (by decide)⟩

/-- A test interrupt. -/
theorem onMmioWrite_test (s : SmartNic) {data : Word} (hd : data ≠ 0) :
    (s.onMmioWrite SC_REG_IRQ_TEST data).1.regs.irqStatus = s.regs.irqStatus ||| SC_IRQ_TEST ∧
      (s.onMmioWrite SC_REG_IRQ_TEST data).1.reg SC_REG_IRQ_EN = s.reg SC_REG_IRQ_EN := by
  rw [onMmioWrite_fst, RegBlock.write_of_not_reset _ fun h => absurd h.1 (by decide)]
  dsimp only
  rw [if_neg fun h => absurd h.1 (by decide), if_neg (by decide), if_neg (by decide), if_pos rfl, if_neg hd]
  exact ⟨RegBlock.getReg_setReg_self _ _ _, RegBlock.getReg_setReg_ne (by decide)⟩

theorem masked_write {s t : NicRun} {addr : Addr} {data : Word} (he : s.step (.write addr data) = some t) :
    Masked t ↔ Enabled s (.write addr data) := by
  cases he
  simp only [Masked, Enabled, next, onMmioWrite_sent]
  by_cases hb : s.nic.bridge = true
  swap
  · rw [if_neg fun h => hb h.2]
    exact iff_of_true (fun h => absurd rfl h) fun h => absurd h hb
  by_cases hsts : addr = SC_REG_IRQ_STS
  · subst hsts
    rw [if_pos ⟨.inl rfl, hb⟩, (onMmioWrite_ack s.nic data).1, (onMmioWrite_ack s.nic data).2]
    exact ⟨fun h _ => ⟨fun _ => h (by decide), fun ht => absurd ht (by decide)⟩, fun h _ => (h hb).1 rfl⟩
  by_cases htest : addr = SC_REG_IRQ_TEST ∧ data ≠ 0
  · obtain ⟨rfl, hd⟩ := htest
    rw [if_pos ⟨.inr ⟨rfl, hd⟩, hb⟩, (onMmioWrite_test s.nic hd).1, (onMmioWrite_test s.nic hd).2]
    exact ⟨fun h _ => ⟨fun ht => absurd ht hsts, fun _ _ => h (by decide)⟩, fun h _ => (h hb).2 rfl hd⟩
  · rw [if_neg fun h => h.1.elim hsts htest]
    exact iff_of_true (fun h => absurd rfl h) fun _ => ⟨fun h => absurd h hsts, fun h hd => absurd ⟨h, hd⟩ htest⟩

/-- A bit that is set in an enable register makes the two meet. -/
theorem or_and_ne_zero {sts cause en : Word} (h : en &&& cause ≠ 0) : (sts ||| cause) &&& en ≠ 0 := by
  intro h0
  rw [BitVec.and_comm, BitVec.and_or_distrib_left] at h0
  exact h (BitVec.or_eq_zero_iff.mp h0).2

theorem Quiet.masked {s t : NicRun} (h : Quiet s.nic t.nic t.sent) : Masked t := fun hs => absurd h.sent hs

/-- What a cause that is raised means for the mask. -/
theorem Raised.masked {cause vector : Word} {s t : NicRun} (h : Raised cause vector s.nic t.nic t.sent) :
    Masked t ↔ (s.nic.bridge = true → (s.nic.regs.irqStatus ||| cause) &&& s.nic.reg SC_REG_IRQ_EN ≠ 0) := by
  rw [Masked, h.sent, h.status, h.irqEn]
  by_cases hb : s.nic.bridge = true
  · rw [if_pos hb]
    exact ⟨fun hm _ => hm (by simp), fun hm _ => hm hb⟩
  · rw [if_neg hb]
    exact iff_of_true (fun h => absurd rfl h) fun h => absurd h hb

/-- A step leaves the interrupts masked as they should be exactly when it is `Enabled`. -/
theorem masked_step {s t : NicRun} {e : NicEvent} (he : s.step e = some t) : Masked t ↔ Enabled s e := by
  cases e with
  | write addr data => exact masked_write he
  | reset =>
    cases he
    exact iff_of_true (fun h => absurd rfl h) trivial
  | packet data r =>
    cases he
    refine iff_of_true ?_ trivial
    by_cases hd : Delivers s.nic data r ∧ s.nic.reg SC_REG_IRQ_EN &&& SC_IRQ_RX ≠ 0
    · exact (Raised.masked (s := s) ((onPacketRx_runSends s.nic data r).1 hd)).mpr fun _ => or_and_ne_zero hd.2
    · exact Quiet.masked (s := s) ((onPacketRx_runSends s.nic data r).2 hd)
  | pollIrq =>
    cases he
    have h := (pollIrqBody_ends s.nic).runSends ⟨[], []⟩
    simp only [Masked, Enabled, next, h]
    exact ⟨fun hm hb hs => hm ⟨hs, hb⟩, fun hm hs => hm hs.2 hs.1⟩
  | dmaCheck =>
    simp only [step, Option.ite_none_right_eq_some, Option.some.injEq] at he
    obtain ⟨-, rfl⟩ := he
    exact iff_of_true (fun h => absurd rfl h) trivial
  | processDma r =>
    simp only [step, Option.ite_none_right_eq_some, Option.some.injEq] at he
    obtain ⟨-, rfl⟩ := he
    have h := (processDmaBody_ends s.nic).runSends r
    by_cases hi : s.nic.reg SC_REG_DMA_CTRL &&& SC_DMA_IRQ_EN ≠ 0
    · rw [if_pos hi] at h
      refine (Raised.masked (s := s) h).trans ?_
      exact ⟨fun hm hb _ => hm hb, fun hm hb => hm hb hi⟩
    · rw [if_neg hi] at h
      exact iff_of_true (Quiet.masked (s := s) h) fun _ h => absurd h hi
  | txWake =>
    simp only [step, Option.ite_none_right_eq_some, Option.some.injEq] at he
    obtain ⟨-, rfl⟩ := he
    exact iff_of_true (fun h => absurd rfl h) trivial
  | txIteration r =>
    simp only [step, Option.ite_none_right_eq_some, Option.some.injEq] at he
    obtain ⟨-, rfl⟩ := he
    exact iff_of_true (Quiet.masked (s := s) ((processTxIteration_ends s.nic).runSends r)) trivial
  | txDone r =>
    simp only [step, Option.ite_none_right_eq_some, Option.some.injEq] at he
    obtain ⟨-, rfl⟩ := he
    refine iff_of_true ?_ trivial
    have h := (processTxDone_ends s.nic).runSends r
    by_cases hi : s.nic.reg SC_REG_IRQ_EN &&& SC_IRQ_TX_DONE ≠ 0
    · rw [if_pos hi] at h
      exact (Raised.masked (s := s) h).mpr fun _ => or_and_ne_zero hi
    · rw [if_neg hi] at h
      exact Quiet.masked (s := s) h

/-- Throughout a run no interrupt is sent that is masked, or for no cause, if and only
if every step is `Enabled`. -/
theorem masked_iff_enabled {bridge netif : Bool} {es : List NicEvent} {t : NicRun}
    (h : run step (init bridge netif) es = some t) :
    Always step Masked (init bridge netif) es ↔ Along step Enabled (init bridge netif) es := by
  refine always_iff_along (I := fun _ => True) (fun _ _ _ _ _ => trivial) (fun _ _ _ _ _ he => masked_step he)
    trivial (fun hs => absurd rfl hs) ?_
  rw [h]
  rfl

/-- A test interrupt is raised with all interrupts masked. -/
theorem masked_test_sent : ∃ t, run step (init true true) [.write SC_REG_IRQ_TEST 1] = some t ∧
    t.sent = [0] ∧ ¬ Masked t := by
  have hr : ((run step (init true true) [.write SC_REG_IRQ_TEST 1]).map fun t =>
      (t.sent, t.nic.regs.irqStatus &&& t.nic.reg SC_REG_IRQ_EN)) = some ([0], 0) := by decide +kernel
  obtain ⟨t, ht, he⟩ := Option.map_eq_some_iff.mp hr
  rw [Prod.mk.injEq] at he
  refine ⟨t, ht, he.1, fun hm => hm ?_ he.2⟩
  rw [he.1]
  simp

/-- The test interrupt is enabled, raised, polled and acknowledged, with another cause set. -/
def exampleEnabled : List NicEvent :=
  [.write SC_REG_IRQ_EN (SC_IRQ_TEST ||| SC_IRQ_DMA_DONE), .write SC_REG_IRQ_TEST 1, .pollIrq,
    .write SC_REG_DMA_LEN 4, .write SC_REG_DMA_CTRL (SC_DMA_START ||| SC_DMA_IRQ_EN), .dmaCheck,
    .processDma ⟨[some [1, 2, 3, 4]], []⟩, .write SC_REG_IRQ_STS SC_IRQ_TEST]

theorem masked_iff_enabled_test : ∃ t, run step (init true true) exampleEnabled = some t ∧ t.sent = [0] ∧
    Always step Masked (init true true) exampleEnabled := by
  have hr : (run step (init true true) exampleEnabled).map NicRun.sent = some [0] := by decide +kernel
  obtain ⟨t, ht, hs⟩ := Option.map_eq_some_iff.mp hr
  exact ⟨t, ht, hs, (masked_iff_enabled ht).mpr (by decide +kernel)⟩

/-! ## Vectors -/

/-- An aligned write sets no cause, unless it is a test. -/
theorem status_write (b : RegBlock) {addr : Addr} {data : Word} (ha : addr &&& 3 = 0)
    (ht : ¬ (addr = SC_REG_IRQ_TEST ∧ data ≠ 0)) :
    (b.write addr data).1.irqStatus &&& ~~~b.irqStatus = 0 := by
  have h3 : SC_REG_IRQ_STS &&& 3 = 0 := by decide
  have hsame : b.irqStatus &&& ~~~b.irqStatus = 0 := BitVec.and_not_self _
  by_cases hr : addr = SC_REG_CTRL ∧ data &&& SC_CTRL_RESET ≠ 0
  · rw [RegBlock.write, hr.1, if_neg (by decide), if_pos rfl, if_pos (bne_iff_ne.mpr hr.2)]
    exact (congrArg (· &&& ~~~b.irqStatus) (RegBlock.getReg_setReg_self _ _ _)).trans BitVec.zero_and
  rw [RegBlock.write_of_not_reset b hr]
  split
  · exact hsame
  split
  · rw [show (b.setReg _ _).irqStatus = b.irqStatus &&& ~~~data from RegBlock.getReg_setReg_self _ _ _,
      BitVec.and_comm, ← BitVec.and_assoc, BitVec.and_comm (~~~b.irqStatus), hsame]
    exact BitVec.zero_and
  split
  · rename_i h
    rw [if_pos (by_contra fun hd => ht ⟨h, hd⟩)]
    exact hsame
  · rename_i hsts _
    rw [show (b.setReg _ _).irqStatus = b.irqStatus from
      RegBlock.getReg_setReg_ne fun h => hsts ((shift_inj h3 ha).mp h).symm]
    exact hsame

theorem onMmioWrite_status (s : SmartNic) (addr : Addr) (data : Word) :
    (s.onMmioWrite addr data).1.regs.irqStatus = (s.regs.write addr data).1.irqStatus := by
  rw [onMmioWrite_fst]
  dsimp only
  split
  · exact RegBlock.getReg_setReg_ne (by decide)
  · rfl

/-- A single bit is newly set, and enabled. -/
theorem new_bit_iff {sts en : Word} (i : Nat) (hi : i < 32) :
    (sts ||| BitVec.twoPow 32 i) &&& ~~~sts &&& en ≠ 0 ↔
      en &&& BitVec.twoPow 32 i ≠ 0 ∧ sts &&& BitVec.twoPow 32 i = 0 := by
  have hnz : BitVec.twoPow 32 i ≠ 0#32 := by
    intro h
    have := congrArg (·.getLsbD i) h
    simp [hi] at this
  rw [BitVec.and_or_distrib_right, BitVec.and_not_self, show (0 : Word) = 0#32 from rfl, BitVec.zero_or, BitVec.and_assoc,
    BitVec.twoPow_and, BitVec.and_twoPow, BitVec.and_twoPow, BitVec.getLsbD_and, BitVec.getLsbD_not]
  cases hs : sts.getLsbD i <;> cases he : en.getLsbD i <;> simp [hi, hnz]

theorem Quiet.reaches {s t : NicRun} (h : Quiet s.nic t.nic t.sent) (hb : t.before = s.nic.regs.irqStatus) :
    Reaches t := by
  intro _ hn
  rw [hb, h.status, BitVec.and_not_self] at hn
  exact absurd BitVec.zero_and hn

/-- A cause that is raised with vector 1 does not reach the driver if it is new. -/
theorem Raised.reaches {s t : NicRun} {i : Nat} (hi : i < 32) (h : Raised (BitVec.twoPow 32 i) 1 s.nic t.nic t.sent)
    (hb : t.before = s.nic.regs.irqStatus) :
    Reaches t ↔ (s.nic.bridge = true → ¬ (s.nic.reg SC_REG_IRQ_EN &&& BitVec.twoPow 32 i ≠ 0 ∧
      s.nic.regs.irqStatus &&& BitVec.twoPow 32 i = 0)) := by
  rw [Reaches, hb, h.status, h.irqEn, h.bridge, new_bit_iff i hi, h.sent]
  refine forall_congr' fun hbr => ?_
  rw [if_pos hbr]
  refine imp_congr_right fun _ => ⟨fun hm => ?_, fun hm => hm.elim⟩
  simp at hm

/-- A step lets its causes reach the driver exactly when it is `OnVectorZero`. -/
theorem reaches_step {s t : NicRun} {e : NicEvent} (ha : e.aligned = true) (he : s.step e = some t) :
    Reaches t ↔ OnVectorZero s e := by
  have hnone : ∀ {u : NicRun}, u.nic.regs.irqStatus = u.before → Reaches u := by
    intro u hu _ hn
    rw [hu, BitVec.and_not_self] at hn
    exact absurd BitVec.zero_and hn
  cases e with
  | write addr data =>
    cases he
    refine iff_of_true (fun hb hn => ?_) trivial
    have hb : s.nic.bridge = true := (onMmioWrite_frame s.nic addr data).1.symm.trans hb
    by_cases ht : addr = SC_REG_IRQ_TEST ∧ data ≠ 0
    · show (0 : Word) ∈ (s.nic.onMmioWrite addr data).2.filterMap NicOut.vector
      rw [onMmioWrite_sent, if_pos ⟨.inr ht, hb⟩]
      exact List.mem_singleton_self _
    · refine absurd ?_ hn
      show (s.nic.onMmioWrite addr data).1.regs.irqStatus &&& ~~~s.nic.regs.irqStatus &&& _ = 0
      rw [onMmioWrite_status, status_write s.nic.regs (of_decide_eq_true ha) ht]
      exact BitVec.zero_and
  | reset =>
    cases he
    refine iff_of_true (fun _ hn => ?_) trivial
    have hz : s.nic.onReset.regs.irqStatus = 0 := RegBlock.getReg_setReg_ne (by decide)
    refine absurd ?_ hn
    show s.nic.onReset.regs.irqStatus &&& ~~~s.nic.regs.irqStatus &&& _ = 0
    rw [hz, show (0 : Word) = 0#32 from rfl, BitVec.zero_and]
    exact BitVec.zero_and
  | packet data r =>
    cases he
    obtain ⟨h1, h2⟩ := onPacketRx_runSends s.nic data r
    by_cases hd : Delivers s.nic data r ∧ s.nic.reg SC_REG_IRQ_EN &&& SC_IRQ_RX ≠ 0
    · have hrx : SC_IRQ_RX = BitVec.twoPow 32 3 := by decide
      refine (Raised.reaches (s := s) (i := 3) (by decide) (hrx ▸ h1 hd) rfl).trans ?_
      rw [OnVectorZero, hrx]
      exact ⟨fun h _ => h hd.1.bridge, fun h _ => h hd.1⟩
    · exact iff_of_true (Quiet.reaches (s := s) (h2 hd) rfl) fun hdel hn => hd ⟨hdel, hn.1⟩
  | pollIrq =>
    cases he
    exact iff_of_true (hnone rfl) trivial
  | dmaCheck =>
    simp only [step, Option.ite_none_right_eq_some, Option.some.injEq] at he
    obtain ⟨-, rfl⟩ := he
    exact iff_of_true (hnone rfl) trivial
  | processDma r =>
    simp only [step, Option.ite_none_right_eq_some, Option.some.injEq] at he
    obtain ⟨-, rfl⟩ := he
    refine iff_of_true ?_ trivial
    have h := (processDmaBody_ends s.nic).runSends r
    by_cases hi : s.nic.reg SC_REG_DMA_CTRL &&& SC_DMA_IRQ_EN ≠ 0
    · rw [if_pos hi] at h
      intro hb _
      show (0 : Word) ∈ (s.nic.processDmaBody.runSends r).2
      rw [h.sent, if_pos (h.bridge.symm.trans hb)]
      exact List.mem_singleton_self _
    · rw [if_neg hi] at h
      exact Quiet.reaches (s := s) h rfl
  | txWake =>
    simp only [step, Option.ite_none_right_eq_some, Option.some.injEq] at he
    obtain ⟨-, rfl⟩ := he
    exact iff_of_true (hnone rfl) trivial
  | txIteration r =>
    simp only [step, Option.ite_none_right_eq_some, Option.some.injEq] at he
    obtain ⟨-, rfl⟩ := he
    exact iff_of_true (Quiet.reaches (s := s) ((processTxIteration_ends s.nic).runSends r) rfl) trivial
  | txDone r =>
    simp only [step, Option.ite_none_right_eq_some, Option.some.injEq] at he
    obtain ⟨-, rfl⟩ := he
    have h := (processTxDone_ends s.nic).runSends r
    have htx : SC_IRQ_TX_DONE = BitVec.twoPow 32 2 := by decide
    by_cases hi : s.nic.reg SC_REG_IRQ_EN &&& SC_IRQ_TX_DONE ≠ 0
    · rw [if_pos hi, htx] at h
      refine (Raised.reaches (s := s) (i := 2) (by decide) h rfl).trans ?_
      rw [OnVectorZero, htx]
    · rw [if_neg hi] at h
      exact iff_of_true (Quiet.reaches (s := s) h rfl) fun _ hn => hi hn.1

/-- From any state, such as the one that `smarteth_probe` leaves: after every step of
a run below the driver the causes that it has set reach the driver if and only if
every step is `OnVectorZero`. -/
theorem reaches_iff_onVectorZero {s t : NicRun} {es : List NicEvent} (h : run driverStep s es = some t) :
    AfterEach driverStep (fun _ => True) Reaches s es ↔ Along driverStep OnVectorZero s es := by
  refine afterEach_iff_along (I := fun _ => True) (fun _ _ _ _ _ _ => trivial) ?_ ?_ trivial ?_
  · intro s e t _ _ he
    simp only [driverStep, Option.ite_none_right_eq_some] at he
    exact reaches_step he.1 he.2
  · exact fun _ _ hn => absurd trivial hn
  · rw [h]
    rfl

/-- The register writes of `smarteth_probe`, its rings at `txRing` and `rxRing`. -/
def probeWrites (txRing rxRing : Addr) : List NicEvent :=
  (SmartEthMain.configWrites txRing rxRing).map fun w => .write w.1 w.2

/-- A broadcast frame for a descriptor that is the NIC's. -/
def broadcast : NicEvent :=
  .packet (List.replicate 14 0xFF) ⟨[some (⟨0x8000, 2048, SMARTETH_DESC_FLAG_OWN⟩ : SmartEthDesc).toBytes], [true, true]⟩

/-- After probe a received frame sets its cause, which is enabled, and is announced on
vector 1. -/
theorem received_on_vector_one : ∃ s, run driverStep (init true true) (probeWrites 0x1000 0x2000) = some s ∧
    ¬ AfterEach driverStep (fun _ => True) Reaches s [broadcast] := by
  have hr : ((run driverStep (init true true) (probeWrites 0x1000 0x2000)).bind fun s =>
      (run driverStep s [broadcast]).map fun t =>
        (t.nic.bridge, t.nic.regs.irqStatus &&& ~~~t.before &&& t.nic.reg SC_REG_IRQ_EN, t.sent)) =
      some (true, SC_IRQ_RX, [1]) := by decide +kernel
  obtain ⟨s, hs, hr⟩ := Option.bind_eq_some_iff.mp hr
  obtain ⟨t, ht, he⟩ := Option.map_eq_some_iff.mp hr
  simp only [Prod.mk.injEq] at he
  refine ⟨s, hs, fun h => ?_⟩
  have hmem := h [] broadcast (List.prefix_refl _) trivial t ht he.1 (by rw [he.2.1]; decide)
  rw [he.2.2] at hmem
  simp at hmem

/-- A test interrupt, and a transfer with its interrupt. -/
def exampleVectorZero : List NicEvent :=
  [.write SC_REG_IRQ_TEST 1, .write SC_REG_DMA_LEN 4, .write SC_REG_DMA_CTRL (SC_DMA_START ||| SC_DMA_IRQ_EN),
    .dmaCheck, .processDma ⟨[some [1, 2, 3, 4]], []⟩]

theorem reaches_iff_onVectorZero_transfer : ∃ s t,
    run driverStep (init true true) (probeWrites 0x1000 0x2000) = some s ∧
      run driverStep s exampleVectorZero = some t ∧ t.sent = [0] ∧
      AfterEach driverStep (fun _ => True) Reaches s exampleVectorZero := by
  have hr : ((run driverStep (init true true) (probeWrites 0x1000 0x2000)).bind fun s =>
      (run driverStep s exampleVectorZero).map NicRun.sent) = some [0] := by decide +kernel
  obtain ⟨s, hs, hr⟩ := Option.bind_eq_some_iff.mp hr
  obtain ⟨t, ht, hsent⟩ := Option.map_eq_some_iff.mp hr
  refine ⟨s, t, hs, ht, hsent, (reaches_iff_onVectorZero ht).mpr ?_⟩
  exact ⟨trivial, fun _ _ => ⟨trivial, fun _ _ => ⟨trivial, fun _ _ => ⟨trivial, fun _ _ => ⟨trivial, fun _ _ => trivial⟩⟩⟩⟩⟩

end NicRun

end SmartEth
