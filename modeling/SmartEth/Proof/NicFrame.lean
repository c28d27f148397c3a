import SmartEth.Impl.Nic

/-!
# What the NIC leaves alone

The NIC's threads change five registers (`NIC_REGS`), the counters of received
packets and what is pending; whatever DMA gives, a section keeps what none of these
changes takes away (`Stable`), such as the other registers and the pointers
(`HostFrame`).
-/

namespace SmartEth.SmartNic

/-- The registers that the NIC changes by itself. -/
def NIC_REGS : List Addr :=
  [SC_REG_IRQ_STS, SC_REG_DMA_STS, SC_REG_TX_DOORBELL, SC_REG_TX_TAIL, SC_REG_RX_TAIL]

/-! ## What the sections keep -/

/-- A property of the NIC that nothing it does to itself, apart from transfers, takes away. -/
structure Stable (P : SmartNic → Prop) : Prop where
  irqStatus : ∀ {t : SmartNic} (v : Word), P t → P (t.setReg SC_REG_IRQ_STS v)
  rxAdvance : ∀ {t : SmartNic}, P t →
    P (t.setReg SC_REG_RX_TAIL (nextTail (t.reg SC_REG_RX_TAIL) (t.reg SC_REG_RX_RING_SIZE)))
  txAdvance : ∀ {t : SmartNic}, P t → P t.txAdvance
  pkt : ∀ {t : SmartNic} (pkt : PktProc), P t → P { t with pkt := pkt }
  txPending : ∀ {t : SmartNic} (b : Bool), P t → P { t with txPending := b }

namespace Stable

variable {P : SmartNic → Prop}

/-- The registers of `NIC_REGS` are of no matter to it, nor is the rest. -/
theorem of_setReg (hset : ∀ {t : SmartNic} {b : Addr} (v : Word), b ∈ NIC_REGS → P t → P (t.setReg b v))
    (hpkt : ∀ {t : SmartNic} (pkt : PktProc), P t → P { t with pkt := pkt })
    (hpending : ∀ {t : SmartNic} (b : Bool), P t → P { t with txPending := b }) : Stable P where
  irqStatus := fun v h => hset v (by decide) h
  rxAdvance := fun h => hset _ (by decide) h
  txAdvance := fun h => hset _ (by decide) (hset _ (by decide) h)
  pkt := hpkt
  txPending := hpending

variable (h : Stable P) {s : SmartNic}
include h

theorem raiseIrq (hs : P s) (cause vector : Word) : (s.raiseIrq cause vector).Ensures P := by
  have hset := h.irqStatus (s.regs.irqStatus ||| cause) hs
  rw [SmartNic.raiseIrq]
  split
  · exact fun _ => hset
  · exact hset

theorem processTxDone (hs : P s) : s.processTxDone.Ensures P := by
  rw [SmartNic.processTxDone]
  split
  · exact h.raiseIrq hs _ _
  · exact hs

theorem txSend (hs : P s) (descAddr : Addr) (desc : SmartEthDesc) (pktData : List Byte) :
    (s.txSend descAddr desc pktData).Ensures fun x => P x.1 := by
  have hwrite : (s.dmaWriteBridge descAddr desc.complete.toBytes >>= fun ok =>
      if ok then pure (s.txAdvance, some (100 + desc.length.toNat / 4 * 2)) else pure (s, none) :
        NicM (SmartNic × Option Nat)).Ensures fun x => P x.1 := by
    refine .bind (Prog.ensures_of_forall _ fun ok => ?_)
    split
    · exact h.txAdvance hs
    · exact hs
  rw [SmartNic.txSend]
  split
  · exact fun _ => hwrite
  · exact hwrite

theorem processTxIteration (hs : P s) : s.processTxIteration.Ensures fun x => P x.1 := by
  have hidle : P { s with txPending := false } := h.txPending false hs
  rw [SmartNic.processTxIteration]
  split
  · exact hs
  split
  · exact hidle
  refine .bind (Prog.ensures_of_forall _ fun r => ?_)
  cases r with
  | none => exact hs
  | some desc =>
    dsimp only
    rw [SmartNic.txFetch]
    split
    · exact hidle
    refine .bind (Prog.ensures_of_forall _ fun r => ?_)
    cases r with
    | none => exact hs
    | some pkt => exact h.txSend hs _ _ _

theorem onPacketRx (hs : P s) (data : List Byte) : (s.onPacketRx data).Ensures P := by
  have hpkt : P { s with pkt := (s.pkt.receive data).1 } := h.pkt _ hs
  rw [SmartNic.onPacketRx]
  generalize ({ s with pkt := (s.pkt.receive data).1 } : SmartNic) = u at hpkt ⊢
  split
  · exact hpkt
  split
  · exact hpkt
  refine .bind (Prog.ensures_of_forall _ fun r => ?_)
  cases r with
  | none => exact hpkt
  | some desc =>
    dsimp only
    split
    · exact hpkt
    rw [rxDeliver]
    refine .bind (Prog.ensures_of_forall _ fun ok => ?_)
    cases ok with
    | false => exact hpkt
    | true =>
      rw [if_pos rfl]
      refine .bind (Prog.ensures_of_forall _ fun ok => ?_)
      cases ok with
      | false => exact hpkt
      | true =>
        have htail := h.rxAdvance hpkt
        rw [if_pos rfl]
        dsimp only
        split
        · exact h.raiseIrq htail _ _
        · exact htail

end Stable

/-! ## Registers of the host -/

/-- A register that only the host changes. -/
def HostReg (a : Addr) : Prop := ∀ b ∈ NIC_REGS, a >>> 2 ≠ b >>> 2

instance (a : Addr) : Decidable (HostReg a) := inferInstanceAs (Decidable (∀ b ∈ NIC_REGS, _))

/-- What no section changes. -/
structure HostFrame (s t : SmartNic) : Prop where
  bridge : t.bridge = s.bridge
  netif : t.netif = s.netif
  reg : ∀ a, HostReg a → t.reg a = s.reg a

namespace HostFrame

variable {s t u : SmartNic}

theorem refl (s : SmartNic) : HostFrame s s := ⟨rfl, rfl, fun _ _ => rfl⟩

theorem trans (h : HostFrame s t) (h' : HostFrame t u) : HostFrame s u :=
  ⟨h'.bridge.trans h.bridge, h'.netif.trans h.netif, fun a ha => (h'.reg a ha).trans (h.reg a ha)⟩

theorem setReg (h : HostFrame s t) {b : Addr} (hb : b ∈ NIC_REGS) (v : Word) : HostFrame s (t.setReg b v) :=
  ⟨h.bridge, h.netif, fun a ha => (reg_setReg_ne (ha b hb)).trans (h.reg a ha)⟩

theorem stable (s : SmartNic) : Stable (HostFrame s) :=
  .of_setReg (fun v hb h => h.setReg hb v) (fun _ h => ⟨h.bridge, h.netif, h.reg⟩)
    fun _ h => ⟨h.bridge, h.netif, h.reg⟩

end HostFrame

variable (s : SmartNic)

theorem dmaDone_frame (d : DmaEngine) : HostFrame s (s.dmaDone d) :=
  ⟨rfl, rfl, fun _ ha => reg_dmaDone (ha SC_REG_DMA_STS (by decide))⟩

theorem processDmaBody_frame : s.processDmaBody.Ensures fun x => HostFrame s x.1 := by
  rw [processDmaBody_eq]
  refine .bind (Prog.ensures_of_forall _ fun x => ?_)
  split
  · exact .bind (((HostFrame.stable s).raiseIrq (s.dmaDone_frame x.1) _ _).mono fun _ h => h)
  · exact s.dmaDone_frame x.1

theorem txAdvance_frame : HostFrame s s.txAdvance := (HostFrame.stable s).txAdvance (.refl s)

theorem processTxDone_frame : s.processTxDone.Ensures (HostFrame s) := (HostFrame.stable s).processTxDone (.refl s)

theorem processTxIteration_frame : s.processTxIteration.Ensures fun x => HostFrame s x.1 :=
  (HostFrame.stable s).processTxIteration (.refl s)

theorem onPacketRx_frame (data : List Byte) : (s.onPacketRx data).Ensures (HostFrame s) :=
  (HostFrame.stable s).onPacketRx (.refl s) data

end SmartEth.SmartNic
