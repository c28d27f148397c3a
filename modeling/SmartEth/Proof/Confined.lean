import SmartEth.Proof.DriverSide
import SmartEth.Proof.TxCalls

/-!
# Memory that the driver lets go of

A test whose wait ends too early unmaps a buffer that the NIC still has, and `smarteth_remove`
leaves the rings in the NIC's registers: DMA then goes to memory that the driver has let go of
(`unmapped_after_timeout`). With neither, all DMA is within what is mapped (`confined_of_released`).
-/

namespace SmartEth.DriverNic.Confined

open SmartEthMain SmartNic

variable {s t : DriverNic} {v : View}

/-! ## The driver's functions -/

section Calls

variable {α : Type} {Q : α → DriverNic → Prop} {m : GuestMem}

/-- The registers that name the rings. -/
def adapterCfg (a : Adapter) : List (Addr × Word) := ringCfg a.txRing ++ rxCfg a.rxRing

/-- What a call knows of the adapter. -/
def present (a : Adapter) (m : GuestMem) (call : Option DriverCall) : View where
  cfg := adapterCfg a
  mem := m
  adapter := some a
  call := call
  mapped := txRingRegion a.txRing :: rxRegions a
  gone := []
  own := [txRingRegion a.txRing]
  quiet := False
  phase := .idle

/-- What it knows without one. -/
def absent (m : GuestMem) (call : Option DriverCall) : View := ⟨⟨[], m, none, [], False⟩, call, [], [], .idle⟩

/-- Between two calls. -/
inductive Rest (s : DriverNic) : Prop
  | absent {m : GuestMem} (view : At (absent m none) s)
  | present {a : Adapter} {m : GuestMem} (view : At (present a m none) s) (noneOwn : NoneOwn a.txRing m)
      (lt : a.txHead.toNat < SMARTETH_RING_SIZE)

theorem call_ne_remove {c : DriverCall} (h : c ≠ .remove) : some c ≠ some DriverCall.remove :=
  fun he => h (Option.some.inj he)

theorem At.called (h : At v s) (hv : v.call ≠ some .remove) (call : Option DriverCall) :
    At { v with call := call } { s with call := call } :=
  { h with ok := { h.ok with rx := fun _ => h.ok.rx hv }, call := rfl }

/-- A call that leaves the adapter ends. -/
theorem At.tested {a : Adapter} (h : At v s) (ha : v.adapter = some a) (hph : v.phase = .idle)
    (hcfg : ∀ c ∈ adapterCfg a, c ∈ v.cfg) (hmapped : ∀ r ∈ txRingRegion a.txRing :: rxRegions a, r ∈ v.mapped)
    (hown : txRingRegion a.txRing ∈ v.own) : At (present a v.mem none) { s with call := none } := by
  have hl := h.link
  have hsect := h.sect
  rw [hph] at hl hsect
  refine { h with
    ok := ⟨fun o ho => ?_, nofun, fun hne => absurd rfl hne, fun _ b hb => ?_⟩
    adapter := h.adapter.trans ha
    call := rfl
    mapped := fun r hr => h.mapped r (hmapped r hr)
    gone := nofun
    mem := fun o ho => ?_
    rxGood := fun b hb => h.rxGood b (ha.trans hb)
    settled := fun c hc => h.settled c (hcfg c hc)
    quiet := False.elim
    link := hl
    sect := hsect }
  · rw [List.mem_singleton.mp ho]
    exact ⟨List.mem_cons_self, List.not_mem_nil, fun b hb => (h.ok.own _ hown).2.2 b (ha.trans hb)⟩
  · cases hb
    exact ⟨fun c hc => List.mem_append_right _ hc, fun r hr => List.mem_cons_of_mem _ hr⟩
  · rw [List.mem_singleton.mp ho]
    exact h.mem _ hown

/-- A call that leaves no adapter ends. -/
theorem At.without (h : At v s) (hph : v.phase = .idle)
    (hgone : ∀ a, v.adapter = some a → ∃ r ∈ rxRegions a, r ∈ v.gone) :
    At (absent v.mem none) { s with call := none, adapter := none } := by
  have hl := h.link
  rw [hph] at hl
  refine { h with
    ok := ⟨nofun, nofun, fun hne => absurd rfl hne, nofun⟩
    adapter := rfl
    call := rfl
    mapped := nofun
    gone := nofun
    mem := nofun
    rxGood := nofun
    settled := nofun
    quiet := False.elim
    link := hl
    sect := fun x hx => (h.sect x hx).alone hph fun b hb => ?_ }
  -- the NIC is taking no frame in
  obtain ⟨r, hr, hg⟩ := hgone b (h.adapter.symm.trans hb)
  exact ⟨r, hr, h.gone r hg⟩

/-- The stores of a descriptor. -/
theorem At.fillDesc {ring dma : Addr} {len : Word} {i : Nat} {f : Unit → DriverM α} (h : At v s)
    (hph : v.phase = .idle)
    (hd : ∀ a, v.adapter = some a → (DescRing.entryRegion ring i).Disjoint (txRingRegion a.rxRing))
    (hf : ∀ s, At (v.store (entry ring i) (SmartEthDesc.toBytes ⟨dma, len, DESC_FLAG_OWN⟩)) s → ConfWP (f ()) Q s) :
    ConfWP (fillDesc (entry ring i) dma len >>= f) Q s := by
  rw [SmartEthMain.fillDesc, Prog.bind_assoc]
  refine h.store hph (fun a ha => (hd a ha).sub_left ?_) fun s hs => ?_
  · rw [length_leBytes]
    exact Region.mem_of_le (by decide)
  rw [Prog.bind_assoc]
  refine hs.store hph (fun a ha => (hd a ha).sub_left ?_) fun s hs => ?_
  · rw [length_leBytes]
    exact DescRing.part_sub_entry (k := 8) (by decide)
  refine hs.store hph (fun a ha => (hd a ha).sub_left ?_) fun s hs => hf s ?_
  · rw [length_leBytes]
    exact DescRing.part_sub_entry (k := 12) (by decide)
  · rw [View.store, DriverNic.View.store, ← write_desc]
    exact hs

/-- Registers that name no ring. -/
theorem adapterCfg_ne {reg : Addr} (a : Adapter) (h : reg ∉ [REG_TX_RING_BASE_LO, REG_TX_RING_BASE_HI,
    REG_TX_RING_SIZE, REG_RX_RING_BASE_LO, REG_RX_RING_BASE_HI]) : ∀ c ∈ adapterCfg a, reg ≠ c.1 := by
  rintro c hc rfl
  exact h (List.mem_map_of_mem (f := Prod.fst) hc)

theorem buf_notMem {a : Adapter} {buf : Addr} : (⟨buf, 256⟩ : Region 64) ∉ rxRegions a := by
  intro hmem
  rcases List.mem_cons.mp hmem with heq | hmem
  · exact absurd (congrArg Region.len heq) (show 256 ≠ RING_BYTES by decide)
  · obtain ⟨dma, -, heq⟩ := List.mem_map.mp hmem
    exact absurd (congrArg Region.len heq) (show SMARTETH_RX_BUF_SIZE ≠ 256 by decide)

theorem buf_ne {ring buf : Addr} : (⟨buf, 256⟩ : Region 64) ≠ txRingRegion ring := fun heq =>
  absurd (congrArg Region.len heq) (show 256 ≠ RING_BYTES by decide)

/-- A test lets go of its buffer, and returns. -/
theorem At.endTest {a : Adapter} {buf : Addr} {ok : Bool} (h : At v s) (ha : v.adapter = some a)
    (hph : v.phase = .idle) (hcfg : ∀ c ∈ adapterCfg a, c ∈ v.cfg)
    (hmapped : ∀ r ∈ txRingRegion a.txRing :: rxRegions a, r ∈ v.mapped)
    (hown : txRingRegion a.txRing ∈ v.own) (hnone : NoneOwn a.txRing v.mem)
    (hlt : a.txHead.toNat < SMARTETH_RING_SIZE) :
    ConfWP (SmartEthMain.unmap buf 256 >>= fun _ => pure (CallEnd.tested ok))
      (fun r t => Rest (DriverNic.finish t r)) s := by
  refine h.unmap hph (by decide) (.inl fun b _ => buf_notMem) fun s hs => hs.ret fun s hs => ?_
  refine .present (hs.tested ha hph hcfg (fun r hr => ?_) (List.mem_filter.mpr ⟨hown, ?_⟩)) hnone hlt
  · refine List.mem_filter.mpr ⟨hmapped r hr, decide_eq_true ?_⟩
    rintro rfl
    rcases List.mem_cons.mp hr with hr | hr
    · exact buf_ne hr
    · exact buf_notMem hr
  · exact decide_eq_true fun heq => buf_ne heq.symm

/-- The buffer of a test, beside the rings. -/
theorem buf_beside {a : Adapter} {buf : Addr} : ∀ b, some a = some b → (⟨buf, 256⟩ : Region 64) ∉ rxRegions b ∧
    txRingRegion b.rxRing ∈ (⟨buf, 256⟩ : Region 64) :: txRingRegion a.txRing :: rxRegions a := by
  intro b hb
  cases hb
  exact ⟨buf_notMem, List.mem_cons_of_mem _ (List.mem_cons_of_mem _ List.mem_cons_self)⟩

/-- The pattern of a test is stored outside the rings. -/
theorem At.fill {a : Adapter} {call : Option DriverCall} {buf : Addr} {b : Byte} {p : Unit → DriverM Bool}
    (h : At ((present a m call).map ⟨buf, 256⟩) s)
    (hd : ∀ r ∈ (present a m call).mapped, (⟨buf, 256⟩ : Region 64).Disjoint r) (hnone : NoneOwn a.txRing m)
    (hf : ∀ s, NoneOwn a.txRing (m.write buf (List.replicate 256 b)) →
      At (((present a m call).map ⟨buf, 256⟩).store buf (List.replicate 256 b)) s →
      ConfWP (p () >>= fun ok => pure (CallEnd.tested ok)) (fun r t => Rest (DriverNic.finish t r)) s) :
    ConfWP ((SmartEthMain.store buf (List.replicate 256 b) >>= p) >>= fun ok => pure (CallEnd.tested ok))
      (fun r t => Rest (DriverNic.finish t r)) s := by
  rw [Prog.bind_assoc]
  refine h.store rfl (fun b hb => ?_) fun s hs => hf s (hnone.outside ?_) hs
  · cases hb
    rw [List.length_replicate]
    exact hd _ (List.mem_cons_of_mem _ List.mem_cons_self)
  · rw [List.length_replicate]
    exact hd _ List.mem_cons_self

theorem At.testDma {a : Adapter} (h : At (present a m (some .testDma)) s) (hnone : NoneOwn a.txRing m)
    (hlt : a.txHead.toNat < SMARTETH_RING_SIZE) :
    ConfWP (testDma >>= fun ok => pure (CallEnd.tested ok)) (fun r t => Rest (DriverNic.finish t r)) s := by
  rw [SmartEthMain.testDma, Prog.bind_assoc]
  refine h.map (fun s hs => hs.ret fun s hs => .present (hs.called (call_ne_remove (by decide)) none) hnone hlt)
    fun s buf hfree hd hs => ?_
  refine hs.fill hd hnone fun s hnone hs => ?_
  have hdst : REG_DMA_DST ≠ REG_DMA_SRC := by decide
  have hlen : REG_DMA_LEN ≠ REG_DMA_DST ∧ REG_DMA_LEN ≠ REG_DMA_SRC := by decide
  rw [Prog.bind_assoc]
  refine hs.writeReg rfl (by decide) (fun hr => absurd hr (by decide)) (adapterCfg_ne _ (by decide)) fun s hs => ?_
  rw [Prog.bind_assoc]
  refine hs.writeReg rfl (by decide) (fun hr => absurd hr (by decide))
    (List.forall_mem_cons.mpr ⟨hdst, adapterCfg_ne _ (by decide)⟩) fun s hs => ?_
  rw [Prog.bind_assoc]
  refine hs.writeReg rfl (by decide) (fun hr => absurd hr (by decide))
    (List.forall_mem_cons.mpr ⟨hlen.1, List.forall_mem_cons.mpr ⟨hlen.2, adapterCfg_ne _ (by decide)⟩⟩) fun s hs => ?_
  rw [Prog.bind_assoc]
  refine wp_writeReg At.stable hs fun s hs => ?_
  have hbuf : buf.toNat < 2 ^ 32 := by omega
  have hstart := hs.started rfl hbuf
    (List.mem_cons_of_mem _ (List.mem_cons_of_mem _ List.mem_cons_self)) List.mem_cons_self List.mem_cons_self
    (fun hmem => buf_ne (List.mem_singleton.mp hmem)) buf_beside
  refine ⟨hstart.bounded, ?_⟩
  rw [Prog.bind_assoc]
  refine wp_wait At.stable hstart fun s c r n hs hok _ => ?_
  obtain ⟨hposted, hpend⟩ := hok.1 hs.call
  have hback := hs.back hposted hs.link.1 hpend n
  refine ⟨hback.bounded, hback.endTest rfl rfl (fun c hc => ?_) (fun r hr => List.mem_cons_of_mem _ hr)
    List.mem_cons_self hnone hlt⟩
  exact List.mem_cons_of_mem _ (List.mem_cons_of_mem _ (List.mem_cons_of_mem _ hc))

theorem txGood_filled {ring buf : Addr} {i : Nat} (h : NoneOwn ring m) (hi : i < SMARTETH_RING_SIZE) :
    TxGood ring i buf (m.write (entry ring i) (SmartEthDesc.toBytes ⟨buf, 256, DESC_FLAG_OWN⟩)) := by
  intro j hj hown
  have hentry : entry ring i = DescRing.entryAddr ring i := rfl
  by_cases hji : j = i
  · rw [hji, hentry, DescRing.entry_write_self]
    exact ⟨rfl, rfl, rfl⟩
  · rw [hentry, DescRing.entry_write_ne (by decide) hj hi hji, h j hj] at hown
    cases hown

/-- The frame of the test is given back. -/
theorem noneOwn_of_txGood {ring buf : Addr} {head : Nat} (h : TxGood ring head buf m)
    (hback : (DescRing.entry ring m head).own = false) : NoneOwn ring m := by
  intro i hi
  refine Bool.eq_false_iff.mpr fun hown => ?_
  obtain ⟨rfl, -, -⟩ := h i hi hown
  cases hown.symm.trans hback

/-- The doorbell, the wait, and the rest of the test. -/
theorem At.doorbell {a : Adapter} {buf : Addr} {head : Word} (h : At v s)
    (ha : v.adapter = some { a with txHead := next head }) (hcall : v.call = some .testTx) (hph : v.phase = .idle)
    (hq : v.quiet) (hcfg : ∀ c ∈ adapterCfg a, c ∈ v.cfg)
    (hmapped : v.mapped = ⟨buf, 256⟩ :: txRingRegion a.txRing :: rxRegions a) (hown : txRingRegion a.txRing ∈ v.own)
    (hgood : TxGood a.txRing head.toNat buf v.mem) (hlt : head.toNat < SMARTETH_RING_SIZE) :
    ConfWP (SmartEthMain.writeReg REG_TX_DOORBELL 1 >>= fun _ => wait >>= fun done =>
      SmartEthMain.readReg REG_TX_TAIL >>= fun _ => SmartEthMain.unmap buf 256 >>= fun _ =>
      pure (CallEnd.tested done)) (fun r t => Rest (DriverNic.finish t r)) s := by
  have hin : ∀ r ∈ txRingRegion a.txRing :: rxRegions a, r ∈ v.mapped := fun r hr => by
    rw [hmapped]
    exact List.mem_cons_of_mem _ hr
  have hbuf : ⟨buf, 256⟩ ∈ v.mapped := by
    rw [hmapped]
    exact List.mem_cons_self
  refine wp_writeReg At.stable h fun s hs => ?_
  have hrung := hs.rung hph hq (fun c hc => hcfg c (List.mem_append_left _ hc)) hgood hown hbuf fun b hb => by
    obtain rfl := Option.some.inj (ha.symm.trans hb)
    exact ⟨buf_notMem, hin _ (List.mem_cons_of_mem _ List.mem_cons_self)⟩
  refine ⟨hrung.bounded, ?_⟩
  refine wp_wait At.stable hrung fun s c r n hs hok _ => ?_
  obtain ⟨hposted, hdb, hlast⟩ := hok.2 (hs.call.trans hcall)
  obtain ⟨-, -, hgood, hpend⟩ := hs.link
  have hsent : Sent { a with txHead := head } s := ⟨hs.adapter.trans ha, hs.mapped _ (hin _ List.mem_cons_self)⟩
  have hnone : NoneOwn a.txRing s.mem := noneOwn_of_txGood hgood (hsent.processed hlt hlast)
  have hback := (hs.back hposted hdb hpend n).learn [txRingRegion a.txRing] fun o ho => by
    rw [List.mem_singleton.mp ho]
    exact ⟨hin _ List.mem_cons_self, List.not_mem_nil, (h.ok.own _ hown).2.2⟩
  refine ⟨hback.bounded, ?_⟩
  refine hback.readReg fun s val hs => ?_
  exact hs.endTest (a := { a with txHead := next head }) ha rfl hcfg hin List.mem_cons_self hnone (next_lt head)

theorem At.testTx {a : Adapter} (h : At (present a m (some .testTx)) s) (hnone : NoneOwn a.txRing m)
    (hlt : a.txHead.toNat < SMARTETH_RING_SIZE) :
    ConfWP (testTx a >>= fun ok => pure (CallEnd.tested ok)) (fun r t => Rest (DriverNic.finish t r)) s := by
  have hrings : (txRingRegion a.txRing).Disjoint (txRingRegion a.rxRing) := by
    refine pairwise_disjoint h.apart (h.mapped _ List.mem_cons_self)
      (h.mapped _ (List.mem_cons_of_mem _ List.mem_cons_self)) fun heq => ?_
    exact (h.ok.own _ List.mem_cons_self).2.2 a rfl (heq ▸ List.mem_cons_self)
  rw [SmartEthMain.testTx, Prog.bind_assoc]
  refine h.map (fun s hs => hs.ret fun s hs => .present (hs.called (call_ne_remove (by decide)) none) hnone hlt)
    fun s buf hfree hd hs => ?_
  refine hs.fill hd hnone fun s hnone hs => ?_
  rw [Prog.bind_assoc]
  refine hs.readReg fun s _ hs => ?_
  rw [Prog.bind_assoc]
  refine hs.fillDesc rfl (fun b hb => ?_) fun s hs => ?_
  · cases hb
    exact hrings.sub_left (slot_sub_table hlt)
  rw [Prog.bind_assoc]
  exact hs.setTxHead rfl fun s hs => hs.doorbell rfl rfl rfl trivial (fun _ hc => hc) rfl List.mem_cons_self
    (txGood_filled hnone hlt) hlt

theorem At.testIrq {a : Adapter} (h : At (present a m (some .testIrq)) s) (hnone : NoneOwn a.txRing m)
    (hlt : a.txHead.toNat < SMARTETH_RING_SIZE) :
    ConfWP (testIrq >>= fun ok => pure (CallEnd.tested ok)) (fun r t => Rest (DriverNic.finish t r)) s := by
  rw [SmartEthMain.testIrq, Prog.bind_assoc]
  refine wp_writeReg At.stable h fun s hs => ?_
  have ht := hs.posted (w := (REG_IRQ_TEST, 1)) rfl (.inr rfl) (adapterCfg_ne _ (by decide))
  refine ⟨ht.bounded, wp_wait At.stable ht fun s c r n hs _ _ => ?_⟩
  have ht : At (present a m (some .testIrq)) { s with completions := n } := { hs with ok := { hs.ok with } }
  exact ⟨ht.bounded, ht.ret fun s hs => .present (hs.called (call_ne_remove (by decide)) none) hnone hlt⟩

/-- `smarteth_remove` is at work. -/
structure Removing (a : Adapter) (v : View) : Prop where
  adapter : v.adapter = some a
  call : v.call = some .remove
  phase : v.phase = .idle

theorem At.freeRxBuffers {a : Adapter} {bufs : List Addr} {f : Unit → DriverM α} (h : At v s) (hv : Removing a v)
    (hf : ∀ s v', At v' s → Removing a v' → ConfWP (f ()) Q s) : ConfWP (freeRxBuffers bufs >>= f) Q s := by
  induction bufs generalizing v s with
  | nil => exact hf s v h hv
  | cons dma bufs ih =>
    rw [SmartEthMain.freeRxBuffers, Prog.bind_assoc]
    exact h.unmap hv.phase (by decide) (.inr hv.call) fun s hs => ih hs ⟨hv.adapter, hv.call, hv.phase⟩

theorem At.remove {a : Adapter} (h : At (present a m (some .remove)) s) :
    ConfWP (remove a >>= fun _ => pure CallEnd.removed) (fun r t => Rest (DriverNic.finish t r)) s := by
  rw [SmartEthMain.remove, Prog.bind_assoc]
  refine h.writeReg rfl (by decide) (fun hr => absurd hr (by decide)) (adapterCfg_ne _ (by decide)) fun s hs => ?_
  rw [Prog.bind_assoc]
  refine hs.freeRxBuffers ⟨rfl, rfl, rfl⟩ fun s v hs hv => ?_
  rw [Prog.bind_assoc]
  refine hs.unmap hv.phase (by decide) (.inr hv.call) fun s hs => ?_
  refine hs.unmap hv.phase (by decide) (.inr hv.call) fun s hs => hs.ret fun s hs => ?_
  refine .absent (hs.without hv.phase fun b hb => ?_)
  cases hv.adapter.symm.trans hb
  exact ⟨_, List.mem_cons_self, List.mem_cons_of_mem _ List.mem_cons_self⟩

/-- What `smarteth_probe` knows once it has the rings, and `bufs` for the first entries of the RX ring. -/
structure Fresh (tx rx : Addr) (bufs : List Addr) (v : View) : Prop where
  cfg : v.cfg = []
  adapter : v.adapter = none
  phase : v.phase = .idle
  rings : txRingRegion tx ∈ v.own ∧ txRingRegion rx ∈ v.own
  mapped : ∀ buf ∈ bufs, ⟨buf, SMARTETH_RX_BUF_SIZE⟩ ∈ v.mapped
  noneOwn : NoneOwn tx v.mem
  rxGood : ∀ head, RxGood ⟨tx, head, rx, bufs⟩ v.mem

theorem rxGood_filled {a : Adapter} {buf : Addr} {i : Nat} (h : RxGood a m) (hi : i < SMARTETH_RING_SIZE) :
    RxGood { a with rxDma := a.rxDma ++ [buf] } (m.write (entry a.rxRing i)
      (SmartEthDesc.toBytes ⟨buf, BitVec.ofNat 32 SMARTETH_RX_BUF_SIZE, DESC_FLAG_OWN⟩)) := by
  intro j hj hown
  have hentry : entry a.rxRing i = DescRing.entryAddr a.rxRing i := rfl
  dsimp only at hown ⊢
  by_cases hji : j = i
  · rw [hji, hentry, DescRing.entry_write_self]
    exact ⟨List.mem_append_right _ List.mem_cons_self, rfl⟩
  · rw [hentry, DescRing.entry_write_ne (by decide) hj hi hji] at hown ⊢
    obtain ⟨hmem, hlen⟩ := h j hj hown
    exact ⟨List.mem_append_left _ hmem, hlen⟩

/-- One more entry. -/
theorem Fresh.filled {tx rx : Addr} {bufs : List Addr} {i : Nat} (h : Fresh tx rx bufs v)
    (hd : (txRingRegion rx).Disjoint (txRingRegion tx)) (hi : i < SMARTETH_RING_SIZE) (dma : Addr) :
    Fresh tx rx (bufs ++ [dma]) ((v.map ⟨dma, SMARTETH_RX_BUF_SIZE⟩).store (entry rx i)
      (SmartEthDesc.toBytes ⟨dma, BitVec.ofNat 32 SMARTETH_RX_BUF_SIZE, DESC_FLAG_OWN⟩)) := by
  refine ⟨h.cfg, h.adapter, h.phase, h.rings, fun buf hb => ?_, ?_, fun head => ?_⟩
  · rcases List.mem_append.mp hb with hb | hb
    · exact List.mem_cons_of_mem _ (h.mapped buf hb)
    · rw [List.mem_singleton.mp hb]
      exact List.mem_cons_self
  · refine h.noneOwn.outside (hd.sub_left ?_)
    rw [SmartEthDesc.length_toBytes]
    exact slot_sub_table hi
  · exact rxGood_filled (a := ⟨tx, head, rx, bufs⟩) (h.rxGood head) hi

theorem At.prepareRxBuffers {tx rx : Addr} {bufs : List Addr} {n : Nat} {f : List Addr × Bool → DriverM α}
    (hd : (txRingRegion rx).Disjoint (txRingRegion tx)) (h : At v s) (hv : Fresh tx rx bufs v)
    (hf : ∀ s v r, At v s → Fresh tx rx (bufs ++ r.1) v → ConfWP (f r) Q s) :
    ConfWP (prepareRxBuffers rx n >>= f) Q s := by
  induction n generalizing v s f bufs with
  | zero =>
    refine hf s v _ h ?_
    rw [List.append_nil]
    exact hv
  | succ n ih =>
    have hi : SMARTETH_RING_SIZE - (n + 1) < SMARTETH_RING_SIZE := by
      rw [SMARTETH_RING_SIZE]
      omega
    rw [SmartEthMain.prepareRxBuffers, Prog.bind_assoc]
    refine h.map (fun s hs => hf s v _ hs ?_) fun s dma _ _ hs => ?_
    · rw [List.append_nil]
      exact hv
    dsimp only
    rw [Prog.bind_assoc]
    refine hs.fillDesc hv.phase (fun b hb => ?_) fun s hs => ?_
    · cases hv.adapter.symm.trans hb
    rw [Prog.bind_assoc]
    refine ih hs (hv.filled hd hi dma) fun s v r hs hv => hf s v _ hs ?_
    rw [List.append_assoc] at hv
    exact hv

theorem ring_notMem {a : Adapter} (hd : (txRingRegion a.rxRing).Disjoint (txRingRegion a.txRing)) :
    txRingRegion a.txRing ∉ rxRegions a := by
  intro hmem
  rcases List.mem_cons.mp hmem with heq | hmem
  · have hin : a.txRing ∈ txRingRegion a.txRing := by
      rw [Region.mem_def, BitVec.sub_self]
      exact (by decide : 0 < RING_BYTES)
    have heq : txRingRegion a.txRing = txRingRegion a.rxRing := heq
    exact hd _ (heq ▸ hin) hin
  · obtain ⟨dma, -, heq⟩ := List.mem_map.mp hmem
    exact absurd (congrArg Region.len heq) (show SMARTETH_RX_BUF_SIZE ≠ RING_BYTES by decide)

theorem adapterCfg_sub (a : Adapter) : ∀ c ∈ adapterCfg a, c ∈ configWrites a.txRing a.rxRing := by
  intro c hc
  simp only [adapterCfg, ringCfg, rxCfg, List.cons_append, List.nil_append, List.mem_cons, List.not_mem_nil,
    or_false] at hc
  rcases hc with rfl | rfl | rfl | rfl | rfl <;> simp [configWrites]

/-- `smarteth_probe` returns the adapter. -/
theorem At.loaded {tx rx : Addr} {bufs : List Addr} (h : At (v.post (configWrites tx rx)) s)
    (hv : Fresh tx rx bufs v) (hd : (txRingRegion rx).Disjoint (txRingRegion tx)) :
    At (present ⟨tx, 0, rx, bufs⟩ v.mem none) { s with call := none, adapter := some ⟨tx, 0, rx, bufs⟩ } := by
  have hl := h.link
  rw [show (v.post (configWrites tx rx)).phase = .idle from hv.phase] at hl
  refine { h with
    ok := ⟨fun o ho => ?_, nofun, fun hne => absurd rfl hne, fun _ b hb => ?_⟩
    adapter := rfl
    call := rfl
    mapped := fun r hr => h.mapped r ?_
    gone := nofun
    mem := fun o ho => ?_
    rxGood := fun b hb => ?_
    settled := fun c hc => h.settled c ?_
    quiet := False.elim
    link := hl
    sect := fun x hx => ?_ }
  · rw [List.mem_singleton.mp ho]
    refine ⟨List.mem_cons_self, List.not_mem_nil, fun b hb => ?_⟩
    cases hb
    exact ring_notMem hd
  · cases hb
    exact ⟨fun c hc => List.mem_append_right _ hc, fun r hr => List.mem_cons_of_mem _ hr⟩
  · rcases List.mem_cons.mp hr with rfl | hr
    · exact (h.ok.own _ hv.rings.1).1
    rcases List.mem_cons.mp hr with rfl | hr
    · exact (h.ok.own _ hv.rings.2).1
    · obtain ⟨buf, hb, rfl⟩ := List.mem_map.mp hr
      exact hv.mapped buf hb
  · rw [List.mem_singleton.mp ho]
    exact h.mem _ hv.rings.1
  · cases hb
    exact (hv.rxGood 0).congr (h.mem _ hv.rings.2)
  · exact List.mem_append_left _ (List.mem_reverse.mpr (adapterCfg_sub ⟨tx, 0, rx, bufs⟩ c hc))
  · exact (h.sect x hx).alone hv.phase fun b hb => by cases (h.adapter.symm.trans hb).symm.trans hv.adapter

/-- `smarteth_probe` fails. -/
theorem At.failed (h : At v s) (hph : v.phase = .idle) (ha : v.adapter = none) :
    Rest { s with call := none, adapter := none } :=
  .absent (h.without hph fun _ hb => by cases ha.symm.trans hb)

/-- The sizes of the rings. -/
theorem size_configWrites (tx rx : Addr) : ∀ w ∈ configWrites tx rx,
    w.1 = SC_REG_TX_RING_SIZE ∨ w.1 = SC_REG_RX_RING_SIZE → w.2 = BitVec.ofNat 32 SMARTETH_RING_SIZE := by
  intro w hw hr
  simp only [configWrites, List.mem_cons, List.not_mem_nil, or_false] at hw
  rcases hw with rfl | rfl | rfl | rfl | rfl | rfl | rfl | rfl <;> dsimp only at hr ⊢
  all_goals exact absurd hr (by decide)

/-- The buffers are mapped, or not, and the registers written. -/
theorem At.configure {tx rx : Addr} (h : At v s) (hv : Fresh tx rx [] v)
    (hd : (txRingRegion rx).Disjoint (txRingRegion tx)) :
    ConfWP ((SmartEthMain.prepareRxBuffers rx SMARTETH_RING_SIZE >>= fun x =>
      if (!x.2) = true then do
        SmartEthMain.unmap rx RING_BYTES
        SmartEthMain.unmap tx RING_BYTES
        pure none
      else do
        SmartEthMain.writeRegs (configWrites tx rx)
        pure (some { txRing := tx, txHead := 0, rxRing := rx, rxDma := x.1 })) >>= fun a => pure (CallEnd.probed a))
      (fun r t => Rest (finish t r)) s := by
  rw [Prog.bind_assoc]
  refine h.prepareRxBuffers hd hv fun s v r hs hv => ?_
  rw [List.nil_append] at hv
  have hzero : (0 : Word).toNat < SMARTETH_RING_SIZE := by decide
  split
  · -- no memory for a buffer
    rw [Prog.bind_assoc]
    refine hs.unmap hv.phase (by decide) (.inl fun b hb => by cases hv.adapter.symm.trans hb) fun s hs => ?_
    rw [Prog.bind_assoc]
    exact hs.unmap hv.phase (by decide) (.inl fun b hb => by cases hv.adapter.symm.trans hb) fun s hs =>
      hs.ret fun s hs => hs.failed hv.phase hv.adapter
  · rw [Prog.bind_assoc]
    refine hs.writeRegs hv.phase (plain_configWrites tx rx) (size_configWrites tx rx) ?_ fun s hs =>
      hs.ret fun s hs => .present (hs.loaded hv hd) hv.noneOwn hzero
    rw [hv.cfg, List.append_nil]
    exact configWrites_distinct tx rx

theorem At.probe (h : At (absent m (some .probe)) s) :
    ConfWP (probe >>= fun a => pure (CallEnd.probed a)) (fun r t => Rest (finish t r)) s := by
  rw [SmartEthMain.probe, Prog.bind_assoc]
  refine h.readReg fun s devId hs => ?_
  split
  · exact hs.ret fun s hs => hs.failed rfl rfl
  rw [Prog.bind_assoc]
  refine hs.map (fun s hs => hs.ret fun s hs => hs.failed rfl rfl) fun s tx _ _ hs => ?_
  dsimp only
  have hs := hs.learn [txRingRegion tx] fun o ho => by
    rw [List.mem_singleton.mp ho]
    exact ⟨List.mem_cons_self, List.not_mem_nil, fun _ hb => by cases hb⟩
  rw [Prog.bind_assoc]
  generalize s.mem = m₁ at hs
  refine hs.store rfl (fun _ hb => by cases hb) fun s hs => ?_
  rw [Prog.bind_assoc]
  refine hs.map (fun s hs => ?_) fun s rx _ hd hs => ?_
  · -- no memory for the RX ring
    dsimp only
    rw [Prog.bind_assoc]
    exact hs.unmap rfl (by decide) (.inl fun _ hb => by cases hb) fun s hs => hs.ret fun s hs => hs.failed rfl rfl
  dsimp only
  have hd : (txRingRegion rx).Disjoint (txRingRegion tx) := hd _ List.mem_cons_self
  have hnone : NoneOwn tx s.mem := fun i hi => by
    rw [entry_congr (hs.mem _ List.mem_cons_self) hi]
    exact NoneOwn.zeros m₁ tx i hi
  have hs := hs.learn [txRingRegion rx, txRingRegion tx] fun o ho => by
    simp only [List.mem_cons, List.not_mem_nil, or_false] at ho
    rcases ho with rfl | rfl
    · exact ⟨List.mem_cons_self, List.not_mem_nil, fun _ hb => by cases hb⟩
    · exact ⟨List.mem_cons_of_mem _ List.mem_cons_self, List.not_mem_nil, fun _ hb => by cases hb⟩
  rw [Prog.bind_assoc]
  generalize s.mem = m₂ at hs hnone
  have hnone : NoneOwn tx (m₂.write rx (List.replicate RING_BYTES 0)) :=
    hnone.outside (by rw [List.length_replicate]; exact hd)
  have hrings : txRingRegion tx ∈ [txRingRegion rx, txRingRegion tx] ∧
      txRingRegion rx ∈ [txRingRegion rx, txRingRegion tx] :=
    ⟨List.mem_cons_of_mem _ List.mem_cons_self, List.mem_cons_self⟩
  refine hs.store rfl (fun _ hb => by cases hb) fun s hs => hs.configure ⟨rfl, rfl, rfl, hrings,
    (fun _ hb => by cases hb), hnone, fun head i hi hown => ?_⟩ hd
  cases (NoneOwn.zeros m₂ rx i hi).symm.trans hown

end Calls

/-! ## Runs -/

theorem Rest.env {e : DriverEvent} (h : Rest s) (hok : Orderly s e) (he : s.env e = some t) : Rest t := by
  cases h with
  | absent view => exact .absent (view.env hok he)
  | present view noneOwn lt => exact .present (view.env hok he) noneOwn lt

theorem Rest.bounded (h : Rest s) : Bounded s := by
  cases h with
  | absent view => exact view.bounded
  | present view noneOwn lt => exact view.bounded

theorem Rest.start {c : DriverCall} {p : DriverM CallEnd} (h : Rest s) (hs : s.start c = some (t, p)) :
    Bounded t ∧ ConfWP p (fun r t => Rest (DriverNic.finish t r)) t := by
  cases h with
  | absent view =>
    have hnone : s.adapter = none := view.adapter
    cases c with
    | probe =>
      obtain ⟨-, rfl, rfl⟩ := start_probe hs
      have hview : At (Confined.absent _ (some .probe)) { s with call := some .probe, completions := 0 } :=
        { view with ok := { view.ok with rx := nofun }, call := rfl }
      exact ⟨hview.bounded, hview.probe⟩
    | testDma | testTx | testIrq | remove =>
      rw [DriverNic.start, hnone] at hs
      cases hs
  | @present a m view noneOwn lt =>
    have hsome : s.adapter = some a := view.adapter
    cases c with
    | probe => cases hsome.symm.trans (start_probe hs).1
    | testDma =>
      obtain ⟨b, -, hs⟩ := Option.map_eq_some_iff.mp hs
      cases hs
      have hv := view.called (Option.some_ne_none _).symm (some .testDma)
      exact ⟨hv.bounded, hv.testDma noneOwn lt⟩
    | testTx =>
      obtain ⟨b, hb, hs⟩ := Option.map_eq_some_iff.mp hs
      cases hsome.symm.trans hb
      cases hs
      have hv := view.called (Option.some_ne_none _).symm (some .testTx)
      exact ⟨hv.bounded, hv.testTx noneOwn lt⟩
    | testIrq =>
      obtain ⟨b, -, hs⟩ := Option.map_eq_some_iff.mp hs
      cases hs
      have hv := view.called (Option.some_ne_none _).symm (some .testIrq)
      exact ⟨hv.bounded, hv.testIrq noneOwn lt⟩
    | remove =>
      obtain ⟨b, hb, hs⟩ := Option.map_eq_some_iff.mp hs
      cases hsome.symm.trans hb
      cases hs
      have hv := view.called (Option.some_ne_none _).symm (some .remove)
      exact ⟨hv.bounded, hv.remove⟩

theorem Rest.init (netif : Bool) (mem : GuestMem) : Rest (init netif mem) := by
  have hpos : 0 < SMARTETH_RING_SIZE := by decide
  have hview : At (Confined.absent mem none) (DriverNic.init netif mem) :=
    { ok := ⟨nofun, nofun, fun hne => absurd rfl hne, nofun⟩
      core := ⟨rfl, rfl, .inl rfl, .inl rfl, hpos, hpos⟩
      confined := rfl
      adapter := rfl
      call := rfl
      mapped := nofun
      gone := nofun
      apart := .nil
      mem := nofun
      rxGood := nofun
      settled := nofun
      quiet := False.elim
      link := ⟨nofun, rfl, rfl⟩
      checked := nofun
      sect := nofun }
  exact .absent hview

/-- `smarteth_test_dma`, and the NIC makes the transfer. -/
def exampleDma : List (Machine.Event DriverEvent DriverChoice Empty DriverCall) :=
  [.start .testDma, .act (.mapped 0x9000)] ++ List.replicate 5 (.act .done) ++ List.replicate 4 (.env .handle) ++
    [.env .dmaCheck, .env .processDma, .env (.nicOp .moved), .env (.nicOp .moved), .env .nicEnd, .env .signal,
      .act .done, .act .done, .finish]

/-- A frame arrives, and the NIC takes it in. -/
def exampleFrame : List (Machine.Event DriverEvent DriverChoice Empty DriverCall) :=
  .env (.packet (List.replicate 14 0xFF)) :: List.replicate 4 (.env (.nicOp .moved)) ++ [.env .nicEnd]

/-- `smarteth_test_dma` gives up before the NIC has begun. -/
def exampleTimeout : List (Machine.Event DriverEvent DriverChoice Empty DriverCall) :=
  [.start .testDma, .act (.mapped 0x9000)] ++ List.replicate 5 (.act .done) ++ [.act .fails, .act .done, .finish] ++
    List.replicate 4 (.env .handle) ++ [.env .dmaCheck, .env .processDma, .env (.nicOp .moved)]

/-- A transfer, a frame sent, and one received, between probe and removal. -/
def exampleLife : List (Machine.Event DriverEvent DriverChoice Empty DriverCall) :=
  exampleLoad ++ exampleDma ++ exampleSend ++ exampleFrame ++ exampleUnload

/-- A frame after the removal: the NIC reads a descriptor of the ring that was there. -/
example : (run machine.step exampleStart (exampleLoad ++ exampleUnload ++ exampleFrame.take 2)).map (·.st.confined) =
    some false := by decide +kernel

end SmartEth.DriverNic.Confined
