import SmartEth.Proof.NicSide

/-!
# The driver's operations beside the NIC

What a call knows (`View`) after each of its operations. A test gives its buffer to the NIC with
the doorbell (`At.rung`) or with the start of a transfer (`At.started`), and has it back when the
NIC is done (`At.back`); `smarteth_remove` lets go of memory while no frame is taken in (`At.unmap`).
-/

namespace SmartEth.DriverNic.Confined

open SmartEthMain SmartNic

variable {s t : DriverNic} {v : View}

/-! ## The driver's operations -/

namespace View

variable (v : View)

def map (r : Region 64) : View := { v with toView := v.toView.map r, gone := [] }
def unmap (r : Region 64) : View :=
  { v with toView := v.toView.unmap r, gone := r :: v.gone, own := v.own.filter (· ≠ r) }
def store (dma : Addr) (data : List Byte) : View := { v with toView := v.toView.store dma data }
def post (ws : List (Addr × Word)) : View := { v with toView := v.toView.post ws }
def read : View := { v with toView := v.toView.read }
def learn (m : GuestMem) (own : List (Region 64)) : View := { v with mem := m, own := own }

end View

section Rules

variable {α : Type} {Q : α → DriverNic → Prop}

/-- What the NIC has is bounded. -/
def Bounded (s : DriverNic) : Prop := ∃ v, At v s

theorem At.bounded (h : At v s) : Bounded s := ⟨v, h⟩

/-- A program of the driver among the NIC's steps. -/
abbrev ConfWP (p : DriverM α) (Q : α → DriverNic → Prop) (s : DriverNic) : Prop :=
  wp Orderly Released (fun _ _ => True) Bounded p Q s

theorem At.stable : Stable Orderly (At v) := fun _ _ _ h hok he => h.env hok he

theorem SectOk.mapped {p : Phase} {nic : SmartNic} {a : Option Adapter} {mapped mapped' : List (Region 64)}
    {x : NicSect} (h : SectOk p nic a mapped x)
    (hm : ∀ b, a = some b → ∀ r ∈ rxRegions b, r ∈ mapped → r ∈ mapped') :
    SectOk p nic a mapped' x := by
  cases h with
  | still thread rest => exact .still thread rest
  | rx holds live rest => exact .rx holds (fun r hr => hm _ holds r hr (live r hr)) rest
  | tx phase rung rest => exact .tx phase rung rest
  | dma phase pending rest => exact .dma phase pending rest

/-- While `on_packet_rx` is not at work. -/
theorem SectOk.idle {p : Phase} {nic : SmartNic} {a : Option Adapter} {mapped mapped' : List (Region 64)}
    {x : NicSect} (h : SectOk p nic a mapped x) (hx : s.sect = some x) (hb : ¬ RxBusy s) :
    SectOk p nic a mapped' x := by
  cases h with
  | still thread rest => exact .still thread rest
  | @rx a q holds live rest =>
    cases q with
    | ret r => exact .still nofun ⟨rest, rest.doorbell nofun⟩
    | op e k => exact absurd ⟨_, hx, rfl, nofun⟩ hb
  | tx phase rung rest => exact .tx phase rung rest
  | dma phase pending rest => exact .dma phase pending rest

theorem SectOk.setTxHead {p : Phase} {nic : SmartNic} {a : Adapter} {mapped : List (Region 64)} {x : NicSect}
    {o : Option Adapter} {head : Word} (h : SectOk p nic o mapped x) (ho : o = some a) :
    SectOk p nic (some { a with txHead := head }) mapped x := by
  cases h with
  | still thread rest => exact .still thread rest
  | rx holds live rest =>
    cases ho.symm.trans holds
    exact .rx (a := { a with txHead := head }) rfl live rest
  | tx phase rung rest => exact .tx phase rung rest
  | dma phase pending rest => exact .dma phase pending rest

theorem At.ret {a : α} (h : At v s) (hQ : ∀ s, At v s → Q a s) : ConfWP (pure a) Q s := wp_ret At.stable h hQ

theorem At.map {len : Nat} {f : Option Addr → DriverM α} (h : At v s)
    (hfail : ∀ s, At v s → ConfWP (f none) Q s)
    (hf : ∀ s addr, addr.toNat + len ≤ 2 ^ 32 → (∀ r ∈ v.mapped, (⟨addr, len⟩ : Region 64).Disjoint r) →
      At (v.map ⟨addr, len⟩) s → ConfWP (f (some addr)) Q s) :
    ConfWP (mapBuf len >>= f) Q s := by
  refine wp_mapBuf At.stable h (fun _ hs => hs.bounded) hfail fun s addr hs hfree => ?_
  have ht : At (v.map ⟨addr, len⟩) { s with mapped := ⟨addr, len⟩ :: s.mapped } := { hs with
    ok := ⟨fun o ho => ⟨List.mem_cons_of_mem _ (hs.ok.own o ho).1, (hs.ok.own o ho).2⟩,
      fun r hr => ⟨List.mem_cons_of_mem _ (hs.ok.lim r hr).1, (hs.ok.lim r hr).2⟩,
      fun hne a ha => List.mem_cons_of_mem _ (hs.ok.ring hne a ha),
      fun hc a ha => ⟨(hs.ok.rx hc a ha).1, fun r hr => List.mem_cons_of_mem _ ((hs.ok.rx hc a ha).2 r hr)⟩⟩
    mapped := fun r hr => List.mem_cons.mpr ((List.mem_cons.mp hr).imp_right (hs.mapped r))
    gone := nofun
    apart := List.pairwise_cons.mpr ⟨hfree.2, hs.apart⟩
    sect := fun x hx => (hs.sect x hx).mapped fun _ _ r _ hr => List.mem_cons_of_mem _ hr }
  exact ⟨ht.bounded, hf _ addr hfree.1 (fun r hr => hfree.2 r (hs.mapped r hr)) ht⟩

/-- What is unmapped is not mapped any more. -/
theorem notMem_erase {mapped : List (Region 64)} {r : Region 64} (h : mapped.Pairwise Region.Disjoint)
    (hr : 0 < r.len) : r ∉ mapped.erase r := by
  intro hmem
  have hperm := List.perm_cons_erase (List.mem_of_mem_erase hmem)
  have hd := (List.pairwise_cons.mp ((hperm.pairwise_iff fun hab => hab.symm).mp h)).1 r hmem
  have hbase : r.base ∈ r := by
    rw [Region.mem_def, BitVec.sub_self]
    exact hr
  exact hd _ hbase hbase

/-- Outside a test, memory that is not of the RX ring; or any, while `smarteth_remove` runs. -/
theorem At.unmap {dma : Addr} {len : Nat} {f : Unit → DriverM α} (h : At v s) (hph : v.phase = .idle)
    (hlen : 0 < len) (hr : (∀ a, v.adapter = some a → ⟨dma, len⟩ ∉ rxRegions a) ∨ v.call = some .remove)
    (hf : ∀ s, At (v.unmap ⟨dma, len⟩) s → ConfWP (f ()) Q s) :
    ConfWP (unmap dma len >>= f) Q s := by
  refine wp_unmap At.stable h fun s c hs hok => ?_
  have hlim : v.phase.lim = [] := congrArg Phase.lim hph
  have hsect : ∀ x, s.sect = some x → SectOk v.phase s.nic s.adapter (s.mapped.erase ⟨dma, len⟩) x := fun x hx => by
    rcases hr with hr | hcall
    · refine (hs.sect x hx).mapped fun a ha r hmem hin => (List.mem_erase_of_ne ?_).mpr hin
      rintro rfl
      exact hr a (hs.adapter.symm.trans ha) hmem
    · exact (hs.sect x hx).idle hx (hok (hs.call.trans hcall))
  have ht : At (v.unmap ⟨dma, len⟩) { s with mapped := s.mapped.erase ⟨dma, len⟩ } := { hs with
    ok := by
      refine ⟨fun o ho => ?_, fun r hr => ?_, fun hne => absurd hlim hne, fun hc a ha =>
        ⟨(hs.ok.rx hc a ha).1, fun r hmem => List.mem_filter.mpr ⟨(hs.ok.rx hc a ha).2 r hmem, decide_eq_true ?_⟩⟩⟩
      · obtain ⟨ho, hne⟩ := List.mem_filter.mp ho
        exact ⟨List.mem_filter.mpr ⟨(hs.ok.own o ho).1, hne⟩, (hs.ok.own o ho).2⟩
      · cases hlim ▸ hr
      · rintro rfl
        exact (hr.resolve_right hc) a ha hmem
    mapped := fun r hr => by
      obtain ⟨hr, hne⟩ := List.mem_filter.mp hr
      exact (List.mem_erase_of_ne (of_decide_eq_true hne)).mpr (hs.mapped r hr)
    gone := fun r hr => by
      rcases List.mem_cons.mp hr with rfl | hr
      · exact notMem_erase hs.apart hlen
      · exact fun hmem => hs.gone r hr (List.mem_of_mem_erase hmem)
    apart := hs.apart.sublist (List.erase_sublist ..)
    mem := fun o ho => hs.mem o (List.mem_filter.mp ho).1
    sect := hsect }
  exact ⟨ht.bounded, hf _ ht⟩

/-- A store outside a test, to memory that the NIC does not read descriptors of received frames from. -/
theorem At.store {dma : Addr} {data : List Byte} {f : Unit → DriverM α} (h : At v s) (hph : v.phase = .idle)
    (hd : ∀ a, v.adapter = some a → (⟨dma, data.length⟩ : Region 64).Disjoint (txRingRegion a.rxRing))
    (hf : ∀ s, At (v.store dma data) s → ConfWP (f ()) Q s) :
    ConfWP (store dma data >>= f) Q s := by
  refine wp_store At.stable h fun s hs => ?_
  have ht : At (v.store dma data) { s with mem := s.mem.write dma data } := { hs with
    ok := { hs.ok with }
    mem := fun o ho x hx => congrArg (data.getD (x - dma).toNat) (hs.mem o ho x hx)
    rxGood := fun a ha => (hs.rxGood a ha).outside (hd a ha)
    link := by
      have hl := hs.link
      rw [hph] at hl
      rw [View.store, hph]
      exact hl }
  exact ⟨ht.bounded, hf _ ht⟩

theorem At.setTxHead {a : Adapter} {head : Word} {f : Unit → DriverM α} (h : At v s) (ha : v.adapter = some a)
    (hf : ∀ s, At { v with adapter := some { a with txHead := head } } s → ConfWP (f ()) Q s) :
    ConfWP (setTxHead head >>= f) Q s := by
  refine wp_setTxHead At.stable h fun s hs => ?_
  have hset : s.adapter.map (fun a => { a with txHead := head }) = some { a with txHead := head } := by
    rw [hs.adapter, ha]
    rfl
  have ht : At { v with adapter := some { a with txHead := head } }
      { s with adapter := s.adapter.map fun a => { a with txHead := head } } := { hs with
    ok := by
      refine ⟨fun o ho => ⟨(hs.ok.own o ho).1, (hs.ok.own o ho).2.1, fun b hb => ?_⟩,
        fun r hr => ⟨(hs.ok.lim r hr).1, fun b hb => ?_⟩, fun hne b hb => ?_, fun hc b hb => ?_⟩
      · cases hb
        exact (hs.ok.own o ho).2.2 a ha
      · cases hb
        exact (hs.ok.lim r hr).2 a ha
      · cases hb
        exact hs.ok.ring hne a ha
      · cases hb
        exact hs.ok.rx hc a ha
    adapter := hset
    rxGood := fun b hb => by
      cases hb
      exact hs.rxGood a ha
    sect := fun x hx => by
      show SectOk v.phase s.nic (s.adapter.map fun a => { a with txHead := head }) s.mapped x
      rw [hset]
      exact (hs.sect x hx).setTxHead (hs.adapter.trans ha) }
  exact ⟨ht.bounded, hf _ ht⟩

/-- A read waits until no write is on its way. -/
theorem At.readReg {reg : Addr} {f : Word → DriverM α} (h : At v s)
    (hf : ∀ s val, At v.read s → ConfWP (f val) Q s) : ConfWP (readReg reg >>= f) Q s :=
  wp_readReg At.stable h (fun _ hs => hs.bounded) fun s hs hp _ =>
    hf s _ { hs with ok := { hs.ok with }, quiet := fun _ => hp }

/-- A register write that starts nothing. -/
theorem At.posted {w : Addr × Word} (h : At v s) (hph : v.phase = .idle) (hw : Mild w)
    (hne : ∀ c ∈ v.cfg, w.1 ≠ c.1) : At { v with quiet := False } { s with posted := s.posted ++ [w] } := { h with
  ok := { h.ok with }
  settled := fun c hc => by
    obtain ⟨hp, hval⟩ := h.settled c hc
    exact ⟨hp, (settled_post s w.1 w.2 c.1).trans ((if_neg (hne c hc)).trans hval)⟩
  quiet := False.elim
  link := by
    have hl := h.link
    rw [hph] at hl
    show Link _ v.phase
    rw [hph]
    refine ⟨fun x hx => ?_, hl.2⟩
    rcases List.mem_append.mp hx with hx | hx
    · exact hl.1 x hx
    · rw [List.mem_singleton.mp hx]
      exact hw }

/-- A write to a plain register other than those that the call counts on. -/
theorem At.writeReg {reg : Addr} {val : Word} {f : Unit → DriverM α} (h : At v s) (hph : v.phase = .idle)
    (hp : Plain reg)
    (hsize : reg = SC_REG_TX_RING_SIZE ∨ reg = SC_REG_RX_RING_SIZE → val = BitVec.ofNat 32 SMARTETH_RING_SIZE)
    (hne : ∀ c ∈ v.cfg, reg ≠ c.1) (hf : ∀ s, At (v.post [(reg, val)]) s → ConfWP (f ()) Q s) :
    ConfWP (writeReg reg val >>= f) Q s := by
  refine wp_writeReg At.stable h fun s hs => ?_
  have ht := hs.posted hph (w := (reg, val)) (.inl ⟨hp, hsize⟩) hne
  have hok : (v.post [(reg, val)]).Ok := { ht.ok with
    rx := fun hc a ha => ⟨fun c hmem => List.mem_cons_of_mem _ ((hs.ok.rx hc a ha).1 c hmem), (hs.ok.rx hc a ha).2⟩ }
  refine ⟨ht.bounded, hf _ { ht with ok := hok, settled := fun c hc => ?_ }⟩
  rcases List.mem_cons.mp hc with rfl | hc
  · exact ⟨hp, (settled_post s reg val reg).trans (if_pos rfl)⟩
  · exact ht.settled c hc

theorem At.writeRegs {ws : List (Addr × Word)} {f : Unit → DriverM α} (h : At v s) (hph : v.phase = .idle)
    (hp : ∀ w ∈ ws, Plain w.1)
    (hsize : ∀ w ∈ ws, w.1 = SC_REG_TX_RING_SIZE ∨ w.1 = SC_REG_RX_RING_SIZE →
      w.2 = BitVec.ofNat 32 SMARTETH_RING_SIZE)
    (hnd : (ws ++ v.cfg).Pairwise fun w c => w.1 ≠ c.1) (hf : ∀ s, At (v.post ws) s → ConfWP (f ()) Q s) :
    ConfWP (writeRegs ws >>= f) Q s := by
  induction ws generalizing v s with
  | nil => exact hf s { h with ok := { h.ok with }, quiet := False.elim }
  | cons w ws ih =>
    obtain ⟨hne, hnd⟩ := List.pairwise_cons.mp hnd
    rw [SmartEthMain.writeRegs, Prog.bind_assoc]
    refine h.writeReg hph (hp w List.mem_cons_self) (hsize w List.mem_cons_self)
      (fun c hc => hne c (List.mem_append_right _ hc)) fun s hs => ?_
    refine ih hs hph (fun w' hw' => hp w' (List.mem_cons_of_mem _ hw'))
      (fun w' hw' => hsize w' (List.mem_cons_of_mem _ hw')) ?_ fun s hs' => hf s ?_
    · refine (List.pairwise_middle fun h => h.symm).mpr (List.pairwise_cons.mpr ⟨hne, hnd⟩)
    · rw [View.post, DriverNic.View.post_cons]
      exact hs'

end Rules

/-! ## Tests -/

section Tests

/-- Before and after a test, a section is not one of the test's. -/
theorem SectOk.leaves {p p' : Phase} {nic : SmartNic} {a : Option Adapter} {mapped : List (Region 64)} {x : NicSect}
    (h : SectOk p nic a mapped x) (htx : ∀ ring head buf, p = .tx ring head buf → nic.reg SC_REG_TX_DOORBELL = 0)
    (hdma : ∀ buf, p = .dma buf → nic.dmaPending = false) : SectOk p' nic a mapped x := by
  cases h with
  | still thread rest => exact .still thread rest
  | rx holds live rest => exact .rx holds live rest
  | tx phase rung rest => exact absurd (htx _ _ _ phase) rung
  | dma phase pending rest => cases pending.symm.trans (hdma _ phase)

theorem SectOk.starts {p p' : Phase} {nic : SmartNic} {a : Option Adapter} {mapped : List (Region 64)} {x : NicSect}
    (h : SectOk p nic a mapped x) (hp : p = .idle) : SectOk p' nic a mapped x := by
  subst hp
  exact h.leaves nofun nofun

/-- Outside a test, and while no frame is taken in, a section needs neither the adapter nor memory. -/
theorem SectOk.alone {p p' : Phase} {nic : SmartNic} {a a' : Option Adapter} {mapped mapped' : List (Region 64)}
    {x : NicSect} (h : SectOk p nic a mapped x) (hp : p = .idle)
    (hrx : ∀ b, a = some b → ∃ r ∈ rxRegions b, r ∉ mapped) : SectOk p' nic a' mapped' x := by
  cases h with
  | still thread rest => exact .still thread rest
  | rx holds live rest =>
    obtain ⟨r, hr, hgone⟩ := hrx _ holds
    exact absurd (live r hr) hgone
  | tx phase rung rest => cases hp.symm.trans phase
  | dma phase pending rest => cases hp.symm.trans phase

/-- The doorbell of a frame. -/
theorem At.rung {ring buf : Addr} {head : Nat} (h : At v s) (hph : v.phase = .idle) (hq : v.quiet)
    (hcfg : ∀ c ∈ ringCfg ring, c ∈ v.cfg) (hgood : TxGood ring head buf v.mem) (hring : txRingRegion ring ∈ v.own)
    (hbuf : ⟨buf, 256⟩ ∈ v.mapped)
    (hrx : ∀ a, v.adapter = some a → ⟨buf, 256⟩ ∉ rxRegions a ∧ txRingRegion a.rxRing ∈ v.mapped) :
    At { v with phase := .tx ring head buf, own := [], quiet := False }
      { s with posted := s.posted ++ [(REG_TX_DOORBELL, 1)] } := by
  have hposted : s.posted = [] := h.quiet hq
  have hl := h.link
  rw [hph] at hl
  have hok : { v with phase := .tx ring head buf, own := [], quiet := False }.Ok := by
    refine ⟨nofun, fun r hr => ?_, fun _ a ha => (hrx a ha).2, h.ok.rx⟩
    simp only [Phase.lim, List.mem_cons, List.not_mem_nil, or_false] at hr
    rcases hr with rfl | rfl
    · exact ⟨(h.ok.own _ hring).1, (h.ok.own _ hring).2.2⟩
    · exact ⟨hbuf, fun a ha => (hrx a ha).1⟩
  refine { h with
    ok := hok
    mem := nofun
    settled := fun c hc => ?_
    quiet := False.elim
    link := ⟨fun w hw => ?_, fun c hc => ?_, hgood.congr (h.mem _ hring), hl.2.2⟩
    sect := fun x hx => ?_ }
  · obtain ⟨hp, hval⟩ := h.settled c hc
    exact ⟨hp, (settled_post s REG_TX_DOORBELL 1 c.1).trans ((if_neg (hp.ne (by decide)).symm).trans hval)⟩
  · rw [hposted] at hw
    exact List.mem_singleton.mp hw
  · obtain ⟨hp, hval⟩ := h.settled c (hcfg c hc)
    rw [DriverNic.settled, hposted] at hval
    exact ⟨hp, hval⟩
  · exact (h.sect x hx).starts hph

/-- The start of a transfer. -/
theorem At.started {buf : Addr} (h : At v s) (hph : v.phase = .idle) (hlt : buf.toNat < 2 ^ 32)
    (hsrc : (REG_DMA_SRC, lower buf) ∈ v.cfg) (hlen : (REG_DMA_LEN, 256) ∈ v.cfg) (hbuf : ⟨buf, 256⟩ ∈ v.mapped)
    (hown : ⟨buf, 256⟩ ∉ v.own)
    (hrx : ∀ a, v.adapter = some a → ⟨buf, 256⟩ ∉ rxRegions a ∧ txRingRegion a.rxRing ∈ v.mapped) :
    At { v with phase := .dma buf, quiet := False }
      { s with posted := s.posted ++ [(REG_DMA_CTRL, DMA_START ||| DMA_IRQ_EN)] } := by
  have hl := h.link
  rw [hph] at hl
  obtain ⟨hmild, hdb, hpend⟩ := hl
  have hok : { v with phase := .dma buf, quiet := False }.Ok := by
    refine ⟨fun o ho => ⟨(h.ok.own o ho).1, fun hmem => ?_, (h.ok.own o ho).2.2⟩, fun r hr => ?_,
      fun _ a ha => (hrx a ha).2, h.ok.rx⟩
    · rw [List.mem_singleton.mp hmem] at ho
      exact hown ho
    · rw [List.mem_singleton.mp hr]
      exact ⟨hbuf, fun a ha => (hrx a ha).1⟩
  have hsettled : ∀ c ∈ v.cfg, Plain c.1 ∧ DriverNic.settled
      { s with posted := s.posted ++ [(REG_DMA_CTRL, DMA_START ||| DMA_IRQ_EN)] } c.1 = c.2 := fun c hc => by
    obtain ⟨hp, hval⟩ := h.settled c hc
    exact ⟨hp, (settled_post s REG_DMA_CTRL _ c.1).trans ((if_neg (hp.ne (by decide)).symm).trans hval)⟩
  refine { h with
    ok := hok
    settled := hsettled
    quiet := False.elim
    link := ⟨hdb, hlt, .inl ⟨s.posted, rfl, hmild, hpend, (hsettled _ hsrc).2, (hsettled _ hlen).2⟩⟩
    sect := fun x hx => ?_ }
  exact (h.sect x hx).starts hph

/-- The NIC has handled all that it was given. -/
theorem At.back (h : At v s) (hp : s.posted = []) (hdb : s.nic.reg SC_REG_TX_DOORBELL = 0)
    (hpend : s.nic.dmaPending = false) (n : Nat) : At { v with phase := .idle } { s with completions := n } := by
  refine { h with
    ok := ⟨fun o ho => ⟨(h.ok.own o ho).1, List.not_mem_nil, (h.ok.own o ho).2.2⟩, nofun, fun hne => absurd rfl hne,
      h.ok.rx⟩
    link := ⟨fun w hw => ?_, hdb, hpend⟩
    sect := fun x hx => (h.sect x hx).leaves (fun _ _ _ _ => hdb) fun _ _ => hpend }
  have hw : w ∈ s.posted := hw
  rw [hp] at hw
  cases hw

/-- Memory that the NIC does not touch. -/
theorem At.learn (h : At v s) (own : List (Region 64)) (hown : ∀ o ∈ own, o ∈ v.mapped ∧ o ∉ v.phase.lim ∧
    ∀ a, v.adapter = some a → o ∉ rxRegions a) : At (v.learn s.mem own) s :=
  { h with ok := ⟨hown, h.ok.lim, h.ok.ring, h.ok.rx⟩, mem := fun _ _ _ _ => rfl }

end Tests

end SmartEth.DriverNic.Confined
