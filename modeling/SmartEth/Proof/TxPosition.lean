import SmartEth.Proof.Driver
import SmartEth.Proof.TxPass
import SmartEth.System.TxPosition

/-!
# The position in the TX ring

`smarteth_probe` starts `tx_head` at zero, `smarteth_test_tx` moves it on by one with
each frame, as the NIC moves `TX_TAIL` on. So the two agree in every run that probes
only at zero (`agree_of_probesAtZero`); `smarteth_probe` leaves `TX_TAIL` alone.
-/

namespace SmartEth.DriverNic

open SmartEthMain SmartNic

variable {s t : DriverNic} {m : GuestMem} {ring : Addr}

/-! ## The invariant -/

/-- No frame is rung for, and the rest is as the call knows it. -/
structure At (tail : Word) (v : View) (s : DriverNic) : Prop extends Calm tail v.cfg v.mem s where
  adapter : s.adapter = v.adapter
  mapped : ∀ r ∈ v.mapped, r ∈ s.mapped
  quiet : v.quiet → s.posted = []

/-- No descriptor of the ring is the NIC's. -/
def NoneOwn (ring : Addr) (m : GuestMem) : Prop :=
  ∀ i < SMARTETH_RING_SIZE, (DescRing.entry ring m i).own = false

def View.Agrees (v : View) (tail : Word) : Prop := ∀ a, v.adapter = some a → NoneOwn a.txRing v.mem → a.txHead = tail

/-- No frame is rung for, and the positions agree; or one is rung for, and the driver's is ahead. -/
inductive Pos (s : DriverNic) : Prop
  | calm {tail : Word} {v : View} (view : At tail v s) (agrees : v.Agrees tail)
  | rung {a : Adapter} {head : Word} {m : GuestMem} (adapter : s.adapter = some a) (ahead : a.txHead = next head)
      (lt : head.toNat < SMARTETH_RING_SIZE) (own : (DescRing.entry a.txRing m head.toNat).own = true)
      (rung : Rung a.txRing head m s)

theorem At.env {tail : Word} {v : View} {e : DriverEvent} (h : At tail v s) (hok : TxEvent s e)
    (he : s.env e = some t) : At tail v t := by
  obtain ⟨ha, hm, -⟩ := env_frame he
  refine ⟨h.toCalm.env hok he, ha.trans h.adapter, fun r hr => hm ▸ h.mapped r hr, fun hq => ?_⟩
  by_cases hne : e = .handle
  · subst hne
    obtain ⟨-, w, rest, hp, -⟩ := env_handle he
    cases (h.quiet hq).symm.trans hp
  · exact (h.toStill.env hok hne he).2.1.trans (h.quiet hq)

theorem Pos.env {e : DriverEvent} (h : Pos s) (hok : TxEvent s e) (he : s.env e = some t) : Pos t := by
  cases h with
  | calm view agrees => exact .calm (view.env hok he) agrees
  | rung adapter ahead lt own rung =>
    exact .rung ((env_frame he).1.trans adapter) ahead lt own (rung.env own hok he)

theorem Still.txTail {tail : Word} (h : Still tail m s) : s.txTail = tail := by
  rw [DriverNic.txTail]
  split
  · rename_i th nic again hs
    exact (h.sect _ hs).tail
  · exact h.idles.tail

/-- The frame that was rung for has been processed. -/
theorem Rung.processed {head : Word} (h : Rung ring head m s)
    (hown : (DescRing.entry ring m head.toNat).own = true)
    (hback : (DescRing.entry ring s.mem head.toNat).own = false) : Gone ring head m s := by
  have hmem : s.mem ≠ m := fun hm => by
    rw [hm, hown] at hback
    cases hback
  cases h with
  | flight still posted regs => exact absurd still.mem hmem
  | rung mem posted regs ready sect => exact absurd mem hmem
  | gone gone => exact gone

theorem Gone.txTail {head : Word} (h : Gone ring head m s) : s.txTail = next head := by
  cases h with
  | given mem posted regs bridge sect idles =>
    rw [DriverNic.txTail, sect]
    exact idles.tail
  | done calm posted => exact calm.toStill.txTail

theorem Pos.agree (h : Pos s) : Agree s := by
  intro a ha hout
  cases h with
  | calm view agrees =>
    rw [view.toStill.txTail]
    refine agrees a (view.adapter.symm.trans ha) fun i hi => ?_
    rw [← view.mem]
    exact Bool.eq_false_iff.mpr fun ho => hout ⟨a, ha, i, hi, ho⟩
  | rung adapter ahead lt own rung =>
    cases adapter.symm.trans ha
    have hback := Bool.eq_false_iff.mpr fun ho => hout ⟨a, ha, _, lt, ho⟩
    rw [ahead, (rung.processed own hback).txTail]

/-! ## The driver's operations -/

section Rules

variable {α : Type} {Q : α → DriverNic → Prop} {tail : Word} {v : View}

/-- A program of the driver among the NIC's steps. -/
abbrev TxWP (p : DriverM α) (Q : α → DriverNic → Prop) (s : DriverNic) : Prop :=
  wp TxEvent Processed (fun s c => TxCall s c ∧ ProbesAtZero s c) Pos p Q s

theorem At.stable : Stable TxEvent (At tail v) := fun _ _ _ h hok he => h.env hok he

theorem At.pos (h : At tail v s) (hv : v.Agrees tail) : Pos s := .calm h hv

theorem At.weaken {v' : View} (h : At tail v s) (hm : v'.mem = v.mem) (ha : v'.adapter = v.adapter)
    (hc : ∀ c ∈ v'.cfg, c ∈ v.cfg) (hr : ∀ r ∈ v'.mapped, r ∈ v.mapped) (hq : v'.quiet → v.quiet) : At tail v' s := by
  refine ⟨⟨⟨h.mem.trans hm.symm, h.bridge, h.idles, h.sect⟩, h.posted, fun c hc' => ?_⟩,
    h.adapter.trans ha.symm, fun r hr' => h.mapped r (hr r hr'), fun hq' => h.quiet (hq hq')⟩
  exact h.settled c (hc c hc')

theorem At.ret {a : α} (h : At tail v s) (hQ : ∀ s, At tail v s → Q a s) : TxWP (pure a) Q s := wp_ret At.stable h hQ

theorem At.map {len : Nat} {f : Option Addr → DriverM α} (h : At tail v s) (hv : v.Agrees tail)
    (hfail : ∀ s, At tail v s → TxWP (f none) Q s)
    (hf : ∀ s addr, (∀ r ∈ v.mapped, (⟨addr, len⟩ : Region 64).Disjoint r) →
      At tail (v.map ⟨addr, len⟩) s → TxWP (f (some addr)) Q s) :
    TxWP (mapBuf len >>= f) Q s := by
  refine wp_mapBuf At.stable h (fun _ hs => hs.pos hv) hfail fun s addr hs hfree => ?_
  have ht : At tail (v.map ⟨addr, len⟩)
      { s with mapped := ⟨addr, len⟩ :: s.mapped } := by
    refine ⟨⟨⟨hs.mem, hs.bridge, hs.idles, hs.sect⟩, hs.posted, hs.settled⟩, hs.adapter, fun r hr => ?_, hs.quiet⟩
    rcases List.mem_cons.mp hr with rfl | hr
    · exact List.mem_cons_self
    · exact List.mem_cons_of_mem _ (hs.mapped r hr)
  exact ⟨ht.pos hv, hf _ addr (fun r hr => hfree.2 r (hs.mapped r hr)) ht⟩

/-- Memory that the call does not count on any more. -/
theorem At.unmap {dma : Addr} {len : Nat} {f : Unit → DriverM α} (h : At tail v s) (hv : v.Agrees tail)
    (hf : ∀ s, At tail (v.unmap ⟨dma, len⟩) s → TxWP (f ()) Q s) :
    TxWP (unmap dma len >>= f) Q s := by
  refine wp_unmap At.stable h fun s c hs _ => ?_
  have ht : At tail (v.unmap ⟨dma, len⟩)
      { s with mapped := s.mapped.erase ⟨dma, len⟩ } := by
    refine ⟨⟨⟨hs.mem, hs.bridge, hs.idles, hs.sect⟩, hs.posted, hs.settled⟩, hs.adapter, fun r hr => ?_, hs.quiet⟩
    obtain ⟨hr, hne⟩ := List.mem_filter.mp hr
    exact (List.mem_erase_of_ne (of_decide_eq_true hne)).mpr (hs.mapped r hr)
  exact ⟨ht.pos hv, hf _ ht⟩

theorem At.store {dma : Addr} {data : List Byte} {f : Unit → DriverM α} (h : At tail v s)
    (hv : (v.store dma data).Agrees tail)
    (hf : ∀ s, At tail (v.store dma data) s → TxWP (f ()) Q s) :
    TxWP (store dma data >>= f) Q s := by
  refine wp_store At.stable h fun s hs => ?_
  have ht : At tail (v.store dma data) { s with mem := s.mem.write dma data } :=
    ⟨⟨⟨congrArg (·.write dma data) hs.mem, hs.bridge, hs.idles, hs.sect⟩, hs.posted, hs.settled⟩,
      hs.adapter, hs.mapped, hs.quiet⟩
  exact ⟨ht.pos hv, hf _ ht⟩

theorem At.setTxHead {head : Word} {f : Unit → DriverM α} (h : At tail v s)
    (hv : (v.setTxHead head).Agrees tail)
    (hf : ∀ s, At tail (v.setTxHead head) s → TxWP (f ()) Q s) :
    TxWP (setTxHead head >>= f) Q s := by
  refine wp_setTxHead At.stable h fun s hs => ?_
  have ht : At tail (v.setTxHead head)
      { s with adapter := s.adapter.map fun a => { a with txHead := head } } :=
    ⟨⟨⟨hs.mem, hs.bridge, hs.idles, hs.sect⟩, hs.posted, hs.settled⟩,
      congrArg (Option.map fun a : Adapter => { a with txHead := head }) hs.adapter, hs.mapped, hs.quiet⟩
  exact ⟨ht.pos hv, hf _ ht⟩

/-- A read waits until no write is on its way. -/
theorem At.readReg {reg : Addr} {f : Word → DriverM α} (h : At tail v s) (hv : v.Agrees tail)
    (hf : ∀ s val, At tail v.read s → TxWP (f val) Q s) : TxWP (readReg reg >>= f) Q s :=
  wp_readReg At.stable h (fun _ hs => hs.pos hv) fun s hs hp _ =>
    hf s _ ⟨hs.toCalm, hs.adapter, hs.mapped, fun _ => hp⟩

theorem settled_post (s : DriverNic) (reg : Addr) (val : Word) (addr : Addr) :
    settled { s with posted := s.posted ++ [(reg, val)] } addr = if reg = addr then val else s.settled addr := by
  rw [settled, getD_lastWritten_append, lastWritten_singleton]
  by_cases h : reg = addr
  · rw [if_pos h, if_pos h]
    rfl
  · rw [if_neg h, if_neg h]
    rfl

/-- A write to a plain register other than those that the call counts on. -/
theorem At.writeReg {reg : Addr} {val : Word} {f : Unit → DriverM α} (h : At tail v s) (hv : v.Agrees tail) (hp : Plain reg)
    (hne : ∀ c ∈ v.cfg, reg ≠ c.1)
    (hf : ∀ s, At tail (v.post [(reg, val)]) s → TxWP (f ()) Q s) :
    TxWP (writeReg reg val >>= f) Q s := by
  refine wp_writeReg At.stable h fun s hs => ?_
  have ht : At tail (v.post [(reg, val)]) { s with posted := s.posted ++ [(reg, val)] } := by
    refine ⟨⟨⟨hs.mem, hs.bridge, hs.idles, hs.sect⟩, fun w hw => ?_, fun c hc => ?_⟩, hs.adapter, hs.mapped, False.elim⟩
    · rcases List.mem_append.mp hw with hw | hw
      · exact hs.posted w hw
      · rw [List.mem_singleton.mp hw]
        exact hp
    · rw [settled_post]
      rcases List.mem_cons.mp hc with rfl | hc
      · exact ⟨hp, if_pos rfl⟩
      · obtain ⟨hc', hval⟩ := hs.settled c hc
        exact ⟨hc', (if_neg (hne c hc)).trans hval⟩
  exact ⟨ht.pos hv, hf _ ht⟩

theorem At.writeRegs {ws : List (Addr × Word)} {f : Unit → DriverM α} (h : At tail v s) (hv : v.Agrees tail)
    (hp : ∀ w ∈ ws, Plain w.1) (hnd : (ws ++ v.cfg).Pairwise fun w c => w.1 ≠ c.1)
    (hf : ∀ s, At tail (v.post ws) s → TxWP (f ()) Q s) :
    TxWP (writeRegs ws >>= f) Q s := by
  induction ws generalizing v s with
  | nil => exact hf s (h.weaken rfl rfl (fun _ hc => hc) (fun _ hr => hr) False.elim)
  | cons w ws ih =>
    obtain ⟨hne, hnd⟩ := List.pairwise_cons.mp hnd
    rw [SmartEthMain.writeRegs, Prog.bind_assoc]
    refine h.writeReg hv (hp w List.mem_cons_self) (fun c hc => hne c (List.mem_append_right _ hc)) fun s hs => ?_
    refine ih hs hv (fun w' hw' => hp w' (List.mem_cons_of_mem _ hw')) ?_ fun s hs' => hf s ?_
    · refine (List.pairwise_middle fun h => h.symm).mpr (List.pairwise_cons.mpr ⟨hne, hnd⟩)
    · rw [View.post_cons]
      exact hs'

end Rules

/-! ## The driver's functions -/

section Calls

variable {α : Type} {Q : α → DriverNic → Prop} {tail : Word} {v : View}

theorem Agrees.of_none (h : v.adapter = none) : v.Agrees tail := fun _ ha => by cases h.symm.trans ha

theorem Agrees.of_some {a : Adapter} (h : v.adapter = some a) (ht : tail = a.txHead) : v.Agrees tail := by
  intro b hb _
  cases h.symm.trans hb
  exact ht.symm

/-- The three stores of a descriptor. -/
theorem write_desc (m : GuestMem) (a : Addr) (d : SmartEthDesc) :
    ((m.write a (leBytes d.addr)).write (a + 8) (leBytes d.length)).write (a + 12) (leBytes d.flags) =
      m.write a d.toBytes := by
  have h8 : a + BitVec.ofNat 64 (leBytes d.addr).length = a + 8 := by
    rw [length_leBytes]
    rfl
  have h4 : a + 8 + BitVec.ofNat 64 (leBytes d.length).length = a + 12 := by
    rw [length_leBytes, BitVec.add_assoc]
    rfl
  have hl : (leBytes d.length ++ leBytes d.flags).length = 8 := by simp
  rw [SmartEthDesc.toBytes, Mem.write_append _ _ _ _ (by rw [length_leBytes, hl]; decide), h8,
    Mem.write_append _ _ _ _ (by simp), h4]

theorem At.fillDesc {desc dma : Addr} {len : Word} {f : Unit → DriverM α} (h : At tail v s)
    (hv : ∀ a, v.adapter = some a → a.txHead = tail)
    (hf : ∀ s, At tail (v.store desc (SmartEthDesc.toBytes ⟨dma, len, DESC_FLAG_OWN⟩)) s →
      TxWP (f ()) Q s) : TxWP (fillDesc desc dma len >>= f) Q s := by
  have hagree : ∀ m, { v with mem := m }.Agrees tail := fun m a ha _ => hv a ha
  rw [SmartEthMain.fillDesc, Prog.bind_assoc]
  refine h.store (hagree _) fun s hs => ?_
  rw [Prog.bind_assoc]
  refine hs.store (hagree _) fun s hs => hs.store (hagree _) fun s hs => hf s ?_
  rw [View.store, ← write_desc]
  exact hs

abbrev txRingRegion (ring : Addr) : Region 64 := ⟨ring, RING_BYTES⟩

theorem NoneOwn.outside (h : NoneOwn ring m) {a : Addr} {data : List Byte}
    (hd : (⟨a, data.length⟩ : Region 64).Disjoint (txRingRegion ring)) : NoneOwn ring (m.write a data) := by
  intro i hi
  rw [DescRing.entry_write_outside hi hd]
  exact h i hi

/-- A ring as `dma_alloc_coherent` gives it. -/
theorem NoneOwn.zeros (m : GuestMem) (ring : Addr) : NoneOwn ring (m.write ring (List.replicate RING_BYTES 0)) := by
  intro i hi
  have hzero : ∀ x ∈ DescRing.entryRegion ring i, m.write ring (List.replicate RING_BYTES 0) x = 0 := by
    intro x hx
    have hx' : (x - ring).toNat < RING_BYTES := slot_sub_table hi x hx
    rw [Mem.write, List.getD_eq_getElem?_getD, List.getElem?_replicate_of_lt hx', Option.getD_some]
  have hentry : DescRing.entry ring (m.write ring (List.replicate RING_BYTES 0)) i =
      DescRing.entry ring (fun _ => 0) i := congrArg SmartEthDesc.ofBytes (Mem.read_congr hzero)
  have hread : Mem.read (fun _ => 0 : GuestMem) (DescRing.entryAddr ring i) SmartEthDesc.size =
      List.replicate SmartEthDesc.size 0 := rfl
  rw [hentry, DescRing.entry, descAt, hread]
  decide

/-- What `smarteth_probe` knows once it has the TX ring. -/
structure Fresh (ring : Addr) (v : View) : Prop where
  cfg : v.cfg = []
  adapter : v.adapter = none
  mapped : txRingRegion ring ∈ v.mapped
  noneOwn : NoneOwn ring v.mem

theorem At.prepareRxBuffers {tail : Word} {tx rx : Addr} {n : Nat} {f : List Addr × Bool → DriverM α}
    (hd : (txRingRegion rx).Disjoint (txRingRegion tx)) (h : At tail v s) (hv : Fresh tx v)
    (hf : ∀ s v r, At tail v s → Fresh tx v → TxWP (f r) Q s) : TxWP (prepareRxBuffers rx n >>= f) Q s := by
  induction n generalizing v s f with
  | zero => exact hf s v _ h hv
  | succ n ih =>
    have hagree : v.Agrees tail := Agrees.of_none hv.adapter
    rw [SmartEthMain.prepareRxBuffers, Prog.bind_assoc]
    refine h.map hagree (fun s hs => hf s v _ hs hv) fun s dma _ hs => ?_
    dsimp only
    rw [Prog.bind_assoc]
    refine hs.fillDesc (fun a ha => by cases hv.adapter.symm.trans ha) fun s hs => ?_
    rw [Prog.bind_assoc]
    refine ih hs ⟨hv.cfg, hv.adapter, List.mem_cons_of_mem _ hv.mapped, ?_⟩ fun s v r hs hv => hf s v _ hs hv
    refine hv.noneOwn.outside (hd.sub_left ?_)
    rw [SmartEthDesc.length_toBytes]
    have hi : SMARTETH_RING_SIZE - (n + 1) < SMARTETH_RING_SIZE := by
      rw [SMARTETH_RING_SIZE]
      omega
    exact slot_sub_table hi

/-- Between two calls. -/
inductive Rest (s : DriverNic) : Prop
  | absent {tail : Word} {m : GuestMem} (view : At tail ⟨[], m, none, [], False⟩ s)
  | present {a : Adapter} {m : GuestMem}
      (view : At a.txHead ⟨ringCfg a.txRing, m, some a, [txRingRegion a.txRing], False⟩ s)
      (noneOwn : NoneOwn a.txRing m) (lt : a.txHead.toNat < SMARTETH_RING_SIZE)

theorem At.ended (h : At tail v s) : At tail v { s with call := none } :=
  ⟨⟨⟨h.mem, h.bridge, h.idles, h.sect⟩, h.posted, h.settled⟩, h.adapter, h.mapped, h.quiet⟩

theorem At.finished (h : At tail v s) (a : Option Adapter) :
    At tail { v with adapter := a } { s with call := none, adapter := a } :=
  ⟨⟨⟨h.mem, h.bridge, h.idles, h.sect⟩, h.posted, h.settled⟩, rfl, h.mapped, h.quiet⟩

/-- After `smarteth_probe`: it has failed, or no descriptor of the new TX ring is the NIC's. -/
inductive Probed (tail : Word) (s : DriverNic) : Prop
  | failed {m : GuestMem} (view : At tail ⟨[], m, none, [], False⟩ s)
  | loaded {a : Adapter} {m : GuestMem}
      (view : At tail ⟨ringCfg a.txRing, m, some a, [txRingRegion a.txRing], False⟩ s)
      (noneOwn : NoneOwn a.txRing m) (zero : a.txHead = 0)

theorem At.without (h : At tail v s) : At tail ⟨[], v.mem, none, [], False⟩ { s with call := none, adapter := none } :=
  (h.finished none).weaken rfl rfl (fun c hc => by cases hc) (fun r hr => by cases hr) False.elim

theorem At.absent (h : At tail v s) : Rest { s with call := none, adapter := none } := .absent h.without

theorem Probed.rest (h : Probed 0 s) : Rest s := by
  cases h with
  | failed view => exact .absent view
  | @loaded a m view noneOwn zero =>
    rw [← zero] at view
    refine .present view noneOwn ?_
    rw [zero]
    decide

/-- The registers of the rings and the others that `smarteth_probe` writes. -/
theorem plain_configWrites (tx rx : Addr) : ∀ w ∈ configWrites tx rx, Plain w.1 := by
  intro w hw
  simp only [configWrites, List.mem_cons, List.not_mem_nil, or_false] at hw
  rcases hw with rfl | rfl | rfl | rfl | rfl | rfl | rfl | rfl <;> (dsimp only; decide)

theorem configWrites_distinct (tx rx : Addr) : (configWrites tx rx).Pairwise fun w c => w.1 ≠ c.1 := by
  have hregs : ((configWrites tx rx).map Prod.fst).Nodup := by
    show [REG_TX_RING_BASE_LO, REG_TX_RING_BASE_HI, REG_TX_RING_SIZE, REG_RX_RING_BASE_LO, REG_RX_RING_BASE_HI,
      REG_RX_RING_SIZE, REG_IRQ_EN, REG_RX_DOORBELL].Nodup
    decide
  exact List.pairwise_map.mp hregs

theorem At.probe (h : At tail v s) (ha : v.adapter = none) (hc : v.cfg = []) :
    TxWP (probe >>= fun a => pure (CallEnd.probed a)) (fun r t => Probed tail (finish t r)) s := by
  have hagree : v.Agrees tail := Agrees.of_none ha
  rw [SmartEthMain.probe, Prog.bind_assoc]
  refine h.readReg hagree fun s devId hs => ?_
  split
  · exact hs.ret fun s hs => .failed hs.without
  rw [Prog.bind_assoc]
  refine hs.map hagree (fun s hs => hs.ret fun s hs => .failed hs.without) fun s tx _ hs => ?_
  dsimp only
  rw [Prog.bind_assoc]
  refine hs.store (Agrees.of_none ha) fun s hs => ?_
  rw [Prog.bind_assoc]
  refine hs.map (Agrees.of_none ha) (fun s hs => ?_) fun s rx hd hs => ?_
  · -- no memory for the RX ring
    dsimp only
    rw [Prog.bind_assoc]
    exact hs.unmap (Agrees.of_none ha) fun s hs => hs.ret fun s hs => .failed hs.without
  dsimp only
  rw [Prog.bind_assoc]
  refine hs.store (Agrees.of_none ha) fun s hs => ?_
  rw [Prog.bind_assoc]
  have hrings : (txRingRegion rx).Disjoint (txRingRegion tx) := hd _ List.mem_cons_self
  have hnone : NoneOwn tx ((v.mem.write tx (List.replicate RING_BYTES 0)).write rx (List.replicate RING_BYTES 0)) :=
    (NoneOwn.zeros v.mem tx).outside (by rw [List.length_replicate]; exact hrings)
  refine hs.prepareRxBuffers hrings ⟨hc, ha, List.mem_cons_of_mem _ List.mem_cons_self, hnone⟩
    fun s v₁ r hs hv => ?_
  have hagree : v₁.Agrees tail := Agrees.of_none hv.adapter
  split
  · -- no memory for a buffer
    rw [Prog.bind_assoc]
    refine hs.unmap hagree fun s hs => ?_
    rw [Prog.bind_assoc]
    exact hs.unmap hagree fun s hs => hs.ret fun s hs => .failed hs.without
  rw [Prog.bind_assoc]
  refine hs.writeRegs hagree (plain_configWrites tx rx) ?_ fun s hs => hs.ret fun s hs => ?_
  · rw [hv.cfg, List.append_nil]
    exact configWrites_distinct tx rx
  · have hcfg : ∀ c ∈ ringCfg tx, c ∈ (configWrites tx rx).reverse ++ v₁.cfg := fun c hc =>
      List.mem_append_left _ (List.mem_reverse.mpr (List.mem_append_left _ hc))
    have hmapped : ∀ r ∈ [txRingRegion tx], r ∈ v₁.mapped := fun r hr => List.mem_singleton.mp hr ▸ hv.mapped
    have hview : At tail ⟨ringCfg tx, v₁.mem, some ⟨tx, 0, rx, r.1⟩, [txRingRegion tx], False⟩
        { s with call := none, adapter := some ⟨tx, 0, rx, r.1⟩ } :=
      (hs.finished _).weaken rfl rfl hcfg hmapped False.elim
    exact Probed.loaded (a := ⟨tx, 0, rx, r.1⟩) hview hv.noneOwn rfl

/-! ## A frame -/

theorem next_lt (head : Word) : (next head).toNat < SMARTETH_RING_SIZE := by
  rw [next, BitVec.toNat_umod]
  exact Nat.mod_lt _ (by decide)

theorem NoneOwn.giveBack {head : Word} (h : NoneOwn ring m) (hlt : head.toNat < SMARTETH_RING_SIZE) (d : SmartEthDesc) :
    NoneOwn ring (giveBack ring head (m.write (DescRing.entryAddr ring head.toNat) d.toBytes)) := by
  have hn : SMARTETH_RING_SIZE < 2 ^ 32 := by decide
  intro i hi
  rw [DriverNic.giveBack]
  by_cases hih : i = head.toNat
  · rw [hih, DescRing.entry_write_self]
    exact SmartEthDesc.own_complete _
  · rw [DescRing.entry_write_ne hn hi hlt hih, DescRing.entry_write_ne hn hi hlt hih]
    exact h i hi

theorem Gone.waited {head : Word} (h : Gone ring head m s) (n : Nat) : Gone ring head m { s with completions := n } := by
  cases h with
  | given mem posted regs bridge sect idles => exact .given mem posted regs bridge sect idles
  | done calm posted =>
    exact .done ⟨⟨calm.mem, calm.bridge, calm.idles, calm.sect⟩, calm.posted, calm.settled⟩ posted

/-- What the driver holds from the doorbell of a test on. -/
structure Sent (a : Adapter) (s : DriverNic) : Prop where
  adapter : s.adapter = some { a with txHead := next a.txHead }
  mapped : txRingRegion a.txRing ∈ s.mapped

theorem Sent.env {a : Adapter} {e : DriverEvent} (h : Sent a s) (he : s.env e = some t) : Sent a t := by
  obtain ⟨ha, hm, -⟩ := env_frame he
  exact ⟨ha.trans h.adapter, hm ▸ h.mapped⟩

/-- The position before the next one. -/
theorem prev_next {head : Word} (h : head.toNat < SMARTETH_RING_SIZE) :
    (next head - 1) % BitVec.ofNat 32 SMARTETH_RING_SIZE = head := by
  have hsize : (BitVec.ofNat 32 SMARTETH_RING_SIZE).toNat = 64 := rfl
  have hone : (1 : Word).toNat = 1 := rfl
  have hlt : head.toNat < 64 := h
  apply BitVec.eq_of_toNat_eq
  rw [next, BitVec.toNat_umod, BitVec.toNat_sub, BitVec.toNat_umod, BitVec.toNat_add, hsize, hone]
  omega

theorem Sent.processed {a : Adapter} (h : Sent a s) (hlt : a.txHead.toNat < SMARTETH_RING_SIZE)
    (hd : ∀ d ∈ s.lastDesc, d.own = false) : (DescRing.entry a.txRing s.mem a.txHead.toNat).own = false := by
  have hlast : s.lastDesc = some (DescRing.entry a.txRing s.mem a.txHead.toNat) := by
    rw [lastDesc, h.adapter, Option.map_some, prev_next hlt]
  exact hd _ hlast

/-- The doorbell, the wait, and the rest of the test. -/
theorem At.doorbell {a : Adapter} {dma : Addr} {d : SmartEthDesc} (hown : d.own = true)
    (h : At a.txHead ⟨ringCfg a.txRing, m.write (DescRing.entryAddr a.txRing a.txHead.toNat) d.toBytes,
      some { a with txHead := next a.txHead }, [⟨dma, 256⟩, txRingRegion a.txRing], True⟩ s)
    (hnone : NoneOwn a.txRing m) (hlt : a.txHead.toNat < SMARTETH_RING_SIZE) :
    TxWP (SmartEthMain.writeReg REG_TX_DOORBELL 1 >>= fun _ => wait >>= fun done =>
      SmartEthMain.readReg REG_TX_TAIL >>= fun _ => SmartEthMain.unmap dma 256 >>= fun _ => pure (CallEnd.tested done))
      (fun r t => Rest (DriverNic.finish t r)) s := by
  generalize hm : m.write (DescRing.entryAddr a.txRing a.txHead.toNat) d.toBytes = m' at h
  have hentry : (DescRing.entry a.txRing m' a.txHead.toNat).own = true := by
    rw [← hm, DescRing.entry_write_self]
    exact hown
  have hpos : ∀ {s}, Sent a s → Rung a.txRing a.txHead m' s → Pos s := fun hs hr =>
    .rung hs.adapter rfl hlt hentry hr
  refine wp_writeReg At.stable h fun s hs => ?_
  have hposted : s.posted = [] := hs.quiet trivial
  have hsent : Sent a { s with posted := s.posted ++ [(REG_TX_DOORBELL, 1)] } :=
    ⟨hs.adapter, hs.mapped _ (List.mem_cons_of_mem _ List.mem_cons_self)⟩
  have hrung : Rung a.txRing a.txHead m' { s with posted := s.posted ++ [(REG_TX_DOORBELL, 1)] } := by
    refine .flight ⟨hs.mem, hs.bridge, hs.idles, hs.sect⟩ (congrArg (· ++ [(REG_TX_DOORBELL, 1)]) hposted) fun c hc => ?_
    obtain ⟨hc', hval⟩ := hs.settled c hc
    rw [DriverNic.settled, hposted] at hval
    exact ⟨hc', hval⟩
  refine ⟨hpos hsent hrung, ?_⟩
  refine wp_wait (K := fun s => Sent a s ∧ Rung a.txRing a.txHead m' s)
    (fun s e t hs hok he => ⟨hs.1.env he, hs.2.env hentry hok he⟩) ⟨hsent, hrung⟩ fun s c r n hs hok _ => ?_
  have hgone := (hs.2.processed hentry (hs.1.processed hlt (hok rfl))).waited n
  have hsent : Sent a { s with completions := n } := ⟨hs.1.adapter, hs.1.mapped⟩
  refine ⟨hpos hsent (.gone hgone), ?_⟩
  refine wp_readReg (K := fun s => Sent a s ∧ Gone a.txRing a.txHead m' s)
    (fun s e t hs hok he => ⟨hs.1.env he, hs.2.env hok he⟩) ⟨hsent, hgone⟩ (fun s hs => hpos hs.1 (.gone hs.2))
    fun s hs _ hsect => ?_
  obtain ⟨hsent, hgone⟩ := hs
  cases hgone with
  | given mem posted regs bridge sect idles => cases hsect.symm.trans sect
  | done calm posted =>
    have hview : At (next a.txHead) ⟨ringCfg a.txRing, DriverNic.giveBack a.txRing a.txHead m',
        some { a with txHead := next a.txHead }, [txRingRegion a.txRing], False⟩ s := by
      refine ⟨calm, hsent.adapter, fun r hr => ?_, False.elim⟩
      rw [List.mem_singleton.mp hr]
      exact hsent.mapped
    refine hview.unmap (Agrees.of_some rfl rfl) fun s hs => hs.ret fun s hs => ?_
    have hring : ∀ r ∈ [txRingRegion a.txRing], r ∈ [txRingRegion a.txRing].filter (· ≠ ⟨dma, 256⟩) := by
      have hlen : RING_BYTES ≠ 256 := by decide
      intro r hr
      refine List.mem_filter.mpr ⟨hr, decide_eq_true fun he => hlen ?_⟩
      rw [List.mem_singleton.mp hr] at he
      exact congrArg Region.len he
    have hview : At (next a.txHead) ⟨ringCfg a.txRing, DriverNic.giveBack a.txRing a.txHead m',
        some { a with txHead := next a.txHead }, [txRingRegion a.txRing], False⟩ { s with call := none } :=
      hs.ended.weaken rfl rfl (fun _ hc => hc) hring False.elim
    refine Rest.present (a := { a with txHead := next a.txHead }) hview ?_ (next_lt _)
    rw [← hm]
    exact hnone.giveBack hlt d

theorem At.testTx {a : Adapter} (h : At a.txHead ⟨ringCfg a.txRing, m, some a, [txRingRegion a.txRing], False⟩ s)
    (hnone : NoneOwn a.txRing m) (hlt : a.txHead.toNat < SMARTETH_RING_SIZE) :
    TxWP (testTx a >>= fun ok => pure (CallEnd.tested ok)) (fun r t => Rest (DriverNic.finish t r)) s := by
  have hagree : ∀ v : View, v.adapter = some a → v.Agrees a.txHead := fun v hv => Agrees.of_some hv rfl
  rw [SmartEthMain.testTx, Prog.bind_assoc]
  refine h.map (hagree _ rfl) (fun s hs => hs.ret fun s hs => .present hs.ended hnone hlt) fun s dma hd hs => ?_
  dsimp only
  rw [Prog.bind_assoc]
  refine hs.store (hagree _ rfl) fun s hs => ?_
  have hnone : NoneOwn a.txRing (m.write dma (List.replicate 256 0xAA)) :=
    hnone.outside (by rw [List.length_replicate]; exact hd _ List.mem_cons_self)
  rw [Prog.bind_assoc]
  refine hs.readReg (hagree _ rfl) fun s _ hs => ?_
  rw [Prog.bind_assoc]
  refine hs.fillDesc (fun b hb => by cases hb; rfl) fun s hs => ?_
  rw [Prog.bind_assoc]
  have hown : SmartEthDesc.own ⟨dma, 256, DESC_FLAG_OWN⟩ = true := by
    show (DESC_FLAG_OWN &&& SMARTETH_DESC_FLAG_OWN != 0) = true
    decide
  refine hs.setTxHead (fun b hb hn => ?_) fun s hs => hs.doorbell hown hnone hlt
  -- the position is ahead, but the descriptor is the NIC's
  cases hb
  have hentry : (DescRing.entry a.txRing ((m.write dma (List.replicate 256 0xAA)).write
      (DescRing.entryAddr a.txRing a.txHead.toNat) (SmartEthDesc.toBytes ⟨dma, 256, DESC_FLAG_OWN⟩))
      a.txHead.toNat).own = false := hn a.txHead.toNat hlt
  rw [DescRing.entry_write_self, hown] at hentry
  cases hentry

theorem At.freeRxBuffers {bufs : List Addr} {f : Unit → DriverM α} (h : At tail v s) (hv : v.Agrees tail)
    (hf : ∀ s v', At tail v' s → v'.Agrees tail → TxWP (f ()) Q s) : TxWP (freeRxBuffers bufs >>= f) Q s := by
  induction bufs generalizing v s with
  | nil => exact hf s v h hv
  | cons dma bufs ih =>
    rw [SmartEthMain.freeRxBuffers, Prog.bind_assoc]
    exact h.unmap hv fun s hs => ih hs hv

theorem At.remove {a : Adapter} (h : At a.txHead ⟨ringCfg a.txRing, m, some a, [txRingRegion a.txRing], False⟩ s) :
    TxWP (remove a >>= fun _ => pure CallEnd.removed) (fun r t => Rest (DriverNic.finish t r)) s := by
  have hagree : ∀ v : View, v.adapter = some a → v.Agrees a.txHead := fun v hv => Agrees.of_some hv rfl
  rw [SmartEthMain.remove, Prog.bind_assoc]
  refine h.writeReg (hagree _ rfl) (by decide) (fun c hc => ?_) fun s hs => ?_
  · simp only [ringCfg, List.mem_cons, List.not_mem_nil, or_false] at hc
    rcases hc with rfl | rfl | rfl <;> (dsimp only; decide)
  rw [Prog.bind_assoc]
  refine hs.freeRxBuffers (hagree _ rfl) fun s v hs hv => ?_
  rw [Prog.bind_assoc]
  exact hs.unmap hv fun s hs => hs.unmap hv fun s hs => hs.ret fun s hs => hs.absent

end Calls

theorem Rest.env {e : DriverEvent} (h : Rest s) (hok : TxEvent s e) (he : s.env e = some t) : Rest t := by
  cases h with
  | absent view => exact .absent (view.env hok he)
  | present view noneOwn lt => exact .present (view.env hok he) noneOwn lt

theorem Rest.pos (h : Rest s) : Pos s := by
  cases h with
  | absent view => exact view.pos (Agrees.of_none rfl)
  | present view noneOwn lt => exact view.pos (Agrees.of_some rfl rfl)

theorem Rest.start {c : DriverCall} {p : DriverM CallEnd} (h : Rest s) (hc : TxCall s c) (hz : ProbesAtZero s c)
    (hs : s.start c = some (t, p)) : Pos t ∧ TxWP p (fun r t => Rest (DriverNic.finish t r)) t := by
  have hcall : ∀ {tail v}, At tail v s → ∀ c, At tail v { s with call := c } := fun h _ =>
    ⟨⟨⟨h.mem, h.bridge, h.idles, h.sect⟩, h.posted, h.settled⟩, h.adapter, h.mapped, h.quiet⟩
  cases h with
  | @absent tail m view =>
    have hnone : s.adapter = none := view.adapter
    rcases hc with rfl | rfl | rfl
    · obtain ⟨-, rfl, rfl⟩ := start_probe hs
      have hview : At tail ⟨[], m, none, [], False⟩ { s with call := some .probe, completions := 0 } :=
        ⟨⟨⟨view.mem, view.bridge, view.idles, view.sect⟩, view.posted, view.settled⟩, view.adapter, view.mapped,
          view.quiet⟩
      have hzero : tail = 0 := view.toStill.txTail.symm.trans (hz rfl)
      exact ⟨hview.pos (Agrees.of_none rfl), (hview.probe rfl rfl).mono fun r t hp => Probed.rest (hzero ▸ hp)⟩
    · simp [DriverNic.start, hnone] at hs
    · simp [DriverNic.start, hnone] at hs
  | @present a m view noneOwn lt =>
    have hsome : s.adapter = some a := view.adapter
    rcases hc with rfl | rfl | rfl
    · cases hsome.symm.trans (start_probe hs).1
    · obtain ⟨b, hb, hs⟩ := Option.map_eq_some_iff.mp hs
      cases hsome.symm.trans hb
      cases hs
      exact ⟨(hcall view _).pos (Agrees.of_some rfl rfl), (hcall view _).testTx noneOwn lt⟩
    · obtain ⟨b, hb, hs⟩ := Option.map_eq_some_iff.mp hs
      cases hsome.symm.trans hb
      cases hs
      exact ⟨(hcall view _).pos (Agrees.of_some rfl rfl), (hcall view _).remove⟩

theorem Rest.init (netif : Bool) (mem : GuestMem) : Rest (init netif mem) := by
  have hview : At 0 ⟨[], mem, none, [], False⟩ (DriverNic.init netif mem) := by
    refine ⟨⟨⟨rfl, rfl, ⟨.refl _, rfl, rfl⟩, fun x hx => ?_⟩, fun w hw => ?_, fun c hc => ?_⟩, rfl, fun r hr => ?_,
      False.elim⟩
    · cases hx
    · cases hw
    · cases hc
    · cases hr
  exact .absent hview

/-- The invariant in every run of probes, frames and removals that probes only at zero. -/
theorem inv_of_probesAtZero {netif : Bool} {mem : GuestMem}
    {es : List (Machine.Event DriverEvent DriverChoice Empty DriverCall)}
    {t : Machine.State DriverOp DriverOp.Res CallEnd DriverNic}
    (hok : Along machine.step (Machine.Meets TxEvent Processed fun s c => TxCall s c ∧ ProbesAtZero s c)
      ⟨init netif mem, none⟩ es)
    (h : run machine.step ⟨init netif mem, none⟩ es = some t) : Pos t.st ∧ (t.cur = none → Rest t.st) := by
  rw [← Machine.run_guard hok] at h
  have hinv := Machine.inv (I := Pos) (J := Rest) (fun _ hj => hj.pos) (fun s e t hs he => ?_) (fun s e t hs he => ?_)
    (fun _ e => e.elim) (fun s c t p hs hst => ?_) (Rest.init netif mem) h
  · exact ⟨hinv.st, hinv.idle⟩
  · obtain ⟨he', he⟩ := Machine.guard_env.mp he
    exact hs.env he' he
  · obtain ⟨he', he⟩ := Machine.guard_env.mp he
    exact hs.env he' he
  · obtain ⟨hc, hst⟩ := Machine.guard_start.mp hst
    exact hs.start hc.1 hc.2 hst

/-- Each frame processed, DMA not failing: the two positions agree in every state. -/
theorem agree_of_probesAtZero {netif : Bool} {mem : GuestMem}
    {es : List (Machine.Event DriverEvent DriverChoice Empty DriverCall)}
    {t : Machine.State DriverOp DriverOp.Res CallEnd DriverNic}
    (hok : Along machine.step (Machine.Meets TxEvent Processed fun s c => TxCall s c ∧ ProbesAtZero s c)
      ⟨init netif mem, none⟩ es)
    (h : run machine.step ⟨init netif mem, none⟩ es = some t) : Agree t.st :=
  (inv_of_probesAtZero hok h).1.agree

/-! ## Probes alone -/

theorem Probed.env {tail : Word} {e : DriverEvent} (h : Probed tail s) (hok : TxEvent s e) (he : s.env e = some t) :
    Probed tail t := by
  cases h with
  | failed view => exact .failed (view.env hok he)
  | loaded view noneOwn zero => exact .loaded (view.env hok he) noneOwn zero

theorem Probed.not_outstanding {tail : Word} (h : Probed tail s) : ¬ Outstanding s := by
  intro hout
  obtain ⟨a, ha, i, hi, hown⟩ := hout
  cases h with
  | failed view => cases ha.symm.trans view.adapter
  | loaded view noneOwn zero =>
    cases ha.symm.trans view.adapter
    rw [view.mem, noneOwn i hi] at hown
    cases hown

/-- Wherever `TX_TAIL` is. -/
theorem probed_of_probes {tail : Word} {es : List (Machine.Event DriverEvent DriverChoice Empty DriverCall)}
    {t : Machine.State DriverOp DriverOp.Res CallEnd DriverNic} (view : At tail ⟨[], m, none, [], False⟩ s)
    (hok : Along machine.step (Machine.Meets TxEvent Processed fun _ c => c = .probe) ⟨s, none⟩ es)
    (h : run machine.step ⟨s, none⟩ es = some t) (hcur : t.cur = none) : Probed tail t.st := by
  rw [← Machine.run_guard hok] at h
  refine (Machine.inv (I := fun _ => True) (J := Probed tail) (fun _ _ => trivial) (fun _ _ _ _ _ => trivial)
    (fun s e t hs he => ?_) (fun _ e => e.elim) (fun s c t p hs hst => ⟨trivial, ?_⟩) (.failed view) h).idle hcur
  · obtain ⟨he', he⟩ := Machine.guard_env.mp he
    exact hs.env he' he
  · obtain ⟨rfl, hst⟩ := Machine.guard_start.mp hst
    obtain ⟨hnone, rfl, rfl⟩ := start_probe hst
    cases hs with
    | @failed m view =>
      have hview : At tail ⟨[], m, none, [], False⟩ { s with call := some .probe, completions := 0 } :=
        ⟨⟨⟨view.mem, view.bridge, view.idles, view.sect⟩, view.posted, view.settled⟩, view.adapter, view.mapped,
          view.quiet⟩
      exact (hview.probe rfl rfl).mono_inv fun _ _ => trivial
    | loaded view noneOwn zero => cases hnone.symm.trans view.adapter

/-! ## Examples -/

/-- `smarteth_probe`, and the NIC handles its register writes. -/
def exampleLoad : List (Machine.Event DriverEvent DriverChoice Empty DriverCall) :=
  [.start .probe, .act .done, .act (.mapped 0x1000), .act .done, .act (.mapped 0x2000), .act .done] ++
    (List.range 64).flatMap (fun i =>
      .act (.mapped (BitVec.ofNat 64 (0x10000 + 2048 * i))) :: List.replicate 3 (.act .done)) ++
    List.replicate 8 (.act .done) ++ [.finish] ++ List.replicate 8 (.env .handle)

/-- `smarteth_test_tx`, and the NIC sends the frame. -/
def exampleSend : List (Machine.Event DriverEvent DriverChoice Empty DriverCall) :=
  [.start .testTx, .act (.mapped 0x8000)] ++ List.replicate 7 (.act .done) ++
    [.env .handle, .env .txWake, .env .txIteration, .env (.nicOp .moved), .env (.nicOp .moved), .env (.nicOp .moved),
      .env .nicEnd, .env .signal, .act .done, .act .done, .act .done, .finish]

/-- `smarteth_remove`. -/
def exampleUnload : List (Machine.Event DriverEvent DriverChoice Empty DriverCall) :=
  .start .remove :: List.replicate 67 (.act .done) ++ [.finish, .env .handle]

theorem probes_exampleLoad {c : DriverCall} (h : .start c ∈ exampleLoad) : c = .probe := by
  simpa [exampleLoad] using h

/-- The NIC as constructed. -/
def exampleStart : Machine.State DriverOp DriverOp.Res CallEnd DriverNic := ⟨init false fun _ => 0, none⟩

/-- A frame is sent. -/
theorem agree_after_send : ∃ t, run machine.step exampleStart (exampleLoad ++ exampleSend) = some t ∧
    t.st.adapter.map (·.txHead) = some 1 ∧ Agree t.st := by
  have hr : (run (checked machine.step (Machine.Meets TxEvent Processed fun s c => TxCall s c ∧ ProbesAtZero s c))
      exampleStart (exampleLoad ++ exampleSend)).map (fun t => t.st.adapter.map (·.txHead)) = some (some 1) := by
    decide +kernel
  obtain ⟨t, ht, ha⟩ := Option.map_eq_some_iff.mp hr
  obtain ⟨hok, ht⟩ := run_checked.mp ht
  exact ⟨t, ht, ha, agree_of_probesAtZero hok ht⟩

/-- The driver is loaded again after a frame: `tx_head` is 0, and `TX_TAIL` is 1. -/
theorem positions_disagree : ¬ ∀ (netif : Bool) (mem : GuestMem)
    (es : List (Machine.Event DriverEvent DriverChoice Empty DriverCall))
    (t : Machine.State DriverOp DriverOp.Res CallEnd DriverNic),
    Along machine.step (Machine.Meets TxEvent Processed TxCall) ⟨init netif mem, none⟩ es →
      run machine.step ⟨init netif mem, none⟩ es = some t → Agree t.st := by
  intro h
  have hone : (run (checked machine.step (Machine.Meets TxEvent Processed fun s c => TxCall s c ∧ ProbesAtZero s c))
      exampleStart (exampleLoad ++ exampleSend ++ exampleUnload)).map
        (fun t => (t.cur.isNone, t.st.adapter.isNone)) = some (true, true) := by decide +kernel
  have htwo : (run (checked machine.step (Machine.Meets TxEvent Processed TxCall)) exampleStart
      (exampleLoad ++ exampleSend ++ exampleUnload ++ exampleLoad)).map
        (fun t => (t.cur.isNone, t.st.adapter.map (·.txHead), t.st.txTail)) = some (true, some 0, 1) := by
    decide +kernel
  obtain ⟨u, hu, hcur⟩ := Option.map_eq_some_iff.mp hone
  obtain ⟨t, ht, hend⟩ := Option.map_eq_some_iff.mp htwo
  simp only [Prod.mk.injEq, Option.isNone_iff_eq_none] at hcur hend
  obtain ⟨hokt, ht⟩ := run_checked.mp ht
  obtain ⟨hoku, hu⟩ := run_checked.mp hu
  have hagree : Agree t.st := h false (fun _ => 0) _ t hokt ht
  have hload := (along_append hokt hu).2
  have hrun := run_append_split ht hu
  -- after the first three calls there is no adapter, and the second probe starts from there
  have hrest := (inv_of_probesAtZero hoku hu).2 hcur.1
  obtain ⟨s, cur⟩ := u
  obtain rfl : cur = none := hcur.1
  have hprobes : Along machine.step (Machine.Meets TxEvent Processed fun _ c => c = .probe) ⟨s, none⟩ exampleLoad := by
    refine hload.mono fun e he s hs => ?_
    cases e with
    | start c => exact probes_exampleLoad he
    | env e => exact hs
    | act c => exact hs
    | idle e => exact hs
    | finish => exact hs
  cases hrest with
  | present view noneOwn lt => cases hcur.2.symm.trans view.adapter
  | absent view =>
    have hout := (probed_of_probes view hprobes hrun hend.1).not_outstanding
    obtain ⟨a, ha, hzero⟩ := Option.map_eq_some_iff.mp hend.2.1
    have heq := hagree a ha hout
    rw [hzero, hend.2.2] at heq
    exact absurd heq (by decide)

end SmartEth.DriverNic
