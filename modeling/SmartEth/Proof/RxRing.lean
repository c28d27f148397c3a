import Mathlib.Data.List.Forall2
import SmartEth.Proof.Buffers
import SmartEth.System.RxRing

/-!
# Reception in ring order

`Ok` is what holds at any time: buffers in use do not overlap, every write of
the NIC was one it may do, completions are in ring order, and their frames are
accepted ones in order. The host keeps it (`Ok.env`), a buffer write does
(`Ok.fill`), and so does a write-back, of the frame that was received last
(`Ok.complete`). `rx_in_order` puts them together over a call of `on_packet_rx`,
at whose every operation the DMA may fail.
-/

namespace SmartEth.RxRing

open SmartNic DescRing

variable {base : Addr} {n : Nat}

/-- A write into a descriptor that the NIC owns, or into its buffer. -/
def Allowed (base : Addr) (n : Nat) (w : RxWrite) : Prop :=
  ∃ i < n, (entry base w.mem i).own = true ∧
    (w.addr = entryAddr base i ∧ w.data.length = SmartEthDesc.size ∨
      w.addr = (entry base w.mem i).addr ∧ w.data.length ≤ (entry base w.mem i).length.toNat)

/-- Each completion has the start of a frame, as much as its buffer holds, and
these frames are some of those accepted, in order. -/
def Delivered (accepted : List (List Byte)) (completed : List RxDone) : Prop :=
  ∃ fs, fs.Sublist accepted ∧
    List.Forall₂ (fun f (c : RxDone) => c.frame = f.take c.desc.length.toNat) fs completed

theorem Delivered.accept {accepted : List (List Byte)} {completed : List RxDone}
    (h : Delivered accepted completed) (fs : List (List Byte)) : Delivered (accepted ++ fs) completed := by
  obtain ⟨gs, hs, hf⟩ := h
  exact ⟨gs, hs.trans (List.sublist_append_left _ _), hf⟩

/-- The frame received last is completed. -/
theorem Delivered.complete {accepted : List (List Byte)} {completed : List RxDone} {f : List Byte}
    {c : RxDone} (h : Delivered accepted completed) (hc : c.frame = f.take c.desc.length.toNat) :
    Delivered (accepted ++ [f]) (completed ++ [c]) := by
  obtain ⟨gs, hs, hf⟩ := h
  exact ⟨gs ++ [f], hs.append (List.Sublist.refl _), List.rel_append hf (.cons hc .nil)⟩

/-- A completion whose descriptor and buffer are as the NIC left them. -/
structure Live (base : Addr) (s : RxRing) (i : Nat) (c : RxDone) : Prop where
  mem : c ∈ s.completed
  addr : c.addr = entryAddr base i
  own : (entry base s.mem i).own = false
  done : (entry base s.mem i).done = true
  frame : s.mem.read (entry base s.mem i).addr (entry base s.mem i).length.toNat = c.frame

structure Ok (base : Addr) (n : Nat) (s : RxRing) : Prop where
  ring : Clear base n s.mem (ringRegion base n)
  bufs : Apart base n s.mem
  writes : ∀ w ∈ s.writes, Allowed base n w
  slots : ∀ k c, s.completed[k]? = some c → c.addr = entryAddr base (k % n)
  order : Delivered s.accepted s.completed
  live : ∀ i < n, ∀ c, s.live i = some c → Live base s i c

/-- What the host leaves alone. -/
structure Kept (base : Addr) (n : Nat) (s t : RxRing) : Prop where
  nic : t.nic = s.nic
  accepted : t.accepted = s.accepted
  completed : t.completed = s.completed
  held : Held base n s.mem t.mem

variable {s t : RxRing}

theorem Kept.refl (s : RxRing) : Kept base n s s := ⟨rfl, rfl, rfl, .refl _⟩

theorem Kept.trans {u : RxRing} (h : Kept base n s t) (h' : Kept base n t u) : Kept base n s u :=
  ⟨h'.nic.trans h.nic, h'.accepted.trans h.accepted, h'.completed.trans h.completed, h.held.trans h'.held⟩

namespace Ok

theorem hostDesc (h : Ok base n s) (hn : n < 2 ^ 32) {i : Nat} {d : SmartEthDesc} (hi : i < n)
    (ho : (entry base s.mem i).own = false)
    (hd : InUse d → (bufRegion d).Disjoint (ringRegion base n) ∧
      ∀ j < n, j ≠ i → InUse (entry base s.mem j) → (bufRegion d).Disjoint (bufRegion (entry base s.mem j))) :
    let t : RxRing := { s with
      mem := s.mem.write (entryAddr base i) d.toBytes
      live := fun j => if j = i then none else s.live j }
    Ok base n t ∧ Kept base n s t := by
  refine ⟨⟨h.ring.desc hn hi fun hu => (hd hu).1, h.bufs.desc hn hi fun hu => (hd hu).2, h.writes, h.slots,
    h.order, fun j hj c hc => ?_⟩, rfl, rfl, rfl, .desc h.ring hn hi ho d⟩
  dsimp only at hc
  by_cases hji : j = i
  · rw [if_pos hji] at hc; cases hc
  · rw [if_neg hji] at hc
    have hl := h.live j hj c hc
    have he : entry base (s.mem.write (entryAddr base i) d.toBytes) j = entry base s.mem j :=
      entry_write_ne hn hj hi hji
    refine ⟨hl.mem, hl.addr, ?_, ?_, ?_⟩ <;> dsimp only <;> rw [he]
    · exact hl.own
    · exact hl.done
    · rw [buf_write_entry hi (h.ring j hj (.inr hl.done))]
      exact hl.frame

theorem hostWrite (h : Ok base n s) {a : Addr} {bs : List Byte}
    (hr : (⟨a, bs.length⟩ : Region 64).Disjoint (ringRegion base n))
    (hb : ∀ j < n, (entry base s.mem j).own →
      (⟨a, bs.length⟩ : Region 64).Disjoint (bufRegion (entry base s.mem j))) :
    let t : RxRing := { s with
      mem := s.mem.write a bs
      live := fun j => if (⟨a, bs.length⟩ : Region 64).Disjoint (bufRegion (entry base s.mem j)) then s.live j
        else none }
    Ok base n t ∧ Kept base n s t := by
  refine ⟨⟨h.ring.outside hr, h.bufs.outside hr, h.writes, h.slots, h.order, fun j hj c hc => ?_⟩, rfl, rfl, rfl,
    .outside hr hb⟩
  dsimp only at hc
  rw [Option.ite_none_right_eq_some] at hc
  obtain ⟨hd, hc⟩ := hc
  have hl := h.live j hj c hc
  refine ⟨hl.mem, hl.addr, ?_, ?_, ?_⟩ <;> dsimp only <;> rw [entry_write_outside hj hr]
  · exact hl.own
  · exact hl.done
  · rw [Mem.read_write_disjoint hd.symm]; exact hl.frame

/-- What the host does. -/
theorem env (hn : n < 2 ^ 32) {e : RxHost} (h : Ok base n s) (he : RxRing.env base n s e = some t) :
    Ok base n t ∧ Kept base n s t := by
  cases e with
  | desc i d =>
    simp only [RxRing.env, Option.ite_none_right_eq_some, Option.some.injEq] at he
    obtain ⟨⟨hi, ho, hd⟩, rfl⟩ := he
    exact h.hostDesc hn hi (by simpa using ho) hd
  | write a bs =>
    simp only [RxRing.env, Option.ite_none_right_eq_some, Option.some.injEq] at he
    obtain ⟨⟨hr, hb⟩, rfl⟩ := he
    exact h.hostWrite hr hb

/-- The NIC writes to the start of the buffer of a descriptor it owns. -/
theorem fill (h : Ok base n s) {i : Nat} (hi : i < n) (ho : (entry base s.mem i).own = true)
    (bs : List Byte) (hlen : bs.length ≤ (entry base s.mem i).length.toNat) :
    let t := s.store base n (entry base s.mem i).addr bs
    Ok base n t ∧ t.accepted = s.accepted ∧ t.completed = s.completed ∧
      entry base t.mem i = entry base s.mem i ∧
      t.mem.read (entry base s.mem i).addr bs.length = bs := by
  have hbuf : (⟨(entry base s.mem i).addr, bs.length⟩ : Region 64).Disjoint (ringRegion base n) :=
    (h.ring i hi (.inl ho)).sub_left (Region.mem_of_le hlen)
  have hout : ¬ (bs ≠ [] ∧ (entry base s.mem i).addr ∈ ringRegion base n) := fun ⟨hne, hm⟩ => by
    refine hbuf _ ?_ hm
    rw [Region.mem_def, BitVec.sub_self]
    exact List.length_pos_of_ne_nil hne
  have he : ∀ j < n, entry base (s.mem.write (entry base s.mem i).addr bs) j = entry base s.mem j :=
    fun j hj => entry_write_outside hj hbuf
  dsimp only
  rw [store, if_neg hout]
  refine ⟨?_, rfl, rfl, he i hi, ?_⟩
  · refine ⟨h.ring.outside hbuf, h.bufs.outside hbuf, ?_, h.slots, h.order, ?_⟩
    · intro w hw
      rcases List.mem_append.mp hw with hw | hw
      · exact h.writes w hw
      · rw [List.mem_singleton.mp hw]
        exact ⟨i, hi, ho, .inr ⟨rfl, hlen⟩⟩
    · intro j hj c hc
      have hl := h.live j hj c hc
      have hji : j ≠ i := fun e => by
        have := hl.own
        rw [e, ho] at this; cases this
      refine ⟨hl.mem, hl.addr, ?_, ?_, ?_⟩ <;> dsimp only <;> rw [he j hj]
      · exact hl.own
      · exact hl.done
      · have hd := h.bufs j hj i hi hji (.inr hl.done) (.inl ho)
        rw [Mem.read_write_disjoint (hd.sub_right (Region.mem_of_le hlen))]
        exact hl.frame
  · refine Mem.read_write_self _ _ _ (le_trans hlen ?_)
    have := (entry base s.mem i).length.isLt
    omega

/-- The NIC gives back the descriptor at the tail, its buffer filled with the
frame received last. -/
theorem complete (h : Ok base n s) (hn : 0 < n) (hn' : n < 2 ^ 32) {d : SmartEthDesc}
    (hd : entry base s.mem (s.completed.length % n) = d) (ho : d.own = true) {before : List (List Byte)}
    {f : List Byte} (hacc : s.accepted = before ++ [f]) (hdel : Delivered before s.completed)
    (hbuf : s.mem.read d.addr (min f.length d.length.toNat) = f.take (min f.length d.length.toNat)) :
    let t := s.store base n (entryAddr base (s.completed.length % n))
      (rxComplete d (min f.length d.length.toNat)).toBytes
    Ok base n t ∧ t.completed.length = s.completed.length + 1 := by
  have hi := Nat.mod_lt s.completed.length hn
  generalize hie : s.completed.length % n = i at hd hi ⊢
  generalize hd' : rxComplete d (min f.length d.length.toNat) = d'
  have hlen : d'.length.toNat = min f.length d.length.toNat :=
    hd' ▸ length_rxComplete (Nat.min_le_right _ _)
  have hown : d'.own = false := hd' ▸ SmartEthDesc.own_complete d
  have hdone : d'.done = true := hd' ▸ SmartEthDesc.done_complete d
  have haddr : d'.addr = d.addr := hd' ▸ rfl
  have huse : InUse (entry base s.mem i) := .inl (hd ▸ ho)
  -- the new buffer is part of the old one
  have hsub : ∀ x ∈ bufRegion d', x ∈ bufRegion (entry base s.mem i) := by
    rw [hd, bufRegion, bufRegion, haddr, hlen]
    exact Region.mem_of_le (Nat.min_le_right _ _)
  have hne : ∀ j < n, j ≠ i → entry base (s.mem.write (entryAddr base i) d'.toBytes) j = entry base s.mem j :=
    fun j hj hji => entry_write_ne hn' hj hi hji
  have hself : entry base (s.mem.write (entryAddr base i) d'.toBytes) i = d' := entry_write_self _ _ _
  have hin : d'.toBytes ≠ [] ∧ entryAddr base i ∈ ringRegion base n :=
    ⟨List.ne_nil_of_length_pos (by rw [d'.length_toBytes]; decide), entryAddr_mem hi⟩
  dsimp only
  rw [store, if_pos hin]
  refine ⟨?_, List.length_append⟩
  have hc : descAt s.mem (entryAddr base i) = d := hd
  rw [hc, SmartEthDesc.ofBytes_toBytes, hlen]
  dsimp only
  rw [hbuf]
  refine ⟨h.ring.shrink hn' hi huse hsub, h.bufs.shrink hn' hi huse hsub, ?_, ?_, ?_, ?_⟩ <;> dsimp only
  · intro w hw
    rcases List.mem_append.mp hw with hw | hw
    · exact h.writes w hw
    · rw [List.mem_singleton.mp hw]
      exact ⟨i, hi, hd ▸ ho, .inl ⟨rfl, d'.length_toBytes⟩⟩
  · intro k c hk
    by_cases hlt : k < s.completed.length
    · rw [List.getElem?_append_left hlt] at hk
      exact h.slots k c hk
    · have hk' := (List.getElem?_eq_some_iff.mp hk).1
      rw [List.length_append, List.length_singleton] at hk'
      obtain rfl : k = s.completed.length := by omega
      rw [List.getElem?_concat_length, Option.some.injEq] at hk
      rw [← hk, hie]
  · rw [hacc]
    refine hdel.complete ?_
    dsimp only
    rw [Nat.min_comm, ← List.take_take, List.take_length]
  · intro j hj c hc
    by_cases hji : j = i
    · subst hji
      rw [if_pos rfl, Option.some.injEq] at hc
      subst hc
      refine ⟨List.mem_append_right _ (List.mem_singleton_self _), rfl, ?_, ?_, ?_⟩ <;> dsimp only <;>
        rw [hself]
      · exact hown
      · exact hdone
      · rw [buf_write_entry hi ((h.ring j hj huse).sub_left hsub), haddr, hlen, hbuf]
    · rw [if_neg fun e => hji (entryAddr_inj hn' hj hi e)] at hc
      have hl := h.live j hj c hc
      refine ⟨List.mem_append_left _ hl.mem, hl.addr, ?_, ?_, ?_⟩ <;> dsimp only <;> rw [hne j hj hji]
      · exact hl.own
      · exact hl.done
      · rw [buf_write_entry hi (h.ring j hj (.inr hl.done))]
        exact hl.frame

end Ok

/-! ## A call of `on_packet_rx` -/

/-- The ring's registers, with the tail after `c` completions. -/
structure Tail (base : Addr) (n : Nat) (nic : SmartNic) (c : Nat) : Prop where
  conf : Configured base n nic
  tail : (nic.reg SC_REG_RX_TAIL).toNat = c % n

/-- The ring's registers are as they were. -/
structure SameRing (nic nic' : SmartNic) : Prop where
  lo : nic'.reg SC_REG_RX_RING_BASE_LO = nic.reg SC_REG_RX_RING_BASE_LO
  hi : nic'.reg SC_REG_RX_RING_BASE_HI = nic.reg SC_REG_RX_RING_BASE_HI
  size : nic'.reg SC_REG_RX_RING_SIZE = nic.reg SC_REG_RX_RING_SIZE

theorem SameRing.conf {nic nic' : SmartNic} (h : SameRing nic nic') (hc : Configured base n nic) :
    Configured base n nic' :=
  ⟨by rw [← hc.base, rxRingBase, rxRingBase, h.lo, h.hi], by rw [h.size]; exact hc.size⟩

theorem SameRing.setReg {nic : SmartNic} {a : Addr} {v : Word} (h1 : SC_REG_RX_RING_BASE_LO >>> 2 ≠ a >>> 2)
    (h2 : SC_REG_RX_RING_BASE_HI >>> 2 ≠ a >>> 2) (h3 : SC_REG_RX_RING_SIZE >>> 2 ≠ a >>> 2) :
    SameRing nic (nic.setReg a v) :=
  ⟨reg_setReg_ne h1, reg_setReg_ne h2, reg_setReg_ne h3⟩

/-- What ends a call: memory in order, and the tail as far as the completions. -/
def Post (base : Addr) (n : Nat) (nic : SmartNic) (t : RxRing) : Prop :=
  Ok base n t ∧ Tail base n nic t.completed.length

section WP

variable {α : Type} {Q : α → RxRing → Prop} {nic : SmartNic}

theorem kept_env (hn : n < 2 ^ 32) : ∀ u e u', Ok base n u ∧ Kept base n s u →
    (world base n).env u e = some u' → Ok base n u' ∧ Kept base n s u' :=
  fun _ _ _ hu he => ⟨(hu.1.env hn he).1, hu.2.trans (hu.1.env hn he).2⟩

/-- A read through the bridge, which may fail. -/
theorem wp_dmaRead (hn : n < 2 ^ 32) (h : Ok base n s) {addr : Addr} {len : Word}
    {f : Option (List Byte) → NicM α}
    (hfail : ∀ t, Ok base n t → Kept base n s t → (world base n).WP (Ok base n) (f none) Q t)
    (hok : ∀ t, Ok base n t → Kept base n s t →
      (world base n).WP (Ok base n) (f (some (t.mem.read addr len.toNat))) Q t) :
    (world base n).WP (Ok base n) (nic.dmaReadBridge addr len >>= f) Q s := by
  cases hb : nic.bridge with
  | false =>
    simp only [dmaReadBridge, hb, Bool.false_eq_true, ite_false, Prog.pure_eq, Prog.ret_bind]
    exact hfail s h (Kept.refl s)
  | true =>
    rw [dmaReadBridge_bind hb]
    refine World.WP.op (kept_env hn) ⟨h, Kept.refl s⟩ ?_
    rintro t ok r t' ⟨ht, hk⟩ ha
    simp only [world, act, Option.some.injEq, Prod.mk.injEq] at ha
    obtain ⟨rfl, rfl⟩ := ha
    cases ok with
    | false => exact ⟨ht, hfail _ ht hk⟩
    | true => exact ⟨ht, hok _ ht hk⟩

/-- A write through the bridge, which may fail. -/
theorem wp_dmaWrite (hn : n < 2 ^ 32) (h : Ok base n s) {addr : Addr} {data : List Byte}
    {f : Bool → NicM α}
    (hfail : ∀ t, Ok base n t → Kept base n s t → (world base n).WP (Ok base n) (f false) Q t)
    (hok : ∀ t, Ok base n t → Kept base n s t → Ok base n (t.store base n addr data) ∧
      (world base n).WP (Ok base n) (f true) Q (t.store base n addr data)) :
    (world base n).WP (Ok base n) (nic.dmaWriteBridge addr data >>= f) Q s := by
  cases hb : nic.bridge with
  | false =>
    simp only [dmaWriteBridge, hb, Bool.false_eq_true, ite_false, Prog.pure_eq, Prog.ret_bind]
    exact hfail s h (Kept.refl s)
  | true =>
    rw [dmaWriteBridge_bind hb]
    refine World.WP.op (kept_env hn) ⟨h, Kept.refl s⟩ ?_
    rintro t ok r t' ⟨ht, hk⟩ ha
    simp only [world, act, Option.some.injEq, Prod.mk.injEq] at ha
    obtain ⟨rfl, rfl⟩ := ha
    cases ok with
    | false => exact ⟨ht, hfail _ ht hk⟩
    | true => exact hok _ ht hk

end WP

/-- The end of a call. -/
theorem wp_ret (hn : n < 2 ^ 32) {nic : SmartNic} (h : Ok base n s)
    (ht : Tail base n nic s.completed.length) :
    (world base n).WP (Ok base n) (pure nic) (Post base n) s :=
  World.WP.ret (kept_env hn) ⟨h, Kept.refl s⟩ fun t ⟨hok, hk⟩ => ⟨hok, by rw [hk.completed]; exact ht⟩

theorem wp_raiseIrq (hn : n < 2 ^ 32) {nic : SmartNic} {cause vector : Word} (h : Ok base n s)
    (ht : Tail base n nic s.completed.length) :
    (world base n).WP (Ok base n) (nic.raiseIrq cause vector) (Post base n) s := by
  have ht' : ∀ v, Tail base n (nic.setReg SC_REG_IRQ_STS v) s.completed.length := fun v =>
    ⟨(SameRing.setReg (by decide) (by decide) (by decide)).conf ht.conf, by
      rw [reg_setReg_ne (by decide)]; exact ht.tail⟩
  unfold raiseIrq
  dsimp only
  split
  · simp only [Prog.call_bind]
    refine World.WP.op (kept_env hn) ⟨h, Kept.refl s⟩ ?_
    intro t _ _ t' ⟨hok, hk⟩ ha
    simp only [world, act, Option.some.injEq, Prod.mk.injEq] at ha
    obtain ⟨-, rfl⟩ := ha
    exact ⟨hok, wp_ret hn hok (by rw [hk.completed]; exact ht' _)⟩
  · exact wp_ret hn h (ht' _)

/-- The tail moves on. -/
theorem Tail.next (hn : 0 < n) {nic : SmartNic} {c : Nat} (h : Tail base n nic c) :
    Tail base n (nic.setReg SC_REG_RX_TAIL
      (nextTail (nic.reg SC_REG_RX_TAIL) (nic.reg SC_REG_RX_RING_SIZE))) (c + 1) :=
  ⟨(SameRing.setReg (by decide) (by decide) (by decide)).conf h.conf, by
    rw [reg_setReg_self, nextTail_toNat hn h.tail h.conf.size]⟩

variable {before : List (List Byte)} {f : List Byte} {nic : SmartNic}

/-- The frame received last, for the descriptor at the tail. -/
theorem rxDeliver_ok (hn : 0 < n) (hn' : n < 2 ^ 32) (h : Ok base n s)
    (ht : Tail base n nic s.completed.length) (hacc : s.accepted = before ++ [f])
    (hdel : Delivered before s.completed) {d : SmartEthDesc}
    (hd : entry base s.mem (s.completed.length % n) = d) (ho : d.own = true) :
    (world base n).WP (Ok base n)
      (nic.rxDeliver f (entryAddr base (s.completed.length % n)) d) (Post base n) s := by
  have hi := Nat.mod_lt s.completed.length hn
  have hlen : (f.take (min f.length d.length.toNat)).length = min f.length d.length.toNat := by
    rw [List.length_take]; omega
  unfold rxDeliver
  refine wp_dmaWrite hn' h (fun t hok hk => ?_) (fun t hok hk => ?_)
  · exact wp_ret hn' hok (by rw [hk.completed]; exact ht)
  have hdt : entry base t.mem (s.completed.length % n) = d := (hk.held.entry _ hi (hd ▸ ho)).trans hd
  obtain ⟨hok', hacc', hcom', hent', hbuf'⟩ := hok.fill hi (by rw [hdt]; exact ho)
    (f.take (min f.length d.length.toNat)) (by rw [hdt, hlen]; exact Nat.min_le_right _ _)
  rw [hdt] at hok' hacc' hcom' hent' hbuf'
  rw [hlen] at hbuf'
  refine ⟨hok', ?_⟩
  simp only [ite_true]
  refine wp_dmaWrite hn' hok' (fun u hu hku => ?_) (fun u hu hku => ?_)
  · exact wp_ret hn' hu (by rw [hku.completed, hcom', hk.completed]; exact ht)
  have hcu : u.completed = s.completed := by rw [hku.completed, hcom', hk.completed]
  have hdu : entry base u.mem (u.completed.length % n) = d := by
    rw [hcu, hku.held.entry _ hi (by rw [hent', ho]), hent']
  have hbu := hku.held.buf _ hi (by rw [hent', ho]) (min f.length d.length.toNat)
    (by rw [hent']; exact Nat.min_le_right _ _)
  rw [hent', hbuf'] at hbu
  have hau : u.accepted = before ++ [f] := by rw [hku.accepted, hacc', hk.accepted, hacc]
  have hcompl := hu.complete hn hn' hdu ho hau (by rw [hcu]; exact hdel) hbu
  rw [hcu] at hcompl
  obtain ⟨hu', hlen'⟩ := hcompl
  refine ⟨hu', ?_⟩
  simp only [ite_true]
  have htail := ht.next hn
  split
  · exact wp_raiseIrq hn' hu' (by rw [hlen']; exact htail)
  · exact wp_ret hn' hu' (by rw [hlen']; exact htail)

/-- Parsing the frame touches no register. -/
theorem Tail.pkt {c : Nat} (h : Tail base n nic c) (pkt : PktProc) : Tail base n { nic with pkt := pkt } c :=
  ⟨⟨h.conf.base, h.conf.size⟩, h.tail⟩

/-- A call, from a state between calls in which the frame was just accepted if
the filter accepts it. -/
theorem onPacketRx_ok (hn : 0 < n) (hn' : n < 2 ^ 32) (h : Ok base n s)
    (ht : Tail base n nic s.completed.length)
    (hacc : nic.rxMatch f = true → s.accepted = before ++ [f]) (hdel : Delivered before s.completed) :
    (world base n).WP (Ok base n) (nic.onPacketRx f) (Post base n) s := by
  have ht' := ht.pkt (nic.pkt.receive f).1
  rw [onPacketRx]
  generalize hnic : { nic with pkt := (nic.pkt.receive f).1 } = nic' at ht'
  have hm : nic'.rxMatch f = nic.rxMatch f := hnic ▸ rfl
  rw [hm]
  cases hmatch : nic.rxMatch f with
  | false => exact wp_ret hn' h ht'
  | true =>
    simp only [Bool.not_true, Bool.false_eq_true, ite_false]
    split
    · exact wp_ret hn' h ht'
    have haddr : nic'.rxDescAddr = entryAddr base (s.completed.length % n) := by
      rw [rxDescAddr, ht'.conf.base, descAddr_eq, ht'.tail]
    rw [readDesc, Prog.bind_assoc, haddr]
    refine wp_dmaRead hn' h (fun t hok hk => ?_) (fun t hok hk => ?_)
    · exact wp_ret hn' hok (by rw [hk.completed]; exact ht')
    simp only [Prog.pure_eq, Prog.ret_bind, Option.map_some, BitVec.toNat_ofNat, SmartEthDesc.size,
      Nat.reducePow, Nat.reduceMod]
    rw [ofBytes_read_entry]
    split
    · exact wp_ret hn' hok (by rw [hk.completed]; exact ht')
    · rename_i hown
      rw [Bool.not_eq_true', Bool.not_eq_false] at hown
      rw [← hk.completed] at hdel hown ht' ⊢
      have hat : t.accepted = before ++ [f] := hk.accepted.trans (hacc hmatch)
      exact rxDeliver_ok hn hn' hok ht' hat hdel rfl hown

/-! ## Runs -/

/-- Between calls. -/
def Idle (base : Addr) (n : Nat) (s : RxRing) : Prop := Post base n s.nic s

theorem Ok.accept (h : Ok base n s) (fs : List (List Byte)) :
    Ok base n { s with accepted := s.accepted ++ fs } :=
  ⟨h.ring, h.bufs, h.writes, h.slots, h.order.accept fs, fun i hi c hc =>
    let hl := h.live i hi c hc
    ⟨hl.mem, hl.addr, hl.own, hl.done, hl.frame⟩⟩

theorem Ok.finish (h : Ok base n s) (nic : SmartNic) : Ok base n (s.finish nic) :=
  ⟨h.ring, h.bufs, h.writes, h.slots, h.order, fun i hi c hc =>
    let hl := h.live i hi c hc
    ⟨hl.mem, hl.addr, hl.own, hl.done, hl.frame⟩⟩

theorem Idle.start (h : Start base n s) : Idle base n s := by
  refine ⟨⟨h.ring, h.bufs, ?_, ?_, ⟨[], List.nil_sublist _, ?_⟩, ?_⟩, h.conf, ?_⟩
  · rw [h.writes]; exact fun w hw => nomatch hw
  · rw [h.completed]; exact fun k c hk => by cases hk
  · rw [h.completed]; exact .nil
  · exact fun i _ c hc => by rw [h.live i] at hc; cases hc
  · rw [h.tail, h.completed]; exact (Nat.zero_mod n).symm

theorem Idle.env (hn : n < 2 ^ 32) {e : RxHost} (h : Idle base n s) (he : RxRing.env base n s e = some t) :
    Idle base n t := by
  obtain ⟨hok, hk⟩ := h.1.env hn he
  refine ⟨hok, ?_⟩
  rw [hk.nic, hk.completed]
  exact h.2

theorem Idle.receive (hn : 0 < n) (hn' : n < 2 ^ 32) {data : List Byte} {p : NicM SmartNic}
    (h : Idle base n s) (hs : s.start data = some (t, p)) :
    Ok base n t ∧ (world base n).WP (Ok base n) p (fun nic u => Idle base n (u.finish nic)) t := by
  simp only [RxRing.start, Option.some.injEq, Prod.mk.injEq] at hs
  obtain ⟨rfl, rfl⟩ := hs
  have hok : Ok base n { s with
      accepted := if s.nic.rxMatch data then s.accepted ++ [data] else s.accepted } := by
    split
    · exact h.1.accept [data]
    · exact h.1
  refine ⟨hok, (onPacketRx_ok hn hn' hok h.2 (fun hm => if_pos hm) h.1.order).mono ?_⟩
  exact fun nic u hu => ⟨hu.1.finish nic, hu.2⟩

/-- After any run: the NIC has written only to descriptors it owned then, and to
their buffers; it gave the descriptors back in ring order; their frames are
accepted ones, in order, none twice; and a completion that the host has left
alone still stands, with its frame. -/
theorem rx_in_order (hn : 0 < n) {t : Machine.State NicOp NicOp.Res SmartNic RxRing}
    {es : List (Machine.Event RxHost Bool Empty (List Byte))} (h0 : Start base n s)
    (h : run (machine base n).step ⟨s, none⟩ es = some t) :
    (∀ w ∈ t.st.writes, ∃ i < n, (entry base w.mem i).own = true ∧
      (w.addr = entryAddr base i ∧ w.data.length = SmartEthDesc.size ∨
        w.addr = (entry base w.mem i).addr ∧ w.data.length ≤ (entry base w.mem i).length.toNat)) ∧
    (∀ k c, t.st.completed[k]? = some c → c.addr = entryAddr base (k % n)) ∧
    (∃ fs, fs.Sublist t.st.accepted ∧
      List.Forall₂ (fun f (c : RxDone) => c.frame = f.take c.desc.length.toNat) fs t.st.completed) ∧
    ∀ i < n, ∀ c, t.st.live i = some c → c ∈ t.st.completed ∧ c.addr = entryAddr base i ∧
      (entry base t.st.mem i).own = false ∧ (entry base t.st.mem i).done = true ∧
      t.st.mem.read (entry base t.st.mem i).addr (entry base t.st.mem i).length.toNat = c.frame := by
  have hn' : n < 2 ^ 32 := h0.conf.size ▸ BitVec.isLt _
  have hinv : (machine base n).Inv (Ok base n) (Idle base n) t :=
    Machine.inv (fun _ h => h.1) (fun _ _ _ h he => (h.env hn' he).1)
      (fun _ _ _ h he => h.env hn' he)
      (fun _ e => nomatch e) (fun _ _ _ _ h hs => h.receive hn hn' hs) (.start h0) h
  have hok := hinv.st
  exact ⟨hok.writes, hok.slots, hok.order, fun i hi c hc =>
    let hl := hok.live i hi c hc
    ⟨hl.mem, hl.addr, hl.own, hl.done, hl.frame⟩⟩

/-- A ring of one at `0x1000`, whose descriptor the NIC owns. -/
def exampleRing : RxRing where
  nic := { ((SmartNic.new.setReg SC_REG_RX_RING_BASE_LO 0x1000).setReg SC_REG_RX_RING_SIZE 1) with
    bridge := true }
  mem := Mem.write (fun _ => 0) 0x1000 (SmartEthDesc.toBytes ⟨0x2000, 16, SMARTETH_DESC_FLAG_OWN⟩)
  accepted := []
  writes := []
  completed := []
  live := fun _ => none

theorem exampleRing_start : Start 0x1000 1 exampleRing :=
  ⟨⟨by decide, by decide⟩, by decide, rfl, rfl, rfl, fun _ => rfl, by decide +kernel,
    fun i hi j hj hij => absurd hij (by omega)⟩

/-- A broadcast frame is received; then another, for which no descriptor is left. -/
def exampleRun : List (Machine.Event RxHost Bool Empty (List Byte)) :=
  [.start (List.replicate 14 0xff), .act true, .act true, .act true, .finish,
    .start (List.replicate 20 0xff), .act true, .finish]

theorem rx_in_order_one : ∃ t, run (machine 0x1000 1).step ⟨exampleRing, none⟩ exampleRun = some t ∧
    t.st.accepted.length = 2 ∧ t.st.completed.length = 1 ∧ (∃ fs, fs.Sublist t.st.accepted ∧
      List.Forall₂ (fun f (c : RxDone) => c.frame = f.take c.desc.length.toNat) fs t.st.completed) := by
  have hr : ((run (machine 0x1000 1).step ⟨exampleRing, none⟩ exampleRun).map fun t =>
      (t.st.accepted.length, t.st.completed.length)) = some (2, 1) := by decide +kernel
  obtain ⟨t, ht, he⟩ := Option.map_eq_some_iff.mp hr
  rw [Prod.mk.injEq] at he
  have h := rx_in_order (by decide) exampleRing_start ht
  exact ⟨t, ht, he.1, he.2, h.2.2.1⟩

end SmartEth.RxRing
