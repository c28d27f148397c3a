import SmartEth.Framework.Task
import SmartEth.Proof.NicFrame
import SmartEth.Proof.RxRing
import SmartEth.System.RxPath

/-!
# The first frames of a ring

The driver gives the NIC every descriptor of its ring once and never again. As long as no DMA
fails, the descriptors given back are then the first of the ring (`Owned`), one for each frame
that was accepted, until there are none left (`onPacketRx_first`): the frames delivered are the
first `n` of those accepted, and the others are dropped (`rx_first`).
-/

namespace SmartEth.RxRing

open SmartNic DescRing RxPath

/-- What becomes of `frames`, given to the descriptors `d` one after another. -/
def delivered (base : Addr) (d : Nat → SmartEthDesc) (frames : List (List Byte)) : List RxDone :=
  frames.mapIdx fun i f => ⟨entryAddr base i, d i, f.take (d i).length.toNat⟩

/-- The descriptors that were given back are the first of the ring; the others are as they were. -/
structure Owned (base : Addr) (n : Nat) (d : Nat → SmartEthDesc) (s : RxRing) : Prop where
  given : ∀ i < n, i < s.completed.length → (entry base s.mem i).own = false
  left : ∀ i < n, s.completed.length ≤ i → entry base s.mem i = d i

/-- The first frames accepted are those delivered. -/
structure First (base : Addr) (n : Nat) (d : Nat → SmartEthDesc) (s : RxRing) : Prop where
  owned : Owned base n d s
  frames : s.completed = delivered base d (s.accepted.take n)

variable {base : Addr} {n : Nat} {d : Nat → SmartEthDesc} {s t : RxRing}

theorem length_delivered (frames : List (List Byte)) : (delivered base d frames).length = frames.length :=
  List.length_mapIdx

theorem delivered_concat (frames : List (List Byte)) (f : List Byte) : delivered base d (frames ++ [f]) =
    delivered base d frames ++
      [⟨entryAddr base frames.length, d frames.length, f.take (d frames.length).length.toNat⟩] :=
  List.mapIdx_concat

/-- Buffers of one size. -/
theorem map_frame_delivered {frames : List (List Byte)} {k : Nat}
    (h : ∀ i < frames.length, (d i).length.toNat = k) :
    (delivered base d frames).map RxDone.frame = frames.map (List.take k) := by
  refine List.ext_getElem? fun i => ?_
  by_cases hi : i < frames.length
  · simp [delivered, hi, h i hi]
  · simp [delivered, hi]

/-- The world in which no DMA fails and the host gives no descriptor to the NIC. -/
noncomputable abbrev plainMachine (base : Addr) (n : Nat) :
    Machine RxRing RxHost Bool NicOp NicOp.Res Empty (List Byte) SmartNic :=
  (machine base n).guard Unarmed Exact fun _ _ => True

/-! ## One operation -/

theorem env_frame {e : RxHost} (h : RxRing.env base n s e = some t) :
    t.nic = s.nic ∧ t.accepted = s.accepted ∧ t.completed = s.completed := by
  cases e <;> simp only [RxRing.env, Option.ite_none_right_eq_some, Option.some.injEq] at h <;>
    obtain ⟨-, rfl⟩ := h <;> exact ⟨rfl, rfl, rfl⟩

theorem Owned.env (hn : n < 2 ^ 32) (hd : ∀ i < n, (d i).own = true) {e : RxHost} (h : Owned base n d s)
    (he : Unarmed s e) (ht : RxRing.env base n s e = some t) : Owned base n d t := by
  cases e with
  | desc i desc =>
    simp only [RxRing.env, Option.ite_none_right_eq_some, Option.some.injEq] at ht
    obtain ⟨⟨hi, ho, -⟩, rfl⟩ := ht
    have hgiven : i < s.completed.length := by
      by_contra hle
      rw [h.left i hi (by omega), hd i hi] at ho
      exact ho rfl
    refine ⟨fun j hj hlt => ?_, fun j hj hle => ?_⟩
    · show (entry base (s.mem.write (entryAddr base i) desc.toBytes) j).own = false
      by_cases hji : j = i
      · rw [hji, entry_write_self]
        exact he
      · rw [entry_write_ne hn hj hi hji]
        exact h.given j hj hlt
    · show entry base (s.mem.write (entryAddr base i) desc.toBytes) j = d j
      have hle : s.completed.length ≤ j := hle
      rw [entry_write_ne hn hj hi (by omega)]
      exact h.left j hj hle
  | write a bs =>
    simp only [RxRing.env, Option.ite_none_right_eq_some, Option.some.injEq] at ht
    obtain ⟨⟨hr, -⟩, rfl⟩ := ht
    refine ⟨fun j hj hlt => ?_, fun j hj hle => ?_⟩
    · show (entry base (s.mem.write a bs) j).own = false
      rw [entry_write_outside hj hr]
      exact h.given j hj hlt
    · show entry base (s.mem.write a bs) j = d j
      rw [entry_write_outside hj hr]
      exact h.left j hj hle

/-- A call of `on_packet_rx` that has not given a descriptor back. -/
structure During (base : Addr) (n : Nat) (d : Nat → SmartEthDesc) (s t : RxRing) : Prop where
  ok : Ok base n t
  kept : Kept base n s t
  owned : Owned base n d t

theorem During.env (hn : n < 2 ^ 32) (hd : ∀ i < n, (d i).own = true) : ∀ u e v, During base n d s u →
    (plainMachine base n).env u e = some v → During base n d s v := by
  intro u e v h he
  obtain ⟨hu, he⟩ := Machine.guard_env.mp he
  exact ⟨(h.ok.env hn he).1, h.kept.trans (h.ok.env hn he).2, h.owned.env hn hd hu he⟩

/-- The NIC writes to the start of a buffer of its own. -/
theorem Owned.fill (h : Owned base n d s) (hok : Ok base n s) {i : Nat} (hi : i < n)
    (ho : (entry base s.mem i).own = true) {bs : List Byte} (hlen : bs.length ≤ (entry base s.mem i).length.toNat) :
    Owned base n d (s.store base n (entry base s.mem i).addr bs) := by
  have hbuf : (⟨(entry base s.mem i).addr, bs.length⟩ : Region 64).Disjoint (ringRegion base n) :=
    (hok.ring i hi (.inl ho)).sub_left (Region.mem_of_le hlen)
  have hout : ¬ (bs ≠ [] ∧ (entry base s.mem i).addr ∈ ringRegion base n) := fun ⟨hne, hm⟩ => by
    refine hbuf _ ?_ hm
    rw [Region.mem_def, BitVec.sub_self]
    exact List.length_pos_of_ne_nil hne
  have he : ∀ j < n, entry base (s.mem.write (entry base s.mem i).addr bs) j = entry base s.mem j :=
    fun j hj => entry_write_outside hj hbuf
  rw [store, if_neg hout]
  exact ⟨fun j hj hlt => (he j hj).symm ▸ h.given j hj hlt, fun j hj hle => (he j hj).trans (h.left j hj hle)⟩

/-- The NIC gives a descriptor back: the next, for the frame accepted last. -/
theorem First.complete (hn : n < 2 ^ 32) (howned : Owned base n d s) {before : List (List Byte)} {f : List Byte}
    (hacc : s.accepted = before ++ [f]) (hbefore : s.completed = delivered base d (before.take n))
    {i : Nat} (hi : s.completed.length = i) (hlt : i < n)
    (hbuf : s.mem.read (d i).addr (min f.length (d i).length.toNat) = f.take (min f.length (d i).length.toNat)) :
    First base n d (s.store base n (entryAddr base i) (rxComplete (d i) (min f.length (d i).length.toNat)).toBytes) := by
  generalize hd' : rxComplete (d i) (min f.length (d i).length.toNat) = d'
  have hlen : d'.length.toNat = min f.length (d i).length.toNat := hd' ▸ length_rxComplete (Nat.min_le_right _ _)
  have hown : d'.own = false := hd' ▸ SmartEthDesc.own_complete (d i)
  have hin : d'.toBytes ≠ [] ∧ entryAddr base i ∈ ringRegion base n :=
    ⟨List.ne_nil_of_length_pos (by rw [d'.length_toBytes]; decide), entryAddr_mem hlt⟩
  have hc : descAt s.mem (entryAddr base i) = d i := howned.left i hlt hi.le
  have hshort : before.length = i := by
    have hl := congrArg List.length hbefore
    rw [length_delivered, List.length_take] at hl
    omega
  rw [store, if_pos hin, hc, SmartEthDesc.ofBytes_toBytes, hlen]
  dsimp only
  rw [hbuf]
  refine ⟨⟨fun j hj hlt' => ?_, fun j hj hle => ?_⟩, ?_⟩
  · show (entry base (s.mem.write _ d'.toBytes) j).own = false
    have hlt' : j < (s.completed ++ [_]).length := hlt'
    rw [List.length_append, List.length_singleton] at hlt'
    by_cases hji : j = i
    · rw [hji, entry_write_self, hown]
    · rw [entry_write_ne hn hj hlt hji]
      exact howned.given j hj (by omega)
  · show entry base (s.mem.write _ d'.toBytes) j = d j
    have hle : (s.completed ++ [_]).length ≤ j := hle
    rw [List.length_append, List.length_singleton] at hle
    rw [entry_write_ne hn hj hlt (by omega)]
    exact howned.left j hj (by omega)
  · show s.completed ++ [_] = delivered base d (s.accepted.take n)
    have hall : (before ++ [f]).take n = before ++ [f] :=
      List.take_of_length_le (by rw [List.length_append, List.length_singleton]; omega)
    rw [List.take_of_length_le (by omega)] at hbefore
    rw [hacc, hall, delivered_concat, ← hbefore, hshort, Nat.min_comm, ← List.take_take, List.take_length]

/-! ## A call of `on_packet_rx` -/

section

variable {α : Type} {Q : α → RxRing → Prop} {nic : SmartNic} (hn : n < 2 ^ 32) (hd : ∀ i < n, (d i).own = true)

abbrev PlainWP (base : Addr) (n : Nat) (p : NicM α) (Q : α → RxRing → Prop) (s : RxRing) : Prop :=
  (plainMachine base n).WP (fun _ => True) p Q s

include hn hd

/-- A read through the bridge. -/
theorem plain_dmaRead (h : During base n d s s) (hb : nic.bridge = true) {addr : Addr} {len : Word}
    {f : Option (List Byte) → NicM α}
    (hf : ∀ t, During base n d s t → PlainWP base n (f (some (t.mem.read addr len.toNat))) Q t) :
    PlainWP base n (nic.dmaReadBridge addr len >>= f) Q s := by
  rw [dmaReadBridge_bind hb]
  refine World.WP.op (During.env hn hd) h fun t ok r t' ht ha => ⟨trivial, ?_⟩
  obtain ⟨hok, ha⟩ := Machine.guard_act.mp ha
  obtain rfl : ok = true := hok
  simp only [machine, world, act, Option.some.injEq, Prod.mk.injEq, if_true] at ha
  obtain ⟨rfl, rfl⟩ := ha
  exact hf t ht

/-- A write through the bridge. -/
theorem plain_dmaWrite (h : During base n d s s) (hb : nic.bridge = true) {addr : Addr} {data : List Byte}
    {f : Bool → NicM α}
    (hf : ∀ t, During base n d s t → PlainWP base n (f true) Q (t.store base n addr data)) :
    PlainWP base n (nic.dmaWriteBridge addr data >>= f) Q s := by
  rw [dmaWriteBridge_bind hb]
  refine World.WP.op (During.env hn hd) h fun t ok r t' ht ha => ⟨trivial, ?_⟩
  obtain ⟨hok, ha⟩ := Machine.guard_act.mp ha
  obtain rfl : ok = true := hok
  simp only [machine, world, act, Option.some.injEq, Prod.mk.injEq, if_true] at ha
  obtain ⟨rfl, rfl⟩ := ha
  exact hf t ht

theorem First.env : ∀ s e t, First base n d s → (plainMachine base n).env s e = some t → First base n d t := by
  intro s e t h he
  obtain ⟨hu, he⟩ := Machine.guard_env.mp he
  obtain ⟨-, hacc, hcom⟩ := env_frame he
  exact ⟨h.owned.env hn hd hu he, by rw [hacc, hcom]; exact h.frames⟩

theorem plain_ret (h : First base n d s) : PlainWP base n (pure nic) (fun _ t => First base n d t) s :=
  World.WP.ret (First.env hn hd) h fun _ ht => ht

theorem plain_raiseIrq (h : First base n d s) (cause vector : Word) :
    PlainWP base n (nic.raiseIrq cause vector) (fun _ t => First base n d t) s := by
  unfold raiseIrq
  dsimp only
  split
  · simp only [Prog.call_bind]
    refine World.WP.op (First.env hn hd) h fun t c r t' ht ha => ⟨trivial, ?_⟩
    obtain ⟨-, ha⟩ := Machine.guard_act.mp ha
    simp only [machine, world, act, Option.some.injEq, Prod.mk.injEq] at ha
    obtain ⟨-, rfl⟩ := ha
    exact plain_ret hn hd ht
  · exact plain_ret hn hd h

variable {before : List (List Byte)} {f : List Byte}

/-- The frame accepted last, for the next descriptor. -/
theorem rxDeliver_first (h : During base n d s s) (hb : nic.bridge = true) (hacc : s.accepted = before ++ [f])
    (hbefore : s.completed = delivered base d (before.take n)) {i : Nat} (hi : s.completed.length = i) (hlt : i < n) :
    PlainWP base n (nic.rxDeliver f (entryAddr base i) (d i)) (fun _ t => First base n d t) s := by
  have hlen : (f.take (min f.length (d i).length.toNat)).length = min f.length (d i).length.toNat := by
    rw [List.length_take]
    omega
  unfold rxDeliver
  refine plain_dmaWrite hn hd h hb fun t ht => ?_
  have hdt : entry base t.mem i = d i := ht.owned.left i hlt (by rw [ht.kept.completed]; exact hi.le)
  have hod : (entry base t.mem i).own = true := by
    rw [hdt]
    exact hd i hlt
  have hle : (f.take (min f.length (d i).length.toNat)).length ≤ (entry base t.mem i).length.toNat := by
    rw [hdt, hlen]
    exact Nat.min_le_right _ _
  have hofill := ht.owned.fill ht.ok hlt hod hle
  obtain ⟨hok', hacc', hcom', hent', hbuf'⟩ := ht.ok.fill hlt hod _ hle
  rw [hdt] at hok' hacc' hcom' hent' hbuf' hofill
  rw [hlen] at hbuf'
  simp only [ite_true]
  refine plain_dmaWrite hn hd ⟨hok', .refl _, hofill⟩ hb fun u hu => ?_
  have hcu : u.completed = s.completed := by rw [hu.kept.completed, hcom', ht.kept.completed]
  have hau : u.accepted = before ++ [f] := by rw [hu.kept.accepted, hacc', ht.kept.accepted, hacc]
  have hbu := hu.kept.held.buf _ hlt (by rw [hent']; exact hd i hlt) (min f.length (d i).length.toNat)
    (by rw [hent']; exact Nat.min_le_right _ _)
  rw [hent', hbuf'] at hbu
  have hfirst := First.complete hn hu.owned hau (by rw [hcu]; exact hbefore) (by rw [hcu]; exact hi) hlt hbu
  simp only [ite_true]
  split
  · exact plain_raiseIrq hn hd hfirst _ _
  · exact plain_ret hn hd hfirst

/-- A call, in a state in which the frame was just accepted if the filter accepts it. -/
theorem onPacketRx_first (hn0 : 0 < n) (h : During base n d s s) (hb : nic.bridge = true) (hbase : base ≠ 0)
    (htail : Tail base n nic s.completed.length) (hbefore : s.completed = delivered base d (before.take n))
    (hacc : s.accepted = if nic.rxMatch f then before ++ [f] else before) :
    PlainWP base n (nic.onPacketRx f) (fun _ t => First base n d t) s := by
  have ht' := htail.pkt (nic.pkt.receive f).1
  rw [onPacketRx]
  generalize hnic : { nic with pkt := (nic.pkt.receive f).1 } = nic' at ht'
  have hm : nic'.rxMatch f = nic.rxMatch f := hnic ▸ rfl
  have hb' : nic'.bridge = true := hnic ▸ hb
  rw [hm]
  cases hmatch : nic.rxMatch f with
  | false =>
    rw [hmatch, if_neg Bool.false_ne_true] at hacc
    exact plain_ret hn hd ⟨h.owned, by rw [hacc]; exact hbefore⟩
  | true =>
    rw [hmatch, if_pos rfl] at hacc
    simp only [Bool.not_true, Bool.false_eq_true, ite_false]
    have hring : ¬ (nic'.reg SC_REG_RX_RING_SIZE = 0 ∨ nic'.rxRingBase = 0) := by
      rintro (h0 | h0)
      · have hsize := ht'.conf.size
        rw [h0] at hsize
        exact hn0.ne hsize
      · exact hbase (ht'.conf.base.symm.trans h0)
    rw [if_neg hring]
    have haddr : nic'.rxDescAddr = entryAddr base (s.completed.length % n) := by
      rw [rxDescAddr, ht'.conf.base, descAddr_eq, ht'.tail]
    rw [readDesc, Prog.bind_assoc, haddr]
    refine plain_dmaRead hn hd h hb' fun t ht => ?_
    simp only [Prog.pure_eq, Prog.ret_bind, Option.map_some, BitVec.toNat_ofNat, SmartEthDesc.size,
      Nat.reducePow, Nat.reduceMod]
    rw [ofBytes_read_entry]
    have hlen := congrArg List.length hbefore
    rw [length_delivered, List.length_take] at hlen
    have hdt : During base n d t t := ⟨ht.ok, .refl t, ht.owned⟩
    rw [← ht.kept.completed] at hlen hbefore ⊢
    rw [← ht.kept.accepted] at hacc
    rcases (show t.completed.length ≤ n by omega).lt_or_eq with hlt | heq
    · rw [Nat.mod_eq_of_lt hlt, ht.owned.left _ hlt le_rfl, if_neg (by rw [hd _ hlt]; exact Bool.false_ne_true)]
      exact rxDeliver_first hn hd hdt hb' hacc hbefore rfl hlt
    · -- no descriptor is left
      rw [heq, Nat.mod_self, if_pos (by rw [ht.owned.given 0 hn0 (by omega)]; rfl)]
      refine plain_ret hn hd ⟨ht.owned, ?_⟩
      rw [hacc, List.take_append_of_le_length (by omega)]
      exact hbefore

end

/-! ## Runs -/

/-- Between calls, on a ring that the driver has set up with the registers of `nic` and the
descriptors `d`. -/
structure PlainIdle (base : Addr) (n : Nat) (d : Nat → SmartEthDesc) (nic : SmartNic) (s : RxRing) : Prop where
  idle : Idle base n s
  first : First base n d s
  frame : HostFrame nic s.nic

/-- A ring whose descriptors are all the NIC's. -/
structure Armed (base : Addr) (n : Nat) (s : RxRing) : Prop where
  start : Start base n s
  nonzero : base ≠ 0
  bridge : s.nic.bridge = true
  own : ∀ i < n, (entry base s.mem i).own = true

theorem Armed.idle (h : Armed base n s) : PlainIdle base n (entry base s.mem) s.nic s := by
  refine ⟨.start h.start, ⟨⟨fun i _ hlt => ?_, fun _ _ _ => rfl⟩, ?_⟩, .refl _⟩
  · rw [h.start.completed] at hlt
    exact absurd hlt (Nat.not_lt_zero i)
  · rw [h.start.accepted, h.start.completed, List.take_nil]
    rfl

namespace PlainIdle

variable {nic : SmartNic}

theorem receive (hn : 0 < n) (hn' : n < 2 ^ 32) (hd : ∀ i < n, (d i).own = true) (hbase : base ≠ 0)
    (hb : nic.bridge = true) (h : PlainIdle base n d nic s) {data : List Byte} {p : NicM SmartNic}
    (hs : s.start data = some (t, p)) :
    PlainWP base n p (fun nic' u => PlainIdle base n d nic (u.finish nic')) t := by
  obtain ⟨hok, hidle⟩ := h.idle.receive hn hn' hs
  simp only [RxRing.start, Option.some.injEq, Prod.mk.injEq] at hs
  obtain ⟨rfl, rfl⟩ := hs
  have howned : Owned base n d { s with accepted := if s.nic.rxMatch data then s.accepted ++ [data] else s.accepted } :=
    ⟨h.first.owned.given, h.first.owned.left⟩
  have hfirst := onPacketRx_first hn' hd hn (f := data) ⟨hok, .refl _, howned⟩ (h.frame.bridge.trans hb) hbase
    h.idle.2 h.first.frames rfl
  have hframe := World.WP.ensures (W := (plainMachine base n).toWorld) (s.nic.onPacketRx_frame data)
    { s with accepted := if s.nic.rxMatch data then s.accepted ++ [data] else s.accepted }
  have hall := ((World.WP.guard hidle).and hfirst).and hframe
  refine (hall.mono ?_).mono_inv fun _ _ => trivial
  exact fun nic' u hu => ⟨hu.1.1, ⟨⟨hu.1.2.owned.given, hu.1.2.owned.left⟩, hu.1.2.frames⟩, h.frame.trans hu.2⟩

/-- Every step of the ring keeps it. -/
theorem step (hn : 0 < n) (hn' : n < 2 ^ 32) (hd : ∀ i < n, (d i).own = true) (hbase : base ≠ 0)
    (hb : nic.bridge = true) {x y : Machine.State NicOp NicOp.Res SmartNic RxRing}
    {e : Machine.Event RxHost Bool Empty (List Byte)}
    (h : (plainMachine base n).Inv (fun _ => True) (PlainIdle base n d nic) x)
    (hs : (plainMachine base n).step x e = some y) :
    (plainMachine base n).Inv (fun _ => True) (PlainIdle base n d nic) y := by
  refine h.step (fun _ _ => trivial) (fun _ _ _ _ _ => trivial) (fun u e v hi he => ?_) (fun _ e => nomatch e)
    (fun _ _ _ _ hi hst => ⟨trivial, hi.receive hn hn' hd hbase hb (Machine.guard_start.mp hst).2⟩) hs
  have he' := (Machine.guard_env.mp he).2
  exact ⟨hi.idle.env hn' he', First.env hn' hd u e v hi.first he, (env_frame he').1 ▸ hi.frame⟩

end PlainIdle

/-- With descriptors that are the NIC's at first and are not given to it again, and DMA that does not
fail: in every state between calls, the frames delivered are the first `n` that were accepted, each
with the next descriptor and as much of it as fits. -/
theorem rx_first (hn : 0 < n) (h0 : Armed base n s) {t : Machine.State NicOp NicOp.Res SmartNic RxRing}
    {es : List (Machine.Event RxHost Bool Empty (List Byte))}
    (hok : Along (machine base n).step (Machine.Meets Unarmed Exact fun _ _ => True) ⟨s, none⟩ es)
    (h : run (machine base n).step ⟨s, none⟩ es = some t) (hcur : t.cur = none) :
    t.st.completed = delivered base (entry base s.mem) (t.st.accepted.take n) := by
  have hn' : n < 2 ^ 32 := h0.start.conf.size ▸ BitVec.isLt _
  rw [← Machine.run_guard hok] at h
  have hinv := run_inv (I := (plainMachine base n).Inv (fun _ => True) (PlainIdle base n (entry base s.mem) s.nic))
    (fun _ _ _ hi hs => PlainIdle.step hn hn' h0.own h0.nonzero h0.bridge hi hs)
    ⟨trivial, fun _ => h0.idle, fun _ hp => by cases hp⟩ h
  exact (hinv.idle hcur).first.frames

end SmartEth.RxRing
