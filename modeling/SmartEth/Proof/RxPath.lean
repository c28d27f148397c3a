import SmartEth.Proof.NetRx
import SmartEth.Proof.RxFirst

/-!
# What gets from the socket to guest memory

A step is one of the listener, one of the ring, or both (`step_cases`); a frame is accepted for
each call that the address filter lets pass (`Accepts`). So the invariants of the listener and of
the ring hold together along a run. Whatever DMA fails and whatever the host does with its
descriptors, the frames delivered are some of those sent, in order (`rx_path_in_order`); with the
descriptors that the NIC had at first, and no more, they are the first of those that pass
(`rx_path_first`).
-/

namespace SmartEth.RxPath

open SmartNic

variable {base : Addr} {n : Nat} {frames : List (List Byte)} {nic : SmartNic} {s t : RxPath}

/-! ## One step -/

theorem calls_onRead (x : NetIf) (stale : BitVec 32) (bs : List Byte) :
    (x.onRead stale bs).calls = x.calls ∨ ∃ d, (x.onRead stale bs).calls = x.calls ++ [d] := by
  unfold NetIf.onRead
  split
  · split
    · exact .inl rfl
    · dsimp only
      split <;> exact .inl rfl
  · split
    · exact .inl rfl
    · split
      · exact .inl rfl
      · exact .inr ⟨_, rfl⟩
  · exact .inl rfl

/-- What a step does to the listener and to the ring. -/
theorem step_cases {e : RxPathEvent} (h : s.step base n e = some t) :
    (∃ r, e = .read r ∧ s.ring.cur = none ∧ s.net.step r = some t.net ∧ t.net.netif.calls = s.net.netif.calls ∧
      t.ring = s.ring) ∨
    (∃ r data, e = .read r ∧ s.ring.cur = none ∧ s.net.step r = some t.net ∧
      t.net.netif.calls = s.net.netif.calls ++ [data] ∧
      (RxRing.machine base n).step s.ring (.start data) = some t.ring) ∨
    (∃ f, t.net = s.net ∧ (RxRing.machine base n).step s.ring f = some t.ring ∧
      (e = .finish ∧ f = .finish ∨ (∃ x, e = .host x ∧ f = .env x) ∨ ∃ ok, e = .dma ok ∧ f = .act ok)) := by
  cases e with
  | read r =>
    simp only [step] at h
    split at h
    · rename_i net hcur hnet
      have hcalls : net.netif.calls = s.net.netif.calls ∨ ∃ d, net.netif.calls = s.net.netif.calls ++ [d] := by
        obtain ⟨-, -, -, -, rfl⟩ := NetRx.step_some hnet
        exact calls_onRead _ _ _
      rcases hcalls with hc | ⟨d, hc⟩
      · rw [hc, List.drop_length] at h
        cases h
        exact .inl ⟨r, rfl, hcur, hnet, hc, rfl⟩
      · rw [hc, List.drop_left] at h
        obtain ⟨ring, hring, rfl⟩ := Option.map_eq_some_iff.mp h
        exact .inr (.inl ⟨r, d, rfl, hcur, hnet, hc, hring⟩)
    · cases h
  | host x =>
    obtain ⟨ring, hring, rfl⟩ := Option.map_eq_some_iff.mp h
    exact .inr (.inr ⟨_, rfl, hring, .inr (.inl ⟨x, rfl, rfl⟩)⟩)
  | dma ok =>
    obtain ⟨ring, hring, rfl⟩ := Option.map_eq_some_iff.mp h
    exact .inr (.inr ⟨_, rfl, hring, .inr (.inr ⟨ok, rfl, rfl⟩)⟩)
  | finish =>
    obtain ⟨ring, hring, rfl⟩ := Option.map_eq_some_iff.mp h
    exact .inr (.inr ⟨_, rfl, hring, .inl ⟨rfl, rfl⟩⟩)

/-- The listener stays in step. -/
theorem inStep_step (hv : ∀ d ∈ frames, d.length < 2 ^ 32) {e : RxPathEvent} (hi : NetRx.InStep frames s.net)
    (he : ReadsLength s e) (h : s.step base n e = some t) : NetRx.InStep frames t.net := by
  rcases step_cases h with ⟨r, rfl, -, hr, -⟩ | ⟨r, data, rfl, -, hr, -⟩ | ⟨f, hr, -⟩
  · exact (NetRx.inStep_step hv hi hr).mpr he
  · exact (NetRx.inStep_step hv hi hr).mpr he
  · rw [hr]
    exact hi

/-- The frames accepted are those among the calls that the filter lets pass. -/
def Accepts (nic : SmartNic) (s : RxPath) : Prop :=
  s.ring.st.accepted = s.net.netif.calls.filter fun data => nic.rxMatch data

theorem ring_accepted {x y : Machine.State NicOp NicOp.Res SmartNic RxRing}
    {f : Machine.Event RxHost Bool Empty (List Byte)} (hf : ∀ data, f ≠ .start data)
    (h : (RxRing.machine base n).step x f = some y) : y.st.accepted = x.st.accepted := by
  obtain ⟨st, cur⟩ := x
  cases f with
  | env e =>
    obtain ⟨u, hu, rfl⟩ := Option.map_eq_some_iff.mp h
    exact (RxRing.env_frame hu).2.1
  | idle e => cases e
  | start data => exact absurd rfl (hf data)
  | act c =>
    rcases cur with _ | ⟨a | ⟨e, k⟩⟩
    · cases h
    · cases h
    · obtain ⟨⟨r, u⟩, hu, rfl⟩ := Option.map_eq_some_iff.mp h
      cases e <;> simp only [RxRing.machine, RxRing.world, RxRing.act, Option.some.injEq, Prod.mk.injEq] at hu <;>
        obtain ⟨-, rfl⟩ := hu
      · rfl
      · dsimp only
        split
        · unfold RxRing.store
          dsimp only
          split <;> rfl
        · rfl
      · rfl
      · rfl
  | finish =>
    rcases cur with _ | ⟨a | ⟨e, k⟩⟩
    · cases h
    · cases h
      rfl
    · cases h

theorem ring_start {x y : Machine.State NicOp NicOp.Res SmartNic RxRing} {data : List Byte} (hcur : x.cur = none)
    (h : (RxRing.machine base n).step x (.start data) = some y) :
    y.st.accepted = if x.st.nic.rxMatch data then x.st.accepted ++ [data] else x.st.accepted := by
  obtain ⟨st, cur⟩ := x
  obtain rfl : cur = none := hcur
  cases h
  rfl

theorem Accepts.step {e : RxPathEvent} (ha : Accepts nic s)
    (hm : s.ring.cur = none → ∀ data, s.ring.st.nic.rxMatch data = nic.rxMatch data)
    (h : s.step base n e = some t) : Accepts nic t := by
  unfold Accepts at ha ⊢
  rcases step_cases h with ⟨r, -, -, -, hc, hr⟩ | ⟨r, data, -, hcur, -, hc, hr⟩ | ⟨f, hnet, hr, hf⟩
  · rw [hc, hr, ha]
  · rw [ring_start hcur hr, hm hcur, ha, hc, List.filter_append, List.filter_singleton]
    cases nic.rxMatch data
    · exact (List.append_nil _).symm
    · rfl
  · rw [hnet, ring_accepted ?_ hr, ha]
    rcases hf with ⟨-, rfl⟩ | ⟨x, -, rfl⟩ | ⟨ok, -, rfl⟩ <;> intro data hd <;> cases hd

/-! ## Runs -/

theorem hostReg_mac : HostReg SC_REG_MAC_LO ∧ HostReg SC_REG_MAC_HI := by
  unfold HostReg NIC_REGS
  simp only [List.forall_mem_cons, List.not_mem_nil, false_implies, implies_true, and_true]
  decide

theorem rxMatch_frame {nic' : SmartNic} (h : HostFrame nic nic') (data : List Byte) :
    nic'.rxMatch data = nic.rxMatch data := by
  unfold rxMatch
  rw [h.reg SC_REG_MAC_LO hostReg_mac.1, h.reg SC_REG_MAC_HI hostReg_mac.2]

/-- What the frames read so far come to. -/
theorem passed (hi : NetRx.InStep frames s.net) (ha : Accepts nic s) :
    ∃ sent, sent <+: frames ∧ s.ring.st.accepted = sent.filter (Passes nic ·) ∧
      (s.net.stream = [] → s.ring.st.accepted = frames.filter (Passes nic ·)) := by
  have hpass (fs : List (List Byte)) : (fs.filter (NetRx.Deliverable ·)).filter (nic.rxMatch ·) =
      fs.filter (Passes nic ·) := by
    rw [List.filter_filter]
    refine List.filter_congr fun data _ => ?_
    simp only [Bool.decide_and, Bool.decide_eq_true, Bool.and_comm]
  obtain ⟨pre, post, hf, hc, -⟩ := id hi
  refine ⟨pre, ⟨post, hf.symm⟩, ?_, fun hs => ?_⟩
  · rw [ha, hc, hpass]
  · rw [ha, hi.calls hs, hpass]

/-- Between calls of `on_packet_rx`, with the registers of `nic`. -/
structure Between (base : Addr) (n : Nat) (nic : SmartNic) (r : RxRing) : Prop where
  idle : RxRing.Idle base n r
  frame : HostFrame nic r.nic

theorem between_step (hn : 0 < n) (hn' : n < 2 ^ 32) {x y : Machine.State NicOp NicOp.Res SmartNic RxRing}
    {f : Machine.Event RxHost Bool Empty (List Byte)}
    (h : (RxRing.machine base n).Inv (RxRing.Ok base n) (Between base n nic) x)
    (hs : (RxRing.machine base n).step x f = some y) :
    (RxRing.machine base n).Inv (RxRing.Ok base n) (Between base n nic) y := by
  refine h.step (fun _ hj => hj.idle.1) (fun _ _ _ hok he => (hok.env hn' he).1) (fun u e v hj he => ?_)
    (fun _ e => nomatch e) (fun u data v p hj hst => ?_) hs
  · exact ⟨hj.idle.env hn' he, (RxRing.env_frame he).1 ▸ hj.frame⟩
  · obtain ⟨hok, hidle⟩ := hj.idle.receive hn hn' hst
    obtain ⟨rfl, rfl⟩ := Prod.mk.inj (Option.some.inj hst)
    have hframe := World.WP.ensures (W := (RxRing.machine base n).toWorld) (u.nic.onPacketRx_frame data)
      { u with accepted := if u.nic.rxMatch data then u.accepted ++ [data] else u.accepted }
    refine ⟨hok, ((World.WP.and hidle hframe).mono fun nic' w hw => ?_).mono_inv fun _ hw => hw.1⟩
    exact ⟨hw.1, hj.frame.trans hw.2⟩

/-- If every length is read as a whole and none is above 16384: however the socket splits the frames,
whatever DMA fails, and whatever the host does with the descriptors that it owns, the frames accepted
are those among the frames read that pass, all of them at the end of the stream; those delivered are
some of these, in order, none twice, each as much as its buffer holds; and their descriptors are given
back in the order of the ring. -/
theorem rx_path_in_order (hn : 0 < n) (hv : ∀ d ∈ frames, d.length < 2 ^ 32) {r : RxRing}
    (h0 : RxRing.Start base n r) {es : List RxPathEvent}
    (hok : Along (step base n) ReadsLength (start frames r) es) (h : run (step base n) (start frames r) es = some t) :
    ∃ sent, sent <+: frames ∧ t.ring.st.accepted = sent.filter (Passes r.nic ·) ∧
      (t.net.stream = [] → t.ring.st.accepted = frames.filter (Passes r.nic ·)) ∧
      (∃ fs, fs.Sublist t.ring.st.accepted ∧
        List.Forall₂ (fun f (c : RxDone) => c.frame = f.take c.desc.length.toNat) fs t.ring.st.completed) ∧
      (∀ k c, t.ring.st.completed[k]? = some c → c.addr = DescRing.entryAddr base (k % n)) ∧
      ∀ i < n, ∀ c, t.ring.st.live i = some c → c ∈ t.ring.st.completed ∧
        t.ring.st.mem.read (DescRing.entry base t.ring.st.mem i).addr
          (DescRing.entry base t.ring.st.mem i).length.toNat = c.frame := by
  have hn' : n < 2 ^ 32 := h0.conf.size ▸ BitVec.isLt _
  have hinv := run_inv_along (I := fun s : RxPath => NetRx.InStep frames s.net ∧ Accepts r.nic s ∧
    (RxRing.machine base n).Inv (RxRing.Ok base n) (Between base n r.nic) s.ring) ?_ ?_ hok h
  · obtain ⟨hi, ha, hring⟩ := hinv
    obtain ⟨sent, hsent, hacc, hall⟩ := passed hi ha
    exact ⟨sent, hsent, hacc, hall, hring.st.order, hring.st.slots, fun i hi c hc =>
      ⟨(hring.st.live i hi c hc).mem, (hring.st.live i hi c hc).frame⟩⟩
  · rintro s e u ⟨hi, ha, hring⟩ he hs
    refine ⟨inStep_step hv hi he hs, ha.step (fun hcur => rxMatch_frame (hring.idle hcur).frame) hs, ?_⟩
    rcases step_cases hs with ⟨_, -, -, -, -, hr⟩ | ⟨_, _, -, -, -, -, hr⟩ | ⟨_, -, hr, -⟩
    · rw [hr]
      exact hring
    · exact between_step hn hn' hring hr
    · exact between_step hn hn' hring hr
  · have hidle := RxRing.Idle.start h0
    exact ⟨NetRx.inStep_start frames, h0.accepted, hidle.1, fun _ => ⟨hidle, .refl _⟩, fun _ hp => by cases hp⟩

instance (s : RxPath) (e : RxPathEvent) : Decidable (ReadsLength s e) :=
  match e with
  | .read e => inferInstanceAs (Decidable (NetRx.ReadsLength s.net e))
  | .host _ | .dma _ | .finish => .isTrue trivial

/-- A broadcast frame is read in two parts and received. -/
def exampleReads : List RxPathEvent :=
  [.read ⟨4, 0⟩, .read ⟨10, 0⟩, .read ⟨4, 0⟩, .dma true, .dma true, .dma true, .finish]

theorem rx_path_in_order_one : ∃ t,
    run (step 0x1000 1) (start [List.replicate 14 0xff] RxRing.exampleRing) exampleReads = some t ∧
    t.ring.st.accepted = [List.replicate 14 0xff] ∧
    ∃ fs, fs.Sublist t.ring.st.accepted ∧
      List.Forall₂ (fun f (c : RxDone) => c.frame = f.take c.desc.length.toNat) fs t.ring.st.completed := by
  have hr : ((run (step 0x1000 1) (start [List.replicate 14 0xff] RxRing.exampleRing) exampleReads).map
      fun t => t.ring.st.accepted) = some [List.replicate 14 0xff] := by decide +kernel
  obtain ⟨t, ht, he⟩ := Option.map_eq_some_iff.mp hr
  obtain ⟨-, -, -, -, hfs, -⟩ := rx_path_in_order (by decide) (by decide) RxRing.exampleRing_start
    (by decide +kernel : Along (step 0x1000 1) ReadsLength _ exampleReads) ht
  exact ⟨t, ht, he, hfs⟩

/-- With descriptors that are the NIC's at first and are not given to it again, and DMA that does not
fail: the frames delivered between calls are the first `n` of those that were read and pass, at the
end of the stream the first `n` of those that were sent and pass, each with the next descriptor and
as much of it as fits. -/
theorem rx_path_first (hn : 0 < n) (hv : ∀ d ∈ frames, d.length < 2 ^ 32) {r : RxRing}
    (h0 : RxRing.Armed base n r) {es : List RxPathEvent}
    (hok : Along (step base n) Plain (start frames r) es) (h : run (step base n) (start frames r) es = some t)
    (hcur : t.ring.cur = none) :
    ∃ sent, sent <+: frames ∧ (t.net.stream = [] → sent.filter (Passes r.nic ·) = frames.filter (Passes r.nic ·)) ∧
      t.ring.st.completed = RxRing.delivered base (DescRing.entry base r.mem) ((sent.filter (Passes r.nic ·)).take n) := by
  have hn' : n < 2 ^ 32 := h0.start.conf.size ▸ BitVec.isLt _
  have hinv := run_inv_along (I := fun s : RxPath => NetRx.InStep frames s.net ∧ Accepts r.nic s ∧
    (RxRing.plainMachine base n).Inv (fun _ => True)
      (RxRing.PlainIdle base n (DescRing.entry base r.mem) r.nic) s.ring) ?_ ?_ hok h
  · obtain ⟨hi, ha, hring⟩ := hinv
    obtain ⟨sent, hsent, hacc, hall⟩ := passed hi ha
    refine ⟨sent, hsent, fun hs => hacc.symm.trans (hall hs), ?_⟩
    rw [← hacc]
    exact (hring.idle hcur).first.frames
  · rintro s e u ⟨hi, ha, hring⟩ he hs
    have hlen : ReadsLength s e := by
      cases e <;> first | exact he | trivial
    refine ⟨inStep_step hv hi hlen hs, ha.step (fun hc => rxMatch_frame (hring.idle hc).frame) hs, ?_⟩
    rcases step_cases hs with ⟨_, -, -, -, -, hr⟩ | ⟨_, data, -, -, -, -, hr⟩ | ⟨f, -, hr, hf⟩
    · rw [hr]
      exact hring
    · have hmeets : Machine.Meets Unarmed Exact (fun _ _ => True) s.ring
          (.start data : Machine.Event RxHost Bool Empty (List Byte)) := trivial
      rw [← Machine.guard_step hmeets] at hr
      exact RxRing.PlainIdle.step hn hn' h0.own h0.nonzero h0.bridge hring hr
    · have hmeets : Machine.Meets Unarmed Exact (fun _ _ => True) s.ring f := by
        rcases hf with ⟨-, rfl⟩ | ⟨x, rfl, rfl⟩ | ⟨ok, rfl, rfl⟩
        · trivial
        · exact he
        · exact fun _ _ _ => he
      rw [← Machine.guard_step hmeets] at hr
      exact RxRing.PlainIdle.step hn hn' h0.own h0.nonzero h0.bridge hring hr
  · exact ⟨NetRx.inStep_start frames, h0.start.accepted, trivial, fun _ => h0.idle, fun _ hp => by cases hp⟩

end SmartEth.RxPath
