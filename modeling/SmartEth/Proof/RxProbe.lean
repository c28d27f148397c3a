import SmartEth.Proof.RxPath
import SmartEth.Proof.TxPosition

/-!
# The receive ring of the driver

`smarteth_probe` gives every descriptor of its ring to the NIC, each with a buffer of its own
(`entry_filled`), and programs the ring's registers (`rxRing_configured`): it leaves a ring that
`rx_path_first` is about (`probe_armed`). The driver never gives a descriptor back, so from then on
it receives the first 64 frames, each up to the size of a buffer, and no more
(`rx_probed_first`).
-/

namespace SmartEth.Probing

open SmartEthMain SmartNic
open DescRing hiding entry

variable {rx tx : Addr} {bufs : List Addr} {mem : GuestMem} {nic : SmartNic} {dma : List Addr}

/-! ## The descriptors -/

/-- The descriptor for a buffer. -/
def armed (b : Addr) : SmartEthDesc := ⟨b, BitVec.ofNat 32 SMARTETH_RX_BUF_SIZE, DESC_FLAG_OWN⟩

theorem own_armed (b : Addr) : (armed b).own = true := by
  show (DESC_FLAG_OWN &&& SMARTETH_DESC_FLAG_OWN != 0) = true
  decide

/-- Memory after the descriptors from `i` on have been filled. -/
def filled (rx : Addr) : Nat → List Addr → GuestMem → GuestMem
  | _, [], m => m
  | i, b :: bs, m => filled rx (i + 1) bs (m.write (entryAddr rx i) (armed b).toBytes)

theorem entry_filled (m : GuestMem) {i : Nat} (h : i + bufs.length ≤ SMARTETH_RING_SIZE) {j : Nat}
    (hj : j < SMARTETH_RING_SIZE) : DescRing.entry rx (filled rx i bufs m) j =
      if j < i then DescRing.entry rx m j else (bufs[j - i]?.map armed).getD (DescRing.entry rx m j) := by
  induction bufs generalizing i m with
  | nil =>
    rw [List.getElem?_nil]
    split <;> rfl
  | cons b bs ih =>
    rw [List.length_cons] at h
    have hi : i < SMARTETH_RING_SIZE := by omega
    have hsize : SMARTETH_RING_SIZE < 2 ^ 32 := by decide
    rw [filled, ih _ (by omega)]
    by_cases hji : j = i
    · subst hji
      rw [if_pos (by omega), if_neg (by omega), entry_write_self, Nat.sub_self]
      rfl
    · rw [entry_write_ne hsize hj hi hji]
      by_cases hlt : j < i
      · rw [if_pos (by omega), if_pos hlt]
      · obtain ⟨k, hk⟩ : ∃ k, j - i = k + 1 := ⟨j - i - 1, by omega⟩
        have hk' : j - (i + 1) = k := by omega
        rw [if_neg (by omega), if_neg hlt, hk, hk', List.getElem?_cons_succ]

/-- `smarteth_prepare_rx_buffers`, where every buffer is mapped. -/
theorem exec_prepareRxBuffers (rx : Addr) (bufs : List Addr) (mem : GuestMem) (nic : SmartNic) (dma : List Addr)
    (hn : bufs.length ≤ SMARTETH_RING_SIZE) :
    (prepareRxBuffers rx bufs.length).exec answer ⟨nic, mem, bufs ++ dma⟩ =
      ((bufs, true), ⟨nic, filled rx (SMARTETH_RING_SIZE - bufs.length) bufs mem, dma⟩) := by
  induction bufs generalizing mem with
  | nil => rfl
  | cons b bs ih =>
    rw [List.length_cons] at hn
    generalize hi : SMARTETH_RING_SIZE - (bs.length + 1) = i
    have hnext : SMARTETH_RING_SIZE - bs.length = i + 1 := by omega
    have hentry : entry rx (SMARTETH_RING_SIZE - (bs.length + 1)) = entryAddr rx i := by rw [hi]; rfl
    have hstep : (prepareRxBuffers rx (bs.length + 1)).exec answer ⟨nic, mem, b :: (bs ++ dma)⟩ =
        (prepareRxBuffers rx bs.length >>= fun x => pure (b :: x.1, x.2)).exec answer
          ⟨nic, ((mem.write (entry rx (SMARTETH_RING_SIZE - (bs.length + 1))) (leBytes b)).write
            (entry rx (SMARTETH_RING_SIZE - (bs.length + 1)) + 8) (leBytes (BitVec.ofNat 32 SMARTETH_RX_BUF_SIZE))).write
            (entry rx (SMARTETH_RING_SIZE - (bs.length + 1)) + 12) (leBytes DESC_FLAG_OWN), bs ++ dma⟩ := rfl
    have hstores := DriverNic.write_desc mem (entryAddr rx i) (armed b)
    rw [hentry] at hstep
    unfold armed at hstores
    rw [List.length_cons, List.cons_append, hstep, hstores, Prog.exec_bind, ih _ (by omega), hnext]
    rfl

/-! ## The registers -/

/-- The NIC after `ws` have been written to it. -/
def written (ws : List (Addr × Word)) (nic : SmartNic) : SmartNic := ws.foldl (fun nic w => nic.setReg w.1 w.2) nic

theorem exec_writeRegs (ws : List (Addr × Word)) (h : ∀ w ∈ ws, Plain w.1) (s : Probing) :
    (writeRegs ws).exec answer s = ((), { s with nic := written ws s.nic }) := by
  induction ws generalizing s with
  | nil => rfl
  | cons w ws ih =>
    have hstep : (writeRegs (w :: ws)).exec answer s =
        (writeRegs ws).exec answer { s with nic := (s.nic.onMmioWrite w.1 w.2).1 } := rfl
    rw [hstep, ih fun v hv => h v (List.mem_cons_of_mem _ hv), (h w List.mem_cons_self).onMmioWrite]
    rfl

theorem plain_configWrites : ∀ w ∈ configWrites tx rx, Plain w.1 := by
  intro w hw
  simp only [configWrites, List.mem_cons, List.not_mem_nil, or_false] at hw
  rcases hw with rfl | rfl | rfl | rfl | rfl | rfl | rfl | rfl <;> dsimp only <;> decide

/-- The two halves of an address. -/
theorem upper_lower (a : Addr) : (upper a).setWidth 64 <<< 32 ||| (lower a).setWidth 64 = a := by
  unfold upper lower
  ext i hi
  simp only [BitVec.getElem_or, BitVec.getElem_shiftLeft, BitVec.getElem_setWidth, BitVec.getLsbD_extractLsb']
  by_cases h : i < 32
  · simp [h, BitVec.getLsbD_eq_getElem hi]
  · simp [h, show i - 32 < 32 by omega, show 32 + (i - 32) = i by omega, BitVec.getLsbD_eq_getElem hi]

theorem reg_written_ne {ws : List (Addr × Word)} {a : Addr} (h : ∀ w ∈ ws, a >>> 2 ≠ w.1 >>> 2) (nic : SmartNic) :
    (written ws nic).reg a = nic.reg a := by
  induction ws generalizing nic with
  | nil => rfl
  | cons w ws ih =>
    have hrest := ih (fun v hv => h v (List.mem_cons_of_mem _ hv)) (nic.setReg w.1 w.2)
    exact hrest.trans (reg_setReg_ne (h w List.mem_cons_self))

/-- A register holds the last value written to it. -/
theorem reg_written (pre post : List (Addr × Word)) (a : Addr) {ws : List (Addr × Word)} {v : Word}
    (hws : ws = pre ++ (a, v) :: post) (h : ∀ w ∈ post, a >>> 2 ≠ w.1 >>> 2) (nic : SmartNic) :
    (written ws nic).reg a = v := by
  rw [hws, written, List.foldl_append, List.foldl_cons]
  exact (reg_written_ne h _).trans (reg_setReg_self _ _ _)

theorem rxRing_configured (nic : SmartNic) :
    RxRing.Configured rx SMARTETH_RING_SIZE (written (configWrites tx rx) nic) := by
  have hlo := reg_written ((configWrites tx rx).take 3) ((configWrites tx rx).drop 4) SC_REG_RX_RING_BASE_LO
    (show configWrites tx rx = _ from rfl) ?_ nic
  have hhi := reg_written ((configWrites tx rx).take 4) ((configWrites tx rx).drop 5) SC_REG_RX_RING_BASE_HI
    (show configWrites tx rx = _ from rfl) ?_ nic
  have hsize := reg_written ((configWrites tx rx).take 5) ((configWrites tx rx).drop 6) SC_REG_RX_RING_SIZE
    (show configWrites tx rx = _ from rfl) ?_ nic
  · refine ⟨?_, ?_⟩
    · rw [rxRingBase, hlo, hhi, upper_lower]
    · rw [hsize]
      rfl
  all_goals
    simp only [configWrites, List.drop_succ_cons, List.drop_zero, List.forall_mem_cons, List.not_mem_nil, false_implies,
      implies_true, and_true]
    decide

/-- The driver's writes leave the tail and the MAC address alone. -/
theorem reg_configured (nic : SmartNic) {a : Addr} (ha : a ∈ [SC_REG_RX_TAIL, SC_REG_MAC_LO, SC_REG_MAC_HI]) :
    (written (configWrites tx rx) nic).reg a = nic.reg a := by
  refine reg_written_ne ?_ nic
  simp only [List.mem_cons, List.not_mem_nil, or_false] at ha
  simp only [configWrites, List.forall_mem_cons, List.not_mem_nil, false_implies, implies_true, and_true]
  rcases ha with rfl | rfl | rfl <;> decide

theorem bridge_written (ws : List (Addr × Word)) (nic : SmartNic) : (written ws nic).bridge = nic.bridge := by
  induction ws generalizing nic with
  | nil => rfl
  | cons w ws ih => exact ih _

/-! ## The probe -/

theorem onMmioRead_devId (nic : SmartNic) : nic.onMmioRead REG_DEV_ID = 0x52414D53 := by
  rw [SmartNic.onMmioRead, if_neg (by decide), RegBlock.read, if_neg (by decide), if_pos (by decide)]
  rfl

theorem exec_probe (h : Mapped rx bufs) : probe.exec answer ⟨nic, mem, tx :: rx :: bufs⟩ =
    (some ⟨tx, 0, rx, bufs⟩, ⟨written (configWrites tx rx) nic,
      filled rx 0 bufs ((mem.write tx (List.replicate RING_BYTES 0)).write rx (List.replicate RING_BYTES 0)), []⟩) := by
  generalize hm : (mem.write tx (List.replicate RING_BYTES 0)).write rx (List.replicate RING_BYTES 0) = m
  have hrest : probe.exec answer ⟨nic, mem, tx :: rx :: bufs⟩ =
      (prepareRxBuffers rx SMARTETH_RING_SIZE >>= fun r =>
        if !r.2 then do
          unmap rx RING_BYTES
          unmap tx RING_BYTES
          pure none
        else do
          writeRegs (configWrites tx rx)
          pure (some { txRing := tx, txHead := 0, rxRing := rx, rxDma := r.1 })).exec answer ⟨nic, m, bufs⟩ := by
    have hid : (readReg REG_DEV_ID).exec answer ⟨nic, mem, tx :: rx :: bufs⟩ =
        (nic.onMmioRead REG_DEV_ID, ⟨nic, mem, tx :: rx :: bufs⟩) := rfl
    rw [probe, Prog.exec_bind, hid]
    dsimp only
    rw [if_neg (not_not.mpr (onMmioRead_devId nic)), ← hm]
    rfl
  have hprep := exec_prepareRxBuffers rx bufs m nic [] h.length.le
  rw [List.append_nil, h.length, Nat.sub_self] at hprep
  rw [hrest, Prog.exec_bind, hprep]
  dsimp only
  rw [if_neg (by decide), Prog.exec_bind, exec_writeRegs _ plain_configWrites]
  rfl

/-- `smarteth_probe` on a NIC whose RX tail is zero leaves a ring whose descriptors are all the NIC's,
each with a buffer of its own. -/
theorem probe_armed (tx : Addr) (mem : GuestMem) (h : Mapped rx bufs) (hb : nic.bridge = true)
    (ht : nic.reg SC_REG_RX_TAIL = 0) :
    RxRing.Armed rx SMARTETH_RING_SIZE (probe.exec answer ⟨nic, mem, tx :: rx :: bufs⟩).2.ring ∧
    ∀ i < SMARTETH_RING_SIZE, ∃ b, bufs[i]? = some b ∧
      DescRing.entry rx (probe.exec answer ⟨nic, mem, tx :: rx :: bufs⟩).2.mem i = armed b := by
  rw [exec_probe h]
  generalize (mem.write tx (List.replicate RING_BYTES 0)).write rx (List.replicate RING_BYTES 0) = m
  have hentry : ∀ i < SMARTETH_RING_SIZE, ∃ b, bufs[i]? = some b ∧
      DescRing.entry rx (filled rx 0 bufs m) i = armed b := by
    intro i hi
    have hlen := h.length
    obtain ⟨b, hb⟩ : ∃ b, bufs[i]? = some b := ⟨bufs[i], List.getElem?_eq_getElem (by omega)⟩
    refine ⟨b, hb, ?_⟩
    rw [entry_filled m (by omega) hi, if_neg (Nat.not_lt_zero i), Nat.sub_zero, hb]
    rfl
  have hbuf (b : Addr) : bufRegion (armed b) = bufOf b := rfl
  refine ⟨⟨⟨rxRing_configured nic, ?_, rfl, rfl, rfl, fun _ => rfl, fun i hi _ => ?_, fun i hi j hj hij _ _ => ?_⟩,
    h.nonzero, (bridge_written _ nic).trans hb, fun i hi => ?_⟩, hentry⟩
  · exact (reg_configured nic (by simp)).trans ht
  · obtain ⟨b, hib, he⟩ := hentry i hi
    show (bufRegion (DescRing.entry rx (filled rx 0 bufs m) i)).Disjoint _
    rw [he, hbuf]
    exact h.ring b (List.mem_of_getElem? hib)
  · obtain ⟨a, hia, hea⟩ := hentry i hi
    obtain ⟨b, hjb, heb⟩ := hentry j hj
    show (bufRegion (DescRing.entry rx (filled rx 0 bufs m) i)).Disjoint
      (bufRegion (DescRing.entry rx (filled rx 0 bufs m) j))
    rw [hea, heb, hbuf, hbuf]
    obtain ⟨hi', rfl⟩ := List.getElem?_eq_some_iff.mp hia
    obtain ⟨hj', rfl⟩ := List.getElem?_eq_some_iff.mp hjb
    rcases Nat.lt_or_gt_of_ne hij with hlt | hlt
    · exact List.pairwise_iff_getElem.mp h.apart i j hi' hj' hlt
    · exact (List.pairwise_iff_getElem.mp h.apart j i hj' hi' hlt).symm
  · obtain ⟨b, -, he⟩ := hentry i hi
    show (DescRing.entry rx (filled rx 0 bufs m) i).own = true
    rw [he, own_armed]

/-- The frames that reach guest memory after `smarteth_probe`, on a NIC whose RX tail is zero, if every
length is read as a whole, none is above 16384, and DMA does not fail: the first 64 of those that were
read and pass, at the end of the stream the first 64 of those that were sent and pass; of each, the
first 2048 bytes. -/
theorem rx_probed_first (h : Mapped rx bufs) (hb : nic.bridge = true) (ht : nic.reg SC_REG_RX_TAIL = 0)
    {frames : List (List Byte)} (hv : ∀ f ∈ frames, f.length < 2 ^ 32) {es : List RxPathEvent} {t : RxPath}
    (hok : Along (RxPath.step rx SMARTETH_RING_SIZE) RxPath.Plain
      (RxPath.start frames (probe.exec answer ⟨nic, mem, tx :: rx :: bufs⟩).2.ring) es)
    (hr : run (RxPath.step rx SMARTETH_RING_SIZE)
      (RxPath.start frames (probe.exec answer ⟨nic, mem, tx :: rx :: bufs⟩).2.ring) es = some t)
    (hcur : t.ring.cur = none) :
    ∃ sent, sent <+: frames ∧
      (t.net.stream = [] → sent.filter (RxPath.Passes nic ·) = frames.filter (RxPath.Passes nic ·)) ∧
      t.ring.st.completed.map RxDone.frame =
        ((sent.filter (RxPath.Passes nic ·)).take 64).map (List.take 2048) := by
  obtain ⟨harmed, hentry⟩ := probe_armed tx mem h hb ht
  obtain ⟨sent, hsent, hend, hcom⟩ := RxPath.rx_path_first (by decide) hv harmed hok hr hcur
  have hmatch : ∀ data, (probe.exec answer ⟨nic, mem, tx :: rx :: bufs⟩).2.ring.nic.rxMatch data = nic.rxMatch data := by
    intro data
    rw [exec_probe h]
    show (written (configWrites tx rx) nic).rxMatch data = _
    unfold rxMatch
    rw [reg_configured nic (by simp), reg_configured nic (by simp)]
  have hpass : ∀ data, RxPath.Passes (probe.exec answer ⟨nic, mem, tx :: rx :: bufs⟩).2.ring.nic data ↔
      RxPath.Passes nic data := fun data => by rw [RxPath.Passes, RxPath.Passes, hmatch]
  simp only [hpass] at hend hcom
  refine ⟨sent, hsent, hend, ?_⟩
  rw [hcom]
  refine RxRing.map_frame_delivered fun i hi => ?_
  rw [List.length_take] at hi
  obtain ⟨b, -, he⟩ := hentry i (lt_of_lt_of_le hi (Nat.min_le_left _ _))
  show (DescRing.entry rx (probe.exec answer ⟨nic, mem, tx :: rx :: bufs⟩).2.mem i).length.toNat = 2048
  rw [he]
  rfl

/-- The ring at 0x1000, and the buffers from 0x10000 on. -/
def exampleBufs : List Addr := (List.range SMARTETH_RING_SIZE).map fun i => slot 0x10000 SMARTETH_RX_BUF_SIZE i

theorem exampleBufs_mapped : Mapped 0x1000 exampleBufs := by
  have hring : (⟨0x10000, SMARTETH_RX_BUF_SIZE * SMARTETH_RING_SIZE⟩ : Region 64).Disjoint
      (ringRegion 0x1000 SMARTETH_RING_SIZE) := by decide +kernel
  refine ⟨by decide, by decide, fun b hb => ?_, List.pairwise_map.mpr (List.pairwise_iff_getElem.mpr ?_)⟩
  · obtain ⟨i, hi, rfl⟩ := List.mem_map.mp hb
    exact hring.sub_left (slot_sub_table (List.mem_range.mp hi))
  · intro i j hi hj hlt
    rw [List.length_range] at hi hj
    rw [List.getElem_range, List.getElem_range]
    exact slot_disjoint (by decide) hi hj hlt.ne

def exampleNic : SmartNic := { SmartNic.new with bridge := true }

/-- A broadcast frame is read and received, and the NIC raises its interrupt. -/
def exampleReads : List RxPathEvent :=
  [.read ⟨4, 0⟩, .read ⟨14, 0⟩, .dma true, .dma true, .dma true, .dma true, .finish]

instance (s : RxPath) (e : RxPathEvent) : Decidable (RxPath.Plain s e) :=
  match e with
  | .read e => inferInstanceAs (Decidable (NetRx.ReadsLength s.net e))
  | .host (.desc _ d) => inferInstanceAs (Decidable (d.own = false))
  | .host (.write _ _) => .isTrue trivial
  | .dma ok => inferInstanceAs (Decidable (ok = true))
  | .finish => .isTrue trivial

theorem rx_probed_first_one : ∃ t sent,
    run (RxPath.step 0x1000 SMARTETH_RING_SIZE) (RxPath.start [List.replicate 14 0xff]
      (probe.exec answer ⟨exampleNic, fun _ => 0, 0x800 :: 0x1000 :: exampleBufs⟩).2.ring) exampleReads = some t ∧
    sent <+: [List.replicate 14 0xff] ∧ t.ring.st.completed.map RxDone.frame =
      ((sent.filter (RxPath.Passes exampleNic ·)).take 64).map (List.take 2048) := by
  have hr : ((run (RxPath.step 0x1000 SMARTETH_RING_SIZE) (RxPath.start [List.replicate 14 0xff]
      (probe.exec answer ⟨exampleNic, fun _ => 0, 0x800 :: 0x1000 :: exampleBufs⟩).2.ring) exampleReads).map
      fun t => t.ring.cur.isNone) = some true := by decide +kernel
  obtain ⟨t, ht, he⟩ := Option.map_eq_some_iff.mp hr
  rw [Option.isNone_iff_eq_none] at he
  have hok : Along (RxPath.step 0x1000 SMARTETH_RING_SIZE) RxPath.Plain (RxPath.start [List.replicate 14 0xff]
      (probe.exec answer ⟨exampleNic, fun _ => 0, 0x800 :: 0x1000 :: exampleBufs⟩).2.ring) exampleReads := by
    decide +kernel
  obtain ⟨sent, hsent, -, hcom⟩ := rx_probed_first exampleBufs_mapped rfl (by decide) (by decide) hok ht he
  exact ⟨t, sent, ht, hsent, hcom⟩

end SmartEth.Probing
