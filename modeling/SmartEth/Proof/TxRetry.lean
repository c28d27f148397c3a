import SmartEth.System.TxRetry
import SmartEth.Proof.RxOutcome
import SmartEth.Proof.TxRing

/-!
# A frame sent again

A pass of `process_tx` that fails leaves no trace unless it fails at the write-back,
after the frame was sent (`traceless_iff`). In runs where no write-back fails, no frame
is sent twice (`sent_once`).
-/

namespace SmartEth.TxRetry

open DescRing SmartNic TxRing

section

variable {nic : SmartNic} {mem : GuestMem} {oks : List Bool}

/-- A pass that changes neither registers nor memory, and sends nothing. -/
theorem traceless_of_eq (hr : (pass nic mem oks).1.1.regs = nic.regs) (hm : (pass nic mem oks).2.mem = mem)
    (hs : (pass nic mem oks).2.sent = []) : Traceless nic mem oks :=
  fun _ => ⟨hs, congrArg (fun m : GuestMem => m.read nic.txDescAddr SmartEthDesc.size) hm,
    congrArg (fun b : RegBlock => b.getReg (SC_REG_TX_TAIL >>> 2)) hr,
    congrArg (fun b : RegBlock => b.getReg (SC_REG_TX_DOORBELL >>> 2)) hr⟩

theorem pass_eq (hp : nic.txPending = true)
    (hr : ¬ (nic.reg SC_REG_TX_RING_SIZE = 0 ∨ nic.reg SC_REG_TX_DOORBELL = 0 ∨ nic.txRingBase = 0)) :
    pass nic mem oks = (nic.readDesc nic.txDescAddr >>= fun r =>
      match r with
      | none => pure (nic, none)
      | some desc => nic.txFetch nic.txDescAddr desc : NicM (SmartNic × Option Nat)).exec
        Faulty.answer (.start mem oks) := by
  exact congrArg (fun p : NicM (SmartNic × Option Nat) => p.exec Faulty.answer (.start mem oks))
    (processTxIteration_ready hp hr)

/-- With the descriptor read. -/
theorem pass_read (hp : nic.txPending = true)
    (hr : ¬ (nic.reg SC_REG_TX_RING_SIZE = 0 ∨ nic.reg SC_REG_TX_DOORBELL = 0 ∨ nic.txRingBase = 0))
    (hb : nic.bridge = true) (h0 : oks.getD 0 false = true) :
    pass nic mem oks = (nic.txFetch nic.txDescAddr (desc nic mem)).exec Faulty.answer ⟨mem, oks.tail, false, [], []⟩ := by
  rw [pass_eq hp hr, readDesc_bind hb, Prog.exec_op]
  simp only [Faulty.answer, Faulty.ok, Faulty.start, h0, ite_true, Option.map_some, Bool.not_true, Bool.or_false]
  rw [show (BitVec.ofNat 32 SmartEthDesc.size).toNat = SmartEthDesc.size from rfl, overlay_eq (by simp)]
  rfl

/-- With the frame read as well. -/
theorem pass_fetched (hp : nic.txPending = true)
    (hr : ¬ (nic.reg SC_REG_TX_RING_SIZE = 0 ∨ nic.reg SC_REG_TX_DOORBELL = 0 ∨ nic.txRingBase = 0))
    (hb : nic.bridge = true) (h0 : oks.getD 0 false = true) (ho : (desc nic mem).own = true)
    (h1 : oks.getD 1 false = true) :
    ∃ bytes, pass nic mem oks =
      (nic.txSend nic.txDescAddr (desc nic mem) bytes).exec Faulty.answer ⟨mem, oks.tail.tail, false, [], []⟩ := by
  refine ⟨overlay (List.replicate (desc nic mem).length.toNat 0)
    (mem.read (desc nic mem).addr (desc nic mem).length.toNat), ?_⟩
  rw [pass_read hp hr hb h0, txFetch, ho, Bool.not_true, if_neg Bool.false_ne_true, dmaReadBridge_bind hb, Prog.exec_op]
  simp only [Faulty.answer, Faulty.ok, Rx.getD_one, h1, ite_true, Bool.not_true, Bool.or_false]

/-- The rest of a pass, a frame read. -/
theorem txSend_exec (hb : nic.bridge = true) (a : Addr) (d : SmartEthDesc) (bytes : List Byte) (s : Faulty) :
    let t := (nic.txSend a d bytes).exec Faulty.answer s
    t.1 = (if s.ok then (nic.txAdvance, some (100 + d.length.toNat / 4 * 2)) else (nic, none)) ∧
      t.2.mem = (if s.ok then s.mem.write a d.complete.toBytes else s.mem) ∧
      t.2.sent = s.sent ++ if nic.netif then [bytes] else [] := by
  have hwrite : ∀ u : Faulty, u.ok = s.ok → u.mem = s.mem →
      let t := (nic.dmaWriteBridge a d.complete.toBytes >>= fun ok =>
        if ok then pure (nic.txAdvance, some (100 + d.length.toNat / 4 * 2)) else pure (nic, none) :
          NicM (SmartNic × Option Nat)).exec Faulty.answer u
      t.1 = (if s.ok then (nic.txAdvance, some (100 + d.length.toNat / 4 * 2)) else (nic, none)) ∧
        t.2.mem = (if s.ok then s.mem.write a d.complete.toBytes else s.mem) ∧ t.2.sent = u.sent := by
    intro u hok hmem
    rw [dmaWriteBridge_bind hb, Prog.exec_op]
    simp only [Faulty.answer, hok, hmem]
    cases s.ok with
    | true => exact ⟨rfl, rfl, rfl⟩
    | false => exact ⟨rfl, rfl, rfl⟩
  rw [txSend]
  cases hn : nic.netif with
  | true => exact hwrite { s with sent := s.sent ++ [bytes] } rfl rfl
  | false =>
    obtain ⟨h1, h2, h3⟩ := hwrite s rfl rfl
    exact ⟨h1, h2, h3.trans (List.append_nil _).symm⟩

/-- A pass leaves no trace unless it fails right after the frame was sent. -/
theorem traceless_iff : Traceless nic mem oks ↔ ¬ Strands nic mem oks := by
  by_cases hp : nic.txPending = true
  swap
  · have hpass : pass nic mem oks = ((nic, none), .start mem oks) := by
      rw [pass, processTxIteration_idle hp]
      rfl
    exact iff_of_true (traceless_of_eq (hpass ▸ rfl) (hpass ▸ rfl) (hpass ▸ rfl)) fun h => hp h.pending
  by_cases hr : nic.reg SC_REG_TX_RING_SIZE = 0 ∨ nic.reg SC_REG_TX_DOORBELL = 0 ∨ nic.txRingBase = 0
  · have hpass : pass nic mem oks = (({ nic with txPending := false }, none), .start mem oks) := by
      rw [pass, processTxIteration_stopped hp hr]
      rfl
    exact iff_of_true (traceless_of_eq (hpass ▸ rfl) (hpass ▸ rfl) (hpass ▸ rfl)) fun h => h.ring hr
  by_cases hb : nic.bridge = true
  swap
  · have hpass : pass nic mem oks = ((nic, none), .start mem oks) := by
      rw [pass_eq hp hr, readDesc_bind_of_not hb]
      rfl
    exact iff_of_true (traceless_of_eq (hpass ▸ rfl) (hpass ▸ rfl) (hpass ▸ rfl)) fun h => hb h.bridge
  cases h0 : oks.getD 0 false with
  | false =>
    have hpass : pass nic mem oks = ((nic, none), ⟨mem, oks.tail, true, [], []⟩) := by
      rw [pass_eq hp hr, readDesc_bind hb, Prog.exec_op]
      simp only [Faulty.answer, Faulty.ok, Faulty.start, h0, Bool.false_eq_true, if_false, Option.map_none,
        Bool.not_false, Bool.or_true]
      rfl
    exact iff_of_true (traceless_of_eq (hpass ▸ rfl) (hpass ▸ rfl) (hpass ▸ rfl)) fun h =>
      absurd (h0.symm.trans h.own.1) (by decide)
  | true =>
  cases ho : (desc nic mem).own with
  | false =>
    have hpass : pass nic mem oks =
        (({ nic with txPending := false }, none), ⟨mem, oks.tail, false, [], []⟩) := by
      rw [pass_read hp hr hb h0, txFetch, ho]
      rfl
    exact iff_of_true (traceless_of_eq (hpass ▸ rfl) (hpass ▸ rfl) (hpass ▸ rfl)) fun h =>
      absurd (ho.symm.trans h.own.2) (by decide)
  | true =>
  cases h1 : oks.getD 1 false with
  | false =>
    have hpass : pass nic mem oks = ((nic, none), ⟨mem, oks.tail.tail, true, [], []⟩) := by
      rw [pass_read hp hr hb h0, txFetch, ho, Bool.not_true, if_neg Bool.false_ne_true, dmaReadBridge_bind hb,
        Prog.exec_op]
      simp only [Faulty.answer, Faulty.ok, Rx.getD_one, h1, Bool.false_eq_true, if_false, Bool.not_false, Bool.or_true]
      rfl
    exact iff_of_true (traceless_of_eq (hpass ▸ rfl) (hpass ▸ rfl) (hpass ▸ rfl)) fun h =>
      absurd (h1.symm.trans h.read) (by decide)
  | true =>
  obtain ⟨bytes, hpass⟩ := pass_fetched hp hr hb h0 ho h1
  obtain ⟨e1, e2, e3⟩ := txSend_exec hb nic.txDescAddr (desc nic mem) bytes ⟨mem, oks.tail.tail, false, [], []⟩
  rw [← hpass] at e1 e2 e3
  have hok : Faulty.ok ⟨mem, oks.tail.tail, false, [], []⟩ = oks.getD 2 false := Rx.getD_two oks
  rw [hok] at e1 e2
  cases h2 : oks.getD 2 false with
  | true =>
    -- the ring moves on
    rw [h2, if_pos rfl] at e1
    refine iff_of_true (fun h => ?_) fun h => absurd (h2.symm.trans h.writeBack) (by decide)
    rw [e1] at h
    cases h
  | false =>
    rw [h2, if_neg Bool.false_ne_true] at e1 e2
    cases hn : nic.netif with
    | true =>
      refine iff_of_false (fun h => ?_) fun h => h ⟨hp, hr, hb, hn, ⟨h0, ho⟩, h1, h2⟩
      have hs := (h (e1 ▸ rfl)).1
      rw [e3, hn, if_pos rfl] at hs
      cases hs
    | false =>
      rw [hn, if_neg Bool.false_ne_true] at e3
      exact iff_of_true (traceless_of_eq (e1 ▸ rfl) e2 e3) fun h => absurd (hn.symm.trans h.netif) (by decide)

end

/-! ## Runs -/

variable {base : Addr} {n : Nat} {s : TxRing} {t : Machine.State NicOp NicOp.Res (SmartNic × Option Nat) TxRing}
  {es : List (Machine.Event TxHost Bool TxIdle TxPart)}

/-- Where every write-back succeeds, only reads fail. -/
theorem runs_guard : Runs base n false True
    ((machine base n).guard (fun _ _ => True) WritesBack (fun _ _ => True)).toWorld where
  env := fun h => (Machine.guard_env.mp h).2
  read := by
    intro s addr len c x h
    obtain ⟨-, h⟩ := Machine.guard_act.mp h
    cases c with
    | true => exact .inl (Option.some.inj h).symm
    | false => exact .inr ⟨trivial, (Option.some.inj h).symm⟩
  write := by
    intro s addr data c x h
    obtain ⟨hc, h⟩ := Machine.guard_act.mp h
    obtain rfl : c = true := hc
    exact (Option.some.inj h).symm
  sendIrq := fun h => (Option.some.inj (Machine.guard_act.mp h).2).symm
  transmit := fun h => (Option.some.inj (Machine.guard_act.mp h).2).symm

theorem once_of_along (hb : base ≠ 0) (hn : 0 < n) (h0 : Start base n s)
    (hal : Along (machine base n).step (Machine.Meets (fun _ _ => True) WritesBack (fun _ _ => True)) ⟨s, none⟩ es)
    (h : run (machine base n).step ⟨s, none⟩ es = some t) : Once t.st := by
  rw [← Machine.run_guard hal] at h
  exact (run_mid runs_guard rfl (fun h => (Machine.guard_start.mp h).2) rfl hb hn h0 h).st.2

/-- For every register state, descriptor and choice of failing operations: a pass that does not move the ring on
leaves no trace, unless it is the write-back that fails, after the frame was sent. And in every state of every run, with
any operations failing but the write-backs, the frames sent are the first of those posted, each once. -/
theorem sent_once (hb : base ≠ 0) (hn : 0 < n) (h0 : Start base n s)
    (h : run (machine base n).step ⟨s, none⟩ es = some t) :
    (∀ nic mem oks, Traceless nic mem oks ↔ ¬ Strands nic mem oks) ∧
      (Along (machine base n).step (Machine.Meets (fun _ _ => True) WritesBack (fun _ _ => True)) ⟨s, none⟩ es →
        Once t.st) :=
  ⟨fun _ _ _ => traceless_iff, fun hal => once_of_along hb hn h0 hal h⟩

/-- The host posts a frame and rings; a pass fails where `oks` says so; and again. -/
def exampleRun (oks : List Bool) : List (Machine.Event TxHost Bool TxIdle TxPart) :=
  [.env (.write 0x2000 [1, 2, 3, 4]), .env (.post ⟨0x2000, 4, SMARTETH_DESC_FLAG_OWN⟩), .env (.ring 1),
    .idle .doorbell, .start .iteration] ++ oks.map .act ++ [.finish, .env (.ring 1), .idle .doorbell,
    .start .iteration, .act true, .act true, .act true, .act true, .finish]

/-- The frame's bytes cannot be read; the next doorbell sends it. -/
theorem sent_once_after_read : ∃ t,
    run (machine 0x1000 2).step ⟨exampleRing, none⟩ (exampleRun [true, false]) = some t ∧
      t.st.sent = [[1, 2, 3, 4]] ∧ Once t.st := by
  have hr : (run (checked (machine 0x1000 2).step (Machine.Meets (fun _ _ => True) WritesBack fun _ _ => True))
      ⟨exampleRing, none⟩ (exampleRun [true, false])).map (fun t => t.st.sent) = some [[1, 2, 3, 4]] := by
    decide +kernel
  obtain ⟨t, ht, he⟩ := Option.map_eq_some_iff.mp hr
  obtain ⟨hok, ht⟩ := run_checked.mp ht
  exact ⟨t, ht, he, (sent_once (by decide) (by decide) exampleRing_start ht).2 hok⟩

/-- The frame is sent, then its descriptor cannot be written back; the next doorbell sends it again. -/
theorem sent_twice : ∃ t,
    run (machine 0x1000 2).step ⟨exampleRing, none⟩ (exampleRun [true, true, true, false]) = some t ∧
      t.st.posted.length = 1 ∧ t.st.sent = [[1, 2, 3, 4], [1, 2, 3, 4]] ∧ ¬ Once t.st := by
  have hr : (run (machine 0x1000 2).step ⟨exampleRing, none⟩ (exampleRun [true, true, true, false])).map
      (fun t => (t.st.posted.length, t.st.sent)) = some (1, [[1, 2, 3, 4], [1, 2, 3, 4]]) := by decide +kernel
  obtain ⟨t, ht, he⟩ := Option.map_eq_some_iff.mp hr
  rw [Prod.mk.injEq] at he
  refine ⟨t, ht, he.1, he.2, fun h => ?_⟩
  have hle := h.length_le
  rw [List.length_map, he.1, he.2] at hle
  exact absurd hle (by decide)

end SmartEth.TxRetry
