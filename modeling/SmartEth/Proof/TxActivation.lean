import SmartEth.System.TxActivation
import SmartEth.Proof.NicRun

/-!
# TX_DONE

An activation of `process_tx` leaves its loop at the first pass that completes nothing,
so it has completed a descriptor exactly if its first pass did (`Inv.first`), and a pass
does if it has all it takes (`pass_completes`). But the interrupt after the loop is
raised however the loop was left: it tells that something was sent exactly if the first
pass had all it takes wherever the interrupt is enabled (`right_iff_firstCompletes`).
-/

namespace SmartEth.TxActivation

open SmartNic

section

variable {nic : SmartNic}

/-- The rest of a pass, a frame read. -/
theorem txSend_logged (hb : nic.bridge = true) (a : Addr) (d : SmartEthDesc) (bytes : List Byte) (r : Replies)
    (ops : List NicOp) :
    let x := (nic.txSend a d bytes).exec Replies.logged (r, ops)
    (x.1.2.isSome = r.writes.head?.getD false) ∧ (r.writes.head?.getD false = true →
      x.1.1 = nic.txAdvance ∧ NicOp.dmaWrite a d.complete.toBytes ∈ x.2.2) := by
  have hwrite : ∀ ops : List NicOp,
      let x := (nic.dmaWriteBridge a d.complete.toBytes >>= fun ok =>
        if ok then pure (nic.txAdvance, some (100 + d.length.toNat / 4 * 2)) else pure (nic, none) :
          NicM (SmartNic × Option Nat)).exec Replies.logged (r, ops)
      (x.1.2.isSome = r.writes.head?.getD false) ∧ (r.writes.head?.getD false = true →
        x.1.1 = nic.txAdvance ∧ NicOp.dmaWrite a d.complete.toBytes ∈ x.2.2) := by
    intro ops
    have hend : ∀ (ok : Bool) (q : Replies × List NicOp), NicOp.dmaWrite a d.complete.toBytes ∈ q.2 →
        let x := (if ok then pure (nic.txAdvance, some (100 + d.length.toNat / 4 * 2)) else pure (nic, none) :
          NicM (SmartNic × Option Nat)).exec Replies.logged q
        (x.1.2.isSome = ok) ∧ (ok = true → x.1.1 = nic.txAdvance ∧ NicOp.dmaWrite a d.complete.toBytes ∈ x.2.2) := by
      intro ok q hq
      cases ok with
      | true => exact ⟨rfl, fun _ => ⟨rfl, hq⟩⟩
      | false => exact ⟨rfl, fun h => absurd h Bool.false_ne_true⟩
    rw [dmaWriteBridge_bind hb, Prog.exec_op]
    exact hend _ _ (List.mem_append_right _ List.mem_cons_self)
  rw [txSend]
  split
  · exact hwrite _
  · exact hwrite _

/-- The rest of a pass, a descriptor read. -/
theorem txFetch_logged (hb : nic.bridge = true) (a : Addr) (d : SmartEthDesc) (r : Replies) (ops : List NicOp) :
    let x := (nic.txFetch a d).exec Replies.logged (r, ops)
    let ok := d.own && r.reads.head?.join.isSome && r.writes.head?.getD false
    (x.1.2.isSome = ok) ∧ (ok = true →
      x.1.1 = nic.txAdvance ∧ d.own = true ∧ NicOp.dmaWrite a d.complete.toBytes ∈ x.2.2) := by
  rw [txFetch]
  cases ho : d.own with
  | false => exact ⟨rfl, fun h => absurd h Bool.false_ne_true⟩
  | true =>
    rw [Bool.not_true, if_neg Bool.false_ne_true, dmaReadBridge_bind hb, Prog.exec_op]
    simp only [Replies.logged, Replies.answer, Bool.true_and]
    cases hr : r.reads.head?.join with
    | none => exact ⟨rfl, fun h => absurd h Bool.false_ne_true⟩
    | some bytes =>
      obtain ⟨h1, h2⟩ := txSend_logged hb a d (overlay (List.replicate d.length.toNat 0) bytes)
        { r with reads := r.reads.tail } (ops ++ [.dmaRead d.addr d.length])
      rw [Option.isSome_some, Bool.true_and]
      exact ⟨h1, fun h => ⟨(h2 h).1, trivial, (h2 h).2⟩⟩

end

/-- What is left for a pass whose descriptor is read. -/
theorem completes_eq {nic : SmartNic} {r : Replies} (hp : nic.txPending = true)
    (hr : ¬ (nic.reg SC_REG_TX_RING_SIZE = 0 ∨ nic.reg SC_REG_TX_DOORBELL = 0 ∨ nic.txRingBase = 0))
    (hb : nic.bridge = true) : completes nic r = match r.reads.head?.join with
      | some bs => (SmartEthDesc.ofBytes (overlay (List.replicate SmartEthDesc.size 0) bs)).own &&
          r.reads.tail.head?.join.isSome && r.writes.head?.getD false
      | none => false := by
  rw [completes, hp, hb, decide_eq_false hr]
  rcases r.reads with _ | ⟨_ | bs, _ | ⟨_ | b, reads⟩⟩
  · rfl
  · rfl
  · rfl
  · rfl
  · simp
  · simp
  · simp

/-- A pass completes a descriptor exactly if it has all it takes: it gives the descriptor back, and moves the ring
on. -/
theorem pass_completes (nic : SmartNic) (r : Replies) :
    let x := nic.processTxIteration.exec Replies.logged (r, [])
    (x.1.2.isSome = completes nic r) ∧ (completes nic r = true → x.1.1 = nic.txAdvance ∧
      ∃ d : SmartEthDesc, d.own = true ∧ NicOp.dmaWrite nic.txDescAddr d.complete.toBytes ∈ x.2.2) := by
  intro x
  have hx : x = nic.processTxIteration.exec Replies.logged (r, []) := rfl
  have hnone : x.1.2 = none → completes nic r = false →
      (x.1.2.isSome = completes nic r) ∧ (completes nic r = true → x.1.1 = nic.txAdvance ∧
        ∃ d : SmartEthDesc, d.own = true ∧ NicOp.dmaWrite nic.txDescAddr d.complete.toBytes ∈ x.2.2) := by
    intro h hc
    rw [h, hc]
    exact ⟨rfl, fun h => absurd h (by decide)⟩
  by_cases hp : nic.txPending = true
  swap
  · rw [processTxIteration_idle hp] at hx
    exact hnone (hx ▸ rfl) (by rw [completes, Bool.eq_false_iff.mpr hp]; rfl)
  by_cases hr : nic.reg SC_REG_TX_RING_SIZE = 0 ∨ nic.reg SC_REG_TX_DOORBELL = 0 ∨ nic.txRingBase = 0
  · rw [processTxIteration_stopped hp hr] at hx
    exact hnone (hx ▸ rfl) (by rw [completes, hp, decide_eq_true hr]; rfl)
  rw [processTxIteration_ready hp hr] at hx
  by_cases hb : nic.bridge = true
  swap
  · rw [readDesc_bind_of_not hb] at hx
    exact hnone (hx ▸ rfl) (by rw [completes, hp, Bool.eq_false_iff.mpr hb, Bool.and_false]; rfl)
  rw [completes_eq hp hr hb]
  rw [readDesc_bind hb, Prog.exec_op] at hx
  simp only [Replies.logged, Replies.answer] at hx
  cases hd : r.reads.head?.join with
  | none =>
    rw [hd] at hx
    rw [hx]
    exact ⟨rfl, fun h => absurd h Bool.false_ne_true⟩
  | some bs =>
    rw [hd] at hx
    obtain ⟨h1, h2⟩ := txFetch_logged hb nic.txDescAddr
      (SmartEthDesc.ofBytes (overlay (List.replicate SmartEthDesc.size 0) bs)) { r with reads := r.reads.tail }
      ([] ++ [.dmaRead nic.txDescAddr (BitVec.ofNat 32 SmartEthDesc.size)])
    rw [hx]
    exact ⟨h1, fun h => ⟨(h2 h).1, _, (h2 h).2⟩⟩

/-! ## Activations -/

theorem isSome_runSends (nic : SmartNic) (r : Replies) :
    (nic.processTxIteration.runSends r).1.2.isSome = completes nic r := (pass_completes nic r).1

theorem step_run {s t : TxActivation} {e : NicEvent} (he : s.step e = some t) : s.run.step e = some t.run := by
  simp only [TxActivation.step, Option.map_eq_some_iff] at he
  obtain ⟨u, hu, rfl⟩ := he
  cases e <;> exact hu

/-- What a step does to the count. -/
theorem step_cases {s t : TxActivation} {e : NicEvent} (he : s.step e = some t) :
    (∃ r, e = .txIteration r ∧ s.run.txLoc = .loop ∧
      t.completed = s.completed + (if completes s.run.nic r then 1 else 0) ∧ t.fresh = false ∧
      t.first = (if s.fresh then completes s.run.nic r else s.first) ∧
      t.run.txLoc = (if completes s.run.nic r then .loop else .done)) ∨
    (t.completed = 0 ∧ t.fresh = true ∧ t.first = false) ∨
    (t.completed = s.completed ∧ t.fresh = s.fresh ∧ t.first = s.first ∧
      (t.run.txLoc = s.run.txLoc ∨ t.run.txLoc = .wait)) := by
  simp only [TxActivation.step, Option.map_eq_some_iff] at he
  obtain ⟨u, hu, rfl⟩ := he
  cases e with
  | txIteration r =>
    simp only [NicRun.step, Option.ite_none_right_eq_some, Option.some.injEq] at hu
    obtain ⟨hl, rfl⟩ := hu
    refine .inl ⟨r, rfl, hl, ?_, rfl, rfl, ?_⟩
    · dsimp only
      rw [isSome_runSends]
    · dsimp only
      rw [isSome_runSends]
  | txWake => exact .inr (.inl ⟨rfl, rfl, rfl⟩)
  | txDone r =>
    simp only [NicRun.step, Option.ite_none_right_eq_some, Option.some.injEq] at hu
    obtain ⟨-, rfl⟩ := hu
    exact .inr (.inr ⟨rfl, rfl, rfl, .inr rfl⟩)
  | dmaCheck | processDma r =>
    simp only [NicRun.step, Option.ite_none_right_eq_some, Option.some.injEq] at hu
    obtain ⟨-, rfl⟩ := hu
    exact .inr (.inr ⟨rfl, rfl, rfl, .inl rfl⟩)
  | write addr data | reset | packet data r | pollIrq =>
    cases hu
    exact .inr (.inr ⟨rfl, rfl, rfl, .inl rfl⟩)

/-- An activation has completed a descriptor exactly if its first pass did; a later pass comes only after one that did. -/
structure Inv (s : TxActivation) : Prop where
  first : s.first = true ↔ 1 ≤ s.completed
  fresh : s.fresh = true → s.completed = 0
  loop : s.run.txLoc = .loop → s.fresh = false → s.first = true
  bridge : 1 ≤ s.completed → s.run.nic.bridge = true

theorem bridge_of_completes {nic : SmartNic} {r : Replies} (h : completes nic r = true) : nic.bridge = true := by
  rw [completes, Bool.and_eq_true, Bool.and_eq_true] at h
  exact h.1.2

theorem Inv.step {s t : TxActivation} {e : NicEvent} (h : Inv s) (he : s.step e = some t) : Inv t := by
  have hb := (NicRun.step_frame (step_run he)).1
  have hfirst := h.first
  rcases step_cases he with ⟨r, -, hl, hc, hf, h1, hloc⟩ | ⟨hc, hf, h1⟩ | ⟨hc, hf, h1, hloc⟩
  · cases hs : s.fresh with
    | true =>
      -- the first pass
      rw [h.fresh hs, Nat.zero_add] at hc
      rw [hs, if_pos rfl] at h1
      cases hr : completes s.run.nic r with
      | true =>
        rw [hr, if_pos rfl] at hc
        rw [hr] at h1
        exact ⟨iff_of_true h1 (hc ▸ Nat.le_refl 1), fun hf' => absurd (hf.symm.trans hf') Bool.false_ne_true,
          fun _ _ => h1, fun _ => hb.trans (bridge_of_completes hr)⟩
      | false =>
        rw [hr, if_neg Bool.false_ne_true] at hc hloc
        rw [hr] at h1
        refine ⟨iff_of_false (h1 ▸ Bool.false_ne_true) (by omega), fun _ => hc, fun hl' => ?_, fun h1 => by omega⟩
        cases hloc.symm.trans hl'
    | false =>
      have h1' := h.loop hl hs
      have hle := hfirst.mp h1'
      rw [hs, if_neg Bool.false_ne_true, h1'] at h1
      exact ⟨iff_of_true h1 (by omega), fun hf' => absurd (hf.symm.trans hf') Bool.false_ne_true, fun _ _ => h1,
        fun _ => hb.trans (h.bridge hle)⟩
  · exact ⟨iff_of_false (h1 ▸ Bool.false_ne_true) (by omega), fun _ => hc,
      fun _ hf' => absurd (hf.symm.trans hf').symm Bool.false_ne_true, fun h1 => by omega⟩
  · refine ⟨by rw [h1, hc, hfirst], fun hf' => hc.trans (h.fresh (hf.symm.trans hf')), fun hl hf' => ?_,
      fun h1 => hb.trans (h.bridge (hc ▸ h1))⟩
    rcases hloc with hloc | hloc
    · exact h1.trans (h.loop (hloc.symm.trans hl) (hf.symm.trans hf'))
    · cases hloc.symm.trans hl

theorem Inv.init (bridge netif : Bool) : Inv (init bridge netif) :=
  ⟨iff_of_false Bool.false_ne_true (Nat.not_succ_le_zero 0), fun _ => rfl, nofun, nofun⟩

/-- The end of an activation is right exactly if its first pass had all it takes, where that matters. -/
theorem Inv.right {s t : TxActivation} {e : NicEvent} (h : Inv s) (hd : isDone e = true) (he : s.step e = some t) :
    Right t ↔ FirstCompletes s e := by
  cases e with
  | txDone r =>
    simp only [TxActivation.step, NicRun.step, Option.map_eq_some_iff, Option.ite_none_right_eq_some,
      Option.some.injEq] at he
    obtain ⟨u, ⟨-, rfl⟩, rfl⟩ := he
    have hq := (NicRun.processTxDone_ends s.run.nic).runSends r
    rw [Right, Due, FirstCompletes]
    dsimp only [NicRun.next]
    by_cases hi : s.run.nic.reg SC_REG_IRQ_EN &&& SC_IRQ_TX_DONE ≠ 0
    · rw [if_pos hi] at hq
      have hset : (s.run.nic.regs.irqStatus ||| SC_IRQ_TX_DONE) &&& SC_IRQ_TX_DONE ≠ 0 :=
        NicRun.or_and_ne_zero (by decide)
      rw [hq.status, hq.sent, hq.irqEn, h.first]
      cases hb : s.run.nic.bridge with
      | true =>
        rw [if_pos rfl]
        constructor
        · exact fun hr _ _ => .inl (hr.2 (.inr (List.cons_ne_nil _ _))).2
        · intro hf
          rcases hf hd hi with hc | ⟨hb', -⟩
          · exact ⟨fun _ => ⟨hset, rfl⟩, fun _ => ⟨hi, hc⟩⟩
          · exact absurd hb'.symm Bool.false_ne_true
      | false =>
        -- without a bridge nothing is completed
        have hc : ¬ 1 ≤ s.completed := fun hc => absurd (hb.symm.trans (h.bridge hc)) Bool.false_ne_true
        rw [if_neg Bool.false_ne_true]
        constructor
        · intro hr _ _
          by_cases h0 : s.run.nic.regs.irqStatus &&& SC_IRQ_TX_DONE = 0
          · exact absurd (hr.2 (.inl ⟨h0, hset⟩)).2 hc
          · exact .inr ⟨rfl, h0⟩
        · intro hf
          refine ⟨fun hr => absurd hr.2 hc, ?_⟩
          rcases hf hd hi with hc' | ⟨-, h0⟩
          · exact absurd hc' hc
          · rintro (hr | hr)
            · exact absurd hr.1 h0
            · exact absurd rfl hr
    · rw [if_neg hi] at hq
      refine iff_of_true ⟨fun h => absurd (hq.irqEn ▸ h.1) hi, ?_⟩ fun _ h => absurd h hi
      rintro (⟨h0, h1⟩ | hs)
      · exact absurd h0 (hq.status ▸ h1)
      · exact absurd hq.sent hs
  | _ => cases hd

/-- In every run: every activation ends right if and only if each one's first pass had all it takes to complete a
descriptor, where that matters. A pass that has gives its descriptor back and moves the tail on; no other does. -/
theorem right_iff_firstCompletes {bridge netif : Bool} {es : List NicEvent} {t : TxActivation}
    (h : SmartEth.run step (init bridge netif) es = some t) :
    (AfterEach step (fun e => isDone e = true) Right (init bridge netif) es ↔
      Along step FirstCompletes (init bridge netif) es) ∧
    ∀ nic r, let x := (SmartNic.processTxIteration nic).exec Replies.logged (r, [])
      (x.1.2.isSome = completes nic r) ∧ (completes nic r = true → x.1.1 = nic.txAdvance ∧
        ∃ d : SmartEthDesc, d.own = true ∧ NicOp.dmaWrite nic.txDescAddr d.complete.toBytes ∈ x.2.2) := by
  refine ⟨?_, pass_completes⟩
  refine afterEach_iff_along (I := Inv) ?_ ?_ ?_ (.init bridge netif) ?_
  · exact fun _ _ _ hi _ he => hi.step he
  · exact fun _ _ _ hi hd he => hi.right hd he
  · exact fun _ _ hd hd' => absurd hd' hd
  · exact Option.isSome_iff_exists.mpr ⟨t, h⟩

/-- An activation with a ring of 4 at `0x1000` and the interrupt enabled. -/
def exampleRun (r : Replies) : List NicEvent :=
  [.write SC_REG_IRQ_EN SC_IRQ_TX_DONE, .write SC_REG_TX_RING_BASE_LO 0x1000, .write SC_REG_TX_RING_SIZE 4,
    .write SC_REG_TX_DOORBELL 1, .txWake, .txIteration r]

/-- The descriptor at the tail is the NIC's: it is completed. -/
theorem right_after_frame : AfterEach step (fun e => isDone e = true) Right (init true true)
    (exampleRun ⟨[some (SmartEthDesc.toBytes ⟨0x2000, 4, SMARTETH_DESC_FLAG_OWN⟩), some [1, 2, 3, 4]], [true]⟩ ++
      [.txIteration ⟨[], []⟩, .txDone ⟨[], []⟩]) := by
  have hr : (SmartEth.run (checked step FirstCompletes) (init true true) (exampleRun
      ⟨[some (SmartEthDesc.toBytes ⟨0x2000, 4, SMARTETH_DESC_FLAG_OWN⟩), some [1, 2, 3, 4]], [true]⟩ ++
        [.txIteration ⟨[], []⟩, .txDone ⟨[], []⟩])).isSome = true := by decide +kernel
  obtain ⟨t, ht⟩ := Option.isSome_iff_exists.mp hr
  obtain ⟨hok, ht⟩ := run_checked.mp ht
  exact (right_iff_firstCompletes ht).1.mpr hok

/-- It is not: nothing is completed, and the interrupt is sent. -/
theorem done_without_frame : ¬ AfterEach step (fun e => isDone e = true) Right (init true true)
    (exampleRun ⟨[some []], []⟩ ++ [.txDone ⟨[], []⟩]) := by
  intro h
  have hr : (SmartEth.run step (init true true) (exampleRun ⟨[some []], []⟩ ++ [.txDone ⟨[], []⟩])).map
      (fun t => (t.run.sent, t.completed)) = some ([1], 0) := by decide +kernel
  obtain ⟨t, ht, he⟩ := Option.map_eq_some_iff.mp hr
  rw [Prod.mk.injEq] at he
  have hd := ((h (exampleRun ⟨[some []], []⟩) (.txDone ⟨[], []⟩) (List.prefix_refl _) rfl t ht).2
    (.inr (he.1 ▸ List.cons_ne_nil _ _))).2
  rw [he.2] at hd
  exact absurd hd (by decide)

end SmartEth.TxActivation
