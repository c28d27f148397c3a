import SmartEth.System.IrqRun
import SmartEth.Proof.NicRun

/-!
# No cause is cleared unseen

The NIC's sections only set causes, and so does every write but one to `IRQ_STS`
(`keeps_section`, `keeps_write`). Every such write on its way is a handler's, of the value
that its own read has returned (`Inv`). So a cause that is cleared was seen, and a
handler that is done has called `complete` for each cause it has seen (`cleared_seen`).
-/

namespace SmartEth.IrqRun

open SmartNic SmartEthMain

/-! ## The handler's program -/

/-- `n` calls of `complete`. -/
def completes : Nat → DriverM Unit
  | 0 => .ret ()
  | n + 1 => .op .complete fun _ => completes n

theorem completeIf_bind (v c : Word) (n : Nat) :
    (completeIf v c >>= fun _ => completes n) = completes ((if v &&& c ≠ 0 then 1 else 0) + n) := by
  rw [completeIf]
  by_cases h : v &&& c ≠ 0
  · rw [if_pos h, if_pos h, Nat.add_comm]
    rfl
  · rw [if_neg h, if_neg h, Nat.zero_add]
    rfl

theorem bind_completes_zero (p : DriverM Unit) : (p >>= fun _ => completes 0) = p := by
  induction p with
  | ret a => rfl
  | op e k ih => exact congrArg (Prog.op e) (funext ih)

/-- After its read, the handler acknowledges what it has read and calls `complete` for each cause in it. -/
theorem irqHandler_eq : irqHandler = .op (.readReg REG_IRQ_STS) fun v =>
    if v = 0 then .ret () else .op (.writeReg REG_IRQ_STS v) fun _ => completes (causes v) := by
  have h : ∀ v : Word, (do
      completeIf v IRQ_DMA_DONE
      completeIf v IRQ_TX_DONE
      completeIf v IRQ_RX
      completeIf v IRQ_TEST) = completes (causes v) := by
    intro v
    rw [← bind_completes_zero (completeIf v IRQ_TEST), completeIf_bind, completeIf_bind, completeIf_bind,
      completeIf_bind, causes]
    simp only [List.countP_cons, List.countP_nil, decide_eq_true_eq]
    congr 1
    omega
  rw [irqHandler, readReg, Prog.call_bind]
  congr 1
  funext v
  split
  · rfl
  · rw [h v]
    rfl

/-! ## The interrupt status -/

/-- No cause is lost from `s` to `t`. -/
def Keeps (s t : SmartNic) : Prop :=
  ∀ i, s.regs.irqStatus.getLsbD i = true → t.regs.irqStatus.getLsbD i = true

theorem Keeps.of_quiet {s t : SmartNic} {vs : List Word} (h : NicRun.Quiet s t vs) : Keeps s t := by
  intro i hi
  rw [h.status]
  exact hi

theorem Keeps.of_raised {s t : SmartNic} {cause vector : Word} {vs : List Word}
    (h : NicRun.Raised cause vector s t vs) : Keeps s t := by
  intro i hi
  rw [h.status, BitVec.getLsbD_or, hi, Bool.true_or]

/-- What the NIC's own sections may come to loses no cause. -/
theorem keeps_section {α : Type} {Q : α → List Word → Prop} {p : NicM α} {s : SmartNic} (f : α → SmartNic)
    (h : p.Ends Q []) (hQ : ∀ a vs, Q a vs → Keeps s (f a)) (r : Replies) : Keeps s (f (p.runWith r)) := by
  obtain ⟨vs, hq⟩ := h.ensures.exec Replies.answer r
  exact hQ _ vs hq

theorem keeps_packet (s : SmartNic) (data : List Byte) (r : Replies) : Keeps s ((s.onPacketRx data).runWith r) :=
  keeps_section id (NicRun.onPacketRx_ends s data) (fun _ _ h => h.elim .of_quiet .of_raised) r

theorem keeps_processDma (s : SmartNic) (r : Replies) : Keeps s (s.processDmaBody.runWith r).1 := by
  refine keeps_section Prod.fst (NicRun.processDmaBody_ends s) (fun a vs h => ?_) r
  split at h
  · exact .of_raised h
  · exact .of_quiet h

theorem keeps_txIteration (s : SmartNic) (r : Replies) : Keeps s (s.processTxIteration.runWith r).1 :=
  keeps_section Prod.fst (NicRun.processTxIteration_ends s) (fun _ _ h => .of_quiet h) r

theorem keeps_txDone (s : SmartNic) (r : Replies) : Keeps s (s.processTxDone.runWith r) := by
  refine keeps_section id (NicRun.processTxDone_ends s) (fun a vs h => ?_) r
  split at h
  · exact .of_raised h
  · exact .of_quiet h

/-- Nor does an aligned write that neither acknowledges nor resets. -/
theorem keeps_write (s : SmartNic) {addr : Addr} {data : Word} (ha : addr &&& 3 = 0) (hsts : addr ≠ SC_REG_IRQ_STS)
    (hr : ¬ (addr = SC_REG_CTRL ∧ data &&& SC_CTRL_RESET ≠ 0)) : Keeps s (s.onMmioWrite addr data).1 := by
  intro i hi
  rw [NicRun.onMmioWrite_status, RegBlock.write_of_not_reset _ hr, if_neg hsts]
  split
  · exact hi
  split
  · split
    · exact hi
    · have htest : (s.regs.setReg (SC_REG_IRQ_STS >>> 2) (s.regs.irqStatus ||| SC_IRQ_TEST)).irqStatus =
          s.regs.irqStatus ||| SC_IRQ_TEST := RegBlock.getReg_setReg_self _ _ _
      rw [htest, BitVec.getLsbD_or, hi, Bool.true_or]
  · have hne : SC_REG_IRQ_STS >>> 2 ≠ addr >>> 2 := fun h => hsts ((shift_inj (by decide) ha).mp h).symm
    rw [RegBlock.irqStatus, RegBlock.getReg_setReg_ne hne]
    exact hi

/-- An acknowledgement clears what it names. -/
theorem cleared_ack (s : SmartNic) (v : Word) {i : Nat} (hi : s.regs.irqStatus.getLsbD i = true)
    (hc : (s.onMmioWrite SC_REG_IRQ_STS v).1.regs.irqStatus.getLsbD i = false) : v.getLsbD i = true := by
  have hw : (s.regs.write SC_REG_IRQ_STS v).1.irqStatus = s.regs.irqStatus &&& ~~~v :=
    RegBlock.getReg_setReg_self _ _ _
  rw [NicRun.onMmioWrite_status, hw, BitVec.getLsbD_and, hi, Bool.true_and, BitVec.getLsbD_not] at hc
  have hlt : i < 32 := BitVec.lt_of_getLsbD hi
  simpa [hlt] using hc

/-! ## Handlers and messages -/

/-- Where a handler is: before its reply, about to acknowledge, or past that with `m` calls of `complete` to come. -/
inductive Stage (h : Handler) : Prop where
  | asking (rest : h.rest = irqHandler) (read : h.read = none) (signals : h.signals = 0)
  | answered (v : Word) (waiting : h.waiting = false) (read : h.read = some v)
      (rest : h.rest = .op (.writeReg REG_IRQ_STS v) fun _ => completes (causes v)) (signals : h.signals = 0)
  | acting (v : Word) (m : Nat) (waiting : h.waiting = false) (read : h.read = some v) (rest : h.rest = completes m)
      (signals : h.signals + m = causes v)

/-- An acknowledgement on its way is its handler's, of the value it has read; and each handler has at most one read
on its way, for which it waits. -/
structure Inv (s : IrqRun) : Prop where
  plain : ∀ a d, ToNic.write a d none ∈ s.queue →
    a &&& 3 = 0 ∧ a ≠ SC_REG_IRQ_STS ∧ ¬ (a = SC_REG_CTRL ∧ d &&& SC_CTRL_RESET ≠ 0)
  acks : ∀ a v i, ToNic.write a v (some i) ∈ s.queue →
    a = SC_REG_IRQ_STS ∧ ∃ h : Handler, s.handlers[i]? = some h ∧ h.read = some v
  reads : ∀ a i, ToNic.read a i ∈ s.queue → ∃ h : Handler, s.handlers[i]? = some h ∧ h.waiting = true
  once : (s.queue.filterMap ToNic.asker).Nodup
  stage : ∀ (i : Nat) (h : Handler), s.handlers[i]? = some h → Stage h

variable {s t : IrqRun}

theorem handlers_set {i : Nat} {h h' : Handler} (hi : s.handlers[i]? = some h) (j : Nat) :
    (s.setHandler i h').handlers[j]? = if j = i then some h' else s.handlers[j]? := by
  rw [setHandler, List.getElem?_set]
  by_cases hj : i = j
  · subst hj
    rw [if_pos rfl, if_pos rfl, if_pos (List.getElem?_eq_some_iff.mp hi).1]
  · rw [if_neg hj, if_neg (Ne.symm hj)]

/-- What a handler has read it keeps, and so do all. -/
theorem read_set {i j : Nat} {g g' : Handler} {v : Word} (hi : s.handlers[i]? = some g)
    (hr : ∀ v, g.read = some v → g'.read = some v) (h : ∃ k : Handler, s.handlers[j]? = some k ∧ k.read = some v) :
    ∃ k : Handler, (s.setHandler i g').handlers[j]? = some k ∧ k.read = some v := by
  obtain ⟨k, hk, hv⟩ := h
  rw [handlers_set hi]
  by_cases hj : j = i
  · subst hj
    obtain rfl := Option.some.inj (hk.symm.trans hi)
    exact ⟨g', if_pos rfl, hr v hv⟩
  · exact ⟨k, (if_neg hj).trans hk, hv⟩

theorem stage_set {i : Nat} {g g' : Handler} (hi : s.handlers[i]? = some g) (hs : Stage g')
    (h : ∀ (j : Nat) (k : Handler), s.handlers[j]? = some k → Stage k) (j : Nat) (k : Handler)
    (hk : (s.setHandler i g').handlers[j]? = some k) : Stage k := by
  rw [handlers_set hi] at hk
  by_cases hj : j = i
  · rw [if_pos hj] at hk
    exact Option.some.inj hk ▸ hs
  · rw [if_neg hj] at hk
    exact h j k hk

/-- A handler that asks for nothing goes on, keeping what it has read. -/
theorem Inv.set (h : Inv s) {i : Nat} {g g' : Handler} (hi : s.handlers[i]? = some g) (hw : g.waiting = false)
    (hr : ∀ v, g.read = some v → g'.read = some v) (hs : Stage g') : Inv (s.setHandler i g') := by
  refine ⟨h.plain, fun a v j hm => ?_, fun a j hm => ?_, h.once, stage_set hi hs h.stage⟩
  · exact ⟨(h.acks a v j hm).1, read_set hi hr (h.acks a v j hm).2⟩
  · obtain ⟨k, hk, hwait⟩ := h.reads a j hm
    rw [handlers_set hi]
    by_cases hj : j = i
    · subst hj
      obtain rfl := Option.some.inj (hk.symm.trans hi)
      exact absurd (hw.symm.trans hwait) Bool.false_ne_true
    · exact ⟨k, (if_neg hj).trans hk, hwait⟩

/-- A write is sent. -/
theorem Inv.post_write (h : Inv s) {a : Addr} {d : Word} {author : Option Nat}
    (hp : author = none → a &&& 3 = 0 ∧ a ≠ SC_REG_IRQ_STS ∧ ¬ (a = SC_REG_CTRL ∧ d &&& SC_CTRL_RESET ≠ 0))
    (ha : ∀ i, author = some i → a = SC_REG_IRQ_STS ∧ ∃ h, s.handlers[i]? = some h ∧ h.read = some d) :
    Inv (s.post (.write a d author)) := by
  refine ⟨fun a' d' hm => ?_, fun a' v i hm => ?_, fun a' i hm => ?_, ?_, h.stage⟩
  · rcases List.mem_append.mp hm with hm | hm
    · exact h.plain a' d' hm
    · obtain ⟨rfl, rfl, hn⟩ := ToNic.write.inj (List.mem_singleton.mp hm)
      exact hp hn.symm
  · rcases List.mem_append.mp hm with hm | hm
    · exact h.acks a' v i hm
    · obtain ⟨rfl, rfl, hn⟩ := ToNic.write.inj (List.mem_singleton.mp hm)
      exact ha i hn.symm
  · rcases List.mem_append.mp hm with hm | hm
    · exact h.reads a' i hm
    · cases List.mem_singleton.mp hm
  · rw [post, List.filterMap_append]
    exact (List.append_nil _).symm ▸ h.once

/-- A handler's read is sent. -/
theorem Inv.post_read (h : Inv s) {i : Nat} {g : Handler} (hi : s.handlers[i]? = some g) (hw : g.waiting = false)
    (hrest : g.rest = irqHandler) (hread : g.read = none) (h0 : g.signals = 0) (a : Addr) :
    Inv ((s.post (.read a i)).setHandler i { g with waiting := true }) := by
  have hi' : (s.post (.read a i)).handlers[i]? = some g := hi
  refine ⟨fun a' d hm => ?_, fun a' v j hm => ?_, fun a' j hm => ?_, ?_,
    stage_set hi' (.asking hrest hread h0) h.stage⟩
  · rcases List.mem_append.mp hm with hm | hm
    · exact h.plain a' d hm
    · cases List.mem_singleton.mp hm
  · rcases List.mem_append.mp hm with hm | hm
    · exact ⟨(h.acks a' v j hm).1, read_set hi' (fun _ hv => hv) (h.acks a' v j hm).2⟩
    · cases List.mem_singleton.mp hm
  · rw [handlers_set hi']
    rcases List.mem_append.mp hm with hm | hm
    · obtain ⟨k, hk, hwait⟩ := h.reads a' j hm
      by_cases hj : j = i
      · exact ⟨_, if_pos hj, rfl⟩
      · exact ⟨k, (if_neg hj).trans hk, hwait⟩
    · obtain ⟨-, rfl⟩ := ToNic.read.inj (List.mem_singleton.mp hm)
      exact ⟨_, if_pos rfl, rfl⟩
  · show ((s.queue ++ [ToNic.read a i]).filterMap ToNic.asker).Nodup
    rw [List.filterMap_append]
    refine List.nodup_append.mpr ⟨h.once, List.nodup_singleton _, fun j hj k hk => ?_⟩
    obtain rfl := List.mem_singleton.mp hk
    rintro rfl
    -- a handler whose read is on its way waits for it
    obtain ⟨m, hm, hasker⟩ := List.mem_filterMap.mp hj
    cases m with
    | write a' d author => cases hasker
    | read a' j' =>
      cases hasker
      obtain ⟨k, hk, hwait⟩ := h.reads a' _ hm
      obtain rfl := Option.some.inj (hk.symm.trans hi)
      exact absurd (hw.symm.trans hwait) Bool.false_ne_true

/-- A message has been handled. -/
theorem Inv.pop (h : Inv s) {m : ToNic} {queue : List ToNic} (hq : s.queue = m :: queue) :
    Inv { s with queue := queue } := by
  have hsub : ∀ m', m' ∈ queue → m' ∈ s.queue := fun m' hm => hq ▸ List.mem_cons_of_mem _ hm
  refine ⟨fun a d hm => h.plain a d (hsub _ hm), fun a v i hm => h.acks a v i (hsub _ hm),
    fun a i hm => h.reads a i (hsub _ hm), ?_, h.stage⟩
  have ho := h.once
  rw [hq] at ho
  exact ho.sublist ((List.sublist_cons_self _ _).filterMap _)

theorem causes_zero : causes 0 = 0 := by decide

/-- What a reply leaves of the handler. -/
theorem stage_reply {g : Handler} {k : Word → DriverM Unit} {reg : Addr} (hk : irqHandler = .op (.readReg reg) k)
    (h0 : g.signals = 0) (v : Word) : Stage { g with rest := k v, waiting := false, read := some v } := by
  rw [irqHandler_eq] at hk
  injection hk with he hk
  cases he
  subst hk
  by_cases hv : v = 0
  · exact .acting v 0 rfl rfl (if_pos hv) (by rw [hv, causes_zero]; exact h0)
  · exact .answered v rfl rfl (if_neg hv) h0

/-- The reply to a read. -/
theorem Inv.reply (h : Inv s) {a : Addr} {i : Nat} {queue : List ToNic} {v : Word}
    (hq : s.queue = .read a i :: queue) (he : { s with queue := queue }.reply i v = some t) : Inv t := by
  obtain ⟨g, hg, hwait⟩ := h.reads a i (hq ▸ List.mem_cons_self)
  have hpop := h.pop hq
  have hg' : ({ s with queue := queue } : IrqRun).handlers[i]? = some g := hg
  rw [IrqRun.reply, hg'] at he
  cases h.stage i g hg with
  | answered v' hw _ _ _ => exact absurd (hw.symm.trans hwait) Bool.false_ne_true
  | acting v' m hw _ _ _ => exact absurd (hw.symm.trans hwait) Bool.false_ne_true
  | asking hrest hread h0 =>
    dsimp only at he
    rw [hrest, irqHandler_eq] at he
    have ht := (Option.some.inj he).symm
    subst ht
    -- no other message is this handler's
    have hnone : ∀ a', ToNic.read a' i ∉ queue := by
      intro a' hm
      have ho := h.once
      rw [hq] at ho
      exact (List.nodup_cons.mp ho).1 (List.mem_filterMap.mpr ⟨_, hm, rfl⟩)
    refine ⟨hpop.plain, fun a' v' j hm => ?_, fun a' j hm => ?_, hpop.once,
      stage_set hg' (stage_reply irqHandler_eq h0 v) h.stage⟩
    · refine ⟨(hpop.acks a' v' j hm).1, read_set hg' (fun v hv => ?_) (hpop.acks a' v' j hm).2⟩
      cases hread.symm.trans hv
    · obtain ⟨k, hk, hw⟩ := hpop.reads a' j hm
      refine ⟨k, ?_, hw⟩
      rw [handlers_set hg', if_neg]
      · exact hk
      · rintro rfl
        exact hnone a' hm

/-- The next operation of a handler. -/
theorem Inv.run (h : Inv s) {i : Nat} {g : Handler} (hi : s.handlers[i]? = some g) (hw : g.waiting = false)
    (he : s.runHandler i g = some t) : Inv t := by
  rw [runHandler] at he
  cases h.stage i g hi with
  | asking hrest hread h0 =>
    have hop := hrest.trans irqHandler_eq
    split at he
    · obtain rfl := Option.some.inj he
      exact h.post_read hi hw hrest hread h0 _
    · rename_i hg
      cases hop.symm.trans hg
    · rename_i hg
      cases hop.symm.trans hg
    · cases he
  | answered v _ hread hrest h0 =>
    rw [hrest] at he
    obtain rfl := Option.some.inj he
    have hpost : Inv (s.post (.write REG_IRQ_STS v (some i))) := by
      refine h.post_write nofun fun j hj => ?_
      obtain rfl := Option.some.inj hj
      exact ⟨rfl, g, hi, hread⟩
    refine hpost.set hi hw (fun _ hv => hv) (.acting v (causes v) hw hread rfl ?_)
    show g.signals + causes v = causes v
    omega
  | acting v m _ hread hrest hcount =>
    cases m with
    | zero =>
      rw [hrest] at he
      cases he
    | succ m =>
      rw [hrest] at he
      obtain rfl := Option.some.inj he
      refine h.set hi hw (fun _ hv => hv) (.acting v m hw hread rfl ?_)
      show g.signals + 1 + m = causes v
      omega

theorem Inv.of_nic (h : Inv s) (nic : SmartNic) : Inv { s with nic := nic } :=
  ⟨h.plain, h.acks, h.reads, h.once, h.stage⟩

theorem Inv.step {e : IrqEvent} (h : Inv s) (he : s.step e = some t) : Inv t := by
  cases e with
  | write a d =>
    simp only [IrqRun.step, Option.ite_none_right_eq_some, Option.some.injEq] at he
    obtain ⟨hp, rfl⟩ := he
    exact h.post_write (fun _ => hp) nofun
  | call =>
    obtain rfl := Option.some.inj he
    have hold : ∀ (j : Nat) (k : Handler), s.handlers[j]? = some k →
        (s.handlers ++ [⟨irqHandler, false, none, 0⟩])[j]? = some k := fun j k hk => by
      rw [List.getElem?_append_left (List.getElem?_eq_some_iff.mp hk).1, hk]
    refine ⟨h.plain, fun a v j hm => ?_, fun a j hm => ?_, h.once, fun j k hk => ?_⟩
    · obtain ⟨ha, k, hk, hv⟩ := h.acks a v j hm
      exact ⟨ha, k, hold j k hk, hv⟩
    · obtain ⟨k, hk, hw⟩ := h.reads a j hm
      exact ⟨k, hold j k hk, hw⟩
    · by_cases hj : j < s.handlers.length
      · rw [List.getElem?_append_left hj] at hk
        exact h.stage j k hk
      · rw [List.getElem?_append_right (Nat.le_of_not_lt hj)] at hk
        obtain rfl := List.mem_singleton.mp (List.mem_of_getElem? hk)
        exact .asking rfl rfl rfl
  | run i =>
    simp only [IrqRun.step] at he
    split at he
    · rename_i g hg
      simp only [Option.ite_none_left_eq_some] at he
      exact h.run hg (Bool.eq_false_iff.mpr he.1) he.2
    · cases he
  | handle =>
    simp only [IrqRun.step] at he
    split at he
    · cases he
    · rename_i a d author queue hq
      obtain rfl := Option.some.inj he
      exact (h.pop hq).of_nic _
    · rename_i a i queue hq
      exact h.reply hq he
  | packet data r | processDma r | txIteration r | txDone r =>
    obtain rfl := Option.some.inj he
    exact h.of_nic _
  | pollIrq =>
    obtain rfl := Option.some.inj he
    exact h

theorem Inv.init (netif : Bool) : Inv (init netif) := ⟨nofun, nofun, nofun, List.nodup_nil, nofun⟩

/-! ## Causes -/

theorem nic_runHandler {i : Nat} {h : Handler} (he : s.runHandler i h = some t) : t.nic = s.nic := by
  rw [runHandler] at he
  split at he <;> cases he <;> rfl

theorem nic_reply {i : Nat} {v : Word} (he : s.reply i v = some t) : t.nic = s.nic := by
  rw [reply] at he
  split at he
  · split at he <;> cases he
    rfl
  · cases he

theorem seen_of_keeps {e : IrqEvent} (h : Keeps s.nic t.nic) : Seen s e t :=
  fun i hi hc => absurd ((h i hi).symm.trans hc) (by decide)

theorem Inv.seen {e : IrqEvent} (h : Inv s) (he : s.step e = some t) : Seen s e t := by
  have hrefl : t.nic = s.nic → Seen s e t := fun hn => seen_of_keeps fun i hi => hn ▸ hi
  cases e with
  | write a d =>
    simp only [IrqRun.step, Option.ite_none_right_eq_some, Option.some.injEq] at he
    obtain ⟨-, rfl⟩ := he
    exact hrefl rfl
  | call =>
    obtain rfl := Option.some.inj he
    exact hrefl rfl
  | run i =>
    simp only [IrqRun.step] at he
    split at he
    · simp only [Option.ite_none_left_eq_some] at he
      exact hrefl (nic_runHandler he.2)
    · cases he
  | handle =>
    simp only [IrqRun.step] at he
    split at he
    · cases he
    · rename_i a d author queue hq
      obtain rfl := Option.some.inj he
      cases author with
      | none =>
        obtain ⟨ha, hsts, hr⟩ := h.plain a d (hq ▸ List.mem_cons_self)
        exact seen_of_keeps (keeps_write s.nic ha hsts hr)
      | some j =>
        obtain ⟨rfl, g, hg, hread⟩ := h.acks a d j (hq ▸ List.mem_cons_self)
        exact fun i hi hc => ⟨rfl, j, g, d, queue, hq, hg, hread, cleared_ack s.nic d hi hc⟩
    · rename_i a i queue hq
      exact hrefl ((nic_reply he).trans rfl)
  | packet data r =>
    obtain rfl := Option.some.inj he
    exact seen_of_keeps (keeps_packet _ _ _)
  | pollIrq =>
    obtain rfl := Option.some.inj he
    exact hrefl rfl
  | processDma r =>
    obtain rfl := Option.some.inj he
    exact seen_of_keeps (keeps_processDma _ _)
  | txIteration r =>
    obtain rfl := Option.some.inj he
    exact seen_of_keeps (keeps_txIteration _ _)
  | txDone r =>
    obtain rfl := Option.some.inj he
    exact seen_of_keeps (keeps_txDone _ _)

theorem Stage.acted {h : Handler} (hs : Stage h) : Acted h := by
  intro hret
  cases hs with
  | asking hrest _ _ => cases hret.symm.trans (hrest.trans irqHandler_eq)
  | answered v _ _ hrest _ => cases hret.symm.trans hrest
  | acting v m _ hread hrest hcount =>
    cases m with
    | zero => exact ⟨v, hread, hcount⟩
    | succ m => cases hret.symm.trans hrest

/-- In every run, whatever comes between a handler's read and the handling of its write: a cause is cleared only by
the write of a handler whose own read has returned it, and a handler that is done has acted upon all it has read. -/
theorem cleared_seen {netif : Bool} {es : List IrqEvent} (h : SmartEth.run IrqRun.step (init netif) es = some s) :
    (∀ e t, s.step e = some t → Seen s e t) ∧ ∀ g ∈ s.handlers, Acted g := by
  have hi : Inv s := run_inv (I := Inv) (fun _ _ _ hi he => hi.step he) (.init netif) h
  refine ⟨fun e t he => hi.seen he, fun g hg => ?_⟩
  obtain ⟨i, hlt, hgi⟩ := List.mem_iff_getElem.mp hg
  exact (hi.stage i g (List.getElem?_eq_some_iff.mpr ⟨hlt, hgi⟩)).acted

/-- A test interrupt, and a handler as far as its acknowledgement, which is on its way. -/
def exampleAck : List IrqEvent :=
  [.write SC_REG_IRQ_TEST 1, .handle, .call, .run 0, .handle, .run 0]

theorem cleared_seen_test : ∃ s t, SmartEth.run IrqRun.step (init false) exampleAck = some s ∧
    s.step .handle = some t ∧ (s.nic.regs.irqStatus, t.nic.regs.irqStatus) = (SC_IRQ_TEST, 0) ∧
    Seen s .handle t := by
  have hr : ((SmartEth.run IrqRun.step (init false) exampleAck).bind fun s =>
      (s.step .handle).map fun t => (s.nic.regs.irqStatus, t.nic.regs.irqStatus)) = some (SC_IRQ_TEST, 0) := by
    decide +kernel
  obtain ⟨s, hs, hr⟩ := Option.bind_eq_some_iff.mp hr
  obtain ⟨t, ht, hv⟩ := Option.map_eq_some_iff.mp hr
  exact ⟨s, t, hs, ht, hv, (cleared_seen hs).1 .handle t ht⟩

end SmartEth.IrqRun
