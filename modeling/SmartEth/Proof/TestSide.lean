import SmartEth.Proof.LoopBack
import SmartEth.Proof.TxPosition
import SmartEth.System.TestRun

/-!
# What the NIC has in hand of a test

When a test starts with all quiet, nothing raises a cause before its operation is completed:
the NIC has nothing in hand, then the transfer or the frame of the test (`Work`), and no
handler finds a cause, so that no completion is there to be taken (`Hushed.env`).
-/

namespace SmartEth.TestRun

open SmartEthMain SmartNic

variable {s t : TestRun}

/-! ## Steps -/

theorem env_nic {e : DriverEvent} (h : s.env (.nic e) = some t) :
    (∃ drv, e ≠ .signal ∧ e ≠ .txWake ∧ s.drv.env e = some drv ∧ t = s.after e drv) ∨
      e = .txWake ∧ s.notified = true ∧ t = { s with drv := (s.drv.env .txWake).getD s.drv, notified := false } := by
  cases e with
  | signal => cases h
  | txWake =>
    simp only [env, Option.ite_none_right_eq_some, Option.some.injEq] at h
    exact .inr ⟨rfl, h.1, h.2.symm⟩
  | _ =>
    obtain ⟨drv, hd, rfl⟩ := Option.map_eq_some_iff.mp h
    exact .inl ⟨drv, nofun, nofun, hd, rfl⟩

theorem env_handler {i : Nat} (h : s.env (.handler i) = some t) : ∃ e k r drv, s.handlers[i]? = some (.op e k) ∧
    s.drv.act e .done = some (r, drv) ∧ t = { s with drv := drv, handlers := s.handlers.set i (k r) } := by
  simp only [env] at h
  split at h
  · rename_i e k hi
    obtain ⟨⟨r, drv⟩, ha, rfl⟩ := Option.map_eq_some_iff.mp h
    exact ⟨e, k, r, drv, hi, ha, rfl⟩
  · cases h

theorem act_eq {e : DriverOp} {c : DriverChoice} {r : e.Res} (h : s.act e c = some (r, t)) :
    ∃ drv, s.drv.act e c = some (r, drv) ∧ t = { s with drv := drv, desc := s.posts e }.see := by
  obtain ⟨⟨r', drv⟩, ha, hx⟩ := Option.map_eq_some_iff.mp h
  obtain ⟨rfl, rfl⟩ := Prod.mk.inj hx
  exact ⟨drv, ha, rfl⟩

/-- A notification wakes `process_tx`, or is lost. -/
theorem txWake_getD (d : DriverNic) :
    ∃ loc, (d.env .txWake).getD d = { d with txLoc := loc } ∧ (loc = .loop ∨ loc = d.txLoc) := by
  by_cases h : d.txLoc = .wait
  · exact ⟨.loop, by rw [DriverNic.env, if_pos h, Option.getD_some], .inl rfl⟩
  · exact ⟨d.txLoc, by rw [DriverNic.env, if_neg h, Option.getD_none], .inr rfl⟩

/-- An operation of the driver does nothing to the NIC. -/
theorem act_frame {d d' : DriverNic} {e : DriverOp} {c : DriverChoice} {r : e.Res} (h : d.act e c = some (r, d')) :
    d'.nic = d.nic ∧ d'.sect = d.sect ∧ d'.call = d.call := by
  cases e with
  | readReg reg =>
    simp only [DriverNic.act, Option.ite_none_right_eq_some, Option.some.injEq, Prod.mk.injEq] at h
    obtain ⟨-, -, rfl⟩ := h
    exact ⟨rfl, rfl, rfl⟩
  | map len =>
    cases c with
    | mapped addr =>
      simp only [DriverNic.act, Option.ite_none_right_eq_some, Option.some.injEq, Prod.mk.injEq] at h
      obtain ⟨-, -, rfl⟩ := h
      exact ⟨rfl, rfl, rfl⟩
    | fails =>
      cases h
      exact ⟨rfl, rfl, rfl⟩
    | done => cases h
  | wait =>
    cases c with
    | done =>
      simp only [DriverNic.act, Option.ite_none_left_eq_some, Option.some.injEq, Prod.mk.injEq] at h
      obtain ⟨-, -, rfl⟩ := h
      exact ⟨rfl, rfl, rfl⟩
    | fails =>
      cases h
      exact ⟨rfl, rfl, rfl⟩
    | mapped addr => cases h
  | writeReg _ _ | unmap _ _ | store _ _ | setTxHead _ | complete =>
    cases h
    exact ⟨rfl, rfl, rfl⟩

/-- A wait that succeeds takes a completion. -/
theorem wait_taken {d d' : DriverNic} {c : DriverChoice} (h : d.act .wait c = some (true, d')) : d.completions ≠ 0 := by
  cases c with
  | done =>
    simp only [DriverNic.act, Option.ite_none_left_eq_some] at h
    exact h.1
  | fails => cases h
  | mapped addr => cases h

/-! ## In every run -/

/-- The bridge is set, and the DMA engine idle between two transfers. -/
structure Sound (nic : SmartNic) : Prop where
  bridge : nic.bridge = true
  busy : nic.dma.busy = false

variable {nic : SmartNic}

theorem Sound.stable : SmartNic.Stable Sound :=
  .of_setReg (fun _ _ h => ⟨h.bridge, h.busy⟩) (fun _ h => ⟨h.bridge, h.busy⟩) fun _ h => ⟨h.bridge, h.busy⟩

theorem Sound.processDmaBody (h : Sound nic) : nic.processDmaBody.Ensures fun x => Sound x.1 := by
  have hstart : (nic.dma.start nic.dmaReadBridge nic.dmaWriteBridge).Ensures fun x => x.1.busy = false := by
    rw [DmaEngine.start]
    split
    · exact h.busy
    dsimp only
    split
    · exact .bind (Prog.ensures_of_forall _ fun _ => rfl)
    · exact .bind (Prog.ensures_of_forall _ fun _ => rfl)
  rw [processDmaBody_eq]
  refine .bind (hstart.mono fun x hx => ?_)
  have hdone : Sound (nic.dmaDone x.1) := ⟨h.bridge, hx⟩
  split
  · exact .bind ((Sound.stable.raiseIrq hdone _ _).mono fun _ ht => ht)
  · exact hdone

theorem Sound.onMmioWrite (h : Sound nic) (addr : Addr) (data : Word) : Sound (nic.onMmioWrite addr data).1 := by
  rw [onMmioWrite_fst]
  dsimp only
  split
  · exact ⟨h.bridge, h.busy⟩
  · exact ⟨h.bridge, h.busy⟩

/-- A handler reads the causes first, and then no register. -/
def Handler (p : DriverM Unit) : Prop := p = irqHandler ∨ p.Does (fun e => ∀ reg, e ≠ .readReg reg) fun _ => True

theorem handler_read (irqSts : Word) : Handler (if irqSts = 0 then pure () else do
    writeReg REG_IRQ_STS irqSts
    completeIf irqSts IRQ_DMA_DONE
    completeIf irqSts IRQ_TX_DONE
    completeIf irqSts IRQ_RX
    completeIf irqSts IRQ_TEST) := by
  have hif : ∀ cause {p : DriverM Unit}, p.Does (fun e => ∀ reg, e ≠ .readReg reg) (fun _ => True) →
      (completeIf irqSts cause >>= fun _ => p).Does (fun e => ∀ reg, e ≠ .readReg reg) fun _ => True := by
    intro cause p hp
    rw [completeIf]
    split
    · exact ⟨nofun, fun _ => hp⟩
    · exact hp
  refine .inr ?_
  split
  · trivial
  · refine ⟨nofun, fun _ => hif _ (hif _ (hif _ ?_))⟩
    rw [completeIf]
    split
    · exact ⟨nofun, fun _ => trivial⟩
    · trivial

theorem Handler.op {e : DriverOp} {k : e.Res → DriverM Unit} (h : Handler (.op e k)) (r : e.Res) : Handler (k r) := by
  rcases h with h | h
  · cases h
    exact handler_read r
  · exact .inr (h.2 r)

/-- A handler that has found no cause. -/
theorem Handler.fresh {p : DriverM Unit} (h : Handler p) (hp : handling p = false) : p = irqHandler ∨ p = .ret () := by
  cases p with
  | ret r => exact .inr rfl
  | op e k =>
    rcases h with h | h
    · exact .inl h
    · cases e with
      | readReg reg => exact absurd rfl (h.1 reg)
      | _ => cases hp

/-- What holds in every run, whatever its conditions. -/
structure Fair (s : TestRun) : Prop where
  honest : s.honest = true
  handlers : ∀ p ∈ s.handlers, Handler p
  sound : Sound s.drv.nic
  sect : ∀ x, s.drv.sect = some x → x.rest.Ensures fun r => Sound r.1

/-- The NIC's side keeps it sound. -/
theorem sound_env {d d' : DriverNic} {e : DriverEvent} (hn : Sound d.nic)
    (hs : ∀ x, d.sect = some x → x.rest.Ensures fun r => Sound r.1) (h : d.env e = some d') :
    Sound d'.nic ∧ ∀ x, d'.sect = some x → x.rest.Ensures fun r => Sound r.1 := by
  have henter : ∀ {u : DriverNic} {th p}, u.enter th p = some d' → u.nic = d.nic →
      (p.Ensures fun r => Sound r.1) → Sound d'.nic ∧ ∀ x, d'.sect = some x → x.rest.Ensures fun r => Sound r.1 := by
    intro u th p hu hnic hp
    obtain ⟨-, rfl⟩ := DriverNic.enter_eq hu
    refine ⟨hnic.symm ▸ hn, fun x hx => ?_⟩
    cases hx
    exact hp
  cases e with
  | signal =>
    cases h
    exact ⟨hn, hs⟩
  | handle =>
    obtain ⟨hsect, w, rest, -, rfl⟩ := DriverNic.env_handle h
    exact ⟨hn.onMmioWrite _ _, fun x hx => by cases hsect.symm.trans hx⟩
  | nicOp r =>
    obtain ⟨th, e, k, hsect, rfl⟩ := DriverNic.env_nicOp h
    refine ⟨hn, fun x hx => ?_⟩
    cases hx
    exact hs _ hsect _
  | nicEnd =>
    obtain ⟨th, nic, again, hsect, rfl⟩ := DriverNic.env_nicEnd h
    have hr : Sound nic := hs _ hsect
    exact ⟨hr, nofun⟩
  | packet data => exact henter h rfl (.bind ((Sound.stable.onPacketRx hn data).mono fun _ ht => ht))
  | dmaCheck | txWake =>
    simp only [DriverNic.env, Option.ite_none_right_eq_some, Option.some.injEq] at h
    obtain ⟨-, rfl⟩ := h
    exact ⟨hn, hs⟩
  | processDma =>
    simp only [DriverNic.env, Option.ite_none_right_eq_some] at h
    exact henter h.2 rfl (.bind (hn.processDmaBody.mono fun _ ht => ht))
  | txIteration =>
    simp only [DriverNic.env, Option.ite_none_right_eq_some] at h
    exact henter h.2 rfl (.bind ((Sound.stable.processTxIteration hn).mono fun _ ht => ht))
  | txDone =>
    simp only [DriverNic.env, Option.ite_none_right_eq_some] at h
    exact henter h.2 rfl (.bind ((Sound.stable.processTxDone hn).mono fun _ ht => ht))

theorem Fair.env {e : TestEvent} (h : Fair s) (he : s.env e = some t) :
    Fair t ∧ (s.completed = true → t.completed = true) := by
  cases e with
  | interrupt =>
    cases he
    refine ⟨⟨h.honest, fun p hp => ?_, h.sound, h.sect⟩, id⟩
    rcases List.mem_append.mp hp with hp | hp
    · exact h.handlers p hp
    · exact .inl (List.mem_singleton.mp hp)
  | nic e =>
    rcases env_nic he with ⟨drv, -, -, hd, rfl⟩ | ⟨-, -, rfl⟩
    · obtain ⟨hn, hs⟩ := sound_env h.sound h.sect hd
      exact ⟨⟨h.honest, h.handlers, hn, hs⟩, fun hc => by simp only [after, see, hc, Bool.true_or]⟩
    · obtain ⟨loc, hd, -⟩ := txWake_getD s.drv
      rw [hd]
      exact ⟨⟨h.honest, h.handlers, h.sound, h.sect⟩, id⟩
  | handler i =>
    obtain ⟨e, k, r, drv, hi, ha, rfl⟩ := env_handler he
    obtain ⟨hn, hs, -⟩ := act_frame ha
    refine ⟨⟨h.honest, fun p hp => ?_, hn ▸ h.sound, fun x hx => h.sect x (hs ▸ hx)⟩, id⟩
    rcases List.mem_or_eq_of_mem_set hp with hp | rfl
    · exact h.handlers p hp
    · exact (h.handlers _ (List.mem_of_getElem? hi)).op r

theorem Fair.act {e : DriverOp} {c : DriverChoice} {r : e.Res} (h : Fair s) (ha : s.act e c = some (r, t)) :
    Fair t ∧ (s.completed = true → t.completed = true) := by
  obtain ⟨drv, hd, rfl⟩ := act_eq ha
  obtain ⟨hn, hs, -⟩ := act_frame hd
  exact ⟨⟨h.honest, h.handlers, hn ▸ h.sound, fun x hx => h.sect x (hs ▸ hx)⟩,
    fun hc => by simp only [see, hc, Bool.true_or]⟩

/-! ## In a test -/

theorem reg_irqSts (h : nic.reg SC_REG_IRQ_STS = 0) : nic.onMmioRead REG_IRQ_STS = 0 := h

/-- What a register write that starts nothing and raises nothing leaves of the NIC. -/
structure Passed (nic nic' : SmartNic) : Prop where
  causes : nic'.reg SC_REG_IRQ_STS = 0
  tail : nic'.reg SC_REG_TX_TAIL = nic.reg SC_REG_TX_TAIL
  dma : nic'.dma = nic.dma
  pending : nic'.dmaPending = nic.dmaPending

theorem Silent.ordinary {w : Addr × Word} (h : Silent w) : Ordinary w := by
  rcases h with h | h
  · exact h.ordinary
  · exact ⟨by rw [h]; decide, fun hr => absurd (h.symm.trans hr.1) (by decide)⟩

theorem Silent.ne {w : Addr × Word} (h : Silent w) {addr : Addr} (ha : addr ∈ SPECIAL_REGS) (hne : REG_IRQ_STS ≠ addr) :
    w.1 ≠ addr := by
  rcases h with h | h
  · exact h.ne ha
  · rw [h]
    exact hne

theorem Silent.passed {w : Addr × Word} (h : Silent w) (h0 : nic.reg SC_REG_IRQ_STS = 0) :
    Passed nic (nic.onMmioWrite w.1 w.2).1 := by
  rcases h with h | h
  · rw [h.onMmioWrite]
    exact ⟨(reg_setReg_ne (h.index_ne (by decide)).symm).trans h0, reg_setReg_ne (h.index_ne (by decide)).symm, rfl, rfl⟩
  · have hregs : (nic.regs.write w.1 w.2).1 = nic.regs.setReg (SC_REG_IRQ_STS >>> 2) (nic.regs.irqStatus &&& ~~~w.2) := by
      rw [h, RegBlock.write_of_not_reset _ fun hr => absurd hr.1 (by decide), if_neg (by decide),
        if_pos (show REG_IRQ_STS = SC_REG_IRQ_STS from rfl)]
    have hzero : nic.regs.irqStatus &&& ~~~w.2 = 0 := by
      rw [show nic.regs.irqStatus = 0 from h0]
      exact BitVec.zero_and
    rw [onMmioWrite_fst, hregs, hzero, h]
    dsimp only
    rw [if_neg fun hd => absurd hd.1 (by decide)]
    exact ⟨reg_setReg_self nic SC_REG_IRQ_STS 0, reg_setReg_ne (s := nic) (by decide), rfl, rfl⟩

theorem notifyTx_mem {addr : Addr} {data : Word} :
    NicOut.notifyTx ∈ (nic.onMmioWrite addr data).2 ↔ addr = SC_REG_TX_DOORBELL ∧ data ≠ 0 := by
  have hirq : ∀ b : Bool, NicOut.notifyTx ∉ (if b then [.irq 0] else []) := fun b => by cases b <;> simp
  rw [onMmioWrite_snd, List.mem_append, or_iff_left (hirq _)]
  split
  · rename_i h
    exact iff_of_true List.mem_cons_self h
  · rename_i h
    exact iff_of_false List.not_mem_nil h

/-- What the call knows between two of its operations. -/
structure Known where
  call : DriverCall
  cfg : List (Addr × Word)
  mem : GuestMem
  adapter : Option Adapter
  desc : Option Addr
  tail : Word
  /-- The write that gives the NIC the test's work, once it is posted. -/
  own : Option (Addr × Word)
  quiet : Prop

/-- What the NIC has of the test. -/
inductive Work where
  | nothing
  | transfer
  | frame (ring : Addr) (head : Word)

/-- No transfer is pending. -/
def NoTransfer (d : DriverNic) : Prop := d.nic.dmaPending = false ∧ d.dmaChecked = false

/-- `process_tx` waits, and is not notified. -/
def NoWake (d : DriverNic) (notified : Bool) : Prop := d.txLoc = .wait ∧ notified = false

/-- The test's transfer is pending. -/
structure Transfer (d : DriverNic) (started : Bool) : Prop where
  call : d.call = some .testDma
  started : started = true
  pending : d.nic.dmaPending = true
  len : d.nic.dma.len ≠ 0
  read : d.nic.dma.dirWrite = false

/-- The test's frame is rung for. -/
structure Frame (ring : Addr) (head : Word) (d : DriverNic) (desc : Option Addr) : Prop where
  call : d.call = some .testTx
  desc : desc = some (DescRing.entryAddr ring head.toNat)
  posted : d.posted = []
  ready : DriverNic.Ready ring head d.nic
  pending : d.nic.txPending = true
  base : ring ≠ 0
  own : (DescRing.entry ring d.mem head.toNat).own = true
  loc : d.txLoc ≠ .done

def Work.Has (d : DriverNic) (started notified : Bool) (desc : Option Addr) : Work → Prop
  | .nothing => NoTransfer d ∧ NoWake d notified
  | .transfer => Transfer d started ∧ NoWake d notified
  | .frame ring head => NoTransfer d ∧ Frame ring head d desc

/-- A section that drops a frame, or does the test's work. -/
inductive SectOk (g : Work) (d : DriverNic) : NicSect → Prop
  | drop (pkt : PktProc) : SectOk g d ⟨.rx, .ret ({ d.nic with pkt := pkt }, false)⟩
  | transfer (work : g = .transfer) {addr : Addr} {len : Word} {k : Option (List Byte) → NicM (SmartNic × Bool)} :
      SectOk g d ⟨.dma, .op (.dmaRead addr len) k⟩
  | frame {ring : Addr} {head : Word} (work : g = .frame ring head) {p : NicM (SmartNic × Bool)}
      (rest : DriverNic.Sends ring head d.mem d.nic p) : SectOk g d ⟨.tx, p⟩

/-- The test's operation is not completed, and no cause is raised: the NIC has `g` in hand. -/
structure Hushed (v : Known) (g : Work) (s : TestRun) : Prop where
  test : v.call.isTest = true
  banked : s.drv.completions = 0
  handlers : ∀ p ∈ s.handlers, p = irqHandler ∨ p = .ret ()
  causes : s.drv.nic.reg SC_REG_IRQ_STS = 0
  call : s.drv.call = some v.call
  mem : s.drv.mem = v.mem
  adapter : s.drv.adapter = v.adapter
  desc : s.desc = v.desc
  tail : s.drv.nic.reg SC_REG_TX_TAIL = v.tail
  posted : ∃ ws, s.drv.posted = ws ++ v.own.toList ∧ (∀ w ∈ ws, Silent w) ∧ s.before ≤ ws.length
  settled : ∀ c ∈ v.cfg, Plain c.1 ∧ s.drv.settled c.1 = c.2
  quiet : v.quiet → s.drv.posted = []
  work : g.Has s.drv s.started s.notified s.desc
  sect : ∀ x, s.drv.sect = some x → SectOk g s.drv x

/-- The NIC handles the write that gives it the test's work. -/
structure Hands (v : Known) (w : Addr × Word) (s t : TestRun) : Prop where
  own : v.own = some w
  posted : s.drv.posted = [w]
  first : s.before = 0
  sect : s.drv.sect = none
  after : t = s.after .handle { s.drv with nic := (s.drv.nic.onMmioWrite w.1 w.2).1, posted := [] }

/-! ### Steps of the NIC -/

variable {v : Known} {g : Work}

theorem after_other {e : DriverEvent} (h : e ≠ .handle) (drv : DriverNic) :
    s.after e drv = { s with drv := drv, completed := (s.after e drv).completed } := by
  have hstart : s.startsDma e = false := by
    cases e with
    | handle => exact absurd rfl h
    | _ => exact decide_eq_false fun hw => by simp [ownWrite] at hw
  have hnotify : s.notifies e = false := by
    cases e with
    | handle => exact absurd rfl h
    | _ => rfl
  cases e with
  | handle => exact absurd rfl h
  | _ => simp only [after, see, hstart, hnotify, Bool.or_false]

theorem completed_after {e : DriverEvent} {drv : DriverNic} (h : (s.after e drv).completed = false) :
    s.completed = false ∧ s.transfers e = false ∧ s.raises e = false ∧
      given { s with drv := drv } = false := by
  have h : (s.completed || s.transfers e || s.raises e || given { s with drv := drv }) = false := h
  simp only [Bool.or_eq_false_iff] at h
  obtain ⟨⟨⟨h₁, h₂⟩, h₃⟩, h₄⟩ := h
  exact ⟨h₁, h₂, h₃, h₄⟩

/-- A write that starts nothing and raises nothing. -/
theorem Hushed.handle_silent {w : Addr × Word} {ws rest : List (Addr × Word)} (h : Hushed v g s)
    (hsect : s.drv.sect = none) (hp : s.drv.posted = w :: rest) (hws : s.drv.posted = (w :: ws) ++ v.own.toList)
    (hsilent : ∀ x ∈ w :: ws, Silent x) (hbefore : s.before ≤ (w :: ws).length) :
    Hushed v g (s.after .handle { s.drv with nic := (s.drv.nic.onMmioWrite w.1 w.2).1, posted := rest }) := by
  have hw : Silent w := hsilent w List.mem_cons_self
  have hpass := hw.passed h.causes
  obtain ⟨-, hrest⟩ := List.cons.inj (hp.symm.trans hws)
  have hstart : s.startsDma .handle = false := by
    refine decide_eq_false fun ⟨_, x, hx, hd, _⟩ => ?_
    simp only [ownWrite, hp, List.head?_cons] at hx
    split at hx
    · cases hx
      exact hw.ne (by decide) (by decide) hd
    · cases hx
  have hnotify : s.notifies .handle = false := by
    refine decide_eq_false fun ⟨x, hx, hn⟩ => ?_
    simp only [hp, List.head?_cons] at hx
    cases hx
    exact hw.ne (by decide) (by decide) (notifyTx_mem.mp hn).1
  refine ⟨h.test, h.banked, h.handlers, hpass.causes, h.call, h.mem, h.adapter, h.desc, hpass.tail.trans h.tail,
    ⟨ws, hrest, fun x hx => hsilent x (List.mem_cons_of_mem _ hx), ?_⟩, fun c hc => ?_, fun hq => ?_, ?_, fun x hx => ?_⟩
  · rw [List.length_cons] at hbefore
    show s.before - 1 ≤ ws.length
    omega
  · obtain ⟨hplain, hval⟩ := h.settled c hc
    exact ⟨hplain, (DriverNic.settled_handle hplain hp hw.ordinary).trans hval⟩
  · cases hp.symm.trans (h.quiet hq)
  · have hwork := h.work
    show Work.Has _ (s.started || s.startsDma .handle) (s.notified || s.notifies .handle) s.desc g
    rw [hstart, hnotify, Bool.or_false, Bool.or_false]
    cases g with
    | nothing => exact ⟨⟨hpass.pending.trans hwork.1.1, hwork.1.2⟩, hwork.2⟩
    | transfer =>
      obtain ⟨⟨hcall, hst, hpend, hlen, hread⟩, hwake⟩ := hwork
      exact ⟨⟨hcall, hst, hpass.pending.trans hpend, hpass.dma.symm ▸ hlen, hpass.dma.symm ▸ hread⟩, hwake⟩
    | frame ring head => cases hp.symm.trans hwork.2.posted
  · cases hsect.symm.trans hx

/-- A section starts or goes on, or `process_dma` is past its check. -/
theorem Work.Has.moves {d : DriverNic} {st n : Bool} {a : Option Addr} (h : g.Has d st n a) {b : Bool}
    (hb : b = true → d.dmaChecked = true ∨ g = .transfer) (x : Option NicSect) :
    g.Has { d with dmaChecked := b, sect := x } st n a := by
  have hnone : NoTransfer d → g ≠ .transfer → NoTransfer { d with dmaChecked := b, sect := x } := by
    intro hd hg
    refine ⟨hd.1, Bool.eq_false_iff.mpr fun hbt => ?_⟩
    cases hd.2.symm.trans ((hb hbt).resolve_right hg)
  cases g with
  | nothing => exact ⟨hnone h.1 nofun, h.2⟩
  | transfer => exact ⟨{ h.1 with }, h.2⟩
  | frame ring head => exact ⟨hnone h.1 nofun, { h.2 with }⟩

/-- A section starts. -/
theorem Hushed.enter {th : NicThread} {p : NicM (SmartNic × Bool)} {b c : Bool} {d : DriverNic} (h : Hushed v g s)
    (hb : b = true → s.drv.dmaChecked = true) (he : { s.drv with dmaChecked := b }.enter th p = some d)
    (hp : SectOk g s.drv ⟨th, p⟩) : Hushed v g { s with drv := d, completed := c } := by
  obtain ⟨-, rfl⟩ := DriverNic.enter_eq he
  refine { h with work := h.work.moves (fun hbt => .inl (hb hbt)) _, sect := fun x hx => ?_ }
  cases hx
  cases hp with
  | drop pkt => exact .drop pkt
  | transfer work => exact .transfer work
  | frame work rest => exact .frame work rest

/-- A frame that the NIC does not take in. -/
theorem onPacketRx_drop {data : List Byte} (h : ¬ DriverNic.Takes nic data) :
    nic.onPacketRx data = pure { nic with pkt := (nic.pkt.receive data).1 } := by
  rw [onPacketRx]
  split
  · rfl
  rename_i hmatch
  rw [if_pos]
  by_contra hcfg
  exact h ⟨Bool.eq_true_of_not_eq_false fun hf => hmatch (congrArg not hf), hcfg⟩

/-- A transfer of the test begins with a read. -/
theorem processDmaBody_reads (hs : Sound nic) (hlen : nic.dma.len ≠ 0) (hread : nic.dma.dirWrite = false) :
    ∃ addr len k, (nic.processDmaBody >>= fun x => pure (x.1, false) : NicM (SmartNic × Bool)) =
      .op (.dmaRead addr len) k := by
  rw [processDmaBody_eq, DmaEngine.start, hs.busy, Bool.false_or, if_neg (beq_iff_eq.not.mpr hlen)]
  dsimp only
  rw [hread, if_neg Bool.false_ne_true, Prog.bind_assoc, Prog.bind_assoc, dmaReadBridge_bind hs.bridge]
  exact ⟨_, _, _, rfl⟩

/-- The next operation of a section: one of the test's work, which it may complete. -/
theorem Hushed.nicOp {d : DriverNic} (h : Hushed v g s) (hd : s.drv.env (.nicOp .moved) = some d)
    (hc : (s.after (.nicOp .moved) d).completed = false) : Hushed v g (s.after (.nicOp .moved) d) := by
  obtain ⟨-, htransfer, -, hgiven⟩ := completed_after hc
  rw [after_other (show DriverEvent.nicOp .moved ≠ .handle from nofun)]
  obtain ⟨th, e, k, hs, rfl⟩ := DriverNic.env_nicOp hd
  have hwork := h.work
  cases h.sect _ hs with
  | transfer work =>
    subst work
    simp only [transfers, hs, hwork.1.call, hwork.1.started, and_self, decide_true, Bool.true_eq_false] at htransfer
  | @frame ring head work p rest =>
    subst work
    have hf := hwork.2
    cases e with
    | dmaWrite a data =>
      have hmem : s.drv.mem.write a data = DriverNic.giveBack ring head s.drv.mem := rest.1
      refine absurd hgiven (Bool.not_eq_false _ ▸ decide_eq_true ⟨hf.call, _, hf.desc, ?_⟩)
      show (descAt (s.drv.mem.write a data) _).own = false ∧ (descAt (s.drv.mem.write a data) _).done = true
      rw [hmem, DriverNic.giveBack, descAt_write_self]
      exact ⟨SmartEthDesc.own_complete _, SmartEthDesc.done_complete _⟩
    | dmaRead _ _ | sendIrq _ | transmit _ =>
      refine { h with work := ⟨hwork.1, { hf with }⟩, sect := fun x hx => ?_ }
      cases hx
      exact .frame rfl rest

/-- A section ends that has dropped a frame. -/
theorem Hushed.nicEnd {d : DriverNic} {c : Bool} (h : Hushed v g s) (hd : s.drv.env .nicEnd = some d) :
    Hushed v g { s with drv := d, completed := c } := by
  obtain ⟨th, nic, again, hs, rfl⟩ := DriverNic.env_nicEnd hd
  have hwork := h.work
  cases h.sect _ hs with
  | drop pkt =>
    refine { h with work := ?_, sect := nofun }
    cases g with
    | nothing => exact hwork
    | transfer => exact ⟨{ hwork.1 with }, hwork.2⟩
    | frame ring head => exact ⟨hwork.1, { hwork.2 with ready := { hwork.2.ready with } }⟩
  | frame work rest => exact rest.elim

theorem Hushed.testing (h : Hushed v g s) : s.Testing := ⟨v.call, h.call, h.test⟩

/-- A step of the NIC, in a test that nothing disturbs: all is as before, its operation is completed, or it takes the
test's work. -/
theorem Hushed.env_nic {e : DriverEvent} (h : Hushed v g s) (hf : Fair s) (hok : Undisturbed s (.nic e))
    (he : s.env (.nic e) = some t) (hc : t.completed = false) : Hushed v g t ∨ ∃ w, Hands v w s t := by
  have hwork := h.work
  rcases TestRun.env_nic he with ⟨d, hsig, hwake, hd, rfl⟩ | ⟨rfl, hn, rfl⟩
  swap
  · -- only a frame of the test is notified
    obtain ⟨loc, hd, hloc⟩ := txWake_getD s.drv
    cases g with
    | nothing => cases hn.symm.trans hwork.2.2
    | transfer => cases hn.symm.trans hwork.2.2
    | frame ring head =>
      refine .inl ?_
      rw [hd]
      refine { h with work := ⟨hwork.1, { hwork.2 with loc := ?_ }⟩, sect := fun x hx => ?_ }
      · rcases hloc with rfl | rfl
        · exact TxLoc.noConfusion
        · exact hwork.2.loc
      · cases h.sect x hx with
        | drop pkt => exact .drop pkt
        | transfer work => exact .transfer work
        | frame work rest => exact .frame work rest
  by_cases hh : e = .handle
  · subst hh
    obtain ⟨hsect, w, rest, hp, rfl⟩ := DriverNic.env_handle hd
    obtain ⟨ws, hws, hsilent, hbefore⟩ := h.posted
    cases ws with
    | cons w' ws =>
      obtain ⟨rfl, -⟩ := List.cons.inj (hp.symm.trans hws)
      exact .inl (h.handle_silent hsect hp hws hsilent hbefore)
    | nil =>
      refine .inr ⟨w, ?_⟩
      cases hown : v.own with
      | none =>
        rw [hown] at hws
        cases hp.symm.trans hws
      | some w' =>
        rw [hown] at hws
        obtain ⟨rfl, rfl⟩ := List.cons.inj (hp.symm.trans hws)
        exact ⟨hown, hp, Nat.le_zero.mp hbefore, hsect, rfl⟩
  refine .inl ?_
  cases e with
  | handle => exact absurd rfl hh
  | signal => exact absurd rfl hsig
  | txWake => exact absurd rfl hwake
  | nicOp r =>
    obtain rfl : r = .moved := hok h.testing
    exact h.nicOp hd hc
  | nicEnd =>
    rw [after_other hh]
    exact h.nicEnd hd
  | packet data =>
    have hdrop := onPacketRx_drop (hok h.testing)
    rw [DriverNic.env, hdrop] at hd
    rw [after_other hh]
    exact h.enter id hd (.drop _)
  | dmaCheck =>
    simp only [DriverNic.env, Option.ite_none_right_eq_some, Option.some.injEq] at hd
    obtain ⟨⟨hpend, -⟩, rfl⟩ := hd
    rw [after_other hh]
    cases g with
    | nothing => cases hpend.symm.trans hwork.1.1
    | frame ring head => cases hpend.symm.trans hwork.1.1
    | transfer =>
      refine { h with work := hwork.moves (fun _ => .inr rfl) _, sect := fun x hx => ?_ }
      cases h.sect x hx with
      | drop pkt => exact .drop pkt
      | transfer work => exact .transfer work
      | frame work rest => exact .frame work rest
  | processDma =>
    simp only [DriverNic.env, Option.ite_none_right_eq_some] at hd
    obtain ⟨hcheck, hd⟩ := hd
    rw [after_other hh]
    cases g with
    | nothing => cases hcheck.symm.trans hwork.1.2
    | frame ring head => cases hcheck.symm.trans hwork.1.2
    | transfer =>
      obtain ⟨addr, len, k, hk⟩ := processDmaBody_reads hf.sound hwork.1.len hwork.1.read
      rw [hk] at hd
      exact h.enter (b := false) (fun hf => absurd hf Bool.false_ne_true) hd (.transfer rfl)
  | txIteration =>
    simp only [DriverNic.env, Option.ite_none_right_eq_some] at hd
    obtain ⟨hloc, hd⟩ := hd
    rw [after_other hh]
    cases g with
    | nothing => cases hloc.symm.trans hwork.2.1
    | transfer => cases hloc.symm.trans hwork.2.1
    | frame ring head =>
      obtain ⟨-, -, -, hready, hpend, hbase, hown, -⟩ := hwork.2
      refine h.enter id hd (.frame rfl (hready.sends hown hpend ?_))
      rw [hready.size, hready.doorbell, hready.base]
      rintro (hr | hr | hr)
      · cases hr
      · cases hr
      · exact hbase hr
  | txDone =>
    simp only [DriverNic.env, Option.ite_none_right_eq_some] at hd
    cases g with
    | nothing => cases hd.1.symm.trans hwork.2.1
    | transfer => cases hd.1.symm.trans hwork.2.1
    | frame ring head => exact absurd hd.1 hwork.2.loc

/-- Every step of the others in such a test. -/
theorem Hushed.env {e : TestEvent} (h : Hushed v g s) (hf : Fair s) (hok : Undisturbed s e) (he : s.env e = some t)
    (hc : t.completed = false) : Hushed v g t ∨ ∃ w, Hands v w s t := by
  cases e with
  | nic e => exact h.env_nic hf hok he hc
  | interrupt =>
    cases he
    refine .inl { h with handlers := fun p hp => ?_ }
    rcases List.mem_append.mp hp with hp | hp
    · exact h.handlers p hp
    · exact .inl (List.mem_singleton.mp hp)
  | handler i =>
    -- a handler finds no cause
    obtain ⟨e, k, r, d, hi, ha, rfl⟩ := env_handler he
    rcases h.handlers _ (List.mem_of_getElem? hi) with hp | hp
    · cases hp
      simp only [DriverNic.act, Option.ite_none_right_eq_some, Option.some.injEq, Prod.mk.injEq] at ha
      obtain ⟨-, rfl, rfl⟩ := ha
      refine .inl { h with handlers := fun p hp => ?_ }
      rcases List.mem_or_eq_of_mem_set hp with hp | rfl
      · exact h.handlers p hp
      · rw [reg_irqSts h.causes]
        exact .inr rfl
    · cases hp

end SmartEth.TestRun
