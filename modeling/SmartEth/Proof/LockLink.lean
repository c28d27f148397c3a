import SmartEth.System.LockLink

/-!
# Deadlock between the register lock and DMA answers

As long as no register message gets ahead of what clears `m_dma_pending`, the
socket thread comes to that whatever the lock does (`Ahead`), and there is no
deadlock (`no_deadlock`). After one that does, the two threads can deadlock
(`deadlock_of_crossing`), until the `dma_read` gives up (`deadlock_reached`).
-/

namespace SmartEth.LockLink

open PcieBridge

variable {s t : LockLink}

/-! ## Messages -/

theorem clears_dmaReadResp (data : List Byte) : clears (dmaReadResp data) = true := by
  rw [clears, dmaReadResp, kind_makeMsg]

/-- What clears the flag needs no lock. -/
theorem needsLock_of_clears {m : Msg} (h : clears m = true) : needsLock m = false := by
  unfold clears at h
  unfold needsLock
  split at h <;> simp_all

/-- What QEMU sends in answer needs no lock. -/
theorem needsLock_sent (q : ScBridge) (mem : GuestMem) (m : Msg) :
    ∀ r ∈ (q.handleMsg mem m).sent, needsLock r = false := by
  intro r hr
  refine needsLock_of_clears ?_
  rcases ScBridge.kind_sent q mem hr with hk | hk <;> simp [clears, hk]

/-- A message that needs no lock changes only what `dma_read` waits for. -/
theorem handleMessage_of_not_needsLock (b : PcieBridge) (nic : SmartNic) {m : Msg} (h : needsLock m = false) :
    (b.handleMessage nic m).nic = nic ∧ (b.handleMessage nic m).sent = [] ∧
      (b.handleMessage nic m).bridge.dmaPending = (b.dmaPending && !clears m) := by
  unfold needsLock at h
  unfold handleMessage clears
  split <;> simp_all

theorem passable_append (q q' : List (Option Nat × Msg)) :
    passable (q ++ q') = (passable q && (q.any (clears ·.2) || passable q')) := by
  induction q with
  | nil => rfl
  | cons x q ih =>
    rw [List.cons_append, passable, passable, ih, List.any_cons]
    cases clears x.2 <;> cases needsLock x.2 <;> simp

theorem passable_of_not_needsLock {q : List (Option Nat × Msg)} (h : ∀ x ∈ q, needsLock x.2 = false) :
    passable q = true := by
  induction q with
  | nil => rfl
  | cons x q ih =>
    rw [passable, h x List.mem_cons_self, ih fun y hy => h y (List.mem_cons_of_mem _ hy)]
    exact Bool.or_true _

/-- Where the socket thread comes to wait. -/
theorem exists_of_not_passable {q : List (Option Nat × Msg)} (h : passable q = false) :
    ∃ pre x post, q = pre ++ x :: post ∧ needsLock x.2 = true ∧
      ∀ y ∈ pre, needsLock y.2 = false ∧ clears y.2 = false := by
  induction q with
  | nil => cases h
  | cons x q ih =>
    rw [passable, Bool.or_eq_false_iff, Bool.and_eq_false_iff, Bool.not_eq_false'] at h
    obtain ⟨hc, hn | hp⟩ := h
    · exact ⟨[], x, q, rfl, hn, nofun⟩
    · cases hn : needsLock x.2 with
      | true => exact ⟨[], x, q, rfl, hn, nofun⟩
      | false =>
        obtain ⟨pre, y, post, rfl, hy, hpre⟩ := ih hp
        refine ⟨x :: pre, y, post, rfl, hy, fun z hz => ?_⟩
        rcases List.mem_cons.mp hz with rfl | hz
        · exact ⟨hn, hc⟩
        · exact hpre z hz

/-! ## What is ahead of an answer -/

/-- What clears `m_dma_pending` for request `num` comes to the socket thread, and
nothing that needs the lock before it. -/
structure Ahead (l : Link) (num : Nat) : Prop where
  pass : passable l.fromQemu = true
  comes : (∃ x ∈ l.fromQemu, clears x.2 = true) ∨ ∃ addr len, (num, dmaReadReq addr len) ∈ l.toQemu

/-- While a call waits, the socket thread does not, and nothing is ahead of what
ends the wait. -/
def Clear (s : LockLink) : Prop :=
  ∀ num, s.waiting = some num → s.link.bridge.dmaPending = true → s.blocked = none ∧ Ahead s.link num

theorem clear_of_not_waiting (h : s.waiting = none) : Clear s := fun num hw => by
  rw [h] at hw; cases hw

theorem Ahead.qemu {l l' : Link} {num : Nat} (h : Ahead l num) (hq : l.qemuStep = some l') : Ahead l' num := by
  unfold Link.qemuStep at hq
  split at hq
  · simp at hq
  · rename_i k m rest hto
    cases hq
    have hsent : passable ((l.qemu.handleMsg l.mem m).sent.map (some k, ·)) = true := by
      refine passable_of_not_needsLock fun x hx => ?_
      obtain ⟨r, hr, rfl⟩ := List.mem_map.mp hx
      exact needsLock_sent _ _ _ r hr
    refine ⟨?_, ?_⟩
    · dsimp only
      rw [passable_append, h.pass, hsent, Bool.or_true]; rfl
    · rcases h.comes with ⟨x, hx, hc⟩ | ⟨addr, len, hr⟩
      · exact .inl ⟨x, List.mem_append_left _ hx, hc⟩
      · rw [hto] at hr
        rcases List.mem_cons.mp hr with e | hr
        · -- the request is answered
          cases e
          refine .inl ⟨(some num, dmaReadResp (l.mem.read addr (ScBridge.dmaLen len))), ?_, clears_dmaReadResp _⟩
          refine List.mem_append_right _ ?_
          rw [ScBridge.handleMsg_dmaReadReq]
          exact List.mem_singleton_self _
        · exact .inr ⟨addr, len, hr⟩

/-- The next message for the socket thread needs no lock. -/
theorem Ahead.head {l : Link} {num : Nat} {x : Option Nat × Msg} {rest : List (Option Nat × Msg)}
    (h : Ahead l num) (hq : l.fromQemu = x :: rest) : needsLock x.2 = false := by
  have hp := h.pass
  rw [hq, passable, Bool.or_eq_true, Bool.and_eq_true, Bool.not_eq_true'] at hp
  rcases hp with hc | ⟨hn, -⟩
  · exact needsLock_of_clears hc
  · exact hn

/-- The socket thread handles a message that needs no lock. -/
theorem recv_of_not_needsLock {l : Link} {x : Option Nat × Msg} {rest : List (Option Nat × Msg)}
    (hq : l.fromQemu = x :: rest) (hm : needsLock x.2 = false) :
    ∃ l', l.recv = some l' ∧ l'.fromQemu = rest ∧ l'.toQemu = l.toQemu ∧
      l'.bridge.dmaPending = (l.bridge.dmaPending && !clears x.2) := by
  obtain ⟨hnic, hsent, hpend⟩ := handleMessage_of_not_needsLock l.bridge l.nic hm
  refine ⟨{ l with bridge := (l.bridge.handleMessage l.nic x.2).bridge, fromQemu := rest }, ?_, rfl, rfl, hpend⟩
  simp only [Link.recv, hq, hnic, hsent, List.foldl_nil]

/-- If the call still waits, the message was not what it waits for. -/
theorem Ahead.recv {l l' : Link} {num : Nat} {x : Option Nat × Msg} {rest : List (Option Nat × Msg)}
    (h : Ahead l num) (hq : l.fromQemu = x :: rest) (hto : l'.toQemu = l.toQemu) (hfrom : l'.fromQemu = rest)
    (hc : clears x.2 = false) : Ahead l' num := by
  have hp := h.pass
  rw [hq, passable, hc, Bool.false_or, Bool.and_eq_true] at hp
  refine ⟨hfrom ▸ hp.2, ?_⟩
  rcases h.comes with ⟨y, hy, hyc⟩ | hr
  · rw [hq] at hy
    rcases List.mem_cons.mp hy with rfl | hy
    · rw [hc] at hyc; cases hyc
    · exact .inl ⟨y, hfrom ▸ hy, hyc⟩
  · exact .inr (hto ▸ hr)

/-! ## Runs that keep apart -/

structure Inv (s : LockLink) : Prop where
  clear : Clear s
  idle : s.holder = none → s.waiting = none

theorem Inv.goOn (s : LockLink) (p : NicM SmartNic) (l : Link) : Inv { s.goOn p with link := l } :=
  ⟨clear_of_not_waiting rfl, fun _ => rfl⟩

theorem Inv.step {e : LockLinkEvent} (h : Inv s) (hok : Apart s e) (he : s.step e = some t) : Inv t := by
  cases e with
  | enter sec =>
    simp only [LockLink.step] at he
    split at he <;> cases he
    exact .goOn s _ _
  | readSend =>
    simp only [LockLink.step] at he
    split at he
    · rename_i addr len k hh _
      rw [Option.ite_none_right_eq_some, Option.some.injEq] at he
      obtain ⟨-, rfl⟩ := he
      refine ⟨fun num hn _ => ⟨hok.1, hok.2, .inr ⟨addr, len, ?_⟩⟩, fun hn => by rw [hh] at hn; cases hn⟩
      obtain rfl := Option.some.inj hn
      exact List.mem_append_right _ (List.mem_singleton_self _)
    · simp at he
  | readUnsent =>
    simp only [LockLink.step] at he
    split at he <;> cases he
    exact .goOn s _ _
  | readReturn | readTimeout =>
    simp only [LockLink.step] at he
    split at he
    · split at he <;> cases he
      exact .goOn s _ _
    · simp at he
  | write ok | irq | transmit =>
    simp only [LockLink.step] at he
    split at he <;> cases he
    exact .goOn s _ _
  | leave =>
    simp only [LockLink.step] at he
    split at he <;> cases he
    exact ⟨clear_of_not_waiting rfl, fun _ => rfl⟩
  | qemu =>
    simp only [LockLink.step, Option.map_eq_some_iff] at he
    obtain ⟨l, hl, rfl⟩ := he
    have hb : l.bridge = s.link.bridge := by
      unfold Link.qemuStep at hl
      split at hl <;> cases hl
      rfl
    refine ⟨fun num hn hp => ?_, h.idle⟩
    dsimp only at hn hp
    rw [hb] at hp
    obtain ⟨h1, h2⟩ := h.clear num hn hp
    exact ⟨h1, h2.qemu hl⟩
  | register m =>
    simp only [LockLink.step, Option.ite_none_right_eq_some, Option.some.injEq] at he
    obtain ⟨-, rfl⟩ := he
    refine ⟨fun num hn hp => ?_, h.idle⟩
    obtain ⟨h1, h2⟩ := h.clear num hn hp
    have hc : ∃ x ∈ s.link.fromQemu, clears x.2 = true := by
      rcases hok num hn hp with ha | hc
      · refine h2.comes.resolve_right fun hr => ?_
        obtain ⟨addr, len, hr⟩ := hr
        exact ha _ hr rfl
      · exact hc
    obtain ⟨x, hx, hxc⟩ := hc
    refine ⟨h1, ?_, .inl ⟨x, List.mem_append_left _ hx, hxc⟩⟩
    dsimp only
    rw [passable_append, h2.pass, List.any_eq_true.mpr ⟨x, hx, hxc⟩]; rfl
  | take =>
    simp only [LockLink.step] at he
    split at he
    · rename_i n m rest hb hfrom
      split at he
      · rename_i hm
        cases he
        refine ⟨fun num hn hp => ?_, h.idle⟩
        have := (h.clear num hn hp).2.head hfrom
        rw [hm] at this
        cases this
      · rename_i hm
        obtain ⟨l, hl, hfrom', hto, hpend⟩ := recv_of_not_needsLock hfrom (by simpa using hm)
        rw [hl, Option.map_some, Option.some.injEq] at he
        subst he
        refine ⟨fun num hn hp => ⟨hb, ?_⟩, h.idle⟩
        dsimp only at hp
        rw [hpend, Bool.and_eq_true, Bool.not_eq_true'] at hp
        exact (h.clear num hn hp.1).2.recv hfrom hto hfrom' hp.2
    · simp at he
  | handle =>
    simp only [LockLink.step] at he
    split at he
    · rename_i m hb hh
      cases he
      exact ⟨clear_of_not_waiting (h.idle hh), h.idle⟩
    · simp at he

/-- Once the request is answered, the socket thread alone ends the wait. -/
theorem take_until_answered {num : Nat} (l : List (Option Nat × Msg)) :
    ∀ {s : LockLink}, s.link.fromQemu = l → s.blocked = none → Ahead s.link num →
      (∀ x ∈ s.link.toQemu, x.1 ≠ num) →
      ∃ k t, run LockLink.step s (List.replicate k .take) = some t ∧ t.link.bridge.dmaPending = false := by
  induction l with
  | nil =>
    intro s hl _ h ha
    rcases h.comes with ⟨x, hx, -⟩ | ⟨addr, len, hr⟩
    · rw [hl] at hx; cases hx
    · exact absurd rfl (ha _ hr)
  | cons x rest ih =>
    intro s hl hb h ha
    have hm := h.head hl
    obtain ⟨l', hrecv, hfrom, hto, hpend⟩ := recv_of_not_needsLock hl hm
    have hstep : s.step .take = some { s with link := l' } := by
      simp only [LockLink.step, hb, hl, hm, Bool.false_eq_true, ite_false, hrecv, Option.map_some]
    cases hc : clears x.2 with
    | true =>
      refine ⟨1, _, run_cons_some.mpr ⟨_, hstep, rfl⟩, ?_⟩
      rw [hpend, hc]; exact Bool.and_false _
    | false =>
      obtain ⟨k, t, hr, ht⟩ := ih (s := { s with link := l' }) hfrom hb (h.recv hl hto hfrom hc)
        (by rw [hto]; exact ha)
      exact ⟨k + 1, t, run_cons_some.mpr ⟨_, hstep, hr⟩, ht⟩

/-! ## Runs that do not -/

/-- QEMU comes to a request. -/
theorem qemu_until_answered {num : Nat} {addr : Addr} {len : Word} (q : List (Nat × Msg)) :
    ∀ {s : LockLink}, s.link.toQemu = q → (num, dmaReadReq addr len) ∈ q →
      ∃ k t, run LockLink.step s (List.replicate k .qemu) = some t ∧ t.waiting = s.waiting ∧
        t.blocked = s.blocked ∧ t.link.bridge = s.link.bridge ∧
        ∃ r ∈ t.link.fromQemu, r.1 = some num ∧ r.2.kind = some .dmaRead := by
  induction q with
  | nil =>
    intro s _ h
    cases h
  | cons x rest ih =>
    intro s hq h
    obtain ⟨n, m⟩ := x
    have hstep : ∃ l, s.step .qemu = some { s with link := l } ∧ l.toQemu = rest ∧
        l.bridge = s.link.bridge ∧
        l.fromQemu = s.link.fromQemu ++ (s.link.qemu.handleMsg s.link.mem m).sent.map (some n, ·) := by
      simp only [LockLink.step, Link.qemuStep, hq, Option.map_some]
      exact ⟨_, rfl, rfl, rfl, rfl⟩
    obtain ⟨l, hs, hto, hb, hfrom⟩ := hstep
    rcases List.mem_cons.mp h with e | h
    · cases e
      refine ⟨1, _, run_cons_some.mpr ⟨_, hs, rfl⟩, rfl, rfl, hb,
        (some num, dmaReadResp (s.link.mem.read addr (ScBridge.dmaLen len))), ?_, rfl, kind_makeMsg _ _⟩
      dsimp only
      rw [hfrom, ScBridge.handleMsg_dmaReadReq]
      exact List.mem_append_right _ (List.mem_singleton_self _)
    · obtain ⟨k, t, hr, hw, hbl, hbr, ht⟩ := ih (s := { s with link := l }) hto h
      exact ⟨k + 1, t, run_cons_some.mpr ⟨_, hs, hr⟩, hw, hbl, hbr.trans hb, ht⟩

/-- The socket thread comes to wait for the lock. -/
theorem take_until_blocked {x : Option Nat × Msg} {post : List (Option Nat × Msg)}
    (hx : needsLock x.2 = true) (pre : List (Option Nat × Msg)) :
    ∀ {s : LockLink}, s.link.fromQemu = pre ++ x :: post → s.blocked = none →
      (∀ y ∈ pre, needsLock y.2 = false ∧ clears y.2 = false) →
      ∃ k t, run LockLink.step s (List.replicate k .take) = some t ∧ t.blocked ≠ none ∧
        t.waiting = s.waiting ∧ t.link.bridge.dmaPending = s.link.bridge.dmaPending ∧
        t.link.toQemu = s.link.toQemu := by
  induction pre with
  | nil =>
    intro s hq hb _
    have hstep : s.step .take = some { s with link := { s.link with fromQemu := post }, blocked := some x.2 } := by
      simp only [LockLink.step, hb, hq, List.nil_append, hx, ite_true]
    exact ⟨1, _, run_cons_some.mpr ⟨_, hstep, rfl⟩, Option.some_ne_none _, rfl, rfl, rfl⟩
  | cons y pre ih =>
    intro s hq hb h
    obtain ⟨hn, hc⟩ := h y List.mem_cons_self
    obtain ⟨l, hrecv, hfrom, hto, hpend⟩ := recv_of_not_needsLock hq hn
    have hstep : s.step .take = some { s with link := l } := by
      simp only [LockLink.step, hb, hq, List.cons_append, hn, Bool.false_eq_true, ite_false, hrecv,
        Option.map_some]
    rw [hc, Bool.not_false, Bool.and_true] at hpend
    obtain ⟨k, t, hr, hbl, hw, hp, hq'⟩ := ih (s := { s with link := l }) hfrom hb
      fun z hz => h z (List.mem_cons_of_mem _ hz)
    exact ⟨k + 1, t, run_cons_some.mpr ⟨_, hstep, hr⟩, hbl, hw, hp.trans hpend, hq'.trans hto⟩

/-- A call waits for an answer that QEMU has yet to give. -/
structure Asked (s : LockLink) (num : Nat) : Prop where
  waiting : s.waiting = some num
  pending : s.link.bridge.dmaPending = true
  req : ∃ addr len, (num, dmaReadReq addr len) ∈ s.link.toQemu

/-- The socket thread waits already. -/
theorem Asked.deadlock {num : Nat} (h : Asked s num) (hb : s.blocked ≠ none) :
    ∃ es u, run LockLink.step s es = some u ∧ Deadlock u := by
  obtain ⟨addr, len, hr⟩ := h.req
  obtain ⟨k, u, hu, hw, hbl, hbr, ha⟩ := qemu_until_answered _ rfl hr
  exact ⟨_, u, hu, num, hw.trans h.waiting, by rw [hbr]; exact h.pending, by rw [hbl]; exact hb, ha⟩

/-- It comes to wait before the flag is cleared. -/
theorem Asked.deadlock_of_not_passable {num : Nat} (h : Asked s num) (hb : s.blocked = none)
    (hp : passable s.link.fromQemu = false) : ∃ es u, run LockLink.step s es = some u ∧ Deadlock u := by
  obtain ⟨pre, x, post, hq, hx, hpre⟩ := exists_of_not_passable hp
  obtain ⟨k, t, hr, hbl, hw, hpend, hto⟩ := take_until_blocked hx pre hq hb hpre
  have ht : Asked t num := ⟨hw.trans h.waiting, hpend.trans h.pending, by rw [hto]; exact h.req⟩
  obtain ⟨es, u, hu, hd⟩ := ht.deadlock hbl
  exact ⟨_, u, run_append_some hr hu, hd⟩

/-- After a step that does not keep apart, the threads can deadlock. -/
theorem deadlock_of_crossing {e : LockLinkEvent} (h : Inv s) (hok : ¬ Apart s e) (he : s.step e = some t) :
    ∃ es u, run LockLink.step t es = some u ∧ Deadlock u := by
  cases e with
  | readSend =>
    simp only [LockLink.step] at he
    split at he
    · rename_i addr len k hh _
      rw [Option.ite_none_right_eq_some, Option.some.injEq] at he
      obtain ⟨-, rfl⟩ := he
      have ha : Asked { s with
          link := { s.link with bridge := s.link.bridge.dmaReadBegin }.send (dmaReadReq addr len)
          waiting := some s.link.count } s.link.count :=
        ⟨rfl, rfl, addr, len, List.mem_append_right _ (List.mem_singleton_self _)⟩
      by_cases hb : s.blocked = none
      · exact ha.deadlock_of_not_passable hb (Bool.eq_false_iff.mpr fun hp => hok ⟨hb, hp⟩)
      · exact ha.deadlock hb
    · simp at he
  | register m =>
    simp only [LockLink.step, Option.ite_none_right_eq_some, Option.some.injEq] at he
    obtain ⟨hm, rfl⟩ := he
    simp only [Apart, not_forall, not_or, not_exists, not_and] at hok
    obtain ⟨num, hn, hp, ⟨x, hx, hxn⟩, hc⟩ := hok
    obtain ⟨hb, ha⟩ := h.clear num hn hp
    have hreq : ∃ addr len, (num, dmaReadReq addr len) ∈ s.link.toQemu := by
      refine ha.comes.resolve_left fun hcl => ?_
      obtain ⟨y, hy, hyc⟩ := hcl
      exact hc y hy hyc
    have hask : Asked { s with link := { s.link with fromQemu := s.link.fromQemu ++ [(none, m)] } } num :=
      ⟨hn, hp, hreq⟩
    refine hask.deadlock_of_not_passable hb ?_
    have hany : s.link.fromQemu.any (clears ·.2) = false :=
      List.any_eq_false.mpr fun y hy => by simpa using hc y hy
    have hcm : clears m = false := Bool.eq_false_iff.mpr fun e => by
      rw [needsLock_of_clears e] at hm; cases hm
    dsimp only
    rw [passable_append, hany, Bool.false_or, passable, hcm, hm]
    exact Bool.and_false _
  | _ => exact absurd trivial hok

/-- In every state of a run in which no register message gets ahead of what ends
a wait, there is no deadlock; from every one in which the request that a
`dma_read` waits for is answered, the socket thread alone ends the wait; and
after every step that lets a register message get ahead, the threads can
deadlock. -/
theorem no_deadlock {es : List LockLinkEvent} (h0 : Start s) (hok : Along step Apart s es)
    (h : run step s es = some t) : ¬ Deadlock t ∧
      (∀ num, t.waiting = some num → (∀ x ∈ t.link.toQemu, x.1 ≠ num) →
        ∃ k u, run step t (List.replicate k .take) = some u ∧ u.link.bridge.dmaPending = false) ∧
      ∀ e u, t.step e = some u → ¬ Apart t e → ∃ es v, run step u es = some v ∧ Deadlock v := by
  have hi : Inv t := run_inv_along (fun _ _ _ hi hok he => Inv.step hi hok he)
    ⟨clear_of_not_waiting h0.waiting, fun _ => h0.waiting⟩ hok h
  refine ⟨?_, fun num hn ha => ?_, fun e u he hne => deadlock_of_crossing hi hne he⟩
  · rintro ⟨num, hn, hp, hb, -⟩
    exact hb (hi.clear num hn hp).1
  · cases hp : t.link.bridge.dmaPending with
    | false => exact ⟨0, t, rfl, hp⟩
    | true =>
      obtain ⟨hb, hahead⟩ := hi.clear num hn hp
      exact take_until_answered _ rfl hb hahead ha

/-- Connected, with a receive ring of one at `0x1000`. -/
def exampleStart : LockLink where
  link :=
    { bridge := ⟨true, false, []⟩
      nic := { ((SmartNic.new.setReg SC_REG_RX_RING_BASE_LO 0x1000).setReg SC_REG_RX_RING_SIZE 1) with
        bridge := true }
      qemu := ⟨true, true, false, 0, 0, fun _ => 0⟩, mem := fun _ => 0, toQemu := [], fromQemu := []
      count := 0 }
  holder := none
  waiting := none
  blocked := none

theorem exampleStart_start : Start exampleStart := ⟨rfl, rfl, rfl⟩

/-- A register read that is handled before a broadcast frame comes in, and one that QEMU sends after its answer to the
read of the frame's descriptor: the socket thread has passed the answer on and waits for the lock. -/
def exampleApart : List LockLinkEvent :=
  [.register (mmioReadReq SC_REG_STATUS), .take, .handle, .enter (.packetRx (List.replicate 14 0xff)), .readSend,
    .qemu, .qemu, .register (mmioReadReq SC_REG_DEV_ID), .take, .take]

theorem no_deadlock_registers : ∃ t, run step exampleStart exampleApart = some t ∧
    (t.waiting, t.link.bridge.dmaPending, t.blocked.isSome) = (some 1, false, true) ∧ ¬ Deadlock t := by
  have hr : ((run (checked step Apart) exampleStart exampleApart).map fun t =>
      (t.waiting, t.link.bridge.dmaPending, t.blocked.isSome)) = some (some 1, false, true) := by decide +kernel
  obtain ⟨t, ht, he⟩ := Option.map_eq_some_iff.mp hr
  obtain ⟨hok, ht⟩ := run_checked.mp ht
  exact ⟨t, ht, he, (no_deadlock exampleStart_start hok ht).1⟩

/-- The guest reads a register before QEMU answers. -/
def exampleDeadlock : List LockLinkEvent :=
  [.enter (.packetRx (List.replicate 14 0xff)), .readSend, .register (mmioReadReq SC_REG_STATUS), .qemu, .take]

/-- The answer is behind the register read, the socket thread can neither handle
that nor take the next, and the `dma_read` can only time out. -/
theorem deadlock_reached : ∃ t, run step exampleStart exampleDeadlock = some t ∧ Deadlock t ∧
    t.step .take = none ∧ t.step .handle = none ∧ t.step .readReturn = none ∧
    (t.step .readTimeout).isSome = true := by
  have hr : ((run step exampleStart exampleDeadlock).map fun t =>
      ((t.waiting, t.link.bridge.dmaPending, t.blocked.isSome),
        t.link.fromQemu.any fun r => r.1 = some 0 ∧ r.2.kind = some .dmaRead)) =
      some ((some 0, true, true), true) := by decide +kernel
  have hs : ((run step exampleStart exampleDeadlock).map fun t => ((t.step .take).isSome,
      (t.step .handle).isSome, (t.step .readReturn).isSome, (t.step .readTimeout).isSome)) =
      some (false, false, false, true) := by decide +kernel
  obtain ⟨t, ht, he⟩ := Option.map_eq_some_iff.mp hr
  simp only [ht, Option.map_some, Option.some.injEq, Prod.mk.injEq, Option.isSome_eq_false_iff,
    Option.isNone_iff_eq_none] at hs
  simp only [Prod.mk.injEq, List.any_eq_true, decide_eq_true_eq] at he
  obtain ⟨⟨h1, h2, h3⟩, h4⟩ := he
  refine ⟨t, ht, ⟨0, h1, h2, fun hn => ?_, h4⟩, hs⟩
  rw [hn] at h3
  cases h3

end SmartEth.LockLink
