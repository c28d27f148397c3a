import SmartEth.Proof.TxRing

/-!
# Doorbells

`TX_DOORBELL` is overwritten by the host and counted down by the NIC. With the
driver's host, the doorbell writes handled are the descriptors completed, what
the register still counts, and what later writes overwrote in it (`Served`). So
where `process_tx` has come to rest, all the descriptors rung for are sent if and
only if every doorbell write found the register 0 (`sent_iff_doorbell_zero`).
-/

namespace SmartEth.TxRing

open SmartNic DescRing

variable {base : Addr} {n : Nat} {s : TxRing}

/-- No more doorbell writes than frames, each of them a 1. -/
structure Rung (s : TxRing) : Prop where
  le : s.handled + s.rung.length ≤ s.posted.length
  one : ∀ val ∈ s.rung, val = 1

theorem Rung.env {e : TxHost} {t : TxRing} (h : Rung s) (he : TxRing.env base n true s e = some t) :
    Rung t := by
  cases e with
  | post d =>
    simp only [TxRing.env, Option.ite_none_right_eq_some, Option.some.injEq] at he
    obtain ⟨-, rfl⟩ := he
    refine ⟨?_, h.one⟩
    have := h.le
    simp only [hostStore, List.length_append]
    omega
  | write a bs =>
    simp only [TxRing.env, Option.ite_none_right_eq_some, Option.some.injEq] at he
    obtain ⟨-, rfl⟩ := he
    exact ⟨h.le, h.one⟩
  | ring v =>
    simp only [TxRing.env, ite_true, Option.ite_none_right_eq_some, Option.some.injEq] at he
    obtain ⟨⟨rfl, hlt⟩, rfl⟩ := he
    constructor
    · simp only [List.length_append, List.length_singleton]
      omega
    · intro val hv
      rcases List.mem_append.mp hv with hv | hv
      · exact h.one val hv
      · exact List.mem_singleton.mp hv

theorem Rung.act {e : NicOp} {c : Unit} {r : e.Res} {t : TxRing} (h : Rung s)
    (ha : TxRing.act s e c = some (r, t)) : Rung t := by
  cases e <;> simp only [TxRing.act, Option.some.injEq, Prod.mk.injEq] at ha <;>
    obtain ⟨-, rfl⟩ := ha <;> exact ⟨h.le, h.one⟩

/-- Between passes: every doorbell write handled is accounted for, and while the
doorbell is not 0 `process_tx` is in its loop or will be woken. -/
structure Served (base : Addr) (n : Nat) (s : TxRing) : Prop where
  idle : Idle base n s
  rung : Rung s
  count : s.handled = s.completed + (s.nic.reg SC_REG_TX_DOORBELL).toNat + s.merged
  live : s.nic.reg SC_REG_TX_DOORBELL ≠ 0 → s.nic.txPending = true ∧ (s.loc = .loop ∨ s.notified = true)

namespace Served

theorem of_kept {t : TxRing} (h : Served base n s) (hi : Idle base n t) (hr : Rung t) (hk : Kept s t) :
    Served base n t := by
  refine ⟨hi, hr, ?_, ?_⟩
  · rw [hk.handled, hk.completed, hk.nic, hk.merged]; exact h.count
  · rw [hk.nic, hk.loc, hk.notified]; exact h.live

theorem env (hn : 0 < n) (hn' : n < 2 ^ 32) {e : TxHost} {t : TxRing} (h : Served base n s)
    (he : TxRing.env base n true s e = some t) : Served base n t :=
  h.of_kept (h.idle.env hn hn' he) (h.rung.env he) (.env he)

theorem idle_step {e : TxIdle} {t : TxRing} (h : Served base n s) (he : TxRing.idle s e = some t) :
    Served base n t := by
  have hi := h.idle.idle he
  cases e with
  | doorbell =>
    rcases hr : s.rung with _ | ⟨val, rest⟩
    · simp only [TxRing.idle, hr] at he; cases he
    · have hle := h.rung.le
      have hone := h.rung.one
      rw [hr] at hle hone
      obtain rfl := hone val (List.mem_cons_self ..)
      simp only [TxRing.idle, hr, onMmioWrite_doorbell, Option.some.injEq] at he
      subst he
      have hreg : (s.nic.setReg SC_REG_TX_DOORBELL 1).reg SC_REG_TX_DOORBELL = 1 :=
        reg_setReg_self _ _ _
      refine ⟨hi, ⟨?_, fun v hv => hone v (List.mem_cons_of_mem _ hv)⟩, ?_, fun _ => ⟨?_, .inr ?_⟩⟩
      · simp only [List.length_cons] at hle ⊢
        omega
      · have hc := h.count
        have h1 : (1 : Word).toNat = 1 := rfl
        show s.handled + 1 = s.completed + ((s.nic.setReg SC_REG_TX_DOORBELL 1).reg _).toNat +
          (s.merged + (s.nic.reg SC_REG_TX_DOORBELL).toNat)
        rw [hreg, h1]
        omega
      · exact Bool.or_true _
      · exact Bool.or_true _
  | wake =>
    simp only [TxRing.idle, Option.ite_none_right_eq_some, Option.some.injEq] at he
    obtain ⟨⟨-, hl⟩, rfl⟩ := he
    refine ⟨hi, ⟨h.rung.le, h.rung.one⟩, h.count, fun hd => ⟨(h.live hd).1, .inl ?_⟩⟩
    cases hloc : s.loc <;> simp_all

theorem finish {r : SmartNic × Option Nat} {t : TxRing} (hn : 0 < n) (h : Served base n s) (hl : s.loc = .loop)
    (hok : Ok base n t) (hr : Rung t) (hp : IterationPost s r t) : Served base n (TxRing.finish t r) := by
  have hi := h.idle.finish hn hok hp
  have hc := h.count
  have hle := h.rung.le
  refine ⟨hi, ⟨hr.le, hr.one⟩, ?_, ?_⟩
  · cases hp with
    | completed f _ _ hd hnic _ hk =>
      have hreg : r.1.reg SC_REG_TX_DOORBELL = s.nic.reg SC_REG_TX_DOORBELL - 1 := by
        rw [hnic, txAdvance, reg_setReg_self]
      have hpos : 0 < (s.nic.reg SC_REG_TX_DOORBELL).toNat :=
        Nat.pos_of_ne_zero fun e => hd (BitVec.eq_of_toNat_eq e)
      have hsub : (s.nic.reg SC_REG_TX_DOORBELL - 1).toNat =
          (s.nic.reg SC_REG_TX_DOORBELL).toNat - 1 :=
        BitVec.toNat_sub_of_le (BitVec.le_def.mpr hpos)
      dsimp only [TxRing.finish]
      rw [hk.handled, hk.completed, hreg, hk.merged, hsub]
      dsimp only
      omega
    | idle _ hnic hk | stopped hnic hk _ =>
      subst hnic
      dsimp only [TxRing.finish]
      rw [hk.handled, hk.completed, hk.merged]
      exact hc
  · intro hd'
    cases hp with
    | completed f _ hpend _ hnic hwait hk =>
      refine ⟨?_, .inl ?_⟩
      · dsimp only [TxRing.finish]
        rw [hnic]
        exact hpend
      · dsimp only [TxRing.finish]
        rw [hk.loc.trans hl]
        exact if_pos hwait
    | idle hpend hnic hk =>
      subst hnic
      exact absurd (h.live hd').1 (by rw [hpend]; decide)
    | stopped hnic hk why =>
      subst hnic
      -- a doorbell that is not 0 counts a frame that is not completed
      obtain hd | hd := why
      · exact absurd hd hd'
      · have h0 : s.nic.reg SC_REG_TX_DOORBELL = 0 := BitVec.eq_of_toNat_eq (show _ = 0 by omega)
        exact absurd h0 hd'

theorem finish_done {r : SmartNic × Option Nat} {t : TxRing} (h : Served base n s) (hl : s.loc = .done)
    (hok : Ok base n t) (hr : Rung t) (hk : Kept s t)
    (hnic : r.1 = s.nic ∨ ∃ v, r.1 = s.nic.setReg SC_REG_IRQ_STS v) :
    Served base n (TxRing.finish t r) := by
  have hi := h.idle.finish_done hok hk hnic
  have hd : r.1.reg SC_REG_TX_DOORBELL = s.nic.reg SC_REG_TX_DOORBELL := by
    obtain hnic | ⟨v, hnic⟩ := hnic <;> rw [hnic]
    exact reg_setReg_ne (by decide)
  have hp : r.1.txPending = s.nic.txPending := by
    obtain hnic | ⟨v, hnic⟩ := hnic <;> rw [hnic]
    rfl
  refine ⟨hi, ⟨hr.le, hr.one⟩, ?_, ?_⟩
  · dsimp only [TxRing.finish]
    rw [hd, hk.handled, hk.completed, hk.merged]
    exact h.count
  · dsimp only [TxRing.finish]
    rw [hd, hp, hk.notified]
    intro h0
    obtain ⟨hp', hl' | hn⟩ := h.live h0
    · rw [hl] at hl'; cases hl'
    · exact ⟨hp', .inr hn⟩

theorem start_part (hb : base ≠ 0) (hn : 0 < n) (hn' : n < 2 ^ 32) {e : TxPart} {t : TxRing}
    {p : NicM (SmartNic × Option Nat)} (h : Served base n s) (he : TxRing.start true s e = some (t, p)) :
    (Ok base n t ∧ Rung t) ∧ (world base n true).WP (fun u => Ok base n u ∧ Rung u) p
      (fun r u => Served base n (TxRing.finish u r)) t := by
  have hW : Runs base n true False (world base n true) := .exact
  have hE : ∀ s e s', Rung s → (world base n true).env s e = some s' → Rung s' := fun _ _ _ h => h.env
  have hA : ∀ s e c r s', Rung s → (world base n true).act s e c = some (r, s') → Rung s' :=
    fun _ _ _ _ _ h => h.act
  cases e with
  | iteration =>
    simp only [TxRing.start, true_and, Option.ite_none_left_eq_some, not_not, Option.some.injEq,
      Prod.mk.injEq] at he
    obtain ⟨hl, rfl, rfl⟩ := he
    rw [← hl]
    have hpass := (iteration_ok hW hb hn hn' h.idle.conf h.idle.tail h.idle.ok h.idle.sent).mono_inv
      fun _ h => h.1
    exact ⟨⟨h.idle.ok, h.rung⟩, (hpass.frame hE hA h.rung).mono fun r u hu =>
      h.finish hn hl hu.1.1 hu.2 (hu.1.2.resolve_right fun h => h.1)⟩
  | done =>
    simp only [TxRing.start, true_and, Option.ite_none_left_eq_some, not_not, Option.some.injEq,
      Prod.mk.injEq] at he
    obtain ⟨hl, rfl, rfl⟩ := he
    rw [← hl]
    have hdone := (processTxDone_ok hW h.idle.conf.bridge hn hn' h.idle.ok h.idle.mid.2).mono_inv
      fun _ h => h.1
    exact ⟨⟨h.idle.ok, h.rung⟩, (hdone.frame hE hA h.rung).mono fun r u hu =>
      h.finish_done hl hu.1.1 hu.2 hu.1.2.1 hu.1.2.2⟩

end Served

/-- A ring that was not rung for yet. -/
structure DriverStart (base : Addr) (n : Nat) (s : TxRing) : Prop extends Start base n s where
  doorbell : s.nic.reg SC_REG_TX_DOORBELL = 0
  rung : s.rung = []
  handled : s.handled = 0
  merged : s.merged = 0

theorem Served.start (h : DriverStart base n s) : Served base n s := by
  refine ⟨.start h.toStart, ⟨?_, ?_⟩, ?_, fun hd => absurd h.doorbell hd⟩
  · rw [h.handled, h.rung, h.posted]; exact Nat.le_refl _
  · rw [h.rung]; exact fun v hv => nomatch hv
  · rw [h.handled, h.completed, h.doorbell, h.merged]; rfl

abbrev DriverState := Machine.State NicOp NicOp.Res (SmartNic × Option Nat) TxRing

abbrev DriverEvent := Machine.Event TxHost Unit TxIdle TxPart

theorem run_served (hb : base ≠ 0) (hn : 0 < n) {t : DriverState} {es : List DriverEvent}
    (h0 : DriverStart base n s) (h : run (machine base n true).step ⟨s, none⟩ es = some t) :
    (machine base n true).Inv (fun u => Ok base n u ∧ Rung u) (Served base n) t := by
  have hn' : n < 2 ^ 32 := h0.conf.size ▸ BitVec.isLt _
  exact Machine.inv (fun _ h => ⟨h.idle.ok, h.rung⟩)
    (fun _ _ _ h he => ⟨h.1.env hn hn' he, h.2.env he⟩) (fun _ _ _ h he => h.env hn hn' he)
    (fun _ _ _ h he => h.idle_step he) (fun _ _ _ _ h he => h.start_part hb hn hn' he) (.start h0) h

/-- A doorbell write finds the doorbell register 0. -/
def DoorbellZero (s : DriverState) (e : DriverEvent) : Prop :=
  e = .idle .doorbell → s.st.nic.reg SC_REG_TX_DOORBELL = 0

theorem step_merged {s t : DriverState} {e : DriverEvent}
    (h : (machine base n true).step s e = some t) :
    t.st.merged = 0 ↔ s.st.merged = 0 ∧ DoorbellZero s e := by
  have hkeep : ∀ {e : DriverEvent}, e ≠ .idle .doorbell → t.st.merged = s.st.merged →
      (t.st.merged = 0 ↔ s.st.merged = 0 ∧ DoorbellZero s e) := fun he hm => by
    rw [hm, DoorbellZero]
    exact (and_iff_left fun h => absurd h he).symm
  obtain ⟨s, cur⟩ := s
  cases e with
  | env e =>
    simp only [Machine.step, Option.map_eq_some_iff] at h
    obtain ⟨u, hu, rfl⟩ := h
    exact hkeep (by simp) (Kept.env hu).merged
  | idle e =>
    rcases cur with _ | p
    · simp only [Machine.step, Option.map_eq_some_iff] at h
      obtain ⟨u, hu, rfl⟩ := h
      cases e with
      | wake =>
        simp only [machine, TxRing.idle, Option.ite_none_right_eq_some, Option.some.injEq] at hu
        obtain ⟨-, rfl⟩ := hu
        exact hkeep (by simp) rfl
      | doorbell =>
        simp only [machine, TxRing.idle] at hu
        split at hu
        · cases hu
        · rw [Option.some.injEq] at hu
          subst hu
          rw [DoorbellZero]
          dsimp only
          rw [Nat.add_eq_zero_iff]
          refine and_congr_right fun _ => ⟨fun h _ => BitVec.eq_of_toNat_eq h, fun h => ?_⟩
          rw [h rfl]; rfl
    · simp [Machine.step] at h
  | start e =>
    rcases cur with _ | p
    · simp only [Machine.step, Option.map_eq_some_iff] at h
      obtain ⟨⟨u, p⟩, hu, rfl⟩ := h
      cases e <;> simp only [machine, TxRing.start, Option.ite_none_left_eq_some, Option.some.injEq,
        Prod.mk.injEq] at hu <;> obtain ⟨-, rfl, rfl⟩ := hu <;> exact hkeep (by simp) rfl
    · simp [Machine.step] at h
  | act c =>
    rcases cur with _ | ⟨a | ⟨e, k⟩⟩
    · simp [Machine.step] at h
    · simp [Machine.step] at h
    · simp only [Machine.step, Option.map_eq_some_iff] at h
      obtain ⟨⟨r, u⟩, hu, rfl⟩ := h
      refine hkeep (by simp) ?_
      cases e <;> simp only [machine, world, TxRing.act, Option.some.injEq, Prod.mk.injEq] at hu <;>
        obtain ⟨-, rfl⟩ := hu <;> rfl
  | finish =>
    rcases cur with _ | ⟨a | ⟨e, k⟩⟩
    · simp [Machine.step] at h
    · simp only [Machine.step, Option.some.injEq] at h
      subst h
      exact hkeep (by simp) rfl
    · simp [Machine.step] at h

theorem merged_eq_zero_iff {s t : DriverState} {es : List DriverEvent}
    (h : run (machine base n true).step s es = some t) :
    t.st.merged = 0 ↔ s.st.merged = 0 ∧ Along (machine base n true).step DoorbellZero s es := by
  induction es generalizing s with
  | nil =>
    cases h
    exact (and_iff_left trivial).symm
  | cons e es ih =>
    obtain ⟨u, hu, hr⟩ := run_cons_some.mp h
    rw [ih hr, step_merged hu, Along, and_assoc]
    refine and_congr_right fun _ => and_congr_right fun _ => ⟨fun h v hv => ?_, fun h => h u hu⟩
    obtain rfl := Option.some.inj (hu.symm.trans hv)
    exact h

/-- `process_tx` has left its loop, and no doorbell write is on its way, nor is
the notification of one. -/
structure Quiet (s : DriverState) : Prop where
  cur : s.cur = none
  loc : s.st.loc ≠ .loop
  notified : s.st.notified = false
  rung : s.st.rung = []

/-- Where a run of the driver's host has come to rest, the frames whose doorbell
write was handled are all sent if and only if each of those writes found the
doorbell register 0. -/
theorem sent_iff_doorbell_zero (hb : base ≠ 0) (hn : 0 < n) {t : DriverState} {es : List DriverEvent}
    (h0 : DriverStart base n s) (h : run (machine base n true).step ⟨s, none⟩ es = some t)
    (hq : Quiet t) :
    (t.st.posted.take t.st.handled).map TxFrame.bytes <+: t.st.sent ↔
      Along (machine base n true).step DoorbellZero ⟨s, none⟩ es := by
  have hs := (run_served hb hn h0 h).idle hq.cur
  have hd : t.st.nic.reg SC_REG_TX_DOORBELL = 0 := by
    by_contra hd
    obtain ⟨-, hl | hn⟩ := hs.live hd
    · exact hq.loc hl
    · rw [hq.notified] at hn; cases hn
  have hc := hs.count
  have hle := hs.idle.ok.le
  have hrung := hs.rung.le
  have h0' : (0 : Word).toNat = 0 := rfl
  rw [hd, h0'] at hc
  have key : (t.st.posted.take t.st.handled).map TxFrame.bytes <+: t.st.sent ↔ t.st.merged = 0 := by
    rw [hs.idle.sent]
    constructor
    · intro hp
      have := hp.length_le
      simp only [List.length_map, List.length_take] at this
      omega
    · intro hm
      rw [show t.st.handled = t.st.completed by omega]
  rw [key, merged_eq_zero_iff h]
  exact and_iff_right h0.merged

theorem exampleRing_driverStart : DriverStart 0x1000 2 exampleRing :=
  ⟨exampleRing_start, by decide, rfl, rfl, rfl⟩

/-- Two frames are posted, rung for and sent, the second when the first has been. -/
def exampleTurns : List DriverEvent := examplePass [1, 2, 3, 4] ++ examplePass [5, 6, 7, 8]

theorem sent_iff_doorbell_zero_turns : ∃ t,
    run (machine 0x1000 2 true).step ⟨exampleRing, none⟩ exampleTurns = some t ∧
    (t.st.handled, t.st.sent) = (2, [[1, 2, 3, 4], [5, 6, 7, 8]]) ∧
    ((t.st.posted.take t.st.handled).map TxFrame.bytes <+: t.st.sent ↔
      Along (machine 0x1000 2 true).step DoorbellZero ⟨exampleRing, none⟩ exampleTurns) := by
  have hr : ((run (machine 0x1000 2 true).step ⟨exampleRing, none⟩ exampleTurns).map fun t =>
      ((t.cur.isNone, t.st.loc, t.st.notified), t.st.rung, t.st.handled, t.st.sent)) =
        some ((true, .wait, false), [], 2, [[1, 2, 3, 4], [5, 6, 7, 8]]) := by decide +kernel
  obtain ⟨t, ht, he⟩ := Option.map_eq_some_iff.mp hr
  simp only [Prod.mk.injEq, Option.isNone_iff_eq_none] at he
  obtain ⟨⟨h1, h2, h3⟩, h4, h5, h6⟩ := he
  exact ⟨t, ht, by rw [h5, h6], sent_iff_doorbell_zero (by decide) (by decide) exampleRing_driverStart ht
    ⟨h1, by rw [h2]; decide, h3, h4⟩⟩

/-- Two frames are posted and rung for before a pass: the second write overwrites
the first. -/
def exampleTwo : List DriverEvent :=
  [.env (.post ⟨0x2000, 4, SMARTETH_DESC_FLAG_OWN⟩), .env (.ring 1), .idle .doorbell,
    .env (.post ⟨0x3000, 4, SMARTETH_DESC_FLAG_OWN⟩), .env (.ring 1), .idle .doorbell, .idle .wake,
    .start .iteration, .act (), .act (), .act (), .act (), .finish, .start .iteration, .finish,
    .start .done, .finish]

theorem doorbell_lost : ∃ t, run (machine 0x1000 2 true).step ⟨exampleRing, none⟩ exampleTwo = some t ∧
    Quiet t ∧ t.st.handled = 2 ∧
    ¬ (t.st.posted.take t.st.handled).map TxFrame.bytes <+: t.st.sent := by
  have hr : ((run (machine 0x1000 2 true).step ⟨exampleRing, none⟩ exampleTwo).map fun t =>
      ((t.cur.isNone, t.st.loc, t.st.notified), t.st.rung, t.st.handled,
        decide ((t.st.posted.take t.st.handled).map TxFrame.bytes <+: t.st.sent))) =
        some ((true, .wait, false), [], 2, false) := by decide +kernel
  obtain ⟨t, ht, he⟩ := Option.map_eq_some_iff.mp hr
  simp only [Prod.mk.injEq, Option.isNone_iff_eq_none] at he
  obtain ⟨⟨h1, h2, h3⟩, h4, h5, h6⟩ := he
  exact ⟨t, ht, ⟨h1, by rw [h2]; decide, h3, h4⟩, h5, of_decide_eq_false h6⟩

end SmartEth.TxRing
