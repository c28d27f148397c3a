import SmartEth.Proof.Console
import SmartEth.System.Echo

/-!
# What is typed comes back

A round of `vTaskEcho` takes the character that has waited longest and writes it, and the prompt
after the end of a line, before it looks for the next (`round_leads`). So what is echoed is what was
received, each character once and in order (`echo_in_order`); what is lost had no room in the
receiver.
-/

namespace SmartEth.Console

open Echo

/-! ## A round -/

theorem byte_of_int (c : Byte) : BitVec.ofInt 8 (c.toNat : Int) = c := by
  rw [BitVec.ofInt_natCast, BitVec.ofNat_toNat, BitVec.setWidth_eq]

/-- A round, as its accesses. -/
theorem vTaskEchoRound_eq : vTaskEchoRound = readReg UART_LSR >>= fun lsr =>
    if lsr &&& UART_LSR_DR ≠ 0 then readReg UART_RBR >>= fun c => emit (echoed c) else pure () := by
  have hecho (c : Byte) : (if (c.toNat : Int) ≥ 0 then
      uartPutc (BitVec.ofInt 8 c.toNat) >>= fun _ =>
        if (c.toNat : Int) = (ch '\r').toNat ∨ (c.toNat : Int) = (ch '\n').toNat then uartPuts ("> ".toList.map ch)
        else pure ()
      else pure ()) = emit (echoed c) := by
    have hiff : ((c.toNat : Int) = (ch '\r').toNat ∨ (c.toNat : Int) = (ch '\n').toNat) ↔
        (c = ch '\r' ∨ c = ch '\n') := by
      simp only [Int.ofNat_inj, BitVec.toNat_inj]
    rw [if_pos (Int.natCast_nonneg _), byte_of_int, uartPutc_eq, echoed, emit_append]
    refine congrArg _ (funext fun _ => ?_)
    by_cases h : c = ch '\r' ∨ c = ch '\n'
    · rw [if_pos h, if_pos (hiff.mpr h), uartPuts_eq]
    · rw [if_neg h, if_neg (mt hiff.mp h)]
      rfl
  unfold vTaskEchoRound uartGetcNonblock
  simp only [readReg, Prog.call_bind, Prog.op_bind]
  refine congrArg (Prog.op (UartOp.read UART_LSR)) (funext fun lsr => ?_)
  by_cases h : lsr &&& UART_LSR_DR ≠ 0
  · rw [if_pos h, if_pos h]
    exact congrArg (Prog.op (UartOp.read UART_RBR)) (funext fun c => hecho c)
  · rw [if_neg h, if_neg h]
    rfl

/-! ## Runs -/

/-- What the receiver has taken in and the task has not read, it still holds. -/
structure Fifo (s : Echo) : Prop where
  kept : s.kept = s.got ++ s.rx
  full : s.rx.length ≤ 16

/-- The task writes what it has read, and is not yet done with it. -/
structure Writing (todo : List Byte) (s : Echo) : Prop extends Fifo s where
  begun : s.begun = true
  written : s.written ++ todo = transcript s.got

/-- Between two rounds, the task has echoed all it has read. -/
structure Resting (s : Echo) : Prop extends Fifo s where
  echoed : s.begun = true → s.written = transcript s.got
  fresh : s.begun = false → s.written = [] ∧ s.got = []

/-- What has been written is a first part of the transcript. -/
structure Telling (s : Echo) : Prop extends Fifo s where
  written : s.written <+: transcript s.got

variable {s t : Echo} {todo : List Byte} {c : Byte}

theorem Fifo.arrive (h : Fifo s) (c : Byte) : Fifo (s.arrive c) := by
  have hfull := h.full
  unfold Echo.arrive
  split
  · refine ⟨?_, ?_⟩
    · show s.kept ++ [c] = s.got ++ (s.rx ++ [c])
      rw [h.kept, List.append_assoc]
    · show (s.rx ++ [c]).length ≤ 16
      rw [List.length_append]
      exact Nat.succ_le_of_lt ‹_›
  · exact ⟨h.kept, hfull⟩

theorem arrive_same (s : Echo) (c : Byte) : (s.arrive c).written = s.written ∧ (s.arrive c).got = s.got ∧
    (s.arrive c).begun = s.begun := by
  unfold Echo.arrive
  split <;> exact ⟨rfl, rfl, rfl⟩

theorem Writing.arrive (h : Writing todo s) (c : Byte) : Writing todo (s.arrive c) := by
  obtain ⟨hwritten, hgot, hbegun⟩ := arrive_same s c
  exact ⟨h.toFifo.arrive c, hbegun.trans h.begun, by rw [hwritten, hgot, h.written]⟩

theorem Resting.arrive (h : Resting s) (c : Byte) : Resting (s.arrive c) := by
  obtain ⟨hwritten, hgot, hbegun⟩ := arrive_same s c
  refine ⟨h.toFifo.arrive c, ?_, ?_⟩
  · rw [hwritten, hgot, hbegun]
    exact h.echoed
  · rw [hwritten, hgot, hbegun]
    exact h.fresh

theorem Writing.telling (h : Writing todo s) : Telling s := ⟨h.toFifo, todo, h.written⟩

theorem Writing.resting (h : Writing [] s) : Resting s := by
  refine ⟨h.toFifo, fun _ => ?_, fun hb => ?_⟩
  · rw [← h.written, List.append_nil]
  · cases h.begun.symm.trans hb

theorem Resting.telling (h : Resting s) : Telling s := by
  refine ⟨h.toFifo, ?_⟩
  cases hb : s.begun with
  | true => rw [h.echoed hb]
  | false =>
    rw [(h.fresh hb).1]
    exact List.nil_prefix

/-- What the task has to write, it writes. -/
theorem emit_leads (h : Writing todo s) : machine.toWorld.WP Telling (emit todo) (fun _ => Resting) s := by
  induction todo generalizing s with
  | nil => exact World.WP.ret (fun s c t hs ht => by cases ht; exact hs.arrive c) h fun t ht => ht.resting
  | cons c todo ih =>
    refine World.WP.op (K := Writing (c :: todo)) (fun s c t hs ht => by cases ht; exact hs.arrive c) h ?_
    intro s b r t hs hact
    cases hact
    refine ⟨hs.telling, ?_⟩
    refine World.WP.op (K := Writing (c :: todo)) (fun s c t hs ht => by cases ht; exact hs.arrive c) hs ?_
    intro s b r t hs hact
    cases hact
    have hnext : Writing todo { s with written := s.written ++ [c] } :=
      ⟨⟨hs.kept, hs.full⟩, hs.begun, by rw [← hs.written, List.append_assoc]; rfl⟩
    exact ⟨hnext.telling, ih hnext⟩

theorem transcript_append (got : List Byte) (c : Byte) : transcript (got ++ [c]) = transcript got ++ echoed c := by
  unfold transcript
  rw [List.flatMap_append, List.flatMap_singleton, List.append_assoc]

theorem lsr_dr (s : Echo) (b : Byte) (h : s.lsr b &&& UART_LSR_DR ≠ 0) : s.rx ≠ [] := by
  intro hnil
  refine h ?_
  rw [Echo.lsr, if_pos hnil, BitVec.and_assoc]
  exact BitVec.and_zero

/-- A round that finds a character echoes it, and one that does not changes nothing. -/
theorem round_leads (h : Resting s) (hb : s.begun = true) :
    machine.toWorld.WP Telling vTaskEchoRound (fun _ => Resting) s := by
  rw [vTaskEchoRound_eq]
  refine World.WP.op (K := fun s => Resting s ∧ s.begun = true) ?_ ⟨h, hb⟩ ?_
  · intro s c t hs ht
    cases ht
    exact ⟨hs.1.arrive c, (arrive_same s c).2.2.trans hs.2⟩
  intro s b lsr t ⟨hs, hb⟩ hact
  cases hact
  refine ⟨hs.telling, ?_⟩
  by_cases hdr : s.lsr b &&& UART_LSR_DR ≠ 0
  · show machine.toWorld.WP Telling (if _ then _ else _) _ _
    rw [if_pos hdr]
    -- The character is there until the task takes it.
    refine World.WP.op (K := fun s => Resting s ∧ s.begun = true ∧ s.rx ≠ []) ?_ ⟨hs, hb, lsr_dr s b hdr⟩ ?_
    · intro s c t hs ht
      cases ht
      refine ⟨hs.1.arrive c, (arrive_same s c).2.2.trans hs.2.1, ?_⟩
      unfold Echo.arrive
      split
      · exact List.append_ne_nil_of_left_ne_nil hs.2.2 _
      · exact hs.2.2
    intro s b r t ⟨hs, hb, hne⟩ hact
    obtain ⟨c, rx, hrx⟩ := List.exists_cons_of_ne_nil hne
    have hread : s.read UART_RBR b = (c, { s with rx := rx, got := s.got ++ [c] }) := by
      simp [Echo.read, hrx, UART_RBR, UART_LSR]
    have hact : some (s.read UART_RBR b) = some (r, t) := hact
    rw [hread, Option.some.injEq, Prod.mk.injEq] at hact
    obtain ⟨rfl, rfl⟩ := hact
    have hfull := hs.full
    rw [hrx, List.length_cons] at hfull
    have hwriting : Writing (echoed c) { s with rx := rx, got := s.got ++ [c] } := by
      refine ⟨⟨?_, by dsimp only; omega⟩, hb, ?_⟩
      · rw [hs.kept, hrx]
        exact (List.append_cons _ _ _)
      · rw [transcript_append, hs.echoed hb]
    exact ⟨hwriting.telling, emit_leads hwriting⟩
  · show machine.toWorld.WP Telling (if _ then _ else _) _ _
    rw [if_neg hdr]
    exact World.WP.ret (fun s c t hs ht => by cases ht; exact hs.arrive c) hs fun t ht => ht

/-- The task takes nothing in, and loses nothing. -/
theorem kept_act {e : UartOp} {b : Byte} {r : e.Result} (h : s.act e b = some (r, t)) :
    t.kept = s.kept ∧ t.lost = s.lost := by
  cases e with
  | read offset =>
    have h : some (s.read offset b) = some (r, t) := h
    unfold Echo.read at h
    repeat' split at h
    all_goals
      cases h
      exact ⟨rfl, rfl⟩
  | write offset val =>
    cases h
    split <;> exact ⟨rfl, rfl⟩
  | wait offset mask =>
    cases h
    exact ⟨rfl, rfl⟩

/-- Only a character that comes is taken in, or lost. -/
theorem kept_step {x y : Machine.State UartOp UartOp.Result Unit Echo} {e : Machine.Event Byte Byte Empty Unit}
    (h : machine.step x e = some y) : (∃ c, e = .env c ∧ y.st = x.st.arrive c) ∨
      arrivals [e] = [] ∧ y.st.kept = x.st.kept ∧ y.st.lost = x.st.lost := by
  obtain ⟨s, cur⟩ := x
  cases e with
  | env c =>
    cases h
    exact .inl ⟨c, rfl, rfl⟩
  | idle e => exact e.elim
  | start e =>
    rcases cur with _ | p
    · obtain ⟨⟨u, p⟩, hu, rfl⟩ := Option.map_eq_some_iff.mp h
      have hu : (if s.begun then some (s, vTaskEchoRound) else some ({ s with begun := true }, vTaskEchoBegin)) =
        some (u, p) := hu
      split at hu <;> cases hu <;> exact .inr ⟨rfl, rfl, rfl⟩
    · cases h
  | act b =>
    rcases cur with _ | ⟨a | ⟨op, k⟩⟩
    · cases h
    · cases h
    · obtain ⟨⟨r, u⟩, hu, rfl⟩ := Option.map_eq_some_iff.mp h
      exact .inr ⟨rfl, kept_act hu⟩
  | finish =>
    rcases cur with _ | ⟨a | ⟨op, k⟩⟩
    · cases h
    · cases h
      exact .inr ⟨rfl, rfl, rfl⟩
    · cases h

/-- What has come was taken in, or lost. -/
theorem arrivals_run {x y : Machine.State UartOp UartOp.Result Unit Echo}
    {es : List (Machine.Event Byte Byte Empty Unit)} (h : run machine.step x es = some y) :
    ∃ kept lost, y.st.kept = x.st.kept ++ kept ∧ y.st.lost = x.st.lost ++ lost ∧
      kept.Sublist (arrivals es) ∧ kept.length + lost.length = (arrivals es).length := by
  induction es generalizing x with
  | nil =>
    cases h
    exact ⟨[], [], (List.append_nil _).symm, (List.append_nil _).symm, .slnil, rfl⟩
  | cons e es ih =>
    obtain ⟨z, hz, hes⟩ := run_cons_some.mp h
    obtain ⟨kept, lost, hkept, hlost, hsub, hlen⟩ := ih hes
    have harrivals : arrivals (e :: es) = arrivals [e] ++ arrivals es := List.filterMap_append (l := [e])
    rw [harrivals]
    rcases kept_step hz with ⟨c, rfl, hst⟩ | ⟨hnone, hk, hl⟩
    · rw [hst] at hkept hlost
      have hone : arrivals [.env c] = [c] := rfl
      rw [hone, List.length_append, List.length_singleton]
      unfold Echo.arrive at hkept hlost
      split at hkept
      · rename_i hroom
        rw [if_pos hroom] at hlost
        refine ⟨c :: kept, lost, ?_, hlost, hsub.cons_cons c, ?_⟩
        · rw [hkept]
          exact (List.append_cons _ _ _).symm
        · rw [List.length_cons]
          omega
      · rename_i hroom
        rw [if_neg hroom] at hlost
        refine ⟨kept, c :: lost, hkept, ?_, hsub.cons c, ?_⟩
        · rw [hlost]
          exact (List.append_cons _ _ _).symm
        · rw [List.length_cons]
          omega
    · rw [hnone, List.nil_append]
      exact ⟨kept, lost, hk ▸ hkept, hl ▸ hlost, hsub, hlen⟩

/-- In every run of the task, whatever is typed and when: what the task has written is a first part
of its line and the echo of the characters that it has read, and all of it between two rounds; these
are the first of those that the receiver had room for, in the order they came; and if it always had
room, these are all that were typed. -/
theorem echo_in_order (es : List (Machine.Event Byte Byte Empty Unit))
    (t : Machine.State UartOp UartOp.Result Unit Echo) (h : run machine.step ⟨Echo.init, none⟩ es = some t) :
    t.st.written <+: transcript t.st.got ∧
      (t.cur = none → t.st.begun = true → t.st.written = transcript t.st.got) ∧
      t.st.kept = t.st.got ++ t.st.rx ∧ t.st.kept.Sublist (arrivals es) ∧
      (t.st.lost = [] → t.st.kept = arrivals es) := by
  have hinv := machine.inv (I := Telling) (J := Resting) (fun _ hj => hj.telling)
    (fun s c t hs ht => ?_) (fun s c t hs ht => ?_) (fun _ e _ _ _ => e.elim) (fun s _ u p hs hu => ?_)
    (s := Echo.init) ⟨⟨rfl, Nat.zero_le _⟩, nofun, fun _ => ⟨rfl, rfl⟩⟩ h
  · obtain ⟨kept, lost, hkept, hlost, hsub, hlen⟩ := arrivals_run h
    have hkept : t.st.kept = kept := hkept
    have hlost : t.st.lost = lost := hlost
    refine ⟨hinv.st.written, fun hc hb => (hinv.idle hc).echoed hb, hinv.st.kept, hkept ▸ hsub, fun hnone => ?_⟩
    rw [← hlost, hnone, List.length_nil, Nat.add_zero] at hlen
    rw [hkept]
    exact hsub.eq_of_length hlen
  · cases ht
    obtain ⟨hwritten, hgot, -⟩ := arrive_same s c
    exact ⟨hs.toFifo.arrive c, by rw [hwritten, hgot]; exact hs.written⟩
  · cases ht
    exact hs.arrive c
  · have hu : (if s.begun then some (s, vTaskEchoRound) else some ({ s with begun := true }, vTaskEchoBegin)) =
        some (u, p) := hu
    cases hb : s.begun with
    | true =>
      rw [hb, if_pos rfl, Option.some.injEq, Prod.mk.injEq] at hu
      obtain ⟨rfl, rfl⟩ := hu
      exact ⟨hs.telling, round_leads hs hb⟩
    | false =>
      rw [hb, if_neg Bool.false_ne_true, Option.some.injEq, Prod.mk.injEq] at hu
      obtain ⟨rfl, rfl⟩ := hu
      obtain ⟨hwritten, hgot⟩ := hs.fresh hb
      have hwriting : Writing (wireText ("[ECHO] Enter characters (will echo back):\n".toList.map ch))
          { s with begun := true } := by
        refine ⟨⟨hs.kept, hs.full⟩, rfl, ?_⟩
        dsimp only
        rw [hwritten, hgot, List.nil_append, transcript, List.flatMap_nil, List.append_nil]
      refine ⟨hwriting.telling, ?_⟩
      rw [vTaskEchoBegin, uartPuts_eq]
      exact emit_leads hwriting

/-- A character typed while the task writes its first line. -/
def typedEarly : List (Machine.Event Byte Byte Empty Unit) :=
  [.start (), .env (ch 'q')] ++ List.replicate 86 (.act 0x20) ++ [.finish, .start ()] ++
    List.replicate 4 (.act 0x20) ++ [.finish]

theorem echo_in_order_early : ∃ t, run machine.step ⟨Echo.init, none⟩ typedEarly = some t ∧
    t.st.written = transcript [ch 'q'] := by
  have hr : (run machine.step ⟨Echo.init, none⟩ typedEarly).map
      (fun t => (t.cur.isNone, t.st.begun, t.st.got)) = some (true, true, [ch 'q']) := by decide +kernel
  obtain ⟨t, ht, hst⟩ := Option.map_eq_some_iff.mp hr
  rw [Prod.mk.injEq, Prod.mk.injEq] at hst
  have hwritten := (echo_in_order typedEarly t ht).2.1 (Option.isNone_iff_eq_none.mp hst.1) hst.2.1
  exact ⟨t, ht, hst.2.2 ▸ hwritten⟩

end SmartEth.Console
