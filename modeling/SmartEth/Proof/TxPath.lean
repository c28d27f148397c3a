import SmartEth.Proof.NetTx
import SmartEth.Proof.TxRing
import SmartEth.System.TxPath

/-!
# What gets from guest memory to the socket

The frames transmitted are those that the ring has sent (`Transmits`), which are the first of those
posted; the stream is made of them as long as every write accepts what it is offered. So in every
state of a run the socket has the first frames that the host has posted, whole and in order, if and
only if every write was whole (`tx_path_iff_whole`).
-/

namespace SmartEth.TxPath

variable {base : Addr} {size : Nat} {driver : Bool} {s t : TxPath}

/-! ## One step -/

theorem step_cases {e : TxPathEvent} (h : s.step base size driver e = some t) :
    (∃ f, e = .ring f ∧ (f = .act () → s.sending = none) ∧ (TxRing.machine base size driver).step s.ring f = some t.ring ∧
      t.net = s.net) ∨
    (∃ n k data, e = .transmit n k ∧ s.sending = some data ∧
      (TxRing.machine base size driver).step s.ring (.act ()) = some t.ring ∧ s.net.step ⟨data, n, k⟩ = some t.net) := by
  cases e with
  | ring f =>
    simp only [step, Option.ite_none_left_eq_some] at h
    obtain ⟨hno, h⟩ := h
    obtain ⟨ring, hring, rfl⟩ := Option.map_eq_some_iff.mp h
    refine .inl ⟨f, rfl, fun hf => ?_, hring, rfl⟩
    subst hf
    simpa using hno
  | transmit n k =>
    simp only [step] at h
    split at h
    · rename_i data ring hs hring
      obtain ⟨net, hnet, rfl⟩ := Option.map_eq_some_iff.mp h
      exact .inr ⟨n, k, data, rfl, hs, hring, hnet⟩
    · cases h

/-- The frames transmitted are those that the ring has sent, if the socket is connected. -/
structure Transmits (connected : Bool) (s : TxPath) : Prop where
  fd : s.net.connected = connected
  frames : connected = true → s.net.frames = s.ring.st.sent
  silent : connected = false → s.net.frames = [] ∧ s.net.stream = []

theorem net_step {x y : NetTx} {e : NetSend} (h : x.step e = some y) : y.connected = x.connected ∧
    (x.connected = true → y.frames = x.frames ++ [e.data]) ∧ (x.connected = false → y = x) := by
  simp only [NetTx.step, Option.ite_none_right_eq_some] at h
  obtain ⟨-, h⟩ := h
  split at h
  · rename_i hc
    obtain rfl := Option.some.inj h
    exact ⟨rfl, fun _ => rfl, fun hf => by rw [hc] at hf; cases hf⟩
  · rename_i hc
    obtain rfl := Option.some.inj h
    exact ⟨rfl, fun ht => absurd ht hc, fun _ => rfl⟩

theorem idle_sent {x y : TxRing} {e : TxIdle} (h : TxRing.idle x e = some y) : y.sent = x.sent := by
  cases e with
  | doorbell =>
    simp only [TxRing.idle] at h
    split at h
    · cases h
    · cases h
      rfl
  | wake =>
    simp only [TxRing.idle, Option.ite_none_right_eq_some, Option.some.injEq] at h
    obtain ⟨-, rfl⟩ := h
    rfl

/-- Only a transmission adds to what the ring has sent. -/
theorem sent_step {x y : Machine.State NicOp NicOp.Res (SmartNic × Option Nat) TxRing}
    {f : Machine.Event TxHost Unit TxIdle TxPart} (h : (TxRing.machine base size driver).step x f = some y) :
    y.st.sent = x.st.sent ∨ ∃ data k, f = .act () ∧ x.cur = some (.op (.transmit data) k) ∧
      y.st.sent = x.st.sent ++ [data] := by
  obtain ⟨st, cur⟩ := x
  cases f with
  | env e =>
    obtain ⟨u, hu, rfl⟩ := Option.map_eq_some_iff.mp h
    exact .inl (TxRing.Kept.env hu).sent
  | idle e =>
    rcases cur with _ | p
    · obtain ⟨u, hu, rfl⟩ := Option.map_eq_some_iff.mp h
      exact .inl (idle_sent hu)
    · cases h
  | start e =>
    rcases cur with _ | p
    · obtain ⟨⟨u, q⟩, hu, rfl⟩ := Option.map_eq_some_iff.mp h
      cases e <;> simp only [TxRing.machine, TxRing.start, Option.ite_none_left_eq_some, Option.some.injEq,
        Prod.mk.injEq] at hu <;> obtain ⟨-, rfl, rfl⟩ := hu <;> exact .inl rfl
    · cases h
  | act c =>
    rcases cur with _ | ⟨a | ⟨e, k⟩⟩
    · cases h
    · cases h
    · obtain ⟨⟨r, u⟩, hu, rfl⟩ := Option.map_eq_some_iff.mp h
      cases e <;> simp only [TxRing.machine, TxRing.world, TxRing.act, Option.some.injEq, Prod.mk.injEq] at hu <;>
        obtain ⟨-, rfl⟩ := hu
      · exact .inl rfl
      · exact .inl rfl
      · exact .inl rfl
      · exact .inr ⟨_, k, rfl, rfl, rfl⟩
  | finish =>
    rcases cur with _ | ⟨a | ⟨e, k⟩⟩
    · cases h
    · cases h
      exact .inl rfl
    · cases h

theorem sent_transmit {x y : Machine.State NicOp NicOp.Res (SmartNic × Option Nat) TxRing} {data : List Byte}
    {k : Unit → NicM (SmartNic × Option Nat)} (hcur : x.cur = some (.op (.transmit data) k))
    (h : (TxRing.machine base size driver).step x (.act ()) = some y) : y.st.sent = x.st.sent ++ [data] := by
  obtain ⟨st, cur⟩ := x
  obtain rfl : cur = _ := hcur
  cases h
  rfl

theorem sending_some {data : List Byte} (h : s.sending = some data) : ∃ k, s.ring.cur = some (.op (.transmit data) k) := by
  unfold sending at h
  split at h
  · rename_i d k hcur
    obtain rfl := Option.some.inj h
    exact ⟨k, hcur⟩
  · cases h

theorem Transmits.step {connected : Bool} {e : TxPathEvent} (h : Transmits connected s)
    (hs : s.step base size driver e = some t) : Transmits connected t := by
  rcases step_cases hs with ⟨f, rfl, hact, hring, hnet⟩ | ⟨n, k, data, rfl, hsend, hring, hnet⟩
  · have hsent : t.ring.st.sent = s.ring.st.sent := by
      rcases sent_step hring with hsame | ⟨data, k, rfl, hcur, -⟩
      · exact hsame
      · have hno := hact rfl
        rw [sending, hcur] at hno
        cases hno
    refine ⟨hnet ▸ h.fd, fun hc => ?_, hnet ▸ h.silent⟩
    rw [hnet, hsent]
    exact h.frames hc
  · obtain ⟨hfd, hon, hoff⟩ := net_step hnet
    refine ⟨hfd.trans h.fd, fun hc => ?_, fun hc => ?_⟩
    · rw [hon (h.fd.trans hc), h.frames hc]
      obtain ⟨k', hcur⟩ := sending_some hsend
      exact (sent_transmit hcur hring).symm
    · rw [hoff (h.fd.trans hc)]
      exact h.silent hc

/-! ## Runs -/

/-- What holds along a run. -/
structure Sound (base : Addr) (size : Nat) (driver connected : Bool) (r : TxRing) (s : TxPath) : Prop where
  transmits : Transmits connected s
  ring : ∃ es, run (TxRing.machine base size driver).step ⟨r, none⟩ es = some s.ring

variable {connected : Bool} {r : TxRing}

theorem Sound.step {e : TxPathEvent} (h : Sound base size driver connected r s)
    (hs : s.step base size driver e = some t) : Sound base size driver connected r t := by
  refine ⟨h.transmits.step hs, ?_⟩
  obtain ⟨es, hes⟩ := h.ring
  rcases step_cases hs with ⟨f, -, -, hring, -⟩ | ⟨_, _, _, -, -, hring, -⟩
  · exact ⟨es ++ [f], run_snoc.mpr ⟨_, hes, hring⟩⟩
  · exact ⟨es ++ [.act ()], run_snoc.mpr ⟨_, hes, hring⟩⟩

/-- The frames on the socket are the first of those posted. -/
theorem Sound.framed_iff (hb : base ≠ 0) (hn : 0 < size) (h0 : TxRing.Start base size r)
    (h : Sound base size driver connected r s) : s.Framed ↔ s.net.WellFramed := by
  obtain ⟨es, hes⟩ := h.ring
  have hmid := (TxRing.run_ok hb hn h0 hes).st
  have hframes : (s.ring.st.posted.take s.net.frames.length).map TxFrame.bytes = s.net.frames := by
    cases connected with
    | false =>
      rw [(h.transmits.silent rfl).1]
      rfl
    | true =>
      rw [h.transmits.frames rfl, List.map_take]
      exact (List.prefix_iff_eq_take.mp hmid.2).symm
  have hwire : (s.ring.st.posted.take s.net.frames.length).map (fun f => NetRx.wire f.bytes) =
      s.net.frames.map NetRx.wire := by
    conv_rhs => rw [← hframes, List.map_map]
    rfl
  rw [Framed, hwire]
  exact Iff.rfl

/-- In every run, every DMA call moving its bytes: what is on the socket are, in every state, the first
frames that the host has posted, whole and in order, if and only if every write accepted all that it
was offered. -/
theorem tx_path_iff_whole (hb : base ≠ 0) (hn : 0 < size) (h0 : TxRing.Start base size r) {es : List TxPathEvent}
    (hr : (run (step base size driver) (start connected r) es).isSome) :
    Always (step base size driver) Framed (start connected r) es ↔
      Along (step base size driver) Whole (start connected r) es := by
  refine always_iff_along (I := Sound base size driver connected r) (fun _ _ _ hi hs => hi.step hs) ?_ ?_ rfl hr
  · intro s e t hi hp hs
    have hw := (hi.framed_iff hb hn h0).mp hp
    rw [(hi.step hs).framed_iff hb hn h0]
    rcases step_cases hs with ⟨f, rfl, -, -, hnet⟩ | ⟨n, k, data, rfl, hsend, -, hnet⟩
    · rw [hnet]
      exact iff_of_true hw trivial
    · rw [NetTx.wellFramed_step hw hnet]
      refine ⟨fun h data' hd => ?_, fun h => h data hsend⟩
      obtain rfl := Option.some.inj (hsend.symm.trans hd)
      exact h
  · exact ⟨⟨rfl, fun _ => h0.sent.symm, fun _ => ⟨rfl, rfl⟩⟩, [], rfl⟩

/-- A frame of four bytes is posted, rung for, and transmitted. -/
def exampleSends : List TxPathEvent :=
  [.ring (.env (.write 0x2000 [1, 2, 3, 4])), .ring (.env (.post ⟨0x2000, 4, SMARTETH_DESC_FLAG_OWN⟩)),
    .ring (.env (.ring 1)), .ring (.idle .doorbell), .ring (.idle .wake), .ring (.start .iteration), .ring (.act ()),
    .ring (.act ()), .transmit 4 4, .ring (.act ()), .ring .finish]

theorem tx_path_iff_whole_one :
    (run (step 0x1000 2 false) (start true TxRing.exampleRing) exampleSends).isSome ∧
    (Always (step 0x1000 2 false) Framed (start true TxRing.exampleRing) exampleSends ↔
      Along (step 0x1000 2 false) Whole (start true TxRing.exampleRing) exampleSends) := by
  have h : (run (step 0x1000 2 false) (start true TxRing.exampleRing) exampleSends).isSome := by decide +kernel
  exact ⟨h, tx_path_iff_whole (by decide) (by decide) TxRing.exampleRing_start h⟩

end SmartEth.TxPath
