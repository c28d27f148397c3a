import SmartEth.System.NetSockets

/-!
# The capture stream

A call that writes less than the length and the data leaves the stream shorter than the
frames (`transmit_eq_iff`), so the stream is well framed after every call exactly if every
write accepts all that it is offered (`wellFramed_iff_whole`).
-/

namespace SmartEth.NetTx

variable {s t : NetTx}

theorem transmit_eq_iff {e : NetSend} (h : Accepted e) :
    NetIf.transmit e.data e.n e.k = (NetRx.wire e.data).cells ↔ e.n = 4 ∧ e.k = e.data.length := by
  obtain ⟨-, hn, hk, -⟩ := h
  have hlen : (leBytes (BitVec.ofNat 32 e.data.length)).length = 4 := length_leBytes _
  rw [NetIf.transmit, Frame.cells, NetRx.wire]
  constructor
  · intro he
    have := congrArg List.length he
    simp only [List.length_append, List.length_take, hlen] at this
    omega
  · rintro ⟨h4, hk⟩
    rw [h4, hk, List.take_of_length_le hlen.le, List.take_length]

theorem framesCells_append (fs : List (Frame Byte)) (f : Frame Byte) :
    framesCells (fs ++ [f]) = framesCells fs ++ f.cells := by
  simp only [framesCells, List.map_append, List.map_cons, List.map_nil, List.flatten_append, List.flatten_cons,
    List.flatten_nil, List.append_nil]

theorem wellFramed_step {e : NetSend} (h : WellFramed s) (hs : s.step e = some t) : WellFramed t ↔ Whole s e := by
  simp only [step, Option.ite_none_right_eq_some] at hs
  obtain ⟨⟨-, ha⟩, hs⟩ := hs
  split at hs
  · rename_i hc
    obtain rfl := Option.some.inj hs
    rw [WellFramed] at h
    rw [WellFramed, List.map_append, List.map_cons, List.map_nil, framesCells_append, h, List.append_cancel_left_eq,
      transmit_eq_iff ha]
    exact ⟨fun hw _ => hw, fun hw => hw hc⟩
  · rename_i hc
    obtain rfl := Option.some.inj hs
    exact iff_of_true h fun hc' => absurd hc' hc

/-- The stream is well framed after every call of a run exactly if every write accepts all the
bytes it is offered. -/
theorem wellFramed_iff_whole {connected : Bool} {es : List NetSend} (h : (run step (start connected) es).isSome) :
    Always step WellFramed (start connected) es ↔ Along step Whole (start connected) es :=
  always_iff_along (I := fun _ => True) (fun _ _ _ _ _ => trivial) (fun _ _ _ _ hp hs => wellFramed_step hp hs)
    trivial rfl h

/-- Two frames, written whole. -/
def exampleSends : List NetSend := [⟨[1, 2, 3], 4, 3⟩, ⟨[4], 4, 1⟩]

theorem wellFramed_iff_whole_two : (run step (start true) exampleSends).isSome ∧
    (Always step WellFramed (start true) exampleSends ↔ Along step Whole (start true) exampleSends) := by
  have h : (run step (start true) exampleSends).isSome := by decide
  exact ⟨h, wellFramed_iff_whole h⟩

/-- The data of the first frame is written in part; the second frame follows at once. -/
theorem short_write_unframed : ¬ ∀ (connected : Bool) (es : List NetSend) (t : NetTx),
    run step (start connected) es = some t → WellFramed t := by
  intro h
  have hw := h true [⟨[1, 2, 3], 4, 1⟩, ⟨[4], 4, 1⟩] _ rfl
  exact absurd hw (by decide)

end SmartEth.NetTx
