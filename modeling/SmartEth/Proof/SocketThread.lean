import SmartEth.Impl.Layout

/-!
# The receive loop of SystemC keeps step as long as headers come whole

The stream from QEMU, whose messages `sc_bridge_send_all` writes one after
another, `sock_mtx` held. The loop of `PcieBridge::socket_thread` reads a header
with a single `read`, whose result it compares only with 0: what the read leaves
out of `hdr` is whatever the memory of the local variable held (`stale`). A
payload is read in a loop, as on the QEMU side.

If every read of a header returns all 8 bytes, `socket_thread` calls
`handle_message` with the messages that QEMU sent, in order
(`framing_of_wholeHeader`): its steps are then those of the library's receiver
(`readHeader_eight`). A header read in part leaves the high byte of the length
to chance; where that is not zero, the loop waits for more than any message has,
and never gets back into step (`Lost`).
-/

namespace SmartEth

/-! ## The loop -/

inductive SocketEvent where
  | write (n : Nat)
  | read (n : Nat) (stale : Vector Byte 8)

namespace SocketThread

/-- `read(m_sock_fd, &hdr, sizeof(hdr))` returns `n` bytes. -/
def readHeader (s : Stream Byte) (n : Nat) (stale : Vector Byte 8) : Option (Stream Byte) :=
  if 0 < n ∧ n ≤ 8 ∧ n ≤ s.pipe.length then
    let hdr := overlay stale.toList (s.pipe.take n)
    some { s with
      pipe := s.pipe.drop n
      phase := (wire.take (.header []) hdr).1
      frames := s.frames ++ (wire.take (.header []) hdr).2.toList }
  else none

def step (s : Stream Byte) : SocketEvent → Option (Stream Byte)
  | .write n => s.write n
  | .read n stale =>
    match s.phase with
    | .header _ => readHeader s n stale
    | .body _ _ => s.read wire n

/-- Every read of a header returns all of it. -/
def WholeHeader (s : Stream Byte) : SocketEvent → Prop
  | .write _ => True
  | .read n _ => ∀ got, s.phase = .header got → n = 8

instance (s : Stream Byte) : (e : SocketEvent) → Decidable (WholeHeader s e)
  | .write _ => .isTrue trivial
  | .read n _ =>
    match hp : s.phase with
    | .header got => decidable_of_iff (n = 8) ⟨fun h _ _ => h, fun h => h got hp⟩
    | .body _ _ => .isTrue fun got hg => by rw [hp] at hg; cases hg

/-! ## Whole headers -/

variable {sent : List (Frame Byte)} {s t : Stream Byte}

/-- In step with what was sent, and with no part of a header read. -/
structure Inv (sent : List (Frame Byte)) (s : Stream Byte) : Prop where
  stream : Stream.Inv wire sent s
  header : ∀ got, s.phase = .header got → got = []

/-- A whole header is read as the library's receiver reads it. -/
theorem readHeader_eight {stale : Vector Byte 8} (hp : s.phase = .header []) :
    readHeader s 8 stale = s.read wire 8 := by
  unfold readHeader Stream.read
  by_cases h : 8 ≤ s.pipe.length
  · have ho : overlay stale.toList (s.pipe.take 8) = s.pipe.take 8 := by
      apply overlay_eq
      rw [List.length_take, Vector.length_toList]
      omega
    rw [if_pos ⟨by decide, le_refl _, h⟩, if_pos ⟨by decide, by rw [hp]; exact le_refl _, h⟩, ho, hp]
  · rw [if_neg fun hc => h hc.2.2, if_neg fun hc => h hc.2.2]

theorem Inv.step {e : SocketEvent} (hv : ∀ f ∈ sent, wire.Valid f) (hi : Inv sent s) (hok : WholeHeader s e)
    (h : step s e = some t) : Inv sent t := by
  cases e with
  | write n =>
    refine ⟨hi.stream.write h, fun got hg => ?_⟩
    obtain ⟨_, _, _, _, _, rfl⟩ := Stream.write_some h
    exact hi.header got hg
  | read n stale =>
    cases hp : s.phase with
    | header got =>
      obtain rfl := hok got hp
      obtain rfl := hi.header got hp
      simp only [SocketThread.step, hp, readHeader_eight hp] at h
      refine ⟨hi.stream.read hv h, fun g hg => ?_⟩
      obtain ⟨-, -, hn, rfl⟩ := Stream.read_some h
      dsimp only at hg
      rw [hp] at hg
      refine Framing.take_header ?_ hg
      rw [List.nil_append, List.length_take]
      exact le_min (le_refl _) hn
    | body hdr got =>
      simp only [SocketThread.step, hp] at h
      refine ⟨hi.stream.read hv h, fun g hg => ?_⟩
      obtain ⟨-, -, hn, rfl⟩ := Stream.read_some h
      dsimp only at hg
      rw [hp] at hg
      exact Framing.take_body hg

/-- As long as something is left, a step can be taken that reads no header in
part: a whole header is there once everything is written. -/
theorem Inv.progress (hv : ∀ f ∈ sent, wire.Valid f) (hi : Inv sent s) (hd : ¬ s.Done) :
    ∃ e, WholeHeader s e ∧ (SocketThread.step s e).isSome := by
  by_cases hs : s.todo = []
  · have hp : s.pipe ≠ [] := fun hp => hd ⟨hs, hp⟩
    let stale : Vector Byte 8 := .replicate 8 0
    cases hph : s.phase with
    | header got =>
      obtain rfl := hi.header got hph
      obtain ⟨rest, he, hc⟩ := hi.stream.cells
      rw [hph, hs, Phase.held, List.flatten_nil, List.append_nil, List.nil_append] at hc
      rcases rest with _ | ⟨f, rest⟩
      · exact absurd hc hp
      have hl : 8 ≤ s.pipe.length := by
        have hf : f.header.length = 8 := (hv f (he ▸ List.mem_append_right _ List.mem_cons_self)).header
        rw [hc, framesCells_cons, List.length_append, hf]
        exact Nat.le_add_right _ _
      refine ⟨.read 8 stale, fun _ _ => rfl, ?_⟩
      simp only [SocketThread.step, hph, readHeader]
      rw [if_pos ⟨by decide, le_refl _, hl⟩]
      rfl
    | body hdr got =>
      refine ⟨.read 1 stale, fun g hg => ?_, ?_⟩
      · rw [hph] at hg
        cases hg
      · simp only [SocketThread.step, hph]
        exact hi.stream.can_read hp
  · exact ⟨.write 1, trivial, hi.stream.can_write hs⟩

theorem left_step {e : SocketEvent} (h : SocketThread.step s e = some t) : t.left < s.left := by
  cases e with
  | write n => exact Stream.left_write h
  | read n stale =>
    cases hp : s.phase with
    | header got =>
      simp only [SocketThread.step, hp, readHeader] at h
      split at h
      · rename_i hn
        cases h
        simp only [Stream.left, List.length_drop]
        omega
      · simp at h
    | body hdr got =>
      simp only [SocketThread.step, hp] at h
      exact Stream.left_step (F := wire) (e := .read n) h

/-! ## A header read in part -/

/-- The loop waits for a payload longer than any message has, or has handed over
one. -/
def Lost (sent : List (Frame Byte)) (s : Stream Byte) : Prop :=
  (∃ hdr got, s.phase = .body hdr got ∧ 2 ^ 24 ≤ headerLength hdr ∧ s.frames.length < sent.length) ∨
    ∃ f ∈ s.frames, 2 ^ 24 ≤ f.body.length

theorem Lost.step {e : SocketEvent} (hl : Lost sent s) (h : SocketThread.step s e = some t) : Lost sent t := by
  cases e with
  | write n =>
    obtain ⟨_, _, _, _, _, rfl⟩ := Stream.write_some h
    exact hl
  | read n stale =>
    cases hp : s.phase with
    | header got =>
      rcases hl with ⟨hdr, g, hph, -⟩ | ⟨f, hf, hb⟩
      · rw [hp] at hph
        cases hph
      · simp only [SocketThread.step, hp, readHeader] at h
        split at h
        · cases h
          exact .inr ⟨f, List.mem_append_left _ hf, hb⟩
        · simp at h
    | body hdr got =>
      simp only [SocketThread.step, hp] at h
      obtain ⟨-, -, -, rfl⟩ := Stream.read_some h
      rcases hl with ⟨hdr', got', hph, hb, hlen⟩ | ⟨f, hf, hb⟩
      · rw [hp] at hph
        cases hph
        rw [Lost, hp, Framing.take]
        dsimp only
        split
        · exact .inl ⟨hdr, _, rfl, hb, by rw [Option.toList_none, List.append_nil]; exact hlen⟩
        · rename_i hge
          exact .inr ⟨_, List.mem_append_right _ List.mem_cons_self, le_trans hb (Nat.not_lt.mp hge)⟩
      · exact .inr ⟨f, List.mem_append_left _ hf, hb⟩

/-- What is handed over is never what was sent. -/
theorem Lost.frames_ne {got want : List Received} (hl : Lost sent s) (hg : s.frames.map Received.ofFrame = got)
    (hn : sent.length = want.length) (hw : ∀ r ∈ want, r.payload.length < 2 ^ 24) : got ≠ want := by
  rintro rfl
  subst hg
  rcases hl with ⟨-, -, -, -, hlen⟩ | ⟨f, hf, hb⟩
  · rw [List.length_map] at hn
    omega
  · have := hw _ (List.mem_map_of_mem hf)
    exact absurd hb (Nat.not_le.mpr this)

/-- Bytes on their way belong to a message that has not been handed over. -/
theorem Inv.next_frame (hi : Inv sent s) (hp : s.pipe ≠ []) : s.frames.length < sent.length := by
  obtain ⟨rest, he, hc⟩ := hi.stream.cells
  rcases rest with _ | ⟨f, rest⟩
  · rw [framesCells_nil, List.append_eq_nil_iff, List.append_eq_nil_iff] at hc
    exact absurd hc.2.1 hp
  · have := congrArg List.length he
    rw [List.length_append, List.length_cons] at this
    omega

/-- What the local variable may hold. -/
def staleOne : Vector Byte 8 := #v[0, 0, 0, 0, 0, 0, 0, 1]

theorem headerLength_stale {chunk : List Byte} (h : chunk.length < 8) :
    2 ^ 24 ≤ headerLength (overlay staleOne.toList chunk) := by
  have hs : staleOne.toList = List.replicate chunk.length 0 ++ (List.replicate (7 - chunk.length) 0 ++ [1]) := by
    rw [← List.append_assoc, List.replicate_append_replicate, Nat.add_sub_cancel' (Nat.le_of_lt_succ h)]
    rfl
  have ho : overlay staleOne.toList chunk = chunk ++ List.replicate (7 - chunk.length) 0 ++ [1] := by
    rw [overlay, List.take_of_length_le (by rw [Vector.length_toList]; omega), hs,
      List.drop_left' (List.length_replicate ..), List.append_assoc]
  have hl : (chunk ++ List.replicate (7 - chunk.length) (0 : Byte)).length = 7 := by
    rw [List.length_append, List.length_replicate]
    omega
  generalize chunk ++ List.replicate (7 - chunk.length) (0 : Byte) = front at ho hl
  have hd : (front.drop 4).length = 3 := by rw [List.length_drop, hl]
  have ht : ((front.drop 4 ++ [1]).take (32 / 8)) = front.drop 4 ++ [1] :=
    List.take_of_length_le (by rw [List.length_append, hd]; decide)
  have hlt : natOfLE (front.drop 4 ++ [1]) < 2 ^ 32 := by
    apply lt_of_lt_of_eq (natOfLE_lt _)
    rw [List.length_append, hd]
    rfl
  have hn : natOfLE (front.drop 4 ++ [1]) = natOfLE (front.drop 4) + 256 ^ 3 * 1 := by
    rw [natOfLE_append, hd]
    rfl
  rw [headerLength, ho, List.drop_append_of_le_length (by omega), ofLeBytes, ht, BitVec.toNat_ofNat,
    Nat.mod_eq_of_lt hlt, hn]
  exact Nat.le_add_left _ _

/-- A header read in part may lose the loop. -/
theorem Inv.lost {got : List Byte} {n : Nat} {stale : Vector Byte 8} (hi : Inv sent s)
    (hp : s.phase = .header got) (hn : n ≠ 8) (h : SocketThread.step s (.read n stale) = some t) :
    ∃ u, SocketThread.step s (.read n staleOne) = some u ∧ Lost sent u := by
  simp only [SocketThread.step, hp, readHeader] at h ⊢
  split at h
  · rename_i hr
    have hl : (s.pipe.take n).length < 8 := by
      rw [List.length_take]
      omega
    have hb := headerLength_stale hl
    have hlen : ([] ++ overlay staleOne.toList (s.pipe.take n)).length = 8 := by
      rw [List.nil_append, length_overlay, Vector.length_toList]
    have ht : wire.take (.header []) (overlay staleOne.toList (s.pipe.take n)) =
        (.body (overlay staleOne.toList (s.pipe.take n)) [], none) := by
      rw [Framing.take, if_neg (by rw [hlen]; decide), List.nil_append, if_neg]
      show headerLength _ ≠ 0
      omega
    refine ⟨_, if_pos hr, .inl ⟨_, [], congrArg Prod.fst ht, hb, ?_⟩⟩
    rw [ht, Option.toList_none, List.append_nil]
    exact hi.next_frame (List.length_pos_iff.mp (by omega))
  · simp at h

/-! ## The messages of the QEMU bridge -/

theorem length_payload_lt (x : ScSent) : x.msg.payload.length < 2 ^ 24 := by
  cases x with
  | dmaReadResp data h =>
    rw [ScSent.msg, SmartEth.dmaReadResp, payload_makeMsg, List.length_append, length_leBytes]
    exact lt_of_le_of_lt (Nat.add_le_add_left h _) (by decide)
  | _ => simp [ScSent.msg, mmioReadReq, mmioWriteMsg, statusMsg]

/-- In a run in which every header comes whole, `socket_thread` calls
`handle_message` with the messages sent, in order, and with all of them when
nothing is left, which it can always go on to; a header read in part may leave it
where it never gets all of them. -/
theorem framing_of_wholeHeader (msgs : List ScSent) {es : List SocketEvent} {t : Stream Byte}
    (hok : Along step WholeHeader (Stream.start (msgs.map ScSent.bytes)) es)
    (h : run step (Stream.start (msgs.map ScSent.bytes)) es = some t) :
    t.frames.map Received.ofFrame <+: msgs.map (·.msg.received) ∧
      (t.Done → t.frames.map Received.ofFrame = msgs.map (·.msg.received)) ∧
      (¬ t.Done → ∃ e, WholeHeader t e ∧ (SocketThread.step t e).isSome) ∧
      es.length ≤ 2 * (msgs.map ScSent.bytes).flatten.length ∧
      ∀ e u, SocketThread.step t e = some u → ¬ WholeHeader t e →
        ∃ n stale v, e = .read n stale ∧ SocketThread.step t (.read n staleOne) = some v ∧
          ∀ es w, run step v es = some w → w.frames.map Received.ofFrame ≠ msgs.map (·.msg.received) := by
  have hb : msgs.map ScSent.bytes = (msgs.map (·.msg.frame)).map Frame.cells := by
    rw [List.map_map]
    exact List.map_congr_left fun x _ => x.bytes_eq
  have hr : (msgs.map (·.msg.frame)).map Received.ofFrame = msgs.map (·.msg.received) := by
    rw [List.map_map]
    exact List.map_congr_left fun x _ => Received.ofFrame_frame _
  have hv : ∀ f ∈ msgs.map (·.msg.frame), wire.Valid f := by
    intro f hf
    obtain ⟨x, -, rfl⟩ := List.mem_map.mp hf
    exact Msg.valid_frame (lt_trans (length_payload_lt x) (by decide))
  rw [hb] at h hok ⊢
  have hi : Inv (msgs.map (·.msg.frame)) t := run_inv_along (fun _ _ _ hi hok hs => Inv.step hv hi hok hs)
    ⟨Stream.Inv.start hv, fun got hg => by cases hg; rfl⟩ hok h
  refine ⟨?_, fun hd => ?_, hi.progress hv, ?_, fun e u he hne => ?_⟩
  · obtain ⟨rest, he, -⟩ := hi.stream.cells
    rw [← hr, he, List.map_append]
    exact List.prefix_append _ _
  · rw [hi.stream.done hv hd, hr]
  · exact le_trans (Nat.le_of_add_right_le (run_length_le (fun _ _ _ hs => left_step hs) h))
      (Nat.le_of_eq (Nat.add_zero _))
  · cases e with
    | write n => exact absurd trivial hne
    | read n stale =>
      simp only [WholeHeader, not_forall] at hne
      obtain ⟨got, hp, hn⟩ := hne
      obtain ⟨v, hv, hl⟩ := hi.lost hp hn he
      refine ⟨n, stale, v, rfl, hv, fun es w hw => ?_⟩
      have hlw : Lost (msgs.map (·.msg.frame)) w := run_inv (fun _ _ _ hl hs => hl.step hs) hl hw
      refine hlw.frames_ne rfl (by rw [List.length_map, List.length_map]) fun r hr => ?_
      obtain ⟨x, -, rfl⟩ := List.mem_map.mp hr
      exact length_payload_lt x

/-- A register read, its payload in two pieces. -/
def exampleWhole : List SocketEvent :=
  [.write 10, .read 8 staleOne, .read 2 staleOne, .write 6, .read 6 staleOne]

theorem framing_whole : ∃ t, run step (Stream.start [(ScSent.mmioRead SC_REG_STATUS).bytes]) exampleWhole = some t ∧
    t.frames.map Received.ofFrame = [⟨0, 8, leBytes SC_REG_STATUS⟩] := by
  have hr : ((run step (Stream.start [(ScSent.mmioRead SC_REG_STATUS).bytes]) exampleWhole).map fun t =>
      (t.todo, t.pipe)) = some ([], []) := by decide +kernel
  obtain ⟨t, ht, hd⟩ := Option.map_eq_some_iff.mp hr
  have hok : Along step WholeHeader (Stream.start [(ScSent.mmioRead SC_REG_STATUS).bytes]) exampleWhole := by
    decide +kernel
  exact ⟨t, ht, (framing_of_wholeHeader [.mmioRead SC_REG_STATUS] hok ht).2.1
    ⟨congrArg Prod.fst hd, congrArg Prod.snd hd⟩⟩

/-- The header of a register read in two pieces, with zeros in the local variable. -/
def exampleSplit : List SocketEvent := [.write 16, .read 4 (.replicate 8 0)]

/-- `handle_message` is called for a message without payload. -/
theorem splitHeader_misread : ∃ t,
    run step (Stream.start [(ScSent.mmioRead SC_REG_STATUS).bytes]) exampleSplit = some t ∧
      ¬ t.frames.map Received.ofFrame <+: [(ScSent.mmioRead SC_REG_STATUS).msg.received] := by
  have hr : ((run step (Stream.start [(ScSent.mmioRead SC_REG_STATUS).bytes]) exampleSplit).map fun t =>
      t.frames.map Received.ofFrame) = some [⟨0, 0, []⟩] := by decide +kernel
  obtain ⟨t, ht, hf⟩ := Option.map_eq_some_iff.mp hr
  refine ⟨t, ht, ?_⟩
  rw [hf]
  decide

end SocketThread

end SmartEth
