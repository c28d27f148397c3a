import SmartEth.System.NetSockets

/-!
# Decoding the injected frames

A thread that is in step with the frames stays in step while it reads data
(`inStep_data`), and at a length exactly if it reads all of it and the frame is not too
long (`inStep_step`): a part of a length is taken for the whole, and of a frame that is
too long only the length is skipped.
-/

namespace SmartEth.NetRx

variable {frames : List (List Byte)} {s t : NetRx}

/-! ## The stream -/

theorem cells_cons (d : List Byte) (ds : List (List Byte)) :
    framesCells ((d :: ds).map wire) = leBytes (BitVec.ofNat 32 d.length) ++ (d ++ framesCells (ds.map wire)) :=
  framesCells_cons _ _

theorem length_cells_cons (d : List Byte) (ds : List (List Byte)) :
    (framesCells ((d :: ds).map wire)).length = 4 + d.length + (framesCells (ds.map wire)).length := by
  rw [cells_cons, List.length_append, List.length_append, length_leBytes]
  omega

theorem length_cells_append (ds ds' : List (List Byte)) :
    (framesCells ((ds ++ ds').map wire)).length =
      (framesCells (ds.map wire)).length + (framesCells (ds'.map wire)).length := by
  simp only [framesCells, List.map_append, List.flatten_append, List.length_append]

/-- Two places in the stream are apart by the frames between them. -/
theorem eq_of_split {pre post pre' post' : List (List Byte)} (h : pre ++ post = pre' ++ post')
    (hle : (framesCells (post.map wire)).length ≤ (framesCells (post'.map wire)).length + 3)
    (hge : (framesCells (post'.map wire)).length ≤ (framesCells (post.map wire)).length + 3) : post = post' := by
  rcases List.append_eq_append_iff.mp h with ⟨a, -, he⟩ | ⟨a, -, he⟩
  · rcases a with _ | ⟨d, a⟩
    · exact he
    · rw [he, length_cells_append, length_cells_cons] at hle
      omega
  · rcases a with _ | ⟨d, a⟩
    · exact he.symm
    · rw [he, length_cells_append, length_cells_cons] at hge
      omega

/-- Only an empty frame is as short as its length. -/
theorem empty_of_split {pre post pre' post' : List (List Byte)} (h : pre ++ post = pre' ++ post')
    (hlt : (framesCells (post'.map wire)).length < (framesCells (post.map wire)).length)
    (hle : (framesCells (post.map wire)).length ≤ (framesCells (post'.map wire)).length + 4) :
    post = [] :: post' := by
  rcases List.append_eq_append_iff.mp h with ⟨a, -, he⟩ | ⟨a, -, he⟩
  · rcases a with _ | ⟨d, _ | ⟨d', a⟩⟩
    · rw [he] at hlt
      exact absurd hlt (Nat.lt_irrefl _)
    · rw [he, List.singleton_append, length_cells_cons] at hle
      obtain rfl := List.eq_nil_of_length_eq_zero (by omega : d.length = 0)
      exact he
    · rw [he, length_cells_append, length_cells_cons, length_cells_cons] at hle
      omega
  · rw [he, length_cells_append] at hlt
    omega

/-- The length at the front of the stream. -/
theorem ofLeBytes_cells {d : List Byte} (hd : d.length < 2 ^ 32) (ds : List (List Byte)) :
    (ofLeBytes 32 (framesCells ((d :: ds).map wire))).toNat = d.length := by
  rw [cells_cons, ofLeBytes_leBytes (by decide), BitVec.toNat_ofNat, Nat.mod_eq_of_lt hd]

/-- A length that is read as a whole. -/
theorem ofLeBytes_whole {bs : List Byte} (h : 4 ≤ bs.length) (stale : BitVec 32) :
    ofLeBytes 32 (overlay (leBytes stale) (bs.take 4)) = ofLeBytes 32 bs := by
  rw [overlay_eq, ofLeBytes, ofLeBytes, List.take_take]
  · rfl
  · rw [List.length_take, length_leBytes]
    omega

/-! ## One read -/

theorem step_some {e : NetRead} (h : s.step e = some t) :
    s.netif.phase ≠ .returned ∧ e.n ≤ s.netif.asked ∧ e.n ≤ s.stream.length ∧ (e.n = 0 → s.stream = []) ∧
      t = ⟨s.stream.drop e.n, s.netif.onRead e.stale (s.stream.take e.n)⟩ := by
  rw [step] at h
  split at h
  · rename_i hc
    exact ⟨hc.1, hc.2.1, hc.2.2.1, hc.2.2.2, (Option.some.inj h).symm⟩
  · cases h

/-- At a length, the thread waits for it, has it now, or has come to the end of the stream. -/
theorem step_length {e : NetRead} (hp : s.netif.phase = .length) (h : s.step e = some t) :
    (s.stream = [] ∧ t = ⟨[], { s.netif with phase := .returned }⟩) ∨
    (0 < e.n ∧ e.n ≤ 4 ∧ e.n ≤ s.stream.length ∧
      ∃ pktLen, pktLen = ofLeBytes 32 (overlay (leBytes e.stale) (s.stream.take e.n)) ∧
        t = ⟨s.stream.drop e.n,
          if pktLen = 0 ∨ pktLen > 16384 then s.netif else { s.netif with phase := .data pktLen [] }⟩) := by
  obtain ⟨-, hask, hlen, h0, rfl⟩ := step_some h
  rw [NetIf.asked, hp] at hask
  by_cases hn : e.n = 0
  · refine .inl ⟨h0 hn, ?_⟩
    rw [h0 hn, List.take_nil, List.drop_nil, NetIf.onRead, hp]
    rfl
  · have hne : s.stream.take e.n ≠ [] := by
      rw [Ne, List.take_eq_nil_iff]
      rintro (h' | h')
      · exact hn h'
      · rw [h', List.length_nil] at hlen
        omega
    refine .inr ⟨Nat.pos_of_ne_zero hn, hask, hlen, _, rfl, ?_⟩
    rw [NetIf.onRead, hp]
    dsimp only
    rw [if_neg hne]

/-- A whole length that is not too large keeps the thread in step. -/
theorem inStep_length {e : NetRead} (hv : ∀ d ∈ frames, d.length < 2 ^ 32) (hi : InStep frames s)
    (hp : s.netif.phase = .length) (he : ReadsLength s e) (h : s.step e = some t) : InStep frames t := by
  obtain ⟨pre, post, hf, hc, hs⟩ := hi
  rw [hp] at hs
  dsimp only at hs
  rcases step_length hp h with ⟨hnil, rfl⟩ | ⟨hpos, -, hlen, pktLen, hpkt, rfl⟩
  · refine ⟨pre, post, hf, hc, ?_⟩
    rcases post with _ | ⟨d, post⟩
    · rfl
    · have hl := congrArg List.length (hs.symm.trans hnil)
      rw [length_cells_cons, List.length_nil] at hl
      omega
  · have hne : s.stream ≠ [] := by
      intro h0
      rw [h0, List.length_nil] at hlen
      omega
    obtain ⟨h4, hle⟩ := he hp hne
    rw [h4] at hlen hpkt ⊢
    rw [ofLeBytes_whole hlen] at hpkt
    rcases post with _ | ⟨d, post⟩
    · exact absurd hs hne
    have hd : d.length < 2 ^ 32 := hv d (hf ▸ List.mem_append_right _ List.mem_cons_self)
    have hnat : pktLen.toNat = d.length := by
      rw [hpkt, hs, ofLeBytes_cells hd]
    rw [← hpkt] at hle
    have hheader : (leBytes (BitVec.ofNat 32 d.length)).length = 4 := length_leBytes _
    have hrest : s.stream.drop 4 = d ++ framesCells (post.map wire) := by
      rw [hs, cells_cons, List.drop_left' hheader]
    have hsmall : ¬ pktLen > 16384 := fun hgt => Nat.not_lt.mpr hle (BitVec.lt_def.mp hgt)
    by_cases h0 : pktLen = 0
    · -- an empty frame is skipped as a whole
      rw [if_pos (.inl h0)]
      obtain rfl := List.eq_nil_of_length_eq_zero (hnat.symm.trans (congrArg BitVec.toNat h0))
      refine ⟨pre ++ [[]], post, by rw [hf, List.append_assoc]; rfl, ?_, ?_⟩
      · rw [hc, List.filter_append]
        exact (List.append_nil _).symm
      · rw [hp]
        exact hrest
    · rw [if_neg (not_or.mpr ⟨h0, hsmall⟩)]
      have hpos : 0 < d.length := by
        rw [← hnat]
        exact Nat.pos_of_ne_zero fun h => h0 (BitVec.eq_of_toNat_eq h)
      exact ⟨pre, d :: post, hf, hc, d, post, List.ne_nil_of_length_pos hpos, rfl, ⟨hpos, hnat ▸ hle⟩, hnat, hrest⟩

/-- After any other read of a length it is out of step. -/
theorem readsLength_of_inStep {e : NetRead} (hi : InStep frames s) (hp : s.netif.phase = .length)
    (h : s.step e = some t) (ht : InStep frames t) : ReadsLength s e := by
  intro _ hne
  obtain ⟨pre, post, hf, hc, hs⟩ := hi
  rw [hp] at hs
  dsimp only at hs
  obtain ⟨pre', post', hf', hc', hs'⟩ := ht
  rcases step_length hp h with ⟨hnil, -⟩ | ⟨hpos, hle, hlen, pktLen, hpkt, rfl⟩
  · exact absurd hnil hne
  have hsplit := hf.symm.trans hf'
  by_cases hcond : pktLen = 0 ∨ pktLen > 16384
  · rw [if_pos hcond] at hs'
    dsimp only at hs'
    rw [hp] at hs'
    dsimp only at hs'
    have hl := congrArg List.length hs'
    rw [List.length_drop, hs] at hl
    rw [hs] at hlen
    -- back at a length, the thread can only have passed an empty frame
    have hpost : post = [] :: post' := empty_of_split hsplit (by omega) (by omega)
    rw [hpost, length_cells_cons, List.length_nil] at hl hlen
    refine ⟨by omega, ?_⟩
    rw [hs, hpost, ofLeBytes_cells (by decide)]
    exact Nat.zero_le _
  · rw [if_neg hcond] at hs'
    dsimp only at hs'
    obtain ⟨rest, post'', -, rfl, -, -, hs'⟩ := hs'
    have hl := congrArg List.length hs'
    rw [List.length_drop, List.length_append, hs] at hl
    have hcells := length_cells_cons ([] ++ rest) post''
    rw [List.nil_append] at hcells hsplit
    rw [hs] at hlen
    have hpost : post = rest :: post'' := eq_of_split hsplit (by omega) (by omega)
    rw [← hpost] at hcells
    have h4 : e.n = 4 := by omega
    refine ⟨h4, ?_⟩
    rw [h4, ← hs] at hlen
    rw [h4, ofLeBytes_whole hlen] at hpkt
    rw [← hpkt]
    exact Nat.not_lt.mp fun hgt => hcond (.inr (BitVec.lt_def.mpr hgt))

/-- Data is read to its end, however it is split. -/
theorem inStep_data {e : NetRead} {pktLen : BitVec 32} {buf : List Byte} (hi : InStep frames s)
    (hp : s.netif.phase = .data pktLen buf) (h : s.step e = some t) : InStep frames t := by
  obtain ⟨pre, post, hf, hc, hs⟩ := hi
  rw [hp] at hs
  obtain ⟨rest, post', hrest, rfl, hd, hlen, hs⟩ := hs
  obtain ⟨-, hask, -, h0, rfl⟩ := step_some h
  rw [NetIf.asked, hp] at hask
  dsimp only at hask
  rw [hlen, List.length_append, Nat.add_sub_cancel_left] at hask
  have hpos : 0 < rest.length := List.length_pos_iff.mpr hrest
  have hn : 0 < e.n := by
    refine Nat.pos_of_ne_zero fun hz => hrest ?_
    rw [h0 hz] at hs
    exact (List.append_eq_nil_iff.mp hs.symm).1
  have htake : s.stream.take e.n = rest.take e.n := by
    rw [hs, List.take_append_of_le_length hask]
  have hdrop : s.stream.drop e.n = rest.drop e.n ++ framesCells (post'.map wire) := by
    rw [hs, List.drop_append_of_le_length hask]
  have hlt : (rest.take e.n).length = e.n := by
    rw [List.length_take]
    omega
  have hne : rest.take e.n ≠ [] := List.ne_nil_of_length_pos (by omega)
  rw [htake, hdrop, NetIf.onRead, hp]
  dsimp only
  rw [if_neg hne, hlen, List.length_append, hlt, List.length_append]
  by_cases hend : buf.length + e.n < buf.length + rest.length
  · rw [if_pos hend]
    have hjoin : buf ++ rest.take e.n ++ rest.drop e.n = buf ++ rest := by
      rw [List.append_assoc, List.take_append_drop]
    refine ⟨pre, _, hf, hc, rest.drop e.n, post', ?_, by rw [hjoin], by rwa [hjoin], by rwa [hjoin], rfl⟩
    rw [Ne, List.drop_eq_nil_iff]
    omega
  · rw [if_neg hend]
    have hall : rest.take e.n = rest := List.take_of_length_le (by omega)
    have hnil : rest.drop e.n = [] := List.drop_eq_nil_iff.mpr (by omega)
    rw [hall, hnil]
    refine ⟨pre ++ [buf ++ rest], post', by rw [hf, List.append_assoc]; rfl, ?_, rfl⟩
    rw [hc, List.filter_append, List.filter_singleton, decide_eq_true hd]
    rfl

theorem inStep_step {e : NetRead} (hv : ∀ d ∈ frames, d.length < 2 ^ 32) (hi : InStep frames s)
    (h : s.step e = some t) : InStep frames t ↔ ReadsLength s e := by
  cases hp : s.netif.phase with
  | length => exact ⟨readsLength_of_inStep hi hp h, fun he => inStep_length hv hi hp he h⟩
  | data pktLen buf =>
    refine iff_of_true (inStep_data hi hp h) fun hl => ?_
    cases hp.symm.trans hl
  | returned => exact absurd hp (step_some h).1

/-! ## Runs -/

/-- At the end of the stream the callback has been called for every frame that it is to be called for. -/
theorem InStep.calls (hi : InStep frames s) (hs : s.stream = []) :
    s.netif.calls = frames.filter (Deliverable ·) := by
  obtain ⟨pre, post, hf, hc, hph⟩ := hi
  have hpost : post = [] := by
    rcases post with _ | ⟨d, post⟩
    · rfl
    cases hp : s.netif.phase with
    | length =>
      rw [hp] at hph
      have hl := congrArg List.length (hph.symm.trans hs)
      rw [length_cells_cons, List.length_nil] at hl
      omega
    | data pktLen buf =>
      rw [hp] at hph
      obtain ⟨rest, post', hrest, -, -, -, hph⟩ := hph
      exact absurd (List.append_eq_nil_iff.mp (hph.symm.trans hs)).1 hrest
    | returned =>
      rw [hp] at hph
      exact hph
  rw [hc, hf, hpost, List.append_nil]

theorem inStep_start (frames : List (List Byte)) : InStep frames (start frames) := ⟨[], frames, rfl, rfl, rfl⟩

/-- For all frames, and however the stream is split: the thread is in step with them all along if and only if every
read of a length returns all of it, and no frame is too long; and then the callback has been called, at the end of
the stream, for exactly the frames of length 1 to 16384, in order. -/
theorem inStep_iff_readsLength {es : List NetRead} (hv : ∀ d ∈ frames, d.length < 2 ^ 32)
    (h : run step (start frames) es = some t) :
    (Always step (InStep frames) (start frames) es ↔ Along step ReadsLength (start frames) es) ∧
      (Along step ReadsLength (start frames) es → t.stream = [] →
        t.netif.calls = frames.filter (Deliverable ·)) := by
  have hiff : Always step (InStep frames) (start frames) es ↔ Along step ReadsLength (start frames) es := by
    refine always_iff_along (I := fun _ => True) ?_ ?_ trivial (inStep_start frames) ?_
    · exact fun _ _ _ _ _ => trivial
    · exact fun _ _ _ _ hi he => inStep_step hv hi he
    · rw [h]
      rfl
  exact ⟨hiff, fun ha hs => (hiff.mpr ha es (List.prefix_refl _) t h).calls hs⟩

/-- A frame of one byte, of whose length the first `read` returns the first byte only. -/
def exampleSplit : List NetRead := [⟨1, 0⟩, ⟨1, 0⟩, ⟨3, 0⟩, ⟨0, 0⟩]

/-- The callback gets the second byte of the length. -/
theorem split_length_misread : ¬ ∀ (frames : List (List Byte)) (es : List NetRead) (t : NetRx),
    (∀ d ∈ frames, d.length < 2 ^ 32) → run step (start frames) es = some t → t.stream = [] →
      t.netif.calls = frames.filter (Deliverable ·) := by
  intro h
  have hr : (run step (start [[1]]) exampleSplit).map (fun t => (t.stream, t.netif.calls)) = some ([], [[0]]) := by
    decide
  obtain ⟨t, ht, he⟩ := Option.map_eq_some_iff.mp hr
  obtain ⟨hs, hc⟩ := Prod.mk.inj he
  have hcalls := h [[1]] exampleSplit t (by decide) ht hs
  rw [hc] at hcalls
  exact absurd hcalls (by decide)

/-- Two frames of which the lengths are read whole, the data of the first in two parts. -/
def exampleReads : List NetRead := [⟨4, 0⟩, ⟨1, 0⟩, ⟨2, 0⟩, ⟨4, 0⟩, ⟨1, 0⟩, ⟨0, 0⟩]

theorem inStep_iff_readsLength_reads : ∃ t, run step (start [[1, 2, 3], [4]]) exampleReads = some t ∧
    Always step (InStep [[1, 2, 3], [4]]) (start [[1, 2, 3], [4]]) exampleReads ∧ t.netif.calls = [[1, 2, 3], [4]] := by
  have hr : (run step (start [[1, 2, 3], [4]]) exampleReads).map (fun t => t.stream) = some [] := by decide
  obtain ⟨t, ht, hs⟩ := Option.map_eq_some_iff.mp hr
  have hok : Along step ReadsLength (start [[1, 2, 3], [4]]) exampleReads := by decide +kernel
  obtain ⟨hiff, hcalls⟩ := inStep_iff_readsLength (by decide) ht
  exact ⟨t, ht, hiff.mpr hok, hcalls hok hs⟩

end SmartEth.NetRx
