import SmartEth.System.DmaCalls

/-!
# Answers to DMA reads

`m_dma_pending` does not say whose answer it waits for. A `dma_read` that begins
while nothing is on its way finds only the answer to its own request, at every
stage of the call (`Phase`), and so returns its data (`matched_of_drained`). One
that begins before the acknowledgement of a `dma_write` has come returns with
that (`read_after_write`).
-/

namespace SmartEth.DmaCalls

open ScBridge

/-- How far a call has come that began while nothing was on its way. -/
inductive Phase (s : DmaCalls) : Prop
  | none (call : s.call = none)
  | begun {len : Word} (call : s.call = some ⟨len, Option.none⟩)
      (pending : s.link.bridge.dmaPending = true) (drained : s.link.Drained)
  | asked {len : Word} {num : Nat} {addr : Addr} (call : s.call = some ⟨len, some num⟩)
      (pending : s.link.bridge.dmaPending = true) (req : s.link.toQemu = [(num, dmaReadReq addr len)])
      (rep : s.link.fromQemu = [])
  | answered {len : Word} {num : Nat} {data : List Byte} (call : s.call = some ⟨len, some num⟩)
      (pending : s.link.bridge.dmaPending = true) (req : s.link.toQemu = [])
      (rep : s.link.fromQemu = [(some num, dmaReadResp data)]) (answer : (num, data) ∈ s.answers)
      (short : data.length ≤ len.toNat)
  | done {len : Word} {num : Nat} (call : s.call = some ⟨len, some num⟩) (drained : s.link.Drained)
      (answer : (num, s.link.bridge.dmaResp) ∈ s.answers) (short : s.link.bridge.dmaResp.length ≤ len.toNat)

structure Inv (s : DmaCalls) : Prop where
  phase : Phase s
  matched : Matched s

variable {s t : DmaCalls}

/-- QEMU's answer to the request of a call. -/
theorem nextAnswer_dmaReadReq {l : Link} {num : Nat} {addr : Addr} {len : Word} {rest : List (Nat × Msg)}
    (h : l.toQemu = (num, dmaReadReq addr len) :: rest) :
    l.nextAnswer = [(num, l.mem.read addr (dmaLen len))] := by
  have hp : (dmaReadResp (l.mem.read addr (dmaLen len))).payload.drop 4 = l.mem.read addr (dmaLen len) :=
    List.drop_left' (length_leBytes _)
  have hk : (dmaReadResp (l.mem.read addr (dmaLen len))).kind = some .dmaRead := kind_makeMsg _ _
  simp only [Link.nextAnswer, h, handleMsg_dmaReadReq, List.filter_cons, hk, decide_true, ite_true,
    List.filter_nil, List.map_cons, List.map_nil, hp]

theorem Phase.qemu (h : Phase s) {l : Link} (hq : s.link.qemuStep = some l) :
    Phase { s with link := l, answers := s.answers ++ s.link.nextAnswer } := by
  cases h with
  | none call => exact .none call
  | begun call pending drained =>
    rw [Link.qemuStep, drained.1] at hq; cases hq
  | @asked len num addr call pending req rep =>
    have ha := nextAnswer_dmaReadReq req
    simp only [Link.qemuStep, req, handleMsg_dmaReadReq, Option.some.injEq] at hq
    subst hq
    refine .answered call pending rfl (by rw [rep]; rfl)
      (List.mem_append_right _ (ha ▸ List.mem_singleton_self _)) ?_
    rw [Mem.length_read]
    exact Nat.min_le_left _ _
  | answered call pending req rep answer short =>
    rw [Link.qemuStep, req] at hq; cases hq
  | done call drained answer short =>
    rw [Link.qemuStep, drained.1] at hq; cases hq

theorem Phase.socket (h : Phase s) {l : Link} (hq : s.link.recv = some l) : Phase { s with link := l } := by
  cases h with
  | none call => exact .none call
  | begun call pending drained =>
    rw [Link.recv, drained.2] at hq; cases hq
  | asked call pending req rep =>
    rw [Link.recv, rep] at hq; cases hq
  | answered call pending req rep answer short =>
    simp only [Link.recv, rep, PcieBridge.handleMessage_dmaReadResp, List.foldl_nil,
      Option.some.injEq] at hq
    subst hq
    exact .done call ⟨req, rfl⟩ answer short
  | done call drained answer short =>
    rw [Link.recv, drained.2] at hq; cases hq

theorem Inv.step {e : DmaCallEvent} (h : Inv s) (hok : ReadsDrained s e) (he : s.step e = some t) : Inv t := by
  obtain ⟨hp, hm⟩ := h
  cases e with
  | readBegin len =>
    simp only [DmaCalls.step] at he
    split at he
    · rw [Option.ite_none_right_eq_some, Option.some.injEq] at he
      obtain ⟨-, rfl⟩ := he
      exact ⟨.begun rfl rfl hok, hm⟩
    · simp at he
  | readSend addr =>
    simp only [DmaCalls.step] at he
    split at he
    · rename_i len hc
      cases he
      cases hp with
      | begun call pending drained =>
        rw [hc] at call
        cases call
        have hreq : (s.link.send (dmaReadReq addr len)).toQemu = [(s.link.count, dmaReadReq addr len)] :=
          congrArg (· ++ [(s.link.count, dmaReadReq addr len)]) drained.1
        exact ⟨.asked rfl pending hreq drained.2, hm⟩
      | none call | asked call _ _ _ | answered call _ _ _ _ _ | done call _ _ _ =>
        rw [hc] at call; cases call
    · simp at he
  | readUnsent =>
    simp only [DmaCalls.step] at he
    split at he
    · cases he
      exact ⟨.none rfl, hm⟩
    · simp at he
  | readReturn =>
    simp only [DmaCalls.step] at he
    split at he
    · rename_i len num hc
      rw [Option.ite_none_left_eq_some, Option.some.injEq] at he
      obtain ⟨hpend, rfl⟩ := he
      refine ⟨.none rfl, fun r hr => ?_⟩
      rcases List.mem_append.mp hr with hr | hr
      · exact hm r hr
      · rw [List.mem_singleton.mp hr]
        cases hp with
        | done call _ answer short =>
          rw [hc] at call
          cases call
          rw [PcieBridge.dmaReadResult, List.take_of_length_le short]
          exact answer
        | none call | begun call _ _ => rw [hc] at call; cases call
        | asked _ pending _ _ | answered _ pending _ _ _ _ => exact absurd pending hpend
    · simp at he
  | readTimeout =>
    simp only [DmaCalls.step] at he
    split at he
    · rw [Option.ite_none_right_eq_some, Option.some.injEq] at he
      obtain ⟨-, rfl⟩ := he
      exact ⟨.none rfl, hm⟩
    · simp at he
  | write addr data =>
    simp only [DmaCalls.step] at he
    split at he
    · rename_i hc
      rw [Option.ite_none_right_eq_some, Option.some.injEq] at he
      obtain ⟨-, rfl⟩ := he
      exact ⟨.none hc, hm⟩
    · simp at he
  | qemu =>
    simp only [DmaCalls.step, Option.map_eq_some_iff] at he
    obtain ⟨l, hl, rfl⟩ := he
    exact ⟨hp.qemu hl, fun r hr => List.mem_append_left _ (hm r hr)⟩
  | socket =>
    simp only [DmaCalls.step, Option.map_eq_some_iff] at he
    obtain ⟨l, hl, rfl⟩ := he
    exact ⟨hp.socket hl, hm⟩
  | guest addr data =>
    cases he
    refine ⟨?_, hm⟩
    cases hp with
    | none call => exact .none call
    | begun call pending drained => exact .begun call pending drained
    | asked call pending req rep => exact .asked call pending req rep
    | answered call pending req rep answer short => exact .answered call pending req rep answer short
    | done call drained answer short => exact .done call drained answer short

theorem Inv.start (h : Start s) : Inv s :=
  ⟨.none h.call, fun r hr => by rw [h.returned] at hr; cases hr⟩

/-- In every state of a run whose reads all begin when nothing is on its way,
each `dma_read` that returned true returned the data of the answer to its own
request. -/
theorem matched_of_drained {es : List DmaCallEvent} (h0 : Start s) (hok : Along step ReadsDrained s es)
    (h : run step s es = some t) : Matched t :=
  (run_inv_along (fun _ _ _ hi hok he => Inv.step hi hok he) (.start h0) hok h).matched

/-- Connected, with 1, 2, 3, 4 at `0x2000` in guest memory. -/
def exampleStart : DmaCalls where
  link :=
    { bridge := ⟨true, false, []⟩, nic := .new, qemu := ⟨true, true, false, 0, 0, fun _ => 0⟩,
      mem := Mem.write (fun _ => 0) 0x2000 [1, 2, 3, 4], toQemu := [], fromQemu := [], count := 0 }
  call := none
  returned := []
  answers := []

theorem exampleStart_start : Start exampleStart := ⟨rfl, ⟨rfl, rfl⟩, rfl⟩

/-- A read, and a write that is acknowledged before the next read. -/
def exampleDrained : List DmaCallEvent :=
  [.readBegin 4, .readSend 0x2000, .qemu, .socket, .readReturn, .write 0x3000 [5], .qemu, .socket,
    .readBegin 4]

theorem exampleDrained_along : Along step ReadsDrained exampleStart exampleDrained := by
  refine ⟨⟨rfl, rfl⟩, fun s₁ h₁ => ⟨trivial, fun s₂ h₂ => ⟨trivial, fun s₃ h₃ => ⟨trivial, fun s₄ h₄ =>
    ⟨trivial, fun s₅ h₅ => ⟨trivial, fun s₆ h₆ => ⟨trivial, fun s₇ h₇ => ⟨trivial, fun s₈ h₈ =>
      ⟨?_, fun _ _ => trivial⟩⟩⟩⟩⟩⟩⟩⟩⟩
  cases h₁; cases h₂; cases h₃; cases h₄; cases h₅; cases h₆; cases h₇; cases h₈
  exact ⟨rfl, rfl⟩

theorem matched_of_drained_one : ∃ t, run step exampleStart exampleDrained = some t ∧
    t.returned = [(0, [1, 2, 3, 4])] ∧ Matched t := by
  have hr : ((run step exampleStart exampleDrained).map fun t => t.returned) =
      some [(0, [1, 2, 3, 4])] := by decide +kernel
  obtain ⟨t, ht, he⟩ := Option.map_eq_some_iff.mp hr
  exact ⟨t, ht, he, matched_of_drained exampleStart_start exampleDrained_along ht⟩

/-- A descriptor write-back, and the next descriptor read before it is acknowledged. -/
def exampleAck : List DmaCallEvent :=
  [.write 0x1000 [9], .readBegin 4, .readSend 0x2000, .qemu, .socket, .readReturn]

/-- A read that timed out, and the next one. -/
def exampleLate : List DmaCallEvent :=
  [.readBegin 4, .readSend 0x2000, .readTimeout, .readBegin 4, .readSend 0x4000, .qemu, .socket, .readReturn]

/-- The acknowledgement completes the read with nothing; the late answer completes
it with the data of another request. -/
theorem read_after_write : (∃ t, run step exampleStart exampleAck = some t ∧ t.returned = [(1, [])] ∧
      ¬ Matched t) ∧
    ∃ t, run step exampleStart exampleLate = some t ∧ t.returned = [(1, [1, 2, 3, 4])] ∧ ¬ Matched t := by
  have h1 : ((run step exampleStart exampleAck).map fun t => (t.returned, t.answers)) =
      some ([(1, [])], []) := by decide +kernel
  have h2 : ((run step exampleStart exampleLate).map fun t => (t.returned, t.answers)) =
      some ([(1, [1, 2, 3, 4])], [(0, [1, 2, 3, 4])]) := by decide +kernel
  obtain ⟨t, ht, he⟩ := Option.map_eq_some_iff.mp h1
  obtain ⟨u, hu, hd⟩ := Option.map_eq_some_iff.mp h2
  rw [Prod.mk.injEq] at he hd
  refine ⟨⟨t, ht, he.1, fun hm => ?_⟩, u, hu, hd.1, fun hm => ?_⟩
  · have := hm (1, []) (he.1 ▸ List.mem_singleton_self _)
    rw [he.2] at this
    cases this
  · have := hm (1, [1, 2, 3, 4]) (hd.1 ▸ List.mem_singleton_self _)
    rw [hd.2] at this
    exact absurd this (by decide)

end SmartEth.DmaCalls
