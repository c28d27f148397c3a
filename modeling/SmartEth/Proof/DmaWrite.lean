import SmartEth.Proof.DmaRead

/-!
# A DMA write from end to end

`dma_write` returns true when the request is sent, before anything is written
(`inFull_iff_closed`). What QEMU writes when it comes to the request is at most
`DMA_BUF_SIZE` bytes (`written_of_run`, `part_eq_iff`).
-/

namespace SmartEth.DmaWrite

open Link

variable {s t : DmaWrite} (pci : PciDma) (addr : Addr) {data : List Byte}

/-- Without a socket, `dma_write` returns false. -/
def Closed (s : DmaWrite) : Prop := s.link.bridge.sockOpen = false ∧ s.returned ≠ some true

theorem closed_step {e : DmaWriteEvent} (h : Closed s) (he : step pci addr data s e = some t) : Closed t := by
  obtain ⟨hs, hr⟩ := h
  cases e with
  | call ok =>
    simp only [step, hs, Bool.false_and, Bool.false_eq_true, if_false] at he
    split at he <;> cases he
    exact ⟨hs, by simp⟩
  | link e =>
    obtain ⟨l, hl, rfl⟩ := Option.map_eq_some_iff.mp he
    exact ⟨(sockOpen_event hl).trans hs, hr⟩

/-- In every run, a `dma_write` that returns true has been performed in full, if and
only if there is no socket: with one, whatever is to be written, and wherever, the
call can return true before QEMU comes to the request. -/
theorem inFull_iff_closed (data : List Byte) (h0 : Start s) :
    (∀ es t, run (step pci addr data) s es = some t → t.returned = some true → InFull addr data t) ↔
      s.link.bridge.sockOpen = false := by
  constructor
  · intro h
    by_contra hopen
    rw [Bool.not_eq_false] at hopen
    let t : DmaWrite := { s with link := s.link.send (dmaWriteReq addr data), returned := some true }
    have ht : run (step pci addr data) s [.call true] = some t := by
      simp only [run, step, h0.returned, hopen, Bool.and_self, if_true, Option.bind_some]
      rfl
    obtain ⟨before, after, hs, -⟩ := h _ t ht rfl
    rw [show t.served = none from h0.served] at hs
    cases hs
  · intro hs es t h ht
    have hc : Closed s := ⟨hs, by rw [h0.returned]; simp⟩
    exact absurd ht (run_inv (fun _ _ _ hi he => closed_step pci addr hi he) hc h).2

/-- What QEMU writes of the data. -/
def part (pci : PciDma) (addr : Addr) (data : List Byte) : List Byte :=
  if pci.writeOk addr (data.take DMA_BUF_SIZE).length then data.take DMA_BUF_SIZE
  else (data.take DMA_BUF_SIZE).take pci.part

/-- What has been served of the write. -/
def Written (pci : PciDma) (addr : Addr) (data : List Byte) (s : DmaWrite) : Prop :=
  ∀ before after, s.served = some (before, after) → after = before.write addr (part pci addr data)

theorem written_step {e : DmaWriteEvent} (hl : data.length < 2 ^ 32) (h : Written pci addr data s)
    (he : step pci addr data s e = some t) : Written pci addr data t := by
  cases e with
  | call ok =>
    simp only [step] at he
    split at he
    · split at he <;> cases he <;> exact h
    · simp at he
  | link e =>
    obtain ⟨l, hl', rfl⟩ := Option.map_eq_some_iff.mp he
    intro before after hs
    rcases Option.or_eq_some_iff.mp hs with hs | ⟨-, hs⟩
    · cases e with
      | qemu =>
        cases hto : s.link.toQemu with
        | nil => simp [Link.serves, hto] at hs
        | cons x rest =>
          obtain ⟨num, m⟩ := x
          rw [serves_qemu hto, Option.ite_none_right_eq_some] at hs
          obtain ⟨rfl, hs⟩ := hs
          simp only [Link.event, qemuStepPci, hto, ScBridge.handleMsgPci_dmaWriteReq _ _ _ _ hl,
            Option.some.injEq] at hl'
          subst hl'
          cases hs
          rfl
      | _ => cases hs
    · exact h before after hs

/-- QEMU writes all of the data only if it is not over `DMA_BUF_SIZE`, and
`pci_dma_write` does not fall short. -/
theorem part_eq_iff (data : List Byte) : part pci addr data = data ↔
    data.length ≤ DMA_BUF_SIZE ∧ (pci.writeOk addr data.length = true ∨ data.length ≤ pci.part) := by
  constructor
  · intro h
    have hle : data.length ≤ DMA_BUF_SIZE := by
      have hlen := congrArg List.length h
      unfold part at hlen
      split at hlen <;> simp only [List.length_take] at hlen <;> omega
    rw [part, List.take_of_length_le hle] at h
    split at h <;> rename_i hok
    · exact ⟨hle, .inl hok⟩
    · exact ⟨hle, .inr ((List.take_eq_self_iff _).mp h)⟩
  · rintro ⟨hle, hok⟩
    rw [part, List.take_of_length_le hle]
    rcases hok with hok | hok
    · rw [if_pos hok]
    · rw [List.take_of_length_le hok, ite_self]

/-- In every run, what QEMU has written is that part, at its place. -/
theorem written_of_run {es : List DmaWriteEvent} (h0 : Start s) (hl : data.length < 2 ^ 32)
    (h : run (step pci addr data) s es = some t) : Written pci addr data t := by
  refine run_inv (fun _ _ _ hi he => written_step pci addr hl hi he) (fun _ _ hs => ?_) h
  rw [h0.served] at hs
  cases hs

def exampleStart : DmaWrite where
  link := {
    bridge := ⟨true, false, []⟩
    nic := .new
    qemu := ⟨true, true, false, 0, 0, ScBridge.resetRegs⟩
    mem := fun _ => 0
    toQemu := []
    fromQemu := []
    count := 0 }
  returned := none
  served := none

/-- The call has returned true, and guest memory is as it was. -/
theorem returns_before_write : ∃ t, run (step .exact 0x1000 [1, 2, 3]) exampleStart [.call true] = some t ∧
    t.returned = some true ∧ t.link.mem.read 0x1000 3 = [0, 0, 0] ∧ ¬ InFull 0x1000 [1, 2, 3] t := by
  have hr : ((run (step .exact 0x1000 [1, 2, 3]) exampleStart [.call true]).map fun t =>
      (t.returned, t.link.mem.read 0x1000 3, t.served.isNone)) = some (some true, [0, 0, 0], true) := by
    decide +kernel
  obtain ⟨t, ht, he⟩ := Option.map_eq_some_iff.mp hr
  rw [Prod.mk.injEq, Prod.mk.injEq, Option.isNone_iff_eq_none] at he
  refine ⟨t, ht, he.1, he.2.1, ?_⟩
  rintro ⟨before, after, hs, -⟩
  rw [he.2.2] at hs
  cases hs

theorem inFull_iff_closed_open : ¬ ∀ es t, run (step .exact 0x1000 [1, 2, 3]) exampleStart es = some t →
    t.returned = some true → InFull 0x1000 [1, 2, 3] t := by
  intro h
  cases (inFull_iff_closed .exact 0x1000 [1, 2, 3] ⟨rfl, rfl, .nil⟩).mp h

end SmartEth.DmaWrite
