import SmartEth.Proof.RoundTrip
import SmartEth.System.IoThread

/-!
# The I/O thread does what the messages are for

A message that was encoded and is handled byte by byte has its effect (`onMsg_eq`). As the library
takes the stream apart (`Dispatch.refines_from`), a run of the I/O thread among the guest's accesses
is one of whole messages among them, each done once and in order (`io_thread_refines`).
-/

namespace SmartEth.QemuSide

variable {pci : PciDma} {s t : QemuSide}

theorem onMsg_eq (s : QemuSide) (x : PcieSent) (beyond : Nat → Byte) :
    s.onMsg pci beyond x.msg.received = x.effect pci s := by
  have hfields : (ScBridge.readMsg x.msg.received.type x.msg.received.length).eval
      (buffer x.msg.received.payload beyond) = x.fields := x.request_eq beyond
  unfold onMsg
  rw [hfields]
  cases x <;> simp only [PcieSent.fields, ScBridge.perform, PcieSent.effect, List.append_nil]
  rfl

/-- A run of frames is one of the messages that they are. -/
theorem run_exec {as : List (AtomicEvent Byte QemuEvent (Nat → Byte))} {msgs : List PcieSent}
    (h : run (ioThread pci).atomic s as = some t)
    (hmsgs : as.filterMap AtomicEvent.frame? = msgs.map (·.msg.frame)) :
    ∃ es, run (exec pci) s es = some t ∧ es.filterMap ExecEvent.message? = msgs ∧
      es.filterMap ExecEvent.other? = as.filterMap AtomicEvent.other? := by
  induction as generalizing s msgs with
  | nil =>
    cases h
    exact ⟨[], rfl, (List.map_eq_nil_iff.mp hmsgs.symm).symm, rfl⟩
  | cons a as ih =>
    obtain ⟨r, hr, has⟩ := run_cons_some.mp h
    cases a with
    | other e =>
      obtain ⟨es, hrun, hes, hothers⟩ := ih has hmsgs
      exact ⟨.other e :: es, run_cons_some.mpr ⟨r, hr, hrun⟩, hes, congrArg (e :: ·) hothers⟩
    | frame beyond f =>
      obtain ⟨x, msgs, rfl, hf, hrest⟩ := List.map_eq_cons_iff.mp hmsgs.symm
      obtain ⟨es, hrun, hes, hothers⟩ := ih has hrest.symm
      refine ⟨.message x :: es, run_cons_some.mpr ⟨r, ?_, hrun⟩, congrArg (x :: ·) hes, hothers⟩
      have hstep : (if s.answer.isEmpty then some (s.onMsg pci beyond (.ofFrame f)) else none) = some r := hr
      rw [← hf, Received.ofFrame_frame, onMsg_eq] at hstep
      simpa only [exec, List.isEmpty_iff] using hstep

/-- In every run of the I/O thread, however the bytes are split and whatever the guest does
meanwhile, guest memory, interrupts, answers and registers are those of a run in which SystemC's
messages are done whole, each once and in the order they were sent, and the guest's accesses as
they are; all the messages when nothing is left, and until then the thread can always go on. -/
theorem io_thread_refines (pci : PciDma) (msgs : List PcieSent) (s : QemuSide)
    (es : List (DispatchEvent QemuEvent (Nat → Byte))) (t : Dispatch Byte QemuSide)
    (h : run (Dispatch.step wire (ioThread pci)) (.start (msgs.map PcieSent.bytes) s) es = some t) :
    (∃ as, run (exec pci) s as = some t.state ∧ as.filterMap ExecEvent.message? = msgs.take t.handled ∧
        as.filterMap ExecEvent.other? = es.filterMap DispatchEvent.other?) ∧
      (t.Finished → msgs.take t.handled = msgs) ∧
      (¬ t.Finished → ∃ e, (e = .other .answer ∨ e.other? = none) ∧
        (t.step wire (ioThread pci) e).isSome) := by
  have hbytes : msgs.map PcieSent.bytes = (msgs.map (·.msg.frame)).map Frame.cells := by
    rw [List.map_map]
    exact List.map_congr_left fun x _ => x.bytes_eq
  have hv : ∀ f ∈ msgs.map (·.msg.frame), wire.Valid f := by
    intro f hf
    obtain ⟨x, -, rfl⟩ := List.mem_map.mp hf
    exact x.valid_frame
  rw [hbytes] at h
  obtain ⟨hi, as, hrun, hframes, hothers⟩ := Dispatch.refines_from hv (.start hv s) h
  refine ⟨?_, fun hd => ?_, fun hd => ?_⟩
  · have htake : as.filterMap AtomicEvent.frame? = (msgs.take t.handled).map (·.msg.frame) := by
      rw [List.map_take, hframes]
      rfl
    obtain ⟨bs, hbs, hmessages, hothers'⟩ := run_exec hrun htake
    exact ⟨bs, hbs, hmessages, hothers'.trans hothers⟩
  · have hlen := congrArg List.length (hi.finished hv hd)
    rw [List.length_take, List.length_map] at hlen
    exact List.take_of_length_le (by omega)
  · rcases hi.progress hd with hbusy | ⟨e, he, hstep⟩
    · refine ⟨.other .answer, .inl rfl, ?_⟩
      have hanswer : t.state.answer ≠ [] := by
        intro hnil
        have hidle : (ioThread pci).idle t.state = true := List.isEmpty_iff.mpr hnil
        rw [hidle] at hbusy
        cases hbusy
      show (Option.map _ (if _ then none else _)).isSome = true
      rw [if_neg hanswer]
      rfl
    · exact ⟨e, .inr he, hstep⟩

/-- An interrupt whose header comes in two reads, the guest turning MSI-X on between them. -/
def irqBetween : List (DispatchEvent QemuEvent (Nat → Byte)) :=
  [.write 12, .read 3, .other (.msix true), .read 5, .read 4, .handle fun _ => 0]

theorem io_thread_refines_irq : ∃ t as, run (Dispatch.step wire (ioThread .exact))
      (.start ([.irq 1].map PcieSent.bytes) ⟨.new false, fun _ => 0, [], [], []⟩) irqBetween = some t ∧
    run (exec .exact) ⟨.new false, fun _ => 0, [], [], []⟩ as = some t.state ∧
    as.filterMap ExecEvent.message? = [.irq 1] ∧ t.state.irqs = [1] := by
  have hr : (run (Dispatch.step wire (ioThread .exact))
      (.start ([PcieSent.irq 1].map PcieSent.bytes) ⟨.new false, fun _ => 0, [], [], []⟩) irqBetween).map
        (fun t => (t.handled, t.state.irqs)) = some (1, [1]) := by decide +kernel
  obtain ⟨t, ht, hd⟩ := Option.map_eq_some_iff.mp hr
  obtain ⟨⟨as, has, hmessages, -⟩, -⟩ := io_thread_refines .exact [.irq 1] _ _ t ht
  rw [show t.handled = 1 from congrArg Prod.fst hd] at hmessages
  exact ⟨t, as, ht, has, hmessages, congrArg Prod.snd hd⟩

end SmartEth.QemuSide
