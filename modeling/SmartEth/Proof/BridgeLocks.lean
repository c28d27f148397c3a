import SmartEth.System.BridgeLocks
import Mathlib.Order.Fin.Basic

/-!
# No deadlock on the QEMU side

Every program of the vCPU threads and of the I/O thread asks for its locks in the
order of `ScLock.rank` and waits on `mmio_cv` with `mmio_mtx` alone, the BQL
released (`ordered_mmioRead`, `ordered_mmioWrite`, `ordered_handleMsg`). So no
threads wait for one another in a circle (`deadlock_free`), and a thread that
waits for a lock gets it after steps of the others that can be taken
(`can_go`). Without their locks the programs do what `handleMsg` and `mmioWrite`
say (`result_handleMsg`, `result_mmioWrite`).
-/

namespace SmartEth

namespace ScBridge

open LockAct

variable (s : ScBridge)

theorem ordered_mmioRead (i : Nat) (addr : Addr) : Ordered ScLock.rank [] (access (s.mmioReadProg i addr)) := by
  unfold access mmioReadProg
  split <;> simp [under, Ordered, ScLock.rank]

theorem ordered_mmioWrite (addr : Addr) (val : BitVec 64) :
    Ordered ScLock.rank [] (access (s.mmioWriteProg addr val)) := by
  unfold access mmioWriteProg
  split <;> simp [under, Ordered, ScLock.rank]

theorem ordered_handleMsg (m : Msg) : Ordered ScLock.rank [] (handleMsgProg m) := by
  unfold handleMsgProg
  split
  all_goals try split
  all_goals simp [under, Ordered]

/-! ## The programs without the locks -/

/-- The acts of the I/O thread come to what `handleMsg` says of the message. -/
theorem result_handleMsg (d : ScData) (m : Msg) :
    ∃ buf, result ScAct.exec (handleMsgProg m) d = { d with
      bridge := (d.bridge.handleMsg d.mem m).bridge
      mem := (d.bridge.handleMsg d.mem m).mem
      sent := d.sent ++ (d.bridge.handleMsg d.mem m).sent
      irqs := d.irqs ++ (d.bridge.handleMsg d.mem m).irqs
      buf := buf } := by
  cases hk : m.kind with
  | none => exact ⟨d.buf, by simp [handleMsgProg, handleMsg, hk, result]⟩
  | some k =>
    cases k <;> simp only [handleMsgProg, handleMsg, hk]
    case mmioWrite | bridgeReset => exact ⟨d.buf, by simp [result]⟩
    all_goals split
    all_goals simp only [under, result, ScAct.exec, List.cons_append, List.nil_append, List.append_nil]
    all_goals exact ⟨_, rfl⟩

/-- A write that is forwarded sends its message after the switch. -/
theorem result_mmioWrite (d : ScData) (addr : Addr) (val : BitVec 64) :
    result ScAct.exec (access (d.bridge.mmioWriteProg addr val)) d = { d with
      bridge := (d.bridge.mmioWrite addr val).1
      sent := d.sent ++ (d.bridge.mmioWrite addr val).2.toList } := by
  unfold mmioWriteProg
  split <;> rename_i h <;> simp [h, access, under, result, ScAct.exec]

end ScBridge

namespace BridgeLocks

open Locks

variable {s t : BridgeLocks}

theorem inv_start (h0 : Start s) : s.Inv ScLock.rank := fun t =>
  .running (h0.thread t) ⟨List.nodup_nil, fun l => by simp [h0.owner l]⟩ rfl

theorem inv_step {e : BridgeLockEvent} (hi : s.Inv ScLock.rank) (h : BridgeLocks.step s e = some t) :
    t.Inv ScLock.rank := by
  cases e with
  | read i addr => exact hi.start (ScBridge.ordered_mmioRead _ i addr) h
  | write i addr val => exact hi.start (ScBridge.ordered_mmioWrite _ addr val) h
  | recv m => exact hi.start (ScBridge.ordered_handleMsg m) h
  | go u =>
    have hg : s.go ScAct.exec (fun d => d.bridge.mmioPending) u = some t := h
    exact hi.go hg
  | wake u => exact hi.wake h

theorem inv_run {es : List BridgeLockEvent} (h0 : Start s) (h : run BridgeLocks.step s es = some t) :
    t.Inv ScLock.rank :=
  run_inv (I := fun s => s.Inv ScLock.rank) (fun _ _ _ hi hs => inv_step hi hs) (inv_start h0) h

/-- No threads wait in a circle for locks that the next holds; and when the I/O
thread takes the BQL for a DMA or an interrupt, no vCPU in its wait holds it. -/
theorem deadlock_free {es : List BridgeLockEvent} (h0 : Start s) (h : run BridgeLocks.step s es = some t) :
    (∀ x, ¬ Relation.TransGen t.WaitsFor x x) ∧
      (t.Wants .io .bql → ∀ i, t.InWait (.vcpu i) .mmioMtx → t.owner .bql ≠ some (.vcpu i)) := by
  have hi := inv_run h0 h
  refine ⟨hi.acyclic, fun _ i hw hb => ?_⟩
  cases hi.eq_of_inWait hw hb

/-- A thread that waits for a lock is behind one that can go on. -/
theorem can_go {es : List BridgeLockEvent} (h0 : Start s) (h : run BridgeLocks.step s es = some t) {x : ScThread}
    {l : ScLock} (hx : t.Wants x l) :
    ∃ y, Relation.ReflTransGen t.WaitsFor x y ∧ (BridgeLocks.step t (.go y)).isSome := by
  obtain ⟨p, hp⟩ := hx
  have hy : ∃ y, Relation.ReflTransGen t.WaitsFor x y ∧
      (t.go ScAct.exec (fun d => d.bridge.mmioPending) y).isSome := (inv_run h0 h).progress hp
  exact hy

def exampleStart : BridgeLocks :=
  ⟨fun _ => none, fun _ => .running [], ⟨⟨true, true, false, 0, 0, ScBridge.resetRegs⟩, fun _ => 0, [], [],
    fun _ => (0, 0), [], []⟩⟩

/-- A vCPU asleep in a read, and the I/O thread with a `DMA_READ`. -/
def exampleEvents : List BridgeLockEvent :=
  .read 0 SC_REG_MAC_LO :: List.replicate 10 (.go (.vcpu 0)) ++ [.recv (dmaReadReq 0x1000 4)]

theorem deadlock_free_asleep : ∃ t, run BridgeLocks.step exampleStart exampleEvents = some t ∧
    t.Wants .io .bql ∧ t.InWait (.vcpu 0) .mmioMtx ∧ t.owner .bql ≠ some (.vcpu 0) := by
  obtain ⟨t, ht, hb, hw⟩ : ∃ t, run BridgeLocks.step exampleStart exampleEvents = some t ∧
      t.Wants .io .bql ∧ t.InWait (.vcpu 0) .mmioMtx := ⟨_, rfl, ⟨_, rfl⟩, ⟨_, .inl rfl⟩⟩
  exact ⟨t, ht, hb, hw, (deadlock_free ⟨fun _ => rfl, fun _ => rfl⟩ ht).2 hb 0 hw⟩

end BridgeLocks

end SmartEth
