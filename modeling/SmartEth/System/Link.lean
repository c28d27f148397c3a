import SmartEth.Impl.PcieBridge
import SmartEth.Impl.ScBridge

/-!
# The link between the bridges

The two bridges and the messages on their way, whole and in order each way. A
message to QEMU is numbered, and the answers to it keep its number, which is not
in the messages. QEMU's I/O thread handles one message after another
(`Link.qemuStep`), and so does the socket thread (`Link.recv`).
-/

namespace SmartEth

/-! ## Messages on their way -/

/-- No message of these types. -/
def Without {α : Type} (kinds : List PcieMsgType) (q : List (α × Msg)) : Prop :=
  ∀ x ∈ q, ∀ k ∈ kinds, x.2.kind ≠ some k

/-- One message of these types, `m`, behind `pre`. -/
def Single {α : Type} (kinds : List PcieMsgType) (q : List (α × Msg)) (m : Msg) (pre : List (α × Msg)) : Prop :=
  ∃ a post, q = pre ++ (a, m) :: post ∧ Without kinds pre ∧ Without kinds post

section

variable {α : Type} {ks : List PcieMsgType} {q q' pre : List (α × Msg)} {x : α × Msg} {m : Msg}

theorem Without.nil : Without ks ([] : List (α × Msg)) := fun x hx => by cases hx

theorem Without.append (h : Without ks q) (h' : Without ks q') : Without ks (q ++ q') :=
  fun x hx => (List.mem_append.mp hx).elim (h x) (h' x)

theorem Without.head (h : Without ks (x :: q)) {k : PcieMsgType} (hk : k ∈ ks) : x.2.kind ≠ some k :=
  h x List.mem_cons_self k hk

theorem Without.tail (h : Without ks (x :: q)) : Without ks q := fun y hy => h y (List.mem_cons_of_mem _ hy)

theorem Without.single (h : Without ks q) (a : α) (m : Msg) : Single ks (q ++ [(a, m)]) m q :=
  ⟨a, [], rfl, h, .nil⟩

theorem Single.append (h : Single ks q m pre) (h' : Without ks q') : Single ks (q ++ q') m pre := by
  obtain ⟨a, post, rfl, hpre, hpost⟩ := h
  exact ⟨a, post ++ q', by rw [List.append_assoc, List.cons_append], hpre, hpost.append h'⟩

/-- The message is the next. -/
theorem Single.nil (h : Single ks q m []) : ∃ a rest, q = (a, m) :: rest ∧ Without ks rest := by
  obtain ⟨a, post, rfl, -, hpost⟩ := h
  exact ⟨a, post, rfl, hpost⟩

/-- Another message is the next. -/
theorem Single.cons (h : Single ks q m (x :: pre)) :
    ∃ rest, q = x :: rest ∧ (∀ k ∈ ks, x.2.kind ≠ some k) ∧ Single ks rest m pre := by
  obtain ⟨a, post, rfl, hpre, hpost⟩ := h
  exact ⟨_, rfl, fun k hk => hpre.head hk, a, post, rfl, hpre.tail, hpost⟩

end

structure Link where
  bridge : PcieBridge
  nic : SmartNic
  qemu : ScBridge
  mem : GuestMem
  toQemu : List (Nat × Msg)
  /-- Answers with the number of what they answer, and QEMU's own messages. -/
  fromQemu : List (Option Nat × Msg)
  /-- The number of the next message to QEMU. -/
  count : Nat

namespace Link

/-- A message is written to the socket. -/
def send (l : Link) (m : Msg) : Link :=
  { l with toQemu := l.toQemu ++ [(l.count, m)], count := l.count + 1 }

/-- The I/O thread handles the next message. -/
def qemuStep (l : Link) : Option Link :=
  match l.toQemu with
  | [] => none
  | (num, m) :: rest =>
    let h := l.qemu.handleMsg l.mem m
    some { l with
      qemu := h.bridge
      mem := h.mem
      toQemu := rest
      fromQemu := l.fromQemu ++ h.sent.map (some num, ·) }

/-- The data of the answer that the next step of the I/O thread gives to a
`DMA_READ`. -/
def nextAnswer (l : Link) : List (Nat × List Byte) :=
  match l.toQemu with
  | [] => []
  | (num, m) :: _ =>
    ((l.qemu.handleMsg l.mem m).sent.filter (·.kind = some .dmaRead)).map fun r => (num, r.payload.drop 4)

/-- The socket thread handles the next message. -/
def recv (l : Link) : Option Link :=
  match l.fromQemu with
  | [] => none
  | (_, m) :: rest =>
    let h := l.bridge.handleMessage l.nic m
    some (h.sent.foldl send { l with bridge := h.bridge, nic := h.nic, fromQemu := rest })

/-- Messages are written to the socket, one after another. -/
theorem foldl_send (l : Link) (ms : List Msg) : ∃ out, out.map Prod.snd = ms ∧
    ms.foldl send l = { l with toQemu := l.toQemu ++ out, count := l.count + ms.length } := by
  induction ms generalizing l with
  | nil => exact ⟨[], rfl, by rw [List.append_nil]; rfl⟩
  | cons m ms ih =>
    obtain ⟨out, rfl, he⟩ := ih (l.send m)
    refine ⟨(l.count, m) :: out, rfl, ?_⟩
    rw [List.foldl_cons, he]
    simp only [send, List.append_assoc, List.singleton_append, List.length_cons, Nat.add_assoc, Nat.add_comm 1]

/-- Nothing is on its way. -/
def Drained (l : Link) : Prop := l.toQemu = [] ∧ l.fromQemu = []

end Link

end SmartEth
