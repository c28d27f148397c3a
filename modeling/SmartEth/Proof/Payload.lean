import SmartEth.Impl.Payload

/-!
# What the dispatchers read of a payload

On the SystemC side nothing is compared with `hdr.length`: `handle_message` stays
inside the payload, and leaves everything alone for a message too short for its
type, exactly when the message is not too short (`bounded_iff_payloadSize`; a
short acknowledgement does no harm while nothing waits for it). On the QEMU side
one length is not compared: `sc_bridge_handle_msg` stays inside the payload
exactly when a `DMA_WRITE` brings the bytes its own length field promises, as far
as they are written (`bounded_iff_carried`). Inside their bounds, both do what
`handleMessage` and `handleMsgPci` say (`perform_readMessage`, `perform_readMsg`).
-/

namespace SmartEth

theorem ofLeBytes_take {w n : Nat} (h : w / 8 ≤ n) (bs : List Byte) :
    ofLeBytes w (bs.take n) = ofLeBytes w bs := by
  rw [ofLeBytes, ofLeBytes, List.take_take, Nat.min_eq_left h]

/-! ## SystemC side -/

namespace PcieBridge

/-- What `handle_message` does with a message of this header and payload, and
with `beyond` behind the payload in memory. -/
def request (type length : Word) (payload : List Byte) (beyond : Nat → Byte) : PcieRequest :=
  (readMessage type length).eval (buffer payload beyond)

/-- `handle_message` reads the payload only, stores no more than it, and does
nothing for a message too short for its type. -/
structure Bounded (b : PcieBridge) (nic : SmartNic) (type length : Word) (payload : List Byte)
    (beyond : Nat → Byte) : Prop where
  reads : (readMessage type length).InBounds (buffer payload beyond) length.toNat
  stored : (request type length payload beyond).stored ≤ length.toNat
  short : length.toNat < payloadSize type → (request type length payload beyond).callsBack = false ∧
    (b.perform nic (request type length payload beyond)).bridge = b ∧
    (b.perform nic (request type length payload beyond)).nic = nic

variable {type length : Word} {payload : List Byte} {beyond : Nat → Byte}

theorem dataLen_toNat (h : 4 ≤ length.toNat) : (length - 4).toNat = length.toNat - 4 :=
  BitVec.toNat_sub_of_le (show (4 : Word) ≤ length from h)

/-- A payload of the size for its type is read inside its bounds. -/
theorem inBounds_readMessage (h : payloadSize type ≤ length.toNat) :
    (readMessage type length).InBounds (buffer payload beyond) length.toNat := by
  rcases hk : PcieMsgType.ofCode type with _ | k
  · simp only [readMessage, hk, Prog.pure_eq, Reader.inBounds_ret]
  cases k <;> simp only [payloadSize, hk] at h <;>
    simp only [readMessage, hk, Prog.pure_eq, Reader.inBounds_ret, Reader.inBounds_get_bind, and_true]
  · exact .inr h
  · exact ⟨.inr (by omega), .inr h⟩
  · refine ⟨.inr h, .inr ?_⟩
    rw [dataLen_toNat h]
    omega

/-- Only a `DMA_WRITE` is read inside its bounds when it is too short. -/
theorem not_inBounds_readMessage (h : length.toNat < payloadSize type)
    (hw : PcieMsgType.ofCode type ≠ some .dmaWrite) :
    ¬ (readMessage type length).InBounds (buffer payload beyond) length.toNat := by
  rcases hk : PcieMsgType.ofCode type with _ | k
  · simp only [payloadSize, hk] at h
    omega
  cases k <;> simp only [payloadSize, hk] at h <;>
    simp only [readMessage, hk, Prog.pure_eq, Reader.inBounds_ret, Reader.inBounds_get_bind, and_true]
  · omega
  · omega
  · omega
  · exact absurd hk hw
  · omega
  · omega

theorem stored_request (h : payloadSize type ≤ length.toNat) :
    (request type length payload beyond).stored ≤ length.toNat := by
  rcases hk : PcieMsgType.ofCode type with _ | k
  · simp only [request, readMessage, hk, Prog.pure_eq, Reader.eval_ret, PcieRequest.stored, Nat.zero_le]
  cases k <;> simp only [payloadSize, hk] at h <;>
    simp only [request, readMessage, hk, Prog.pure_eq, Reader.eval_ret, Reader.eval_get_bind,
      PcieRequest.stored, Nat.zero_le, Reader.length_cells]
  rw [dataLen_toNat h]
  exact Nat.sub_le _ _

/-- What a payload inside its bounds comes to. -/
theorem perform_readMessage (b : PcieBridge) (nic : SmartNic) (hl : payload.length = length.toNat)
    (h : payloadSize type ≤ length.toNat) :
    b.perform nic (request type length payload beyond) = b.handleMessage nic ⟨type, payload⟩ := by
  rcases hk : PcieMsgType.ofCode type with _ | k
  · simp only [request, readMessage, handleMessage, Msg.kind, hk, Prog.pure_eq, Reader.eval_ret, perform]
  cases k <;> simp only [payloadSize, hk] at h <;>
    simp only [request, readMessage, handleMessage, Msg.kind, hk, Prog.pure_eq, Reader.eval_ret,
      Reader.eval_get_bind, perform]
  · rw [Reader.cells_buffer (by omega), List.drop_zero, ofLeBytes_take (by decide)]
  · rw [Reader.cells_buffer (by omega), Reader.cells_buffer (by omega), List.drop_zero,
      ofLeBytes_take (by decide), ofLeBytes_take (by decide)]
  · have hd := dataLen_toNat h
    rw [← hl] at hd
    rw [hd, Reader.cells_buffer (by omega), List.take_of_length_le (by rw [List.length_drop])]

/-- `handle_message` keeps to its payload, and ignores what is too short, exactly
when the payload has the size for its type, or is an acknowledgement for which
nothing waits. -/
theorem bounded_iff_payloadSize (b : PcieBridge) (nic : SmartNic) :
    Bounded b nic type length payload beyond ↔
      payloadSize type ≤ length.toNat ∨
        PcieMsgType.ofCode type = some .dmaWrite ∧ b.dmaPending = false := by
  constructor
  · intro h
    by_cases hs : payloadSize type ≤ length.toNat
    · exact .inl hs
    by_cases hw : PcieMsgType.ofCode type = some .dmaWrite
    · refine .inr ⟨hw, ?_⟩
      have hb := (h.short (by omega)).2.1
      simp only [request, readMessage, hw, Prog.pure_eq, Reader.eval_ret, perform] at hb
      exact congrArg dmaPending hb.symm
    · exact absurd h.reads (not_inBounds_readMessage (by omega) hw)
  · rintro (h | ⟨hw, hp⟩)
    · exact ⟨inBounds_readMessage h, stored_request h, fun hs => by omega⟩
    · have hr : request type length payload beyond = .dmaWrite := by
        simp only [request, readMessage, hw, Prog.pure_eq, Reader.eval_ret]
      refine ⟨?_, by rw [hr]; exact Nat.zero_le _, fun _ => ?_⟩
      · simp only [readMessage, hw, Prog.pure_eq, Reader.inBounds_ret]
      · rw [hr]
        refine ⟨rfl, ?_, rfl⟩
        simp only [perform, ← hp]

/-- An empty `MMIO_READ`, for which 8 bytes are read through a null pointer. -/
theorem empty_mmioRead_out_of_bounds : ¬ Bounded ⟨true, false, []⟩ .new PcieMsgType.mmioRead.code 0 []
    fun _ => 0 := by
  intro h
  exact absurd (h.reads 7 (by decide)) (by decide)

end PcieBridge

/-! ## QEMU side -/

namespace ScBridge

/-- What `sc_bridge_handle_msg` does with a message, and with `beyond` behind the
payload in memory. -/
def request (type payloadLen : Word) (payload : List Byte) (beyond : Nat → Byte) : ScRequest :=
  (readMsg type payloadLen).eval (buffer payload beyond)

/-- `sc_bridge_handle_msg` reads the payload only, and what it writes to guest
memory comes from the payload. -/
structure Bounded (type payloadLen : Word) (payload : List Byte) (beyond : Nat → Byte) : Prop where
  reads : (readMsg type payloadLen).InBounds (buffer payload beyond) payloadLen.toNat
  written : ∀ addr length data, request type payloadLen payload beyond = .dmaWrite addr length data →
    data.length = dmaLen length ∧ data <+: payload.drop 12

/-- The payload of a `DMA_WRITE` that is not too short carries the bytes that its
own length field promises, as far as `sc_bridge_handle_dma_write` takes them. -/
def Carried (type payloadLen : Word) (payload : List Byte) : Prop :=
  PcieMsgType.ofCode type = some .dmaWrite → 12 ≤ payloadLen.toNat →
    12 + dmaLen (ofLeBytes 32 (payload.drop 8)) ≤ payloadLen.toNat

variable {type payloadLen : Word} {payload : List Byte} {beyond : Nat → Byte}

/-- The length field of a `DMA_READ` or `DMA_WRITE`. -/
theorem cells_lengthField (h : 12 ≤ payload.length) :
    ofLeBytes 32 (Reader.cells (buffer payload beyond) ⟨8, 4⟩) = ofLeBytes 32 (payload.drop 8) := by
  rw [Reader.cells_buffer (.inr h), ofLeBytes_take (by decide)]

theorem inBounds_readMsg (hl : payload.length = payloadLen.toNat) :
    (readMsg type payloadLen).InBounds (buffer payload beyond) payloadLen.toNat ↔
      Carried type payloadLen payload := by
  rcases hk : PcieMsgType.ofCode type with _ | k
  · simp only [readMsg, Carried, hk, Prog.pure_eq, Reader.inBounds_ret, reduceCtorEq, false_implies]
  cases k with
  | dmaWrite =>
    by_cases hs : payloadLen.toNat < 12
    · simp only [readMsg, Carried, hk, hs, if_true, Prog.pure_eq, Reader.inBounds_ret, true_iff]
      intro _ h
      omega
    · have hf : ofLeBytes 32 (Reader.cells (buffer payload beyond) ⟨8, 4⟩) = ofLeBytes 32 (payload.drop 8) :=
        cells_lengthField (by omega)
      simp only [readMsg, Carried, hk, hs, if_false, Prog.pure_eq, Reader.inBounds_ret,
        Reader.inBounds_get_bind, and_true, hf, true_implies]
      omega
  | _ =>
    simp only [readMsg, Carried, hk, Option.some.injEq, reduceCtorEq, false_implies, iff_true]
    first
    | exact Reader.inBounds_ret _
    | split
      · exact Reader.inBounds_ret _
      · simp only [Prog.pure_eq, Reader.inBounds_get_bind, Reader.inBounds_ret, and_true]
        omega

/-- What a `DMA_WRITE` inside its bounds comes to. -/
theorem request_dmaWrite (hk : PcieMsgType.ofCode type = some .dmaWrite) (hl : payload.length = payloadLen.toNat)
    (hs : ¬ payloadLen.toNat < 12) (h : Carried type payloadLen payload) :
    request type payloadLen payload beyond =
      .dmaWrite (ofLeBytes 64 payload) (ofLeBytes 32 (payload.drop 8))
        ((payload.drop 12).take (dmaLen (ofLeBytes 32 (payload.drop 8)))) := by
  have hc := h hk (by omega)
  have ha : ofLeBytes 64 (Reader.cells (buffer payload beyond) ⟨0, 8⟩) = ofLeBytes 64 payload := by
    rw [Reader.cells_buffer (by omega), List.drop_zero, ofLeBytes_take (by decide)]
  have hf : ofLeBytes 32 (Reader.cells (buffer payload beyond) ⟨8, 4⟩) = ofLeBytes 32 (payload.drop 8) :=
    cells_lengthField (by omega)
  simp only [request, readMsg, hk, hs, if_false, Prog.pure_eq, Reader.eval_ret, Reader.eval_get_bind, ha, hf]
  rw [Reader.cells_buffer (by omega)]

/-- What a payload inside its bounds comes to. -/
theorem perform_readMsg (pci : PciDma) (s : ScBridge) (mem : GuestMem) (hl : payload.length = payloadLen.toNat)
    (h : Carried type payloadLen payload) :
    s.perform pci mem (request type payloadLen payload beyond) = s.handleMsgPci pci mem ⟨type, payload⟩ := by
  rcases hk : PcieMsgType.ofCode type with _ | k
  · simp only [request, readMsg, handleMsgPci, handleMsg, Msg.kind, hk, Prog.pure_eq, Reader.eval_ret, perform]
  cases k with
  | dmaWrite =>
    by_cases hs : payloadLen.toNat < 12
    · simp only [request, readMsg, handleMsgPci, Msg.kind, hk, hl, hs, if_true, Prog.pure_eq, Reader.eval_ret,
        perform]
    · rw [request_dmaWrite hk hl hs h]
      simp only [perform, handleMsgPci, Msg.kind, hk, hl, hs, if_false]
  | dmaRead =>
    by_cases hs : payloadLen.toNat < 12
    · simp only [request, readMsg, handleMsgPci, Msg.kind, hk, hl, hs, if_true, Prog.pure_eq, Reader.eval_ret,
        perform]
    · simp only [request, readMsg, handleMsgPci, Msg.kind, hk, hl, hs, if_false, Prog.pure_eq, Reader.eval_ret,
        Reader.eval_get_bind, perform]
      rw [cells_lengthField (by omega), Reader.cells_buffer (by omega), List.drop_zero,
        ofLeBytes_take (by decide)]
  | mmioRead =>
    by_cases hs : payloadLen.toNat < 8
    · simp only [request, readMsg, handleMsgPci, handleMsg, Msg.kind, hk, hl, hs, if_true, Prog.pure_eq,
        Reader.eval_ret, perform]
    · simp only [request, readMsg, handleMsgPci, handleMsg, Msg.kind, hk, hl, hs, if_false, Prog.pure_eq,
        Reader.eval_ret, Reader.eval_get_bind, perform]
      rw [Reader.cells_buffer (by omega), Reader.cells_buffer (by omega), List.drop_zero,
        ofLeBytes_take (by decide), ofLeBytes_take (by decide)]
  | msiIrq =>
    by_cases hs : payloadLen.toNat < 4
    · simp only [request, readMsg, handleMsgPci, handleMsg, Msg.kind, hk, hl, hs, if_true, Prog.pure_eq,
        Reader.eval_ret, perform]
    · simp only [request, readMsg, handleMsgPci, handleMsg, Msg.kind, hk, hl, hs, if_false, Prog.pure_eq,
        Reader.eval_ret, Reader.eval_get_bind, perform]
      rw [Reader.cells_buffer (by omega), List.drop_zero, ofLeBytes_take (by decide)]
  | _ => simp only [request, readMsg, handleMsgPci, handleMsg, Msg.kind, hk, Prog.pure_eq, Reader.eval_ret, perform]

/-- Nothing but a `DMA_WRITE` makes a write. -/
theorem request_ne_dmaWrite (hk : PcieMsgType.ofCode type ≠ some .dmaWrite) (addr : Addr) (length : Word)
    (data : List Byte) : request type payloadLen payload beyond ≠ .dmaWrite addr length data := by
  intro he
  rcases hk' : PcieMsgType.ofCode type with _ | k
  · simp only [request, readMsg, hk', Prog.pure_eq, Reader.eval_ret, reduceCtorEq] at he
  cases k <;> simp only [request, readMsg, hk'] at he <;> try split at he
  all_goals first
    | exact hk hk'
    | simp only [Prog.pure_eq, Reader.eval_ret, Reader.eval_get_bind, reduceCtorEq] at he

/-- `sc_bridge_handle_msg` keeps to its payload exactly when a `DMA_WRITE` carries
the bytes its length field promises. -/
theorem bounded_iff_carried (hl : payload.length = payloadLen.toNat) :
    Bounded type payloadLen payload beyond ↔ Carried type payloadLen payload := by
  constructor
  · intro h
    exact (inBounds_readMsg hl).mp h.reads
  · intro h
    refine ⟨(inBounds_readMsg hl).mpr h, fun addr length data he => ?_⟩
    by_cases hk : PcieMsgType.ofCode type = some .dmaWrite
    · by_cases hs : payloadLen.toNat < 12
      · simp only [request, readMsg, hk, hs, if_true, Prog.pure_eq, Reader.eval_ret, reduceCtorEq] at he
      · have hc := h hk (by omega)
        rw [request_dmaWrite hk hl hs h] at he
        cases he
        refine ⟨?_, List.take_prefix _ _⟩
        rw [List.length_take, List.length_drop]
        omega
    · exact absurd he (request_ne_dmaWrite hk addr length data)

/-- A `DMA_WRITE` of no data that promises one byte. -/
def lyingWrite : List Byte := leBytes (0x1000 : Addr) ++ leBytes (1 : Word)

theorem lyingWrite_out_of_bounds :
    ¬ Bounded PcieMsgType.dmaWrite.code 12 lyingWrite fun _ => 0x5a := by
  intro h
  exact absurd (h.reads 12 (by decide)) (by decide)

/-- A `DMA_WRITE` of one byte. -/
def honestWrite : List Byte := leBytes (0x1000 : Addr) ++ (leBytes (1 : Word) ++ [0xab])

theorem honestWrite_bounded : Bounded PcieMsgType.dmaWrite.code 13 honestWrite fun _ => 0x5a :=
  (bounded_iff_carried (by decide)).mpr fun _ _ => by decide

end ScBridge

end SmartEth
