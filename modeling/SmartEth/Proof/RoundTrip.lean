import SmartEth.Impl.Layout
import SmartEth.Proof.Payload

/-!
# From SystemC to QEMU, byte by byte

What the SystemC side sends is written in any pieces and read in any pieces; the
loop of `sc_bridge_io_thread` calls `sc_bridge_handle_msg` with the messages that
were sent, and no others, and this finds in them the fields that were put in
(`round_trip`). The stream is the library's (`Stream.delivers`), the layouts are
those of `Layout`; what is left is that every field stands where it is looked
for (`field_cells`, `PcieSent.request_eq`).
-/

namespace SmartEth

/-- A field is found at its offset. -/
theorem field_cells {w : Nat} (hw : 8 * (w / 8) = w) (before : List Byte) (x : BitVec w) (after : List Byte)
    {off : Nat} (h : before.length = off) (beyond : Nat → Byte) :
    ofLeBytes w (Reader.cells (buffer (before ++ (leBytes x ++ after)) beyond) ⟨off, w / 8⟩) = x := by
  rw [Reader.cells_buffer, List.drop_left' h, List.take_left' (length_leBytes x)]
  · have h := ofLeBytes_leBytes hw x []
    rwa [List.append_nil] at h
  · simp only [List.length_append, length_leBytes]
    omega

namespace PcieSent

/-- The fields of a message, as `sc_bridge_handle_msg` passes them on; a
`DMA_WRITE` hands `pci_dma_write` at most `DMA_BUF_SIZE` bytes of its data. -/
def fields : PcieSent → ScRequest
  | mmioReadResp data => .mmioRead data PcieStatus.ok.code
  | mmioWriteResp => .mmioWrite
  | resetResp => .unknown
  | dmaRead addr len => .dmaRead addr len
  | dmaWrite addr data _ => .dmaWrite addr (BitVec.ofNat 32 data.length) (data.take DMA_BUF_SIZE)
  | irq vector => .msi vector

/-- The data of a `DMA_WRITE`, behind the fields `addr` and `length`. -/
def writeData : PcieSent → Option (List Byte)
  | dmaWrite _ data _ => some data
  | _ => none

/-- What `sc_bridge_handle_msg` finds in a message. -/
theorem request_eq (x : PcieSent) (beyond : Nat → Byte) :
    ScBridge.request x.msg.type (BitVec.ofNat 32 x.msg.payload.length) x.msg.payload beyond = x.fields := by
  cases x with
  | mmioReadResp data =>
    have h0 : ofLeBytes 32 (Reader.cells (buffer (mmioReadResp data).msg.payload beyond) ⟨0, 4⟩) = data :=
      field_cells (by decide) [] data _ rfl beyond
    have h4 : ofLeBytes 32 (Reader.cells (buffer (mmioReadResp data).msg.payload beyond) ⟨4, 4⟩) =
        PcieStatus.ok.code :=
      field_cells (by decide) _ _ [] (length_leBytes data) beyond
    have hl : ¬ (BitVec.ofNat 32 (mmioReadResp data).msg.payload.length).toNat < 8 := by
      simp [msg, SmartEth.mmioReadResp]
    have hk : PcieMsgType.ofCode (mmioReadResp data).msg.type = some .mmioRead := PcieMsgType.ofCode_code .mmioRead
    simp only [ScBridge.request, ScBridge.readMsg, hk, hl, if_false, Reader.eval_get_bind, Prog.pure_eq,
      Reader.eval_ret, h0, h4, fields]
  | mmioWriteResp => rfl
  | resetResp => rfl
  | dmaRead addr len =>
    have h0 : ofLeBytes 64 (Reader.cells (buffer (dmaRead addr len).msg.payload beyond) ⟨0, 8⟩) = addr :=
      field_cells (by decide) [] addr _ rfl beyond
    have h8 : ofLeBytes 32 (Reader.cells (buffer (dmaRead addr len).msg.payload beyond) ⟨8, 4⟩) = len :=
      field_cells (by decide) _ len [] (length_leBytes addr) beyond
    have hl : ¬ (BitVec.ofNat 32 (dmaRead addr len).msg.payload.length).toNat < 12 := by
      simp [msg, dmaReadReq]
    have hk : PcieMsgType.ofCode (dmaRead addr len).msg.type = some .dmaRead := PcieMsgType.ofCode_code .dmaRead
    simp only [ScBridge.request, ScBridge.readMsg, hk, hl, if_false, Reader.eval_get_bind, Prog.pure_eq,
      Reader.eval_ret, h0, h8, fields]
  | dmaWrite addr data h =>
    have hn : (dmaWriteReq addr data).payload.length = 12 + data.length := ScBridge.length_payload_dmaWriteReq _ _
    have hl : (dmaWriteReq addr data).payload.length =
        (BitVec.ofNat 32 (dmaWriteReq addr data).payload.length).toNat := by
      rw [BitVec.toNat_ofNat, Nat.mod_eq_of_lt (by omega)]
    have hc : ScBridge.Carried (dmaWriteReq addr data).type (BitVec.ofNat 32 (dmaWriteReq addr data).payload.length)
        (dmaWriteReq addr data).payload := fun _ _ => by
      rw [← hl, hn, ScBridge.length_dmaWriteReq, ScBridge.dmaLen, BitVec.toNat_ofNat,
        Nat.mod_eq_of_lt (by omega)]
      omega
    have hk : PcieMsgType.ofCode (dmaWriteReq addr data).type = some .dmaWrite := PcieMsgType.ofCode_code .dmaWrite
    rw [msg, ScBridge.request_dmaWrite hk hl (by omega) hc, ScBridge.addr_dmaWriteReq, ScBridge.length_dmaWriteReq,
      ScBridge.data_dmaWriteReq, ScBridge.take_dmaLen (by omega), fields]
  | irq vector =>
    have h0 : ofLeBytes 32 (Reader.cells (buffer (irq vector).msg.payload beyond) ⟨0, 4⟩) = vector :=
      field_cells (by decide) [] vector [] rfl beyond
    have hl : ¬ (BitVec.ofNat 32 (irq vector).msg.payload.length).toNat < 4 := by
      simp [msg, msiIrqMsg]
    have hk : PcieMsgType.ofCode (irq vector).msg.type = some .msiIrq := PcieMsgType.ofCode_code .msiIrq
    simp only [ScBridge.request, ScBridge.readMsg, hk, hl, if_false, Reader.eval_get_bind, Prog.pure_eq,
      Reader.eval_ret, h0, fields]

theorem length_payload_lt (x : PcieSent) : x.msg.payload.length < 2 ^ 32 := by
  cases x with
  | dmaWrite addr data h =>
    rw [msg, ScBridge.length_payload_dmaWriteReq]
    omega
  | _ => simp [msg, SmartEth.mmioReadResp, statusMsg, dmaReadReq, msiIrqMsg]

theorem valid_frame (x : PcieSent) : wire.Valid x.msg.frame := Msg.valid_frame x.length_payload_lt

end PcieSent

/-- The loop of `sc_bridge_io_thread`, whatever the writes accept and the reads
return: it calls `sc_bridge_handle_msg` with the messages sent, in order, and with
all of them when nothing is left; every run that goes on comes to that. In each
call, the fields found are those the message was built from. -/
theorem round_trip (msgs : List PcieSent) {es : List StreamEvent} {t : Stream Byte}
    (h : run (Stream.step wire) (Stream.start (msgs.map PcieSent.bytes)) es = some t) :
    t.frames.map Received.ofFrame <+: msgs.map (·.msg.received) ∧
      (t.Done → t.frames.map Received.ofFrame = msgs.map (·.msg.received)) ∧
      (¬ t.Done → ∃ e, (t.step wire e).isSome) ∧
      es.length ≤ 2 * (msgs.map PcieSent.bytes).flatten.length ∧
      ∀ x ∈ msgs, ∀ beyond, ScBridge.request x.msg.received.type x.msg.received.length x.msg.received.payload beyond =
          x.fields ∧
        ∀ data, x.writeData = some data → x.msg.received.payload.drop 12 = data := by
  have hb : msgs.map PcieSent.bytes = (msgs.map (·.msg.frame)).map Frame.cells := by
    rw [List.map_map]
    exact List.map_congr_left fun x _ => x.bytes_eq
  have hr : (msgs.map (·.msg.frame)).map Received.ofFrame = msgs.map (·.msg.received) := by
    rw [List.map_map]
    exact List.map_congr_left fun x _ => Received.ofFrame_frame _
  have hv : ∀ f ∈ msgs.map (·.msg.frame), wire.Valid f := by
    rintro f hf
    obtain ⟨x, -, rfl⟩ := List.mem_map.mp hf
    exact x.valid_frame
  rw [hb] at h ⊢
  obtain ⟨h₁, h₂, h₃, h₄⟩ := Stream.delivers hv h
  refine ⟨?_, fun hd => ?_, h₃, h₄, fun x _ beyond => ⟨x.request_eq beyond, fun data hd => ?_⟩⟩
  · rw [← hr]
    exact h₁.map _
  · rw [h₂ hd, hr]
  · cases x with
    | dmaWrite addr data' hle =>
      cases hd
      exact ScBridge.data_dmaWriteReq _ _
    | _ => cases hd

/-- An interrupt, written and read in pieces that split its header. -/
def irqInPieces : List StreamEvent := [.write 5, .read 3, .write 7, .read 5, .read 1, .read 3]

theorem round_trip_irq : ∃ t, run (Stream.step wire) (Stream.start [(PcieSent.irq 1).bytes]) irqInPieces = some t ∧
    t.frames.map Received.ofFrame = [⟨4, 4, leBytes (1 : Word)⟩] := by
  have hr : ((run (Stream.step wire) (Stream.start [(PcieSent.irq 1).bytes]) irqInPieces).map fun t =>
      (t.todo, t.pipe)) = some ([], []) := by decide +kernel
  obtain ⟨t, ht, hd⟩ := Option.map_eq_some_iff.mp hr
  exact ⟨t, ht, (round_trip [.irq 1] ht).2.1 ⟨congrArg Prod.fst hd, congrArg Prod.snd hd⟩⟩

end SmartEth
