import SmartEth.Framework.Frames
import SmartEth.Impl.ScBridge

/-!
# The messages byte by byte

The two headers of the protocol, `protocol.h` and `sc_protocol.h`, lay the
messages out for themselves. `PcieSent` and `ScSent` are the messages that each
side sends, `bytes` the bytes it passes to its `send_all`: packed structs, and
on the SystemC side buffers filled by `memcpy` at computed offsets. All of them
are frames of the one format (`wire`): `PcieSent.bytes_eq`, `ScSent.bytes_eq`.
-/

namespace SmartEth

/-- `MsgHeader`, `ScMsgHeader`: packed, little-endian. -/
def headerBytes (type length : Word) : List Byte := leBytes type ++ leBytes length

@[simp] theorem length_headerBytes (type length : Word) : (headerBytes type length).length = 8 := by
  simp only [headerBytes, List.length_append, length_leBytes]

/-- The length that a header announces. -/
def headerLength (hdr : List Byte) : Nat := (ofLeBytes 32 (hdr.drop 4)).toNat

/-- What a receiver reads: headers of 8 bytes, and their payloads. -/
def wire : Framing Byte where
  size := 8
  bodyLen := headerLength
  size_pos := by decide

namespace Msg

def frame (m : Msg) : Frame Byte := ⟨headerBytes m.type (BitVec.ofNat 32 m.payload.length), m.payload⟩

theorem lengthField_headerBytes (type length : Word) : ofLeBytes 32 ((headerBytes type length).drop 4) = length := by
  rw [headerBytes, List.drop_left' (length_leBytes type)]
  have h := ofLeBytes_leBytes (w := 32) (by decide) length []
  rwa [List.append_nil] at h

theorem valid_frame {m : Msg} (h : m.payload.length < 2 ^ 32) : wire.Valid m.frame := by
  refine ⟨length_headerBytes _ _, ?_⟩
  have hl := congrArg BitVec.toNat (lengthField_headerBytes m.type (BitVec.ofNat 32 m.payload.length))
  rw [BitVec.toNat_ofNat, Nat.mod_eq_of_lt h] at hl
  exact hl.symm

/-- The bytes of a message whose payload's length is computed. -/
theorem cells_frame {m : Msg} {length : Word} (h : length = BitVec.ofNat 32 m.payload.length) :
    m.frame.cells = headerBytes m.type length ++ m.payload := by
  rw [h, frame, Frame.cells]

end Msg

/-- What a dispatcher is called with: the fields of the header, and the payload. -/
structure Received where
  type : Word
  length : Word
  payload : List Byte
  deriving DecidableEq

def Received.ofFrame (f : Frame Byte) : Received := ⟨ofLeBytes 32 f.header, ofLeBytes 32 (f.header.drop 4), f.body⟩

/-- The call that a message is for. -/
def Msg.received (m : Msg) : Received := ⟨m.type, BitVec.ofNat 32 m.payload.length, m.payload⟩

@[simp] theorem Received.ofFrame_frame (m : Msg) : ofFrame m.frame = m.received := by
  rw [ofFrame, Msg.frame, Msg.lengthField_headerBytes, headerBytes, ofLeBytes_leBytes (by decide), Msg.received]

/-! ## SystemC side -/

/-- `make_msg`, byte by byte. -/
def makeMsgBytes (type : PcieMsgType) (payload : List Byte) : List Byte :=
  let buf := List.replicate (8 + payload.length) 0
  let buf := copyAt buf 0 (headerBytes type.code (BitVec.ofNat 32 payload.length))
  copyAt buf 8 payload

/-- The messages of `handle_message`, `dma_read`, `dma_write` and `send_irq`; the
frames of the network are of at most 16384 bytes. -/
inductive PcieSent where
  | mmioReadResp (data : Word)
  | mmioWriteResp
  | resetResp
  | dmaRead (addr : Addr) (len : Word)
  | dmaWrite (addr : Addr) (data : List Byte) (h : data.length ≤ 16384)
  | irq (vector : Word)

namespace PcieSent

/-- The buffer that is passed to `send_all`. -/
def bytes : PcieSent → List Byte
  | mmioReadResp data => makeMsgBytes .mmioRead (leBytes data ++ leBytes PcieStatus.ok.code)
  | mmioWriteResp => makeMsgBytes .mmioWrite (leBytes PcieStatus.ok.code)
  | resetResp => makeMsgBytes .bridgeReset (leBytes PcieStatus.ok.code)
  | dmaRead addr len =>
    let req := headerBytes PcieMsgType.dmaRead.code (20 - 8) ++ (leBytes addr ++ leBytes len)
    copyAt (List.replicate (8 + 8 + 4) 0) 0 req
  | dmaWrite addr data _ =>
    let len : Word := BitVec.ofNat 32 data.length
    let msg := List.replicate (8 + 8 + 4 + data.length) 0
    let msg := copyAt msg 0 (headerBytes PcieMsgType.dmaWrite.code (8 + 4 + len))
    let msg := copyAt msg 8 (leBytes addr)
    let msg := copyAt msg (8 + 8) (leBytes len)
    copyAt msg (8 + 8 + 4) data
  | irq vector => makeMsgBytes .msiIrq (leBytes vector)

def msg : PcieSent → Msg
  | mmioReadResp data => SmartEth.mmioReadResp data
  | mmioWriteResp => statusMsg .mmioWrite
  | resetResp => statusMsg .bridgeReset
  | dmaRead addr len => dmaReadReq addr len
  | dmaWrite addr data _ => dmaWriteReq addr data
  | irq vector => msiIrqMsg vector

end PcieSent

theorem makeMsgBytes_eq (type : PcieMsgType) (payload : List Byte) :
    makeMsgBytes type payload = (makeMsg type payload).frame.cells := by
  have h := length_headerBytes type.code (BitVec.ofNat 32 payload.length)
  have e₁ : copyAt (List.replicate (8 + payload.length) 0) 0
      (headerBytes type.code (BitVec.ofNat 32 payload.length)) =
      headerBytes type.code (BitVec.ofNat 32 payload.length) ++ List.replicate payload.length 0 :=
    copyAt_zeros [] _ rfl (by rw [h])
  rw [makeMsgBytes, e₁]
  exact copyAt_last _ payload h rfl

/-- Four pieces, each copied behind those before it. -/
theorem copyAt_four {a b c d : List Byte} {i j k n : Nat} (hi : a.length = i) (hj : i + b.length = j)
    (hk : j + c.length = k) (hn : k + d.length = n) :
    copyAt (copyAt (copyAt (copyAt (List.replicate n 0) 0 a) i b) j c) k d = a ++ b ++ c ++ d := by
  have hb : (a ++ b).length = j := by rw [List.length_append, hi, hj]
  have hc : (a ++ b ++ c).length = k := by rw [List.length_append, hb, hk]
  have e₁ : copyAt (List.replicate n 0) 0 a = a ++ List.replicate (n - i) 0 :=
    copyAt_zeros [] a rfl (by omega)
  have e₂ : copyAt (a ++ List.replicate (n - i) 0) i b = a ++ b ++ List.replicate (n - j) 0 :=
    copyAt_zeros a b hi (by omega)
  have e₃ : copyAt (a ++ b ++ List.replicate (n - j) 0) j c = a ++ b ++ c ++ List.replicate (n - k) 0 :=
    copyAt_zeros _ c hb (by omega)
  have e₄ : copyAt (a ++ b ++ c ++ List.replicate (n - k) 0) k d = a ++ b ++ c ++ d :=
    copyAt_last _ d hc (by omega)
  rw [e₁, e₂, e₃, e₄]

theorem PcieSent.bytes_eq (x : PcieSent) : x.bytes = x.msg.frame.cells := by
  cases x with
  | mmioReadResp data => exact makeMsgBytes_eq _ _
  | mmioWriteResp => exact makeMsgBytes_eq _ _
  | resetResp => exact makeMsgBytes_eq _ _
  | irq vector => exact makeMsgBytes_eq _ _
  | dmaRead addr len =>
    have hl : (20 - 8 : Word) = BitVec.ofNat 32 (dmaReadReq addr len).payload.length := by
      rw [dmaReadReq, payload_makeMsg, List.length_append, length_leBytes, length_leBytes]
      rfl
    have hn : (headerBytes PcieMsgType.dmaRead.code (20 - 8) ++ (leBytes addr ++ leBytes len)).length =
      8 + 8 + 4 := by
      rw [List.length_append, length_headerBytes, List.length_append, length_leBytes, length_leBytes]
    rw [msg, Msg.cells_frame hl]
    exact copyAt_last [] _ rfl hn.symm
  | dmaWrite addr data h =>
    have hl : (8 + 4 + BitVec.ofNat 32 data.length : Word) =
        BitVec.ofNat 32 (dmaWriteReq addr data).payload.length := by
      have hp : (dmaWriteReq addr data).payload.length = 8 + (4 + data.length) := by
        rw [dmaWriteReq, payload_makeMsg, List.length_append, List.length_append, length_leBytes, length_leBytes]
      rw [hp, BitVec.ofNat_add, BitVec.ofNat_add, ← BitVec.add_assoc]
      rfl
    rw [msg, Msg.cells_frame hl, bytes,
      copyAt_four (length_headerBytes _ _) (by rw [length_leBytes]) (by rw [length_leBytes]) rfl,
      List.append_assoc, List.append_assoc]
    rfl

/-! ## QEMU side -/

/-- The messages of the QEMU bridge; `sc_bridge_handle_dma_read` sends what was
read into its buffer. -/
inductive ScSent where
  | mmioRead (addr : Addr)
  | mmioWrite (addr : Addr) (val : Word)
  | dmaReadResp (data : List Byte) (h : data.length ≤ DMA_BUF_SIZE)
  | dmaWriteResp

namespace ScSent

/-- The struct that is passed to `sc_bridge_send_all`, and the data behind it. -/
def bytes : ScSent → List Byte
  | mmioRead addr => headerBytes PcieMsgType.mmioRead.code (16 - 8) ++ leBytes addr
  | mmioWrite addr val => headerBytes PcieMsgType.mmioWrite.code (20 - 8) ++ (leBytes addr ++ leBytes val)
  | dmaReadResp data _ =>
    let len : Word := BitVec.ofNat 32 data.length
    let resp := headerBytes PcieMsgType.dmaRead.code (12 - 8 + len) ++ leBytes PcieStatus.ok.code
    resp ++ data
  | dmaWriteResp => headerBytes PcieMsgType.dmaWrite.code (12 - 8) ++ leBytes PcieStatus.ok.code

def msg : ScSent → Msg
  | mmioRead addr => mmioReadReq addr
  | mmioWrite addr val => mmioWriteMsg addr val
  | dmaReadResp data _ => SmartEth.dmaReadResp data
  | dmaWriteResp => statusMsg .dmaWrite

theorem bytes_eq (x : ScSent) : x.bytes = x.msg.frame.cells := by
  cases x with
  | mmioRead addr =>
    have hl : (16 - 8 : Word) = BitVec.ofNat 32 (mmioReadReq addr).payload.length := by
      rw [mmioReadReq, payload_makeMsg, length_leBytes]
      rfl
    exact (Msg.cells_frame hl).symm
  | mmioWrite addr val =>
    have hl : (20 - 8 : Word) = BitVec.ofNat 32 (mmioWriteMsg addr val).payload.length := by
      rw [mmioWriteMsg, payload_makeMsg, List.length_append, length_leBytes, length_leBytes]
      rfl
    exact (Msg.cells_frame hl).symm
  | dmaWriteResp => rfl
  | dmaReadResp data h =>
    have hl : (12 - 8 + BitVec.ofNat 32 data.length : Word) =
        BitVec.ofNat 32 (SmartEth.dmaReadResp data).payload.length := by
      rw [SmartEth.dmaReadResp, payload_makeMsg, List.length_append, length_leBytes, BitVec.ofNat_add]
      rfl
    rw [msg, Msg.cells_frame hl, bytes, List.append_assoc]
    rfl

end ScSent

end SmartEth
