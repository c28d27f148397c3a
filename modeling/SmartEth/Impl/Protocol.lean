import SmartEth.Framework.Bytes
import SmartEth.Framework.Mem

/-!
# The bridge protocol (`protocol.h`, `sc_protocol.h`)

Messages between QEMU and SystemC, register offsets and bits, and the
descriptors of the rings. A message is kept whole, as its type and its payload
(the length field of its header is the payload's length).
-/

namespace SmartEth

abbrev Word := BitVec 32
abbrev Addr := BitVec 64
abbrev GuestMem := Mem 64 Byte

inductive PcieMsgType where
  | mmioRead | mmioWrite | dmaRead | dmaWrite | msiIrq | bridgeReset
  deriving DecidableEq, Repr

def PcieMsgType.code : PcieMsgType → Word
  | .mmioRead => 0
  | .mmioWrite => 1
  | .dmaRead => 2
  | .dmaWrite => 3
  | .msiIrq => 4
  | .bridgeReset => 5

/-- The type that a header's `type` stands for. -/
def PcieMsgType.ofCode (code : Word) : Option PcieMsgType :=
  [mmioRead, mmioWrite, dmaRead, dmaWrite, msiIrq, bridgeReset].find? fun t => t.code = code

@[simp] theorem PcieMsgType.ofCode_code (t : PcieMsgType) : ofCode t.code = some t := by
  cases t <;> decide

inductive PcieStatus where
  | ok | errBusy | errTimeout
  deriving DecidableEq, Repr

def PcieStatus.code : PcieStatus → Word
  | .ok => 0
  | .errBusy => 1
  | .errTimeout => 2

/-- A whole message: `MsgHeader.type`, and the `MsgHeader.length` bytes after
the header. -/
structure Msg where
  type : Word
  payload : List Byte
  deriving DecidableEq

/-- `make_msg`. -/
def makeMsg (type : PcieMsgType) (payload : List Byte) : Msg := ⟨type.code, payload⟩

/-- A message's type, if it has one. -/
def Msg.kind (m : Msg) : Option PcieMsgType := PcieMsgType.ofCode m.type

@[simp] theorem payload_makeMsg (t : PcieMsgType) (payload : List Byte) :
    (makeMsg t payload).payload = payload := rfl

@[simp] theorem kind_makeMsg (t : PcieMsgType) (payload : List Byte) : (makeMsg t payload).kind = some t :=
  PcieMsgType.ofCode_code t

/-- A status on its own, which answers writes and resets. -/
def statusMsg (type : PcieMsgType) : Msg := makeMsg type (leBytes PcieStatus.ok.code)

/-- `MmioReadReq`. -/
def mmioReadReq (addr : Addr) : Msg := makeMsg .mmioRead (leBytes addr)

/-- `MmioReadResp`. -/
def mmioReadResp (data : Word) : Msg := makeMsg .mmioRead (leBytes data ++ leBytes PcieStatus.ok.code)

/-- `MmioWriteMsg`. -/
def mmioWriteMsg (addr : Addr) (data : Word) : Msg := makeMsg .mmioWrite (leBytes addr ++ leBytes data)

/-- `DmaReadReq`. -/
def dmaReadReq (addr : Addr) (len : Word) : Msg := makeMsg .dmaRead (leBytes addr ++ leBytes len)

/-- `DmaReadResp`, and the data after it. -/
def dmaReadResp (data : List Byte) : Msg := makeMsg .dmaRead (leBytes PcieStatus.ok.code ++ data)

/-- `DmaWriteReq`, and the data after it. -/
def dmaWriteReq (addr : Addr) (data : List Byte) : Msg :=
  makeMsg .dmaWrite (leBytes addr ++ (leBytes (BitVec.ofNat 32 data.length) ++ data))

/-- `MsiIrqMsg`. -/
def msiIrqMsg (vector : Word) : Msg := makeMsg .msiIrq (leBytes vector)

/-! ## Registers -/

def SC_REG_CTRL : Addr := 0x000
def SC_REG_STATUS : Addr := 0x004
def SC_REG_IRQ_EN : Addr := 0x008
def SC_REG_IRQ_STS : Addr := 0x00C
def SC_REG_MAC_LO : Addr := 0x010
def SC_REG_MAC_HI : Addr := 0x014
def SC_REG_SCRATCH0 : Addr := 0x020
def SC_REG_DMA_SRC : Addr := 0x040
def SC_REG_DMA_DST : Addr := 0x048
def SC_REG_DMA_LEN : Addr := 0x050
def SC_REG_DMA_CTRL : Addr := 0x058
def SC_REG_DMA_STS : Addr := 0x05C
def SC_REG_TX_RING_BASE_LO : Addr := 0x300
def SC_REG_TX_RING_BASE_HI : Addr := 0x304
def SC_REG_TX_RING_SIZE : Addr := 0x308
def SC_REG_TX_DOORBELL : Addr := 0x30C
def SC_REG_TX_TAIL : Addr := 0x310
def SC_REG_RX_RING_BASE_LO : Addr := 0x320
def SC_REG_RX_RING_BASE_HI : Addr := 0x324
def SC_REG_RX_RING_SIZE : Addr := 0x328
def SC_REG_RX_TAIL : Addr := 0x330
def SC_REG_DEV_ID : Addr := 0x100
def SC_REG_IRQ_TEST : Addr := 0x200
def SC_REG_COUNT : Addr := 0x400

def SC_CTRL_RESET : Word := 0x00000001
def SC_STATUS_READY : Word := 0x00000001
def SC_STATUS_DMA_BSY : Word := 0x00000002
def SC_IRQ_DMA_DONE : Word := 0x00000001
def SC_IRQ_TEST : Word := 0x00000002
def SC_IRQ_TX_DONE : Word := 0x00000004
def SC_IRQ_RX : Word := 0x00000008
def SC_DMA_START : Word := 0x00000001
def SC_DMA_DIR_WRITE : Word := 0x00000002
def SC_DMA_IRQ_EN : Word := 0x00000004

def SC_DEV_ID : Word := 0x52414D53

/-- Clearing bits changes nothing if none of them is set. -/
theorem and_not_eq_self {w : Nat} {a b : BitVec w} : a &&& ~~~b = a ↔ a &&& b = 0 := by
  constructor
  · intro h
    rw [← h, BitVec.and_assoc, BitVec.and_comm (~~~b), BitVec.and_not_self]
    exact BitVec.and_zero
  · intro h
    ext i hi
    have hb : (a &&& b)[i] = (0 : BitVec w)[i] := by rw [h]
    simp only [BitVec.getElem_and, BitVec.ofNat_eq_ofNat, BitVec.getElem_zero] at hb
    simp only [BitVec.getElem_and, BitVec.getElem_not]
    cases ha : a[i] <;> simp_all

/-- Aligned addresses with the same index are the same. -/
theorem shift_inj {a b : Addr} (ha : a &&& 3 = 0) (hb : b &&& 3 = 0) : a >>> 2 = b >>> 2 ↔ a = b := by
  refine ⟨fun h => ?_, fun h => h ▸ rfl⟩
  -- an address is its index, shifted back, and its two low bits
  have hsplit : ∀ x : Addr, x &&& 3 = 0 → x = x >>> 2 <<< 2 := by
    intro x hx
    apply BitVec.eq_of_toNat_eq
    have h3 : x.toNat &&& (2 ^ 2 - 1) = 0 := congrArg BitVec.toNat hx
    rw [Nat.and_two_pow_sub_one_eq_mod] at h3
    have := x.isLt
    rw [BitVec.toNat_shiftLeft, BitVec.toNat_ushiftRight, Nat.shiftLeft_eq, Nat.shiftRight_eq_div_pow]
    omega
  rw [hsplit a ha, hsplit b hb, h]

/-! ## Descriptors -/

def SMARTETH_DESC_FLAG_OWN : Word := 0x80000000
def SMARTETH_DESC_FLAG_DONE : Word := 0x40000000
def SMARTETH_DESC_FLAG_ERR : Word := 0x20000000

/-- A descriptor ring entry. -/
structure SmartEthDesc where
  addr : Addr
  length : Word
  flags : Word
  deriving DecidableEq

namespace SmartEthDesc

/-- `sizeof(SmartEthDesc)`. -/
abbrev size : Nat := 16

/-- The entry in memory: packed, little-endian. -/
def toBytes (d : SmartEthDesc) : List Byte := leBytes d.addr ++ (leBytes d.length ++ leBytes d.flags)

def ofBytes (bs : List Byte) : SmartEthDesc :=
  ⟨ofLeBytes 64 bs, ofLeBytes 32 (bs.drop 8), ofLeBytes 32 (bs.drop 12)⟩

/-- `desc.flags & SMARTETH_DESC_FLAG_OWN`. -/
def own (d : SmartEthDesc) : Bool := d.flags &&& SMARTETH_DESC_FLAG_OWN != 0

def done (d : SmartEthDesc) : Bool := d.flags &&& SMARTETH_DESC_FLAG_DONE != 0

def err (d : SmartEthDesc) : Bool := d.flags &&& SMARTETH_DESC_FLAG_ERR != 0

/-- `desc.flags &= ~OWN; desc.flags |= DONE`. -/
def complete (d : SmartEthDesc) : SmartEthDesc :=
  { d with flags := (d.flags &&& ~~~SMARTETH_DESC_FLAG_OWN) ||| SMARTETH_DESC_FLAG_DONE }

@[simp] theorem length_toBytes (d : SmartEthDesc) : d.toBytes.length = size := by
  simp only [toBytes, List.length_append, length_leBytes]

@[simp] theorem ofBytes_toBytes (d : SmartEthDesc) : ofBytes d.toBytes = d := by
  have e1 : d.toBytes.drop 8 = leBytes d.length ++ leBytes d.flags :=
    List.drop_left' (length_leBytes d.addr)
  have e2 : d.toBytes.drop 12 = leBytes d.flags ++ [] := by
    rw [show 12 = 8 + 4 from rfl, ← List.drop_drop, e1, List.append_nil]
    exact List.drop_left' (length_leBytes d.length)
  rw [ofBytes, e1, e2, toBytes, ofLeBytes_leBytes (by decide), ofLeBytes_leBytes (by decide),
    ofLeBytes_leBytes (by decide)]


@[simp] theorem own_complete (d : SmartEthDesc) : d.complete.own = false := by
  rw [own, bne_eq_false_iff_eq]
  ext i hi
  simp only [complete, SMARTETH_DESC_FLAG_OWN, SMARTETH_DESC_FLAG_DONE, BitVec.getElem_and,
    BitVec.getElem_or, BitVec.getElem_not]
  have : ∀ i (hi : i < 32), (0x80000000#32)[i] = true → (0x40000000#32)[i] = false := by decide
  by_cases h : (0x80000000#32)[i] <;> simp [h, this i hi]

@[simp] theorem done_complete (d : SmartEthDesc) : d.complete.done = true := by
  have h : (d.complete.flags &&& SMARTETH_DESC_FLAG_DONE).getLsbD 30 = true := by
    simp [complete, SMARTETH_DESC_FLAG_DONE]
  rw [done, bne_iff_ne]
  intro h0
  rw [h0] at h
  exact absurd h (by decide)

end SmartEthDesc

/-- The descriptor at `a` in guest memory. -/
def descAt (m : GuestMem) (a : Addr) : SmartEthDesc := .ofBytes (m.read a SmartEthDesc.size)

theorem descAt_write_self (m : GuestMem) (a : Addr) (d : SmartEthDesc) :
    descAt (m.write a d.toBytes) a = d := by
  have h := Mem.read_write_self m a d.toBytes (by rw [d.length_toBytes]; decide)
  rw [d.length_toBytes] at h
  rw [descAt, h, SmartEthDesc.ofBytes_toBytes]

/-- A write that does not overlap a descriptor keeps it. -/
theorem descAt_write_disjoint {m : GuestMem} {a b : Addr} {bs : List Byte}
    (h : (⟨a, SmartEthDesc.size⟩ : Region 64).Disjoint ⟨b, bs.length⟩) :
    descAt (m.write b bs) a = descAt m a := by
  rw [descAt, descAt, Mem.read_write_disjoint h]

end SmartEth
