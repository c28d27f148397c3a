import SmartEth.Impl.Protocol

/-!
# The packet processor (`pkt_proc.cpp`)

The fields of `PacketDescriptor` that nothing sets (`data`, `length`) are left
out.
-/

namespace SmartEth

structure PacketDescriptor where
  payloadOffset : Word
  ethertype : BitVec 16
  destMac : List Byte
  srcMac : List Byte
  crcValid : Bool

structure PktProc where
  pkt : PacketDescriptor
  buf : List Byte

namespace PktProc

def PKT_PROC_NS : Nat := 80 + 20 + 10 + 40

def new : PktProc where
  pkt := ⟨0, 0, List.replicate 6 0, List.replicate 6 0, false⟩
  buf := List.replicate 2048 0

/-- `std::vector::resize`: cut off, or filled up with zeros. -/
def resize (buf : List Byte) (n : Nat) : List Byte := buf.take n ++ List.replicate (n - buf.length) 0

def parseMac (p : PktProc) (frame : List Byte) : PktProc :=
  { p with pkt := { p.pkt with destMac := frame.take 6, srcMac := (frame.drop 6).take 6 } }

/-- A big-endian 16-bit field of the frame. -/
def field16 (frame : List Byte) (i : Nat) : BitVec 16 :=
  (frame.getD i 0).setWidth 16 <<< 8 ||| (frame.getD (i + 1) 0).setWidth 16

def parseEthertype (p : PktProc) (frame : List Byte) : PktProc :=
  let etype := field16 frame 12
  if etype = 0x8100 then
    { p with pkt := { p.pkt with ethertype := field16 frame 16, payloadOffset := 18 } }
  else { p with pkt := { p.pkt with ethertype := etype, payloadOffset := 14 } }

/-- Not a CRC: any frame of 4 bytes is valid. -/
def checkCrc32 (length : Nat) : Bool := !(length < 4)

/-- Parses a frame in the working buffer, which keeps what it held beyond the
frame's end; the delay in nanoseconds. -/
def receive (p : PktProc) (frame : List Byte) : PktProc × Nat :=
  let buf := overlay (resize p.buf (max frame.length 64)) frame
  let p := parseEthertype (parseMac { p with buf := buf } buf) buf
  ({ p with pkt := { p.pkt with crcValid := checkCrc32 frame.length } }, PKT_PROC_NS)

end PktProc

end SmartEth
