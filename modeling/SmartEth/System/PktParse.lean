import SmartEth.Impl.PktProc

/-!
# What is parsed of a frame

`PktProc::receive` after other frames, against the parse of the frame alone, filled up with
zeros to 64 bytes.
-/

namespace SmartEth

/-- What `PktProc` parses of a frame. -/
structure Parsed where
  destMac : List Byte
  srcMac : List Byte
  ethertype : BitVec 16
  payloadOffset : Word
  deriving DecidableEq

namespace PktProc

def parsed (p : PktProc) : Parsed := ⟨p.pkt.destMac, p.pkt.srcMac, p.pkt.ethertype, p.pkt.payloadOffset⟩

/-- After these frames. -/
def receiveAll (frames : List (List Byte)) : PktProc := frames.foldl (fun p f => (p.receive f).1) new

/-- What is parsed of a frame after the frames of `history`. -/
def parsedAfter (history : List (List Byte)) (frame : List Byte) : Parsed :=
  ((receiveAll history).receive frame).1.parsed

def padded (frame : List Byte) : List Byte := frame ++ List.replicate (64 - frame.length) 0

/-- A frame with an 802.1Q tag. -/
def Tagged (frame : List Byte) : Prop := field16 (padded frame) 12 = 0x8100

instance (frame : List Byte) : Decidable (Tagged frame) := inferInstanceAs (Decidable (_ = _))

/-- The parse of the frame, padded. -/
def reference (frame : List Byte) : Parsed where
  destMac := (padded frame).take 6
  srcMac := ((padded frame).drop 6).take 6
  ethertype := if Tagged frame then field16 (padded frame) 16 else field16 (padded frame) 12
  payloadOffset := if Tagged frame then 18 else 14

/-- Byte `i` of the last frame that is long enough to have one, or zero. -/
def leftOver (history : List (List Byte)) (i : Nat) : Byte :=
  (history.reverse.find? fun f => i < f.length).elim 0 fun f => f.getD i 0

/-- A header byte beyond the frame's end is zero in the frame that last had one there: of the addresses and
the field at 12, and of the one at 16 if the frame, padded, is tagged. -/
def Clean (history : List (List Byte)) (frame : List Byte) : Prop :=
  ∀ i, (i < 14 ∨ Tagged frame ∧ 16 ≤ i ∧ i < 18) → frame.length ≤ i → leftOver history i = 0

end PktProc

end SmartEth
