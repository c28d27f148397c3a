import SmartEth.Impl.Protocol

/-!
# The DMA engine (`dma_engine.cpp`)

The engine never holds a length above its buffer's (`len_le`), whose size does
not change (`buf_length`).
-/

namespace SmartEth

def DMA_CYCLE_NS : Nat := 2
def DMA_START_NS : Nat := 50
def DMA_MAX_BUF : Nat := 4096

structure DmaEngine where
  src : Addr
  dst : Addr
  len : Word
  ctrl : Word
  busy : Bool
  dirWrite : Bool
  irqEn : Bool
  buf : List Byte
  len_le : len.toNat ≤ DMA_MAX_BUF
  buf_length : buf.length = DMA_MAX_BUF

namespace DmaEngine

/-- The constructor. -/
def new : DmaEngine where
  src := 0
  dst := 0
  len := 0
  ctrl := 0
  busy := false
  dirWrite := false
  irqEn := false
  buf := List.replicate DMA_MAX_BUF 0
  len_le := by decide
  buf_length := List.length_replicate

/-- `std::min<uint32_t>(len, DMA_MAX_BUF)`. -/
def clampLen (len : Word) : Word := if len.toNat ≤ DMA_MAX_BUF then len else BitVec.ofNat 32 DMA_MAX_BUF

theorem toNat_clampLen (len : Word) : (clampLen len).toNat = min len.toNat DMA_MAX_BUF := by
  unfold clampLen
  split
  · rename_i h
    exact (Nat.min_eq_left h).symm
  · rename_i h
    exact (Nat.min_eq_right (Nat.le_of_not_le h)).symm

theorem clampLen_le (len : Word) : (clampLen len).toNat ≤ DMA_MAX_BUF := by
  unfold clampLen
  split
  · assumption
  · decide

def configure (d : DmaEngine) (src dst : Addr) (len ctrl : Word) : DmaEngine :=
  { d with
    src := src
    dst := dst
    len := clampLen len
    ctrl := ctrl
    dirWrite := ctrl &&& SC_DMA_DIR_WRITE != 0
    irqEn := ctrl &&& SC_DMA_IRQ_EN != 0
    len_le := clampLen_le len }

/-- What a read callback leaves in the buffer: the bytes it put at its start. -/
def fill (d : DmaEngine) (bs : List Byte) : DmaEngine :=
  { d with
    buf := overlay d.buf bs
    buf_length := (length_overlay _ _).trans d.buf_length }

/-- `SC_STATUS_DMA_BSY` while a transfer runs. -/
def status (d : DmaEngine) : Word := if d.busy then SC_STATUS_DMA_BSY else 0

/-- A transfer through the callbacks, whose results it ignores, and the time it
takes. A read callback gives the bytes it put into the buffer, or fails. -/
def start {m : Type → Type} [Monad m] (d : DmaEngine) (readCb : Addr → Word → m (Option (List Byte)))
    (writeCb : Addr → List Byte → m Bool) : m (DmaEngine × Nat) :=
  if d.busy || d.len == 0 then pure (d, 0)
  else
    let d := { d with busy := true }
    let delay := DMA_START_NS + (d.len.toNat + 3) / 4 * DMA_CYCLE_NS
    if d.dirWrite then do
      let _ ← writeCb d.dst (d.buf.take d.len.toNat)
      pure ({ d with busy := false }, delay)
    else do
      let r ← readCb d.src d.len
      pure ({ (r.elim d d.fill) with busy := false }, delay)

end DmaEngine

end SmartEth
