import SmartEth.Framework.Locks
import SmartEth.Impl.ScBridge

/-!
# The locks on the QEMU side (`smarteth_sc_bridge.c`)

Any number of vCPU threads, each in one register access after another, and the
I/O thread, which is given any messages. An access is entered with the BQL held,
and QEMU releases it afterwards. The writes to the socket complete, and the
connection stays.
-/

namespace SmartEth

inductive ScLock where
  | bql | sockMtx | mmioMtx
  deriving DecidableEq

/-- `sock_mtx` and `mmio_mtx` are taken over the BQL, and neither over the other. -/
def ScLock.rank : ScLock → Fin 2
  | .bql => 0
  | .sockMtx | .mmioMtx => 1

inductive ScThread where
  | vcpu (i : Nat)
  | io
  deriving DecidableEq

/-- The data of the bridge, and the local variables of its threads: what a vCPU
has picked up (`result`, `status`), and the buffer of the I/O thread. -/
structure ScData where
  bridge : ScBridge
  mem : GuestMem
  sent : List Msg
  irqs : List Word
  picked : Nat → Word × Word
  buf : List Byte
  /-- The values of the reads that have returned, by thread. -/
  returned : List (Nat × Word)

inductive ScAct where
  | setPending
  | pickUp (i : Nat)
  | finish (i : Nat) (addr : Addr)
  | readLocal (i : Nat) (addr : Addr)
  | writeLocal (addr : Addr) (val : BitVec 64)
  | send (m : Msg)
  | reply (data status : Word)
  | pciRead (addr : Addr) (length : Word)
  | sendBuf
  | pciWrite (addr : Addr) (length : Word) (data : List Byte)
  | notify (vector : Word)

def ScAct.exec : ScAct → ScData → ScData
  | .setPending, d => { d with bridge := d.bridge.mmioReadBegin }
  | .pickUp i, d =>
    { d with picked := Function.update d.picked i (d.bridge.mmioRespData, d.bridge.mmioRespStatus) }
  | .finish i addr, d =>
    let (bridge, value) := d.bridge.mmioReadFinish addr (d.picked i).1 (d.picked i).2
    { d with bridge := bridge, returned := d.returned ++ [(i, value)] }
  | .readLocal i addr, d => { d with returned := d.returned ++ [(i, d.bridge.mmioReadLocal addr)] }
  | .writeLocal addr val, d => { d with bridge := (d.bridge.mmioWrite addr val).1 }
  | .send m, d => { d with sent := d.sent ++ [m] }
  | .reply data status, d =>
    { d with bridge := { d.bridge with mmioRespData := data, mmioRespStatus := status, mmioPending := false } }
  | .pciRead addr length, d => { d with buf := d.mem.read addr (ScBridge.dmaLen length) }
  | .sendBuf, d => { d with sent := d.sent ++ [ScBridge.handleDmaRead d.buf] }
  | .pciWrite addr length data, d => { d with mem := ScBridge.handleDmaWrite d.mem addr length data }
  | .notify vector, d => { d with irqs := d.irqs ++ if d.bridge.msix then [vector] else [] }

namespace ScBridge

/-- What is done under a lock. -/
def under (l : ScLock) (a : ScAct) : List (LockAct ScLock ScAct) := [.lock l, .exec a, .unlock l]

def mmioReadProg (s : ScBridge) (i : Nat) (addr : Addr) : List (LockAct ScLock ScAct) :=
  if s.forwardsRead addr then
    under .mmioMtx .setPending ++ under .sockMtx (.send (mmioReadReq addr)) ++
      [.unlock .bql, .lock .mmioMtx, .await .mmioMtx, .exec (.pickUp i), .unlock .mmioMtx, .lock .bql,
        .exec (.finish i addr)]
  else [.exec (.readLocal i addr)]

def mmioWriteProg (s : ScBridge) (addr : Addr) (val : BitVec 64) : List (LockAct ScLock ScAct) :=
  .exec (.writeLocal addr val) ::
    match (s.mmioWrite addr val).2 with
    | some m => under .sockMtx (.send m)
    | none => []

/-- An access, with the BQL around it. -/
def access (p : List (LockAct ScLock ScAct)) : List (LockAct ScLock ScAct) := .lock .bql :: (p ++ [.unlock .bql])

def handleMsgProg (m : Msg) : List (LockAct ScLock ScAct) :=
  match m.kind with
  | some .mmioRead =>
    if m.payload.length < 8 then []
    else under .mmioMtx (.reply (ofLeBytes 32 m.payload) (ofLeBytes 32 (m.payload.drop 4)))
  | some .mmioWrite => []
  | some .dmaRead =>
    if m.payload.length < 12 then []
    else
      under .bql (.pciRead (ofLeBytes 64 m.payload) (ofLeBytes 32 (m.payload.drop 8))) ++ under .sockMtx .sendBuf
  | some .dmaWrite =>
    if m.payload.length < 12 then []
    else
      under .bql (.pciWrite (ofLeBytes 64 m.payload) (ofLeBytes 32 (m.payload.drop 8)) (m.payload.drop 12)) ++
        under .sockMtx (.send (statusMsg .dmaWrite))
  | some .msiIrq => if m.payload.length < 4 then [] else under .bql (.notify (ofLeBytes 32 m.payload))
  | _ => []

end ScBridge

abbrev BridgeLocks := Locks ScThread ScLock ScAct ScData

inductive BridgeLockEvent where
  | read (i : Nat) (addr : Addr)
  | write (i : Nat) (addr : Addr) (val : BitVec 64)
  | recv (m : Msg)
  | go (t : ScThread)
  | wake (t : ScThread)

namespace BridgeLocks

def step (s : BridgeLocks) : BridgeLockEvent → Option BridgeLocks
  | .read i addr => s.start (.vcpu i) (ScBridge.access (s.data.bridge.mmioReadProg i addr))
  | .write i addr val => s.start (.vcpu i) (ScBridge.access (s.data.bridge.mmioWriteProg addr val))
  | .recv m => s.start .io (ScBridge.handleMsgProg m)
  | .go t => s.go ScAct.exec (fun d => d.bridge.mmioPending) t
  | .wake t => s.wake t

/-- No lock is held, and no thread is in a call. -/
structure Start (s : BridgeLocks) : Prop where
  owner : ∀ l, s.owner l = none
  thread : ∀ t, s.thread t = .running []

end BridgeLocks

end SmartEth
