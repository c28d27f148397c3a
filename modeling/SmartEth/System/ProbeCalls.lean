import SmartEth.Impl.ProbeCalls

/-!
# What probe and remove hold

Every call that may fail does or does not; what has been acquired is held until it is
released. The driver core calls probe and remove, and releases what it manages.
-/

namespace SmartEth

/-- `bad` tells that something was released that was not held. -/
structure Holdings where
  held : Resource → Bool
  bad : Bool

namespace Holdings

def none : Holdings := ⟨fun _ => false, false⟩

def acquire (s : Holdings) (r : Resource) : Holdings := { s with held := fun x => if x = r then true else s.held x }

def release (s : Holdings) (r : Resource) : Holdings where
  held := fun x => if x = r then false else s.held x
  bad := s.bad || !s.held r

/-- The driver core releases what it manages. -/
def devresRelease (s : Holdings) : Holdings := { s with held := fun r => s.held r && !r.managed }

/-- Nothing is held, and nothing was released without being held. -/
def Clean (s : Holdings) : Prop := (∀ r, s.held r = false) ∧ s.bad = false

end Holdings

namespace ProbeCalls

/-- The calls succeed where `ok` says so. -/
def answer (ok : ProbeCall → Bool) (s : Holdings) : (e : ProbeOp) → e.Res × Holdings
  | .call c => (ok c, match c with
    | .get r => if ok c then s.acquire r else s
    | _ => s)
  | .release r => ((), s.release r)

/-- Probe, as the driver core calls it. -/
def probed (ok : ProbeCall → Bool) : Option (List Bool) × Holdings :=
  let r := probe.exec (answer ok) .none
  (r.1, if r.1.isNone then r.2.devresRelease else r.2)

/-- Remove, as the driver core calls it. -/
def removed (ok : ProbeCall → Bool) (rxBuf : List Bool) (s : Holdings) : Holdings :=
  ((remove rxBuf).exec (answer ok) s).2.devresRelease

/-- A probe that fails leaves nothing; one that succeeds has released nothing it did not hold, and
remove then leaves nothing. -/
def ReleasesAll (ok : ProbeCall → Bool) : Prop :=
  match probed ok with
  | (none, s) => s.Clean
  | (some rxBuf, s) => s.bad = false ∧ (removed ok rxBuf s).Clean

/-- The calls before the receive buffers are prepared. -/
def earlierCalls : List ProbeCall :=
  [.get .adapter, .get .device, .dmaMask, .get .region, .get .iomap, .devId, .get .vectors, .get .irq, .get .txRing,
    .get .rxRing, .get .rxBufArray, .get .rxDmaArray]

/-- Buffer `i` is allocated and mapped. -/
def bufferOk (ok : ProbeCall → Bool) (i : Nat) : Bool := ok (.get (.rxBuf i)) && ok (.get (.rxMap i))

/-- If the preparation of the receive buffers is reached and gets the first of them, it gets all. -/
def NoneOrAllBuffers (ok : ProbeCall → Bool) : Prop :=
  (∀ c ∈ earlierCalls, ok c = true) → bufferOk ok 0 = true →
    ∀ i, i < SmartEthMain.SMARTETH_RING_SIZE → bufferOk ok i = true

end ProbeCalls

end SmartEth
