import SmartEth.Framework.Frames

/-!
# A thread that handles frames

A thread reads frames from a byte stream and handles each before it reads on, among other things
that happen to the state it works on (`Dispatch.step`). Between the frame and its end the thread may
have more to do, and reads on only from a state that says it is idle. However the stream is split,
and whatever happens between the reads, the state is one that comes about when every frame is
handled whole, at one point, in the order they were sent (`Dispatch.refines_from`).
-/

namespace SmartEth

variable {β σ ε γ : Type}

/-- What is not in a frame but its handling may depend on is in `γ`; what happens besides is an
event of `ε`. -/
structure FrameHandler (β σ ε γ : Type) where
  idle : σ → Bool
  handle : γ → σ → Frame β → σ
  other : σ → ε → Option σ
  keeps : ∀ s e t, other s e = some t → idle s = true → idle t = true

/-- `handled` frames have been handled. -/
structure Dispatch (β σ : Type) where
  stream : Stream β
  handled : Nat
  state : σ

inductive DispatchEvent (ε γ : Type) where
  | write (n : Nat)
  | read (n : Nat)
  | handle (g : γ)
  | other (e : ε)

/-- A frame is handled at one point. -/
inductive AtomicEvent (β ε γ : Type) where
  | frame (g : γ) (f : Frame β)
  | other (e : ε)

def DispatchEvent.other? : DispatchEvent ε γ → Option ε
  | other e => some e
  | _ => none

namespace AtomicEvent

def other? : AtomicEvent β ε γ → Option ε
  | other e => some e
  | _ => none

def frame? : AtomicEvent β ε γ → Option (Frame β)
  | frame _ f => some f
  | _ => none

end AtomicEvent

namespace FrameHandler

variable (H : FrameHandler β σ ε γ)

def atomic (s : σ) : AtomicEvent β ε γ → Option σ
  | .frame g f => if H.idle s then some (H.handle g s f) else none
  | .other e => H.other s e

end FrameHandler

namespace Dispatch

variable (F : Framing β) (H : FrameHandler β σ ε γ)

def start (msgs : List (List β)) (s : σ) : Dispatch β σ := ⟨Stream.start msgs, 0, s⟩

def step (d : Dispatch β σ) : DispatchEvent ε γ → Option (Dispatch β σ)
  | .write n => (d.stream.write n).map fun t => { d with stream := t }
  | .read n =>
    if d.handled = d.stream.frames.length ∧ H.idle d.state then
      (d.stream.read F n).map fun t => { d with stream := t }
    else none
  | .handle g =>
    match d.stream.frames[d.handled]? with
    | some f => some { d with handled := d.handled + 1, state := H.handle g d.state f }
    | none => none
  | .other e => (H.other d.state e).map fun s => { d with state := s }

/-- Everything sent has been handled. -/
structure Finished (d : Dispatch β σ) : Prop where
  done : d.stream.Done
  handled : d.handled = d.stream.frames.length

/-- The thread has read at most one frame more than it has handled, and is idle then. -/
structure Inv (sent : List (Frame β)) (d : Dispatch β σ) : Prop where
  stream : Stream.Inv F sent d.stream
  le : d.handled ≤ d.stream.frames.length
  next : d.stream.frames.length ≤ d.handled + 1
  idle : d.handled < d.stream.frames.length → H.idle d.state = true

variable {F H} {sent : List (Frame β)} {d t : Dispatch β σ}

theorem length_read {s t : Stream β} {n : Nat} (h : s.read F n = some t) :
    s.frames.length ≤ t.frames.length ∧ t.frames.length ≤ s.frames.length + 1 := by
  obtain ⟨-, -, -, rfl⟩ := Stream.read_some h
  have hone (o : Option (Frame β)) : o.toList.length ≤ 1 := by cases o <;> simp
  dsimp only
  rw [List.length_append]
  exact ⟨Nat.le_add_right _ _, Nat.add_le_add_left (hone _) _⟩

/-- One step: the state changes as in a step with whole frames, or not at all. -/
theorem Inv.step {e : DispatchEvent ε γ} (hv : ∀ f ∈ sent, F.Valid f) (hi : Inv F H sent d)
    (h : d.step F H e = some t) : Inv F H sent t ∧ ∃ as, run H.atomic d.state as = some t.state ∧
      sent.take t.handled = sent.take d.handled ++ as.filterMap AtomicEvent.frame? ∧
      as.filterMap AtomicEvent.other? = e.other?.toList := by
  cases e with
  | write n =>
    obtain ⟨s, hs, rfl⟩ := Option.map_eq_some_iff.mp h
    obtain ⟨cur, rest, -, -, -, hs'⟩ := Stream.write_some hs
    have hframes : s.frames = d.stream.frames := by rw [hs']
    refine ⟨⟨hi.stream.write hs, ?_, ?_, fun hlt => hi.idle ?_⟩, [], rfl, (List.append_nil _).symm, rfl⟩
    · exact hframes ▸ hi.le
    · exact hframes ▸ hi.next
    · exact hframes ▸ hlt
  | read n =>
    by_cases hcan : d.handled = d.stream.frames.length ∧ H.idle d.state
    · rw [Dispatch.step, if_pos hcan] at h
      obtain ⟨s, hs, rfl⟩ := Option.map_eq_some_iff.mp h
      have hlen := length_read hs
      refine ⟨⟨hi.stream.read hv hs, ?_, ?_, fun _ => hcan.2⟩, [], rfl, (List.append_nil _).symm, rfl⟩
      · exact hi.le.trans hlen.1
      · have := hcan.1
        dsimp only
        omega
    · rw [Dispatch.step, if_neg hcan] at h
      cases h
  | handle g =>
    rcases hf : d.stream.frames[d.handled]? with _ | f
    · simp only [Dispatch.step, hf] at h
      cases h
    · simp only [Dispatch.step, hf, Option.some.injEq] at h
      subst h
      obtain ⟨hlt, -⟩ := List.getElem?_eq_some_iff.mp hf
      obtain ⟨rest, hsent, -⟩ := hi.stream.cells
      have hnext : sent[d.handled]? = some f := by
        rw [hsent, List.getElem?_append_left hlt, hf]
      have hnone : d.stream.frames.length ≤ d.handled + 1 := hi.next
      refine ⟨⟨hi.stream, hlt, by dsimp only; omega, fun hlt' => absurd hlt' (by dsimp only; omega)⟩,
        [.frame g f], ?_, ?_, rfl⟩
      · show (if H.idle d.state then some (H.handle g d.state f) else none).bind _ = _
        rw [if_pos (hi.idle hlt)]
        rfl
      · show sent.take (d.handled + 1) = _
        rw [List.take_add_one, hnext]
        rfl
  | other e =>
    obtain ⟨s, hs, rfl⟩ := Option.map_eq_some_iff.mp h
    refine ⟨⟨hi.stream, hi.le, hi.next, fun hlt => H.keeps _ _ _ hs (hi.idle hlt)⟩, [.other e], ?_, (List.append_nil _).symm, rfl⟩
    show (H.other d.state e).bind _ = _
    rw [hs]
    rfl

theorem Inv.start (hv : ∀ f ∈ sent, F.Valid f) (s : σ) : Inv F H sent (start (sent.map Frame.cells) s) :=
  ⟨.start hv, le_rfl, Nat.zero_le _, fun h => absurd h (Nat.lt_irrefl 0)⟩

/-- Every run is one in which each frame is handled at one point, the frames in the order they were
sent, and everything else happens as it does. -/
theorem refines_from {es : List (DispatchEvent ε γ)} (hv : ∀ f ∈ sent, F.Valid f) (hi : Inv F H sent d)
    (h : run (step F H) d es = some t) : Inv F H sent t ∧ ∃ as, run H.atomic d.state as = some t.state ∧
      sent.take t.handled = sent.take d.handled ++ as.filterMap AtomicEvent.frame? ∧
      as.filterMap AtomicEvent.other? = es.filterMap DispatchEvent.other? := by
  induction es generalizing d with
  | nil =>
    cases h
    exact ⟨hi, [], rfl, (List.append_nil _).symm, rfl⟩
  | cons e es ih =>
    obtain ⟨r, hr, hes⟩ := run_cons_some.mp h
    obtain ⟨hir, as, hrun, hframes, hothers⟩ := hi.step hv hr
    obtain ⟨hit, bs, hrun', hframes', hothers'⟩ := ih hir hes
    refine ⟨hit, as ++ bs, ?_, ?_, ?_⟩
    · exact run_append_some hrun hrun'
    · rw [hframes', hframes, List.append_assoc, List.filterMap_append]
    · rw [List.filterMap_append, hothers, hothers', List.filterMap_cons]
      cases e.other? <;> rfl

/-- As long as something is left, the thread can go on, or is not idle. -/
theorem Inv.progress [Inhabited γ] (hi : Inv F H sent d) (hd : ¬ d.Finished) :
    H.idle d.state = false ∨ ∃ e : DispatchEvent ε γ, e.other? = none ∧ (d.step F H e).isSome := by
  rcases Nat.lt_or_eq_of_le hi.le with hlt | heq
  · refine .inr ⟨.handle default, rfl, ?_⟩
    simp only [Dispatch.step, List.getElem?_eq_getElem hlt, Option.isSome_some]
  · rcases hidle : H.idle d.state
    · exact .inl rfl
    obtain ⟨e, he⟩ := hi.stream.progress fun hdone => hd ⟨hdone, heq⟩
    obtain ⟨s, hs⟩ := Option.isSome_iff_exists.mp he
    refine .inr ?_
    cases e with
    | write n => exact ⟨.write n, rfl, by
        have hs : d.stream.write n = some s := hs
        rw [Dispatch.step, hs]
        rfl⟩
    | read n => exact ⟨.read n, rfl, by
        have hs : d.stream.read F n = some s := hs
        rw [Dispatch.step, if_pos ⟨heq, hidle⟩, hs]
        rfl⟩

theorem Inv.finished (hv : ∀ f ∈ sent, F.Valid f) (hi : Inv F H sent d) (hd : d.Finished) :
    sent.take d.handled = sent := by
  rw [hd.handled, hi.stream.done hv hd.done, List.take_length]

end Dispatch

end SmartEth
