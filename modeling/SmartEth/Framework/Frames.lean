import SmartEth.Framework.Run

/-!
# Frames over a byte stream

A frame is a header of a fixed size, which tells the length of the body that
follows it (`Framing`). A sender writes frames one after another, any nonempty
part of the current one at a time; a receiver reads a whole header, then a
whole body, any nonempty part of what it still asks for at a time
(`Stream.step`). However both split the stream, the receiver gets the frames
that were sent, in order, and gets all of them (`Stream.delivers`). What one
read does to a receiver in step with the stream is `Framing.take_spec`.
-/

namespace SmartEth

variable {β : Type}

structure Frame (β : Type) where
  header : List β
  body : List β
  deriving DecidableEq

def Frame.cells (f : Frame β) : List β := f.header ++ f.body

/-- The cells of frames sent one after another. -/
def framesCells (fs : List (Frame β)) : List β := (fs.map Frame.cells).flatten

@[simp] theorem framesCells_nil : framesCells ([] : List (Frame β)) = [] := rfl

@[simp] theorem framesCells_cons (f : Frame β) (fs : List (Frame β)) :
    framesCells (f :: fs) = f.header ++ (f.body ++ framesCells fs) := by
  rw [framesCells, List.map_cons, List.flatten_cons, Frame.cells, List.append_assoc, framesCells]

/-- The size of a header, and the length of the body it announces. -/
structure Framing (β : Type) where
  size : Nat
  bodyLen : List β → Nat
  size_pos : 0 < size

/-- How far a receiver is with a frame: with a part of the header, or with the
header and a part of the body. -/
inductive Phase (β : Type) where
  | header (got : List β)
  | body (hdr got : List β)

/-- What has been read of the current frame. -/
def Phase.held : Phase β → List β
  | .header got => got
  | .body hdr got => hdr ++ got

namespace Framing

variable (F : Framing β)

structure Valid (f : Frame β) : Prop where
  header : f.header.length = F.size
  body : f.body.length = F.bodyLen f.header

/-- The number of cells that the next read asks for. -/
def asked : Phase β → Nat
  | .header got => F.size - got.length
  | .body hdr got => F.bodyLen hdr - got.length

/-- A read has returned `chunk`: the next phase, and the frame if it is complete. -/
def take : Phase β → List β → Phase β × Option (Frame β)
  | .header got, chunk =>
    let hdr := got ++ chunk
    if hdr.length < F.size then (.header hdr, none)
    else if F.bodyLen hdr = 0 then (.header [], some ⟨hdr, []⟩)
    else (.body hdr [], none)
  | .body hdr got, chunk =>
    let body := got ++ chunk
    if body.length < F.bodyLen hdr then (.body hdr body, none)
    else (.header [], some ⟨hdr, body⟩)

/-- A receiver always asks for something. -/
structure Ok (p : Phase β) : Prop where
  asks : 0 < F.asked p
  header : ∀ hdr got, p = .body hdr got → hdr.length = F.size

variable {F}

theorem ok_start : F.Ok (.header []) := ⟨F.size_pos, fun _ _ h => by cases h⟩

/-- The header and the body of the first frame to come. -/
theorem first_frame {hdr q : List β} {rest : List (Frame β)} (hv : ∀ f ∈ rest, F.Valid f)
    (hh : hdr.length = F.size) (hs : hdr ++ q = framesCells rest) :
    ∃ body rest', rest = ⟨hdr, body⟩ :: rest' ∧ body.length = F.bodyLen hdr ∧
      q = body ++ framesCells rest' := by
  have hpos := F.size_pos
  rcases rest with _ | ⟨⟨hdr', body⟩, rest'⟩
  · have := congrArg List.length hs
    simp only [framesCells_nil, List.length_append, List.length_nil] at this
    omega
  · have hf := hv _ List.mem_cons_self
    rw [framesCells_cons] at hs
    obtain ⟨rfl, h₂⟩ := List.append_inj hs (hh.trans hf.header.symm)
    exact ⟨body, rest', rfl, hf.body, h₂⟩

/-- A receiver that holds the start of the frames to come, and reads what is next,
is handed the first of them when it is complete. -/
theorem take_spec {p : Phase β} {chunk q : List β} {rest : List (Frame β)} (hp : F.Ok p)
    (hv : ∀ f ∈ rest, F.Valid f) (hn : chunk.length ≤ F.asked p)
    (hs : p.held ++ (chunk ++ q) = framesCells rest) :
    ∃ rest', rest = (F.take p chunk).2.toList ++ rest' ∧ (F.take p chunk).1.held ++ q = framesCells rest' ∧
      F.Ok (F.take p chunk).1 := by
  have ha := hp.asks
  cases p with
  | header got =>
    rw [asked] at hn ha
    rw [Phase.held, ← List.append_assoc] at hs
    have hl : (got ++ chunk).length = got.length + chunk.length := List.length_append
    by_cases h1 : (got ++ chunk).length < F.size
    · rw [take, if_pos h1]
      refine ⟨rest, rfl, hs, ?_, fun _ _ h => by cases h⟩
      rw [asked]
      omega
    · obtain ⟨body, rest', rfl, hb, hq⟩ := first_frame hv (by omega) hs
      rw [take, if_neg h1]
      by_cases h2 : F.bodyLen (got ++ chunk) = 0
      · rw [if_pos h2]
        obtain rfl := List.eq_nil_of_length_eq_zero (hb.trans h2)
        exact ⟨rest', rfl, hq, ok_start⟩
      · rw [if_neg h2]
        refine ⟨_, rfl, hs.trans rfl ▸ ?_, Nat.pos_of_ne_zero h2, fun _ _ h => ?_⟩
        · rw [Phase.held, List.append_nil]
        · cases h
          omega
  | body hdr got =>
    rw [asked] at hn ha
    rw [Phase.held, List.append_assoc] at hs
    have hl : (got ++ chunk).length = got.length + chunk.length := List.length_append
    obtain ⟨body, rest', rfl, hb, hq⟩ := first_frame hv (hp.header hdr got rfl) hs
    by_cases h1 : (got ++ chunk).length < F.bodyLen hdr
    · rw [take, if_pos h1]
      refine ⟨_, rfl, ?_, ?_, fun _ _ h => ?_⟩
      · rw [Phase.held, framesCells_cons, ← hq, List.append_assoc, List.append_assoc]
      · rw [asked]
        omega
      · cases h
        exact hp.header _ _ rfl
    · rw [take, if_neg h1]
      rw [← List.append_assoc] at hq
      obtain ⟨rfl, h₂⟩ := List.append_inj hq (by omega)
      exact ⟨rest', rfl, h₂, ok_start⟩

/-- Past a whole header, nothing of the next one is held. -/
theorem take_header {got chunk g : List β} (h : F.size ≤ (got ++ chunk).length)
    (hp : (F.take (.header got) chunk).1 = .header g) : g = [] := by
  rw [take, if_neg (Nat.not_lt.mpr h)] at hp
  split at hp <;> cases hp
  rfl

theorem take_body {hdr got chunk g : List β} (hp : (F.take (.body hdr got) chunk).1 = .header g) : g = [] := by
  rw [take] at hp
  split at hp <;> cases hp
  rfl

/-- A receiver in step with the stream holds less than the next frame. -/
theorem rest_eq_nil {p : Phase β} {rest : List (Frame β)} (hp : F.Ok p) (hv : ∀ f ∈ rest, F.Valid f)
    (hs : p.held = framesCells rest) : rest = [] := by
  rcases rest with _ | ⟨f, rest'⟩
  · rfl
  have hf := hv f List.mem_cons_self
  have ha := hp.asks
  have hl := congrArg List.length hs
  cases p with
  | header got =>
    rw [asked] at ha
    rw [framesCells_cons, Phase.held, List.length_append, hf.header] at hl
    omega
  | body hdr got =>
    rw [asked] at ha
    rw [Phase.held] at hs
    obtain ⟨body, rest'', he, hb, hq⟩ := first_frame hv (hp.header hdr got rfl) hs
    have := congrArg List.length hq
    rw [List.length_append] at this
    omega

end Framing

/-! ## A sender and a receiver -/

/-- What the sender has still to write, the part left of the current frame first;
what is on its way; the receiver, and what it has been handed. -/
structure Stream (β : Type) where
  todo : List (List β)
  pipe : List β
  phase : Phase β
  frames : List (Frame β)

inductive StreamEvent where
  | write (n : Nat)
  | read (n : Nat)

namespace Stream

variable (F : Framing β)

/-- Before anything is sent of `msgs`. -/
def start (msgs : List (List β)) : Stream β := ⟨msgs, [], .header [], []⟩

/-- Nothing is left to write or to read. -/
def Done (s : Stream β) : Prop := s.todo = [] ∧ s.pipe = []

/-- A write accepts `n` cells of what is left of the current message. -/
def write (s : Stream β) (n : Nat) : Option (Stream β) :=
  match s.todo with
  | [] => none
  | cur :: rest =>
    if 0 < n ∧ n ≤ cur.length then
      some { s with todo := if n = cur.length then rest else cur.drop n :: rest, pipe := s.pipe ++ cur.take n }
    else none

/-- A read returns `n` cells. -/
def read (s : Stream β) (n : Nat) : Option (Stream β) :=
  if 0 < n ∧ n ≤ F.asked s.phase ∧ n ≤ s.pipe.length then
    some { s with
      pipe := s.pipe.drop n
      phase := (F.take s.phase (s.pipe.take n)).1
      frames := s.frames ++ (F.take s.phase (s.pipe.take n)).2.toList }
  else none

def step (s : Stream β) : StreamEvent → Option (Stream β)
  | .write n => s.write n
  | .read n => s.read F n

/-- What the receiver holds, what is on its way and what is left to write are the
frames to come. -/
structure Inv (sent : List (Frame β)) (s : Stream β) : Prop where
  cells : ∃ rest, sent = s.frames ++ rest ∧ s.phase.held ++ (s.pipe ++ s.todo.flatten) = framesCells rest
  ok : F.Ok s.phase
  todo : ∀ cur ∈ s.todo, cur ≠ []

variable {F} {sent : List (Frame β)} {s t : Stream β}

theorem write_some {n : Nat} (h : s.write n = some t) : ∃ cur rest, s.todo = cur :: rest ∧ 0 < n ∧
    n ≤ cur.length ∧ t = { s with
      todo := if n = cur.length then rest else cur.drop n :: rest, pipe := s.pipe ++ cur.take n } := by
  unfold write at h
  split at h
  · simp at h
  · rename_i cur rest hs
    split at h
    · rename_i hn
      exact ⟨cur, rest, hs, hn.1, hn.2, (Option.some.inj h).symm⟩
    · simp at h

/-- A write moves cells on, and adds none. -/
theorem flatten_write {n : Nat} {cur : List β} {rest : List (List β)} :
    cur.take n ++ (if n = cur.length then rest else cur.drop n :: rest).flatten = (cur :: rest).flatten := by
  split
  · rename_i h
    rw [h, List.take_length, List.flatten_cons]
  · rw [List.flatten_cons, List.flatten_cons, ← List.append_assoc, List.take_append_drop]

theorem Inv.write {n : Nat} (hi : Inv F sent s) (h : s.write n = some t) : Inv F sent t := by
  obtain ⟨cur, rest, hs, hn, hle, rfl⟩ := write_some h
  obtain ⟨next, he, hc⟩ := hi.cells
  refine ⟨⟨next, he, ?_⟩, hi.ok, fun c hmem => ?_⟩
  · rw [List.append_assoc, flatten_write, ← hs]
    exact hc
  · have hall := hi.todo
    rw [hs] at hall
    dsimp only at hmem
    split at hmem
    · exact hall c (List.mem_cons_of_mem _ hmem)
    · rcases List.mem_cons.mp hmem with rfl | hm
      · rw [Ne, List.drop_eq_nil_iff]
        omega
      · exact hall c (List.mem_cons_of_mem _ hm)

theorem read_some {n : Nat} (h : s.read F n = some t) : 0 < n ∧ n ≤ F.asked s.phase ∧ n ≤ s.pipe.length ∧
    t = { s with
      pipe := s.pipe.drop n
      phase := (F.take s.phase (s.pipe.take n)).1
      frames := s.frames ++ (F.take s.phase (s.pipe.take n)).2.toList } := by
  unfold read at h
  split at h
  · rename_i hn
    exact ⟨hn.1, hn.2.1, hn.2.2, (Option.some.inj h).symm⟩
  · simp at h

theorem Inv.read {n : Nat} (hv : ∀ f ∈ sent, F.Valid f) (hi : Inv F sent s) (h : s.read F n = some t) :
    Inv F sent t := by
  obtain ⟨-, hn, hp, rfl⟩ := read_some h
  obtain ⟨rest, he, hc⟩ := hi.cells
  rw [← List.take_append_drop n s.pipe, List.append_assoc] at hc
  have hvr : ∀ f ∈ rest, F.Valid f := fun f hf => hv f (he ▸ List.mem_append_right _ hf)
  obtain ⟨rest', hr, hc', hok⟩ := Framing.take_spec hi.ok hvr (by rw [List.length_take]; omega) hc
  exact ⟨⟨rest', by rw [he, hr, List.append_assoc], hc'⟩, hok, hi.todo⟩

theorem Inv.step {e : StreamEvent} (hv : ∀ f ∈ sent, F.Valid f) (hi : Inv F sent s)
    (h : s.step F e = some t) : Inv F sent t := by
  cases e with
  | write n => exact hi.write h
  | read n => exact hi.read hv h

theorem Inv.start (hv : ∀ f ∈ sent, F.Valid f) : Inv F sent (start (sent.map Frame.cells)) := by
  refine ⟨⟨sent, rfl, rfl⟩, Framing.ok_start, fun cur hmem => ?_⟩
  obtain ⟨f, hf, rfl⟩ := List.mem_map.mp hmem
  have := (hv f hf).header
  have hpos := F.size_pos
  intro h0
  have hl := congrArg List.length h0
  rw [Frame.cells, List.length_append, List.length_nil] at hl
  omega

/-- When nothing is left, everything has been handed over. -/
theorem Inv.done (hv : ∀ f ∈ sent, F.Valid f) (hi : Inv F sent s) (hd : s.Done) : s.frames = sent := by
  obtain ⟨rest, he, hc⟩ := hi.cells
  rw [hd.1, hd.2, List.flatten_nil, List.append_nil, List.append_nil] at hc
  have hvr : ∀ f ∈ rest, F.Valid f := fun f hf => hv f (he ▸ List.mem_append_right _ hf)
  rw [he, Framing.rest_eq_nil hi.ok hvr hc, List.append_nil]

theorem Inv.can_write (hi : Inv F sent s) (hd : s.todo ≠ []) : (s.write 1).isSome := by
  rcases hs : s.todo with _ | ⟨cur, rest⟩
  · exact absurd hs hd
  · have hc : 0 < cur.length := List.length_pos_iff.mpr (hi.todo cur (hs ▸ List.mem_cons_self))
    rw [Stream.write, hs]
    dsimp only
    rw [if_pos ⟨Nat.one_pos, hc⟩]
    rfl

theorem Inv.can_read (hi : Inv F sent s) (hp : s.pipe ≠ []) : (s.read F 1).isSome := by
  rw [Stream.read, if_pos ⟨Nat.one_pos, hi.ok.asks, List.length_pos_iff.mpr hp⟩]
  rfl

/-- As long as something is left, a step can be taken. -/
theorem Inv.progress (hi : Inv F sent s) (hd : ¬ s.Done) : ∃ e, (s.step F e).isSome := by
  by_cases hs : s.todo = []
  · exact ⟨.read 1, hi.can_read fun hp => hd ⟨hs, hp⟩⟩
  · exact ⟨.write 1, hi.can_write hs⟩

/-- What is left, each cell to be written counted twice. -/
def left (s : Stream β) : Nat := 2 * s.todo.flatten.length + s.pipe.length

theorem left_write {n : Nat} (h : s.write n = some t) : t.left < s.left := by
  obtain ⟨cur, rest, hs, hn, hle, rfl⟩ := write_some h
  have hl := congrArg List.length (@flatten_write _ n cur rest)
  rw [List.length_append, List.length_take, Nat.min_eq_left hle] at hl
  simp only [left, hs, List.length_append, List.length_take]
  omega

theorem left_step {e : StreamEvent} (h : s.step F e = some t) : t.left < s.left := by
  cases e with
  | write n => exact left_write h
  | read n =>
    obtain ⟨hn, -, hp, rfl⟩ := read_some h
    simp only [left, List.length_drop]
    omega

/-- However the stream is split, the frames handed over are those sent, in order;
all of them when nothing is left, which every run that goes on comes to. -/
theorem delivers {es : List StreamEvent} (hv : ∀ f ∈ sent, F.Valid f)
    (h : run (Stream.step F) (start (sent.map Frame.cells)) es = some t) :
    t.frames <+: sent ∧ (t.Done → t.frames = sent) ∧ (¬ t.Done → ∃ e, (t.step F e).isSome) ∧
      es.length ≤ 2 * (framesCells sent).length := by
  have hi : Inv F sent t := run_inv (fun _ _ _ hi hs => Inv.step hv hi hs) (Inv.start hv) h
  refine ⟨?_, hi.done hv, hi.progress, ?_⟩
  · obtain ⟨rest, he, -⟩ := hi.cells
    exact ⟨rest, he.symm⟩
  · have := run_length_le (fun _ _ _ hs => left_step hs) h
    exact le_trans (Nat.le_of_add_right_le this) (Nat.le_of_eq (Nat.add_zero _))

end Stream

end SmartEth
