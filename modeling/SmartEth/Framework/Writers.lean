import Mathlib.Data.List.Nodup
import SmartEth.Framework.Run

/-!
# Writers of one stream

Threads `θ` write messages of cells `β` to one stream, each message a part at a
time, and nothing keeps two threads from writing at the same time. Every cell
on the stream is kept with the number of its message. The stream consists of
whole messages, whenever no message is being written, exactly when no thread
has written while another was part of the way through a message
(`Writers.Inv.whole`, `Writers.Mixed.not_whole`: the two halves, for a system
whose steps are those of the writers).
-/

namespace SmartEth

variable {θ β : Type}

/-- A message that is being written: its number, all of it, and what is left. -/
structure Job (β : Type) where
  num : Nat
  whole : List β
  rest : List β

structure Writers (θ β : Type) where
  sending : θ → Option (Job β)
  stream : List (Nat × β)
  /-- The messages, by number. -/
  begun : List (List β)

namespace Writers

def setJob [DecidableEq θ] (s : Writers θ β) (x : θ) (job : Option (Job β)) : Writers θ β :=
  { s with sending := fun y => if y = x then job else s.sending y }

/-- A thread starts to write a message. -/
def start [DecidableEq θ] (s : Writers θ β) (x : θ) (m : List β) : Option (Writers θ β) :=
  match s.sending x with
  | none =>
    if m = [] then none
    else some { s.setJob x (some ⟨s.begun.length, m, m⟩) with begun := s.begun ++ [m] }
  | some _ => none

/-- A write of a thread takes `n` cells of its message. -/
def write [DecidableEq θ] (s : Writers θ β) (x : θ) (n : Nat) : Option (Writers θ β) :=
  match s.sending x with
  | none => none
  | some job =>
    if 0 < n ∧ n ≤ job.rest.length then
      some { s.setJob x (if n = job.rest.length then none else some { job with rest := job.rest.drop n }) with
        stream := s.stream ++ (job.rest.take n).map (job.num, ·) }
    else none

/-- No message is being written. -/
def Quiet (s : Writers θ β) : Prop := ∀ x, s.sending x = none

/-- The cells of the messages with these numbers, one message after another. -/
def messages (s : Writers θ β) (nums : List Nat) : List (Nat × β) :=
  nums.flatMap fun i => (s.begun.getD i []).map (i, ·)

/-- The stream is the messages, each once, one after another. -/
def Whole (s : Writers θ β) : Prop :=
  ∃ nums : List Nat, nums.Perm (List.range s.begun.length) ∧ s.stream = s.messages nums

/-- No thread other than `x` is part of the way through a message. -/
def AloneAt (s : Writers θ β) (x : θ) : Prop :=
  ∀ y, y ≠ x → ∀ job, s.sending y = some job → job.rest = job.whole

/-- Whole messages, and then the written part of the one message that is begun on
the stream. -/
structure Inv (s : Writers θ β) : Prop where
  job : ∀ x job, s.sending x = some job → s.begun[job.num]? = some job.whole ∧ job.rest ≠ []
  one : ∀ x y jx jy, s.sending x = some jx → s.sending y = some jy → jx.num = jy.num → x = y
  stream : ∃ nums : List Nat, nums.Nodup ∧
    (∀ i, i < s.begun.length ↔ i ∈ nums ∨ ∃ x job, s.sending x = some job ∧ job.num = i) ∧
    (∀ x job, s.sending x = some job → job.num ∉ nums) ∧
    ((s.stream = s.messages nums ∧ ∀ x job, s.sending x = some job → job.rest = job.whole) ∨
      ∃ x job done, s.sending x = some job ∧ done ≠ [] ∧ job.whole = done ++ job.rest ∧
        s.stream = s.messages nums ++ done.map (job.num, ·) ∧ s.AloneAt x)

section

variable {s t : Writers θ β} {x y : θ}

theorem messages_append (nums nums' : List Nat) : s.messages (nums ++ nums') = s.messages nums ++ s.messages nums' :=
  List.flatMap_append

/-- New messages do not change those already begun. -/
theorem messages_begun {nums : List Nat} {m : List β} (hn : ∀ i ∈ nums, i < s.begun.length) :
    { s with begun := s.begun ++ [m] }.messages nums = s.messages nums := by
  refine List.flatMap_congr fun i hi => ?_
  simp only [List.getD_eq_getElem?_getD, List.getElem?_append_left (hn i hi)]

/-- A message that is whole on the stream. -/
theorem messages_singleton {i : Nat} {m : List β} (h : s.begun[i]? = some m) : s.messages [i] = m.map (i, ·) := by
  rw [messages, List.flatMap_singleton, List.getD_eq_getElem?_getD, h, Option.getD_some]

/-- The thread whose turn it is has written what comes after the whole messages. -/
theorem Inv.turn {job : Job β} (hi : Inv s) (hx : s.sending x = some job) (hok : s.AloneAt x) :
    ∃ nums done, nums.Nodup ∧
      (∀ i, i < s.begun.length ↔ i ∈ nums ∨ ∃ x job, s.sending x = some job ∧ job.num = i) ∧
      (∀ x job, s.sending x = some job → job.num ∉ nums) ∧ job.whole = done ++ job.rest ∧
      s.stream = s.messages nums ++ done.map (job.num, ·) := by
  obtain ⟨nums, hnd, hall, hfresh, ⟨hs, hu⟩ | ⟨y, jy, done, hy, hd, hw, hs, ha⟩⟩ := hi.stream
  · exact ⟨nums, [], hnd, hall, hfresh, (hu x job hx).symm, by rw [hs, List.map_nil, List.append_nil]⟩
  · by_cases hxy : y = x
    · subst hxy
      obtain rfl := Option.some.inj (hx.symm.trans hy)
      exact ⟨nums, done, hnd, hall, hfresh, hw, hs⟩
    · rw [hok y hxy jy hy] at hw
      exact absurd (List.self_eq_append_left.mp hw) hd

/-- When no message is being written, the stream is whole messages. -/
theorem Inv.whole (hi : Inv s) (hq : s.Quiet) : s.Whole := by
  have hnone : ∀ x job, s.sending x ≠ some job := fun x job h => by
    rw [hq x] at h
    cases h
  obtain ⟨nums, hnd, hall, -, ⟨hs, -⟩ | ⟨x, job, -, hx, -⟩⟩ := hi.stream
  · refine ⟨nums, (List.perm_ext_iff_of_nodup hnd List.nodup_range).mpr fun i => ?_, hs⟩
    rw [List.mem_range, hall]
    refine ⟨.inl, fun h => h.resolve_right ?_⟩
    rintro ⟨x, job, hx, -⟩
    exact hnone x job hx
  · exact absurd hx (hnone x job)

end

/-! ## Steps -/

section

variable [DecidableEq θ] {s t : Writers θ β} {x y : θ}

theorem sending_setJob (job : Option (Job β)) :
    (s.setJob x job).sending y = if y = x then job else s.sending y := rfl

/-- The jobs once that of one thread has changed. -/
theorem sending_setJob_some {job : Option (Job β)} {jy : Job β} (hy : (s.setJob x job).sending y = some jy) :
    (y = x ∧ job = some jy) ∨ (y ≠ x ∧ s.sending y = some jy) := by
  rw [sending_setJob] at hy
  split at hy <;> rename_i hyx
  · exact .inl ⟨hyx, hy⟩
  · exact .inr ⟨hyx, hy⟩

theorem start_some {m : List β} (h : s.start x m = some t) : s.sending x = none ∧ m ≠ [] ∧
    t = { s.setJob x (some ⟨s.begun.length, m, m⟩) with begun := s.begun ++ [m] } := by
  unfold start at h
  split at h
  · rename_i hx
    split at h
    · simp at h
    · rename_i hm
      exact ⟨hx, hm, (Option.some.inj h).symm⟩
  · simp at h

theorem write_some {n : Nat} (h : s.write x n = some t) : ∃ job, s.sending x = some job ∧ 0 < n ∧
    n ≤ job.rest.length ∧
    t = { s.setJob x (if n = job.rest.length then none else some { job with rest := job.rest.drop n }) with
      stream := s.stream ++ (job.rest.take n).map (job.num, ·) } := by
  unfold write at h
  split at h
  · simp at h
  · rename_i job hx
    split at h
    · rename_i hn
      exact ⟨job, hx, hn.1, hn.2, (Option.some.inj h).symm⟩
    · simp at h

/-- The jobs once a thread has started a message. -/
theorem sending_start {m : List β} (h : s.start x m = some t) {y : θ} {job : Job β} (hy : t.sending y = some job) :
    (y = x ∧ job = ⟨s.begun.length, m, m⟩) ∨ (y ≠ x ∧ s.sending y = some job) := by
  obtain ⟨-, -, rfl⟩ := start_some h
  rcases sending_setJob_some (s := s) hy with ⟨hyx, hj⟩ | hy'
  · exact .inl ⟨hyx, (Option.some.inj hj).symm⟩
  · exact .inr hy'

theorem Inv.start {m : List β} (hi : Inv s) (h : s.start x m = some t) : Inv t := by
  have hsend := @sending_start _ _ _ _ _ _ _ h
  obtain ⟨hx, hm, rfl⟩ := start_some h
  have hlt : ∀ y job, s.sending y = some job → job.num < s.begun.length := fun y job hy =>
    (List.getElem?_eq_some_iff.mp (hi.job y job hy).1).1
  refine ⟨fun y job hy => ?_, fun y z jy jz hy hz he => ?_, ?_⟩
  · rcases hsend hy with ⟨rfl, rfl⟩ | ⟨-, hy⟩
    · exact ⟨List.getElem?_concat_length, hm⟩
    · refine ⟨?_, (hi.job y job hy).2⟩
      show (s.begun ++ [m])[job.num]? = _
      rw [List.getElem?_append_left (hlt y job hy)]
      exact (hi.job y job hy).1
  · rcases hsend hy with ⟨rfl, rfl⟩ | ⟨-, hy'⟩ <;> rcases hsend hz with ⟨rfl, rfl⟩ | ⟨-, hz'⟩
    · rfl
    · have := hlt z jz hz'
      dsimp only at he
      omega
    · have := hlt y jy hy'
      dsimp only at he
      omega
    · exact hi.one y z jy jz hy' hz' he
  · obtain ⟨nums, hnd, hall, hfresh, hcur⟩ := hi.stream
    have hnlt : ∀ i ∈ nums, i < s.begun.length := fun i hmem => (hall i).mpr (.inl hmem)
    have hold : ∀ y, y ≠ x → (s.setJob x (some ⟨s.begun.length, m, m⟩)).sending y = s.sending y :=
      fun y hyx => if_neg hyx
    have hne : ∀ y job, s.sending y = some job → y ≠ x := fun y job hy hyx => by
      rw [hyx, hx] at hy
      cases hy
    refine ⟨nums, hnd, fun i => ?_, fun y job hy => ?_, ?_⟩
    · rw [List.length_append, List.length_singleton, Nat.lt_succ_iff_lt_or_eq, hall, or_assoc]
      refine or_congr_right ⟨?_, ?_⟩
      · rintro (⟨y, job, hy, rfl⟩ | rfl)
        · exact ⟨y, job, (hold y (hne y job hy)).trans hy, rfl⟩
        · exact ⟨x, _, if_pos rfl, rfl⟩
      · rintro ⟨y, job, hy, rfl⟩
        rcases hsend hy with ⟨rfl, rfl⟩ | ⟨-, hy'⟩
        · exact .inr rfl
        · exact .inl ⟨y, job, hy', rfl⟩
    · rcases hsend hy with ⟨rfl, rfl⟩ | ⟨-, hy'⟩
      · exact fun hmem => absurd (hnlt _ hmem) (Nat.lt_irrefl _)
      · exact hfresh y job hy'
    · have hmsg := messages_begun (s := s.setJob x (some ⟨s.begun.length, m, m⟩)) (m := m) hnlt
      rcases hcur with ⟨hs, hu⟩ | ⟨y, job, done, hy, hd, hw, hs, ha⟩
      · refine .inl ⟨hs.trans hmsg.symm, fun y job hy => ?_⟩
        rcases hsend hy with ⟨rfl, rfl⟩ | ⟨-, hy'⟩
        · rfl
        · exact hu y job hy'
      · refine .inr ⟨y, job, done, (hold y (hne y job hy)).trans hy, hd, hw, ?_, fun z hz jz hjz => ?_⟩
        · exact hs.trans (congrArg (· ++ _) hmsg.symm)
        · rcases hsend hjz with ⟨rfl, rfl⟩ | ⟨-, hjz'⟩
          · rfl
          · exact ha z hz jz hjz'

/-- A write that takes the rest of a message. -/
theorem Inv.write_last {job : Job β} (hi : Inv s) (hok : s.AloneAt x) (hx : s.sending x = some job) :
    Inv { s.setJob x none with stream := s.stream ++ job.rest.map (job.num, ·) } := by
  obtain ⟨nums, done, hnd, hall, hfresh, hw, hs⟩ := hi.turn hx hok
  have hsend : ∀ y jy, (s.setJob x none).sending y = some jy → y ≠ x ∧ s.sending y = some jy := by
    intro y jy hy
    rcases sending_setJob_some hy with ⟨-, hj⟩ | hy'
    · simp at hj
    · exact hy'
  have hm : s.messages [job.num] = (done ++ job.rest).map (job.num, ·) :=
    messages_singleton (hw ▸ (hi.job x job hx).1)
  refine ⟨fun y jy hy => hi.job y jy (hsend y jy hy).2, fun y z jy jz hy hz he => ?_, ?_⟩
  · exact hi.one y z jy jz (hsend y jy hy).2 (hsend z jz hz).2 he
  · refine ⟨nums ++ [job.num], ?_, fun i => ?_, fun y jy hy => ?_, .inl ⟨?_, fun y jy hy => ?_⟩⟩
    · rw [← List.concat_eq_append]
      exact hnd.concat (hfresh x job hx)
    · show i < s.begun.length ↔ _
      rw [hall, List.mem_append, List.mem_singleton, or_assoc]
      refine or_congr_right ⟨?_, ?_⟩
      · rintro ⟨y, jy, hy, rfl⟩
        by_cases hyx : y = x
        · subst hyx
          obtain rfl := Option.some.inj (hx.symm.trans hy)
          exact .inl rfl
        · exact .inr ⟨y, jy, (if_neg hyx).trans hy, rfl⟩
      · rintro (rfl | ⟨y, jy, hy, rfl⟩)
        · exact ⟨x, job, hx, rfl⟩
        · exact ⟨y, jy, (hsend y jy hy).2, rfl⟩
    · obtain ⟨hyx, hy'⟩ := hsend y jy hy
      rw [List.mem_append, List.mem_singleton, not_or]
      exact ⟨hfresh y jy hy', fun he => hyx (hi.one y x jy job hy' hx he)⟩
    · show s.stream ++ _ = s.messages (nums ++ [job.num])
      rw [messages_append, hm, List.map_append, hs, List.append_assoc]
    · obtain ⟨hyx, hy'⟩ := hsend y jy hy
      exact hok y hyx jy hy'

/-- A write that leaves some of a message. -/
theorem Inv.write_part {job : Job β} {n : Nat} (hi : Inv s) (hok : s.AloneAt x) (hx : s.sending x = some job)
    (hn : 0 < n) (hlt : n < job.rest.length) :
    Inv { s.setJob x (some { job with rest := job.rest.drop n }) with
      stream := s.stream ++ (job.rest.take n).map (job.num, ·) } := by
  obtain ⟨nums, done, hnd, hall, hfresh, hw, hs⟩ := hi.turn hx hok
  have hsend : ∀ y jy, (s.setJob x (some { job with rest := job.rest.drop n })).sending y = some jy →
      (y = x ∧ jy = { job with rest := job.rest.drop n }) ∨ (y ≠ x ∧ s.sending y = some jy) := by
    intro y jy hy
    rcases sending_setJob_some hy with ⟨hyx, hj⟩ | hy'
    · exact .inl ⟨hyx, (Option.some.inj hj).symm⟩
    · exact .inr hy'
  -- the numbers of the jobs are as before
  have hnum : ∀ y jy, (s.setJob x (some { job with rest := job.rest.drop n })).sending y = some jy →
      ∃ jy', s.sending y = some jy' ∧ jy'.num = jy.num := by
    intro y jy hy
    rcases hsend y jy hy with ⟨rfl, rfl⟩ | ⟨-, hy'⟩
    · exact ⟨job, hx, rfl⟩
    · exact ⟨jy, hy', rfl⟩
  refine ⟨fun y jy hy => ?_, fun y z jy jz hy hz he => ?_, nums, hnd, fun i => ?_, fun y jy hy => ?_,
    .inr ⟨x, _, done ++ job.rest.take n, if_pos rfl, ?_, ?_, ?_, fun y hyx jy hy => ?_⟩⟩
  · rcases hsend y jy hy with ⟨rfl, rfl⟩ | ⟨-, hy'⟩
    · refine ⟨(hi.job _ job hx).1, ?_⟩
      rw [Ne, List.drop_eq_nil_iff]
      omega
    · exact hi.job y jy hy'
  · obtain ⟨jy', hy', hey⟩ := hnum y jy hy
    obtain ⟨jz', hz', hez⟩ := hnum z jz hz
    exact hi.one y z jy' jz' hy' hz' (hey.trans (he.trans hez.symm))
  · show i < s.begun.length ↔ _
    rw [hall]
    refine or_congr_right ⟨?_, ?_⟩
    · rintro ⟨y, jy, hy, rfl⟩
      by_cases hyx : y = x
      · subst hyx
        obtain rfl := Option.some.inj (hx.symm.trans hy)
        exact ⟨y, _, if_pos rfl, rfl⟩
      · exact ⟨y, jy, (if_neg hyx).trans hy, rfl⟩
    · rintro ⟨y, jy, hy, rfl⟩
      obtain ⟨jy', hy', he⟩ := hnum y jy hy
      exact ⟨y, jy', hy', he⟩
  · obtain ⟨jy', hy', he⟩ := hnum y jy hy
    exact he ▸ hfresh y jy' hy'
  · intro h0
    have := congrArg List.length h0
    rw [List.length_append, List.length_take, List.length_nil] at this
    omega
  · rw [List.append_assoc, List.take_append_drop]
    exact hw
  · show s.stream ++ _ = _
    rw [hs, List.map_append, List.append_assoc]
    rfl
  · rcases hsend y jy hy with ⟨rfl, -⟩ | ⟨-, hy'⟩
    · exact absurd rfl hyx
    · exact hok y hyx jy hy'

theorem Inv.write {n : Nat} (hi : Inv s) (hok : s.AloneAt x) (h : s.write x n = some t) : Inv t := by
  obtain ⟨job, hx, hn, hle, rfl⟩ := write_some h
  by_cases hlast : n = job.rest.length
  · rw [if_pos hlast, hlast, List.take_length]
    exact hi.write_last hok hx
  · rw [if_neg hlast]
    exact hi.write_part hok hx hn (by omega)

end

/-! ## Messages inside one another -/

section

variable {s t : Writers θ β} {x : θ}

/-- The numbers of the messages on the stream, cell by cell. -/
def nums (s : Writers θ β) : List Nat := s.stream.map Prod.fst

/-- A cell of another message between two of one message. -/
def Broken (s : Writers θ β) : Prop :=
  ∃ a b c d i j, i ≠ j ∧ s.nums = a ++ i :: (b ++ j :: (c ++ i :: d))

/-- The same, or it will be so when the message that is being written goes on. -/
def Mixed (s : Writers θ β) : Prop :=
  s.Broken ∨ ∃ a b c i j, i ≠ j ∧ s.nums = a ++ i :: (b ++ j :: c) ∧ ∃ x job, s.sending x = some job ∧ job.num = i

theorem Broken.append {l : List Nat} (h : s.Broken) (ht : t.nums = s.nums ++ l) : t.Broken := by
  obtain ⟨a, b, c, d, i, j, hij, hn⟩ := h
  refine ⟨a, b, c, d ++ l, i, j, hij, ?_⟩
  rw [ht, hn]
  simp only [List.append_assoc, List.cons_append]

/-- Whole messages, in any order, keep the cells of a message together. -/
theorem nums_messages_ordered {nums : List Nat} (hn : nums.Nodup) :
    ((s.messages nums).map Prod.fst).Pairwise fun i j => nums.idxOf i ≤ nums.idxOf j := by
  have htag : ∀ i : Nat, ((s.begun.getD i []).map (i, ·)).map Prod.fst =
      List.replicate (s.begun.getD i []).length i := fun i => by
    rw [List.map_map]
    exact List.map_const'
  rw [messages, List.map_flatMap, List.pairwise_flatMap]
  refine ⟨fun i _ => ?_, List.pairwise_iff_getElem.mpr fun i j hi hj hij => ?_⟩
  · rw [htag]
    exact List.pairwise_replicate.mpr (.inr (le_refl _))
  · intro x hx y hy
    rw [htag] at hx hy
    obtain rfl := List.eq_of_mem_replicate hx
    obtain rfl := List.eq_of_mem_replicate hy
    rw [hn.idxOf_getElem i hi, hn.idxOf_getElem j hj]
    exact hij.le

theorem Broken.not_whole (h : s.Broken) : ¬ s.Whole := by
  rintro ⟨nums, hp, hs⟩
  have hn : nums.Nodup := hp.nodup_iff.mpr List.nodup_range
  have ho := nums_messages_ordered (s := s) hn
  obtain ⟨a, b, c, d, i, j, hij, he⟩ := h
  rw [← hs] at ho
  have hmem : i ∈ nums := by
    have : i ∈ s.nums := he ▸ List.mem_append_right _ List.mem_cons_self
    rw [Writers.nums, hs, messages, List.map_flatMap] at this
    obtain ⟨k, hk, hik⟩ := List.mem_flatMap.mp this
    rw [List.map_map] at hik
    obtain ⟨-, -, rfl⟩ := List.mem_map.mp hik
    exact hk
  change s.nums.Pairwise _ at ho
  rw [he] at ho
  -- the number between the two would have the place of both
  have h₁ := (List.pairwise_append.mp ho).2.1
  have h₂ := (List.pairwise_append.mp (List.pairwise_cons.mp h₁).2).2.1
  have hij' := (List.pairwise_cons.mp h₁).1 j (List.mem_append_right _ List.mem_cons_self)
  have hji' := (List.pairwise_cons.mp h₂).1 i (List.mem_append_right _ List.mem_cons_self)
  exact hij ((List.idxOf_inj hmem).mp (le_antisymm hij' hji'))

section

variable [DecidableEq θ]

theorem nums_write {n : Nat} {job : Job β} (hx : s.sending x = some job) (h : s.write x n = some t) :
    0 < n ∧ t.nums = s.nums ++ List.replicate n job.num := by
  obtain ⟨job', hx', hn, hle, rfl⟩ := write_some h
  obtain rfl := Option.some.inj (hx.symm.trans hx')
  refine ⟨hn, ?_⟩
  rw [Writers.nums, Writers.nums, List.map_append, List.map_map]
  refine congrArg _ (List.map_const'.trans ?_)
  rw [List.length_take, Nat.min_eq_left hle]

theorem Mixed.start {m : List β} (hm : s.Mixed) (h : s.start x m = some t) : t.Mixed := by
  obtain ⟨hx, -, rfl⟩ := start_some h
  rcases hm with hb | ⟨a, b, c, i, j, hij, hn, y, job, hy, hi⟩
  · exact .inl (hb.append (List.append_nil _).symm)
  · have hyx : y ≠ x := fun he => by
      rw [he, hx] at hy
      cases hy
    exact .inr ⟨a, b, c, i, j, hij, hn, y, job, (if_neg hyx).trans hy, hi⟩

theorem Mixed.write {n : Nat} (hm : s.Mixed) (h : s.write x n = some t) : t.Mixed := by
  obtain ⟨jx, hx, hn0, -, ht⟩ := write_some h
  obtain ⟨-, hnt⟩ := nums_write hx h
  rcases hm with hb | ⟨a, b, c, i, j, hij, hn, y, job, hy, hi⟩
  · exact .inl (hb.append hnt)
  by_cases hyx : y = x
  · -- the message goes on
    subst hyx
    obtain rfl := Option.some.inj (hx.symm.trans hy)
    obtain ⟨k, rfl⟩ := Nat.exists_eq_add_of_lt hn0
    refine .inl ⟨a, b, c, List.replicate k i, i, j, hij, ?_⟩
    rw [hnt, hn, hi, Nat.zero_add, List.replicate_succ]
    simp only [List.append_assoc, List.cons_append]
  · refine .inr ⟨a, b, c ++ List.replicate n jx.num, i, j, hij, ?_, y, job, ?_, hi⟩
    · rw [hnt, hn]
      simp only [List.append_assoc, List.cons_append]
    · rw [ht]
      exact (if_neg hyx).trans hy

/-- A write while another thread is part of the way through a message. -/
theorem Inv.mixed {n : Nat} (hi : Inv s) (hok : ¬ s.AloneAt x) (h : s.write x n = some t) : t.Mixed := by
  obtain ⟨jx, hx, hn0, -, ht⟩ := write_some h
  obtain ⟨-, hnt⟩ := nums_write hx h
  simp only [AloneAt, not_forall] at hok
  obtain ⟨y, hyx, job, hy, hne⟩ := hok
  obtain ⟨nums, -, -, -, ⟨-, hu⟩ | ⟨z, jz, done, hz, hd, -, hs, ha⟩⟩ := hi.stream
  · exact absurd (hu y job hy) hne
  have hyz : y = z := by
    by_contra hyz
    exact hne (ha y hyz job hy)
  subst hyz
  obtain rfl := Option.some.inj (hy.symm.trans hz)
  obtain ⟨k, rfl⟩ := Nat.exists_eq_add_of_lt hn0
  obtain ⟨v, done, rfl⟩ := List.exists_cons_of_ne_nil hd
  refine .inr ⟨(s.messages nums).map Prod.fst, (done.map (job.num, ·)).map Prod.fst, List.replicate k jx.num,
    job.num, jx.num, fun he => hyx (hi.one y x job jx hy hx he), ?_, y, job, ?_, rfl⟩
  · rw [hnt, Writers.nums, hs, Nat.zero_add, List.replicate_succ, List.map_append, List.map_cons, List.map_cons]
    simp only [List.append_assoc, List.cons_append]
  · rw [ht]
    exact (if_neg hyx).trans hy

end

/-- When no message is being written, a stream that was mixed is not whole. -/
theorem Mixed.not_whole (h : s.Mixed) (hq : s.Quiet) : ¬ s.Whole := by
  rcases h with h | ⟨-, -, -, -, -, -, -, x, job, hx, -⟩
  · exact h.not_whole
  · rw [hq x] at hx
    cases hx

end

end Writers

end SmartEth
