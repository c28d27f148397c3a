import SmartEth.System.Console

/-!
# What comes out of the console

A string is printed as one character after another, each after a wait (`printing_eq`). The tasks
and the UART are thereby the threads and the queue of `Producers`, step for step (`step_look`,
`step_push`, `step_drain`, `step_shown`). So no character is lost in any run if and only if at
most 16 tasks print anything (`console_lossless_iff`), and what a task prints then comes out
complete and in order (`console_in_order`).
-/

namespace SmartEth.Console

open Tasks

/-! ## A string as its characters -/

/-- Sends the characters `cs`. -/
def emit : List Byte → UartM Unit
  | [] => pure ()
  | c :: cs => waitReg UART_LSR UART_LSR_THRE >>= fun _ => writeReg UART_THR c >>= fun _ => emit cs

theorem emit_append (cs ds : List Byte) : emit (cs ++ ds) = emit cs >>= fun _ => emit ds := by
  induction cs with
  | nil => rfl
  | cons c cs ih =>
    show waitReg _ _ >>= (fun _ => writeReg _ _ >>= fun _ => emit (cs ++ ds)) = _
    rw [ih]
    rfl

theorem uartPutc_eq (c : Byte) : uartPutc c = emit (wire c) := by
  unfold uartPutc wire
  by_cases h : c = ch '\n'
  · subst h
    rw [if_pos rfl, if_pos rfl]
    unfold uartPutc
    rw [if_neg (by decide)]
    rfl
  · rw [if_neg h, if_neg h]
    rfl

theorem uartPuts_eq (s : List Byte) : uartPuts s = emit (wireText s) := by
  induction s with
  | nil => rfl
  | cons c s ih =>
    by_cases h : c = 0
    · subst h
      rfl
    · unfold uartPuts wireText
      rw [if_pos h, List.takeWhile_cons_of_pos (by simpa using h), List.flatMap_cons, emit_append, uartPutc_eq, ih]
      rfl

theorem printing_eq (texts : List (List Byte)) : printing texts = emit (wireOf texts) := by
  induction texts with
  | nil => rfl
  | cons s texts ih =>
    unfold printing wireOf
    rw [List.flatMap_cons, emit_append, uartPuts_eq, ih]
    rfl

/-! ## Tasks as threads -/

/-- A task that has seen the transmitter empty is about to write. -/
def progOf : Producer Byte → UartM Unit
  | ⟨cs, false⟩ => emit cs
  | ⟨[], true⟩ => pure ()
  | ⟨c :: cs, true⟩ => writeReg UART_THR c >>= fun _ => emit cs

/-- The firmware whose tasks are the threads of `p`, its UART set up as `u`. -/
def shown (u : Ns16550) (p : Producers Byte) : Tasks :=
  ⟨{ u with tx := p.queue, sent := p.out, lost := p.lost }, p.threads.map progOf⟩

theorem todo_of_progOf {a : Producer Byte} (h : progOf a = pure ()) : a.todo = [] := by
  obtain ⟨_ | ⟨c, cs⟩, looked⟩ := a
  · rfl
  · cases looked <;> cases h

variable {u : Ns16550} {p q : Producers Byte} {i : Nat}

theorem shown_left {a : Producer Byte} (hi : p.threads[i]? = some a) : (shown u p).left[i]? = some (progOf a) := by
  simp [shown, hi]

theorem step_task {s : Tasks} {e : UartOp} {k : e.Result → UartM Unit} (h : s.left[i]? = some (.op e k)) :
    s.step (.task i) = (s.uart.act i e).map fun r => ⟨r.2, s.left.set i (k r.1)⟩ := by
  simp only [step, h]

theorem step_look {c : Byte} {cs : List Byte} (hi : p.threads[i]? = some ⟨c :: cs, false⟩) :
    (shown u p).step (.task i) = (p.step u.capacity (.look i)).map (shown u) := by
  have hstep : p.step u.capacity (.look i) =
      if p.queue = [] then some { p with threads := p.threads.set i ⟨c :: cs, true⟩ } else none := by
    simp only [Producers.step, hi]
  have hact : (shown u p).uart.act i (.wait UART_LSR UART_LSR_THRE) =
      if p.queue = [] then some ((), (shown u p).uart) else none := by
    by_cases hq : p.queue = []
    · simp [Ns16550.act, Ns16550.read, shown, hq, UART_LSR, UART_LSR_THRE]
    · simp [Ns16550.act, Ns16550.read, shown, hq, UART_LSR]
  rw [hstep, step_task (shown_left hi), hact]
  split
  · simp only [Option.map_some, shown, List.map_set]
    rfl
  · rfl

theorem step_push {c : Byte} {cs : List Byte} (hdlab : ¬ u.Dlab) (hi : p.threads[i]? = some ⟨c :: cs, true⟩) :
    (shown u p).step (.task i) = (p.step u.capacity (.push i)).map (shown u) := by
  have hstep : p.step u.capacity (.push i) =
      some ({ p with threads := p.threads.set i ⟨cs, false⟩ }.put u.capacity (i, c)) := by
    simp only [Producers.step, hi]
  have hact : (shown u p).uart.act i (.write UART_THR c) = some ((), (shown u p).uart.transmit i c) := by
    have hdlab' : ¬ (shown u p).uart.Dlab := hdlab
    simp [Ns16550.act, Ns16550.write, UART_THR, hdlab']
  rw [hstep, step_task (shown_left hi), hact]
  simp only [Option.map_some, Option.some.injEq]
  unfold Ns16550.transmit Producers.put
  show Tasks.mk (if p.queue.length < u.capacity then _ else _) _ = _
  split <;> simp only [shown, List.map_set] <;> rfl

theorem step_drain : (shown u p).step .send = (p.step u.capacity .drain).map (shown u) := by
  obtain ⟨threads, queue, out, lost⟩ := p
  cases queue <;> rfl

/-- A step of the threads, as one of the tasks. -/
def eventOf : ProducerEvent → TasksEvent
  | .look i => .task i
  | .push i => .task i
  | .drain => .send

theorem step_shown (hdlab : ¬ u.Dlab) {e : ProducerEvent} (h : p.step u.capacity e = some q) :
    (shown u p).step (eventOf e) = some (shown u q) := by
  rcases Producers.step_cases h with ⟨i, c, cs, rfl, hi, -, -⟩ | ⟨i, c, cs, rfl, hi, -⟩ | ⟨x, queue, rfl, -, -⟩
  · show (shown u p).step (.task i) = _
    rw [step_look hi, h]
    rfl
  · show (shown u p).step (.task i) = _
    rw [step_push hdlab hi, h]
    rfl
  · show (shown u p).step .send = _
    rw [step_drain, h]
    rfl

theorem step_of_shown (hdlab : ¬ u.Dlab) {e : TasksEvent} {t : Tasks} (h : (shown u p).step e = some t) :
    ∃ f q, p.step u.capacity f = some q ∧ t = shown u q := by
  cases e with
  | send =>
    rw [step_drain] at h
    obtain ⟨q, hq, rfl⟩ := Option.map_eq_some_iff.mp h
    exact ⟨_, q, hq, rfl⟩
  | task i =>
    rcases hi : p.threads[i]? with _ | ⟨_ | ⟨c, cs⟩, looked⟩
    · have hnone : (shown u p).left[i]? = none := by simpa [shown] using hi
      simp only [step, hnone] at h
      cases h
    · have hdone := shown_left (u := u) hi
      have hret : progOf ⟨[], looked⟩ = pure () := by cases looked <;> rfl
      rw [hret] at hdone
      simp only [step, hdone, Prog.pure_eq] at h
      cases h
    · cases looked
      · rw [step_look hi] at h
        obtain ⟨q, hq, rfl⟩ := Option.map_eq_some_iff.mp h
        exact ⟨_, q, hq, rfl⟩
      · rw [step_push hdlab hi] at h
        obtain ⟨q, hq, rfl⟩ := Option.map_eq_some_iff.mp h
        exact ⟨_, q, hq, rfl⟩

theorem run_shown (hdlab : ¬ u.Dlab) {es : List ProducerEvent} (h : run (Producers.step u.capacity) p es = some q) :
    run step (shown u p) (es.map eventOf) = some (shown u q) := by
  induction es generalizing p with
  | nil =>
    cases h
    rfl
  | cons e es ih =>
    obtain ⟨r, hr, hes⟩ := run_cons_some.mp h
    exact run_cons_some.mpr ⟨_, step_shown hdlab hr, ih hes⟩

theorem run_of_shown (hdlab : ¬ u.Dlab) {es : List TasksEvent} {t : Tasks} (h : run step (shown u p) es = some t) :
    ∃ fs q, run (Producers.step u.capacity) p fs = some q ∧ t = shown u q := by
  induction es generalizing p with
  | nil =>
    cases h
    exact ⟨[], p, rfl, rfl⟩
  | cons e es ih =>
    obtain ⟨s, hs, hes⟩ := run_cons_some.mp h
    obtain ⟨f, r, hr, rfl⟩ := step_of_shown hdlab hs
    obtain ⟨fs, q, hq, rfl⟩ := ih hes
    exact ⟨f :: fs, q, run_cons_some.mpr ⟨r, hr, hq⟩, rfl⟩

/-! ## The UART after `uart_init` -/

theorem dlab_writeFcr (u : Ns16550) (val : Byte) : (u.writeFcr val).Dlab ↔ u.Dlab := by
  unfold Ns16550.writeFcr
  split <;> rfl

theorem capacity_writeFcr (u : Ns16550) (val : Byte) :
    (u.writeFcr val).capacity = if val &&& 1 = 0 then 1 else 16 := by
  unfold Ns16550.writeFcr
  split <;> rfl

/-- Whatever state the UART was in. Where `DLAB` was set, the write that should turn the interrupts
off went to the divisor, and they stay as they were. -/
theorem initialised_eq (u : Ns16550) : u.initialised =
    { u with ier := if u.Dlab then u.ier else 0, lcr := 3, dll := 1, dlm := 0 : Ns16550 }.writeFcr 1 := by
  have hset (v : Ns16550) : { v with lcr := u.lcr ||| 0x80 : Ns16550 }.Dlab := by
    show (u.lcr ||| 0x80) &&& 0x80 ≠ 0
    rw [BitVec.and_or_distrib_right]
    intro h
    have := congrArg (fun b : Byte => b.getLsbD 7) h
    simp at this
  have hwrites : u.initialised = ((((((u.write 0 1 0).write 0 3 (u.lcr ||| 0x80)).write 0 0 1).write 0 1 0).write 0 3
      (u.lcr &&& ~~~0x80)).write 0 3 3).write 0 2 1 := rfl
  have hier : u.write 0 1 0 = { u with ier := if u.Dlab then u.ier else 0, dlm := if u.Dlab then 0 else u.dlm } := by
    show (if u.Dlab then _ else _) = _
    split <;> rfl
  have hdll (v : Ns16550) : ((v.write 0 3 (u.lcr ||| 0x80)).write 0 0 1) = { v with lcr := u.lcr ||| 0x80, dll := 1 } :=
    if_pos (hset v)
  have hdlm (v : Ns16550) : { v with lcr := u.lcr ||| 0x80, dll := 1 : Ns16550 }.write 0 1 0 =
      { v with lcr := u.lcr ||| 0x80, dll := 1, dlm := 0 } := if_pos (hset { v with dll := 1 })
  rw [hwrites, hier, hdll, hdlm]
  rfl

theorem not_dlab_initialised (u : Ns16550) : ¬ u.initialised.Dlab := by
  rw [initialised_eq, dlab_writeFcr]
  show ¬ (3 : Byte) &&& 0x80 ≠ 0
  decide

theorem capacity_initialised (u : Ns16550) : u.initialised.capacity = 16 := by
  rw [initialised_eq, capacity_writeFcr]
  rfl

/-! ## Runs of the firmware -/

/-- The tasks before they have done anything. -/
def threadsOf (u : Ns16550) (texts : List (List (List Byte))) : Producers Byte :=
  ⟨texts.map fun text => ⟨wireOf text, false⟩, u.initialised.tx, u.initialised.sent, u.initialised.lost⟩

theorem start_eq (u : Ns16550) (texts : List (List (List Byte))) :
    Tasks.start u texts = shown u.initialised (threadsOf u texts) := by
  unfold Tasks.start shown threadsOf
  rw [List.map_map]
  refine congrArg (Tasks.mk _) (List.map_congr_left fun text _ => ?_)
  exact printing_eq text

theorem idle_threadsOf (u : Ns16550) (texts : List (List (List Byte))) : (threadsOf u texts).Idle := by
  intro p hp
  obtain ⟨text, -, rfl⟩ := List.mem_map.mp hp
  rfl

theorem active_threadsOf (u : Ns16550) (texts : List (List (List Byte))) :
    (threadsOf u texts).active = texts.countP fun text => wireOf text ≠ [] := by
  unfold Producers.active threadsOf
  rw [List.countP_map]
  rfl

/-- After `uart_init`, no character is lost in any run of the tasks, if and only if at most 16 of
them have anything to print. -/
theorem console_lossless_iff (u : Ns16550) (texts : List (List (List Byte))) :
    (∀ es t, run step (Tasks.start u texts) es = some t → t.uart.lost = u.initialised.lost) ↔
      (texts.countP fun text => wireOf text ≠ []) ≤ 16 := by
  have hd := not_dlab_initialised u
  have h := Producers.lossless_iff u.initialised.capacity (idle_threadsOf u texts)
  rw [capacity_initialised, active_threadsOf] at h
  rw [start_eq, ← h]
  constructor
  · intro hrun es q hq
    exact hrun _ _ (run_shown hd (by rw [capacity_initialised]; exact hq))
  · intro hrun es t ht
    obtain ⟨fs, q, hq, rfl⟩ := run_of_shown hd ht
    rw [capacity_initialised] at hq
    exact hrun fs q hq

/-- With room for a character of each task, none is lost, and what a task has sent so far is a first
part of what it has to print. -/
theorem printed_of_room {u : Ns16550} {texts : List (List (List Byte))}
    (hn : (texts.countP fun text => wireOf text ≠ []) ≤ 16) {es : List TasksEvent} {t : Tasks}
    (ht : run step (Tasks.start u texts) es = some t) : Printed u texts t := by
  have hd := not_dlab_initialised u
  have hactive : (threadsOf u texts).active = texts.countP fun text => wireOf text ≠ [] := active_threadsOf u texts
  have hroom : (threadsOf u texts).active ≤ 16 := hactive.trans_le hn
  rw [start_eq] at ht
  obtain ⟨fs, q, hq, rfl⟩ := run_of_shown hd ht
  rw [capacity_initialised] at hq
  refine ⟨((idle_threadsOf u texts).room.run hroom hq).2, fun i text hi => ?_⟩
  obtain ⟨done, hout, htodo⟩ := Producers.textOf_run (idle_threadsOf u texts) hroom hq i
  have hfirst : (threadsOf u texts).todoOf i = wireOf text := by
    simp [Producers.todoOf, threadsOf, hi]
  refine ⟨done, q.todoOf i, hfirst.symm.trans htodo, hout, fun hdone => ?_⟩
  obtain ⟨a, ha, hprog⟩ : ∃ a, q.threads[i]? = some a ∧ progOf a = pure () := by
    simpa [shown] using hdone
  unfold Producers.todoOf
  rw [ha]
  exact todo_of_progOf hprog

/-- What task `i` has printed so far is a first part of what it has to print, each character once
and in order, and the rest is what it goes on to send. -/
theorem console_in_order (u : Ns16550) (texts : List (List (List Byte)))
    (hn : (texts.countP fun text => wireOf text ≠ []) ≤ 16) (es : List TasksEvent) (t : Tasks)
    (ht : run step (Tasks.start u texts) es = some t) (i : Nat) (text : List (List Byte)) (hi : texts[i]? = some text) :
    ∃ done rest, wireOf text = done ++ rest ∧
      Producers.cellsOf i (t.uart.sent ++ t.uart.tx) =
        Producers.cellsOf i (u.initialised.sent ++ u.initialised.tx) ++ done ∧
      (t.left[i]? = some (pure ()) → rest = []) :=
  (printed_of_room hn ht).inOrder i text hi

/-- Two tasks print; each has waited for the receiver before the other writes. -/
theorem console_in_order_two : ∃ t, run step (Tasks.start ⟨0, 0, 0, 0, 0, [], [], []⟩ [[[ch 'A', ch '\n']], [[ch 'B']]])
      [.task 0, .task 1, .task 1, .task 0, .send] = some t ∧ t.uart.sent ++ t.uart.tx = [(1, ch 'B'), (0, ch 'A')] ∧
    ∃ done rest, wireOf [[ch 'A', ch '\n']] = done ++ rest ∧
      Producers.cellsOf 0 (t.uart.sent ++ t.uart.tx) = [] ++ done ∧ (t.left[0]? = some (pure ()) → rest = []) := by
  have hrun : run (Producers.step 16) (threadsOf ⟨0, 0, 0, 0, 0, [], [], []⟩ [[[ch 'A', ch '\n']], [[ch 'B']]])
      [.look 0, .look 1, .push 1, .push 0, .drain] =
      some ⟨[⟨[ch '\n', ch '\r'], false⟩, ⟨[], false⟩], [(0, ch 'A')], [(1, ch 'B')], []⟩ := rfl
  have ht := run_shown (not_dlab_initialised ⟨0, 0, 0, 0, 0, [], [], []⟩)
    (by rw [capacity_initialised]; exact hrun)
  rw [← start_eq] at ht
  obtain ⟨done, rest, h⟩ := console_in_order ⟨0, 0, 0, 0, 0, [], [], []⟩ [[[ch 'A', ch '\n']], [[ch 'B']]] (by decide)
    _ _ ht 0 _ rfl
  exact ⟨_, ht, rfl, done, rest, h⟩

end SmartEth.Console
