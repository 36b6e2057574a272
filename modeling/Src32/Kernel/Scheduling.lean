import Src32.Kernel.ReadyQueue
import Src32.Lib.Runs

namespace Src32.Kernel.Sched

/-!
# Runs of the scheduler

Every operation of the kernel on its threads, in any order.  As long as no
slot is handed out while its dead thread is still linked, the queues stay
intact and each operation does to the lines of waiting threads what a
first-in first-out scheduler does: it joins threads at the end, removes the
killed ones or serves the first of the most urgent line.
-/

variable {s : Sched} {t : ThreadId}

/-! ## Waking -/

/-- An operation that only lets threads join the lines. -/
structure Joins (s next : Sched) : Prop where
  intact : Intact next
  joined : ∀ p, ∃ arrivals, next.line p = s.line p ++ arrivals

theorem Joins.of_line (intact : Intact s) {next : Sched} (later : Intact next) (same : next.line = s.line) :
    Joins s next := ⟨later, fun p => ⟨[], by rw [same, List.append_nil]⟩⟩

theorem Joins.trans {middle last : Sched} (first : Joins s middle) (second : Joins middle last) :
    Joins s last := by
  refine ⟨second.intact, fun p => ?_⟩
  obtain ⟨some, here⟩ := first.joined p
  obtain ⟨more, there⟩ := second.joined p
  exact ⟨some ++ more, by rw [there, here, List.append_assoc]⟩

theorem intact_noteUrgent (intact : Intact s) (t : ThreadId) : Intact (s.noteUrgent t) := by
  unfold noteUrgent
  split
  · exact intact.congr rfl rfl (fun _ => rfl) fun _ => rfl
  · exact intact

theorem line_noteUrgent (s : Sched) (t : ThreadId) : (s.noteUrgent t).line = s.line := by
  unfold noteUrgent
  split
  · exact line_congr rfl fun _ => Iff.rfl
  · rfl

/-- A thread outside of the queues joins the line of its priority. -/
theorem joins_enqueue (intact : Intact s) (outside : ∀ p, t ∉ s.queue p)
    (low : (s.threads t).priority < priorities) : Joins s ((s.enqueue t false).noteUrgent t) := by
  refine ⟨intact_noteUrgent (intact.enqueue outside low false) t, fun p => ?_⟩
  rw [line_noteUrgent, line_enqueue intact outside]
  unfold entered
  by_cases same : p = (s.threads t).priority
  · subst same
    exact ⟨[t], by rw [Function.update_self]; rfl⟩
  · exact ⟨[], by rw [Function.update_of_ne same, List.append_nil]⟩

theorem joins_wake (intact : Intact s) (blocked : (s.threads t).state = .blocked) (result : Word) :
    Joins s (s.wake t result) := by
  have outside : ∀ p, t ∉ s.queue p :=
    intact.outside (by rw [blocked]; decide) (by rw [blocked]; decide)
  have low := intact.bounded t (Or.inr (Or.inr blocked))
  unfold wake
  have changed : Intact (s.modify t fun thread => { thread with r1 := result, reason := .none, timed := false }) :=
    intact.modify (fun _ => rfl) fun _ => rfl
  refine (Joins.of_line intact changed (line_modify fun _ => rfl)).trans (joins_enqueue changed outside ?_)
  rw [modify_self]
  exact low

/-- A loop over the thread table whose visits only let threads join. -/
theorem joins_eachThread {visit : Sched -> ThreadId -> Sched}
    (each : ∀ s t, Intact s -> Joins s (visit s t)) (intact : Intact s) : Joins s (s.eachThread visit) := by
  unfold eachThread
  generalize List.finRange 16 = slots
  induction slots generalizing s with
  | nil => exact Joins.of_line intact intact rfl
  | cons t rest ih =>
    have first := each s t intact
    exact first.trans (ih first.intact)

theorem joins_pecVisit (answered : ThreadId -> Bool) (s : Sched) (t : ThreadId) (intact : Intact s) :
    Joins s (pecVisit answered s t) := by
  unfold pecVisit
  split
  · next waits =>
      rw [Bool.and_eq_true, Bool.and_eq_true, decide_eq_true_iff] at waits
      exact joins_wake intact waits.1.1 fndOk
  · exact Joins.of_line intact intact rfl

theorem joins_tickVisit (s : Sched) (t : ThreadId) (intact : Intact s) : Joins s (tickVisit s t) := by
  unfold tickVisit
  split
  · next waits =>
      rw [Bool.and_eq_true, Bool.and_eq_true, decide_eq_true_iff] at waits
      exact joins_wake intact waits.1.1 _
  · exact Joins.of_line intact intact rfl

theorem joins_exitVisit (ended : ThreadId) (s : Sched) (t : ThreadId) (intact : Intact s) :
    Joins s (exitVisit ended s t) := by
  unfold exitVisit
  split
  · next waits =>
      rw [Bool.and_eq_true, Bool.and_eq_true, decide_eq_true_iff] at waits
      exact joins_wake intact waits.1.1 fndOk
  · exact Joins.of_line intact intact rfl

/-! ## Ticks, blocking and ending -/

theorem joins_useSlice (intact : Intact s) : Joins s s.useSlice := by
  have changed : ∀ t, Intact (s.modify t fun thread => { thread with slice := thread.slice - 1 }) :=
    fun t => intact.modify (fun _ => rfl) fun _ => rfl
  have line : ∀ t, (s.modify t fun thread => { thread with slice := thread.slice - 1 }).line = s.line :=
    fun t => line_modify fun _ => rfl
  unfold useSlice
  split
  · exact Joins.of_line intact intact rfl
  · next t _ =>
      split
      · dsimp only
        split
        · refine Joins.of_line intact ((changed t).congr rfl rfl (fun _ => rfl) fun _ => rfl) ?_
          exact (line_congr rfl fun _ => Iff.rfl).trans (line t)
        · exact Joins.of_line intact (changed t) (line t)
      · exact Joins.of_line intact intact rfl

theorem joins_tick (intact : Intact s) (answered : ThreadId -> Bool) : Joins s (s.tick answered) := by
  unfold tick
  have counted : Joins s { s with ticks := s.ticks + 1 } :=
    Joins.of_line intact (intact.congr rfl rfl (fun _ => rfl) fun _ => rfl) (line_congr rfl fun _ => Iff.rfl)
  have polled := joins_eachThread (joins_pecVisit answered) counted.intact
  have woken := joins_eachThread joins_tickVisit polled.intact
  exact ((counted.trans polled).trans woken).trans (joins_useSlice woken.intact)

theorem joins_yield (intact : Intact s) (t : ThreadId) : Joins s (s.yield t) := by
  have changed : Intact (s.modify t fun thread => { thread with slice := 0 }) :=
    intact.modify (fun _ => rfl) fun _ => rfl
  have line : (s.modify t fun thread => { thread with slice := 0 }).line = s.line := line_modify fun _ => rfl
  refine Joins.of_line intact (changed.congr rfl rfl (fun _ => rfl) fun _ => rfl) ?_
  exact (line_congr rfl fun _ => Iff.rfl).trans line

/-- A running thread is in no queue. -/
theorem Intact.outside_of_running (intact : Intact s) (runs : (s.threads t).state = .running) :
    ∀ p, t ∉ s.queue p :=
  intact.outside (by rw [runs]; decide) (by rw [runs]; decide)

theorem joins_block (intact : Intact s) (runs : (s.threads t).state = .running) (reason : Reason)
    (timeout : Word) : Joins s (s.block t reason timeout) := by
  have outside := intact.outside_of_running runs
  have low := intact.bounded t (Or.inr (Or.inl runs))
  refine Joins.of_line intact (intact.leave outside ?_ ?_ ?_) (line_leave outside)
  · exact ThreadState.noConfusion
  · exact fun _ => low
  · exact ThreadState.noConfusion

theorem joins_threadExit (intact : Intact s) (runs : (s.threads t).state = .running) (code : Word) :
    Joins s (s.threadExit t code) := by
  have outside := intact.outside_of_running runs
  have ended : Joins s (s.modify t fun thread => { thread with exitCode := code, state := .dead }) := by
    refine Joins.of_line intact (intact.leave outside ?_ ?_ ?_) (line_leave outside)
    · exact ThreadState.noConfusion
    · rintro (h | h) <;> cases h
    · exact ThreadState.noConfusion
  exact ended.trans (joins_eachThread (joins_exitVisit t) ended.intact)

/-! ## Killing -/

/-- A kill makes threads dead where they are. -/
theorem killProc_state (s : Sched) (proc : ProcId) (t : ThreadId) :
    ((s.killProc proc).threads t).state =
      if (s.threads t).proc = some proc ∧ (s.threads t).state ≠ .free then .dead else (s.threads t).state := by
  unfold killProc
  dsimp only
  simp only [Bool.and_eq_true, decide_eq_true_iff]
  split <;> rfl

theorem killProc_priority (s : Sched) (proc : ProcId) (t : ThreadId) :
    ((s.killProc proc).threads t).priority = (s.threads t).priority := by
  unfold killProc
  dsimp only
  split <;> rfl

theorem intact_killProc (intact : Intact s) (proc : ProcId) : Intact (s.killProc proc) := by
  have alive : ∀ t, ((s.killProc proc).threads t).state = (s.threads t).state ∨
      ((s.killProc proc).threads t).state = .dead := by
    intro t
    rw [killProc_state]
    split
    · exact Or.inr rfl
    · exact Or.inl rfl
  refine ⟨intact.holds, ?_, ?_, ?_, ?_⟩
  · intro p t member
    rw [killProc_priority]
    refine ⟨?_, (intact.waiting p t member).2⟩
    rcases alive t with same | died
    · rw [same]
      exact (intact.waiting p t member).1
    · exact Or.inr died
  · intro t waits
    rw [killProc_priority]
    rcases alive t with same | died
    · rw [same] at waits
      exact intact.ready t waits
    · rw [died] at waits
      cases waits
  · intro t active
    rw [killProc_priority]
    rcases alive t with same | died
    · rw [same] at active
      exact intact.bounded t active
    · rw [died] at active
      rcases active with h | h | h <;> cases h
  · intro t runs
    rcases alive t with same | died
    · rw [same] at runs
      exact intact.running t runs
    · rw [died] at runs
      cases runs

/-- A kill removes the threads of the process from the lines. -/
theorem line_killProc (s : Sched) (proc : ProcId) (p : Nat) :
    (s.killProc proc).line p = (s.line p).filter fun t => (s.threads t).proc ≠ some proc := by
  unfold line
  rw [List.filter_filter]
  refine List.filter_congr fun t _ => ?_
  unfold isReady
  rw [killProc_state, ← Bool.decide_and]
  refine decide_eq_decide.mpr ?_
  split
  · next killed => exact ⟨fun ready => ThreadState.noConfusion ready, fun keeps => absurd killed.1 keeps.1⟩
  · next spared =>
      refine ⟨fun ready => ⟨fun mine => spared ⟨mine, ?_⟩, ready⟩, fun keeps => keeps.2⟩
      rw [ready]
      decide

/-! ## Creating -/

/-- The links may change outside of the queues. -/
theorem Intact.relink (intact : Intact s) {queues : Bank Nat ThreadId} (holds : queues.Holds s.queue) :
    Intact { s with queues := queues } ∧ ({ s with queues := queues } : Sched).queue = s.queue := by
  have same : ({ s with queues := queues } : Sched).queue = s.queue := queue_eq holds
  refine ⟨⟨?_, ?_, ?_, intact.bounded, intact.running⟩, same⟩
  · rw [same]
    exact holds
  · rw [same]
    exact intact.waiting
  · rw [same]
    exact intact.ready

theorem clearSlot_state (s : Sched) (t : ThreadId) : ((s.clearSlot t).threads t).state = .free := by
  unfold clearSlot
  dsimp only
  rw [modify_self]

theorem clearSlot_other (s : Sched) {t u : ThreadId} (other : u ≠ t) :
    (s.clearSlot t).threads u = s.threads u := by
  unfold clearSlot
  dsimp only
  rw [modify_other s _ other]

theorem clearSlot_spec (intact : Intact s) (outside : ∀ p, t ∉ s.queue p) :
    Intact (s.clearSlot t) ∧ (s.clearSlot t).queue = s.queue ∧ (s.clearSlot t).line = s.line ∧
      ((s.clearSlot t).threads t).state = .free := by
  have cleared : Intact (s.modify t fun thread =>
      { thread with
        state := .free, waitProc := none, waitThread := none, reason := .none, timed := false,
        slice := fndSliceTicks }) := by
    refine intact.leave outside ?_ ?_ ?_
    · exact ThreadState.noConfusion
    · rintro (h | h) <;> cases h
    · exact ThreadState.noConfusion
  have holds : (Bank.mk s.queues.head s.queues.tail (Function.update s.queues.next t none)).Holds s.queue := by
    refine ⟨fun p => (intact.holds.chain p).congr fun u member => ?_, intact.holds.tail, intact.holds.apart⟩
    refine Function.update_of_ne ?_ ..
    rintro rfl
    exact outside p member
  obtain ⟨whole, same⟩ := cleared.relink holds
  refine ⟨whole, same, ?_, clearSlot_state s t⟩
  funext p
  unfold line
  rw [show (s.clearSlot t).queue = s.queue from same]
  refine List.filter_congr fun u member => ?_
  have other : u ≠ t := by
    rintro rfl
    exact outside p member
  unfold isReady
  rw [clearSlot_other s other]

/-- A free thread outside of the queues is made ready. -/
theorem joins_makeReady (intact : Intact s) (outside : ∀ p, t ∉ s.queue p)
    (free : (s.threads t).state = .free) : Joins s (s.makeReady t) := by
  have low : fndPrioApp < priorities := by decide
  unfold makeReady
  dsimp only
  by_cases high : priorities ≤ (s.threads t).priority
  · rw [if_pos high]
    have clamped : Intact (s.modify t fun thread => { thread with priority := fndPrioApp }) := by
      refine intact.leave outside ?_ ?_ ?_
      · exact fun ready => by rw [free] at ready; cases ready
      · exact fun _ => low
      · exact fun runs => by rw [free] at runs; cases runs
    refine (Joins.of_line intact clamped (line_leave outside)).trans (joins_enqueue clamped outside ?_)
    rw [modify_self]
    exact low
  · rw [if_neg high]
    exact joins_enqueue intact outside (Nat.lt_of_not_le high)

/-- A cleared slot that is filled in and made ready joins a line. -/
theorem joins_fill (intact : Intact s) (outside : ∀ p, t ∉ s.queue p) {change : Thread -> Thread}
    (states : ∀ thread, (change thread).state = thread.state) :
    Joins s (((s.clearSlot t).modify t change).makeReady t) := by
  obtain ⟨cleared, queues, line, free⟩ := clearSlot_spec intact outside
  have clear : ∀ p, t ∉ (s.clearSlot t).queue p := by
    rw [queues]
    exact outside
  have idle : (change ((s.clearSlot t).threads t)).state = .free := (states _).trans free
  have filled : Intact ((s.clearSlot t).modify t change) := by
    refine cleared.leave clear ?_ ?_ ?_
    · rw [idle]
      exact ThreadState.noConfusion
    · rw [idle]
      rintro (h | h) <;> cases h
    · rw [idle]
      exact ThreadState.noConfusion
  have first := Joins.of_line intact filled ((line_leave clear).trans line)
  refine first.trans (joins_makeReady filled clear ?_)
  rw [modify_self]
  exact idle

end Src32.Kernel.Sched
