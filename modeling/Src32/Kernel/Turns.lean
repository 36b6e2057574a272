import Src32.Kernel.ReadyQueue

namespace Src32.Kernel

/-!
# Threads and the scheduler

What an operation of the scheduler does to the threads: it wakes, blocks or
ends one, or it takes turns, which no property of waiting threads depends on.
-/

/-- A thread that runs or waits. -/
def Thread.active (thread : Thread) : Bool :=
  thread.state = .ready || thread.state = .running || thread.state = .blocked

theorem Thread.active_ready {thread : Thread} (ready : thread.state = .ready) : thread.active = true := by
  unfold Thread.active
  rw [ready]
  rfl

theorem Thread.active_running {thread : Thread} (runs : thread.state = .running) : thread.active = true := by
  unfold Thread.active
  rw [runs]
  rfl

theorem Thread.active_blocked {thread : Thread} (blocked : thread.state = .blocked) : thread.active = true := by
  unfold Thread.active
  rw [blocked]
  rfl

/-- The thread changed outside of what IPC depends on. -/
structure Thread.Alike (a b : Thread) : Prop where
  refs : b.refs = a.refs
  active : b.active = a.active
  waits : a.state = .blocked ∨ b.state = .blocked -> b = a
  proc : a.active = true -> b.proc = a.proc

theorem Thread.Alike.refl (a : Thread) : a.Alike a := ⟨rfl, rfl, fun _ => rfl, fun _ => rfl⟩

theorem Thread.Alike.trans {a b c : Thread} (first : a.Alike b) (second : b.Alike c) : a.Alike c := by
  refine ⟨second.refs.trans first.refs, second.active.trans first.active, ?_, ?_⟩
  · rintro (early | late)
    · have same := first.waits (Or.inl early)
      rw [← same] at early
      exact (second.waits (Or.inl early)).trans same
    · have same := second.waits (Or.inr late)
      rw [same] at late
      exact same.trans (first.waits (Or.inr late))
  · intro active
    exact (second.proc (first.active.trans active)).trans (first.proc active)

/-- A thread that is not blocked changes. -/
theorem Thread.Alike.of_running {a b : Thread} (before : a.state ≠ .blocked) (after : b.state ≠ .blocked)
    (refs : b.refs = a.refs) (active : b.active = a.active) (proc : b.proc = a.proc) : a.Alike b :=
  ⟨refs, active, fun either => either.elim (absurd · before) (absurd · after), fun _ => proc⟩

/-! ## Threads after operations of the scheduler -/

namespace Sched

variable {s : Sched} {t : ThreadId}

theorem noteUrgent_threads (s : Sched) (t : ThreadId) : (s.noteUrgent t).threads = s.threads := by
  unfold noteUrgent
  split <;> rfl

theorem wake_threads (s : Sched) (t : ThreadId) (result : Word) :
    (s.wake t result).threads = Function.update s.threads t
      { s.threads t with r1 := result, reason := .none, timed := false, state := .ready } := by
  unfold wake
  rw [noteUrgent_threads]
  unfold enqueue modify
  dsimp only
  rw [Function.update_self, Function.update_idem]

theorem block_threads (s : Sched) (t : ThreadId) (reason : Reason) (timeout : Word) :
    (s.block t reason timeout).threads = Function.update s.threads t
      { s.threads t with
        state := .blocked, reason := reason, timed := timeout ≠ fndForever, wakeTick := s.ticks + timeout,
        r1 := fndOk } := rfl

theorem enqueue_threads (s : Sched) (t : ThreadId) (atHead : Bool) :
    (s.enqueue t atHead).threads = Function.update s.threads t { s.threads t with state := .ready } := rfl

theorem makeReady_threads (s : Sched) (t : ThreadId) :
    ∃ priority, (s.makeReady t).threads = Function.update s.threads t
      { s.threads t with state := .ready, priority := priority } := by
  unfold makeReady
  rw [noteUrgent_threads, enqueue_threads]
  split
  · refine ⟨fndPrioApp, ?_⟩
    unfold modify
    dsimp only
    rw [Function.update_self, Function.update_idem]
  · exact ⟨(s.threads t).priority, rfl⟩

/-- A thread that was ready runs. -/
def Turns (s next : Sched) : Prop := ∀ t, (s.threads t).Alike (next.threads t)

theorem turns_of_running {s : Sched} {t : ThreadId} {change : Thread -> Thread}
    (before : (s.threads t).state ≠ .blocked) (after : (change (s.threads t)).state ≠ .blocked)
    (refs : (change (s.threads t)).refs = (s.threads t).refs)
    (active : (change (s.threads t)).active = (s.threads t).active)
    (proc : (change (s.threads t)).proc = (s.threads t).proc) : Turns s (s.modify t change) := by
  intro u
  by_cases same : u = t
  · subst same
    rw [modify_self]
    exact Thread.Alike.of_running before after refs active proc
  · rw [modify_other s change same]
    exact Thread.Alike.refl _

theorem Turns.trans {first second third : Sched} (early : Turns first second) (late : Turns second third) :
    Turns first third := fun t => (early t).trans (late t)

/-- Only ready threads leave the queues. -/
theorem drain_ready (p : Nat) (fuel : Nat) (s : Sched) :
    (drain p fuel s).2.threads = s.threads ∧
      ∀ t, (drain p fuel s).1 = some t -> (s.threads t).state = .ready := by
  induction fuel generalizing s with
  | zero => exact ⟨rfl, fun t found => by cases found⟩
  | succ fuel ih =>
    unfold drain
    cases s.queues.head p with
    | none => exact ⟨rfl, fun t found => by cases found⟩
    | some u =>
      dsimp only
      split
      · next ready =>
          refine ⟨rfl, fun t found => ?_⟩
          cases found
          exact ready
      · exact ih { s with queues := s.queues.popFront p u }

theorem dequeueFrom_ready (order : List Nat) (s : Sched) :
    (dequeueFrom order s).2.threads = s.threads ∧
      ∀ t, (dequeueFrom order s).1 = some t -> (s.threads t).state = .ready := by
  induction order generalizing s with
  | nil => exact ⟨rfl, nofun⟩
  | cons p rest ih =>
    unfold dequeueFrom
    obtain ⟨kept, ready⟩ := drain_ready p drainFuel s
    generalize drain p drainFuel s = result at kept ready
    obtain ⟨found, left⟩ := result
    dsimp only at kept ready ⊢
    cases found with
    | some u => exact ⟨kept, ready⟩
    | none =>
      obtain ⟨later, more⟩ := ih left
      dsimp only
      rw [later, kept]
      rw [kept] at more
      exact ⟨rfl, more⟩

theorem dispatch_turns (s : Sched) : Turns s s.dispatch := by
  unfold dispatch dequeue
  dsimp only
  obtain ⟨kept, ready⟩ := dequeueFrom_ready (List.range priorities) { s with needResched := false }
  generalize dequeueFrom (List.range priorities) { s with needResched := false } = result at kept ready
  obtain ⟨found, left⟩ := result
  dsimp only at kept ready ⊢
  have same : Turns s left := by
    intro t
    rw [kept]
    exact Thread.Alike.refl _
  refine same.trans ?_
  cases found with
  | none => exact fun t => Thread.Alike.refl _
  | some u =>
    have waits : (left.threads u).state = .ready := by
      rw [kept]
      exact ready u rfl
    have active := Thread.active_ready waits
    have turned : Turns left (left.modify u fun thread => { thread with state := .running }) :=
      turns_of_running (by rw [waits]; decide) (by dsimp only; decide) rfl (active.symm ▸ rfl) rfl
    exact turned

theorem requeue_turns (runs : (s.threads t).state = .running) : Turns s (s.requeue t) := by
  have active := Thread.active_running runs
  have awake : (s.threads t).state ≠ .blocked := by
    rw [runs]
    decide
  have queued : ∀ (s : Sched) atHead, (s.threads t).state ≠ .blocked -> (s.threads t).active = true ->
      Turns s (s.enqueue t atHead) := by
    intro s atHead awake active
    have turned : Turns s (s.modify t fun thread => { thread with state := .ready }) :=
      turns_of_running awake (by dsimp only; decide) rfl (active.symm ▸ rfl) rfl
    exact turned
  unfold requeue
  split
  · have slice : Turns s (s.modify t fun thread => { thread with slice := fndSliceTicks }) :=
      turns_of_running awake awake rfl rfl rfl
    refine slice.trans (queued _ _ ?_ ?_) <;> rw [modify_self]
    · exact awake
    · exact active
  · exact queued s _ awake active

theorem schedNext_turns (s : Sched) : Turns s s.schedNext := by
  unfold schedNext
  cases s.current with
  | none => exact dispatch_turns s
  | some t =>
    dsimp only
    split
    · next runs =>
        split
        · exact (requeue_turns runs).trans (dispatch_turns _)
        · exact fun u => Thread.Alike.refl _
    · exact dispatch_turns s

theorem useSlice_turns (s : Sched) : Turns s s.useSlice := by
  unfold useSlice
  cases s.current with
  | none => exact fun u => Thread.Alike.refl _
  | some t =>
    dsimp only
    split
    · next runs =>
        have awake : (s.threads t).state ≠ .blocked := by
          rw [runs]
          decide
        have used : Turns s (s.modify t fun thread => { thread with slice := thread.slice - 1 }) :=
          turns_of_running awake awake rfl rfl rfl
        split <;> exact used
    · exact fun u => Thread.Alike.refl _

/-- The slot the allocator takes: nobody runs in it and no handle names it. -/
theorem allocThread_some {next : Sched} (taken : s.allocThread = some (t, next)) :
    ((s.threads t).state = .free ∨ (s.threads t).state = .dead) ∧ (s.threads t).refs = 0 ∧ next = s.clearSlot t := by
  unfold allocThread at taken
  cases slot : s.freeSlot with
  | none =>
    rw [slot] at taken
    cases taken
  | some u =>
    rw [slot] at taken
    cases taken
    have usable := List.find?_some slot
    unfold reusable at usable
    simp only [Bool.and_eq_true, Bool.or_eq_true, decide_eq_true_iff] at usable
    exact ⟨usable.1.1, usable.2, rfl⟩

end Sched
end Src32.Kernel
