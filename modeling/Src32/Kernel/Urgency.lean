import Src32.Kernel.Dispatch
import Src32.Kernel.Turns

namespace Src32.Kernel.Sched

/-!
# Strict priority

A thread that becomes ready and is more urgent than the current one asks for a new
choice, and the choice takes the most urgent.  So whenever `sched_next` returns, no
ready thread is more urgent than the one that runs.
-/

variable {s next : Sched} {t : ThreadId}

/-- No ready thread is more urgent than the current one unless a choice is due. -/
def Heeded (s : Sched) : Prop := ∀ u, (s.threads u).state = .ready ->
  s.needResched = true ∨ s.currentPriority ≤ (s.threads u).priority

/-- The most urgent thread runs, and the processor idles only when nobody is ready. -/
def Foremost (s : Sched) : Prop := ∀ u, (s.threads u).state = .ready ->
  ∃ t, s.current = some t ∧ (s.threads t).state = .running ∧ (s.threads t).priority ≤ (s.threads u).priority

/-- An operation that asks for a choice when it readies a more urgent thread. -/
structure Heeds (s next : Sched) : Prop where
  current : next.currentPriority = s.currentPriority
  asked : s.needResched = true -> next.needResched = true
  ready : ∀ u, (next.threads u).state = .ready ->
    (s.threads u).state = .ready ∧ (next.threads u).priority = (s.threads u).priority ∨
      next.needResched = true ∨ s.currentPriority ≤ (next.threads u).priority

theorem Heeds.refl (s : Sched) : Heeds s s := ⟨rfl, id, fun _ ready => Or.inl ⟨ready, rfl⟩⟩

theorem Heeds.trans {last : Sched} (first : Heeds s next) (second : Heeds next last) : Heeds s last := by
  refine ⟨second.current.trans first.current, fun asked => second.asked (first.asked asked), fun u ready => ?_⟩
  rcases second.ready u ready with ⟨before, same⟩ | heeded
  · rw [same]
    rcases first.ready u before with old | asked | less
    · exact Or.inl old
    · exact Or.inr (Or.inl (second.asked asked))
    · exact Or.inr (Or.inr less)
  · rw [first.current] at heeded
    exact Or.inr heeded

theorem Heeds.heeded (heeds : Heeds s next) (before : Heeded s) : Heeded next := by
  intro u ready
  rw [heeds.current]
  rcases heeds.ready u ready with ⟨waits, same⟩ | heeded
  · rw [same]
    exact (before u waits).imp heeds.asked id
  · exact heeded

theorem currentPriority_congr (current : next.current = s.current)
    (own : ∀ t, s.current = some t -> (next.threads t).priority = (s.threads t).priority) :
    next.currentPriority = s.currentPriority := by
  unfold currentPriority
  rw [current]
  cases running : s.current with
  | none => rfl
  | some t => exact own t running

/-! ## Operations -/

theorem heeds_modify {change : Thread -> Thread}
    (own : s.current = some t -> (change (s.threads t)).priority = (s.threads t).priority)
    (still : (change (s.threads t)).state = .ready ->
      (s.threads t).state = .ready ∧ (change (s.threads t)).priority = (s.threads t).priority) :
    Heeds s (s.modify t change) := by
  refine ⟨currentPriority_congr rfl fun u running => ?_, id, fun u ready => Or.inl ?_⟩
  · by_cases same : u = t
    · subst same
      rw [modify_self]
      exact own running
    · rw [modify_other s change same]
  · by_cases same : u = t
    · subst same
      rw [modify_self] at ready ⊢
      exact still ready
    · rw [modify_other s change same] at ready ⊢
      exact ⟨ready, rfl⟩

theorem heeds_enqueue (s : Sched) (t : ThreadId) : Heeds s ((s.enqueue t false).noteUrgent t) := by
  have priority (u : ThreadId) : ((s.enqueue t false).threads u).priority = (s.threads u).priority := by
    rw [enqueue_threads, Function.update_apply]
    split
    · next same => rw [same]
    · rfl
  have current : (s.enqueue t false).currentPriority = s.currentPriority :=
    currentPriority_congr rfl fun u _ => priority u
  unfold noteUrgent
  rw [current, priority]
  split
  · exact ⟨current, fun _ => rfl, fun _ _ => Or.inr (Or.inl rfl)⟩
  · next late =>
      refine ⟨current, id, fun u ready => ?_⟩
      rw [priority]
      by_cases same : u = t
      · rw [same]
        exact Or.inr (Or.inr (Nat.le_of_not_lt late))
      · rw [enqueue_other s false same] at ready
        exact Or.inl ⟨ready, rfl⟩

theorem heeds_wake (s : Sched) (t : ThreadId) (result : Word) : Heeds s (s.wake t result) :=
  (@heeds_modify s t (fun thread => { thread with r1 := result, reason := .none, timed := false })
    (fun _ => rfl) fun ready => ⟨ready, rfl⟩).trans (heeds_enqueue _ t)

theorem heeds_eachThread {visit : Sched -> ThreadId -> Sched} (each : ∀ s t, Heeds s (visit s t)) (s : Sched) :
    Heeds s (s.eachThread visit) := by
  unfold eachThread
  generalize List.finRange 16 = slots
  induction slots generalizing s with
  | nil => exact Heeds.refl s
  | cons t rest ih => exact (each s t).trans (ih (visit s t))

theorem heeds_useSlice (s : Sched) : Heeds s s.useSlice := by
  have used (t : ThreadId) : Heeds s (s.modify t fun thread => { thread with slice := thread.slice - 1 }) :=
    heeds_modify (fun _ => rfl) fun ready => ⟨ready, rfl⟩
  unfold useSlice
  split
  · exact Heeds.refl s
  · next t _ =>
      split
      · dsimp only
        split
        · exact ⟨(used t).current, fun _ => rfl, fun _ _ => Or.inr (Or.inl rfl)⟩
        · exact used t
      · exact Heeds.refl s

theorem heeds_tick (s : Sched) (answered : ThreadId -> Bool) : Heeds s (s.tick answered) := by
  have counted : Heeds s { s with ticks := s.ticks + 1 } := ⟨rfl, id, fun _ ready => Or.inl ⟨ready, rfl⟩⟩
  have polled := @heeds_eachThread (pecVisit answered) (fun s t => by
    unfold pecVisit
    split
    · exact heeds_wake s t fndOk
    · exact Heeds.refl s) { s with ticks := s.ticks + 1 }
  have woken := @heeds_eachThread tickVisit fun s t => by
    unfold tickVisit
    split
    · exact heeds_wake s t _
    · exact Heeds.refl s
  exact ((counted.trans polled).trans (woken _)).trans (heeds_useSlice _)

theorem heeds_yield (s : Sched) (t : ThreadId) : Heeds s (s.yield t) := by
  have spent : Heeds s (s.modify t fun thread => { thread with slice := 0 }) :=
    heeds_modify (fun _ => rfl) fun ready => ⟨ready, rfl⟩
  exact ⟨spent.current, fun _ => rfl, fun _ _ => Or.inr (Or.inl rfl)⟩

theorem heeds_block (s : Sched) (t : ThreadId) (reason : Reason) (timeout : Word) :
    Heeds s (s.block t reason timeout) :=
  heeds_modify (fun _ => rfl) fun ready => ThreadState.noConfusion ready

theorem heeds_threadExit (s : Sched) (t : ThreadId) (code : Word) : Heeds s (s.threadExit t code) := by
  have ended : Heeds s (s.modify t fun thread => { thread with exitCode := code, state := .dead }) :=
    heeds_modify (fun _ => rfl) fun ready => ThreadState.noConfusion ready
  refine ended.trans (heeds_eachThread (fun s u => ?_) _)
  unfold exitVisit
  split
  · exact heeds_wake s u fndOk
  · exact Heeds.refl s

/-- A thread that is not the current one is made ready in a slot. -/
theorem heeds_start {change : Thread -> Thread} (other : s.current ≠ some t)
    (idle : (change (s.threads t)).state ≠ .ready) : Heeds s ((s.modify t change).makeReady t) := by
  have changed : Heeds s (s.modify t change) := heeds_modify (absurd · other) (absurd · idle)
  unfold makeReady
  split
  · have clamped : Heeds (s.modify t change)
        ((s.modify t change).modify t fun thread => { thread with priority := fndPrioApp }) :=
      heeds_modify (absurd · other) fun ready => absurd (by rwa [modify_self] at ready) idle
    exact changed.trans (clamped.trans (heeds_enqueue _ t))
  · exact changed.trans (heeds_enqueue _ t)

/-- A slot is taken. -/
theorem heeds_allocThread (taken : s.allocThread = some (t, next)) :
    Heeds s next ∧ next.current ≠ some t ∧ (next.threads t).state = .free := by
  unfold allocThread at taken
  cases slot : s.freeSlot with
  | none =>
    rw [slot] at taken
    cases taken
  | some u =>
    rw [slot] at taken
    cases taken
    have usable := List.find?_some slot
    unfold reusable at usable
    simp only [Bool.and_eq_true, decide_eq_true_iff] at usable
    have cleared : Heeds s (s.modify t fun thread =>
        { thread with
          state := .free, waitProc := none, waitThread := none, reason := .none, timed := false,
          slice := fndSliceTicks }) :=
      heeds_modify (fun _ => rfl) fun ready => ThreadState.noConfusion ready
    exact ⟨⟨cleared.current, cleared.asked, cleared.ready⟩, usable.1.2, clearSlot_state s t⟩

theorem heeds_threadCreate (s : Sched) (caller : ThreadId) : Heeds s (s.threadCreate caller) := by
  unfold threadCreate
  split
  · exact Heeds.refl s
  · next t taken allocated =>
      obtain ⟨heeds, other, free⟩ := heeds_allocThread allocated
      exact heeds.trans (heeds_start other fun ready => ThreadState.noConfusion (free.symm.trans ready))

theorem heeds_procCreate (s : Sched) (proc : ProcId) (priority : Nat) (starts : Bool) :
    Heeds s (s.procCreate proc priority starts) := by
  unfold procCreate
  split
  · exact Heeds.refl s
  · next t taken allocated =>
      obtain ⟨heeds, other, free⟩ := heeds_allocThread allocated
      split
      · exact heeds.trans (heeds_start other fun ready => ThreadState.noConfusion (free.symm.trans ready))
      · exact heeds

theorem heeds_killProc (s : Sched) (proc : ProcId) : Heeds s (s.killProc proc) := by
  refine ⟨currentPriority_congr rfl fun t _ => killProc_priority s proc t, id, fun u ready => Or.inl ⟨?_, ?_⟩⟩
  · rw [killProc_state] at ready
    split at ready
    · cases ready
    · exact ready
  · exact killProc_priority s proc u

/-! ## The choice -/

theorem dispatch_chosen (chosen : s.dispatch.current = some t) :
    s.dispatch.threads t = { s.threads t with state := .running } := by
  unfold dispatch dequeue at *
  have kept := (dequeueFrom_ready (List.range priorities) { s with needResched := false }).1
  generalize dequeueFrom (List.range priorities) { s with needResched := false } = result at kept chosen ⊢
  obtain ⟨found, left⟩ := result
  cases found with
  | none => cases chosen
  | some u =>
    cases chosen
    dsimp only at kept
    exact (modify_self left t fun thread => { thread with state := .running }).trans (by rw [kept])

theorem foremost_dispatch (intact : Intact s) (stopped : Stopped s) : Foremost s.dispatch := by
  intro u ready
  obtain ⟨whole, served⟩ := dispatch_spec intact stopped
  have low := whole.bounded u (Or.inl ready)
  have listed : u ∈ s.dispatch.line (s.dispatch.threads u).priority :=
    List.mem_filter.mpr ⟨whole.ready u ready, isReady_iff.mpr ready⟩
  rcases served with ⟨-, empty, later⟩ | ⟨p, t, behind, -, urgent, first, chosen, later⟩
  · rw [later, empty _ low] at listed
    cases listed
  · have running := dispatch_chosen chosen
    have member : t ∈ s.line p := first ▸ List.mem_cons_self
    refine ⟨t, chosen, by rw [running], ?_⟩
    rw [running]
    dsimp only
    rw [(intact.waiting p t (List.mem_filter.mp member).1).2]
    by_contra less
    rw [later, Function.update_of_ne (by omega), urgent _ (by omega)] at listed
    cases listed

theorem Foremost.heeded (foremost : Foremost s) : Heeded s := by
  intro u ready
  obtain ⟨t, running, -, most⟩ := foremost u ready
  right
  unfold currentPriority
  rw [running]
  exact most

theorem foremost_schedNext (intact : Intact s) (heeded : Heeded s) : Foremost s.schedNext := by
  rcases schedNext_choice intact with ⟨runs, calm, same⟩ | ⟨rested, kept, stopped, -, same⟩
  · rw [same]
    intro u ready
    have most := (heeded u ready).resolve_left (by rw [calm]; decide)
    unfold runsUser at runs
    unfold currentPriority at most
    cases running : s.current with
    | none =>
      rw [running] at runs
      cases runs
    | some t =>
      rw [running] at runs most
      exact ⟨t, rfl, of_decide_eq_true runs, most⟩
  · rw [same]
    exact foremost_dispatch kept stopped

/-! ## Runs -/

theorem step_heeded {action : Action} (intact : Intact s) (heeded : Heeded s) (moves : Step s action next) :
    Heeded next := by
  cases moves with
  | wake blocked result => exact (heeds_wake s _ result).heeded heeded
  | block calls reason timeout => exact (heeds_block s _ reason timeout).heeded heeded
  | sleep calls count =>
    unfold sleep
    split
    · exact (heeds_yield s _).heeded heeded
    · exact (heeds_block s _ _ _).heeded heeded
  | tick answered => exact (heeds_tick s answered).heeded heeded
  | yield calls => exact (heeds_yield s _).heeded heeded
  | threadCreate calls => exact (heeds_threadCreate s _).heeded heeded
  | procCreate proc priority starts => exact (heeds_procCreate s proc priority starts).heeded heeded
  | threadExit calls code => exact (heeds_threadExit s _ code).heeded heeded
  | killProc proc => exact (heeds_killProc s proc).heeded heeded
  | retain t | release t => exact (heeds_modify (fun _ => rfl) fun ready => ⟨ready, rfl⟩).heeded heeded
  | next => exact (foremost_schedNext intact heeded).heeded

/-- In every run whose slots are reused only when they are out of the queues, a ready
thread more urgent than the current one makes a choice due, and `sched_next` returns
with the most urgent thread running, or idle if nobody is ready. -/
theorem most_urgent_runs (reached : (machine.within ReusesUnlinked).Reachable s) : Heeded s ∧ Foremost s.schedNext := by
  have both : Intact s ∧ Heeded s := by
    refine reached.invariant (motive := fun s => Intact s ∧ Heeded s) ?_ ?_
    · rintro start rfl
      exact ⟨intact_boot, fun u ready => ThreadState.noConfusion ready⟩
    · rintro first action second ⟨intact, heeded⟩ moves
      exact ⟨(step_orderly intact moves.2 moves.1).1, step_heeded intact heeded moves.2⟩
  exact ⟨both.2, foremost_schedNext both.1 both.2⟩

/-- The first thread is ready while the processor idles, and then runs. -/
theorem most_urgent_runs_first : (boot.procCreate 0 1 true).needResched = true ∧
    Foremost (boot.procCreate 0 1 true).schedNext := by
  have unlinked : ReusesUnlinked boot (.procCreate 0 1 true) := by
    intro t _ p member
    rw [queue_eq (s := boot) Bank.holds_empty] at member
    cases member
  have created : (machine.within ReusesUnlinked).Reachable (boot.procCreate 0 1 true) :=
    (System.Reachable.start rfl).next ⟨unlinked, Step.procCreate 0 1 true⟩
  obtain ⟨heeded, foremost⟩ := most_urgent_runs created
  exact ⟨(heeded 0 (by decide +kernel)).resolve_right (by decide +kernel), foremost⟩

end Src32.Kernel.Sched
