import Src32.Kernel.Scheduling

namespace Src32.Kernel.Sched

/-!
# First in, first out

`sched_next` serves the lines, so every run of the scheduler whose slots are
reused only once they are out of the queues keeps every ready thread in the
queue of its priority and resumes threads in the order they joined.
-/

variable {s : Sched} {t : ThreadId}

/-! ## Dispatching -/

/-- No user thread is in `T_RUNNING`. -/
def Stopped (s : Sched) : Prop := ∀ t, (s.threads t).state ≠ .running

/-- Nobody is left: the idle thread runs. -/
theorem resume_idle (intact : Intact s) (stopped : Stopped s) {queues : Bank Nat ThreadId}
    {later : Nat -> List ThreadId} (sifted : Sifted s s.queue { s with queues := queues } later)
    (kept : s.readyOf later = s.line) :
    Intact (({ s with queues := queues } : Sched).resume none) ∧
      (({ s with queues := queues } : Sched).resume none).line = s.readyOf later := by
  have same : (({ s with queues := queues } : Sched).resume none).queue = later := queue_eq sifted.holds
  refine ⟨⟨?_, ?_, ?_, intact.bounded, fun u runs => absurd runs (stopped u)⟩, ?_⟩
  · rw [same]
    exact sifted.holds
  · rw [same]
    intro p u member
    exact intact.waiting p u (sifted.fewer p u member)
  · rw [same]
    intro u waits
    have listed : u ∈ s.line (s.threads u).priority :=
      List.mem_filter.mpr ⟨intact.ready u waits, isReady_iff.mpr waits⟩
    rw [← kept] at listed
    exact (List.mem_filter.mp listed).1
  · unfold line
    rw [same]
    rfl

/-- The chosen thread leaves its line and runs. -/
theorem resume_chosen (intact : Intact s) (stopped : Stopped s) {queues : Bank Nat ThreadId}
    {later : Nat -> List ThreadId} (sifted : Sifted s s.queue { s with queues := queues } later) {p : Nat}
    {behind : List ThreadId} (listed : s.line p = t :: behind)
    (left : s.readyOf later = Function.update s.line p behind) :
    Intact (({ s with queues := queues } : Sched).resume (some t)) ∧
      (({ s with queues := queues } : Sched).resume (some t)).line = s.readyOf later := by
  have here : t ∈ s.line p := by
    rw [listed]
    exact List.mem_cons_self
  obtain ⟨member, ready⟩ := List.mem_filter.mp here
  obtain ⟨_, own⟩ := intact.waiting p t member
  have distinct : (t :: behind).Nodup := by
    rw [← listed]
    exact (intact.holds.nodup p).filter _
  have outside : ∀ q, t ∉ later q := by
    intro q there
    have place : q = p := intact.holds.apart q p t (sifted.fewer q t there) member
    subst place
    have again : t ∈ s.readyOf later q := List.mem_filter.mpr ⟨there, ready⟩
    rw [left, Function.update_self] at again
    exact (List.nodup_cons.mp distinct).1 again
  have same : (({ s with queues := queues } : Sched).resume (some t)).queue = later := queue_eq sifted.holds
  have self : ((({ s with queues := queues } : Sched).resume (some t)).threads t).state = .running := by
    unfold resume
    dsimp only
    rw [modify_self]
  have other : ∀ u, u ≠ t -> (({ s with queues := queues } : Sched).resume (some t)).threads u = s.threads u := by
    intro u differs
    unfold resume
    dsimp only
    rw [modify_other _ _ differs]
  have moved : ∀ q, ∀ u ∈ later q, u ≠ t := by
    rintro q u there rfl
    exact outside q there
  refine ⟨⟨?_, ?_, ?_, ?_, ?_⟩, ?_⟩
  · rw [same]
    exact sifted.holds
  · rw [same]
    intro q u there
    rw [other u (moved q u there)]
    exact intact.waiting q u (sifted.fewer q u there)
  · rw [same]
    intro u waits
    have differs : u ≠ t := by
      rintro rfl
      rw [self] at waits
      cases waits
    rw [other u differs] at waits ⊢
    have waiting : u ∈ s.line (s.threads u).priority :=
      List.mem_filter.mpr ⟨intact.ready u waits, isReady_iff.mpr waits⟩
    have still : u ∈ s.readyOf later (s.threads u).priority := by
      rw [left]
      by_cases level : (s.threads u).priority = p
      · rw [level] at waiting ⊢
        rw [Function.update_self]
        rw [listed] at waiting
        exact (List.mem_cons.mp waiting).resolve_left differs
      · rwa [Function.update_of_ne level]
    exact (List.mem_filter.mp still).1
  · intro u alive
    by_cases equal : u = t
    · subst equal
      have low := intact.bounded u (Or.inl (isReady_iff.mp ready))
      unfold resume
      dsimp only
      rw [modify_self]
      exact low
    · rw [other u equal] at alive ⊢
      exact intact.bounded u alive
  · intro u runs
    by_cases equal : u = t
    · subst equal
      rfl
    · rw [other u equal] at runs
      exact absurd runs (stopped u)
  · funext q
    unfold line
    rw [same]
    refine List.filter_congr fun u there => ?_
    unfold isReady
    rw [other u (moved q u there)]

theorem dispatch_spec (intact : Intact s) (stopped : Stopped s) :
    Intact s.dispatch ∧ Served s.line s.dispatch.current s.dispatch.line := by
  have calm : Intact { s with needResched := false } := intact.congr rfl rfl (fun _ => rfl) fun _ => rfl
  obtain ⟨later, sifted, served⟩ := dequeue_spec calm.holds
  have split : s.dispatch =
      (({ s with needResched := false } : Sched).dequeue.2).resume ({ s with needResched := false } : Sched).dequeue.1 :=
    rfl
  rw [split]
  generalize ({ s with needResched := false } : Sched).dequeue = found at sifted served ⊢
  obtain ⟨chosen, after⟩ := found
  dsimp only at sifted served ⊢
  have shape := sifted.same
  generalize after.queues = queues at shape
  subst shape
  have current : ∀ next, (({ s with needResched := false, queues := queues } : Sched).resume next).current = next :=
    fun next => by cases next <;> rfl
  rw [current]
  rcases served with ⟨rfl, empty, kept⟩ | ⟨p, t, behind, low, urgent, listed, rfl, left⟩
  · obtain ⟨whole, line⟩ := resume_idle calm stopped sifted kept
    rw [line]
    exact ⟨whole, Or.inl ⟨rfl, empty, kept⟩⟩
  · obtain ⟨whole, line⟩ := resume_chosen calm stopped sifted listed left
    rw [line]
    exact ⟨whole, Or.inr ⟨p, t, behind, low, urgent, listed, rfl, left⟩⟩

/-! ## The choice after a trap -/

/-- The lines once a running thread has given the processor up: it is behind
the others of its priority when its slice is used up and before them when it
was preempted. -/
def given (s : Sched) : Nat -> List ThreadId :=
  match s.current with
  | none => s.line
  | some t =>
    if (s.threads t).state = .running then entered s.line (s.threads t).priority t ((s.threads t).slice ≠ 0)
    else s.line

theorem requeue_spec (intact : Intact s) (runs : (s.threads t).state = .running) :
    Intact (s.requeue t) ∧ ((s.requeue t).threads t).state = .ready ∧ (s.requeue t).current = s.current ∧
      (∀ u, u ≠ t -> (s.requeue t).threads u = s.threads u) ∧
      (s.requeue t).line = entered s.line (s.threads t).priority t ((s.threads t).slice ≠ 0) := by
  have outside := intact.outside_of_running runs
  have low := intact.bounded t (Or.inr (Or.inl runs))
  unfold requeue
  by_cases spent : (s.threads t).slice = 0
  · rw [if_pos spent]
    have filled : Intact (s.modify t fun thread => { thread with slice := fndSliceTicks }) :=
      intact.modify (fun _ => rfl) fun _ => rfl
    have line : (s.modify t fun thread => { thread with slice := fndSliceTicks }).line = s.line :=
      line_modify fun _ => rfl
    have priority : ((s.modify t fun thread => { thread with slice := fndSliceTicks }).threads t).priority =
        (s.threads t).priority := by rw [modify_self]
    refine ⟨filled.enqueue outside (by rwa [priority]) false, ?_, rfl, ?_, ?_⟩
    · rw [enqueue_self]
    · intro u other
      rw [enqueue_other _ false other, modify_other s _ other]
    · rw [line_enqueue filled outside, line, priority]
      rw [show decide ((s.threads t).slice ≠ 0) = false from decide_eq_false (not_not.mpr spent)]
  · rw [if_neg spent]
    refine ⟨intact.enqueue outside low true, ?_, rfl, ?_, ?_⟩
    · rw [enqueue_self]
    · exact fun u other => enqueue_other s true other
    · rw [line_enqueue intact outside]
      rw [show decide ((s.threads t).slice ≠ 0) = true from decide_eq_true spent]

/-- After a trap the running thread goes on unless someone has to be let in, and
else it has given the processor up before the choice. -/
theorem schedNext_choice (intact : Intact s) :
    s.runsUser = true ∧ s.needResched = false ∧ s.schedNext = s ∨
      ∃ rested : Sched, Intact rested ∧ Stopped rested ∧ rested.line = s.given ∧ s.schedNext = rested.dispatch := by
  unfold schedNext given runsUser
  cases running : s.current with
  | none =>
    have stopped : Stopped s := by
      intro u runs
      cases (intact.running u runs).symm.trans running
    exact Or.inr ⟨s, intact, stopped, rfl, rfl⟩
  | some t =>
    dsimp only
    by_cases runs : (s.threads t).state = .running
    · rw [if_pos runs, if_pos runs]
      cases urgent : s.needResched with
      | false =>
        rw [if_neg Bool.false_ne_true]
        exact Or.inl ⟨decide_eq_true runs, rfl, rfl⟩
      | true =>
        rw [if_pos rfl]
        obtain ⟨kept, ready, current, others, line⟩ := requeue_spec intact runs
        have stopped : Stopped (s.requeue t) := by
          intro u active
          have owner := kept.running u active
          rw [current, running] at owner
          cases owner
          rw [ready] at active
          cases active
        exact Or.inr ⟨s.requeue t, kept, stopped, line, rfl⟩
    · rw [if_neg runs, if_neg runs]
      have stopped : Stopped s := by
        intro u active
        have owner := (intact.running u active).symm.trans running
        cases owner
        exact runs active
      exact Or.inr ⟨s, intact, stopped, rfl, rfl⟩

theorem schedNext_spec (intact : Intact s) :
    Intact s.schedNext ∧
      (s.runsUser = true ∧ s.needResched = false ∧ s.schedNext = s ∨
        Served s.given s.schedNext.current s.schedNext.line) := by
  rcases schedNext_choice intact with ⟨runs, calm, same⟩ | ⟨rested, kept, stopped, line, chosen⟩
  · rw [same]
    exact ⟨intact, Or.inl ⟨runs, calm, rfl⟩⟩
  · obtain ⟨whole, served⟩ := dispatch_spec kept stopped
    rw [line] at served
    rw [chosen]
    exact ⟨whole, Or.inr served⟩

/-! ## The machine -/

/-- What the kernel does to its threads. -/
inductive Action where
  | wake (t : ThreadId) (result : Word)
  | block (reason : Reason) (timeout : Word)
  | sleep (count : Word)
  | tick (answered : ThreadId -> Bool)
  | yield
  | threadCreate
  | procCreate (proc : ProcId) (priority : Nat) (starts : Bool)
  | threadExit (code : Word)
  | killProc (proc : ProcId)
  | retain (t : ThreadId)
  | release (t : ThreadId)
  | next

/-- `t` is the current thread and runs: it is the caller of the system call. -/
def Calls (s : Sched) (t : ThreadId) : Prop := s.current = some t ∧ (s.threads t).state = .running

/-- One operation.  Only a blocked thread is woken and only the caller of a
system call blocks, sleeps, yields, exits or creates a thread. -/
inductive Step (s : Sched) : Action -> Sched -> Prop where
  | wake {t : ThreadId} (blocked : (s.threads t).state = .blocked) (result : Word) :
      Step s (.wake t result) (s.wake t result)
  | block {t : ThreadId} (calls : s.Calls t) (reason : Reason) (timeout : Word) :
      Step s (.block reason timeout) (s.block t reason timeout)
  | sleep {t : ThreadId} (calls : s.Calls t) (count : Word) : Step s (.sleep count) (s.sleep t count)
  | tick (answered : ThreadId -> Bool) : Step s (.tick answered) (s.tick answered)
  | yield {t : ThreadId} (calls : s.Calls t) : Step s .yield (s.yield t)
  | threadCreate {t : ThreadId} (calls : s.Calls t) : Step s .threadCreate (s.threadCreate t)
  | procCreate (proc : ProcId) (priority : Nat) (starts : Bool) :
      Step s (.procCreate proc priority starts) (s.procCreate proc priority starts)
  | threadExit {t : ThreadId} (calls : s.Calls t) (code : Word) : Step s (.threadExit code) (s.threadExit t code)
  | killProc (proc : ProcId) : Step s (.killProc proc) (s.killProc proc)
  | retain (t : ThreadId) :
      Step s (.retain t) (s.modify t fun thread => { thread with refs := thread.refs + 1 })
  | release (t : ThreadId) :
      Step s (.release t) (s.modify t fun thread => { thread with refs := thread.refs - 1 })
  | next : Step s .next s.schedNext

/-- The scheduler once the idle thread is set up. -/
def boot : Sched where
  threads := fun _ => Thread.zero
  queues := ⟨fun _ => none, fun _ => none, fun _ => none⟩
  current := none
  ticks := 0
  switches := 0
  needResched := false

def machine : System Sched Action where
  initial := fun s => s = boot
  step := Step

/-- A slot that is handed out is not linked in a ready queue any more. -/
def ReusesUnlinked (s : Sched) : Action -> Prop
  | .threadCreate | .procCreate .. => ∀ t, s.freeSlot = some t -> ∀ p, t ∉ s.queue p
  | _ => True

/-- What an operation does to the lines. -/
def Orderly (s : Sched) (action : Action) (next : Sched) : Prop :=
  match action with
  | .killProc proc => ∀ p, next.line p = (s.line p).filter fun t => (s.threads t).proc ≠ some proc
  | .next =>
    s.runsUser = true ∧ s.needResched = false ∧ next = s ∨ Served s.given next.current next.line
  | _ => ∀ p, ∃ arrivals, next.line p = s.line p ++ arrivals

theorem intact_boot : Intact boot := by
  have empty : boot.queue = fun _ => [] := queue_eq Bank.holds_empty
  refine ⟨?_, ?_, ?_, ?_, ?_⟩
  · rw [empty]
    exact Bank.holds_empty
  · intro p t member
    rw [empty] at member
    cases member
  · exact fun t ready => ThreadState.noConfusion ready
  · rintro t (h | h | h) <;> cases h
  · exact fun t runs => ThreadState.noConfusion runs

theorem joins_threadCreate (intact : Intact s) (unlinked : ∀ u, s.freeSlot = some u -> ∀ p, u ∉ s.queue p)
    (t : ThreadId) : Joins s (s.threadCreate t) := by
  unfold threadCreate allocThread
  cases slot : s.freeSlot with
  | none => exact Joins.of_line intact intact rfl
  | some u =>
    refine joins_fill intact (unlinked u slot) ?_
    exact fun _ => rfl

theorem joins_procCreate (intact : Intact s) (unlinked : ∀ u, s.freeSlot = some u -> ∀ p, u ∉ s.queue p)
    (proc : ProcId) (priority : Nat) (starts : Bool) : Joins s (s.procCreate proc priority starts) := by
  unfold procCreate allocThread
  cases slot : s.freeSlot with
  | none => exact Joins.of_line intact intact rfl
  | some u =>
    cases starts with
    | true =>
      refine joins_fill intact (unlinked u slot) ?_
      exact fun _ => rfl
    | false =>
      obtain ⟨cleared, _, line, _⟩ := clearSlot_spec intact (unlinked u slot)
      exact Joins.of_line intact cleared line

/-- Every operation keeps the queues intact and is orderly. -/
theorem step_orderly {action : Action} {next : Sched} (intact : Intact s) (moves : Step s action next)
    (unlinked : ReusesUnlinked s action) : Intact next ∧ Orderly s action next := by
  have split : ∀ {next : Sched}, Joins s next -> Intact next ∧ ∀ p, ∃ arrivals, next.line p = s.line p ++ arrivals :=
    fun joins => ⟨joins.intact, joins.joined⟩
  cases moves with
  | wake blocked result => exact split (joins_wake intact blocked result)
  | block calls reason timeout => exact split (joins_block intact calls.2 reason timeout)
  | sleep calls count =>
    refine split ?_
    unfold sleep
    split
    · exact joins_yield intact _
    · exact joins_block intact calls.2 _ _
  | tick answered => exact split (joins_tick intact answered)
  | yield calls => exact split (joins_yield intact _)
  | threadCreate calls => exact split (joins_threadCreate intact unlinked _)
  | procCreate proc priority starts => exact split (joins_procCreate intact unlinked proc priority starts)
  | threadExit calls code => exact split (joins_threadExit intact calls.2 code)
  | killProc proc => exact ⟨intact_killProc intact proc, line_killProc s proc⟩
  | retain t | release t =>
    exact split (Joins.of_line intact (intact.modify (fun _ => rfl) fun _ => rfl) (line_modify fun _ => rfl))
  | next => exact schedNext_spec intact

theorem intact_of_reachable (reached : (machine.within ReusesUnlinked).Reachable s) : Intact s := by
  refine reached.invariant ?_ ?_
  · rintro start rfl
    exact intact_boot
  · intro first action second intact moves
    exact (step_orderly intact moves.2 moves.1).1

/-- The queues a reader of the kernel expects: every ready thread is in the
queue of its priority once and in no other queue, and every queue ends, at
the thread its tail points to. -/
structure Sound (s : Sched) : Prop where
  ready : ∀ t, (s.threads t).state = .ready -> (s.threads t).priority < priorities ∧
    ∀ p, (s.queue p).count t = if p = (s.threads t).priority then 1 else 0
  ended : ∀ p, Chain s.queues.next (s.queues.head p) (s.queue p)
  tail : ∀ p, s.queues.tail p = (s.queue p).getLast?

theorem Intact.sound (intact : Intact s) : Sound s := by
  refine ⟨fun t waits => ⟨intact.bounded t (Or.inl waits), fun p => ?_⟩, intact.holds.chain, intact.holds.tail⟩
  have here := intact.ready t waits
  split
  · next level =>
      subst level
      exact List.count_eq_one_of_mem (intact.holds.nodup _) here
  · next level =>
      refine List.count_eq_zero_of_not_mem fun there => level ?_
      exact intact.holds.apart p _ t there here

/-- In every run whose slots are reused only when they are out of the queues,
the queues are sound and the next operation is orderly. -/
theorem sound_of_reachable (reached : (machine.within ReusesUnlinked).Reachable s) :
    Sound s ∧ ∀ action next, (machine.within ReusesUnlinked).step s action next -> Orderly s action next := by
  have intact := intact_of_reachable reached
  refine ⟨intact.sound, fun action next moves => ?_⟩
  exact (step_orderly intact moves.2 moves.1).2

/-- The condition holds of a boot that starts a thread and dispatches it. -/
theorem sound_first_thread : Sound (boot.procCreate 0 1 true).schedNext := by
  have empty : boot.queue = fun _ => [] := queue_eq Bank.holds_empty
  have begun : (machine.within ReusesUnlinked).Reachable boot := System.Reachable.start rfl
  have unlinked : ReusesUnlinked boot (.procCreate 0 1 true) := by
    intro t _ p member
    rw [empty] at member
    cases member
  have created := begun.next ⟨unlinked, Step.procCreate 0 1 true⟩
  have dispatched : (machine.within ReusesUnlinked).Reachable (boot.procCreate 0 1 true).schedNext :=
    created.next (show (machine.within ReusesUnlinked).step _ .next _ from ⟨trivial, Step.next⟩)
  exact (sound_of_reachable dispatched).1

/-- Thread 0 runs and has started two processes whose threads wait. -/
def spawned : Sched :=
  ((((boot.procCreate 0 1 true).schedNext.procCreate 1 1 true).schedNext).procCreate 2 1 true).schedNext

/-- The first of the two was killed and its slot taken for a new thread. -/
def reused : Sched := (spawned.killProc 1).schedNext.threadCreate 0

/-- Taking the slot of a dead thread that is still linked cuts the queue behind
it: the thread after it is ready and in no queue. -/
theorem reused_slot_loses_thread : machine.Reachable reused ∧ ¬ Sound reused := by
  have first : machine.Reachable (boot.procCreate 0 1 true).schedNext :=
    ((System.Reachable.start rfl).next (Step.procCreate 0 1 true)).next Step.next
  have second := (first.next (Step.procCreate 1 1 true)).next Step.next
  have third : machine.Reachable spawned := (second.next (Step.procCreate 2 1 true)).next Step.next
  have killed := (third.next (Step.killProc 1)).next Step.next
  have calls : (spawned.killProc 1).schedNext.Calls 0 := ⟨by decide +kernel, by decide +kernel⟩
  refine ⟨killed.next (Step.threadCreate calls), ?_⟩
  intro sound
  have waits : (reused.threads 2).state = .ready := by decide +kernel
  have lost : (reused.queue 1).count 2 = 0 := by decide +kernel
  have counted := (sound.ready 2 waits).2 1
  have level : (reused.threads 2).priority = 1 := by decide +kernel
  rw [level, lost] at counted
  cases counted

end Src32.Kernel.Sched
