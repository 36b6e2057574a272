import Mathlib.Data.Fintype.Card
import Src32.Kernel.Sched

namespace Src32.Kernel.Sched

open Function (update update_self update_of_ne)

/-!
# Ready queues

The scheduler keeps its queues intact: every ready thread is in the queue of
its priority and a queue holds nothing but ready and dead threads.  Skipping
the dead ones, a queue is the line of the threads that wait for the
processor, and the operations act on lines as a first-in first-out scheduler
does.
-/

variable {s : Sched} {t : ThreadId}

/-- The threads linked in queue `p`. -/
def queue (s : Sched) (p : Nat) : List ThreadId := walk s.queues.next 16 (s.queues.head p)

def isReady (s : Sched) (t : ThreadId) : Bool := (s.threads t).state = .ready

/-- The ready threads of priority `p` in the order of their queue. -/
def line (s : Sched) (p : Nat) : List ThreadId := (s.queue p).filter s.isReady

/-- What the queues are between two operations of the kernel. -/
structure Intact (s : Sched) : Prop where
  holds : s.queues.Holds s.queue
  waiting : ∀ p, ∀ t ∈ s.queue p,
    ((s.threads t).state = .ready ∨ (s.threads t).state = .dead) ∧ (s.threads t).priority = p
  ready : ∀ t, (s.threads t).state = .ready -> t ∈ s.queue (s.threads t).priority
  bounded : ∀ t, (s.threads t).state = .ready ∨ (s.threads t).state = .running ∨
    (s.threads t).state = .blocked -> (s.threads t).priority < priorities
  running : ∀ t, (s.threads t).state = .running -> s.current = some t

variable {items later : Nat -> List ThreadId} {change : Thread -> Thread} {next : Sched} {u : ThreadId}
  {p : Nat}

/-- No queue is longer than the thread table, so the stored lists are the
ones read off. -/
theorem queue_eq (holds : s.queues.Holds items) : s.queue = items := by
  funext p
  have short : (items p).length ≤ 16 := by
    have bound := (holds.nodup p).length_le_card
    rwa [Fintype.card_fin] at bound
  exact (holds.chain p).walk_eq short

/-- A thread that is neither ready nor dead is in no queue. -/
theorem Intact.outside (intact : Intact s) (idle : (s.threads t).state ≠ .ready)
    (alive : (s.threads t).state ≠ .dead) : ∀ p, t ∉ s.queue p := by
  intro p member
  rcases (intact.waiting p t member).1 with waits | died
  · exact idle waits
  · exact alive died

theorem isReady_iff : s.isReady t = true ↔ (s.threads t).state = .ready := decide_eq_true_iff

/-- The lines depend on the queues and the states only. -/
theorem line_congr (queues : next.queues = s.queues)
    (states : ∀ t, (next.threads t).state = .ready ↔ (s.threads t).state = .ready) : next.line = s.line := by
  funext p
  unfold line queue
  rw [queues]
  refine List.filter_congr fun t _ => ?_
  exact decide_eq_decide.mpr (states t)

/-- Changes that leave states, priorities and queues alone keep the queues
intact. -/
theorem Intact.congr (intact : Intact s) (queues : next.queues = s.queues) (current : next.current = s.current)
    (states : ∀ t, (next.threads t).state = (s.threads t).state)
    (priority : ∀ t, (next.threads t).priority = (s.threads t).priority) : Intact next := by
  have same : next.queue = s.queue := by
    funext p
    unfold queue
    rw [queues]
  refine ⟨?_, ?_, ?_, ?_, ?_⟩
  · rw [queues, same]
    exact intact.holds
  · intro p t member
    rw [states, priority]
    rw [same] at member
    exact intact.waiting p t member
  · intro t waits
    rw [states] at waits
    rw [same, priority]
    exact intact.ready t waits
  · intro t alive
    rw [states] at alive
    rw [priority]
    exact intact.bounded t alive
  · intro t runs
    rw [states] at runs
    rw [current]
    exact intact.running t runs

/-! ## Changing one thread -/

@[simp] theorem modify_queues (s : Sched) (t : ThreadId) (change : Thread -> Thread) :
    (s.modify t change).queues = s.queues := rfl

@[simp] theorem modify_current (s : Sched) (t : ThreadId) (change : Thread -> Thread) :
    (s.modify t change).current = s.current := rfl

@[simp] theorem modify_self (s : Sched) (t : ThreadId) (change : Thread -> Thread) :
    (s.modify t change).threads t = change (s.threads t) := update_self ..

theorem modify_other (s : Sched) {t : ThreadId} (change : Thread -> Thread) (other : u ≠ t) :
    (s.modify t change).threads u = s.threads u := update_of_ne other ..

/-- A field that the change keeps is the same for every thread. -/
theorem modify_field {α : Type} (s : Sched) (t : ThreadId) (field : Thread -> α)
    (kept : ∀ thread, field (change thread) = field thread) (u : ThreadId) :
    field ((s.modify t change).threads u) = field (s.threads u) := by
  by_cases same : u = t
  · subst same
    rw [modify_self]
    exact kept _
  · rw [modify_other s change same]

/-- A thread changed outside of its state and priority. -/
theorem Intact.modify (intact : Intact s) {f : Thread -> Thread}
    (states : ∀ thread, (f thread).state = thread.state)
    (priority : ∀ thread, (f thread).priority = thread.priority) : Intact (s.modify t f) :=
  intact.congr rfl rfl (modify_field s t Thread.state states) (modify_field s t Thread.priority priority)

theorem line_modify (states : ∀ thread, (change thread).state = thread.state) :
    (s.modify t change).line = s.line :=
  line_congr rfl fun u => by rw [modify_field s t Thread.state states u]

/-- A thread outside of the queues takes another state that is not ready. -/
theorem Intact.leave (intact : Intact s) (outside : ∀ p, t ∉ s.queue p)
    (idle : (change (s.threads t)).state ≠ .ready)
    (bounded : (change (s.threads t)).state = .running ∨ (change (s.threads t)).state = .blocked ->
      (change (s.threads t)).priority < priorities)
    (runs : (change (s.threads t)).state = .running -> s.current = some t) : Intact (s.modify t change) := by
  have distinct : ∀ p u, u ∈ s.queue p -> u ≠ t := by
    rintro p u member rfl
    exact outside p member
  refine ⟨intact.holds, ?_, ?_, ?_, ?_⟩
  · intro p u member
    rw [modify_other s change (distinct p u member)]
    exact intact.waiting p u member
  · intro u waits
    by_cases same : u = t
    · subst same
      rw [modify_self] at waits
      exact absurd waits idle
    · rw [modify_other s change same] at waits ⊢
      exact intact.ready u waits
  · intro u alive
    by_cases same : u = t
    · subst same
      rw [modify_self] at alive ⊢
      rcases alive with waits | others
      · exact absurd waits idle
      · exact bounded others
    · rw [modify_other s change same] at alive ⊢
      exact intact.bounded u alive
  · intro u running
    by_cases same : u = t
    · subst same
      rw [modify_self] at running
      exact runs running
    · rw [modify_other s change same] at running
      exact intact.running u running

theorem line_leave (outside : ∀ p, t ∉ s.queue p) :
    (s.modify t change).line = s.line := by
  funext p
  refine List.filter_congr fun u member => ?_
  have other : u ≠ t := by
    rintro rfl
    exact outside p member
  unfold isReady
  rw [modify_other s change other]

/-! ## Entering a queue -/

/-- The queues with `t` in the one of its priority. -/
def entered (items : Nat -> List ThreadId) (p : Nat) (t : ThreadId) (atHead : Bool) : Nat -> List ThreadId :=
  update items p (if atHead then t :: items p else items p ++ [t])

theorem holds_enqueue (intact : Intact s) (outside : ∀ p, t ∉ s.queue p) (atHead : Bool) :
    (s.enqueue t atHead).queues.Holds (entered s.queue (s.threads t).priority t atHead) := by
  unfold entered enqueue
  cases atHead with
  | false => exact intact.holds.pushBack outside
  | true => exact intact.holds.pushFront outside

theorem queue_enqueue (intact : Intact s) (outside : ∀ p, t ∉ s.queue p) (atHead : Bool) :
    (s.enqueue t atHead).queue = entered s.queue (s.threads t).priority t atHead :=
  queue_eq (holds_enqueue intact outside atHead)

theorem mem_entered {q : Nat} {atHead : Bool} :
    u ∈ entered items p t atHead q ↔ (u = t ∧ q = p) ∨ u ∈ items q := by
  unfold entered
  by_cases same : q = p
  · subst same
    rw [update_self]
    cases atHead <;> simp [or_comm]
  · rw [update_of_ne same]
    simp [same]

theorem enqueue_self (s : Sched) (t : ThreadId) (atHead : Bool) :
    (s.enqueue t atHead).threads t = { s.threads t with state := .ready } := update_self ..

theorem enqueue_other (s : Sched) {t : ThreadId} (atHead : Bool) (other : u ≠ t) :
    (s.enqueue t atHead).threads u = s.threads u := update_of_ne other ..

theorem Intact.enqueue (intact : Intact s) (outside : ∀ p, t ∉ s.queue p)
    (low : (s.threads t).priority < priorities) (atHead : Bool) : Intact (s.enqueue t atHead) := by
  have queues := queue_enqueue intact outside atHead
  refine ⟨?_, ?_, ?_, ?_, ?_⟩
  · rw [queues]
    exact holds_enqueue intact outside atHead
  · intro p u member
    rw [queues, mem_entered] at member
    rcases member with ⟨rfl, rfl⟩ | member
    · rw [enqueue_self]
      exact ⟨Or.inl rfl, rfl⟩
    · have other : u ≠ t := by
        rintro rfl
        exact outside p member
      rw [enqueue_other s atHead other]
      exact intact.waiting p u member
  · intro u waits
    rw [queues, mem_entered]
    by_cases same : u = t
    · subst same
      rw [enqueue_self]
      exact Or.inl ⟨rfl, rfl⟩
    · rw [enqueue_other s atHead same] at waits ⊢
      exact Or.inr (intact.ready u waits)
  · intro u alive
    by_cases same : u = t
    · subst same
      rw [enqueue_self]
      exact low
    · rw [enqueue_other s atHead same] at alive ⊢
      exact intact.bounded u alive
  · intro u runs
    by_cases same : u = t
    · subst same
      rw [enqueue_self] at runs
      cases runs
    · rw [enqueue_other s atHead same] at runs
      exact intact.running u runs

theorem line_enqueue (intact : Intact s) (outside : ∀ p, t ∉ s.queue p) (atHead : Bool) :
    (s.enqueue t atHead).line = entered s.line (s.threads t).priority t atHead := by
  have old : ∀ p, (s.queue p).filter (s.enqueue t atHead).isReady = s.line p := by
    intro p
    refine List.filter_congr fun u member => ?_
    have other : u ≠ t := by
      rintro rfl
      exact outside p member
    unfold isReady
    rw [enqueue_other s atHead other]
  have new : (s.enqueue t atHead).isReady t = true := by
    rw [isReady_iff, enqueue_self]
  funext p
  unfold line
  rw [queue_enqueue intact outside atHead]
  unfold entered
  by_cases same : p = (s.threads t).priority
  · subst same
    rw [update_self, update_self]
    cases atHead with
    | false =>
      simp only [Bool.false_eq_true, if_false]
      rw [List.filter_append, old, List.filter_singleton, new]
      rfl
    | true =>
      simp only [if_true]
      rw [List.filter_cons_of_pos new, old]
      rfl
  · rw [update_of_ne same, update_of_ne same, old]
    rfl

/-! ## Taking the next thread -/

/-- A choice among lines: the first of the most urgent line that is not empty,
or nobody when all are empty. -/
def Served (lines : Nat -> List ThreadId) (chosen : Option ThreadId) (later : Nat -> List ThreadId) : Prop :=
  (chosen = none ∧ (∀ p, p < priorities -> lines p = []) ∧ later = lines) ∨
    ∃ p t behind, p < priorities ∧ (∀ q, q < p -> lines q = []) ∧ lines p = t :: behind ∧
      chosen = some t ∧ later = update lines p behind

/-- The ready ones of listed threads. -/
def readyOf (s : Sched) (items : Nat -> List ThreadId) (p : Nat) : List ThreadId := (items p).filter s.isReady

/-- Threads left the queues and nothing else changed. -/
structure Sifted (s : Sched) (items : Nat -> List ThreadId) (next : Sched) (later : Nat -> List ThreadId) :
    Prop where
  same : next = { s with queues := next.queues }
  holds : next.queues.Holds later
  fewer : ∀ p, ∀ u ∈ later p, u ∈ items p

theorem Sifted.trans {last : Nat -> List ThreadId} {middle final : Sched} (first : Sifted s items middle later)
    (second : Sifted middle later final last) :
    Sifted s items final last := by
  refine ⟨?_, second.holds, fun p u member => first.fewer p u (second.fewer p u member)⟩
  have changed := second.same
  rw [first.same] at changed
  exact changed

theorem Sifted.threads (sifted : Sifted s items next later) :
    next.threads = s.threads := by rw [sifted.same]

theorem Sifted.readyOf_eq (sifted : Sifted s items next later) : next.readyOf = s.readyOf := by rw [sifted.same]; rfl

/-- The first element leaves a queue. -/
theorem sifted_popFront {rest : List ThreadId} (holds : s.queues.Holds items) (first : items p = t :: rest) :
    Sifted s items { s with queues := s.queues.popFront p t } (update items p rest) := by
  refine ⟨rfl, holds.popFront first, ?_⟩
  intro q u member
  by_cases same : q = p
  · subst same
    rw [update_self] at member
    rw [first]
    exact List.mem_cons_of_mem t member
  · rwa [update_of_ne same] at member

theorem readyOf_update (items : Nat -> List ThreadId) (p : Nat) (rest : List ThreadId) :
    s.readyOf (update items p rest) = update (s.readyOf items) p (rest.filter s.isReady) := by
  funext q
  unfold readyOf
  by_cases same : q = p
  · subst same
    rw [update_self, update_self]
  · rw [update_of_ne same, update_of_ne same]

/-- One queue is searched for its first ready thread. -/
theorem drain_spec {fuel : Nat} (holds : s.queues.Holds items) (enough : (items p).length < fuel) :
    ∃ later, Sifted s items (drain p fuel s).2 later ∧
      (((drain p fuel s).1 = none ∧ s.readyOf items p = [] ∧ s.readyOf later = s.readyOf items) ∨
        ∃ t behind, (drain p fuel s).1 = some t ∧ s.readyOf items p = t :: behind ∧
          s.readyOf later = update (s.readyOf items) p behind) := by
  induction fuel generalizing s items with
  | zero => exact absurd enough (Nat.not_lt_zero _)
  | succ fuel ih =>
    have first := holds.head_eq p
    unfold drain
    cases listed : items p with
    | nil =>
      rw [listed] at first
      rw [show s.queues.head p = none from first]
      have none : s.readyOf items p = [] := by
        unfold readyOf
        rw [listed]
        rfl
      exact ⟨items, ⟨rfl, holds, fun _ _ member => member⟩, Or.inl ⟨rfl, none, rfl⟩⟩
    | cons t rest =>
      rw [listed] at first
      rw [show s.queues.head p = some t from first]
      dsimp only
      have popped := sifted_popFront holds listed
      have lines := readyOf_update (s := s) items p rest
      by_cases waits : (s.threads t).state = .ready
      · rw [if_pos waits]
        refine ⟨_, popped, Or.inr ⟨t, rest.filter s.isReady, rfl, ?_, lines⟩⟩
        unfold readyOf
        rw [listed, List.filter_cons_of_pos (isReady_iff.mpr waits)]
      · rw [if_neg waits]
        have shorter : (update items p rest p).length < fuel := by
          rw [listed, List.length_cons] at enough
          rw [update_self]
          omega
        have skipped : s.readyOf (update items p rest) = s.readyOf items := by
          rw [lines]
          refine Function.update_eq_iff.mpr ⟨?_, fun _ _ => rfl⟩
          unfold readyOf
          rw [listed, List.filter_cons_of_neg]
          rwa [isReady_iff]
        obtain ⟨later, sifted, found⟩ := ih popped.holds shorter
        rw [popped.readyOf_eq, skipped] at found
        exact ⟨later, popped.trans sifted, found⟩

/-- The queues are searched in the given order. -/
theorem dequeueFrom_spec (order : List Nat) (holds : s.queues.Holds items) :
    ∃ later, Sifted s items (dequeueFrom order s).2 later ∧
      (((dequeueFrom order s).1 = none ∧ (∀ p ∈ order, s.readyOf items p = []) ∧
          s.readyOf later = s.readyOf items) ∨
        ∃ before p after t behind, order = before ++ p :: after ∧ (∀ q ∈ before, s.readyOf items q = []) ∧
          s.readyOf items p = t :: behind ∧ (dequeueFrom order s).1 = some t ∧
          s.readyOf later = update (s.readyOf items) p behind) := by
  induction order generalizing s items with
  | nil => exact ⟨items, ⟨rfl, holds, fun _ _ member => member⟩, Or.inl ⟨rfl, List.forall_mem_nil _, rfl⟩⟩
  | cons p rest ih =>
    have short : (items p).length < drainFuel := by
      have bound := (holds.nodup p).length_le_card
      rw [Fintype.card_fin] at bound
      exact Nat.lt_succ_of_le bound
    obtain ⟨middle, sifted, found⟩ := drain_spec holds short
    unfold dequeueFrom
    rcases found with ⟨nobody, empty, kept⟩ | ⟨t, behind, somebody, listed, left⟩
    · obtain ⟨later, moreSifted, next⟩ := ih sifted.holds
      rw [sifted.readyOf_eq, kept] at next
      rw [show drain p drainFuel s = (none, (drain p drainFuel s).2) from Prod.ext nobody rfl]
      refine ⟨later, sifted.trans moreSifted, ?_⟩
      rcases next with ⟨noneFound, allEmpty, same⟩ | ⟨before, q, after, t, behind, split, skipped, rest⟩
      · refine Or.inl ⟨noneFound, ?_, same⟩
        intro q member
        rcases List.mem_cons.mp member with rfl | member
        · exact empty
        · exact allEmpty q member
      · refine Or.inr ⟨p :: before, q, after, t, behind, by rw [split]; rfl, ?_, rest⟩
        intro r member
        rcases List.mem_cons.mp member with rfl | member
        · exact empty
        · exact skipped r member
    · rw [show drain p drainFuel s = (some t, (drain p drainFuel s).2) from Prod.ext somebody rfl]
      exact ⟨middle, sifted, Or.inr ⟨[], p, rest, t, behind, rfl, List.forall_mem_nil _, listed, rfl, left⟩⟩

/-- `dequeue` serves the lines. -/
theorem dequeue_spec (holds : s.queues.Holds s.queue) :
    ∃ later, Sifted s s.queue s.dequeue.2 later ∧ Served s.line s.dequeue.1 (s.readyOf later) := by
  obtain ⟨later, sifted, found⟩ := dequeueFrom_spec (List.range priorities) holds
  refine ⟨later, sifted, ?_⟩
  rcases found with ⟨nobody, empty, same⟩ | ⟨before, p, after, t, behind, split, skipped, listed, somebody, left⟩
  · exact Or.inl ⟨nobody, fun p low => empty p (List.mem_range.mpr low), same⟩
  · have place : before = List.range before.length ∧ p = before.length ∧ before.length < priorities := by
      have size := congrArg List.length split
      rw [List.length_range, List.length_append, List.length_cons] at size
      have low : before.length < priorities := by omega
      refine ⟨?_, ?_, low⟩
      · have taken := congrArg (List.take before.length) split
        rw [List.take_left, List.take_range, Nat.min_eq_left (Nat.le_of_lt low)] at taken
        exact taken.symm
      · have there := congrArg (fun order => order[before.length]?) split
        rw [List.getElem?_range low, List.getElem?_append_right (Nat.le_refl _), Nat.sub_self] at there
        exact (Option.some.inj there).symm
    obtain ⟨range, rfl, low⟩ := place
    refine Or.inr ⟨before.length, t, behind, low, ?_, listed, somebody, left⟩
    intro q less
    refine skipped q ?_
    rw [range]
    exact List.mem_range.mpr less

end Src32.Kernel.Sched
