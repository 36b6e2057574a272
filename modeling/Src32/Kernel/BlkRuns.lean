import Mathlib.Data.List.Sort
import Src32.Kernel.BlkCalls

namespace Src32.Kernel.Blk

/-!
# Every request is answered once

A request that is accepted completes in its turn with the result of its own command,
unless its process exits before.  The memory of a process that has exited is left alone.
-/

section Runs

variable {vm : Bool} {bounceAddress : Word} {outcome : Nat -> Regs} {s : Kern}

/-! ## One step -/

theorem sound_start (begins : (system vm bounceAddress outcome).initial s) : Sound vm bounceAddress outcome s := by
  obtain ⟨queue, running, active, issued, log⟩ := begins
  have none : ∀ r, r ∉ s.queue := by
    intro r member
    rw [queue] at member
    cases member
  have silent : ∀ e, e ∉ s.log := by
    intro e member
    rw [log] at member
    cases member
  refine ⟨⟨fun _ => active, fun on => ?_, fun r member => absurd member (none r), ?_⟩, ⟨?_, ?_, ?_, ?_, ?_, ?_, ?_⟩, fun some => absurd queue some,
    fun _ _ _ member => absurd member (silent _), ⟨fun r member => absurd member (none r), fun e member => absurd member (silent e)⟩⟩
  · exact absurd (running.symm.trans on) Bool.false_ne_true
  · rw [queue]
    exact List.nodup_nil
  · rw [log, issued]
    rfl
  · rw [log, queue]
    rfl
  · intro id member
    rw [log] at member
    cases member
  · exact fun _ _ member => absurd member (silent _)
  · rw [log]
    trivial
  · exact fun _ _ member => absurd member (silent _)
  · exact fun _ _ _ _ member => absurd member (silent _)

/-- A slot that is used again has no request left. -/
theorem spawn_sound (sound : Sound vm bounceAddress outcome s) {p : ProcId} (dead : s.live p = false) :
    Sound vm bounceAddress outcome { s with live := Function.update s.live p true, life := Function.update s.life p (s.life p + 1) } := by
  have apart : ∀ r ∈ s.queue, s.procOf r ≠ p := by
    intro r member same
    have live := (sound.queued.waits r member).2
    rw [same, dead] at live
    cases live
  refine ⟨⟨sound.queued.off, sound.queued.on, fun r member => ⟨(sound.queued.waits r member).1, ?_⟩, sound.queued.distinct⟩,
    ⟨sound.logged.accepted, sound.logged.order, sound.logged.dropped, sound.logged.results, sound.logged.safe, fun q l member => ?_,
      sound.logged.own⟩, sound.busy, sound.released, ⟨fun r member => ?_, sound.owned.events⟩⟩
  · exact (Function.update_of_ne (apart r member) _ _).trans (sound.queued.waits r member).2
  · dsimp only
    have before := sound.logged.past q l member
    by_cases same : q = p
    · subst same
      rw [Function.update_self]
      omega
    · rw [Function.update_of_ne same, Function.update_of_ne same]
      exact before
  · change .accepted r.id (s.procOf r) (Function.update s.life p (s.life p + 1) (s.procOf r)) ∈ s.log
    rw [Function.update_of_ne (apart r member)]
    exact sound.owned.queued r member

/-- One step of the kernel or of its controller. -/
theorem step_sound (sound : Sound vm bounceAddress outcome s) {label : Label} {other : Kern}
    (step : Step vm bounceAddress outcome s label other) : Sound vm bounceAddress outcome other ∧ Follows s other := by
  have stays : Follows s s := .shorter rfl (List.Sublist.refl _)
  cases step with
  | io c runs live => exact handleBlkIo_sound sound c runs live
  | irq =>
    have advances := blkIrq_advances sound.queued sound.logged sound.busy
    exact ⟨sound.advances advances, .shorter advances.onward.issued advances.onward.queue.sublist⟩
  | @exit p live =>
    obtain ⟨after, issued, queue⟩ := @procExit_sound vm bounceAddress outcome s p sound
    exact ⟨after, .shorter issued queue⟩
  | ends =>
    refine ⟨⟨⟨fun _ => await_rests s.controller, fun on => ?_, sound.queued.waits, sound.queued.distinct⟩,
      sound.logged.congr rfl rfl rfl rfl rfl, sound.busy, sound.released, sound.owned.queued, sound.owned.events⟩, stays.issued, stays.queue⟩
    obtain ⟨r, rest, first, serves, owner⟩ := sound.queued.on on
    exact ⟨r, rest, first, serves.ends, owner⟩
  | spawn dead => exact ⟨spawn_sound sound dead, stays.issued, stays.queue⟩
  | @create t p slot live =>
    refine ⟨setThread_sound sound (fun waits => ?_) _, stays.issued, stays.queue⟩
    rcases slot with free | dead
    · exact ThreadState.noConfusion (free.symm.trans waits.1)
    · exact ThreadState.noConfusion (dead.symm.trans waits.1)
  | other before _ _ => exact ⟨setThread_sound sound before _, stays.issued, stays.queue⟩

theorem reachable_sound (reached : (system vm bounceAddress outcome).Reachable s) : Sound vm bounceAddress outcome s :=
  reached.invariant (fun _ begins => sound_start begins) fun _ _ _ sound step => (step_sound sound step).1

/-! ## Progress -/

/-- The requests of the queue with a number less than `n`. -/
def waiting (s : Kern) (n : Nat) : Nat := s.queue.countP fun r => r.id < n

theorem Follows.waiting {other : Kern} (follows : Follows s other) {n : Nat} (old : n ≤ s.issued) : waiting other n ≤ waiting s n := by
  obtain ⟨new, queue, later⟩ := follows.queue
  have none : (new.countP fun r => r.id < n) = 0 := by
    apply List.countP_eq_zero.mpr
    intro r member
    have high := later r member
    rw [decide_eq_true_iff]
    omega
  have joined := queue.countP_le (p := fun r => r.id < n)
  rw [List.countP_append, none, Nat.add_zero] at joined
  exact joined

/-- The queue is in the order of its numbers. -/
theorem Logged.sorted (logged : Logged outcome s) : (s.queue.map Req.id).Pairwise (· < ·) := by
  have whole : (chron Event.completes s.log ++ s.queue.map Req.id).Pairwise (· < ·) := by
    rw [logged.order, logged.accepted]
    exact List.pairwise_lt_range.filter _
  exact (List.pairwise_append.mp whole).2.1

/-- An interrupt completes one of the oldest. -/
theorem irq_waiting (sound : Sound vm bounceAddress outcome s) (n : Nat) :
    waiting (s.blkIrq vm bounceAddress outcome) n ≤ waiting s n - 1 := by
  cases first : s.queue with
  | nil =>
    have queue := (blkIrq_advances sound.queued sound.logged sound.busy).onward.queue
    rw [first, List.suffix_nil] at queue
    unfold waiting
    rw [queue]
    exact Nat.zero_le _
  | cons r rest =>
    have on : s.running = true := sound.busy (by rw [first]; exact List.cons_ne_nil r rest)
    have queue := (blkIrq_completes sound.queued sound.logged on first).2.1
    have fewer : waiting (s.blkIrq vm bounceAddress outcome) n ≤ rest.countP fun r => r.id < n := queue.sublist.countP_le
    have split : waiting s n = (rest.countP fun r => r.id < n) + if r.id < n then 1 else 0 := by
      unfold waiting
      rw [first, List.countP_cons]
      simp only [decide_eq_true_eq]
    by_cases old : r.id < n
    · rw [if_pos old] at split
      omega
    · have none : (rest.countP fun r => r.id < n) = 0 := by
        apply List.countP_eq_zero.mpr
        intro other member
        have sorted := sound.logged.sorted
        rw [first, List.map_cons, List.pairwise_cons] at sorted
        have behind := sorted.1 other.id (List.mem_map_of_mem member)
        rw [decide_eq_true_iff]
        omega
      omega

/-- A run with so many interrupts of the disk. -/
inductive Lasts (vm : Bool) (bounceAddress : Word) (outcome : Nat -> Regs) (s : Kern) : Nat -> Kern -> Prop where
  | start : Lasts vm bounceAddress outcome s 0 s
  | irq {n : Nat} {mid other : Kern} (run : Lasts vm bounceAddress outcome s n mid) (step : Step vm bounceAddress outcome mid .irq other) :
      Lasts vm bounceAddress outcome s (n + 1) other
  | step {n : Nat} {label : Label} {mid other : Kern} (run : Lasts vm bounceAddress outcome s n mid)
      (step : Step vm bounceAddress outcome mid label other) : Lasts vm bounceAddress outcome s n other

theorem lasts_waiting (sound : Sound vm bounceAddress outcome s) {n : Nat} {other : Kern} (run : Lasts vm bounceAddress outcome s n other) :
    Sound vm bounceAddress outcome other ∧ s.issued ≤ other.issued ∧ waiting other s.issued ≤ s.queue.length - n := by
  induction run with
  | start => exact ⟨sound, Nat.le_refl _, List.countP_le_length⟩
  | irq run step ih =>
    obtain ⟨before, issued, few⟩ := ih
    obtain ⟨after, follows⟩ := step_sound before step
    cases step
    have fewer := irq_waiting before s.issued
    refine ⟨after, issued.trans follows.issued, ?_⟩
    omega
  | step run step ih =>
    obtain ⟨before, issued, few⟩ := ih
    obtain ⟨after, follows⟩ := step_sound before step
    exact ⟨after, issued.trans follows.issued, (follows.waiting issued).trans few⟩

/-- Who is not queued any more is answered, or its process has exited. -/
theorem Logged.settled (logged : Logged outcome s) {id : Nat} (known : id < s.issued) (gone : id ∉ s.queue.map Req.id) :
    id ∈ chron Event.completes s.log ∨ id ∈ chron Event.drops s.log := by
  by_cases dropped : id ∈ chron Event.drops s.log
  · exact .inr dropped
  · have inside : id ∈ (chron Event.accepts s.log).filter fun id => id ∉ chron Event.drops s.log := by
      rw [logged.accepted]
      exact List.mem_filter.mpr ⟨List.mem_range.mpr known, decide_eq_true dropped⟩
    rw [← logged.order] at inside
    rcases List.mem_append.mp inside with completed | queued
    · exact .inl completed
    · exact absurd queued gone

/-- What is told of a number once is one event. -/
theorem told_once {f : Event -> Option Nat} {log : List Event} (once : (log.filterMap f).Nodup) {first second : Event} {id : Nat}
    (left : first ∈ log) (right : second ∈ log) (one : f first = some id) (two : f second = some id) : first = second := by
  induction log with
  | nil => cases left
  | cons e log ih =>
    have inside : ∀ other ∈ log, f other = some id -> id ∈ log.filterMap f := fun other member same =>
      List.mem_filterMap.mpr ⟨other, member, same⟩
    rcases List.mem_cons.mp left with rfl | early
    · rcases List.mem_cons.mp right with rfl | late
      · rfl
      · rw [List.filterMap_cons_some one, List.nodup_cons] at once
        exact absurd (inside second late two) once.1
    · rcases List.mem_cons.mp right with rfl | late
      · rw [List.filterMap_cons_some two, List.nodup_cons] at once
        exact absurd (inside first early one) once.1
      · exact ih (once.sublist ((List.sublist_cons_self e log).filterMap f)) early late

/-- With its process the requests of a life are gone. -/
theorem exited_settled (sound : Sound vm bounceAddress outcome s) {id l : Nat} {p : ProcId} (accepted : .accepted id p l ∈ s.log)
    (released : .released p l ∈ s.log) : id ∈ chron Event.completes s.log ∨ id ∈ chron Event.drops s.log := by
  have once : (s.log.filterMap Event.accepts).Nodup := by
    rw [← List.nodup_reverse]
    change (chron Event.accepts s.log).Nodup
    rw [sound.logged.accepted]
    exact List.nodup_range
  have known : id < s.issued := by
    have inside : id ∈ chron Event.accepts s.log := List.mem_reverse.mpr (List.mem_filterMap.mpr ⟨_, accepted, rfl⟩)
    rw [sound.logged.accepted] at inside
    exact List.mem_range.mp inside
  refine sound.logged.settled known fun queued => ?_
  obtain ⟨r, member, rfl⟩ := List.mem_map.mp queued
  have same := told_once once accepted (sound.owned.queued r member) rfl rfl
  cases same
  have live := (sound.queued.waits r member).2
  rcases sound.logged.past _ _ released with less | ⟨_, dead⟩
  · exact Nat.lt_irrefl _ less
  · rw [live] at dead
    cases dead

/-! ## The queue over all runs -/

/-- A kernel with one process, before its first request. -/
def quiet : Kern where
  queue := []
  running := false
  controller := ⟨none, ⟨false, false, 0⟩, false⟩
  bounce := none
  thread := fun _ => ⟨0, .running, .none, 0⟩
  live := fun _ => true
  life := fun _ => 0
  issued := 0
  log := []

/-- Reads a sector. -/
def readSector : Kern.IoCall := ⟨true, 0x1000, 0, 1, 0, 1, 0x2000, 0, fun _ _ _ => true⟩

end Runs

end Src32.Kernel.Blk
