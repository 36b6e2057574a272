import Mathlib.Data.List.Nodup
import Mathlib.Data.List.Range
import Src32.Kernel.BlkQueue

namespace Src32.Kernel.Blk

/-!
# The log of the disk

What the log of the kernel has to say of the requests, and what the driver has to keep
of the queue and of the controller.
-/

/-! ## The log -/

namespace Event

def accepts : Event -> Option Nat
  | accepted id _ _ => some id
  | _ => none

def completes : Event -> Option Nat
  | completed id _ => some id
  | _ => none

def drops : Event -> Option Nat
  | dropped id _ _ => some id
  | _ => none

/-- The process whose memory is used. -/
def touches : Event -> Option (ProcId × Nat)
  | started _ p l => some (p, l)
  | copiedIn _ p l => some (p, l)
  | copiedOut _ p l _ => some (p, l)
  | _ => none

/-- For which request of which process, in which life of its slot. -/
def uses : Event -> Option (Nat × ProcId × Nat)
  | started id p l => some (id, p, l)
  | copiedIn id p l => some (id, p, l)
  | copiedOut id p l _ => some (id, p, l)
  | dropped id p l => some (id, p, l)
  | _ => none

end Event

/-- What a log says, the earliest first. -/
def chron (f : Event -> Option Nat) (log : List Event) : List Nat := (log.filterMap f).reverse

theorem chron_cons (f : Event -> Option Nat) (e : Event) (log : List Event) : chron f (e :: log) = chron f log ++ (f e).toList := by
  unfold chron
  rw [List.filterMap_cons]
  cases f e with
  | none => exact (List.append_nil _).symm
  | some id => exact List.reverse_cons

theorem chron_none {f : Event -> Option Nat} {e : Event} (none : f e = .none) (log : List Event) : chron f (e :: log) = chron f log := by
  rw [chron_cons, none]
  exact List.append_nil _

theorem chron_append (f : Event -> Option Nat) (new log : List Event) : chron f (new ++ log) = chron f log ++ chron f new := by
  unfold chron
  rw [List.filterMap_append, List.reverse_append]

theorem chron_quiet {f : Event -> Option Nat} {new : List Event} (quiet : ∀ e ∈ new, f e = none) (log : List Event) :
    chron f (new ++ log) = chron f log := by
  rw [chron_append]
  unfold chron
  rw [List.filterMap_eq_nil_iff.mpr quiet]
  exact List.append_nil _

/-- Some of those that wait go; the others stay in their order. -/
theorem order_without {done ids all drops gone : List Nat} (order : done ++ ids = all.filter fun id => id ∉ drops) (nodup : all.Nodup)
    (inside : gone ⊆ ids) : (done ++ ids.filter fun id => id ∉ gone) = all.filter fun id => id ∉ drops ∧ id ∉ gone := by
  have unique : (done ++ ids).Nodup := by
    rw [order]
    exact nodup.filter _
  have apart := List.disjoint_of_nodup_append unique
  have kept : (done.filter fun id => id ∉ gone) = done := by
    apply List.filter_eq_self.mpr
    intro id member
    exact decide_eq_true fun went => apart member (inside went)
  calc (done ++ ids.filter fun id => id ∉ gone)
    _ = (done ++ ids).filter fun id => id ∉ gone := by rw [List.filter_append, kept]
    _ = (all.filter fun id => id ∉ drops).filter fun id => id ∉ gone := by rw [order]
    _ = all.filter fun id => id ∉ drops ∧ id ∉ gone := by
      rw [List.filter_filter]
      apply List.filter_congr
      intro id _
      rw [← Bool.decide_and]
      exact decide_eq_decide.mpr and_comm

/-- No memory is used after it was released. -/
def Safe : List Event -> Prop
  | [] => True
  | e :: log => (∀ x, e.touches = some x -> .released x.1 x.2 ∉ log) ∧ Safe log

theorem safe_append {new log : List Event} (quiet : ∀ e ∈ new, e.touches = none) (safe : Safe log) : Safe (new ++ log) := by
  induction new with
  | nil => exact safe
  | cons e new ih =>
    refine ⟨fun x same => ?_, ih fun other member => quiet other (List.mem_cons_of_mem e member)⟩
    rw [quiet e List.mem_cons_self] at same
    exact absurd same (Option.some_ne_none x).symm

section Driver

variable (vm : Bool) (bounceAddress : Word) (outcome : Nat -> Regs)

/-- The controller runs the command of a request, or has ended it. -/
def Serves (c : Controller) (r : Req) : Prop :=
  c.active = some ⟨r.id, Kern.dmaAddress vm bounceAddress r⟩ ∨ c.active = none ∧ c.regs = outcome r.id ∧ c.irq = true

/-- What holds of the queue. -/
structure Queued (s : Kern) : Prop where
  off : s.running = false -> s.controller.active = none
  on : s.running = true -> ∃ r rest, s.queue = r :: rest ∧ Serves vm bounceAddress outcome s.controller r ∧ (vm = true -> s.bounce = some r.id)
  waits : ∀ r ∈ s.queue, (s.thread r.thread).waits ∧ s.live (s.procOf r) = true
  distinct : (s.queue.map Req.thread).Nodup

/-- What holds of the log. -/
structure Logged (s : Kern) : Prop where
  accepted : chron Event.accepts s.log = List.range s.issued
  order : chron Event.completes s.log ++ s.queue.map Req.id =
    (chron Event.accepts s.log).filter fun id => id ∉ chron Event.drops s.log
  dropped : ∀ id ∈ chron Event.drops s.log, id < s.issued
  results : ∀ id result, .completed id result ∈ s.log -> result = idcResult (outcome id)
  safe : Safe s.log
  past : ∀ p l, .released p l ∈ s.log -> l < s.life p ∨ l = s.life p ∧ s.live p = false
  own : ∀ id p l source, .copiedOut id p l source ∈ s.log -> source = some id

variable {vm bounceAddress outcome}

/-- An event that only uses the memory of a live process. -/
theorem Logged.touch {s : Kern} (logged : Logged outcome s) {e : Event} {p : ProcId} (touches : e.touches = some (p, s.life p))
    (live : s.live p = true) (own : ∀ id p l source, e = .copiedOut id p l source -> source = some id) : Logged outcome (s.note e) := by
  have quiet : e.accepts = none ∧ e.completes = none ∧ e.drops = none ∧ (∀ q l, e ≠ .released q l) ∧ ∀ id result, e ≠ .completed id result := by
    cases e with
    | started _ _ _ | copiedIn _ _ _ | copiedOut _ _ _ _ =>
      exact ⟨rfl, rfl, rfl, fun _ _ => Event.noConfusion, fun _ _ => Event.noConfusion⟩
    | accepted _ _ _ | completed _ _ | dropped _ _ _ | released _ _ => cases touches
  obtain ⟨accepts, completes, drops, released, completed⟩ := quiet
  refine ⟨(chron_none accepts s.log).trans logged.accepted, ?_, ?_, ?_, ⟨?_, logged.safe⟩, ?_, ?_⟩
  · change chron Event.completes (e :: s.log) ++ s.queue.map Req.id =
      (chron Event.accepts (e :: s.log)).filter fun id => id ∉ chron Event.drops (e :: s.log)
    rw [chron_none accepts, chron_none completes, chron_none drops]
    exact logged.order
  · intro id member
    rw [show (s.note e).log = e :: s.log from rfl, chron_none drops] at member
    exact logged.dropped id member
  · intro id result member
    rcases List.mem_cons.mp member with same | later
    · exact absurd same.symm (completed id result)
    · exact logged.results id result later
  · intro x same member
    rw [touches] at same
    cases same
    rcases logged.past _ _ member with less | ⟨_, dead⟩
    · exact Nat.lt_irrefl _ less
    · rw [live] at dead
      cases dead
  · intro q l member
    rcases List.mem_cons.mp member with same | later
    · exact absurd same.symm (released q l)
    · exact logged.past q l later
  · intro id q l source member
    rcases List.mem_cons.mp member with same | later
    · exact own id q l source same.symm
    · exact logged.own id q l source later

/-- The log does not depend on the rest. -/
theorem Logged.congr {s other : Kern} (logged : Logged outcome s) (log : other.log = s.log) (queue : other.queue = s.queue)
    (issued : other.issued = s.issued) (live : other.live = s.live) (life : other.life = s.life) : Logged outcome other := by
  refine ⟨?_, ?_, ?_, ?_, ?_, ?_, ?_⟩
  · rw [log, issued]
    exact logged.accepted
  · rw [log, queue]
    exact logged.order
  · rw [log, issued]
    exact logged.dropped
  · rw [log]
    exact logged.results
  · rw [log]
    exact logged.safe
  · rw [log, live, life]
    exact logged.past
  · rw [log]
    exact logged.own

variable {s : Kern}

/-- Requests are numbered once. -/
theorem Logged.ids (logged : Logged outcome s) : (chron Event.completes s.log ++ s.queue.map Req.id).Nodup := by
  rw [logged.order, logged.accepted]
  exact List.nodup_range.filter _

theorem Logged.queued_lt (logged : Logged outcome s) {id : Nat} (member : id ∈ s.queue.map Req.id) : id < s.issued := by
  have inside : id ∈ chron Event.completes s.log ++ s.queue.map Req.id := List.mem_append_right _ member
  rw [logged.order, logged.accepted] at inside
  exact List.mem_range.mp (List.mem_of_mem_filter inside)

/-- Requests of a process are dropped. -/
theorem Logged.drop (logged : Logged outcome s) {other : Kern} {p : ProcId} {gone : List Req}
    (log : other.log = (gone.map fun r => .dropped r.id p (s.life p)) ++ s.log) (inside : gone ⊆ s.queue)
    (queue : other.queue.map Req.id = (s.queue.map Req.id).filter fun id => id ∉ gone.map Req.id) (issued : other.issued = s.issued)
    (live : other.live = s.live) (life : other.life = s.life) : Logged outcome other := by
  have fresh : ∀ e ∈ gone.map fun r => Event.dropped r.id p (s.life p), ∃ id, e = .dropped id p (s.life p) := by
    intro e member
    obtain ⟨r, _, same⟩ := List.mem_map.mp member
    exact ⟨r.id, same.symm⟩
  have quiet : ∀ e ∈ gone.map fun r => Event.dropped r.id p (s.life p), e.accepts = none ∧ e.completes = none ∧ e.touches = none := by
    intro e member
    obtain ⟨id, rfl⟩ := fresh e member
    exact ⟨rfl, rfl, rfl⟩
  have accepts : chron Event.accepts other.log = chron Event.accepts s.log := by
    rw [log]
    exact chron_quiet (fun e member => (quiet e member).1) s.log
  have completes : chron Event.completes other.log = chron Event.completes s.log := by
    rw [log]
    exact chron_quiet (fun e member => (quiet e member).2.1) s.log
  have drops : ∀ id, id ∈ chron Event.drops other.log ↔ id ∈ chron Event.drops s.log ∨ id ∈ gone.map Req.id := by
    intro id
    have told : chron Event.drops (gone.map fun r => .dropped r.id p (s.life p)) = (gone.map Req.id).reverse := by
      unfold chron
      rw [List.filterMap_map]
      exact congrArg List.reverse (congrFun (@List.filterMap_eq_map _ _ Req.id) gone)
    rw [log, chron_append, List.mem_append, told, List.mem_reverse]
  have later : ∀ e ∈ other.log, (∀ id, e ≠ .dropped id p (s.life p)) -> e ∈ s.log := by
    intro e member differs
    rw [log] at member
    rcases List.mem_append.mp member with new | old
    · obtain ⟨id, same⟩ := fresh e new
      exact absurd same (differs id)
    · exact old
  refine ⟨?_, ?_, ?_, ?_, ?_, ?_, ?_⟩
  · rw [accepts, issued]
    exact logged.accepted
  · have inside' : gone.map Req.id ⊆ s.queue.map Req.id := List.map_subset Req.id inside
    have nodup : (chron Event.accepts s.log).Nodup := by
      rw [logged.accepted]
      exact List.nodup_range
    rw [completes, accepts, queue, order_without logged.order nodup inside']
    apply List.filter_congr
    intro id _
    apply decide_eq_decide.mpr
    rw [drops id, not_or]
  · intro id member
    rw [issued]
    rcases (drops id).mp member with before | went
    · exact logged.dropped id before
    · exact logged.queued_lt (List.map_subset Req.id inside went)
  · intro id result member
    exact logged.results id result (later _ member fun _ => Event.noConfusion)
  · rw [log]
    exact safe_append (fun e member => (quiet e member).2.2) logged.safe
  · intro q l member
    rw [live, life]
    exact logged.past q l (later _ member fun _ => Event.noConfusion)
  · intro id q l source member
    exact logged.own id q l source (later _ member fun _ => Event.noConfusion)

end Driver

end Src32.Kernel.Blk
