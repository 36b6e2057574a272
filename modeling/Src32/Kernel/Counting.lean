import Src32.Kernel.Steps
import Src32.Lib.Tally

namespace Src32.Kernel.Ipc

open Function (update update_self update_of_ne update_idem)

/-!
# Counted references

The count of every object is the number of handles that name it, and what the
tables of the kernel say about objects in use agrees with the counts.  Every
move keeps this.
-/

variable {k next : Ipc} {t : ThreadId} {p : PortId} {c : ChanId} {o : Obj}

/-- The channel has a CLIENT_GONE for the port. -/
def GonePending (k : Ipc) (c : ChanId) (p : PortId) : Prop :=
  (k.chans c).used = true ∧ (k.chans c).refs = 0 ∧ (k.chans c).port = some p

/-- The lists of pending CLIENT_GONE of the ports in use hold the channels that
have one. -/
def GoneListed (k : Ipc) : Prop :=
  ∃ items, (k.gone.within fun p => (k.ports p).used).Holds items ∧ ∀ c p, c ∈ items p ↔ k.GonePending c p

structure Counted (k : Ipc) : Prop where
  exact : ∀ o, k.refs o = tally k.handles o
  ports : ∀ p, (k.ports p).used = true ↔ 0 < (k.ports p).refs
  chans : ∀ c, 0 < (k.chans c).refs -> (k.chans c).used = true
  pending : ∀ c, (k.chans c).used = true -> (k.chans c).refs = 0 -> (k.chans c).port ≠ none
  behind : ∀ c p, (k.chans c).used = true -> (k.chans c).port = some p -> (k.ports p).used = true
  gone : k.GoneListed
  free : ∀ p, (k.procs p).state = .free -> (k.procs p).refs = 0
  services : ∀ i p, (k.services i).port = some p -> (k.ports p).used = true
  owned : ∀ t, (k.thread t).active = true -> ∃ p, (k.thread t).proc = some p ∧ (k.procs p).state = .live
  waits : ∀ t p, k.AtPort t p -> (k.ports p).used = true

/-- Only live processes have handles, except for one that is ending. -/
def Tables (k : Ipc) (ending : Option ProcId) : Prop :=
  ∀ p, some p ≠ ending -> (k.procs p).state ≠ .live -> ∀ i, k.handles (p, i) = none

/-! ## What is counted -/

theorem Counted.named (counted : k.Counted) : k.Named o ↔ 0 < k.refs o := by
  rw [counted.exact o, tally_pos]
  exact Iff.rfl

theorem Counted.backed (counted : k.Counted) : k.Backed := fun _ named => counted.named.mp named

theorem Counted.portNamed (counted : k.Counted) : k.Named (.port p) ↔ (k.ports p).used = true :=
  counted.named.trans (counted.ports p).symm

theorem Counted.portKnown (counted : k.Counted) (known : k.PortKnown p) : (k.ports p).used = true := by
  rcases known with named | ⟨t, waits⟩
  · exact counted.portNamed.mp named
  · exact counted.waits t p waits

theorem Counted.hosts (counted : k.Counted) {p : ProcId} (hosts : k.Hosts p) : (k.procs p).state = .live := by
  rcases hosts with live | ⟨t, active, own⟩
  · exact live
  · obtain ⟨q, same, live⟩ := counted.owned t active
    unfold procOf at own
    rw [same] at own
    exact own ▸ live

theorem Counted.grounded (counted : k.Counted) : k.Grounded where
  backed := counted.backed
  free := counted.free
  services := fun i q port => counted.portNamed.mpr (counted.services i q port)
  owned := counted.owned

/-! ## Frames -/

theorem atPort_congr {u : ThreadId} (same : ∀ reason, next.waitsAt u reason p = k.waitsAt u reason p) :
    next.AtPort u p ↔ k.AtPort u p := by
  unfold AtPort
  rw [same, same, same]

/-- The objects and the tables stay and only threads change. -/
structure Framed (k next : Ipc) : Prop where
  handles : next.handles = k.handles
  counts : next.refs = k.refs
  ports : ∀ p, (next.ports p).used = (k.ports p).used
  chans : ∀ c, (next.chans c).used = (k.chans c).used ∧ (next.chans c).port = (k.chans c).port
  gone : next.gone = k.gone
  services : ∀ i p, (next.services i).port = some p -> (k.services i).port = some p ∨ k.Named (.port p)
  states : ∀ p, (next.procs p).state = (k.procs p).state

theorem Framed.used (framed : Framed k next) : (fun p => (next.ports p).used) = fun p => (k.ports p).used :=
  funext framed.ports

theorem Framed.portRefs (framed : Framed k next) (p : PortId) : (next.ports p).refs = (k.ports p).refs :=
  congrFun framed.counts (.port p)

theorem Framed.chanRefs (framed : Framed k next) (c : ChanId) : (next.chans c).refs = (k.chans c).refs :=
  congrFun framed.counts (.chan c)

theorem Framed.procRefs (framed : Framed k next) (p : ProcId) : (next.procs p).refs = (k.procs p).refs :=
  congrFun framed.counts (.proc p)

theorem Framed.pending (framed : Framed k next) : next.GonePending c p ↔ k.GonePending c p := by
  unfold GonePending
  rw [(framed.chans c).1, (framed.chans c).2, framed.chanRefs]

/-- A change of threads keeps the counts if those that run or wait belong to
live processes and wait at ports in use. -/
theorem Counted.framed (counted : k.Counted) (framed : Framed k next)
    (owned : ∀ t, (next.thread t).active = true -> ∃ p, (next.thread t).proc = some p ∧ (k.procs p).state = .live)
    (waits : ∀ t p, next.AtPort t p -> (k.ports p).used = true) : next.Counted where
  exact := by
    intro o
    rw [framed.counts, framed.handles]
    exact counted.exact o
  ports := by
    intro p
    rw [framed.ports, framed.portRefs]
    exact counted.ports p
  chans := by
    intro c
    rw [framed.chanRefs, (framed.chans c).1]
    exact counted.chans c
  pending := by
    intro c
    rw [framed.chanRefs, (framed.chans c).1, (framed.chans c).2]
    exact counted.pending c
  behind := by
    intro c p
    rw [framed.ports, (framed.chans c).1, (framed.chans c).2]
    exact counted.behind c p
  gone := by
    obtain ⟨items, holds, listed⟩ := counted.gone
    refine ⟨items, ?_, fun c p => (listed c p).trans framed.pending.symm⟩
    rw [framed.gone, framed.used]
    exact holds
  free := by
    intro p
    rw [framed.states, framed.procRefs]
    exact counted.free p
  services := by
    intro i p port
    rw [framed.ports]
    rcases framed.services i p port with before | named
    · exact counted.services i p before
    · exact counted.portNamed.mp named
  owned := by
    intro t active
    obtain ⟨p, own, live⟩ := owned t active
    exact ⟨p, own, (framed.states p).trans live⟩
  waits := by
    intro t p at_
    rw [framed.ports]
    exact waits t p at_

variable {changed : Thread} {ending : Option ProcId}

/-- One thread changes: the others belong and wait as before. -/
theorem Counted.thread (counted : k.Counted) (framed : Framed k next)
    (threads : next.thread = update k.thread t changed)
    (owned : changed.active = true -> ∃ p, changed.proc = some p ∧ (k.procs p).state = .live)
    (waits : ∀ p, next.AtPort t p -> (k.ports p).used = true) : next.Counted := by
  refine counted.framed framed (fun u active => ?_) fun u p at_ => ?_
  · rw [threads] at active ⊢
    by_cases same : u = t
    · subst same
      rw [update_self] at active ⊢
      exact owned active
    · rw [update_of_ne same] at active ⊢
      exact counted.owned u active
  · by_cases same : u = t
    · subst same
      exact waits p at_
    · refine counted.waits u p ((atPort_congr fun reason => ?_).mp at_)
      unfold waitsAt
      rw [threads, update_of_ne same]

/-! ## Moves of threads -/

theorem refs_congr (threads : ∀ u, (next.thread u).refs = (k.thread u).refs)
    (ports : ∀ p, (next.ports p).refs = (k.ports p).refs) (chans : ∀ c, (next.chans c).refs = (k.chans c).refs)
    (procs : ∀ p, (next.procs p).refs = (k.procs p).refs) : next.refs = k.refs := by
  funext o
  cases o with
  | port p => exact ports p
  | chan c => exact chans c
  | thread u => exact threads u
  | proc p => exact procs p

theorem Quiet.framed (quiet : Quiet k next) : Framed k next where
  handles := quiet.handles
  counts := by
    refine refs_congr (fun u => (quiet.threads u).refs) ?_ ?_ quiet.counts
    · intro p
      rw [quiet.ports]
    · intro c
      rw [quiet.chans]
  ports := by
    intro p
    rw [quiet.ports]
  chans := by
    intro c
    rw [quiet.chans]
    exact ⟨rfl, rfl⟩
  gone := quiet.gone
  services := by
    intro i p
    rw [quiet.services]
    exact Or.inl
  states := quiet.states

theorem Counted.quiet (counted : k.Counted) (quiet : Quiet k next) : next.Counted := by
  refine counted.framed quiet.framed (fun t active => ?_) fun t p at_ => ?_
  · have before := (quiet.threads t).active.symm.trans active
    rw [(quiet.threads t).proc before]
    exact counted.owned t before
  · exact counted.waits t p ((atPort_congr fun reason => quiet.waitsAt t reason p).mp at_)

/-- Only the threads of the scheduler change. -/
theorem framed_sched {sched : Sched} (counts : ∀ u, (sched.threads u).refs = (k.thread u).refs) :
    Framed k { k with sched := sched } where
  handles := rfl
  counts := refs_congr counts (fun _ => rfl) (fun _ => rfl) fun _ => rfl
  ports := fun _ => rfl
  chans := fun _ => ⟨rfl, rfl⟩
  gone := rfl
  services := fun _ _ port => Or.inl port
  states := fun _ => rfl

theorem framed_thread {sched : Sched} (threads : sched.threads = update k.thread t changed)
    (refs : changed.refs = (k.thread t).refs) : Framed k { k with sched := sched } := by
  refine framed_sched fun u => ?_
  rw [threads]
  by_cases same : u = t
  · subst same
    rw [update_self]
    exact refs
  · rw [update_of_ne same]

/-- A thread that does not wait is at no port. -/
theorem atPort_blocked (at_ : k.AtPort t p) : (k.thread t).state = .blocked := by
  rcases at_ with sends | replies | receives
  · exact (waitsAt_iff.mp sends).1
  · exact (waitsAt_iff.mp replies).1
  · exact (waitsAt_iff.mp receives).1

theorem atPort_reason (at_ : k.AtPort t p) :
    ((k.thread t).reason = .send ∨ (k.thread t).reason = .reply ∨ (k.thread t).reason = .recv) ∧
      (k.thread t).port = some p := by
  rcases at_ with sends | replies | receives
  · exact ⟨Or.inl (waitsAt_iff.mp sends).2.1, (waitsAt_iff.mp sends).2.2⟩
  · exact ⟨Or.inr (Or.inl (waitsAt_iff.mp replies).2.1), (waitsAt_iff.mp replies).2.2⟩
  · exact ⟨Or.inr (Or.inr (waitsAt_iff.mp receives).2.1), (waitsAt_iff.mp receives).2.2⟩

/-- The scheduler changes one thread, which then waits at no port. -/
theorem Counted.sched (counted : k.Counted) {sched : Sched} (threads : sched.threads = update k.thread t changed)
    (refs : changed.refs = (k.thread t).refs)
    (owned : changed.active = true -> ∃ p, changed.proc = some p ∧ (k.procs p).state = .live)
    (away : changed.state = .blocked -> changed.reason ≠ .send ∧ changed.reason ≠ .reply ∧ changed.reason ≠ .recv) :
    ({ k with sched := sched } : Ipc).Counted := by
  refine counted.thread (framed_thread threads refs) threads owned fun p at_ => ?_
  have self : ({ k with sched := sched } : Ipc).thread t = changed := by
    unfold Ipc.thread
    rw [threads, update_self]
  have blocked := atPort_blocked at_
  obtain ⟨reason, _⟩ := atPort_reason at_
  rw [self] at blocked reason
  obtain ⟨notSend, notReply, notRecv⟩ := away blocked
  rcases reason with sends | replies | receives
  · exact absurd sends notSend
  · exact absurd replies notReply
  · exact absurd receives notRecv

theorem Counted.wake (counted : k.Counted) (blocked : (k.thread t).state = .blocked) (result : Word) :
    (k.wake t result).Counted := by
  have owned := counted.owned t (Thread.active_blocked blocked)
  exact counted.sched (Sched.wake_threads k.sched t result) rfl (fun _ => owned) nofun

theorem Counted.block (counted : k.Counted) (runs : (k.thread t).state = .running) {reason : Reason}
    (other : reason ≠ .send ∧ reason ≠ .reply ∧ reason ≠ .recv) (timeout : Word) :
    (k.block t reason timeout).Counted := by
  have owned := counted.owned t (Thread.active_running runs)
  exact counted.sched (Sched.block_threads k.sched t reason timeout) rfl (fun _ => owned) fun _ => other

theorem Counted.die (counted : k.Counted) (code : Word) :
    (k.modifyThread t fun thread => { thread with exitCode := code, state := .dead }).Counted :=
  counted.sched (t := t) rfl rfl nofun nofun

theorem Counted.makeReady (counted : k.Counted) (hosts : ∃ p, (k.thread t).proc = some p ∧ k.Hosts p) :
    ({ k with sched := k.sched.makeReady t } : Ipc).Counted := by
  obtain ⟨priority, threads⟩ := Sched.makeReady_threads (s := k.sched) (t := t)
  obtain ⟨p, own, live⟩ := hosts
  exact counted.sched threads rfl (fun _ => ⟨p, own, counted.hosts live⟩) nofun

/-- Only lines, their mask and the accesses change. -/
structure LinesOnly (k next : Ipc) : Prop where
  rest : next = { k with irqs := next.irqs, irqPendingMask := next.irqPendingMask, history := next.history }
  history : next.history = { k.history with accesses := next.history.accesses }

theorem LinesOnly.refl (k : Ipc) : LinesOnly k k := ⟨rfl, rfl⟩

theorem LinesOnly.trans {third : Ipc} (first : LinesOnly k next) (second : LinesOnly next third) :
    LinesOnly k third := by
  refine ⟨?_, ?_⟩
  · rw [second.rest, first.rest]
  · rw [second.history, first.history]

theorem linesOnly_irqSetPending (k : Ipc) (irq : Irq) (pending : Bool) : LinesOnly k (k.irqSetPending irq pending) :=
  ⟨rfl, rfl⟩

theorem linesOnly_irqs (k : Ipc) (irqs : Irq -> IrqBinding) : LinesOnly k { k with irqs := irqs } := ⟨rfl, rfl⟩

theorem linesOnly_touch (k : Ipc) (proc : Option ProcId) (addr len perm : Word) :
    LinesOnly k (k.touch proc addr len perm) := ⟨rfl, rfl⟩

theorem linesOnly_deliverIrq (k : Ipc) (receiver : ThreadId) (irq : Irq) : LinesOnly k (k.deliverIrq receiver irq) := by
  unfold Ipc.deliverIrq writeRecv
  dsimp only
  exact (((linesOnly_touch ..).trans (linesOnly_touch ..)).trans (linesOnly_irqSetPending ..)).trans (linesOnly_irqs ..)

theorem linesOnly_irqRelease (k : Ipc) (irq : Irq) : LinesOnly k (k.irqRelease irq) := by
  unfold Ipc.irqRelease
  dsimp only
  exact ((linesOnly_irqs ..).trans (linesOnly_irqSetPending ..)).trans (linesOnly_irqs ..)

theorem LinesOnly.sched (only : LinesOnly k next) : next.sched = k.sched := by
  rw [only.rest]

theorem LinesOnly.thread (only : LinesOnly k next) : next.thread = k.thread := congrArg Sched.threads only.sched

theorem LinesOnly.waitsAt (only : LinesOnly k next) (t : ThreadId) (reason : Reason) (p : PortId) :
    next.waitsAt t reason p = k.waitsAt t reason p := by
  unfold Ipc.waitsAt
  rw [only.thread]

theorem LinesOnly.tables (only : LinesOnly k next) : next.handles = k.handles ∧ next.procs = k.procs := by
  rw [only.rest]
  exact ⟨rfl, rfl⟩

/-- IRQs are not counted. -/
theorem Counted.lines (counted : k.Counted) (only : LinesOnly k next) : next.Counted := by
  rw [only.rest]
  generalize next.irqs = irqs
  generalize next.irqPendingMask = mask
  generalize next.history = history
  have counts : ({ k with irqs := irqs, irqPendingMask := mask, history := history } : Ipc).refs = k.refs :=
    refs_congr (fun _ => rfl) (fun _ => rfl) (fun _ => rfl) fun _ => rfl
  exact counted.framed ⟨rfl, counts, fun _ => rfl, fun _ => ⟨rfl, rfl⟩, rfl, fun _ _ => Or.inl, fun _ => rfl⟩
    counted.owned counted.waits

/-- A line that fires is pending, or it is with a waiting receiver at once. -/
theorem irqNotify_cases (k : Ipc) (irq : Irq) :
    k.irqNotify irq = k ∨ ∃ p, (k.irqs irq).port = some p ∧
      (((k.irqSetPending irq true).findReceiver p = none ∧ k.irqNotify irq = k.irqSetPending irq true) ∨
        ∃ t, (k.irqSetPending irq true).findReceiver p = some t ∧
          k.irqNotify irq = ((k.irqSetPending irq true).deliverIrq t irq).wake t fndOk) := by
  unfold irqNotify
  split
  · next p _ port =>
      split
      · refine Or.inr ⟨p, port, ?_⟩
        dsimp only
        cases found : (k.irqSetPending irq true).findReceiver p with
        | none => exact Or.inl ⟨rfl, rfl⟩
        | some t => exact Or.inr ⟨t, rfl, rfl⟩
      · exact Or.inl rfl
  · exact Or.inl rfl

/-- A line that is delivered to a receiver wakes it. -/
theorem irqNotify_lines (k : Ipc) (irq : Irq) :
    LinesOnly k (k.irqNotify irq) ∨ ∃ lined t p, LinesOnly k lined ∧ lined.waitsAt t .recv p = true ∧
      k.irqNotify irq = lined.wake t fndOk := by
  rcases irqNotify_cases k irq with same | ⟨p, _, ⟨_, same⟩ | ⟨t, found, woken⟩⟩
  · rw [same]
    exact Or.inl (LinesOnly.refl k)
  · rw [same]
    exact Or.inl (linesOnly_irqSetPending ..)
  · have lines := linesOnly_deliverIrq (k.irqSetPending irq true) t irq
    refine Or.inr ⟨_, t, p, (linesOnly_irqSetPending ..).trans lines, ?_, woken⟩
    rw [lines.waitsAt]
    exact findReceiver_some found

theorem Counted.irqNotify (counted : k.Counted) (irq : Irq) : (k.irqNotify irq).Counted := by
  rcases irqNotify_lines k irq with only | ⟨lined, t, p, only, waits, woken⟩
  · exact counted.lines only
  · rw [woken]
    exact (counted.lines only).wake (waitsAt_iff.mp waits).1 fndOk

theorem irqBind_lines (k : Ipc) (proc : ProcId) (irq h : Word) : LinesOnly k (k.irqBind proc irq h).2 := by
  unfold Ipc.irqBind
  split
  · exact LinesOnly.refl k
  · split
    · split
      · exact LinesOnly.refl k
      · exact ((linesOnly_irqs ..).trans (linesOnly_irqSetPending ..)).trans (linesOnly_irqs ..)
    · exact LinesOnly.refl k

theorem Counted.register (counted : k.Counted) (named : k.Named (.port p)) (i : Fin 32) (name : List Byte) :
    ({ k with services := update k.services i ⟨some p, name⟩ } : Ipc).Counted := by
  have services : ∀ j q, (update k.services i ⟨some p, name⟩ j).port = some q ->
      (k.services j).port = some q ∨ k.Named (.port q) := by
    intro j q port
    by_cases same : j = i
    · subst same
      rw [update_self] at port
      cases port
      exact Or.inr named
    · rw [update_of_ne same] at port
      exact Or.inl port
  have counts : ({ k with services := update k.services i ⟨some p, name⟩ } : Ipc).refs = k.refs :=
    refs_congr (fun _ => rfl) (fun _ => rfl) (fun _ => rfl) fun _ => rfl
  exact counted.framed ⟨rfl, counts, fun _ => rfl, fun _ => ⟨rfl, rfl⟩, rfl, services, fun _ => rfl⟩ counted.owned
    counted.waits

/-- A thread that comes to wait, waits at a port in use. -/
theorem Counted.wait (counted : k.Counted) (framed : Framed k next)
    (threads : next.thread = update k.thread t changed) (active : (k.thread t).active = true)
    (proc : changed.proc = (k.thread t).proc) (port : changed.port = some p) (used : (k.ports p).used = true) :
    next.Counted := by
  refine counted.thread framed threads (fun _ => ?_) fun q at_ => ?_
  · rw [proc]
    exact counted.owned t active
  · have here := (atPort_reason at_).2
    rw [threads, update_self, port] at here
    cases here
    exact used

theorem framed_update (handles : next.handles = k.handles) (ports : next.ports = k.ports)
    (chans : next.chans = k.chans) (gone : next.gone = k.gone) (services : next.services = k.services)
    (procs : next.procs = k.procs) (threads : next.thread = update k.thread t changed)
    (refs : changed.refs = (k.thread t).refs) : Framed k next where
  handles := handles
  counts := by
    refine refs_congr (fun u => ?_) ?_ ?_ ?_
    · rw [threads]
      by_cases same : u = t
      · subst same
        rw [update_self]
        exact refs
      · rw [update_of_ne same]
    · intro p
      rw [ports]
    · intro c
      rw [chans]
    · intro p
      rw [procs]
  ports := by
    intro p
    rw [ports]
  chans := by
    intro c
    rw [chans]
    exact ⟨rfl, rfl⟩
  gone := gone
  services := by
    intro i p
    rw [services]
    exact Or.inl
  states := by
    intro p
    rw [procs]

theorem acceptCall_thread (k : Ipc) (receiver caller : ThreadId) :
    (k.acceptCall receiver caller).thread = update k.thread caller
      { k.thread caller with reason := .reply, waitProc := (k.thread receiver).proc } := rfl

theorem Counted.acceptCall (counted : k.Counted) {caller : ThreadId} (waits : k.waitsAt caller .send p = true)
    (receiver : ThreadId) : (k.acceptCall receiver caller).Counted := by
  obtain ⟨blocked, _, port⟩ := waitsAt_iff.mp waits
  have threads := acceptCall_thread k receiver caller
  exact counted.wait (framed_update rfl rfl rfl rfl rfl rfl threads rfl) threads (Thread.active_blocked blocked) rfl port
    (counted.waits caller p (Or.inl waits))

theorem receive_thread (k : Ipc) (t : ThreadId) (p : PortId) (timeout : Word) :
    ((k.modifyThread t fun thread => { thread with port := some p }).block t .recv timeout).thread =
      update k.thread t
        { k.thread t with
          port := some p, state := .blocked, reason := .recv, timed := timeout ≠ fndForever
          wakeTick := k.sched.ticks + timeout, r1 := fndOk } := by
  unfold block modifyThread thread Sched.block Sched.modify
  dsimp only
  rw [update_self, update_idem]

theorem Counted.receive (counted : k.Counted) (runs : (k.thread t).state = .running) (named : k.Named (.port p))
    (timeout : Word) :
    ((k.modifyThread t fun thread => { thread with port := some p }).block t .recv timeout).Counted := by
  have threads := receive_thread k t p timeout
  exact counted.wait (framed_update rfl rfl rfl rfl rfl rfl threads rfl) threads (Thread.active_running runs) rfl rfl
    (counted.portNamed.mp named)

theorem Counted.sendCall (counted : k.Counted) (runs : (k.thread t).state = .running) (named : k.Named (.chan c))
    (port : (k.chans c).port = some p) (msg : Msg) (rep buf cap : Word) :
    (k.sendCall t c p msg rep buf cap).Counted := by
  have threads := sendCall_thread k t c p msg rep buf cap
  exact counted.wait (framed_update rfl rfl rfl rfl rfl rfl threads rfl) threads (Thread.active_running runs) rfl rfl
    (counted.behind c p (counted.chans c (counted.named.mp named)) port)

theorem Counted.answerCall (counted : k.Counted) {caller : ThreadId} (blocked : (k.thread caller).state = .blocked)
    (t : ThreadId) (msg : Msg) : (k.answerCall t caller msg).Counted := by
  have threads := answerCall_thread k t caller msg
  have owned := counted.owned caller (Thread.active_blocked blocked)
  refine counted.thread (framed_update rfl rfl rfl rfl rfl rfl threads rfl) threads (fun _ => owned) fun p at_ => ?_
  have still := atPort_blocked at_
  rw [threads, update_self] at still
  cases still

/-! ## Moves of handles -/

/-- One of the counts grows by 1. -/
theorem update_count {ι α : Type} [DecidableEq ι] (items : ι -> α) (count : α -> Nat) {i : ι} {changed : α}
    (more : count changed = count (items i) + 1) (j : ι) :
    count (update items i changed j) = count (items j) + if j = i then 1 else 0 := by
  by_cases same : j = i
  · rw [same, update_self, if_pos rfl, more]
  · rw [update_of_ne same, if_neg same, Nat.add_zero]

theorem objRef_refs (k : Ipc) (o other : Obj) :
    (k.objRef o).refs other = k.refs other + if other = o then 1 else 0 := by
  cases o with
  | port p =>
    cases other with
    | port q =>
      simp only [Obj.port.injEq]
      exact update_count k.ports Port.refs rfl q
    | _ => rfl
  | chan c =>
    cases other with
    | chan d =>
      simp only [Obj.chan.injEq]
      exact update_count k.chans Chan.refs rfl d
    | _ => rfl
  | thread u =>
    cases other with
    | thread v =>
      simp only [Obj.thread.injEq]
      exact update_count k.sched.threads Thread.refs rfl v
    | _ => rfl
  | proc p =>
    cases other with
    | proc q =>
      simp only [Obj.proc.injEq]
      exact update_count k.procs Proc.refs rfl q
    | _ => rfl

/-- Handles and counts change, and a record may become free. -/
structure Recount (k next : Ipc) : Prop where
  threads : ∀ t, next.thread t = { k.thread t with refs := (next.thread t).refs }
  live : ∀ p, (next.procs p).state = .live ↔ (k.procs p).state = .live
  ports : ∀ p, (next.ports p).used = (k.ports p).used
  chans : ∀ c, next.chans c = { k.chans c with refs := (next.chans c).refs }
  gone : next.gone = k.gone
  services : next.services = k.services
  irqs : next.irqs = k.irqs
  mask : next.irqPendingMask = k.irqPendingMask
  senders : next.sendBlocked = k.sendBlocked
  seq : next.nextSeq = k.nextSeq
  history : next.history = k.history

theorem Recount.trans {third : Ipc} (first : Recount k next) (second : Recount next third) : Recount k third where
  threads := by
    intro t
    rw [second.threads t, first.threads t]
  live := fun p => (second.live p).trans (first.live p)
  ports := fun p => (second.ports p).trans (first.ports p)
  chans := by
    intro c
    rw [second.chans c, first.chans c]
  gone := second.gone.trans first.gone
  services := second.services.trans first.services
  irqs := second.irqs.trans first.irqs
  mask := second.mask.trans first.mask
  senders := second.senders.trans first.senders
  seq := second.seq.trans first.seq
  history := second.history.trans first.history

theorem recount_setHandle (k : Ipc) (proc : ProcId) (i : HandleIx) (named : Option Obj) :
    Recount k (k.setHandle proc i named) :=
  ⟨fun _ => rfl, fun _ => Iff.rfl, fun _ => rfl, fun _ => rfl, rfl, rfl, rfl, rfl, rfl, rfl, rfl⟩

theorem recount_thread (k : Ipc) (t : ThreadId) (count : Nat -> Nat) :
    Recount k (k.modifyThread t fun thread => { thread with refs := count thread.refs }) := by
  refine ⟨fun u => ?_, fun _ => Iff.rfl, fun _ => rfl, fun _ => rfl, rfl, rfl, rfl, rfl, rfl, rfl, rfl⟩
  rw [modifyThread_thread]
  by_cases same : u = t
  · subst same
    rw [update_self]
  · rw [update_of_ne same]

theorem recount_port (k : Ipc) (p : PortId) (count : Nat -> Nat) :
    Recount k (k.modifyPort p fun port => { port with refs := count port.refs }) := by
  refine ⟨fun _ => rfl, fun _ => Iff.rfl, fun q => ?_, fun _ => rfl, rfl, rfl, rfl, rfl, rfl, rfl, rfl⟩
  unfold modifyPort
  by_cases same : q = p
  · subst same
    dsimp only
    rw [update_self]
  · dsimp only
    rw [update_of_ne same]

theorem recount_chan (k : Ipc) (c : ChanId) (count : Nat -> Nat) :
    Recount k (k.modifyChan c fun chan => { chan with refs := count chan.refs }) := by
  refine ⟨fun _ => rfl, fun _ => Iff.rfl, fun _ => rfl, fun d => ?_, rfl, rfl, rfl, rfl, rfl, rfl, rfl⟩
  unfold modifyChan
  by_cases same : d = c
  · subst same
    dsimp only
    rw [update_self]
  · dsimp only
    rw [update_of_ne same]

theorem recount_proc (k : Ipc) (p : ProcId) {change : Proc -> Proc}
    (live : (change (k.procs p)).state = .live ↔ (k.procs p).state = .live) : Recount k (k.modifyProc p change) := by
  refine ⟨fun _ => rfl, fun q => ?_, fun _ => rfl, fun _ => rfl, rfl, rfl, rfl, rfl, rfl, rfl, rfl⟩
  unfold modifyProc
  by_cases same : q = p
  · subst same
    dsimp only
    rw [update_self]
    exact live
  · dsimp only
    rw [update_of_ne same]

theorem recount_objRef (k : Ipc) (o : Obj) : Recount k (k.objRef o) := by
  cases o with
  | port p => exact recount_port k p (· + 1)
  | chan c => exact recount_chan k c (· + 1)
  | thread t => exact recount_thread k t (· + 1)
  | proc p =>
    have counted : Recount k (k.modifyProc p fun proc => { proc with refs := proc.refs + 1 }) :=
      recount_proc k p Iff.rfl
    exact counted

theorem Recount.waitsAt (recount : Recount k next) (t : ThreadId) (reason : Reason) (p : PortId) :
    next.waitsAt t reason p = k.waitsAt t reason p := by
  unfold Ipc.waitsAt
  rw [recount.threads t]

theorem Recount.active (recount : Recount k next) (t : ThreadId) : (next.thread t).active = (k.thread t).active := by
  rw [recount.threads t]
  rfl

/-- A recount that keeps objects in use and leaves free records without a
count. -/
theorem Counted.recount (counted : k.Counted) (recount : Recount k next)
    (exact : ∀ o, next.refs o = tally next.handles o)
    (ports : ∀ p, 0 < next.refs (.port p) ↔ 0 < k.refs (.port p))
    (chans : ∀ c, 0 < next.refs (.chan c) ↔ 0 < k.refs (.chan c))
    (free : ∀ p, (next.procs p).state = .free -> next.refs (.proc p) = 0) : next.Counted := by
  have used : ∀ c, (next.chans c).used = (k.chans c).used := by
    intro c
    rw [recount.chans c]
  have port : ∀ c, (next.chans c).port = (k.chans c).port := by
    intro c
    rw [recount.chans c]
  have none : ∀ c, (next.chans c).refs = 0 ↔ (k.chans c).refs = 0 := by
    intro c
    have same := chans c
    unfold refs at same
    dsimp only at same
    omega
  have names : (fun p => (next.ports p).used) = fun p => (k.ports p).used := funext recount.ports
  refine ⟨exact, fun p => ?_, fun c held => ?_, fun c => ?_, fun c p => ?_, ?_, free, fun i p => ?_, fun t active => ?_,
    fun t p at_ => ?_⟩
  · rw [recount.ports]
    exact (counted.ports p).trans (ports p).symm
  · rw [used]
    exact counted.chans c ((chans c).mp held)
  · rw [used, port, none]
    exact counted.pending c
  · rw [used, port, recount.ports]
    exact counted.behind c p
  · obtain ⟨items, holds, listed⟩ := counted.gone
    refine ⟨items, ?_, fun c p => (listed c p).trans ?_⟩
    · rw [recount.gone, names]
      exact holds
    · unfold GonePending
      rw [used, port, none]
  · rw [recount.services, recount.ports]
    exact counted.services i p
  · rw [recount.active] at active
    obtain ⟨p, own, live⟩ := counted.owned t active
    refine ⟨p, ?_, (recount.live p).mpr live⟩
    rw [recount.threads t]
    exact own
  · rw [recount.ports]
    exact counted.waits t p ((atPort_congr fun reason => recount.waitsAt t reason p).mp at_)

theorem Counted.place (counted : k.Counted) {proc : ProcId} {i : HandleIx} (empty : k.handles (proc, i) = none)
    (known : k.Known o) : ((k.setHandle proc i (some o)).objRef o).Counted := by
  have refs : ∀ other, ((k.setHandle proc i (some o)).objRef o).refs other =
      k.refs other + if other = o then 1 else 0 := by
    intro other
    rw [objRef_refs]
    cases other <;> rfl
  refine counted.recount ((recount_setHandle k proc i (some o)).trans (recount_objRef _ o)) (fun other => ?_)
    (fun p => ?_) (fun c => ?_) fun p free => ?_
  · rw [refs, objRef_handles]
    unfold setHandle
    dsimp only
    rw [tally_fill empty, counted.exact]
  · rw [refs]
    split
    · next same =>
        subst same
        rcases known with named | ⟨t, other⟩ | ⟨p, other, _⟩
        · have held := counted.named.mp named
          exact ⟨fun _ => held, fun _ => Nat.succ_pos _⟩
        · cases other
        · cases other
    · exact Iff.rfl
  · rw [refs]
    split
    · next same =>
        subst same
        rcases known with named | ⟨t, other⟩ | ⟨p, other, _⟩
        · have held := counted.named.mp named
          exact ⟨fun _ => held, fun _ => Nat.succ_pos _⟩
        · cases other
        · cases other
    · exact Iff.rfl
  · rw [objRef_state] at free
    change (k.procs p).state = .free at free
    have none : k.refs (.proc p) = 0 := counted.free p free
    rw [refs, none]
    split
    · next same =>
        subst same
        rcases known with named | ⟨t, other⟩ | ⟨q, other, live⟩
        · have held := counted.named.mp named
          rw [none] at held
          exact absurd held (Nat.lt_irrefl 0)
        · cases other
        · cases other
          rw [live] at free
          cases free
    · rfl

theorem recount_transfer (k : Ipc) (from_ to_ : ProcId) (i j : HandleIx) (o : Obj) :
    Recount k ((k.setHandle to_ j (some o)).setHandle from_ i none) :=
  (recount_setHandle ..).trans (recount_setHandle ..)

theorem Counted.transfer (counted : k.Counted) {from_ to_ : ProcId} {i j : HandleIx}
    (named : k.handles (from_, i) = some o) (empty : k.handles (to_, j) = none) :
    ((k.setHandle to_ j (some o)).setHandle from_ i none).Counted := by
  have refs : ((k.setHandle to_ j (some o)).setHandle from_ i none).refs = k.refs :=
    refs_congr (fun _ => rfl) (fun _ => rfl) (fun _ => rfl) fun _ => rfl
  have apart : (from_, i) ≠ (to_, j) := by
    intro same
    rw [same, empty] at named
    cases named
  refine counted.recount (recount_transfer ..) (fun other => ?_) (fun p => ?_) (fun c => ?_) fun p free => ?_
  · rw [refs]
    have filled := tally_fill (a := o) empty other
    have still : update k.handles (to_, j) (some o) (from_, i) = some o := by
      rw [update_of_ne apart, named]
    have cleared := tally_clear still other
    unfold setHandle
    dsimp only
    rw [counted.exact]
    omega
  · rw [refs]
  · rw [refs]
  · rw [refs]
    exact counted.free p free

/-! ## Moves of channels and ports -/

theorem Counted.retune (counted : k.Counted) {change : Chan -> Chan}
    (same : (change (k.chans c)).used = (k.chans c).used ∧ (change (k.chans c)).refs = (k.chans c).refs ∧
      (change (k.chans c)).port = (k.chans c).port) : (k.modifyChan c change).Counted := by
  have kept : ∀ {α : Type} (field : Chan -> α), field (change (k.chans c)) = field (k.chans c) ->
      ∀ d, field ((k.modifyChan c change).chans d) = field (k.chans d) := by
    intro α field kept d
    unfold modifyChan
    dsimp only
    by_cases here : d = c
    · subst here
      rw [update_self]
      exact kept
    · rw [update_of_ne here]
  have used := kept Chan.used same.1
  have port := kept Chan.port same.2.2
  have counts : (k.modifyChan c change).refs = k.refs :=
    refs_congr (fun _ => rfl) (fun _ => rfl) (kept Chan.refs same.2.1) fun _ => rfl
  exact counted.framed ⟨rfl, counts, fun _ => rfl, fun d => ⟨used d, port d⟩, rfl, fun _ _ => Or.inl, fun _ => rfl⟩
    counted.owned counted.waits

theorem Counted.noRefs (counted : k.Counted) (unused : (k.chans c).used = false) : (k.chans c).refs = 0 := by
  cases count : (k.chans c).refs with
  | zero => rfl
  | succ n =>
    have used := counted.chans c (by omega)
    rw [unused] at used
    cases used

theorem Counted.noPortRefs (counted : k.Counted) (unused : (k.ports p).used = false) : (k.ports p).refs = 0 := by
  cases count : (k.ports p).refs with
  | zero => rfl
  | succ n =>
    have used := (counted.ports p).mpr (by omega)
    rw [unused] at used
    cases used

/-- The first channel of the list of a port in use. -/
theorem Counted.firstGone (counted : k.Counted) (used : (k.ports p).used = true) (first : k.gone.head p = some c) :
    k.GonePending c p := by
  obtain ⟨items, holds, listed⟩ := counted.gone
  have head : (k.gone.within fun p => (k.ports p).used).head p = some c := (if_pos used).trans first
  obtain ⟨rest, cons⟩ := holds.uncons head
  refine (listed c p).mp ?_
  rw [cons]
  exact List.mem_cons_self

/-- One channel changes, with the tables and the lists. -/
theorem Counted.channel (counted : k.Counted) {changed : Chan} (threads : next.thread = k.thread)
    (procs : next.procs = k.procs) (ports : next.ports = k.ports) (services : next.services = k.services)
    (chans : next.chans = update k.chans c changed) (exact : ∀ o, next.refs o = tally next.handles o)
    (held : 0 < changed.refs -> changed.used = true)
    (pending : changed.used = true -> changed.refs = 0 -> changed.port ≠ none)
    (behind : ∀ p, changed.used = true -> changed.port = some p -> (k.ports p).used = true)
    (gone : next.GoneListed) : next.Counted := by
  have self : next.chans c = changed := by
    rw [chans, update_self]
  have others : ∀ d, d ≠ c -> next.chans d = k.chans d := by
    intro d other
    rw [chans, update_of_ne other]
  refine ⟨exact, ?_, fun d => ?_, fun d => ?_, fun d q => ?_, gone, ?_, ?_, ?_, fun t q at_ => ?_⟩
  · rw [ports]
    exact counted.ports
  · by_cases same : d = c
    · rw [same, self]
      exact held
    · rw [others d same]
      exact counted.chans d
  · by_cases same : d = c
    · rw [same, self]
      exact pending
    · rw [others d same]
      exact counted.pending d
  · rw [ports]
    by_cases same : d = c
    · rw [same, self]
      exact behind q
    · rw [others d same]
      exact counted.behind d q
  · rw [procs]
    exact counted.free
  · rw [ports, services]
    exact counted.services
  · rw [threads, procs]
    exact counted.owned
  · rw [ports]
    refine counted.waits t q ((atPort_congr fun reason => ?_).mp at_)
    unfold waitsAt
    rw [threads]

/-- The counts of the channels, when one of them changes. -/
theorem chan_refs {changed : Chan} (threads : next.thread = k.thread) (procs : next.procs = k.procs)
    (ports : next.ports = k.ports) (chans : next.chans = update k.chans c changed) (o : Obj) :
    next.refs o = if o = .chan c then changed.refs else k.refs o := by
  unfold refs
  cases o with
  | chan d =>
    dsimp only
    rw [chans]
    by_cases same : d = c
    · rw [same, update_self, if_pos rfl]
    · rw [update_of_ne same, if_neg (fun equal => same (Obj.chan.inj equal))]
  | port q =>
    dsimp only
    rw [ports, if_neg nofun]
  | thread t =>
    dsimp only
    rw [threads, if_neg nofun]
  | proc q =>
    dsimp only
    rw [procs, if_neg nofun]

theorem Counted.deliverGone (counted : k.Counted) (receiver : ThreadId) (used : (k.ports p).used = true) :
    (k.deliverGone receiver p).Counted := by
  unfold Ipc.deliverGone
  cases first : k.gone.head p with
  | none => exact counted
  | some c =>
    dsimp only
    obtain ⟨inUse, none, port⟩ := counted.firstGone used first
    generalize result : Ipc.note _ _ = next
    have chans : next.chans = update k.chans c { k.chans c with used := false } := by
      rw [← result]
      rfl
    have gone : next.gone = k.gone.dropFront p c := by
      rw [← result]
      rfl
    have ports : next.ports = k.ports := by
      rw [← result]
      rfl
    have handles : next.handles = k.handles := by
      rw [← result]
      rfl
    have threads : next.thread = k.thread := by
      rw [← result]
      rfl
    have procs : next.procs = k.procs := by
      rw [← result]
      rfl
    refine counted.channel threads procs ports (by rw [← result]; rfl) chans (fun o => ?_)
      (fun held => absurd none (Nat.pos_iff_ne_zero.mp held)) nofun nofun ?_
    · rw [chan_refs threads procs ports chans, handles, ← counted.exact]
      split
      · next same =>
          rw [same]
          rfl
      · rfl
    · obtain ⟨items, holds, listed⟩ := counted.gone
      have head : (k.gone.within fun p => (k.ports p).used).head p = some c := (if_pos used).trans first
      obtain ⟨rest, cons⟩ := holds.uncons head
      refine ⟨update items p rest, ?_, fun d q => ?_⟩
      · rw [gone, ports, Bank.dropFront_within _ (by exact used)]
        exact holds.dropFront cons
      · have distinct := holds.nodup p
        rw [cons] at distinct
        have outside := (List.nodup_cons.mp distinct).1
        unfold GonePending
        rw [chans]
        by_cases same : d = c
        · rw [same, update_self]
          refine ⟨fun member => absurd member ?_, fun pending => absurd pending.1 Bool.false_ne_true⟩
          by_cases here : q = p
          · rw [here, update_self]
            exact outside
          · rw [update_of_ne here]
            intro there
            refine here (holds.apart q p c there ?_)
            rw [cons]
            exact List.mem_cons_self
        · rw [update_of_ne same]
          refine Iff.trans ?_ (listed d q)
          by_cases here : q = p
          · rw [here, update_self, cons, List.mem_cons]
            exact ⟨Or.inr, fun either => either.resolve_left same⟩
          · rw [update_of_ne here]

/-- The lists stay when no channel comes to have a CLIENT_GONE or loses it. -/
theorem GoneListed.same (listed : k.GoneListed) (ports : next.ports = k.ports)
    (gone : next.gone = k.gone ∨ ∃ c, (∀ p, ¬ k.GonePending c p) ∧ next.gone = k.gone.relink c none)
    (pending : ∀ c p, next.GonePending c p ↔ k.GonePending c p) : next.GoneListed := by
  obtain ⟨items, holds, listed⟩ := listed
  refine ⟨items, ?_, fun c p => (listed c p).trans (pending c p).symm⟩
  rw [ports]
  rcases gone with same | ⟨c, idle, relinked⟩
  · rw [same]
    exact holds
  · rw [relinked]
    exact holds.relink (fun p member => idle p ((listed c p).mp member)) none

/-- One channel changes that has no CLIENT_GONE before or after. -/
theorem pending_update {changed : Chan} (chans : next.chans = update k.chans c changed)
    (before : ∀ p, ¬ k.GonePending c p) (after : changed.used = true -> changed.refs ≠ 0) (d : ChanId) (p : PortId) :
    next.GonePending d p ↔ k.GonePending d p := by
  by_cases same : d = c
  · rw [same]
    refine ⟨fun pending => ?_, fun pending => absurd pending (before p)⟩
    unfold GonePending at pending
    rw [chans, update_self] at pending
    exact absurd pending.2.1 (after pending.1)
  · unfold GonePending
    rw [chans, update_of_ne same]

/-- There is no slot, the table is full, or the new channel has a handle. -/
theorem newChannel_cases (k : Ipc) (proc : ProcId) (port : Option PortId) (badge : Word) :
    (∃ error, k.newChannel proc port badge = (.error error, k)) ∨
      ∃ c, (k.chans c).used = false ∧
        ((∃ error, k.newChannel proc port badge =
            (.error error, (k.openChan c port badge).modifyChan c fun chan => { chan with used := false })) ∨
          ∃ i, k.handles (proc, i) = none ∧ k.newChannel proc port badge =
            (.ok (handleOf i), ((k.openChan c port badge).setHandle proc i (some (.chan c))).objRef (.chan c))) := by
  unfold newChannel
  cases slot : (List.finRange 128).find? fun c => !(k.chans c).used with
  | none => exact Or.inl ⟨.limit, rfl⟩
  | some c =>
    have unused := List.find?_some slot
    rw [Bool.not_eq_true'] at unused
    refine Or.inr ⟨c, unused, ?_⟩
    dsimp only
    unfold handleAdd
    cases found : (k.openChan c port badge).freeIx proc with
    | none => exact Or.inl ⟨.limit, rfl⟩
    | some i => exact Or.inr ⟨i, freeIx_some found, rfl⟩

theorem Counted.newChannel (counted : k.Counted) (proc : ProcId) (port : Option PortId)
    (known : ∀ q, port = some q -> k.PortKnown q) (badge : Word) : (k.newChannel proc port badge).2.Counted := by
  rcases newChannel_cases k proc port badge with ⟨error, failed⟩ | ⟨c, unused, result⟩
  · rw [failed]
    exact counted
  · have none := counted.noRefs unused
    have before : ∀ p, ¬ k.GonePending c p := fun p pending =>
      Bool.false_ne_true (unused.symm.trans pending.1)
    rcases result with ⟨error, failed⟩ | ⟨i, empty, made⟩
    · rw [failed]
      generalize spoiled : (k.openChan c port badge).modifyChan c _ = next
      have chans : next.chans = update k.chans c ⟨false, 0, port, badge, 0⟩ := by
        rw [← spoiled]
        unfold modifyChan openChan
        dsimp only
        rw [update_self, update_idem]
      have threads : next.thread = k.thread := by
        rw [← spoiled]
        rfl
      have procs : next.procs = k.procs := by
        rw [← spoiled]
        rfl
      have ports : next.ports = k.ports := by
        rw [← spoiled]
        rfl
      have handles : next.handles = k.handles := by
        rw [← spoiled]
        rfl
      have gone : next.gone = k.gone.relink c Option.none := by
        rw [← spoiled]
        rfl
      refine counted.channel threads procs ports (by rw [← spoiled]; rfl) chans (fun o => ?_)
        (fun held => absurd held (Nat.lt_irrefl 0)) nofun nofun
        (counted.gone.same ports (Or.inr ⟨c, before, gone⟩) (pending_update chans before nofun))
      rw [chan_refs threads procs ports chans, handles, ← counted.exact]
      split
      · next same =>
          rw [same]
          exact none.symm
      · rfl
    · rw [made]
      generalize opened : ((k.openChan c port badge).setHandle proc i _).objRef _ = next
      have chans : next.chans = update k.chans c ⟨true, 1, port, badge, 0⟩ := by
        rw [← opened]
        unfold objRef setHandle modifyChan openChan
        dsimp only
        rw [update_self, update_idem]
      have threads : next.thread = k.thread := by
        rw [← opened]
        rfl
      have procs : next.procs = k.procs := by
        rw [← opened]
        rfl
      have ports : next.ports = k.ports := by
        rw [← opened]
        rfl
      have handles : next.handles = update k.handles (proc, i) (some (.chan c)) := by
        rw [← opened]
        rfl
      have gone : next.gone = k.gone.relink c Option.none := by
        rw [← opened]
        rfl
      refine counted.channel threads procs ports (by rw [← opened]; rfl) chans (fun o => ?_) (fun _ => rfl)
        (fun _ zero => absurd zero Nat.one_ne_zero) (fun q _ here => counted.portKnown (known q here))
        (counted.gone.same ports (Or.inr ⟨c, before, gone⟩) (pending_update chans before fun _ => Nat.one_ne_zero))
      rw [chan_refs threads procs ports chans, handles, tally_fill empty, ← counted.exact]
      split
      · next same =>
          have zero : k.refs o = 0 := by
            rw [same]
            exact none
          rw [zero]
      · rfl

/-- There is no slot, the table is full, or the new port has a handle. -/
theorem portCreate_cases (k : Ipc) (proc : ProcId) :
    (∃ error, k.portCreate proc = (.error error, k)) ∨
      ∃ p, (k.ports p).used = false ∧
        ((∃ error, k.portCreate proc = (.error error,
            { k with ports := update k.ports p ⟨false, 0⟩, gone := k.gone.clear p })) ∨
          ∃ i, k.handles (proc, i) = none ∧ k.portCreate proc = (.ok (handleOf i),
            { k with
              ports := update k.ports p ⟨true, 1⟩, gone := k.gone.clear p
              handles := update k.handles (proc, i) (some (.port p)) })) := by
  unfold portCreate
  cases slot : (List.finRange 32).find? fun p => !(k.ports p).used with
  | none => exact Or.inl ⟨.limit, rfl⟩
  | some p =>
    have unused := List.find?_some slot
    rw [Bool.not_eq_true'] at unused
    refine Or.inr ⟨p, unused, ?_⟩
    dsimp only
    unfold handleAdd
    cases found : freeIx _ proc with
    | none =>
      refine Or.inl ⟨.limit, ?_⟩
      dsimp only
      unfold modifyPort
      dsimp only
      rw [update_self, update_idem]
    | some i =>
      refine Or.inr ⟨i, ?_, ?_⟩
      · have empty := freeIx_some found
        exact empty
      · dsimp only
        unfold objRef setHandle modifyPort
        dsimp only
        rw [update_self, update_idem]

/-- A port that was not in use changes and its list is cleared. -/
theorem Counted.port (counted : k.Counted) {changed : Port} (unused : (k.ports p).used = false)
    (threads : next.thread = k.thread) (procs : next.procs = k.procs) (chans : next.chans = k.chans)
    (services : next.services = k.services) (ports : next.ports = update k.ports p changed)
    (gone : next.gone = k.gone.clear p) (exact : ∀ o, next.refs o = tally next.handles o)
    (counts : changed.used = true ↔ 0 < changed.refs) : next.Counted := by
  have self : next.ports p = changed := by
    rw [ports, update_self]
  have others : ∀ q, (k.ports q).used = true -> next.ports q = k.ports q := by
    intro q used
    rw [ports, update_of_ne]
    rintro rfl
    exact Bool.false_ne_true (unused.symm.trans used)
  have used : ∀ q, (k.ports q).used = true -> (next.ports q).used = true := by
    intro q used
    rw [others q used]
    exact used
  refine ⟨exact, fun q => ?_, ?_, ?_, fun c q => ?_, ?_, ?_, fun i q port => ?_, ?_, fun t q at_ => ?_⟩
  · by_cases same : q = p
    · rw [same, self]
      exact counts
    · rw [ports, update_of_ne same]
      exact counted.ports q
  · rw [chans]
    exact counted.chans
  · rw [chans]
    exact counted.pending
  · rw [chans]
    exact fun inUse port => used q (counted.behind c q inUse port)
  · obtain ⟨items, holds, listed⟩ := counted.gone
    refine ⟨items, ?_, fun c q => ?_⟩
    · have names : (fun q => (next.ports q).used) = update (fun q => (k.ports q).used) p changed.used := by
        funext q
        rw [ports]
        by_cases same : q = p
        · rw [same, update_self, update_self]
        · rw [update_of_ne same, update_of_ne same]
      rw [gone, names]
      cases changed.used with
      | true =>
        rw [Bank.clear_within k.gone unused]
        exact holds
      | false =>
        have empty : items p = [] := by
          refine List.eq_nil_iff_forall_not_mem.mpr fun c member => ?_
          obtain ⟨inUse, _, port⟩ := (listed c p).mp member
          exact Bool.false_ne_true (unused.symm.trans (counted.behind c p inUse port))
        have cleared := holds.clear p
        rw [← Bank.within_clear, ← empty, Function.update_eq_self] at cleared
        have same : (k.gone.clear p).within (update (fun q => (k.ports q).used) p false) =
            k.gone.within (update (fun q => (k.ports q).used) p false) := by
          unfold Bank.within Bank.clear
          dsimp only
          congr 1 <;> funext q <;> by_cases here : q = p
          · rw [here, update_self, if_neg Bool.false_ne_true, if_neg Bool.false_ne_true]
          · rw [update_of_ne here, update_of_ne here]
          · rw [here, update_self, if_neg Bool.false_ne_true, if_neg Bool.false_ne_true]
          · rw [update_of_ne here, update_of_ne here]
        rw [same]
        exact cleared
    · refine (listed c q).trans ?_
      unfold GonePending
      rw [chans]
  · rw [procs]
    exact counted.free
  · rw [services] at port
    exact used q (counted.services i q port)
  · rw [threads, procs]
    exact counted.owned
  · refine used q (counted.waits t q ((atPort_congr fun reason => ?_).mp at_))
    unfold waitsAt
    rw [threads]

/-- The counts, when one port changes. -/
theorem port_refs {changed : Port} (threads : next.thread = k.thread) (procs : next.procs = k.procs)
    (chans : next.chans = k.chans) (ports : next.ports = update k.ports p changed) (o : Obj) :
    next.refs o = if o = .port p then changed.refs else k.refs o := by
  unfold refs
  cases o with
  | port q =>
    dsimp only
    rw [ports]
    by_cases same : q = p
    · rw [same, update_self, if_pos rfl]
    · rw [update_of_ne same, if_neg (fun equal => same (Obj.port.inj equal))]
  | chan d =>
    dsimp only
    rw [chans, if_neg nofun]
  | thread t =>
    dsimp only
    rw [threads, if_neg nofun]
  | proc q =>
    dsimp only
    rw [procs, if_neg nofun]

theorem Counted.portCreate (counted : k.Counted) (proc : ProcId) : (k.portCreate proc).2.Counted := by
  rcases portCreate_cases k proc with ⟨error, failed⟩ | ⟨p, unused, ⟨error, failed⟩ | ⟨i, empty, made⟩⟩
  · rw [failed]
    exact counted
  · rw [failed]
    have none : k.refs (.port p) = 0 := counted.noPortRefs unused
    generalize created : Ipc.mk _ _ _ _ _ _ _ _ _ _ _ _ _ _ = next
    have ports : next.ports = update k.ports p ⟨false, 0⟩ := by
      rw [← created]
    have threads : next.thread = k.thread := by
      rw [← created]
      rfl
    have procs : next.procs = k.procs := by
      rw [← created]
    have chans : next.chans = k.chans := by
      rw [← created]
    have handles : next.handles = k.handles := by
      rw [← created]
    refine counted.port unused threads procs chans (by rw [← created]) ports (by rw [← created]) (fun o => ?_)
      ⟨nofun, fun held => absurd held (Nat.lt_irrefl 0)⟩
    rw [port_refs threads procs chans ports, handles, ← counted.exact]
    split
    · next same => rw [same, none]
    · rfl
  · rw [made]
    have none : k.refs (.port p) = 0 := counted.noPortRefs unused
    generalize created : Ipc.mk _ _ _ _ _ _ _ _ _ _ _ _ _ _ = next
    have ports : next.ports = update k.ports p ⟨true, 1⟩ := by
      rw [← created]
    have threads : next.thread = k.thread := by
      rw [← created]
      rfl
    have procs : next.procs = k.procs := by
      rw [← created]
    have chans : next.chans = k.chans := by
      rw [← created]
    have handles : next.handles = update k.handles (proc, i) (some (.port p)) := by
      rw [← created]
    refine counted.port unused threads procs chans (by rw [← created]) ports (by rw [← created]) (fun o => ?_)
      ⟨fun _ => Nat.one_pos, fun _ => rfl⟩
    rw [port_refs threads procs chans ports, handles, tally_fill empty, ← counted.exact]
    split
    · next same => rw [same, none]
    · rfl

theorem Counted.startProc (counted : k.Counted) {proc : ProcId} (free : (k.procs proc).refs = 0)
    (empty : ∀ i, k.handles (proc, i) = none) (priority : Nat) :
    (k.startProc proc t priority).Counted := by
  have handles : (k.startProc proc t priority).handles = k.handles := by
    rw [startProc_handles]
    funext e
    obtain ⟨q, i⟩ := e
    dsimp only
    split
    · next same =>
        rw [same]
        exact (empty i).symm
    · rfl
  obtain ⟨clamped, threads⟩ := startProc_thread k proc t priority
  have procs := startProc_procs k proc t priority
  have live : ∀ q, (k.procs q).state = .live -> ((k.startProc proc t priority).procs q).state = .live :=
    fun q => startProc_live k proc t priority
  have waits : ∀ u q, (k.startProc proc t priority).AtPort u q -> k.AtPort u q := by
    intro u q at_
    by_cases same : u = t
    · have blocked := atPort_blocked at_
      rw [same, threads, update_self] at blocked
      cases blocked
    · refine (atPort_congr fun reason => ?_).mp at_
      unfold waitsAt
      rw [threads, update_of_ne same]
  have counts : (k.startProc proc t priority).refs = k.refs := by
    refine refs_congr (fun u => ?_) (fun _ => rfl) (fun _ => rfl) fun q => ?_
    · rw [threads]
      by_cases same : u = t
      · rw [same, update_self]
      · rw [update_of_ne same]
    · rw [procs]
      by_cases same : q = proc
      · rw [same, update_self]
        exact free.symm
      · rw [update_of_ne same]
  refine ⟨fun o => ?_, counted.ports, counted.chans, counted.pending, counted.behind, ?_, fun q ended => ?_,
    counted.services, fun u active => ?_, fun u q at_ => counted.waits u q (waits u q at_)⟩
  · rw [counts, handles]
    exact counted.exact o
  · exact counted.gone.same rfl (Or.inl rfl) fun _ _ => Iff.rfl
  · rw [procs] at ended ⊢
    by_cases same : q = proc
    · rw [same, update_self] at ended
      cases ended
    · rw [update_of_ne same] at ended ⊢
      exact counted.free q ended
  · by_cases same : u = t
    · refine ⟨proc, ?_, ?_⟩
      · rw [same, threads, update_self]
      · rw [procs, update_self]
        rfl
    · rw [threads, update_of_ne same] at active ⊢
      obtain ⟨q, own, alive⟩ := counted.owned u active
      exact ⟨q, own, live q alive⟩

/-! ## Every move -/

theorem Tables.same (tables : k.Tables ending) (handles : next.handles = k.handles)
    (live : ∀ p, (k.procs p).state = .live -> (next.procs p).state = .live) : next.Tables ending := by
  intro p other ended i
  rw [handles]
  exact tables p other (fun lives => ended (live p lives)) i

/-- A live process gets a handle. -/
theorem Tables.fill (tables : k.Tables ending) {proc : ProcId} (lives : (k.procs proc).state = .live) {i : HandleIx}
    (handles : next.handles = update k.handles (proc, i) (some o))
    (live : ∀ p, (k.procs p).state = .live -> (next.procs p).state = .live) : next.Tables ending := by
  intro p other ended j
  have differs : (p, j) ≠ (proc, i) := by
    intro same
    rw [(Prod.mk.inj same).1] at ended
    exact ended (live proc lives)
  rw [handles, update_of_ne differs]
  exact tables p other (fun alive => ended (live p alive)) j

/-- Counts that are exact and tables that only live processes have. -/
structure Consistent (k : Ipc) : Prop where
  counted : k.Counted
  tables : k.Tables none

theorem Tables.lines (tables : k.Tables ending) (only : LinesOnly k next) :
    next.Tables ending := by
  obtain ⟨handles, procs⟩ := only.tables
  refine tables.same handles fun p live => ?_
  rw [procs]
  exact live

theorem deliverGone_tables (k : Ipc) (receiver : ThreadId) (p : PortId) :
    (k.deliverGone receiver p).handles = k.handles ∧ (k.deliverGone receiver p).procs = k.procs := by
  unfold deliverGone
  cases k.gone.head p with
  | none => exact ⟨rfl, rfl⟩
  | some c => exact ⟨rfl, rfl⟩

theorem Consistent.move (consistent : k.Consistent) (move : Move k next) : next.Consistent := by
  obtain ⟨counted, tables⟩ := consistent
  cases move with
  | quiet same => exact ⟨counted.quiet same, tables.same same.handles fun p => (same.states p).trans⟩
  | wake blocked _ result => exact ⟨counted.wake blocked result, tables.same rfl fun _ live => live⟩
  | block runs other timeout => exact ⟨counted.block runs other timeout, tables.same rfl fun _ live => live⟩
  | die _ code => exact ⟨counted.die code, tables.same rfl fun _ live => live⟩
  | makeReady _ hosts => exact ⟨counted.makeReady hosts, tables.same rfl fun _ live => live⟩
  | irqNotify irq =>
    refine ⟨counted.irqNotify irq, ?_⟩
    rcases irqNotify_lines k irq with only | ⟨lined, t, p, only, _, woken⟩
    · exact tables.lines only
    · rw [woken]
      exact (tables.lines only).same rfl fun _ live => live
  | irqRelease irq => exact ⟨counted.lines (linesOnly_irqRelease k irq), tables.lines (linesOnly_irqRelease k irq)⟩
  | irqBind proc irq h => exact ⟨counted.lines (irqBind_lines k proc irq h), tables.lines (irqBind_lines k proc irq h)⟩
  | takeIrq receiver irq =>
    exact ⟨counted.lines (linesOnly_deliverIrq k receiver irq), tables.lines (linesOnly_deliverIrq k receiver irq)⟩
  | @takeGone receiver p known =>
    obtain ⟨handles, procs⟩ := deliverGone_tables k receiver p
    exact ⟨counted.deliverGone receiver (counted.portKnown known),
      tables.same handles (by rw [procs]; exact fun _ live => live)⟩
  | @place p hosts i empty o known =>
    refine ⟨counted.place empty known, tables.fill (counted.hosts hosts) (objRef_handles ..) fun q live => ?_⟩
    exact (objRef_state ..).trans live
  | @transfer from_ to_ i j o named empty hosts =>
    refine ⟨counted.transfer named empty, ?_⟩
    have filled : (k.setHandle to_ j (some o)).Tables none :=
      tables.fill (counted.hosts hosts) rfl fun _ live => live
    intro p other ended l
    unfold setHandle
    dsimp only
    by_cases same : (p, l) = (from_, i)
    · rw [same, update_self]
    · rw [update_of_ne same]
      exact filled p other ended l
  | @portCreate p hosts =>
    refine ⟨counted.portCreate p, ?_⟩
    rcases portCreate_cases k p with ⟨error, failed⟩ | ⟨_, _, ⟨error, failed⟩ | ⟨i, empty, made⟩⟩
    · rw [failed]
      exact tables
    · rw [failed]
      exact tables.same rfl fun _ live => live
    · rw [made]
      exact tables.fill (counted.hosts hosts) rfl fun _ live => live
  | @newChannel p hosts port known badge =>
    refine ⟨counted.newChannel p port known badge, ?_⟩
    rcases newChannel_cases k p port badge with ⟨error, failed⟩ | ⟨_, _, ⟨error, failed⟩ | ⟨i, empty, made⟩⟩
    · rw [failed]
      exact tables
    · rw [failed]
      exact tables.same rfl fun _ live => live
    · rw [made]
      exact tables.fill (counted.hosts hosts) (objRef_handles ..) fun q live => live
  | retune cut same => exact ⟨counted.retune same, tables.same rfl fun _ live => live⟩
  | register named i name => exact ⟨counted.register named i name, tables.same rfl fun _ live => live⟩
  | @accept receiver caller _ _ p waits =>
    exact ⟨counted.acceptCall waits receiver, tables.same rfl fun _ live => live⟩
  | receive runs named _ _ _ timeout =>
    exact ⟨counted.receive runs named timeout, tables.same rfl fun _ live => live⟩
  | @answer t caller _ token called msg =>
    exact ⟨counted.answerCall (tokenCaller_some called).2.1 t msg, tables.same rfl fun _ live => live⟩
  | @startProc p t idle free _ priority =>
    have empty := tables p nofun idle
    refine ⟨counted.startProc free empty priority, fun q other ended i => ?_⟩
    rw [startProc_handles]
    dsimp only
    split
    · rfl
    · refine tables q other (fun live => ended ?_) i
      exact startProc_live k p t priority live

theorem Consistent.moves (consistent : k.Consistent) (path : Moves k next) : next.Consistent :=
  path.invariant consistent fun _ _ holds move => holds.move move

end Src32.Kernel.Ipc
