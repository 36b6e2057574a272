import Src32.Kernel.Traps
import Src32.Kernel.Turns

namespace Src32.Kernel.Ipc

/-!
# What a trap is made of

A system call or an event is a sequence of moves: a thread is woken, a handle is
added or transferred, a request is accepted or answered.  What no property of
IPC depends on is a quiet move.  An invariant of the kernel is proved once for
every move.  Only three operations are no moves: to send a request, to close a
handle and to end a process.
-/

variable {k next : Ipc} {t : ThreadId}

/-! ## Guards -/

/-- A process that may be given a handle: it is live, or a thread of it runs or
waits. -/
def Hosts (k : Ipc) (p : ProcId) : Prop :=
  (k.procs p).state = .live ∨ ∃ t, (k.thread t).active = true ∧ k.procOf t = p

/-- A handle names the object. -/
def Named (k : Ipc) (o : Obj) : Prop := ∃ e, k.handles e = some o

/-- An object a handle may be made for. -/
def Known (k : Ipc) (o : Obj) : Prop :=
  k.Named o ∨ (∃ t, o = .thread t) ∨ ∃ p, o = .proc p ∧ (k.procs p).state = .live

/-- Thread `t` waits at port `p` in SEND, REPLY or RECV. -/
def AtPort (k : Ipc) (t : ThreadId) (p : PortId) : Prop :=
  k.waitsAt t .send p = true ∨ k.waitsAt t .reply p = true ∨ k.waitsAt t .recv p = true

/-- A port in use. -/
def PortKnown (k : Ipc) (p : PortId) : Prop := k.Named (.port p) ∨ ∃ t, k.AtPort t p

/-- Every object that a handle names is counted. -/
def Backed (k : Ipc) : Prop := ∀ o, k.Named o -> 0 < k.refs o

theorem waitsAt_iff {reason : Reason} {p : PortId} :
    k.waitsAt t reason p = true ↔
      (k.thread t).state = .blocked ∧ (k.thread t).reason = reason ∧ (k.thread t).port = some p := by
  unfold waitsAt
  rw [Bool.and_eq_true, Bool.and_eq_true, decide_eq_true_iff, decide_eq_true_iff, decide_eq_true_iff, and_assoc]

/-! ## Quiet moves -/

/-- Nothing changes that a property of IPC depends on. -/
structure Quiet (k next : Ipc) : Prop where
  threads : ∀ t, (k.thread t).Alike (next.thread t)
  states : ∀ p, (next.procs p).state = (k.procs p).state
  counts : ∀ p, (next.procs p).refs = (k.procs p).refs
  handles : next.handles = k.handles
  ports : next.ports = k.ports
  chans : next.chans = k.chans
  gone : next.gone = k.gone
  services : next.services = k.services
  irqPorts : ∀ irq, (next.irqs irq).port = (k.irqs irq).port
  pending : ∀ irq, (next.irqs irq).pending = (k.irqs irq).pending
  mask : next.irqPendingMask = k.irqPendingMask
  senders : ∀ t p, k.waitsAt t .send p = true -> k.sendBlocked.getLsbD t.val = true ->
    next.sendBlocked.getLsbD t.val = true
  seq : next.nextSeq = k.nextSeq
  history : next.history = { k.history with accesses := next.history.accesses }

/-- Threads take turns. -/
theorem Quiet.of_turns {sched : Sched} (turns : Sched.Turns k.sched sched) : Quiet k { k with sched := sched } :=
  ⟨turns, fun _ => rfl, fun _ => rfl, rfl, rfl, rfl, rfl, rfl, fun _ => rfl, fun _ => rfl, rfl,
    fun _ _ _ bit => bit, rfl, rfl⟩

theorem Quiet.refl (k : Ipc) : Quiet k k := Quiet.of_turns fun _ => Thread.Alike.refl _

theorem Quiet.blocked (quiet : Quiet k next) (t : ThreadId) :
    (next.thread t).state = .blocked ↔ (k.thread t).state = .blocked := by
  constructor
  · intro after
    rw [← (quiet.threads t).waits (Or.inr after)]
    exact after
  · intro before
    rw [(quiet.threads t).waits (Or.inl before)]
    exact before

/-- Who waits where does not change. -/
theorem Quiet.waitsAt (quiet : Quiet k next) (t : ThreadId) (reason : Reason) (p : PortId) :
    next.waitsAt t reason p = k.waitsAt t reason p := by
  by_cases blocked : (k.thread t).state = .blocked
  · unfold Ipc.waitsAt
    rw [(quiet.threads t).waits (Or.inl blocked)]
  · unfold Ipc.waitsAt
    rw [decide_eq_false blocked, decide_eq_false (fun after => blocked ((quiet.blocked t).mp after))]
    rfl

theorem Quiet.trans {third : Ipc} (first : Quiet k next) (second : Quiet next third) : Quiet k third where
  threads := fun t => (first.threads t).trans (second.threads t)
  states := fun p => (second.states p).trans (first.states p)
  counts := fun p => (second.counts p).trans (first.counts p)
  handles := second.handles.trans first.handles
  ports := second.ports.trans first.ports
  chans := second.chans.trans first.chans
  gone := second.gone.trans first.gone
  services := second.services.trans first.services
  irqPorts := fun irq => (second.irqPorts irq).trans (first.irqPorts irq)
  pending := fun irq => (second.pending irq).trans (first.pending irq)
  mask := second.mask.trans first.mask
  senders := fun t p waits bit =>
    second.senders t p ((first.waitsAt t .send p).trans waits) (first.senders t p waits bit)
  seq := second.seq.trans first.seq
  history := by
    rw [second.history, first.history]

theorem quiet_touch (k : Ipc) (proc : Option ProcId) (addr len perm : Word) :
    Quiet k (k.touch proc addr len perm) :=
  ⟨fun _ => Thread.Alike.refl _, fun _ => rfl, fun _ => rfl, rfl, rfl, rfl, rfl, rfl, fun _ => rfl, fun _ => rfl, rfl,
    fun _ _ _ bit => bit, rfl, rfl⟩

/-- A thread that is not blocked changes. -/
theorem quiet_modifyThread {change : Thread -> Thread} (before : (k.thread t).state ≠ .blocked)
    (after : (change (k.thread t)).state ≠ .blocked) (refs : (change (k.thread t)).refs = (k.thread t).refs)
    (active : (change (k.thread t)).active = (k.thread t).active)
    (proc : (change (k.thread t)).proc = (k.thread t).proc) : Quiet k (k.modifyThread t change) :=
  Quiet.of_turns (Sched.turns_of_running before after refs active proc)

/-- A thread that neither runs nor waits changes. -/
theorem quiet_rest {change : Thread -> Thread} (before : (k.thread t).active = false)
    (after : (change (k.thread t)).active = false) (refs : (change (k.thread t)).refs = (k.thread t).refs) :
    Quiet k (k.modifyThread t change) := by
  refine Quiet.of_turns fun u => ?_
  by_cases same : u = t
  · subst same
    rw [Sched.modify_self]
    refine ⟨refs, after.trans before.symm, ?_, fun active => absurd (before.symm.trans active) Bool.false_ne_true⟩
    rintro (blocked | blocked)
    · exact absurd (before.symm.trans (Thread.active_blocked blocked)) Bool.false_ne_true
    · exact absurd (after.symm.trans (Thread.active_blocked blocked)) Bool.false_ne_true
  · rw [Sched.modify_other _ _ same]
    exact Thread.Alike.refl _

/-- A record changes outside of its state and its references. -/
theorem quiet_modifyProc {p : ProcId} {change : Proc -> Proc} (state : (change (k.procs p)).state = (k.procs p).state)
    (refs : (change (k.procs p)).refs = (k.procs p).refs) : Quiet k (k.modifyProc p change) := by
  have same : ∀ {α : Type} (field : Proc -> α), field (change (k.procs p)) = field (k.procs p) ->
      ∀ q, field ((k.modifyProc p change).procs q) = field (k.procs q) := by
    intro α field kept q
    by_cases here : q = p
    · subst here
      exact (congrArg field (Function.update_self ..)).trans kept
    · exact congrArg field (Function.update_of_ne here ..)
  exact ⟨fun _ => Thread.Alike.refl _, same Proc.state state, same Proc.refs refs, rfl, rfl, rfl, rfl, rfl, fun _ => rfl,
    fun _ => rfl, rfl, fun _ _ _ bit => bit, rfl, rfl⟩

/-! ## Moves -/

/-- One move. -/
inductive Move (k : Ipc) : Ipc -> Prop where
  | quiet {next : Ipc} (same : Quiet k next) : Move k next
  | wake {t : ThreadId} (blocked : (k.thread t).state = .blocked)
      (ends : (k.thread t).reason = .reply -> (k.thread t).timed = true) (result : Word) :
      Move k (k.wake t result)
  | block {t : ThreadId} (runs : (k.thread t).state = .running) {reason : Reason}
      (other : reason ≠ .send ∧ reason ≠ .reply ∧ reason ≠ .recv) (timeout : Word) :
      Move k (k.block t reason timeout)
  | die {t : ThreadId} (runs : (k.thread t).state = .running) (code : Word) :
      Move k (k.modifyThread t fun thread => { thread with exitCode := code, state := .dead })
  | makeReady {t : ThreadId} (rests : (k.thread t).active = false)
      (hosts : ∃ p, (k.thread t).proc = some p ∧ k.Hosts p) :
      Move k { k with sched := k.sched.makeReady t }
  | irqNotify (irq : Irq) : Move k (k.irqNotify irq)
  | irqRelease (irq : Irq) : Move k (k.irqRelease irq)
  | irqBind (proc : ProcId) (irq h : Word) : Move k (k.irqBind proc irq h).2
  | takeIrq (receiver : ThreadId) (irq : Irq) : Move k (k.deliverIrq receiver irq)
  | takeGone (receiver : ThreadId) {p : PortId} (known : k.PortKnown p) : Move k (k.deliverGone receiver p)
  | place {p : ProcId} (hosts : k.Hosts p) {i : HandleIx} (empty : k.handles (p, i) = none) {o : Obj}
      (known : k.Known o) : Move k ((k.setHandle p i (some o)).objRef o)
  | transfer {from_ to_ : ProcId} {i j : HandleIx} {o : Obj} (named : k.handles (from_, i) = some o)
      (empty : k.handles (to_, j) = none) (hosts : k.Hosts to_) :
      Move k ((k.setHandle to_ j (some o)).setHandle from_ i none)
  | portCreate {p : ProcId} (hosts : k.Hosts p) : Move k (k.portCreate p).2
  | newChannel {p : ProcId} (hosts : k.Hosts p) (port : Option PortId) (known : ∀ q, port = some q -> k.PortKnown q)
      (badge : Word) : Move k (k.newChannel p port badge).2
  | retune {c : ChanId} (cut : (k.chans c).port = none) {change : Chan -> Chan}
      (same : (change (k.chans c)).used = (k.chans c).used ∧ (change (k.chans c)).refs = (k.chans c).refs ∧
        (change (k.chans c)).port = (k.chans c).port) : Move k (k.modifyChan c change)
  | register {p : PortId} (named : k.Named (.port p)) (i : Fin 32) (name : List Byte) :
      Move k { k with services := Function.update k.services i ⟨some p, name⟩ }
  | accept {receiver caller : ThreadId} (serves : (k.thread receiver).active = true) (other : receiver ≠ caller)
      {p : PortId} (waits : k.waitsAt caller .send p = true) : Move k (k.acceptCall receiver caller)
  | receive {t : ThreadId} (runs : (k.thread t).state = .running) {p : PortId} (named : k.Named (.port p))
      (irqs : k.pendingIrq p = none) (gone : k.gone.head p = none) (callers : (k.nextCaller p).1 = none)
      (timeout : Word) :
      Move k ((k.modifyThread t fun thread => { thread with port := some p }).block t .recv timeout)
  | answer {t caller : ThreadId} (runs : (k.thread t).state = .running) {token : Word}
      (called : k.tokenCaller (k.procOf t) token = some caller) (msg : Msg) : Move k (k.answerCall t caller msg)
  | startProc {p : ProcId} {t : ThreadId} (idle : (k.procs p).state ≠ .live) (free : (k.procs p).refs = 0)
      (rests : (k.thread t).active = false) (priority : Nat) : Move k (k.startProc p t priority)

/-- A sequence of moves. -/
def Moves : Ipc -> Ipc -> Prop := Relation.ReflTransGen Move

theorem Moves.one (move : Move k next) : Moves k next := Relation.ReflTransGen.single move

theorem Moves.then {third : Ipc} (moves : Moves k next) (move : Move next third) : Moves k third :=
  Relation.ReflTransGen.tail moves move

theorem Moves.trans {third : Ipc} (first : Moves k next) (second : Moves next third) : Moves k third :=
  Relation.ReflTransGen.trans first second

theorem Moves.refl (k : Ipc) : Moves k k := Relation.ReflTransGen.refl

/-- A loop whose rounds are moves. -/
theorem Moves.foldl {α : Type} {visit : Ipc -> α -> Ipc} (each : ∀ k a, Moves k (visit k a)) (items : List α)
    (k : Ipc) : Moves k (items.foldl visit k) := by
  induction items generalizing k with
  | nil => exact Moves.refl k
  | cons a rest ih => exact (each k a).trans (ih (visit k a))

/-- What every move keeps holds through a sequence of moves. -/
theorem Moves.invariant {motive : Ipc -> Prop} (moves : Moves k next) (begins : motive k)
    (keeps : ∀ first second, motive first -> Move first second -> motive second) : motive next := by
  induction moves with
  | refl => exact begins
  | tail _ move ih => exact keeps _ _ ih move

end Src32.Kernel.Ipc
