import Src32.Kernel.Wakeups

namespace Src32.Kernel

open Function (update update_self update_of_ne)

/-!
# Requests and answers

A request is given to one process, which alone can answer it while its caller
waits, and answers it at most once.  Two things are asked of a run: a process
that ends leaves no port behind whose callers wait for it, and a call gets a
token that no process has been given before.
-/

/-! ## Events of a call -/

/-- The event gives the call with this number to a process. -/
def Event.asks (n : Nat) : Event -> Bool
  | .request _ _ call _ _ => call = n
  | _ => false

/-- The event answers the call with this number. -/
def Event.answers (n : Nat) : Event -> Bool
  | .answered call _ => call = n
  | _ => false

/-- The event gives or answers some call. -/
def Event.exchange : Event -> Bool
  | .request .. => true
  | .answered .. => true
  | _ => false

/-- Two records of one wait. -/
structure Thread.SameWait (a b : Thread) : Prop where
  state : b.state = a.state
  reason : b.reason = a.reason
  timed : b.timed = a.timed
  port : b.port = a.port
  waitProc : b.waitProc = a.waitProc
  gen : b.gen = a.gen
  proc : b.proc = a.proc

theorem Thread.SameWait.refl (a : Thread) : a.SameWait a := ⟨rfl, rfl, rfl, rfl, rfl, rfl, rfl⟩

theorem Thread.SameWait.of_eq {a b : Thread} (same : b = a) : a.SameWait b := by
  rw [same]
  exact Thread.SameWait.refl a

theorem Thread.SameWait.trans {a b c : Thread} (first : a.SameWait b) (second : b.SameWait c) : a.SameWait c :=
  ⟨second.state.trans first.state, second.reason.trans first.reason, second.timed.trans first.timed,
    second.port.trans first.port, second.waitProc.trans first.waitProc, second.gen.trans first.gen,
    second.proc.trans first.proc⟩

namespace Ipc

variable {k next third : Ipc} {t u : ThreadId} {p : ProcId}

/-! ## Tokens -/

/-- `token_caller` accepts the token of a caller that waits for the process. -/
theorem tokenCaller_iff {token : Word} : k.tokenCaller p token = some t ↔
    (k.thread t).state = .blocked ∧ (k.thread t).reason = .reply ∧ (k.thread t).waitProc = some p ∧
      token = k.tokenOf t := by
  have small : t.val + 1 < 2 ^ 8 := by
    have bound := t.isLt
    omega
  unfold tokenOf
  rw [Word.joined_iff small]
  constructor
  · intro called
    obtain ⟨slot, blocked, reply, waits, gen⟩ := tokenCaller_some called
    refine ⟨blocked, reply, waits, ?_, gen⟩
    unfold tokenThread at slot
    dsimp only at slot
    split at slot
    · next valid =>
        have index := congrArg Fin.val (Option.some.inj slot)
        dsimp only at index
        omega
    · cases slot
  · rintro ⟨blocked, reply, waits, index, gen⟩
    have slot : tokenThread token = some t := by
      unfold tokenThread
      dsimp only
      have valid : 0 < (token &&& 0xFF).toNat ∧ (token &&& 0xFF).toNat ≤ 16 := by
        have bound := t.isLt
        omega
      rw [dif_pos valid]
      exact congrArg some (Fin.ext (by dsimp only; omega))
    unfold tokenCaller
    rw [slot]
    dsimp only
    refine if_neg ?_
    rw [not_or, not_or, not_or, not_not, not_not, not_not, not_not]
    exact ⟨blocked, reply, waits, gen⟩

/-- Threads have tokens of their own. -/
theorem tokenOf_slot (same : k.tokenOf t = next.tokenOf u) : t = u := by
  have small : ∀ v : ThreadId, v.val + 1 < 2 ^ 8 := fun v => by
    have bound := v.isLt
    omega
  have left := ((Word.joined_iff (small t) (k.thread t).gen (k.tokenOf t)).mp rfl).1
  have right := ((Word.joined_iff (small u) (next.thread u).gen (k.tokenOf t)).mp same).1
  exact Fin.ext (by omega)

/-- The token of the next call of a thread. -/
def nextToken (k : Ipc) (t : ThreadId) : Word := BitVec.ofNat 32 (t.val + 1) ||| ((k.thread t).gen + 1) <<< 8

/-! ## What is asked of a run -/

/-- A call gets a token that no process has been given. -/
def FreshToken (k : Ipc) (t : ThreadId) : Prop :=
  ∀ c badge n token server, Event.request c badge n token server ∈ k.history.events -> token ≠ k.nextToken t

/-- Thread `t` waits for the answer of process `p`. -/
def WaitsFor (k : Ipc) (t : ThreadId) (p : ProcId) : Prop :=
  (k.thread t).state = .blocked ∧ (k.thread t).reason = .reply ∧ (k.thread t).waitProc = some p

/-- A port where another process's thread waits for the answer of `p` is named
by handles of `p` only. -/
def Sheds (k : Ipc) (p : ProcId) : Prop :=
  ∀ t q, k.WaitsFor t p -> (k.thread t).proc ≠ some p -> (k.thread t).port = some q ->
    ∀ e, k.handles e = some (.port q) -> e.1 = p

/-- What a step has to meet so that every caller is answered or told. -/
def Answering (k : Ipc) (action : Action) : Prop :=
  k.Spawns action ∧ (∀ t, k.Sends action t -> k.FreshToken t) ∧ ∀ p, k.Ends action p -> k.Sheds p

/-! ## Requests that are answered once -/

/-- A caller waits: its request is queued or with a process. -/
def Calling (k : Ipc) (t : ThreadId) : Prop :=
  (k.thread t).state = .blocked ∧ ((k.thread t).reason = .send ∨ (k.thread t).reason = .reply)

/-- What the past says about the calls that wait. -/
structure Exchanged (k : Ipc) : Prop where
  /-- A caller in REPLY waits for the process that was given its request. -/
  asked : ∀ t, (k.thread t).state = .blocked -> (k.thread t).reason = .reply -> ∃ p c badge,
    (k.thread t).waitProc = some p ∧
      Event.request c badge (k.history.call t) (k.tokenOf t) (k.process p) ∈ k.history.events
  unasked : ∀ t, (k.thread t).state = .blocked -> (k.thread t).reason = .send ->
    k.history.events.countP (Event.asks (k.history.call t)) = 0
  unanswered : ∀ t, k.Calling t -> k.history.events.countP (Event.answers (k.history.call t)) = 0
  untimed : ∀ t, k.Calling t -> (k.thread t).timed = false
  atPort : ∀ t, k.Calling t -> ∃ q, (k.thread t).port = some q
  /-- Calls are numbered. -/
  number : ∀ t, k.Calling t -> k.history.call t ≤ k.history.calls
  past : ∀ n, k.history.calls < n ->
    k.history.events.countP (Event.asks n) = 0 ∧ k.history.events.countP (Event.answers n) = 0
  apart : ∀ t u, k.Calling t -> k.Calling u -> k.history.call t = k.history.call u -> t = u
  once : ∀ n, k.history.events.countP (Event.asks n) ≤ 1 ∧ k.history.events.countP (Event.answers n) ≤ 1
  /-- Who answers was given the request. -/
  answers : ∀ n server, Event.answered n server ∈ k.history.events -> ∃ c badge token,
    Event.request c badge n token server ∈ k.history.events
  /-- A token a caller would accept is that of its call. -/
  tokens : ∀ t, k.Calling t -> ∀ c badge n server,
    Event.request c badge n (k.tokenOf t) server ∈ k.history.events -> n = k.history.call t

/-- The process a caller waits for is live, or it is ending. -/
def Alive (ending : Option ProcId) (k : Ipc) : Prop :=
  ∀ t p, k.WaitsFor t p -> (k.procs p).state = .live ∨ ending = some p

/-! ## What no call depends on -/

/-- No caller is new and nothing is given or answered. -/
structure Lull (k next : Ipc) : Prop where
  waits : ∀ t, next.Calling t -> (k.thread t).SameWait (next.thread t)
  starts : ∀ t p, next.WaitsFor t p -> next.history.starts p = k.history.starts p
  calls : next.history.calls = k.history.calls ∧ next.history.call = k.history.call
  events : ∃ others, next.history.events = others ++ k.history.events ∧ ∀ event ∈ others, event.exchange = false

/-- Callers that wait for an answer still do. -/
def Still (k next : Ipc) : Prop := ∀ t p, k.WaitsFor t p -> (k.thread t).SameWait (next.thread t)

theorem Lull.calling (lull : Lull k next) (calling : next.Calling t) : k.Calling t := by
  have same := lull.waits t calling
  exact ⟨same.state.symm.trans calling.1, calling.2.imp same.reason.symm.trans same.reason.symm.trans⟩

theorem Lull.waitsFor (lull : Lull k next) (waits : next.WaitsFor t p) : k.WaitsFor t p := by
  have same := lull.waits t ⟨waits.1, Or.inr waits.2.1⟩
  exact ⟨same.state.symm.trans waits.1, same.reason.symm.trans waits.2.1, same.waitProc.symm.trans waits.2.2⟩

theorem Lull.trans (first : Lull k next) (second : Lull next third) : Lull k third where
  waits := fun t calling => (first.waits t (second.calling calling)).trans (second.waits t calling)
  starts := fun t p waits => (second.starts t p waits).trans (first.starts t p (second.waitsFor waits))
  calls := ⟨second.calls.1.trans first.calls.1, second.calls.2.trans first.calls.2⟩
  events := by
    obtain ⟨early, before, plain⟩ := first.events
    obtain ⟨late, after, idle⟩ := second.events
    refine ⟨late ++ early, ?_, fun event member => ?_⟩
    · rw [after, before, List.append_assoc]
    · exact (List.mem_append.mp member).elim (idle event) (plain event)

theorem tokenOf_same (same : (k.thread t).SameWait (next.thread t)) : next.tokenOf t = k.tokenOf t := by
  unfold tokenOf
  rw [same.gen]

/-- What counts only events of calls counts the same. -/
theorem Lull.countP (lull : Lull k next) {counts : Event -> Bool}
    (exchange : ∀ event, counts event = true -> event.exchange = true) :
    next.history.events.countP counts = k.history.events.countP counts := by
  obtain ⟨others, same, idle⟩ := lull.events
  have none : others.countP counts = 0 := by
    refine List.countP_eq_zero.mpr fun event member counted => ?_
    have plain := idle event member
    rw [exchange event counted] at plain
    cases plain
  rw [same, List.countP_append, none, Nat.zero_add]

theorem Lull.asks (lull : Lull k next) (n : Nat) :
    next.history.events.countP (Event.asks n) = k.history.events.countP (Event.asks n) := by
  refine lull.countP fun event asks => ?_
  cases event with
  | request => rfl
  | _ => cases asks

theorem Lull.answers (lull : Lull k next) (n : Nat) :
    next.history.events.countP (Event.answers n) = k.history.events.countP (Event.answers n) := by
  refine lull.countP fun event answers => ?_
  cases event with
  | answered => rfl
  | _ => cases answers

variable {ending : Option ProcId} {event : Event}

theorem Lull.mem (lull : Lull k next) (exchange : event.exchange = true) :
    event ∈ next.history.events ↔ event ∈ k.history.events := by
  obtain ⟨others, same, idle⟩ := lull.events
  rw [same, List.mem_append]
  refine ⟨fun member => member.resolve_left fun late => ?_, Or.inr⟩
  have plain := idle event late
  rw [exchange] at plain
  cases plain

theorem Exchanged.lull (exchanged : k.Exchanged) (lull : Lull k next) : next.Exchanged where
  asked := by
    intro t blocked reply
    have same := lull.waits t ⟨blocked, Or.inr reply⟩
    obtain ⟨p, c, badge, waits, given⟩ :=
      exchanged.asked t (same.state.symm.trans blocked) (same.reason.symm.trans reply)
    refine ⟨p, c, badge, same.waitProc.trans waits, ?_⟩
    have process : next.process p = k.process p := by
      unfold Ipc.process
      rw [lull.starts t p ⟨blocked, reply, same.waitProc.trans waits⟩]
    rw [lull.mem rfl, lull.calls.2, tokenOf_same same, process]
    exact given
  unasked := by
    intro t blocked send
    have same := lull.waits t ⟨blocked, Or.inl send⟩
    rw [lull.asks, lull.calls.2]
    exact exchanged.unasked t (same.state.symm.trans blocked) (same.reason.symm.trans send)
  unanswered := by
    intro t calling
    rw [lull.answers, lull.calls.2]
    exact exchanged.unanswered t (lull.calling calling)
  untimed := fun t calling => (lull.waits t calling).timed.trans (exchanged.untimed t (lull.calling calling))
  atPort := by
    intro t calling
    rw [(lull.waits t calling).port]
    exact exchanged.atPort t (lull.calling calling)
  number := by
    intro t calling
    rw [lull.calls.1, lull.calls.2]
    exact exchanged.number t (lull.calling calling)
  past := by
    intro n beyond
    rw [lull.asks, lull.answers]
    rw [lull.calls.1] at beyond
    exact exchanged.past n beyond
  apart := by
    intro t u calling others
    rw [lull.calls.2]
    exact exchanged.apart t u (lull.calling calling) (lull.calling others)
  once := by
    intro n
    rw [lull.asks, lull.answers]
    exact exchanged.once n
  answers := by
    intro n server answered
    obtain ⟨c, badge, token, given⟩ := exchanged.answers n server ((lull.mem rfl).mp answered)
    exact ⟨c, badge, token, (lull.mem rfl).mpr given⟩
  tokens := by
    intro t calling c badge n server given
    rw [tokenOf_same (lull.waits t calling), lull.mem rfl] at given
    rw [lull.calls.2]
    exact exchanged.tokens t (lull.calling calling) c badge n server given

theorem Alive.lull (alive : Alive ending k) (lull : Lull k next)
    (lives : ∀ p, (k.procs p).state = .live -> (next.procs p).state = .live) : Alive ending next :=
  fun t p waits => (alive t p (lull.waitsFor waits)).imp_left (lives p)

/-! ## Moves no call depends on -/

/-- Threads wait as before and the past has nothing of calls. -/
structure Hush (k next : Ipc) : Prop where
  lull : Lull k next
  still : Still k next
  lives : ∀ p, (k.procs p).state = .live -> (next.procs p).state = .live

/-- Callers wait as before. -/
theorem hush_of_waits (waits : ∀ t, k.Calling t ∨ next.Calling t -> (k.thread t).SameWait (next.thread t))
    (lives : ∀ p, (k.procs p).state = .live -> (next.procs p).state = .live)
    (starts : next.history.starts = k.history.starts)
    (calls : next.history.calls = k.history.calls ∧ next.history.call = k.history.call)
    (events : ∃ others, next.history.events = others ++ k.history.events ∧
      ∀ event ∈ others, event.exchange = false) : Hush k next :=
  ⟨⟨fun t calling => waits t (Or.inr calling), fun _ p _ => congrFun starts p, calls, events⟩,
    fun t _ waiting => waits t (Or.inl ⟨waiting.1, Or.inr waiting.2.1⟩), lives⟩

/-- One thread changes, which waits for nothing before and behind. -/
theorem hush_thread {changed : Thread} (threads : next.thread = update k.thread t changed)
    (before : ∀ p, ¬ k.WaitsFor t p)
    (after : changed.state = .blocked -> changed.reason ≠ .send ∧ changed.reason ≠ .reply)
    (lives : ∀ p, (k.procs p).state = .live -> (next.procs p).state = .live)
    (starts : ∀ u p, next.WaitsFor u p -> next.history.starts p = k.history.starts p)
    (calls : next.history.calls = k.history.calls ∧ next.history.call = k.history.call)
    (events : ∃ others, next.history.events = others ++ k.history.events ∧
      ∀ event ∈ others, event.exchange = false) : Hush k next := by
  refine ⟨⟨fun u calling => ?_, starts, calls, events⟩, fun u p waiting => ?_, lives⟩
  · have other : u ≠ t := by
      rintro rfl
      unfold Calling at calling
      rw [threads, update_self] at calling
      exact calling.2.elim (after calling.1).1 (after calling.1).2
    rw [threads, update_of_ne other]
    exact Thread.SameWait.refl _
  · have other : u ≠ t := by
      rintro rfl
      exact before p waiting
    rw [threads, update_of_ne other]
    exact Thread.SameWait.refl _

theorem noEvents {events : List Event} (same : events = k.history.events) :
    ∃ others, events = others ++ k.history.events ∧ ∀ event ∈ others, Event.exchange event = false :=
  ⟨[], same, nofun⟩

/-- A thread that runs or rests waits for nobody. -/
theorem not_waitsFor (awake : (k.thread t).state ≠ .blocked) (p : ProcId) : ¬ k.WaitsFor t p :=
  fun waits => awake waits.1

theorem Quiet.hush (quiet : Quiet k next) : Hush k next := by
  refine hush_of_waits (fun t calling => ?_) (fun p live => (quiet.states p).trans live) ?_ ?_ (noEvents ?_)
  · have blocked := calling.elim (fun calls => Or.inl calls.1) fun calls => Or.inr calls.1
    exact Thread.SameWait.of_eq ((quiet.threads t).waits blocked)
  · rw [quiet.history]
  · rw [quiet.history]
    exact ⟨rfl, rfl⟩
  · rw [quiet.history]

theorem Recount.hush (recount : Recount k next) : Hush k next := by
  refine hush_of_waits (fun t _ => ?_) (fun p live => (recount.live p).mpr live) ?_ ?_ (noEvents ?_)
  · rw [recount.threads t]
    exact ⟨rfl, rfl, rfl, rfl, rfl, rfl, rfl⟩
  · rw [recount.history]
  · rw [recount.history]
    exact ⟨rfl, rfl⟩
  · rw [recount.history]

theorem LinesOnly.hush (only : LinesOnly k next) : Hush k next := by
  refine hush_of_waits (fun t _ => ?_) (fun p live => ?_) ?_ ?_ (noEvents ?_)
  · rw [only.thread]
    exact Thread.SameWait.refl _
  · rw [only.tables.2]
    exact live
  · rw [only.history]
  · rw [only.history]
    exact ⟨rfl, rfl⟩
  · rw [only.history]

theorem Hush.trans (first : Hush k next) (second : Hush next third) : Hush k third where
  lull := first.lull.trans second.lull
  still := by
    intro t p waits
    have same := first.still t p waits
    have later : next.WaitsFor t p :=
      ⟨same.state.trans waits.1, same.reason.trans waits.2.1, same.waitProc.trans waits.2.2⟩
    exact same.trans (second.still t p later)
  lives := fun p live => second.lives p (first.lives p live)

/-- A thread is woken that waits for no answer. -/
theorem hush_wake (other : (k.thread t).reason ≠ .reply) (result : Word) : Hush k (k.wake t result) :=
  hush_thread (wake_thread k t result) (fun _ waits => other waits.2.1) nofun (fun _ live => live) (fun _ _ _ => rfl)
    ⟨rfl, rfl⟩ (noEvents rfl)

theorem hush_deliverGone (k : Ipc) (receiver : ThreadId) (q : PortId) : Hush k (k.deliverGone receiver q) := by
  unfold deliverGone
  cases k.gone.head q with
  | none => exact (Quiet.refl k).hush
  | some c =>
    refine hush_of_waits (fun _ _ => Thread.SameWait.refl _) (fun _ live => live) rfl ⟨rfl, rfl⟩
      ⟨[.gone (k.channel c) (k.chans c).badge], rfl, fun event member => ?_⟩
    rw [List.mem_singleton.mp member]
    rfl

theorem hush_portCreate (k : Ipc) (proc : ProcId) : Hush k (k.portCreate proc).2 := by
  rcases portCreate_cases k proc with ⟨error, failed⟩ | ⟨q, _, ⟨error, failed⟩ | ⟨i, _, made⟩⟩
  · rw [failed]
    exact (Quiet.refl k).hush
  · rw [failed]
    exact hush_of_waits (fun _ _ => Thread.SameWait.refl _) (fun _ live => live) rfl ⟨rfl, rfl⟩ (noEvents rfl)
  · rw [made]
    exact hush_of_waits (fun _ _ => Thread.SameWait.refl _) (fun _ live => live) rfl ⟨rfl, rfl⟩ (noEvents rfl)

theorem hush_newChannel (k : Ipc) (proc : ProcId) (port : Option PortId) (badge : Word) :
    Hush k (k.newChannel proc port badge).2 := by
  rcases newChannel_cases k proc port badge with ⟨error, failed⟩ | ⟨c, _, ⟨error, failed⟩ | ⟨i, _, made⟩⟩
  · rw [failed]
    exact (Quiet.refl k).hush
  · rw [failed]
    exact hush_of_waits (fun _ _ => Thread.SameWait.refl _) (fun _ live => live) rfl ⟨rfl, rfl⟩ (noEvents rfl)
  · rw [made]
    exact hush_of_waits (fun _ _ => Thread.SameWait.refl _) (fun _ live => live) rfl ⟨rfl, rfl⟩ (noEvents rfl)

theorem hush_irqNotify (k : Ipc) (irq : Irq) : Hush k (k.irqNotify irq) := by
  rcases irqNotify_lines k irq with only | ⟨lined, t, q, only, waits, woken⟩
  · exact only.hush
  · rw [woken]
    refine only.hush.trans (hush_wake ?_ fndOk)
    rw [(waitsAt_iff.mp waits).2.1]
    decide

/-! ## Moves of a call -/

/-- What has become of a caller that waited for an answer: it still waits, or
the process it waited for has answered. -/
structure StillWaits (k next : Ipc) (t : ThreadId) (p : ProcId) : Prop where
  same : (k.thread t).SameWait (next.thread t)
  call : next.history.call t = k.history.call t
  process : next.process p = k.process p

def Fate (k next : Ipc) (t : ThreadId) (p : ProcId) : Prop :=
  StillWaits k next t p ∨ Event.answered (k.history.call t) (k.process p) ∈ next.history.events

theorem Hush.fate (hush : Hush k next) (waits : k.WaitsFor t p) : Fate k next t p := by
  refine Or.inl ⟨hush.still t p waits, ?_, ?_⟩
  · rw [hush.lull.calls.2]
  · have same := hush.still t p waits
    unfold Ipc.process
    rw [hush.lull.starts t p ⟨same.state.trans waits.1, same.reason.trans waits.2.1, same.waitProc.trans waits.2.2⟩]

/-- What holds of calls between the moves of a trap. -/
structure Owed (ending : Option ProcId) (k : Ipc) : Prop where
  exchanged : k.Exchanged
  alive : Alive ending k

theorem Owed.hush (owed : Owed ending k) (hush : Hush k next) : Owed ending next :=
  ⟨owed.exchanged.lull hush.lull, owed.alive.lull hush.lull hush.lives⟩

theorem Owed.awake (owed : Owed ending k) (ends : (k.thread t).reason = .reply -> (k.thread t).timed = true)
    (blocked : (k.thread t).state = .blocked) : (k.thread t).reason ≠ .reply := by
  intro reply
  have timed := ends reply
  rw [owed.exchanged.untimed t ⟨blocked, Or.inr reply⟩] at timed
  cases timed

/-- A receiver that runs or waits is given the request of a caller. -/
theorem Exchanged.accept (exchanged : k.Exchanged) {receiver caller : ThreadId} {p : ProcId}
    (own : (k.thread receiver).proc = some p) {q : PortId} (waits : k.waitsAt caller .send q = true) :
    (k.acceptCall receiver caller).Exchanged := by
  have threads := acceptCall_thread k receiver caller
  have procOf : k.procOf receiver = p := by
    unfold Ipc.procOf
    rw [own]
    rfl
  have history : (k.acceptCall receiver caller).history.events = .request (k.history.via caller)
      (k.thread caller).badge (k.history.call caller) (k.tokenOf caller) (k.process p) :: k.history.events := by
    rw [← procOf]
    rfl
  have process : ∀ r, (k.acceptCall receiver caller).process r = k.process r := fun _ => rfl
  have call : (k.acceptCall receiver caller).history.call = k.history.call ∧
      (k.acceptCall receiver caller).history.calls = k.history.calls := ⟨rfl, rfl⟩
  generalize k.acceptCall receiver caller = next at threads history process call ⊢
  obtain ⟨blocked, send, port⟩ := waitsAt_iff.mp waits
  have calls : k.Calling caller := ⟨blocked, Or.inl send⟩
  have self : (next.thread caller).reason = .reply ∧ (next.thread caller).waitProc = some p ∧
      (k.thread caller).timed = (next.thread caller).timed ∧ (k.thread caller).port = (next.thread caller).port := by
    rw [threads, update_self]
    exact ⟨rfl, own, rfl, rfl⟩
  have others : ∀ u, u ≠ caller -> next.thread u = k.thread u := by
    intro u other
    rw [threads, update_of_ne other]
  have tokens : ∀ u, next.tokenOf u = k.tokenOf u := by
    intro u
    unfold tokenOf
    rw [threads]
    by_cases same : u = caller
    · rw [same, update_self]
    · rw [update_of_ne same]
  have calling : ∀ u, next.Calling u -> k.Calling u := by
    intro u waiting
    by_cases same : u = caller
    · exact same ▸ calls
    · unfold Calling at waiting
      rw [others u same] at waiting
      exact waiting
  have asks : ∀ n, n ≠ k.history.call caller ->
      next.history.events.countP (Event.asks n) = k.history.events.countP (Event.asks n) := by
    intro n other
    rw [history]
    refine List.countP_cons_of_neg ?_
    unfold Event.asks
    rw [decide_eq_true_iff]
    exact Ne.symm other
  have answers : ∀ n, next.history.events.countP (Event.answers n) = k.history.events.countP (Event.answers n) := by
    intro n
    rw [history]
    exact List.countP_cons_of_neg Bool.false_ne_true
  refine ⟨fun u waiting reply => ?_, fun u waiting sending => ?_, fun u waiting => ?_, fun u waiting => ?_,
    fun u waiting => ?_, fun u waiting => ?_, fun n beyond => ?_, fun u v waiting waiting' => ?_, fun n => ?_,
    fun n server answered => ?_, fun u waiting c badge n server given => ?_⟩
  · rw [call.1, tokens, history]
    by_cases same : u = caller
    · rw [same]
      refine ⟨p, k.history.via caller, (k.thread caller).badge, self.2.1, ?_⟩
      rw [process]
      exact List.mem_cons_self
    · rw [others u same] at waiting reply ⊢
      obtain ⟨r, c, badge, asked, given⟩ := exchanged.asked u waiting reply
      refine ⟨r, c, badge, asked, List.mem_cons_of_mem _ ?_⟩
      rw [process]
      exact given
  · have other : u ≠ caller := by
      rintro rfl
      rw [self.1] at sending
      cases sending
    rw [others u other] at waiting sending
    have apart : k.history.call u ≠ k.history.call caller := fun same =>
      other (exchanged.apart u caller ⟨waiting, Or.inl sending⟩ calls same)
    rw [call.1, asks _ apart]
    exact exchanged.unasked u waiting sending
  · rw [call.1, answers]
    exact exchanged.unanswered u (calling u waiting)
  · by_cases same : u = caller
    · rw [same, ← self.2.2.1]
      exact exchanged.untimed caller calls
    · rw [others u same]
      exact exchanged.untimed u (calling u waiting)
  · by_cases same : u = caller
    · rw [same, ← self.2.2.2]
      exact exchanged.atPort caller calls
    · rw [others u same]
      exact exchanged.atPort u (calling u waiting)
  · rw [call.1, call.2]
    exact exchanged.number u (calling u waiting)
  · rw [call.2] at beyond
    have behind : n ≠ k.history.call caller := by
      have most := exchanged.number caller calls
      omega
    rw [asks n behind, answers]
    exact exchanged.past n beyond
  · rw [call.1]
    exact exchanged.apart u v (calling u waiting) (calling v waiting')
  · rw [answers]
    refine ⟨?_, (exchanged.once n).2⟩
    by_cases here : n = k.history.call caller
    · have before := exchanged.unasked caller blocked send
      rw [history, here, List.countP_cons, before]
      split <;> omega
    · rw [asks n here]
      exact (exchanged.once n).1
  · rw [history] at answered ⊢
    obtain ⟨c, badge, token, given⟩ :=
      exchanged.answers n server ((List.mem_cons.mp answered).resolve_left nofun)
    exact ⟨c, badge, token, List.mem_cons_of_mem _ given⟩
  · rw [tokens, history] at given
    rw [call.1]
    rcases List.mem_cons.mp given with here | before
    · have parts := Event.request.inj here
      rw [tokenOf_slot parts.2.2.2.1]
      exact parts.2.2.1
    · exact exchanged.tokens u (calling u waiting) c badge n server before

/-- The process a caller waits for answers it. -/
theorem Exchanged.answer (exchanged : k.Exchanged) {caller : ThreadId} {token : Word}
    (called : k.tokenCaller (k.procOf t) token = some caller) (msg : Msg) : (k.answerCall t caller msg).Exchanged := by
  have threads := answerCall_thread k t caller msg
  have history : (k.answerCall t caller msg).history.events =
      .answered (k.history.call caller) (k.process (k.procOf t)) :: k.history.events := rfl
  have process : ∀ r, (k.answerCall t caller msg).process r = k.process r := fun _ => rfl
  have call : (k.answerCall t caller msg).history.call = k.history.call ∧
      (k.answerCall t caller msg).history.calls = k.history.calls := ⟨rfl, rfl⟩
  generalize k.answerCall t caller msg = next at threads history process call ⊢
  obtain ⟨blocked, reply, waits, _⟩ := tokenCaller_iff.mp called
  have calls : k.Calling caller := ⟨blocked, Or.inr reply⟩
  have others : ∀ u, next.Calling u -> u ≠ caller ∧ next.thread u = k.thread u := by
    intro u waiting
    have other : u ≠ caller := by
      rintro rfl
      unfold Calling at waiting
      rw [threads, update_self] at waiting
      cases waiting.1
    rw [threads, update_of_ne other]
    exact ⟨other, rfl⟩
  have calling : ∀ u, next.Calling u -> k.Calling u := by
    intro u waiting
    have same := (others u waiting).2
    unfold Calling at waiting
    rw [same] at waiting
    exact waiting
  have tokens : ∀ u, next.Calling u -> next.tokenOf u = k.tokenOf u := by
    intro u waiting
    unfold tokenOf
    rw [(others u waiting).2]
  have asks : ∀ n, next.history.events.countP (Event.asks n) = k.history.events.countP (Event.asks n) := by
    intro n
    rw [history]
    exact List.countP_cons_of_neg Bool.false_ne_true
  have answers : ∀ n, n ≠ k.history.call caller ->
      next.history.events.countP (Event.answers n) = k.history.events.countP (Event.answers n) := by
    intro n other
    rw [history]
    refine List.countP_cons_of_neg ?_
    unfold Event.answers
    rw [decide_eq_true_iff]
    exact Ne.symm other
  refine ⟨fun u waiting replying => ?_, fun u waiting sending => ?_, fun u waiting => ?_, fun u waiting => ?_,
    fun u waiting => ?_, fun u waiting => ?_, fun n beyond => ?_, fun u v waiting waiting' => ?_, fun n => ?_,
    fun n server answered => ?_, fun u waiting c badge n server given => ?_⟩
  · have waits := (⟨waiting, Or.inr replying⟩ : next.Calling u)
    rw [call.1, tokens u waits, history]
    rw [(others u waits).2] at waiting replying ⊢
    obtain ⟨r, c, badge, asked, given⟩ := exchanged.asked u waiting replying
    refine ⟨r, c, badge, asked, List.mem_cons_of_mem _ ?_⟩
    rw [process]
    exact given
  · have same := (others u ⟨waiting, Or.inl sending⟩).2
    rw [same] at waiting sending
    rw [call.1, asks]
    exact exchanged.unasked u waiting sending
  · have apart : k.history.call u ≠ k.history.call caller := fun same =>
      (others u waiting).1 (exchanged.apart u caller (calling u waiting) calls same)
    rw [call.1, answers _ apart]
    exact exchanged.unanswered u (calling u waiting)
  · rw [(others u waiting).2]
    exact exchanged.untimed u (calling u waiting)
  · rw [(others u waiting).2]
    exact exchanged.atPort u (calling u waiting)
  · rw [call.1, call.2]
    exact exchanged.number u (calling u waiting)
  · rw [call.2] at beyond
    have behind : n ≠ k.history.call caller := by
      have most := exchanged.number caller calls
      omega
    rw [asks, answers n behind]
    exact exchanged.past n beyond
  · rw [call.1]
    exact exchanged.apart u v (calling u waiting) (calling v waiting')
  · rw [asks]
    refine ⟨(exchanged.once n).1, ?_⟩
    by_cases here : n = k.history.call caller
    · have before := exchanged.unanswered caller calls
      rw [history, here, List.countP_cons, before]
      split <;> omega
    · rw [answers n here]
      exact (exchanged.once n).2
  · rw [history] at answered ⊢
    rcases List.mem_cons.mp answered with here | before
    · obtain ⟨r, c, badge, asked, given⟩ := exchanged.asked caller blocked reply
      cases asked.symm.trans waits
      cases here
      exact ⟨c, badge, k.tokenOf caller, List.mem_cons_of_mem _ given⟩
    · obtain ⟨c, badge, token, given⟩ := exchanged.answers n server before
      exact ⟨c, badge, token, List.mem_cons_of_mem _ given⟩
  · rw [tokens u waiting, history] at given
    rw [call.1]
    exact exchanged.tokens u (calling u waiting) c badge n server ((List.mem_cons.mp given).resolve_left nofun)

/-- A thread that runs sends a request with a token that nobody has. -/
theorem Exchanged.sendCall (exchanged : k.Exchanged) (runs : (k.thread t).state = .running) (fresh : k.FreshToken t)
    (c : ChanId) (q : PortId) (msg : Msg) (rep buf cap : Word) : (k.sendCall t c q msg rep buf cap).Exchanged := by
  have threads := sendCall_thread k t c q msg rep buf cap
  have history : (k.sendCall t c q msg rep buf cap).history.events = k.history.events := rfl
  have process : ∀ r, (k.sendCall t c q msg rep buf cap).process r = k.process r := fun _ => rfl
  have call : (k.sendCall t c q msg rep buf cap).history.call =
      update k.history.call t (k.history.calls + 1) ∧
      (k.sendCall t c q msg rep buf cap).history.calls = k.history.calls + 1 := ⟨rfl, rfl⟩
  generalize k.sendCall t c q msg rep buf cap = next at threads history process call ⊢
  have self : (next.thread t).reason = .send ∧ (next.thread t).timed = false ∧ (next.thread t).port = some q ∧
      next.tokenOf t = k.nextToken t := by
    unfold tokenOf
    rw [threads, update_self]
    exact ⟨rfl, rfl, rfl, rfl⟩
  have others : ∀ u, u ≠ t -> next.thread u = k.thread u := by
    intro u other
    rw [threads, update_of_ne other]
  have calling : ∀ u, u ≠ t -> next.Calling u -> k.Calling u := by
    intro u other waiting
    unfold Calling at waiting
    rw [others u other] at waiting
    exact waiting
  have tokens : ∀ u, u ≠ t -> next.tokenOf u = k.tokenOf u := by
    intro u other
    unfold tokenOf
    rw [others u other]
  have latest : next.history.call t = k.history.calls + 1 := by
    rw [call.1, update_self]
  have earlier : ∀ u, u ≠ t -> next.history.call u = k.history.call u := by
    intro u other
    rw [call.1, update_of_ne other]
  have unused := exchanged.past (k.history.calls + 1) (Nat.lt_succ_self _)
  refine ⟨fun u waiting replying => ?_, fun u waiting sending => ?_, fun u waiting => ?_, fun u waiting => ?_,
    fun u waiting => ?_, fun u waiting => ?_, fun n beyond => ?_, fun u v waiting waiting' same => ?_, ?_,
    ?_, fun u waiting c badge n server given => ?_⟩
  · have other : u ≠ t := by
      rintro rfl
      rw [self.1] at replying
      cases replying
    rw [earlier u other, tokens u other, history]
    rw [others u other] at waiting replying ⊢
    obtain ⟨r, c, badge, asked, given⟩ := exchanged.asked u waiting replying
    refine ⟨r, c, badge, asked, ?_⟩
    rw [process]
    exact given
  · rw [history]
    by_cases here : u = t
    · rw [here, latest]
      exact unused.1
    · rw [earlier u here]
      rw [others u here] at waiting sending
      exact exchanged.unasked u waiting sending
  · rw [history]
    by_cases here : u = t
    · rw [here, latest]
      exact unused.2
    · rw [earlier u here]
      exact exchanged.unanswered u (calling u here waiting)
  · by_cases here : u = t
    · rw [here]
      exact self.2.1
    · rw [others u here]
      exact exchanged.untimed u (calling u here waiting)
  · by_cases here : u = t
    · rw [here]
      exact ⟨q, self.2.2.1⟩
    · rw [others u here]
      exact exchanged.atPort u (calling u here waiting)
  · rw [call.2]
    by_cases here : u = t
    · rw [here, latest]
    · rw [earlier u here]
      exact Nat.le_succ_of_le (exchanged.number u (calling u here waiting))
  · rw [call.2] at beyond
    rw [history]
    exact exchanged.past n (Nat.lt_of_succ_lt beyond)
  · by_cases here : u = t <;> by_cases there : v = t
    · rw [here, there]
    · rw [here, latest, earlier v there] at same
      have most := exchanged.number v (calling v there waiting')
      omega
    · rw [there, latest, earlier u here] at same
      have most := exchanged.number u (calling u here waiting)
      omega
    · rw [earlier u here, earlier v there] at same
      exact exchanged.apart u v (calling u here waiting) (calling v there waiting') same
  · rw [history]
    exact exchanged.once
  · rw [history]
    exact exchanged.answers
  · rw [history] at given
    by_cases here : u = t
    · rw [here, self.2.2.2] at given
      exact absurd rfl (fresh c badge n _ server given)
    · rw [tokens u here] at given
      rw [earlier u here]
      exact exchanged.tokens u (calling u here waiting) c badge n server given

/-- A record starts for whose process nobody waits. -/
theorem Owed.startProc (owed : Owed none k) (idle : (k.procs p).state ≠ .live) (rests : (k.thread t).active = false)
    (priority : Nat) : Hush k (k.startProc p t priority) := by
  obtain ⟨clamped, threads⟩ := startProc_thread k p t priority
  have awake : (k.thread t).state ≠ .blocked := fun blocked =>
    Bool.false_ne_true (rests.symm.trans (Thread.active_blocked blocked))
  refine hush_thread threads (not_waitsFor awake) nofun (fun q live => startProc_live k p t priority live)
    (fun u q waits => ?_) ⟨rfl, rfl⟩ (noEvents rfl)
  have other : u ≠ t := by
    rintro rfl
    unfold WaitsFor at waits
    rw [threads, update_self] at waits
    cases waits.1
  have before : k.WaitsFor u q := by
    unfold WaitsFor at waits
    rw [threads, update_of_ne other] at waits
    exact waits
  have live := (owed.alive u q before).resolve_right nofun
  have apart : q ≠ p := by
    rintro rfl
    exact idle live
  exact update_of_ne apart ..

theorem Lull.happened (lull : Lull k next) (happened : event ∈ k.history.events) :
    event ∈ next.history.events := by
  obtain ⟨others, same, _⟩ := lull.events
  rw [same]
  exact List.mem_append_right others happened

/-- Nothing that happened is forgotten. -/
theorem Move.happened (move : Move k next) (happened : event ∈ k.history.events) :
    event ∈ next.history.events := by
  cases move with
  | quiet same => exact same.hush.lull.happened happened
  | irqNotify irq => exact (hush_irqNotify k irq).lull.happened happened
  | irqRelease irq => exact (linesOnly_irqRelease k irq).hush.lull.happened happened
  | irqBind proc irq h => exact (irqBind_lines k proc irq h).hush.lull.happened happened
  | takeIrq receiver irq => exact (linesOnly_deliverIrq k receiver irq).hush.lull.happened happened
  | @takeGone receiver q _ => exact (hush_deliverGone k receiver q).lull.happened happened
  | @place p _ i _ o _ =>
    exact ((recount_setHandle k p i (some o)).trans (recount_objRef _ o)).hush.lull.happened happened
  | transfer _ _ _ => exact (recount_transfer ..).hush.lull.happened happened
  | @portCreate p _ => exact (hush_portCreate k p).lull.happened happened
  | @newChannel p _ port _ badge => exact (hush_newChannel k p port badge).lull.happened happened
  | accept _ _ _ | answer _ _ msg => exact List.mem_cons_of_mem _ happened
  | wake _ _ _ => exact happened
  | block _ _ _ => exact happened
  | die _ _ => exact happened
  | makeReady _ _ => exact happened
  | retune _ _ => exact happened
  | register _ _ _ => exact happened
  | receive _ _ _ _ _ _ => exact happened
  | startProc _ _ _ _ => exact happened

/-- Between the moves of a trap every caller is answered or still waits. -/
theorem Owed.move (owed : Owed none k) (counted : k.Counted) (move : Move k next) :
    Owed none next ∧ ∀ t p, k.WaitsFor t p -> Fate k next t p := by
  have hushed : Hush k next -> Owed none next ∧ ∀ t p, k.WaitsFor t p -> Fate k next t p :=
    fun hush => ⟨owed.hush hush, fun t p waits => hush.fate waits⟩
  cases move with
  | quiet same => exact hushed same.hush
  | wake blocked ends result => exact hushed (hush_wake (owed.awake ends blocked) result)
  | @block t runs reason other timeout =>
    have awake : (k.thread t).state ≠ .blocked := by
      rw [runs]
      decide
    exact hushed (hush_thread (Sched.block_threads k.sched t reason timeout) (not_waitsFor awake)
      (fun _ => ⟨other.1, other.2.1⟩) (fun _ live => live) (fun _ _ _ => rfl) ⟨rfl, rfl⟩ (noEvents rfl))
  | @die t runs code =>
    have awake : (k.thread t).state ≠ .blocked := by
      rw [runs]
      decide
    have threads := modifyThread_thread k t fun thread => { thread with exitCode := code, state := .dead }
    exact hushed (hush_thread threads (not_waitsFor awake) nofun (fun _ live => live) (fun _ _ _ => rfl)
      ⟨rfl, rfl⟩ (noEvents rfl))
  | @makeReady t rests _ =>
    obtain ⟨priority, ready⟩ := makeReady_thread k t
    have awake : (k.thread t).state ≠ .blocked := fun blocked =>
      Bool.false_ne_true (rests.symm.trans (Thread.active_blocked blocked))
    exact hushed (hush_thread ready (not_waitsFor awake) nofun (fun _ live => live) (fun _ _ _ => rfl)
      ⟨rfl, rfl⟩ (noEvents rfl))
  | irqNotify irq => exact hushed (hush_irqNotify k irq)
  | irqRelease irq => exact hushed (linesOnly_irqRelease k irq).hush
  | irqBind proc irq h => exact hushed (irqBind_lines k proc irq h).hush
  | takeIrq receiver irq => exact hushed (linesOnly_deliverIrq k receiver irq).hush
  | @takeGone receiver q _ => exact hushed (hush_deliverGone k receiver q)
  | @place p _ i _ o _ => exact hushed ((recount_setHandle k p i (some o)).trans (recount_objRef _ o)).hush
  | transfer _ _ _ => exact hushed (recount_transfer ..).hush
  | @portCreate p _ => exact hushed (hush_portCreate k p)
  | @newChannel p _ port _ badge => exact hushed (hush_newChannel k p port badge)
  | retune _ _ | register _ _ _ =>
    exact hushed (hush_of_waits (fun _ _ => Thread.SameWait.refl _) (fun _ live => live) rfl ⟨rfl, rfl⟩ (noEvents rfl))
  | @accept receiver caller serves other q waits =>
    obtain ⟨p, own, live⟩ := counted.owned receiver serves
    have threads := acceptCall_thread k receiver caller
    obtain ⟨blocked, send, _⟩ := waitsAt_iff.mp waits
    refine ⟨⟨owed.exchanged.accept own waits, fun u r waiting => ?_⟩, fun u r waiting => Or.inl ⟨?_, rfl, rfl⟩⟩
    · unfold WaitsFor at waiting
      rw [threads] at waiting
      by_cases same : u = caller
      · rw [same, update_self] at waiting
        cases own.symm.trans waiting.2.2
        exact Or.inl live
      · rw [update_of_ne same] at waiting
        exact owed.alive u r waiting
    · have same : u ≠ caller := by
        rintro rfl
        cases send.symm.trans waiting.2.1
      rw [threads, update_of_ne same]
      exact Thread.SameWait.refl _
  | @receive t runs q _ _ _ _ timeout =>
    have awake : (k.thread t).state ≠ .blocked := by
      rw [runs]
      decide
    have away : Reason.recv ≠ .send ∧ Reason.recv ≠ .reply := by decide
    exact hushed (hush_thread (receive_thread k t q timeout) (not_waitsFor awake) (fun _ => away)
      (fun _ live => live) (fun _ _ _ => rfl) ⟨rfl, rfl⟩ (noEvents rfl))
  | @answer t caller runs token called msg =>
    have threads := answerCall_thread k t caller msg
    obtain ⟨_, _, asks, _⟩ := tokenCaller_iff.mp called
    refine ⟨⟨owed.exchanged.answer called msg, fun u r waiting => ?_⟩, fun u r waiting => ?_⟩
    · unfold WaitsFor at waiting
      rw [threads] at waiting
      by_cases same : u = caller
      · rw [same, update_self] at waiting
        cases waiting.1
      · rw [update_of_ne same] at waiting
        exact owed.alive u r waiting
    · by_cases same : u = caller
      · right
        rw [same] at waiting ⊢
        cases asks.symm.trans waiting.2.2
        exact List.mem_cons_self
      · refine Or.inl ⟨?_, rfl, rfl⟩
        rw [threads, update_of_ne same]
        exact Thread.SameWait.refl _
  | @startProc p t idle _ rests priority => exact hushed (owed.startProc idle rests priority)

theorem StillWaits.waitsFor (still : StillWaits k next t p) (waits : k.WaitsFor t p) : next.WaitsFor t p :=
  ⟨still.same.state.trans waits.1, still.same.reason.trans waits.2.1, still.same.waitProc.trans waits.2.2⟩

theorem Fate.trans (first : Fate k next t p)
    (second : StillWaits k next t p -> Fate next third t p)
    (events : ∀ event ∈ next.history.events, event ∈ third.history.events) : Fate k third t p := by
  rcases first with still | answered
  · refine (second still).imp (fun later => ?_) fun answered => ?_
    · exact ⟨still.same.trans later.same, later.call.trans still.call, later.process.trans still.process⟩
    · rw [still.call, still.process] at answered
      exact answered
  · exact Or.inr (events _ answered)

theorem Owed.moves (owed : Owed none k) (consistent : k.Consistent) (path : Moves k next) :
    Owed none next ∧ ∀ t p, k.WaitsFor t p -> Fate k next t p := by
  have all : Owed none next ∧ next.Consistent ∧ ∀ t p, k.WaitsFor t p -> Fate k next t p := by
    refine path.invariant (motive := fun next => Owed none next ∧ next.Consistent ∧ ∀ t p, k.WaitsFor t p -> Fate k next t p)
      ⟨owed, consistent, fun t p waits => (Quiet.refl k).hush.fate waits⟩ fun first second holds move => ?_
    obtain ⟨before, counts, fates⟩ := holds
    obtain ⟨behind, moved⟩ := before.move counts.counted move
    refine ⟨behind, counts.move move, fun t p waits => (fates t p waits).trans (fun still => ?_) fun _ => move.happened⟩
    exact moved t p (still.waitsFor waits)
  exact ⟨all.1, all.2.2⟩

end Ipc
end Src32.Kernel
