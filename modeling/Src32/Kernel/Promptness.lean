import Src32.Kernel.Replay
import Src32.Kernel.Wakeups

namespace Src32.Kernel

open Function (update update_self update_of_ne update_idem)

/-!
# Callers are served in order

What the invariants of waiting say between two traps, and how far the order of
callers goes: sequence numbers wrap, so that a caller that has waited for more
than 2^31 calls is overtaken by the next one.
-/

/-! ## A thread that is alone -/

namespace Sched

variable {s : Sched} {t : ThreadId}

/-- No thread is queued. -/
structure Unqueued (s : Sched) : Prop where
  heads : ∀ p < 3, s.queues.head p = none
  tails : ∀ p < 3, s.queues.tail p = none

theorem drain_unqueued {p : Nat} (empty : s.queues.head p = none) : drain p drainFuel s = (none, s) := by
  unfold drainFuel drain
  rw [empty]

theorem drain_ready_first {p : Nat} (first : s.queues.head p = some t) (ready : (s.threads t).state = .ready) :
    drain p drainFuel s = (some t, { s with queues := s.queues.popFront p t }) := by
  unfold drainFuel drain
  rw [first]
  exact if_pos ready

theorem noteUrgent_rest (s : Sched) (t : ThreadId) :
    (s.noteUrgent t).queues = s.queues ∧ (s.noteUrgent t).current = s.current := by
  unfold noteUrgent
  split <;> exact ⟨rfl, rfl⟩

/-- A thread that is woken while no other is ready runs. -/
theorem alone_resumes (current : s.current = some t) (priority : (s.threads t).priority = 2) (unqueued : s.Unqueued)
    (result : Word) :
    (s.wake t result).schedNext.current = some t ∧ (s.wake t result).schedNext.Unqueued ∧
      (s.wake t result).schedNext.threads = update s.threads t
        { s.threads t with r1 := result, reason := .none, timed := false, state := .running } := by
  have threads := wake_threads s t result
  have queues : (s.wake t result).queues = s.queues.pushBack 2 t := by
    unfold wake
    rw [(noteUrgent_rest _ t).1]
    unfold enqueue
    dsimp only
    rw [modify_self, if_neg Bool.false_ne_true, priority]
    rfl
  have still : (s.wake t result).current = some t := by
    unfold wake
    rw [(noteUrgent_rest _ t).2]
    exact current
  have pushed : s.queues.pushBack 2 t =
      ⟨update s.queues.head 2 (some t), update s.queues.tail 2 (some t),
        update s.queues.next t none⟩ := by
    unfold Bank.pushBack
    rw [unqueued.tails 2 (by decide)]
  rw [pushed] at queues
  generalize s.wake t result = woken at threads queues still ⊢
  have ready : (woken.threads t).state = .ready := by
    rw [threads, update_self]
  have ready' : (woken.threads t).state ≠ .running := by
    rw [ready]
    decide
  have head : ∀ p < 3, woken.queues.head p = if p = 2 then some t else none := by
    intro p queued
    rw [queues]
    dsimp only
    rw [Function.update_apply, unqueued.heads p queued]
  have chosen : dequeue { woken with needResched := false } =
      (some t, { woken with needResched := false, queues := woken.queues.popFront 2 t }) := by
    have first : drain 0 drainFuel { woken with needResched := false } = (none, { woken with needResched := false }) :=
      drain_unqueued (head 0 (by decide))
    have second : drain 1 drainFuel { woken with needResched := false } = (none, { woken with needResched := false }) :=
      drain_unqueued (head 1 (by decide))
    have third : drain 2 drainFuel { woken with needResched := false } = _ := drain_ready_first (head 2 (by decide)) ready
    unfold dequeue priorities
    rw [show List.range 3 = [0, 1, 2] from rfl]
    unfold dequeueFrom
    rw [first]
    dsimp only
    unfold dequeueFrom
    rw [second]
    dsimp only
    unfold dequeueFrom
    rw [third]
  have resumed : woken.schedNext = Sched.resume { woken with
      needResched := false, queues := woken.queues.popFront 2 t } (some t) := by
    unfold schedNext
    rw [still]
    dsimp only
    rw [if_neg ready']
    unfold dispatch
    dsimp only
    rw [chosen]
    dsimp only
    rw [still]
  rw [resumed]
  refine ⟨rfl, ⟨fun p queued => ?_, fun p queued => ?_⟩, ?_⟩
  · change update woken.queues.head 2 (woken.queues.next t) p = none
    rw [queues]
    dsimp only
    rw [update_self, update_idem, Function.update_apply, unqueued.heads p queued, ite_self]
  · change (if woken.queues.next t = none then update woken.queues.tail 2 none else woken.queues.tail) p = none
    have cut : woken.queues.next t = none := by
      rw [queues]
      exact update_self ..
    rw [if_pos cut, queues]
    dsimp only
    rw [update_idem, Function.update_apply, unqueued.tails p queued, ite_self]
  · unfold resume modify
    dsimp only
    rw [threads, update_self, update_idem]
end Sched

namespace Ipc

variable {k next : Ipc} {p : PortId} {receiver caller : ThreadId}

/-- What a state between traps says about waits and what they wait for. -/
structure Prompt (k : Ipc) : Prop where
  /-- Where a thread waits in RECV there is nothing to take. -/
  receives : ∀ t p, k.waitsAt t .recv p = true ->
    (∀ irq, (k.irqs irq).port = some p -> (k.irqs irq).pending = false) ∧ k.gone.head p = none ∧
      ∀ u, k.waitsAt u .send p = false
  /-- Every caller has its bit. -/
  senders : ∀ t, (k.thread t).state = .blocked -> (k.thread t).reason = .send -> k.sendBlocked.getLsbD t.val = true
  /-- The mask is the set of pending lines. -/
  lines : ∀ i, k.irqPendingMask.getLsbD i = true ↔ ∃ irq : Irq, irq.val = i ∧ (k.irqs irq).pending = true
  /-- Sequence numbers are the low parts of the numbers of calls. -/
  numbers : ∀ t, (k.thread t).state = .blocked -> (k.thread t).reason = .send ->
    (k.thread t).seq = BitVec.ofNat 32 (k.history.call t)
  /-- A caller is found if there is one. -/
  found : ∀ p, match (k.nextCaller p).1 with
    | none => ∀ t, k.waitsAt t .send p = false
    | some first => k.waitsAt first .send p = true
  /-- It is the first one if the calls are less than 2^31 apart. -/
  first : ∀ p first, (k.nextCaller p).1 = some first ->
    (∀ t u, k.waitsAt t .send p = true -> k.waitsAt u .send p = true ->
      k.history.call t < k.history.call u + 2 ^ 31) ->
        ∀ t, k.waitsAt t .send p = true -> t ≠ first -> k.history.call first < k.history.call t

theorem Awaited.prompt (awaited : Awaited none k) : k.Prompt := by
  obtain ⟨noLost, masked, sequenced⟩ := awaited
  refine ⟨fun t p waits => ⟨noLost.lines t p waits, noLost.gone t p waits, fun u => ?_⟩, fun t blocked sends => ?_,
    fun i => ⟨fun bit => ?_, ?_⟩, fun t blocked sends => (sequenced.number t blocked sends).1, fun p => ?_, ?_⟩
  · rw [← Bool.not_eq_true]
    intro sends
    cases noLost.callers t p waits u sends
  · obtain ⟨p, port⟩ := masked.ports t blocked sends
    exact masked.senders t p (waitsAt_iff.mpr ⟨blocked, sends, port⟩)
  · rcases Nat.lt_or_ge i 16 with inside | beyond
    · exact ⟨⟨i, inside⟩, rfl, (masked.lines ⟨i, inside⟩).symm.trans bit⟩
    · rw [masked.high i beyond] at bit
      cases bit
  · rintro ⟨irq, rfl, pending⟩
    exact (masked.lines irq).trans pending
  · cases next : (k.nextCaller p).1 with
    | none =>
      intro t
      rw [← Bool.not_eq_true]
      exact fun waits => nextCaller_none.mp next t ⟨masked.senders t p waits, waits⟩
    | some first => exact nextCaller_some next
  · intro p first found near t waits other
    have scanned := nextCaller_scanned k p
    have numbered : k.Numbered p k.history.call := by
      intro t u calls others
      obtain ⟨blocked, sends, _⟩ := waitsAt_iff.mp calls.2
      exact ⟨(sequenced.number t blocked sends).1, near t u calls.2 others.2⟩
    have least := scanned.first k.history.call numbered first found t (List.mem_finRange t)
      ⟨masked.senders t p waits, waits⟩
    have different : k.history.call first ≠ k.history.call t := by
      intro same
      obtain ⟨blocked, sends, _⟩ := waitsAt_iff.mp waits
      obtain ⟨blocked', sends', _⟩ := waitsAt_iff.mp (nextCaller_some found)
      exact other (sequenced.apart first t blocked' sends' blocked sends same).symm
    exact Nat.lt_of_le_of_ne least different

section

variable {mem : UserMemory} {driver : Except FndError Unit} {t : ThreadId} {ch req rep buf cap : Word} {c : ChanId}
  {msg : Msg} (checked : checkCall mem k (k.procOf t) ch req rep = .ok (c, msg, buf, cap))
  (user : (k.chans c).kernel = 0) (port : (k.chans c).port = some p)

include checked user port

/-- A call that nobody receives. -/
theorem ipcCall_unheard (nobody : (k.sendCall t c p msg rep buf cap).findReceiver p = none) :
    ipcCall mem driver k t ch req rep = (.ok fndOk, k.sendCall t c p msg rep buf cap) := by
  unfold ipcCall
  rw [checked]
  dsimp only
  rw [if_neg (not_not.mpr user), port]
  dsimp only
  rw [nobody]

/-- A call from which the receiver takes nothing. -/
theorem ipcCall_refused {after : Ipc} (found : (k.sendCall t c p msg rep buf cap).findReceiver p = some receiver)
    (refused : takeNext mem (k.sendCall t c p msg rep buf cap) receiver p = (false, after)) :
    ipcCall mem driver k t ch req rep = (.ok fndOk, after) := by
  unfold ipcCall
  rw [checked]
  dsimp only
  rw [if_neg (not_not.mpr user), port]
  dsimp only
  rw [found]
  dsimp only
  rw [refused]

end

/-- A lone caller whose handle is refused leaves the wait of the receiver as it
was. -/
theorem takeNext_refused (mem : UserMemory) (lines : k.irqPendingMask = 0) (gone : k.gone.head p = none)
    (lone : ∀ t, k.waitsAt t .send p = decide (t = caller)) (bit : k.sendBlocked.getLsbD caller.val = true)
    (transfers : (k.thread caller).req.transfers = true) {i : HandleIx} {u : ThreadId}
    (names : k.entry (k.procOf caller) (k.thread caller).req.a3 = some (i, .thread u))
    (foreign : k.procOf caller ≠ k.procOf receiver) :
    ∃ mask accesses, takeNext mem k receiver p = (false, { k.wake caller FndError.access.code with
      sendBlocked := mask, history := { k.history with accesses := accesses } }) := by
  have irqs : k.pendingIrq p = none := if_pos lines
  have queued : k.Queued p caller := ⟨bit, (lone caller).trans (decide_eq_true rfl)⟩
  have first : (k.nextCaller p).1 = some caller := by
    cases found : (k.nextCaller p).1 with
    | none => exact absurd queued (nextCaller_none.mp found caller)
    | some t =>
      have waits := nextCaller_some found
      rw [lone, decide_eq_true_iff] at waits
      rw [waits]
  have only := nextCaller_eq k p
  unfold takeNext
  rw [irqs]
  dsimp only
  rw [if_neg (not_not.mpr gone)]
  unfold takeCaller
  generalize k.nextCaller p = result at first only
  obtain ⟨found, k₁⟩ := result
  dsimp only at first only
  rw [first]
  dsimp only
  generalize k₁.sendBlocked = mask at only
  have refused : ∃ accesses, deliverCall mem k₁ receiver caller =
      (.error .access, { k₁ with history := { k₁.history with accesses := accesses } }) := by
    unfold deliverCall transferCall
    generalize readEq : k₁.touch (k₁.thread receiver).proc (k₁.thread receiver).rcv recvSize permR = k₂
    have sames : k₂.sched = k.sched ∧ k₂.handles = k.handles := by
      rw [← readEq, only]
      exact ⟨rfl, rfl⟩
    have threads : k₂.thread = k.thread := congrArg Sched.threads sames.1
    have procs : ∀ t, k₂.procOf t = k.procOf t := fun t => by
      unfold procOf
      rw [threads]
    have still : k₂.entry (k.procOf caller) (k.thread caller).req.a3 = some (i, .thread u) := by
      unfold entry at names ⊢
      rw [sames.2]
      exact names
    dsimp only
    rw [threads, if_pos transfers, procs, procs]
    unfold handleMove handleDupInto
    rw [still]
    dsimp only
    rw [if_pos foreign, ← readEq]
    exact ⟨_, rfl⟩
  obtain ⟨accesses, refused⟩ := refused
  rw [refused]
  dsimp only
  rw [only]
  generalize woken : Ipc.wake { k with
    sendBlocked := mask, history := { k.history with accesses := accesses } } caller FndError.access.code = k₂
  have nobody : (k₂.nextCaller p).1 = none := by
    refine nextCaller_none.mpr fun t queued => ?_
    have waits := queued.2
    rw [← woken, wake_waitsAt] at waits
    have before : k.waitsAt t .send p = decide (t = caller) := lone t
    change (k.waitsAt t .send p && !decide (t = caller)) = true at waits
    rw [before, Bool.and_not_self] at waits
    cases waits
  have rest := nextCaller_eq k₂ p
  unfold takeCaller
  generalize k₂.nextCaller p = last at nobody rest
  obtain ⟨found, k₃⟩ := last
  dsimp only at nobody rest
  rw [nobody]
  dsimp only
  rw [rest, ← woken]
  exact ⟨k₃.sendBlocked, accesses, rfl⟩

/-- A call gets the next number. -/
theorem sendCall_call (k : Ipc) (t : ThreadId) (c : ChanId) (p : PortId) (msg : Msg) (rep buf cap : Word) :
    (k.sendCall t c p msg rep buf cap).history.call = update k.history.call t (k.history.calls + 1) := rfl

/-- User memory with a message at 0x100 that transfers handle 6, and a
`fnd_recv` at 0 for a wait without end. -/
def lapMemory : UserMemory :=
  { zeroMemory with
    word := fun _ addr =>
      if addr = 56 then fndForever else if addr = 0x104 then fndMsgXferHandle else if addr = 0x114 then 6 else 0 }

/-- A process has the ports 0 and 1 with a channel each, and three threads: the
child's waits in RECV at port 1, a second one has called port 0, and the first
one runs. -/
def lapStart : Ipc := boot.after
  [.module 2 0 emptyImage, .next, .syscall .portCreate, .syscall .portCreate, .syscall (.chanCreate 1 1),
    .syscall (.chanCreate 2 1), .syscall (.procFork true (.ok ())), .syscall (.threadCreate zeroMemory 0 0 0),
    .syscall .yield, .next, .syscall (.ipcRecv lapMemory 2 0), .next,
    .syscall (.ipcCall zeroMemory (.ok ()) 3 0 0), .next]

/-- The handles, channels and lists the laps use. -/
theorem lapStart_tables : lapStart.entry 0 3 = some (2, .chan 0) ∧ lapStart.entry 0 4 = some (3, .chan 1) ∧
    lapStart.entry 0 6 = some (5, .thread 2) ∧ ((lapStart.chans 0).kernel = 0 ∧ (lapStart.chans 0).port = some 0) ∧
    ((lapStart.chans 1).kernel = 0 ∧ (lapStart.chans 1).port = some 1) ∧ lapStart.gone.head 1 = none := by
  decide +kernel

/-- Who waits at the ports. -/
theorem lapStart_waits : (∀ t, lapStart.waitsAt t .send 0 = decide (t = 2)) ∧
    (∀ t, lapStart.waitsAt t .recv 0 = false) ∧ (∀ t, lapStart.waitsAt t .send 1 = false) ∧
    (∀ t, lapStart.waitsAt t .recv 1 = decide (t = 1)) ∧ lapStart.procOf 1 = 1 := by
  decide +kernel

/-- The first thread runs and nobody else is ready. -/
theorem lapStart_runs : (lapStart.sched.current = some 0 ∧ (lapStart.sched.threads 0).state = .running) ∧
    (lapStart.thread 0).proc = some 0 ∧ (lapStart.thread 0).priority = 2 ∧
    (∀ p < 3, lapStart.sched.queues.head p = none) ∧ (∀ p < 3, lapStart.sched.queues.tail p = none) ∧
    lapStart.irqPendingMask = 0 ∧ lapStart.history.calls = 1 ∧ lapStart.history.call 2 = 1 := by
  decide +kernel

theorem lapStart_reachable : (machine.within Spawns).Reachable lapStart :=
  after_reachable (fun _ _ => plain_spawns) (System.Reachable.start rfl) (by decide +kernel)

/-- The state after some laps: the first thread has called so often, and nothing
else is new. -/
structure Lapped (calls : Nat) (k : Ipc) : Prop where
  reached : (machine.within Spawns).Reachable k
  runs : k.sched.Calls 0
  own : (k.thread 0).proc = some 0
  priority : (k.thread 0).priority = 2
  unqueued : k.sched.Unqueued
  others : ∀ t, t ≠ 0 -> k.thread t = lapStart.thread t
  handles : k.handles = lapStart.handles
  chans : k.chans = lapStart.chans
  gone : k.gone = lapStart.gone
  lines : k.irqPendingMask = 0
  calls : k.history.calls = calls
  waiting : k.history.call 2 = 1

theorem Lapped.entry {calls : Nat} (lapped : Lapped calls k) (p : ProcId) (h : Word) :
    k.entry p h = lapStart.entry p h := by
  unfold Ipc.entry
  rw [lapped.handles]

/-- The first thread calls and runs again. -/
theorem Lapped.lap {calls : Nat} (lapped : Lapped calls k) : ∃ next, Lapped (calls + 1) next := by
  have runs := lapped.runs.2
  have own : k.procOf 0 = 0 := by
    unfold procOf
    rw [lapped.own]
    rfl
  have checked : checkCall lapMemory k 0 4 0x100 0 = .ok (1, msgAt lapMemory 0 0x100, 0, 0) := by
    have channel : k.entry 0 4 = some (3, .chan 1) := (lapped.entry 0 4).trans lapStart_tables.2.1
    have moved : (k.entry 0 (msgAt lapMemory 0 0x100).a3).isNone = false := by
      rw [show (msgAt lapMemory 0 0x100).a3 = 6 from rfl, lapped.entry, lapStart_tables.2.2.1]
      rfl
    unfold checkCall
    rw [channel]
    dsimp only
    rw [show readMsg lapMemory 0 0x100 = .ok (msgAt lapMemory 0 0x100) from rfl]
    refine if_neg ?_
    rw [moved, Bool.and_false]
    exact Bool.false_ne_true
  have kernel : (k.chans 1).kernel = 0 ∧ (k.chans 1).port = some 1 := by
    rw [lapped.chans]
    exact lapStart_tables.2.2.2.2.1
  have threads := sendCall_thread k 0 1 1 (msgAt lapMemory 0 0x100) 0 0 0
  have queued := sendCall_queued k 0 1 1 (msgAt lapMemory 0 0x100) 0 0 0
  have history : (k.sendCall 0 1 1 (msgAt lapMemory 0 0x100) 0 0 0).history.calls = k.history.calls + 1 ∧
      (k.sendCall 0 1 1 (msgAt lapMemory 0 0x100) 0 0 0).history.call 2 = k.history.call 2 := by
    rw [sendCall_call, update_of_ne (by decide)]
    exact ⟨rfl, rfl⟩
  have rest : (k.sendCall 0 1 1 (msgAt lapMemory 0 0x100) 0 0 0).sched.current = k.sched.current ∧
      (k.sendCall 0 1 1 (msgAt lapMemory 0 0x100) 0 0 0).sched.queues = k.sched.queues ∧
      (k.sendCall 0 1 1 (msgAt lapMemory 0 0x100) 0 0 0).handles = k.handles ∧
      (k.sendCall 0 1 1 (msgAt lapMemory 0 0x100) 0 0 0).chans = k.chans ∧
      (k.sendCall 0 1 1 (msgAt lapMemory 0 0x100) 0 0 0).gone = k.gone ∧
      (k.sendCall 0 1 1 (msgAt lapMemory 0 0x100) 0 0 0).irqPendingMask = k.irqPendingMask := ⟨rfl, rfl, rfl, rfl, rfl, rfl⟩
  have called : ∀ receiver after, (k.sendCall 0 1 1 (msgAt lapMemory 0 0x100) 0 0 0).findReceiver 1 = some receiver ->
      takeNext lapMemory (k.sendCall 0 1 1 (msgAt lapMemory 0 0x100) 0 0 0) receiver 1 = (false, after) ->
      ipcCall lapMemory (.ok ()) k 0 4 0x100 0 = (.ok fndOk, after) := by
    intro receiver after found refused
    rw [← own] at checked
    exact ipcCall_refused checked kernel.1 kernel.2 found refused
  generalize k.sendCall 0 1 1 (msgAt lapMemory 0 0x100) 0 0 0 = sent at threads queued history rest called
  obtain ⟨current, queues, handles, chans, gone, lines⟩ := rest
  have others : ∀ t, t ≠ 0 -> sent.thread t = lapStart.thread t := by
    intro t other
    rw [threads, update_of_ne other]
    exact lapped.others t other
  have waits : ∀ t reason p, t ≠ 0 -> sent.waitsAt t reason p = lapStart.waitsAt t reason p := by
    intro t reason p other
    unfold Ipc.waitsAt
    rw [others t other]
  have self : (sent.thread 0).reason = .send ∧ (sent.thread 0).port = some 1 ∧ (sent.thread 0).proc = some 0 ∧
      (sent.thread 0).priority = 2 ∧ (sent.thread 0).req = msgAt lapMemory 0 0x100 := by
    rw [threads, update_self]
    exact ⟨rfl, rfl, lapped.own, lapped.priority, rfl⟩
  obtain ⟨sends, port, proc, priority, req⟩ := self
  have receives : ∀ t, sent.waitsAt t .recv 1 = decide (t = 1) := by
    intro t
    by_cases first : t = 0
    · rw [first]
      unfold Ipc.waitsAt
      rw [sends]
      exact congrArg (· && _) (Bool.and_false _)
    · rw [waits t .recv 1 first]
      exact lapStart_waits.2.2.2.1 t
  have lone : ∀ t, sent.waitsAt t .send 1 = decide (t = 0) := by
    intro t
    by_cases first : t = 0
    · rw [first, queued.2]
      rfl
    · rw [waits t .send 1 first, decide_eq_false first]
      exact lapStart_waits.2.2.1 t
  have found : sent.findReceiver 1 = some 1 := by
    unfold findReceiver
    rw [funext receives]
    decide
  have procs : sent.procOf 0 = 0 ∧ sent.procOf 1 = 1 := by
    unfold procOf
    rw [proc, others 1 (by decide)]
    exact ⟨rfl, lapStart_waits.2.2.2.2⟩
  have names : sent.entry (sent.procOf 0) (sent.thread 0).req.a3 = some (5, .thread 2) := by
    rw [procs.1, req]
    unfold Ipc.entry
    rw [handles, lapped.handles]
    exact lapStart_tables.2.2.1
  obtain ⟨mask, accesses, refused⟩ := @takeNext_refused sent 1 1 0 lapMemory
    (lines.trans lapped.lines) (by rw [gone, lapped.gone]; exact lapStart_tables.2.2.2.2.2) lone queued.1
    (by rw [req]; decide) 5 2 names (by rw [procs.1, procs.2]; decide)
  have called := called 1 _ found refused
  generalize middleEq : ({ sent.wake 0 FndError.access.code with
    sendBlocked := mask, history := { sent.history with accesses := accesses } } : Ipc) = middle at called
  have sched : middle.sched = sent.sched.wake 0 FndError.access.code := by
    rw [← middleEq]
    rfl
  have same : middle.handles = sent.handles ∧ middle.chans = sent.chans ∧ middle.gone = sent.gone ∧
      middle.irqPendingMask = sent.irqPendingMask ∧ middle.history.calls = sent.history.calls ∧
      middle.history.call = sent.history.call := by
    rw [← middleEq]
    exact ⟨rfl, rfl, rfl, rfl, rfl, rfl⟩
  have refuses : k.handleSyscall 0 (.ipcCall lapMemory (.ok ()) 4 0x100 0) = middle := by
    have ready : (middle.thread 0).state = .ready := by
      unfold thread
      rw [sched, Sched.wake_threads, update_self]
    unfold handleSyscall syscall
    dsimp only
    rw [called]
    dsimp only
    rw [ready]
    rfl
  have calls : (machine.within Spawns).step k (.syscall (.ipcCall lapMemory (.ok ()) 4 0x100 0)) middle := by
    rw [← refuses]
    exact ⟨trivial, Step.syscall lapped.runs _⟩
  have turns : (machine.within Spawns).step middle .next { middle with sched := middle.sched.schedNext } :=
    ⟨trivial, Step.next⟩
  have unqueued : sent.sched.Unqueued := by
    constructor
    · rw [queues]
      exact lapped.unqueued.heads
    · rw [queues]
      exact lapped.unqueued.tails
  obtain ⟨running, idle, after⟩ :=
    Sched.alone_resumes (current.trans lapped.runs.1) priority unqueued FndError.access.code
  rw [← sched] at running idle after
  have after' : Ipc.thread { middle with sched := middle.sched.schedNext } = update sent.thread 0 _ := after
  refine ⟨{ middle with sched := middle.sched.schedNext }, (lapped.reached.next calls).next turns, ⟨running, ?_⟩, ?_, ?_, idle,
    fun t other => ?_, ?_, ?_, ?_, ?_, ?_, ?_⟩
  · rw [after, update_self]
  · rw [after', update_self]
    exact proc
  · rw [after', update_self]
    exact priority
  · rw [after', update_of_ne other]
    exact others t other
  · exact same.1.trans (handles.trans lapped.handles)
  · exact same.2.1.trans (chans.trans lapped.chans)
  · exact same.2.2.1.trans (gone.trans lapped.gone)
  · exact same.2.2.2.1.trans (lines.trans lapped.lines)
  · exact same.2.2.2.2.1.trans (history.1.trans (congrArg (· + 1) lapped.calls))
  · exact (congrFun same.2.2.2.2.2 2).trans (history.2.trans lapped.waiting)

theorem lapped_start : Lapped 1 lapStart where
  reached := lapStart_reachable
  runs := lapStart_runs.1
  own := lapStart_runs.2.1
  priority := lapStart_runs.2.2.1
  unqueued := ⟨lapStart_runs.2.2.2.1, lapStart_runs.2.2.2.2.1⟩
  others := fun _ _ => rfl
  handles := rfl
  chans := rfl
  gone := rfl
  lines := lapStart_runs.2.2.2.2.2.1
  calls := lapStart_runs.2.2.2.2.2.2.1
  waiting := lapStart_runs.2.2.2.2.2.2.2

theorem lapped_all (laps : Nat) : ∃ k, Lapped (laps + 1) k := by
  induction laps with
  | zero => exact ⟨lapStart, lapped_start⟩
  | succ laps ih =>
    obtain ⟨k, lapped⟩ := ih
    exact lapped.lap

end Ipc
end Src32.Kernel
