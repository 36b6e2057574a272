import Src32.Kernel.BlkLog

namespace Src32.Kernel.Blk

/-!
# The driver of the disk

What a request that completes, IDENTIFY, the start of a command, `run_queue` and the
interrupt keep: a request runs while one is queued.
-/

section Driver

variable {vm : Bool} {bounceAddress : Word} {outcome : Nat -> Regs} {s : Kern} {r : Req} {rest : List Req}

/-! ## Parts of the driver -/

/-- The first request completes. -/
theorem finish_logged (logged : Logged outcome s) (first : s.queue = r :: rest) {result : Word}
    (own : result = idcResult (outcome r.id)) : Logged outcome (s.finish r result) := by
  have order := logged.order
  rw [first, List.map_cons] at order
  refine ⟨(chron_none rfl s.log).trans logged.accepted, ?_, logged.dropped, ?_,
    ⟨fun x same => absurd same (Option.some_ne_none x).symm, logged.safe⟩, ?_, ?_⟩
  · change chron Event.completes (.completed r.id result :: s.log) ++ s.queue.tail.map Req.id =
      (chron Event.accepts (.completed r.id result :: s.log)).filter fun id => id ∉ chron Event.drops (.completed r.id result :: s.log)
    rw [@chron_none Event.accepts _ rfl, chron_cons, @chron_none Event.drops _ rfl, first, ← order, List.append_assoc]
    rfl
  · intro id other member
    rcases List.mem_cons.mp member with same | later
    · cases same
      exact own
    · exact logged.results id other later
  · intro q l member
    rcases List.mem_cons.mp member with same | later
    · cases same
    · exact logged.past q l later
  · intro id q l source member
    rcases List.mem_cons.mp member with same | later
    · cases same
    · exact logged.own id q l source later

theorem finish_queued (queued : Queued vm bounceAddress outcome s) (idle : s.running = false) (first : s.queue = r :: rest) (result : Word) :
    Queued vm bounceAddress outcome (s.finish r result) := by
  have distinct := queued.distinct
  rw [first, List.map_cons, List.nodup_cons] at distinct
  have tail : s.queue.tail = rest := by rw [first]; rfl
  refine ⟨fun _ => queued.off idle, fun on => ?_, ?_, ?_⟩
  · rw [show (s.finish r result).running = s.running from rfl, idle] at on
    cases on
  · intro other member
    rw [show (s.finish r result).queue = s.queue.tail from rfl, tail] at member
    have differ : other.thread ≠ r.thread := by
      intro same
      exact distinct.1 (List.mem_map.mpr ⟨other, member, same⟩)
    have kept : (s.finish r result).thread other.thread = s.thread other.thread := Function.update_of_ne differ _ _
    have before := queued.waits other (by rw [first]; exact List.mem_cons_of_mem r member)
    refine ⟨by rw [kept]; exact before.1, ?_⟩
    rw [show (s.finish r result).procOf other = s.procOf other from congrArg Slot.proc kept]
    exact before.2
  · rw [show (s.finish r result).queue = s.queue.tail from rfl, tail]
    exact distinct.2

/-- The queue does not depend on the rest. -/
theorem Queued.congr {other : Kern} (queued : Queued vm bounceAddress outcome s) (queue : other.queue = s.queue)
    (running : other.running = s.running) (controller : other.controller = s.controller) (bounce : other.bounce = s.bounce)
    (thread : other.thread = s.thread) (live : other.live = s.live) : Queued vm bounceAddress outcome other := by
  refine ⟨?_, ?_, ?_, ?_⟩
  · rw [running, controller]
    exact queued.off
  · rw [running, queue, controller, bounce]
    exact queued.on
  · unfold Kern.procOf
    rw [queue, thread, live]
    exact queued.waits
  · rw [queue]
    exact queued.distinct

/-- While nothing runs, the controller only has to stay idle. -/
theorem Queued.idle (queued : Queued vm bounceAddress outcome s) (idle : s.running = false) {c : Controller} (rests : c.active = none) :
    Queued vm bounceAddress outcome (s.setController c) := by
  refine ⟨fun _ => rests, fun on => ?_, queued.waits, queued.distinct⟩
  rw [show (s.setController c).running = s.running from rfl, idle] at on
  cases on

theorem copyOut_logged (logged : Logged outcome s) (live : s.live (s.procOf r) = true) : Logged outcome (s.copyOut r (some r.id)) := by
  refine logged.touch rfl live ?_
  intro id p l source same
  cases same
  rfl

/-- The event is one before, or it is about a request of the queue. -/
def Event.About (s : Kern) (e : Event) : Prop :=
  e ∈ s.log ∨ ∀ id p l, e.uses = some (id, p, l) -> ∃ r ∈ s.queue, id = r.id ∧ p = s.procOf r ∧ l = s.life p

/-- What the driver leaves as it is, and which way the rest moves. -/
structure Onward (s other : Kern) : Prop where
  live : other.live = s.live
  life : other.life = s.life
  issued : other.issued = s.issued
  proc : ∀ t, (other.thread t).proc = (s.thread t).proc
  queue : other.queue <:+ s.queue
  log : s.log ⊆ other.log
  dropped : ∀ id p l, .dropped id p l ∈ other.log -> .dropped id p l ∈ s.log
  about : ∀ e ∈ other.log, e.About s

theorem Onward.refl (s : Kern) : Onward s s :=
  ⟨rfl, rfl, rfl, fun _ => rfl, List.suffix_refl _, fun _ member => member, fun _ _ _ member => member, fun _ member => .inl member⟩

theorem Event.About.back {mid : Kern} {e : Event} (about : e.About mid) (queue : mid.queue ⊆ s.queue)
    (proc : ∀ t, (mid.thread t).proc = (s.thread t).proc) (life : mid.life = s.life) (log : e ∈ mid.log -> e.About s) : e.About s := by
  rcases about with before | new
  · exact log before
  · refine .inr fun id p l uses => ?_
    obtain ⟨r, member, same, own, age⟩ := new id p l uses
    exact ⟨r, queue member, same, own.trans (proc r.thread), age.trans (congrFun life p)⟩

theorem Onward.trans {mid other : Kern} (first : Onward s mid) (second : Onward mid other) : Onward s other :=
  ⟨second.live.trans first.live, second.life.trans first.life, second.issued.trans first.issued,
    fun t => (second.proc t).trans (first.proc t), second.queue.trans first.queue,
    fun _ member => second.log (first.log member), fun id p l member => first.dropped id p l (second.dropped id p l member),
    fun e member => (second.about e member).back first.queue.subset first.proc first.life (first.about e)⟩

/-- A change of the controller, of the bounce buffer or of what runs. -/
theorem Onward.aside (s : Kern) {other : Kern} (queue : other.queue = s.queue) (thread : other.thread = s.thread)
    (live : other.live = s.live) (life : other.life = s.life) (issued : other.issued = s.issued) (log : other.log = s.log) : Onward s other := by
  refine ⟨live, life, issued, fun t => by rw [thread], ?_, ?_, ?_, ?_⟩
  · exact queue ▸ List.suffix_refl s.queue
  · rw [log]
    exact fun _ member => member
  · rw [log]
    exact fun _ _ _ member => member
  · rw [log]
    exact fun _ member => .inl member

/-- A use of the memory of a queued request. -/
theorem Onward.touch (s : Kern) {e : Event} (member : r ∈ s.queue) (kept : ∀ id p l, e ≠ .dropped id p l)
    (uses : e.uses = some (r.id, s.procOf r, s.life (s.procOf r))) : Onward s (s.note e) := by
  refine ⟨rfl, rfl, rfl, fun _ => rfl, List.suffix_refl _, fun _ inside => List.mem_cons_of_mem e inside, fun id p l inside => ?_, fun other inside => ?_⟩
  · rcases List.mem_cons.mp inside with same | later
    · exact absurd same.symm (kept id p l)
    · exact later
  · rcases List.mem_cons.mp inside with rfl | later
    · refine .inr fun id p l same => ?_
      rw [uses] at same
      cases same
      exact ⟨r, member, rfl, rfl, rfl⟩
    · exact .inl later

theorem finish_onward (s : Kern) (r : Req) (result : Word) : Onward s (s.finish r result) := by
  refine ⟨rfl, rfl, rfl, fun t => ?_, List.tail_suffix _, fun _ member => List.mem_cons_of_mem _ member, fun id p l member => ?_, fun e member => ?_⟩
  · by_cases same : t = r.thread
    · subst same
      change (Function.update s.thread r.thread _ r.thread).proc = (s.thread r.thread).proc
      rw [Function.update_self]
    · exact congrArg Slot.proc (Function.update_of_ne same _ _)
  · rcases List.mem_cons.mp member with same | later
    · cases same
    · exact later
  · rcases List.mem_cons.mp member with rfl | later
    · exact .inr fun _ _ _ uses => absurd uses.symm (Option.some_ne_none _)
    · exact .inl later

/-! ## IDENTIFY -/

theorem identify_result : (s.identify outcome r).1 = idcResult (outcome r.id) := rfl

theorem identify_cases (s : Kern) (r : Req) : ∃ c : Controller, c.active = none ∧
    ((s.identify outcome r).2 = s.setController c ∨ (s.identify outcome r).2 = (s.setController c).copyOut r (some r.id)) := by
  let c := ((s.controller.clear.command ⟨r.id, 0⟩).await outcome).clear
  refine ⟨c, rfl, ?_⟩
  by_cases well : idcResult (outcome r.id) = fndOk
  · exact .inr (if_pos well)
  · exact .inl (if_neg well)

theorem identify_logged (logged : Logged outcome s) (live : s.live (s.procOf r) = true) : Logged outcome (s.identify outcome r).2 := by
  obtain ⟨c, _, outer⟩ := @identify_cases outcome s r
  have logged' : Logged outcome (s.setController c) := logged.congr rfl rfl rfl rfl rfl
  rcases outer with same | same
  · rw [same]
    exact logged'
  · rw [same]
    exact copyOut_logged logged' live

theorem identify_queued (queued : Queued vm bounceAddress outcome s) (idle : s.running = false) :
    Queued vm bounceAddress outcome (s.identify outcome r).2 ∧ (s.identify outcome r).2.queue = s.queue ∧
      (s.identify outcome r).2.running = false := by
  obtain ⟨c, rests, outer⟩ := @identify_cases outcome s r
  have queued' := queued.idle idle rests
  rcases outer with same | same
  · rw [same]
    exact ⟨queued', rfl, idle⟩
  · rw [same]
    exact ⟨queued'.congr rfl rfl rfl rfl rfl rfl, rfl, idle⟩

theorem identify_onward (member : r ∈ s.queue) : Onward s (s.identify outcome r).2 := by
  obtain ⟨c, _, outer⟩ := @identify_cases outcome s r
  have onward : Onward s (s.setController c) := .aside s rfl rfl rfl rfl rfl rfl
  rcases outer with same | same
  · rw [same]
    exact onward
  · rw [same]
    exact onward.trans (.touch _ member (fun _ _ _ => Event.noConfusion) rfl)

/-! ## Starting a request -/

/-- The bounce buffer belongs to the request that is started. -/
theorem loadBounce_kept (logged : Logged outcome s) (member : r ∈ s.queue) (live : s.live (s.procOf r) = true) :
    Logged outcome (s.loadBounce vm r) ∧ Onward s (s.loadBounce vm r) ∧ (s.loadBounce vm r).queue = s.queue ∧
      (s.loadBounce vm r).running = s.running ∧ (s.loadBounce vm r).thread = s.thread ∧
      (vm = true -> (s.loadBounce vm r).bounce = some r.id) := by
  let before : Kern := { s with bounce := if vm then some r.id else s.bounce }
  have owner : vm = true -> before.bounce = some r.id := fun on => if_pos on
  have logged' : Logged outcome before := logged.congr rfl rfl rfl rfl rfl
  have onward : Onward s before := .aside s rfl rfl rfl rfl rfl rfl
  unfold Kern.loadBounce
  by_cases writes : (vm && r.op = .write) = true
  · dsimp only
    rw [if_pos writes]
    refine ⟨logged'.touch rfl live ?_, onward.trans (.touch _ member ?_ rfl), rfl, rfl, rfl, owner⟩
    · exact fun _ _ _ _ => Event.noConfusion
    · exact fun _ _ _ => Event.noConfusion
  · dsimp only
    rw [if_neg writes]
    exact ⟨logged', onward, rfl, rfl, rfl, owner⟩

/-- The first request of an idle queue runs from its start on. -/
theorem start_kept (queued : Queued vm bounceAddress outcome s) (logged : Logged outcome s) (first : s.queue = r :: rest) :
    Queued vm bounceAddress outcome (({ s with running := true } : Kern).start vm bounceAddress r) ∧
      Logged outcome (({ s with running := true } : Kern).start vm bounceAddress r) ∧
      Onward s (({ s with running := true } : Kern).start vm bounceAddress r) ∧
      (({ s with running := true } : Kern).start vm bounceAddress r).running = true := by
  let cleared : Kern := ({ s with running := true } : Kern).setController s.controller.clear
  have member : r ∈ s.queue := by
    rw [first]
    exact List.mem_cons_self
  have live : s.live (s.procOf r) = true := (queued.waits r member).2
  have logged' : Logged outcome cleared := logged.congr rfl rfl rfl rfl rfl
  obtain ⟨loaded, onward, queue, running, thread, owner⟩ := @loadBounce_kept vm outcome cleared r logged' member live
  let commanded : Kern := (cleared.loadBounce vm r).setController
    ((cleared.loadBounce vm r).controller.command ⟨r.id, Kern.dmaAddress vm bounceAddress r⟩)
  have loaded' : Logged outcome commanded := loaded.congr rfl rfl rfl rfl rfl
  have onward' : Onward s commanded :=
    ((Onward.aside s rfl rfl rfl rfl rfl rfl : Onward s cleared).trans onward).trans (.aside _ rfl rfl rfl rfl rfl rfl)
  have live' : commanded.live (commanded.procOf r) = true := by
    rw [show commanded.procOf r = s.procOf r from congrArg (fun f => (f r.thread).proc) thread, onward'.live]
    exact live
  refine ⟨⟨fun off => ?_, fun _ => ⟨r, rest, queue.trans first, .inl rfl, owner⟩, ?_, ?_⟩, ?_, onward'.trans (.touch _ ?_ ?_ rfl), running⟩
  · exact absurd (off.symm.trans running) Bool.false_ne_true
  · intro other member
    have inside : other ∈ s.queue := by
      rw [← show commanded.queue = s.queue from queue]
      exact member
    obtain ⟨waits, alive⟩ := queued.waits other inside
    refine ⟨?_, ?_⟩
    · change (commanded.thread other.thread).waits
      rw [show commanded.thread = s.thread from thread]
      exact waits
    · change commanded.live (commanded.thread other.thread).proc = true
      rw [show commanded.thread = s.thread from thread, onward'.live]
      exact alive
  · rw [show (({ s with running := true } : Kern).start vm bounceAddress r).queue = s.queue from queue]
    exact queued.distinct
  · refine loaded'.touch rfl live' ?_
    exact fun _ _ _ _ => Event.noConfusion
  · rw [show commanded.queue = s.queue from queue]
    exact member
  · exact fun _ _ _ => Event.noConfusion

/-! ## `run_queue` -/

/-- What a part of the driver gives: all that is queued has one that runs. -/
structure Advances (vm : Bool) (bounceAddress : Word) (outcome : Nat -> Regs) (s other : Kern) : Prop where
  queued : Queued vm bounceAddress outcome other
  logged : Logged outcome other
  busy : other.queue ≠ [] -> other.running = true
  onward : Onward s other

/-- One request less to see for each round. -/
theorem runQueueFrom_advances : ∀ (n : Nat) (s : Kern), Queued vm bounceAddress outcome s -> Logged outcome s -> s.queue.length ≤ n ->
    Advances vm bounceAddress outcome s (s.runQueueFrom vm bounceAddress outcome n)
  | 0, s, queued, logged, few => ⟨queued, logged, fun some => absurd (List.length_eq_zero_iff.mp (Nat.le_zero.mp few)) some, .refl s⟩
  | n + 1, s, queued, logged, few => by
    rw [Kern.runQueueFrom]
    split
    · rename_i empty
      exact ⟨queued, logged, fun some => absurd empty some, .refl s⟩
    · rename_i r rest first
      by_cases running : s.running = true
      · rw [if_pos running]
        exact ⟨queued, logged, fun _ => running, .refl s⟩
      · rw [if_neg running]
        have idle : s.running = false := Bool.eq_false_of_not_eq_true running
        by_cases asks : r.op = .identify
        · rw [if_pos asks]
          have member : r ∈ s.queue := by
            rw [first]
            exact List.mem_cons_self
          obtain ⟨queued', queue, idle'⟩ := @identify_queued vm bounceAddress outcome s r queued idle
          have logged' := identify_logged logged (queued.waits r member).2
          have onward : Onward s (s.identify outcome r).2 := identify_onward member
          have first' := queue.trans first
          have ready := finish_queued queued' idle' first' (s.identify outcome r).1
          have told := @finish_logged outcome _ r rest logged' first' (s.identify outcome r).1 identify_result
          have fewer : ((s.identify outcome r).2.finish r (s.identify outcome r).1).queue.length ≤ n := by
            change (s.identify outcome r).2.queue.tail.length ≤ n
            rw [List.length_tail, queue]
            omega
          obtain ⟨queued'', logged'', busy, onward'⟩ := runQueueFrom_advances n _ ready told fewer
          exact ⟨queued'', logged'', busy, (onward.trans (finish_onward _ _ _)).trans onward'⟩
        · rw [if_neg asks]
          obtain ⟨queued', logged', onward, on⟩ := start_kept queued logged first
          exact ⟨queued', logged', fun _ => on, onward⟩

theorem runQueue_advances (queued : Queued vm bounceAddress outcome s) (logged : Logged outcome s) :
    Advances vm bounceAddress outcome s (s.runQueue vm bounceAddress outcome) :=
  runQueueFrom_advances s.queue.length s queued logged (Nat.le_refl _)

/-! ## The interrupt -/

/-- The wait for the controller brings the result of the request it serves. -/
theorem await_serves {c : Controller} (serves : Serves vm bounceAddress outcome c r) :
    (c.await outcome).regs = outcome r.id ∧ (c.await outcome).active = none := by
  unfold Controller.await
  rcases serves with active | ⟨ended, regs, _⟩
  · rw [active]
    exact ⟨rfl, rfl⟩
  · rw [ended]
    exact ⟨regs, ended⟩

theorem await_rests (c : Controller) : (c.await outcome).active = none := by
  unfold Controller.await
  split
  · assumption
  · rfl

/-- The controller that ends its command still serves its request. -/
theorem Serves.ends {c : Controller} (serves : Serves vm bounceAddress outcome c r) :
    Serves vm bounceAddress outcome (c.await outcome) r := by
  unfold Controller.await
  rcases serves with active | ⟨ended, regs, irq⟩
  · rw [active]
    exact .inr ⟨rfl, rfl, rfl⟩
  · rw [ended]
    exact .inr ⟨ended, regs, irq⟩

/-- The interrupt completes the first request and goes on with the next. -/
theorem blkIrq_completes (queued : Queued vm bounceAddress outcome s) (logged : Logged outcome s) (on : s.running = true)
    (first : s.queue = r :: rest) :
    Advances vm bounceAddress outcome s (s.blkIrq vm bounceAddress outcome) ∧
      (s.blkIrq vm bounceAddress outcome).queue <:+ rest ∧
      .completed r.id (idcResult (outcome r.id)) ∈ (s.blkIrq vm bounceAddress outcome).log := by
  obtain ⟨other, others, first', serves, owner⟩ := queued.on on
  obtain ⟨rfl, rfl⟩ : r = other ∧ rest = others := List.cons.inj (first.symm.trans first')
  have member : r ∈ s.queue := by
    rw [first]
    exact List.mem_cons_self
  have live : s.live (s.procOf r) = true := (queued.waits r member).2
  have regs := (await_serves serves).1
  let ended : Kern := { s.setController (s.controller.await outcome).clear with running := false }
  let copied : Kern := if vm && idcResult (outcome r.id) = fndOk && r.op = .read then ended.copyOut r ended.bounce else ended
  have shape : s.blkIrq vm bounceAddress outcome =
      (copied.finish r (idcResult (outcome r.id))).runQueue vm bounceAddress outcome := by
    unfold Kern.blkIrq
    rw [if_neg (ne_of_eq_of_ne on Bool.true_eq_false_eq_False), first]
    dsimp only
    rw [regs]
  have endedQueued : Queued vm bounceAddress outcome ended :=
    ⟨fun _ => await_rests s.controller, fun on' => absurd on' Bool.false_ne_true, queued.waits, queued.distinct⟩
  have endedLogged : Logged outcome ended := logged.congr rfl rfl rfl rfl rfl
  have copiedKept : Queued vm bounceAddress outcome copied ∧ Logged outcome copied ∧ Onward s copied ∧ copied.queue = s.queue ∧
      copied.running = false := by
    have onward : Onward s ended := .aside s rfl rfl rfl rfl rfl rfl
    by_cases reads : (vm && idcResult (outcome r.id) = fndOk && r.op = .read) = true
    · have same : copied = ended.copyOut r (some r.id) := by
        have own : ended.bounce = some r.id := owner (by simp only [Bool.and_eq_true] at reads; exact reads.1.1)
        rw [← own]
        exact if_pos reads
      rw [same]
      refine ⟨endedQueued.congr rfl rfl rfl rfl rfl rfl, copyOut_logged endedLogged live, onward.trans (.touch _ member ?_ rfl), rfl, rfl⟩
      exact fun _ _ _ => Event.noConfusion
    · rw [show copied = ended from if_neg reads]
      exact ⟨endedQueued, endedLogged, onward, rfl, rfl⟩
  obtain ⟨copiedQueued, copiedLogged, onward, queue, idle⟩ := copiedKept
  have first'' := queue.trans first
  have ready := finish_queued copiedQueued idle first'' (idcResult (outcome r.id))
  have told := finish_logged copiedLogged first'' rfl
  have after := runQueue_advances ready told
  have behind : (copied.finish r (idcResult (outcome r.id))).queue = rest := by
    change copied.queue.tail = rest
    rw [first'']
    rfl
  rw [shape]
  refine ⟨⟨after.queued, after.logged, after.busy, (onward.trans (finish_onward _ _ _)).trans after.onward⟩, ?_, ?_⟩
  · exact behind ▸ after.onward.queue
  · exact after.onward.log List.mem_cons_self

theorem blkIrq_advances (queued : Queued vm bounceAddress outcome s) (logged : Logged outcome s) (busy : s.queue ≠ [] -> s.running = true) :
    Advances vm bounceAddress outcome s (s.blkIrq vm bounceAddress outcome) := by
  by_cases on : s.running = true
  · obtain ⟨r, rest, first, _, _⟩ := queued.on on
    exact (blkIrq_completes queued logged on first).1
  · have idle : s.running = false := Bool.eq_false_of_not_eq_true on
    have same : s.blkIrq vm bounceAddress outcome = s.setController s.controller.clear := if_pos idle
    rw [same]
    exact ⟨queued.idle idle (queued.off idle), logged.congr rfl rfl rfl rfl rfl, busy, .aside s rfl rfl rfl rfl rfl rfl⟩

end Driver

end Src32.Kernel.Blk
