import Src32.Kernel.BlkDriver

namespace Src32.Kernel.Blk

/-!
# The system call and the exit of a process

A request that is accepted is queued or answered; the exit of a process leaves only the
requests of others, and its memory is released when nothing uses it.
-/

section Driver

variable {vm : Bool} {bounceAddress : Word} {outcome : Nat -> Regs} {s : Kern} {r : Req} {rest : List Req} {p : ProcId}

/-! ## The exit of a process -/

/-- What the exit of a process keeps of the others. -/
structure Departs (p : ProcId) (s other : Kern) : Prop where
  live : other.live = s.live
  life : other.life = s.life
  issued : other.issued = s.issued
  proc : ∀ t, (other.thread t).proc = (s.thread t).proc
  queue : other.queue.Sublist s.queue
  log : s.log ⊆ other.log
  dropped : ∀ id q l, .dropped id q l ∈ other.log -> .dropped id q l ∈ s.log ∨ q = p ∧ l = s.life p
  about : ∀ e ∈ other.log, e.About s

variable {other : Kern} {t : ThreadId}

theorem Onward.departs (onward : Onward s other) : Departs p s other :=
  ⟨onward.live, onward.life, onward.issued, onward.proc, onward.queue.sublist, onward.log,
    fun id q l member => .inl (onward.dropped id q l member), onward.about⟩

theorem Departs.trans {mid : Kern} (first : Departs p s mid) (second : Departs p mid other) : Departs p s other := by
  refine ⟨second.live.trans first.live, second.life.trans first.life, second.issued.trans first.issued,
    fun t => (second.proc t).trans (first.proc t), second.queue.trans first.queue,
    fun _ member => second.log (first.log member), fun id q l member => ?_,
    fun e member => (second.about e member).back first.queue.subset first.proc first.life (first.about e)⟩
  rcases second.dropped id q l member with before | new
  · exact first.dropped id q l before
  · rw [first.life] at new
    exact .inr new

/-- The queue while a process leaves: its own requests may have lost their threads. -/
structure Leaving (vm : Bool) (bounceAddress : Word) (outcome : Nat -> Regs) (p : ProcId) (s : Kern) : Prop where
  off : s.running = false -> s.controller.active = none
  on : s.running = true -> ∃ r rest, s.queue = r :: rest ∧ Serves vm bounceAddress outcome s.controller r ∧ (vm = true -> s.bounce = some r.id)
  waits : ∀ r ∈ s.queue, s.procOf r ≠ p -> (s.thread r.thread).waits ∧ s.live (s.procOf r) = true
  distinct : (s.queue.map Req.thread).Nodup

theorem killProc_proc (s : Kern) (p : ProcId) (t : ThreadId) : ((s.killProc p).thread t).proc = (s.thread t).proc := by
  change (if (s.thread t).proc = p ∧ (s.thread t).state ≠ .free then { s.thread t with state := .dead } else s.thread t).proc = _
  split
  · rfl
  · rfl

theorem killProc_kept (queued : Queued vm bounceAddress outcome s) (logged : Logged outcome s) :
    Leaving vm bounceAddress outcome p (s.killProc p) ∧ Logged outcome (s.killProc p) ∧ Departs p s (s.killProc p) := by
  refine ⟨⟨queued.off, queued.on, fun r member differs => ?_, queued.distinct⟩, logged.congr rfl rfl rfl rfl rfl, ?_⟩
  · have apart : (s.thread r.thread).proc ≠ p := by
      rw [← killProc_proc s p]
      exact differs
    have same : (s.killProc p).thread r.thread = s.thread r.thread := if_neg fun both => apart both.1
    unfold Kern.procOf
    rw [same]
    exact queued.waits r member
  · exact ⟨rfl, rfl, rfl, killProc_proc s p, List.Sublist.refl _, fun _ member => member, fun _ _ _ member => .inl member,
      fun _ member => .inl member⟩

theorem without_first (fresh : r.id ∉ rest.map Req.id) :
    rest.map Req.id = ((r :: rest).map Req.id).filter fun id => id ∉ [r].map Req.id := by
  change rest.map Req.id = (r.id :: rest.map Req.id).filter fun id => id ∉ [r.id]
  rw [List.filter_cons_of_neg]
  · refine (List.filter_eq_self.mpr ?_).symm
    intro id member
    apply decide_eq_true
    intro same
    rw [List.mem_singleton] at same
    exact fresh (same ▸ member)
  · rw [decide_eq_true_iff, not_not]
    exact List.mem_singleton_self _

/-- The abort ends the command of the process and drops its request. -/
theorem abort_kept (leaving : Leaving vm bounceAddress outcome p s) (logged : Logged outcome s) :
    Leaving vm bounceAddress outcome p (s.abort outcome p) ∧ Logged outcome (s.abort outcome p) ∧ Departs p s (s.abort outcome p) ∧
      ((s.abort outcome p).running = true -> ∀ r rest, (s.abort outcome p).queue = r :: rest -> (s.abort outcome p).procOf r ≠ p) := by
  have stays : Departs p s s := (Onward.refl s).departs
  unfold Kern.abort
  split
  · rename_i empty
    refine ⟨leaving, logged, stays, fun _ r rest first => ?_⟩
    rw [empty] at first
    cases first
  · rename_i r rest first
    by_cases own : (s.running && s.procOf r = p) = true
    · rw [if_pos own]
      have ids := logged.ids.of_append_right
      rw [first, List.map_cons, List.nodup_cons] at ids
      have distinct := leaving.distinct
      rw [first, List.map_cons, List.nodup_cons] at distinct
      refine ⟨⟨fun _ => await_rests s.controller, fun on => absurd on Bool.false_ne_true, fun other member => ?_, distinct.2⟩, ?_, ?_,
        fun on => absurd on Bool.false_ne_true⟩
      · refine leaving.waits other ?_
        rw [first]
        exact List.mem_cons_of_mem r member
      · refine @Logged.drop outcome s logged _ p [r] rfl ?_ ?_ rfl rfl rfl
        · rw [first]
          exact List.cons_subset_cons r (List.nil_subset rest)
        · rw [first]
          exact without_first ids.1
      · refine ⟨rfl, rfl, rfl, fun _ => rfl, ?_, fun _ member => List.mem_cons_of_mem _ member, fun id q l member => ?_, fun e member => ?_⟩
        · rw [first]
          exact List.sublist_cons_self r rest
        · rcases List.mem_cons.mp member with same | later
          · cases same
            exact .inr ⟨rfl, rfl⟩
          · exact .inl later
        · rcases List.mem_cons.mp member with rfl | later
          · refine .inr fun id q l uses => ?_
            cases uses
            rw [Bool.and_eq_true, decide_eq_true_iff] at own
            exact ⟨r, first ▸ List.mem_cons_self, rfl, own.2.symm, rfl⟩
          · exact .inl later
    · rw [if_neg own]
      refine ⟨leaving, logged, stays, fun on other others first' => ?_⟩
      rw [first] at first'
      cases first'
      intro same
      apply own
      rw [on, Bool.true_and]
      exact decide_eq_true same

/-- The queue without the requests of a process. -/
theorem keepOthers_kept (leaving : Leaving vm bounceAddress outcome p s) (logged : Logged outcome s)
    (apart : s.running = true -> ∀ r rest, s.queue = r :: rest -> s.procOf r ≠ p) :
    Queued vm bounceAddress outcome (s.keepOthers p) ∧ Logged outcome (s.keepOthers p) ∧ Departs p s (s.keepOthers p) ∧
      ∀ r ∈ (s.keepOthers p).queue, s.procOf r ≠ p := by
  have kept : ∀ r ∈ (s.keepOthers p).queue, r ∈ s.queue ∧ s.procOf r ≠ p := by
    intro r member
    obtain ⟨inside, other⟩ := List.mem_filter.mp member
    exact ⟨inside, of_decide_eq_true other⟩
  have part : (s.keepOthers p).queue.Sublist s.queue := List.filter_sublist
  refine ⟨⟨leaving.off, fun on => ?_, fun r member => ?_, leaving.distinct.sublist (part.map Req.thread)⟩, ?_, ?_, fun r member => (kept r member).2⟩
  · obtain ⟨r, rest, first, serves, owner⟩ := leaving.on on
    refine ⟨r, rest.filter fun r => s.procOf r ≠ p, ?_, serves, owner⟩
    change (s.queue.filter fun r => s.procOf r ≠ p) = _
    rw [first]
    exact List.filter_cons_of_pos (decide_eq_true (apart on r rest first))
  · exact leaving.waits r (kept r member).1 (kept r member).2
  · refine @Logged.drop outcome s logged _ p (s.queue.filter fun r => s.procOf r = p) rfl (List.filter_subset_self _) ?_ rfl rfl rfl
    rw [List.filter_map]
    apply congrArg (List.map Req.id)
    apply List.filter_congr
    intro r member
    apply decide_eq_decide.mpr
    constructor
    · intro other went
      obtain ⟨r', member', same⟩ := List.mem_map.mp went
      obtain ⟨inside, own⟩ := List.mem_filter.mp member'
      have equal : r' = r := List.inj_on_of_nodup_map logged.ids.of_append_right inside member same
      exact other (equal ▸ of_decide_eq_true own)
    · intro stays own
      exact stays (List.mem_map_of_mem (List.mem_filter.mpr ⟨member, decide_eq_true own⟩))
  · refine ⟨rfl, rfl, rfl, fun _ => rfl, part, fun _ member => List.mem_append_right _ member, fun id q l member => ?_, fun e member => ?_⟩
    · rcases List.mem_append.mp member with new | old
      · obtain ⟨r, _, same⟩ := List.mem_map.mp new
        cases same
        exact .inr ⟨rfl, rfl⟩
      · exact .inl old
    · rcases List.mem_append.mp member with new | old
      · obtain ⟨r, inside, rfl⟩ := List.mem_map.mp new
        obtain ⟨inside, own⟩ := List.mem_filter.mp inside
        refine .inr fun id q l uses => ?_
        cases uses
        exact ⟨r, inside, rfl, (of_decide_eq_true own).symm, rfl⟩
      · exact .inl old

/-- `blk_proc_exited`: no request of the process is left. -/
theorem blkProcExited_kept (queued : Queued vm bounceAddress outcome s) (logged : Logged outcome s) :
    Queued vm bounceAddress outcome ((s.killProc p).blkProcExited vm bounceAddress outcome p) ∧
      Logged outcome ((s.killProc p).blkProcExited vm bounceAddress outcome p) ∧
      (((s.killProc p).blkProcExited vm bounceAddress outcome p).queue ≠ [] ->
        ((s.killProc p).blkProcExited vm bounceAddress outcome p).running = true) ∧
      Departs p s ((s.killProc p).blkProcExited vm bounceAddress outcome p) ∧
      ∀ r ∈ ((s.killProc p).blkProcExited vm bounceAddress outcome p).queue,
        ((s.killProc p).blkProcExited vm bounceAddress outcome p).procOf r ≠ p := by
  obtain ⟨killed, logged1, departs1⟩ := @killProc_kept vm bounceAddress outcome s p queued logged
  obtain ⟨aborted, logged2, departs2, apart⟩ := abort_kept killed logged1
  obtain ⟨queued3, logged3, departs3, others⟩ := keepOthers_kept aborted logged2 apart
  have last := runQueue_advances queued3 logged3
  refine ⟨last.queued, last.logged, last.busy, ((departs1.trans departs2).trans departs3).trans last.onward.departs, fun r member => ?_⟩
  have same := last.onward.proc r.thread
  unfold Kern.procOf
  rw [show (((s.killProc p).blkProcExited vm bounceAddress outcome p).thread r.thread).proc = _ from same]
  exact others r (last.onward.queue.subset member)

/-- Every request is one that was accepted. -/
structure Owned (s : Kern) : Prop where
  queued : ∀ r ∈ s.queue, .accepted r.id (s.procOf r) (s.life (s.procOf r)) ∈ s.log
  events : ∀ e ∈ s.log, ∀ id p l, e.uses = some (id, p, l) -> .accepted id p l ∈ s.log

theorem Owned.departs (owned : Owned s) (departs : Departs p s other) : Owned other := by
  refine ⟨fun r member => ?_, fun e member id q l uses => ?_⟩
  · have own : other.procOf r = s.procOf r := departs.proc r.thread
    rw [own, departs.life]
    exact departs.log (owned.queued r (departs.queue.subset member))
  · rcases departs.about e member with before | new
    · exact departs.log (owned.events e before id q l uses)
    · obtain ⟨r, inside, rfl, rfl, rfl⟩ := new id q l uses
      exact departs.log (owned.queued r inside)

/-- What holds of the kernel between its steps. -/
structure Sound (vm : Bool) (bounceAddress : Word) (outcome : Nat -> Regs) (s : Kern) : Prop where
  queued : Queued vm bounceAddress outcome s
  logged : Logged outcome s
  busy : s.queue ≠ [] -> s.running = true
  released : ∀ id p l, .dropped id p l ∈ s.log -> .released p l ∈ s.log
  owned : Owned s

theorem Sound.advances (sound : Sound vm bounceAddress outcome s)
    (advances : Advances vm bounceAddress outcome s other) :
    Sound vm bounceAddress outcome other :=
  ⟨advances.queued, advances.logged, advances.busy, fun id p l member =>
    advances.onward.log (sound.released id p l (advances.onward.dropped id p l member)),
    sound.owned.departs (advances.onward.departs : Departs 0 s other)⟩

/-- `proc_exit`: the memory is released when nothing uses it. -/
theorem procExit_sound (sound : Sound vm bounceAddress outcome s) : Sound vm bounceAddress outcome (s.procExit vm bounceAddress outcome p) ∧
    (s.procExit vm bounceAddress outcome p).issued = s.issued ∧ (s.procExit vm bounceAddress outcome p).queue.Sublist s.queue := by
  obtain ⟨queued, logged, busy, departs, apart⟩ := @blkProcExited_kept vm bounceAddress outcome s p sound.queued sound.logged
  let last := (s.killProc p).blkProcExited vm bounceAddress outcome p
  have now : (s.procExit vm bounceAddress outcome p).log = .released p (last.life p) :: last.log := rfl
  refine ⟨⟨⟨queued.off, queued.on, fun r member => ?_, queued.distinct⟩, ⟨?_, ?_, ?_, ?_, ⟨?_, logged.safe⟩, ?_, ?_⟩, busy, ?_, ?_⟩,
    departs.issued, departs.queue⟩
  · obtain ⟨waits, live⟩ := queued.waits r member
    refine ⟨waits, ?_⟩
    change Function.update last.live p false (last.procOf r) = true
    rw [Function.update_of_ne (apart r member)]
    exact live
  · rw [now, chron_none rfl]
    exact logged.accepted
  · rw [now, @chron_none Event.accepts _ rfl, @chron_none Event.completes _ rfl, @chron_none Event.drops _ rfl]
    exact logged.order
  · intro id member
    rw [now, chron_none rfl] at member
    exact logged.dropped id member
  · intro id result member
    rcases List.mem_cons.mp member with same | later
    · cases same
    · exact logged.results id result later
  · exact fun x same => absurd same (Option.some_ne_none x).symm
  · intro q l member
    rcases List.mem_cons.mp member with same | later
    · cases same
      exact .inr ⟨rfl, Function.update_self _ _ _⟩
    · rcases logged.past q l later with less | ⟨same, dead⟩
      · exact .inl less
      · refine .inr ⟨same, ?_⟩
        by_cases own : q = p
        · subst own
          exact Function.update_self _ _ _
        · exact (Function.update_of_ne own _ _).trans dead
  · intro id q l source member
    rcases List.mem_cons.mp member with same | later
    · cases same
    · exact logged.own id q l source later
  · intro id q l member
    rcases List.mem_cons.mp member with same | later
    · cases same
    · rcases departs.dropped id q l later with before | ⟨rfl, rfl⟩
      · exact List.mem_cons_of_mem _ (departs.log (sound.released id q l before))
      · rw [now, departs.life]
        exact List.mem_cons_self
  · have owned := sound.owned.departs departs
    refine ⟨fun r member => List.mem_cons_of_mem _ (owned.queued r member), fun e member id q l uses => ?_⟩
    rcases List.mem_cons.mp member with rfl | later
    · cases uses
    · exact List.mem_cons_of_mem _ (owned.events e later id q l uses)

/-! ## The system call -/

/-- A thread that does not wait for the disk has no request. -/
theorem Queued.apart (queued : Queued vm bounceAddress outcome s) (before : ¬(s.thread t).waits) {other : Req}
    (member : other ∈ s.queue) : other.thread ≠ t := fun same => before (same ▸ (queued.waits other member).1)

theorem setThread_sound (sound : Sound vm bounceAddress outcome s) (before : ¬(s.thread t).waits) (slot : Slot) :
    Sound vm bounceAddress outcome (s.setThread t slot) := by
  have kept : ∀ r ∈ s.queue, (s.setThread t slot).thread r.thread = s.thread r.thread := fun r member =>
    Function.update_of_ne (sound.queued.apart before member) _ _
  refine ⟨⟨sound.queued.off, sound.queued.on, fun r member => ?_, sound.queued.distinct⟩, sound.logged.congr rfl rfl rfl rfl rfl,
    sound.busy, sound.released, ⟨fun r member => ?_, sound.owned.events⟩⟩
  · unfold Kern.procOf
    rw [kept r member]
    exact sound.queued.waits r member
  · unfold Kern.procOf
    rw [kept r member]
    exact sound.owned.queued r member

/-- The queue with a request more. -/
def Kern.enqueue (s : Kern) (r : Req) : Kern :=
  { s.note (.accepted r.id (s.procOf r) (s.life (s.procOf r))) with issued := s.issued + 1, queue := s.queue ++ [r] }

theorem enqueue_logged (logged : Logged outcome s) (fresh : r.id = s.issued) : Logged outcome (s.enqueue r) := by
  have now : (s.enqueue r).log = .accepted r.id (s.procOf r) (s.life (s.procOf r)) :: s.log := rfl
  have accepts : chron Event.accepts (s.enqueue r).log = List.range s.issued ++ [s.issued] := by
    rw [now, chron_cons, logged.accepted, ← fresh]
    rfl
  refine ⟨?_, ?_, ?_, ?_, ⟨?_, logged.safe⟩, ?_, ?_⟩
  · rw [accepts]
    exact List.range_succ.symm
  · have alone : ([s.issued].filter fun id => id ∉ chron Event.drops s.log) = [s.issued] := by
      apply List.filter_eq_self.mpr
      intro id member
      apply decide_eq_true
      intro gone
      exact Nat.lt_irrefl _ (List.mem_singleton.mp member ▸ logged.dropped id gone)
    rw [accepts, now, @chron_none Event.completes _ rfl, @chron_none Event.drops _ rfl, List.filter_append, alone, ← logged.accepted,
      ← logged.order, ← fresh]
    change _ ++ (s.queue ++ [r]).map Req.id = _
    rw [List.map_append, ← List.append_assoc]
    rfl
  · intro id member
    rw [now, chron_none rfl] at member
    exact Nat.lt_succ_of_lt (logged.dropped id member)
  · intro id result member
    rcases List.mem_cons.mp member with same | later
    · cases same
    · exact logged.results id result later
  · exact fun x same => absurd same (Option.some_ne_none x).symm
  · intro q l member
    rcases List.mem_cons.mp member with same | later
    · cases same
    · exact logged.past q l later
  · intro id q l source member
    rcases List.mem_cons.mp member with same | later
    · cases same
    · exact logged.own id q l source later

theorem enqueue_owned (owned : Owned s) (r : Req) : Owned (s.enqueue r) := by
  refine ⟨fun other member => ?_, fun e member id q l uses => ?_⟩
  · rcases List.mem_append.mp member with old | new
    · exact List.mem_cons_of_mem _ (owned.queued other old)
    · rw [List.mem_singleton.mp new]
      exact List.mem_cons_self
  · rcases List.mem_cons.mp member with rfl | later
    · cases uses
    · exact List.mem_cons_of_mem _ (owned.events e later id q l uses)

/-- IDENTIFY does not look at the queue. -/
theorem identify_queue (s : Kern) (r : Req) (queue : List Req) :
    (({ s with queue := queue } : Kern).identify outcome r).2 = { (s.identify outcome r).2 with queue := queue } := by
  unfold Kern.identify
  dsimp only
  split
  · rfl
  · rfl

theorem identify_rest (s : Kern) (r : Req) : (s.identify outcome r).2.queue = s.queue ∧ (s.identify outcome r).2.issued = s.issued ∧
    (s.identify outcome r).2.live = s.live ∧ (s.identify outcome r).2.life = s.life := by
  obtain ⟨c, _, outer⟩ := @identify_cases outcome s r
  rcases outer with same | same
  · rw [same]
    exact ⟨rfl, rfl, rfl, rfl⟩
  · rw [same]
    exact ⟨rfl, rfl, rfl, rfl⟩

/-- With nothing queued IDENTIFY is answered by the call, as if it had been queued and completed. -/
theorem answer_sound (sound : Sound vm bounceAddress outcome s) (fresh : r.id = s.issued) (live : s.live (s.procOf r) = true)
    (empty : s.queue = []) {answered : Kern} (queued : Queued vm bounceAddress outcome answered) (none : answered.queue = [])
    (log : answered.log = (((s.enqueue r).identify outcome r).2.finish r (idcResult (outcome r.id))).log)
    (issued : answered.issued = s.issued + 1) (alive : answered.live = s.live) (life : answered.life = s.life) :
    Sound vm bounceAddress outcome answered := by
  obtain ⟨queue', issued', live', life'⟩ := @identify_rest outcome (s.enqueue r) r
  have alone : (s.enqueue r).queue = [r] := by
    change s.queue ++ [r] = [r]
    rw [empty]
    rfl
  have member : r ∈ (s.enqueue r).queue := by
    rw [alone]
    exact List.mem_singleton_self r
  have onward := (@identify_onward outcome (s.enqueue r) r member).trans (finish_onward _ r (idcResult (outcome r.id)))
  have told : Logged outcome (((s.enqueue r).identify outcome r).2.finish r (idcResult (outcome r.id))) := by
    have logged := @identify_logged outcome (s.enqueue r) r (enqueue_logged sound.logged fresh) live
    exact finish_logged logged (queue'.trans alone) rfl
  have owned := (enqueue_owned sound.owned r).departs (onward.departs : Departs 0 _ _)
  refine ⟨queued, told.congr log ?_ ?_ ?_ ?_, fun some => absurd none some, fun id p l member => ?_, ⟨fun other member => ?_, ?_⟩⟩
  · change answered.queue = ((s.enqueue r).identify outcome r).2.queue.tail
    rw [none, queue', alone]
    rfl
  · exact issued.trans issued'.symm
  · exact alive.trans live'.symm
  · exact life.trans life'.symm
  · rw [log] at member ⊢
    apply onward.log
    rcases List.mem_cons.mp (onward.dropped id p l member) with same | before
    · cases same
    · exact List.mem_cons_of_mem _ (sound.released id p l before)
  · rw [none] at member
    cases member
  · rw [log]
    exact owned.events

/-- The caller waits for its request. -/
theorem block_sound (sound : Sound vm bounceAddress outcome s) (fresh : r.id = s.issued) (live : s.live (s.procOf r) = true)
    (before : ¬(s.thread r.thread).waits) :
    Sound vm bounceAddress outcome (((s.enqueue r).block r.thread).runQueue vm bounceAddress outcome) ∧
      Onward (s.enqueue r) (((s.enqueue r).block r.thread).runQueue vm bounceAddress outcome) := by
  let blocked := (s.enqueue r).block r.thread
  have caller : blocked.thread r.thread = { s.thread r.thread with state := .blocked, reason := .blkIo, r1 := fndOk } :=
    Function.update_self _ _ _
  have others : ∀ t, t ≠ r.thread -> blocked.thread t = s.thread t := fun t differs => Function.update_of_ne differs _ _
  have procs : ∀ t, (blocked.thread t).proc = (s.thread t).proc := by
    intro t
    by_cases same : t = r.thread
    · rw [same, caller]
    · rw [others t same]
  have queued : Queued vm bounceAddress outcome blocked := by
    refine ⟨sound.queued.off, fun on => ?_, fun other member => ?_, ?_⟩
    · obtain ⟨first, rest, first', serves, owner⟩ := sound.queued.on on
      refine ⟨first, rest ++ [r], ?_, serves, owner⟩
      change s.queue ++ [r] = first :: (rest ++ [r])
      rw [first']
      rfl
    · unfold Kern.procOf
      rw [procs]
      rcases List.mem_append.mp member with old | new
      · rw [others other.thread (sound.queued.apart before old)]
        exact sound.queued.waits other old
      · rw [List.mem_singleton.mp new, caller]
        exact ⟨⟨rfl, rfl⟩, live⟩
    · change ((s.queue ++ [r]).map Req.thread).Nodup
      rw [List.map_append, List.nodup_append]
      refine ⟨sound.queued.distinct, List.nodup_singleton _, fun t member t' member' => ?_⟩
      obtain ⟨other, inside, rfl⟩ := List.mem_map.mp member
      rw [List.map_singleton, List.mem_singleton] at member'
      rw [member']
      exact sound.queued.apart before inside
  have logged : Logged outcome blocked := (enqueue_logged sound.logged fresh).congr rfl rfl rfl rfl rfl
  have onward : Onward (s.enqueue r) blocked :=
    ⟨rfl, rfl, rfl, procs, List.suffix_refl _, fun _ member => member, fun _ _ _ member => member, fun _ member => .inl member⟩
  have advances := runQueue_advances queued logged
  have whole := onward.trans advances.onward
  refine ⟨⟨advances.queued, advances.logged, advances.busy, fun id p l member => ?_,
    (enqueue_owned sound.owned r).departs (whole.departs : Departs 0 _ _)⟩, whole⟩
  apply whole.log
  rcases List.mem_cons.mp (whole.dropped id p l member) with same | earlier
  · cases same
  · exact List.mem_cons_of_mem _ (sound.released id p l earlier)

/-- At most the new request joins the queue, behind the others. -/
structure Follows (s other : Kern) : Prop where
  issued : s.issued ≤ other.issued
  queue : ∃ new : List Req, other.queue.Sublist (s.queue ++ new) ∧ ∀ r ∈ new, s.issued ≤ r.id

theorem Follows.shorter (issued : other.issued = s.issued) (queue : other.queue.Sublist s.queue) : Follows s other :=
  ⟨Nat.le_of_eq issued.symm, [], by rwa [List.append_nil], fun _ member => absurd member List.not_mem_nil⟩

theorem submit_sound (sound : Sound vm bounceAddress outcome s) (fresh : r.id = s.issued) (live : s.live (s.procOf r) = true)
    (before : ¬(s.thread r.thread).waits) : Sound vm bounceAddress outcome (s.submit vm bounceAddress outcome r).2 ∧
      Follows s (s.submit vm bounceAddress outcome r).2 := by
  let asked : Kern := { s.note (.accepted r.id (s.procOf r) (s.life (s.procOf r))) with issued := s.issued + 1 }
  by_cases answers : s.queue = [] ∧ r.op = .identify
  · have shape : (s.submit vm bounceAddress outcome r).2 =
        (asked.identify outcome r).2.note (.completed r.id (asked.identify outcome r).1) :=
      congrArg Prod.snd (if_pos answers)
    obtain ⟨queue', issued', live', life'⟩ := @identify_rest outcome asked r
    have idle : s.running = false := by
      cases on : s.running with
      | false => rfl
      | true =>
        obtain ⟨first, rest, first', _⟩ := sound.queued.on on
        rw [answers.1] at first'
        cases first'
    have ready : Queued vm bounceAddress outcome asked := sound.queued.congr rfl rfl rfl rfl rfl rfl
    have queued := (@identify_queued vm bounceAddress outcome asked r ready idle).1
    rw [shape]
    refine ⟨answer_sound sound fresh live answers.1 (queued.congr rfl rfl rfl rfl rfl rfl) (queue'.trans answers.1) ?_ issued' live' life',
      issued'.symm ▸ Nat.le_succ s.issued, [], ?_, fun _ member => absurd member List.not_mem_nil⟩
    · change _ :: (asked.identify outcome r).2.log = _ :: ((s.enqueue r).identify outcome r).2.log
      rw [show asked = { s.enqueue r with queue := s.queue } from rfl, identify_queue]
      rfl
    · rw [List.append_nil]
      change (asked.identify outcome r).2.queue.Sublist s.queue
      rw [queue']
      exact List.Sublist.refl _
  · have shape : (s.submit vm bounceAddress outcome r).2 = ((s.enqueue r).block r.thread).runQueue vm bounceAddress outcome :=
      congrArg Prod.snd (if_neg answers)
    obtain ⟨blocked, onward⟩ := block_sound sound fresh live before
    rw [shape]
    refine ⟨blocked, onward.issued.symm ▸ Nat.le_succ s.issued, [r], onward.queue.sublist, fun other member => ?_⟩
    rw [List.mem_singleton.mp member, fresh]

/-- A call is refused, or it is a request with the next number. -/
theorem sysBlkIo_cases (s : Kern) (t : ThreadId) (c : Kern.IoCall) :
    (s.sysBlkIo vm bounceAddress outcome t c).2 = s ∨
      ∃ r : Req, r.thread = t ∧ r.id = s.issued ∧ (s.sysBlkIo vm bounceAddress outcome t c).2 = (s.submit vm bounceAddress outcome r).2 := by
  let answers (x : Word × Kern) : Prop := x.2 = s ∨ ∃ r : Req, r.thread = t ∧ r.id = s.issued ∧
    x.2 = (s.submit vm bounceAddress outcome r).2
  change answers (s.sysBlkIo vm bounceAddress outcome t c)
  unfold Kern.sysBlkIo
  refine iteInduction (fun _ => .inl rfl) fun _ => ?_
  refine iteInduction (fun _ => .inl rfl) fun _ => ?_
  refine iteInduction (fun _ => .inl rfl) fun _ => ?_
  cases Kern.opOf c.op with
  | none => exact .inl rfl
  | some op =>
    refine iteInduction (fun _ => .inl rfl) fun _ => ?_
    refine iteInduction (fun _ => .inl rfl) fun _ => ?_
    refine iteInduction (fun _ => .inl rfl) fun _ => ?_
    refine iteInduction (fun _ => .inl rfl) fun _ => ?_
    exact iteInduction (fun _ => .inl rfl) fun _ => .inr ⟨_, rfl, rfl, rfl⟩

theorem not_waits {slot : Slot} (runs : slot.state = .running) : ¬slot.waits := fun waits =>
  ThreadState.noConfusion (runs.symm.trans waits.1)

theorem handleBlkIo_sound (sound : Sound vm bounceAddress outcome s) (c : Kern.IoCall)
    (runs : (s.thread t).state = .running) (live : s.live (s.thread t).proc = true) :
    Sound vm bounceAddress outcome (s.handleBlkIo vm bounceAddress outcome t c) ∧
      Follows s (s.handleBlkIo vm bounceAddress outcome t c) := by
  have done : Sound vm bounceAddress outcome (s.sysBlkIo vm bounceAddress outcome t c).2 ∧ Follows s (s.sysBlkIo vm bounceAddress outcome t c).2 := by
    rcases @sysBlkIo_cases vm bounceAddress outcome s t c with refused | ⟨r, rfl, fresh, accepted⟩
    · rw [refused]
      exact ⟨sound, .shorter rfl (List.Sublist.refl _)⟩
    · rw [accepted]
      exact submit_sound sound fresh live (not_waits runs)
  unfold Kern.handleBlkIo
  dsimp only
  split
  · rename_i still
    exact ⟨setThread_sound done.1 (not_waits still) _, done.2.issued, done.2.queue⟩
  · exact done

end Driver

end Src32.Kernel.Blk
