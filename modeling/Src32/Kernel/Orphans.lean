import Src32.Kernel.Answers
import Src32.Kernel.Replay

namespace Src32.Kernel.Ipc

/-!
# Callers of a process that ends

A caller whose port is destroyed is told so.  A process that ends takes with it
the ports that only it has handles for, but not one that another process holds:
a caller whose request it was given there waits for a process that is no more.
-/

variable {k next third : Ipc} {t : ThreadId} {p : ProcId}

/-- A caller has been woken with PEER_GONE as its port is gone. -/
def Told (k next : Ipc) (t : ThreadId) : Prop :=
  ((next.thread t).state = .ready ∧ (next.thread t).r1 = FndError.peerGone.code) ∧
    ∃ q, (k.thread t).port = some q ∧ (next.ports q).used = false

/-! ## Closing -/

/-- What closing handles does to callers. -/
structure Shut (k next : Ipc) : Prop where
  lull : Lull k next
  unused : ∀ q, (k.ports q).used = false -> (next.ports q).used = false
  waits : ∀ t p, k.WaitsFor t p -> (k.thread t).SameWait (next.thread t) ∨ Told k next t
  awake : ∀ t, (k.thread t).state ≠ .blocked ->
    (next.thread t).state = (k.thread t).state ∧ (next.thread t).r1 = (k.thread t).r1

theorem Shut.trans (first : Shut k next) (second : Shut next third) : Shut k third where
  lull := first.lull.trans second.lull
  unused := fun q unused => second.unused q (first.unused q unused)
  waits := by
    intro t p waits
    rcases first.waits t p waits with same | ⟨⟨ready, told⟩, q, port, unused⟩
    · have later : next.WaitsFor t p :=
        ⟨same.state.trans waits.1, same.reason.trans waits.2.1, same.waitProc.trans waits.2.2⟩
      refine (second.waits t p later).imp same.trans ?_
      rintro ⟨woken, q, port, unused⟩
      exact ⟨woken, q, same.port.symm.trans port, unused⟩
    · obtain ⟨still, result⟩ := second.awake t (by rw [ready]; decide)
      exact Or.inr ⟨⟨still.trans ready, result.trans told⟩, q, port, second.unused q unused⟩
  awake := by
    intro t awake
    obtain ⟨still, result⟩ := first.awake t awake
    obtain ⟨last, same⟩ := second.awake t (still ▸ awake)
    exact ⟨last.trans still, same.trans result⟩

/-- Threads stay as they were. -/
theorem shut_of_hush (hush : Hush k next) (ports : ∀ q, (k.ports q).used = false -> (next.ports q).used = false)
    (awake : ∀ t, (k.thread t).state ≠ .blocked ->
      (next.thread t).state = (k.thread t).state ∧ (next.thread t).r1 = (k.thread t).r1) : Shut k next :=
  ⟨hush.lull, ports, fun t p waits => Or.inl (hush.still t p waits), awake⟩

theorem Shut.refl (k : Ipc) : Shut k k :=
  shut_of_hush (Quiet.refl k).hush (fun _ unused => unused) fun _ _ => ⟨rfl, rfl⟩

theorem Recount.shut (recount : Recount k next) : Shut k next := by
  refine shut_of_hush recount.hush (fun q unused => (recount.ports q).trans unused) fun t _ => ?_
  rw [recount.threads t]
  exact ⟨rfl, rfl⟩

/-- A thread is woken that waits for no answer. -/
theorem shut_wake (blocked : (k.thread t).state = .blocked) (other : (k.thread t).reason ≠ .reply) (result : Word) :
    Shut k (k.wake t result) := by
  refine shut_of_hush (hush_wake other result) (fun _ unused => unused) fun u awake => ?_
  have apart : u ≠ t := by
    rintro rfl
    exact awake blocked
  rw [wake_thread, Function.update_of_ne apart]
  exact ⟨rfl, rfl⟩

theorem shut_deliverGone (k : Ipc) (receiver : ThreadId) (q : PortId) : Shut k (k.deliverGone receiver q) := by
  refine shut_of_hush (hush_deliverGone k receiver q) (fun r unused => ?_) fun u _ => ?_
  · unfold deliverGone
    cases k.gone.head q with
    | none => exact unused
    | some c => exact unused
  · rw [deliverGone_thread]
    exact ⟨rfl, rfl⟩

/-- Whoever waits for an answer at a destroyed port is told. -/
theorem Destroyed.shut {q : PortId} (destroyed : Destroyed k next q) : Shut k next where
  lull := by
    refine ⟨fun u calling => ?_, fun u r _ => ?_, ?_, ⟨k.droppedEvents q, ?_, fun event member => ?_⟩⟩
    · by_cases here : k.AtPort u q
      · unfold Calling at calling
        rw [destroyed.woken u here] at calling
        cases calling.1
      · exact Thread.SameWait.of_eq (destroyed.away u here)
    · rw [destroyed.history]
    · rw [destroyed.history]
      exact ⟨rfl, rfl⟩
    · rw [destroyed.history]
    · obtain ⟨c, _, rfl⟩ := List.mem_map.mp member
      rfl
  unused := by
    intro r unused
    rw [destroyed.ports]
    by_cases same : r = q
    · rw [same, Function.update_self]
    · rw [Function.update_of_ne same]
      exact unused
  waits := by
    intro u r waits
    by_cases here : k.AtPort u q
    · have woken := destroyed.woken u here
      refine Or.inr ⟨?_, q, (atPort_reason here).2, ?_⟩
      · rw [woken]
        unfold awoken
        dsimp only
        rw [waits.2.1]
        exact ⟨rfl, rfl⟩
      · rw [destroyed.ports, Function.update_self]
    · exact Or.inl (Thread.SameWait.of_eq (destroyed.away u here))
  awake := by
    intro u awake
    have away : ¬ k.AtPort u q := fun here => awake (atPort_blocked here)
    rw [destroyed.away u away]
    exact ⟨rfl, rfl⟩

theorem shut_listGone (k : Ipc) (c : ChanId) (q : PortId) : Shut k (k.listGone c q) := by
  refine shut_of_hush (hush_of_waits (fun _ _ => Thread.SameWait.refl _) (fun _ live => live) rfl ⟨rfl, rfl⟩
    ⟨[.closed (k.channel c)], rfl, fun event member => ?_⟩) (fun _ unused => unused) fun _ _ => ⟨rfl, rfl⟩
  rw [List.mem_singleton.mp member]
  rfl

theorem shut_lastClosed (k : Ipc) (c : ChanId) : Shut k (k.chanLastClosed c) := by
  rcases chanLastClosed_cases k c with ⟨_, freed⟩ | ⟨q, _, _, ⟨_, listed⟩ | ⟨t, found, woken⟩⟩
  · rw [freed]
    exact shut_of_hush (hush_of_waits (fun _ _ => Thread.SameWait.refl _) (fun _ live => live) rfl ⟨rfl, rfl⟩
      (noEvents rfl)) (fun _ unused => unused) fun _ _ => ⟨rfl, rfl⟩
  · rw [listed]
    exact shut_listGone k c q
  · rw [woken]
    have waits : k.waitsAt t .recv q = true := findReceiver_some found
    obtain ⟨blocked, receives, _⟩ := waitsAt_iff.mp waits
    have thread := deliverGone_thread (k.listGone c q) t q t
    have same : (k.listGone c q).thread t = k.thread t := rfl
    refine ((shut_listGone k c q).trans (shut_deliverGone _ t q)).trans (shut_wake ?_ ?_ fndOk)
    · rw [thread, same]
      exact blocked
    · rw [thread, same, receives]
      decide

theorem shut_closeIx (k : Ipc) (p : ProcId) (i : HandleIx) : Shut k (closeIx p k i) := by
  rcases closeIx_cases k p i with ⟨_, same⟩ | ⟨o, _, ⟨done, _⟩ | ⟨q, _, _, done⟩ | ⟨c, _, _, done⟩⟩
  · rw [same]
    exact Shut.refl k
  · rw [done]
    exact (recount_less k p i o).shut
  · rw [done]
    exact (recount_less k p i o).shut.trans (portDestroy_spec (k.less p i o) q).shut
  · rw [done]
    exact (recount_less k p i o).shut.trans (shut_lastClosed _ c)

/-! ## The end of a process -/

theorem shut_exitedVisits (p : ProcId) (items : List ThreadId) (k : Ipc) :
    Shut k (items.foldl (procExitedVisit p) k) := by
  induction items generalizing k with
  | nil => exact Shut.refl k
  | cons t rest ih =>
    refine Shut.trans ?_ (ih (procExitedVisit p k t))
    unfold procExitedVisit
    split
    · next waits =>
        rw [Bool.and_eq_true, Bool.and_eq_true, decide_eq_true_iff, decide_eq_true_iff] at waits
        exact shut_wake waits.1.1 (by rw [waits.1.2]; decide) fndOk
    · exact Shut.refl k

/-- The process is over and its handles are still there. -/
def stopped (k : Ipc) (p : ProcId) (code : Word) : Ipc := ((k.killed p).irqProcExited p).ended p code

theorem stopped_thread (k : Ipc) (p : ProcId) (code : Word) (t : ThreadId) :
    (k.stopped p code).thread t = (k.killed p).thread t :=
  congrFun (unbindProc_spec (k.killed p) p).2.thread t

theorem stopped_history (k : Ipc) (p : ProcId) (code : Word) :
    (k.stopped p code).history = { k.history with accesses := (k.stopped p code).history.accesses } :=
  (unbindProc_spec (k.killed p) p).2.history

/-- Only the threads of the process end. -/
theorem lull_stopped (k : Ipc) (p : ProcId) (code : Word) : Lull k (k.stopped p code) := by
  have history := stopped_history k p code
  refine ⟨fun t calling => ?_, fun _ _ _ => ?_, ?_, noEvents ?_⟩
  · have same := stopped_thread k p code t
    have blocked := calling.1
    rw [same] at blocked ⊢
    exact Thread.SameWait.of_eq (killed_active (Thread.active_blocked blocked)).1
  · rw [history]
  · rw [history]
    exact ⟨rfl, rfl⟩
  · rw [history]

/-- What is left of the end of a process once its handles are closed. -/
theorem procExit_shut {p : ProcId} (live : (k.procs p).state = .live) (code : Word) :
    Shut ((k.stopped p code).handleCloseAll p) (k.procExit p code) := by
  rw [procExit_live live]
  change Shut ((k.stopped p code).handleCloseAll p) (((((k.stopped p code).handleCloseAll p).modifyProc p
    fun proc => { proc with arenaLo := 0, arenaHi := 0 }).eachThread (procExitedVisit p)).maybeFree p)
  generalize (k.stopped p code).handleCloseAll p = closed
  have released : Shut closed (closed.modifyProc p fun proc => { proc with arenaLo := 0, arenaHi := 0 }) :=
    shut_of_hush (quiet_modifyProc rfl rfl).hush (fun _ unused => unused) fun _ _ => ⟨rfl, rfl⟩
  exact (released.trans (shut_exitedVisits p (List.finRange 16) _)).trans (recount_maybeFree _ p).shut

theorem shut_closeAll (k : Ipc) (p : ProcId) : Shut k (k.handleCloseAll p) :=
  closeAll_invariant (motive := Shut k) p (List.finRange 63) (Shut.refl k) fun k i shut =>
    shut.trans (shut_closeIx k p i)

theorem Counted.stopped (counted : k.Counted) (p : ProcId) (code : Word) : (k.stopped p code).Counted := by
  have only := (unbindProc_spec (k.killed p) p).2
  exact ((counted.killed p).lines only).ended ((quiesced_killed k p).lines only) code

theorem stopped_handles (k : Ipc) (p : ProcId) (code : Word) : (k.stopped p code).handles = k.handles :=
  (unbindProc_spec (k.killed p) p).2.tables.1

/-- The other processes stay as they are. -/
theorem procExit_live_iff {p r : ProcId} (live : (k.procs p).state = .live) (code : Word) (other : r ≠ p) :
    ((k.procExit p code).procs r).state = .live ↔ (k.procs r).state = .live := by
  rcases procExit_cases k p code with ⟨dead, _⟩ | ⟨_, unbound, woken, _, only, _, ⟨_, states⟩, done⟩
  · exact absurd live dead
  · obtain ⟨_, _, lives⟩ := handleCloseAll_tables p (unbound.ended p code)
    have before : ((unbound.ended p code).procs r).state = (k.procs r).state := by
      change (Function.update unbound.procs p _ r).state = _
      rw [Function.update_of_ne other, only.tables.2]
      rfl
    rw [done, (recount_maybeFree woken p).live r, states r]
    exact (lives r).trans (by rw [before])

/-- Once the handles of a process are closed nobody waits for it, if it shed its
callers. -/
theorem Sheds.nobody (sheds : k.Sheds p) (counted : k.Counted) (exchanged : k.Exchanged) (code : Word) (t : ThreadId) :
    ¬ ((k.stopped p code).handleCloseAll p).WaitsFor t p := by
  intro waits
  have shut := shut_closeAll (k.stopped p code) p
  have closed : ((k.stopped p code).handleCloseAll p).Counted :=
    closeAll_invariant p (List.finRange 63) (counted.stopped p code) fun _ i holds => holds.closeIx p i
  obtain ⟨empty, others, _⟩ := handleCloseAll_tables p (k.stopped p code)
  have middle := shut.lull.waitsFor waits
  have before := (lull_stopped k p code).waitsFor middle
  have own : (k.thread t).proc ≠ some p := by
    have blocked := middle.1
    rw [stopped_thread] at blocked
    exact (killed_active (Thread.active_blocked blocked)).2.2
  obtain ⟨q, port⟩ := exchanged.atPort t ⟨before.1, Or.inr before.2.1⟩
  have same := ((lull_stopped k p code).waits t ⟨middle.1, Or.inr middle.2.1⟩).trans
    (shut.lull.waits t ⟨waits.1, Or.inr waits.2.1⟩)
  have at_ : ((k.stopped p code).handleCloseAll p).AtPort t q :=
    Or.inr (Or.inl (waitsAt_iff.mpr ⟨waits.1, waits.2.1, same.port.trans port⟩))
  obtain ⟨⟨r, i⟩, named⟩ := closed.portNamed.mpr (closed.waits t q at_)
  by_cases here : r = p
  · rw [here, empty i] at named
    cases named
  · rw [others r i here, stopped_handles] at named
    exact here (sheds t q before own port (r, i) named)

/-- What has become of a caller that waited for an answer before a trap: it
still waits, or it was answered, or it has ended, or its port has. -/
def Outcome (k next : Ipc) (t : ThreadId) (p : ProcId) : Prop :=
  Fate k next t p ∨ (next.thread t).active = false ∨ ∃ q, (k.thread t).port = some q ∧ (next.ports q).used = false

theorem Shut.outcome (shut : Shut k next) (waits : k.WaitsFor t p) : Outcome k next t p := by
  rcases shut.waits t p waits with same | ⟨_, gone⟩
  · have later : next.WaitsFor t p :=
      ⟨same.state.trans waits.1, same.reason.trans waits.2.1, same.waitProc.trans waits.2.2⟩
    refine Or.inl (Or.inl ⟨same, ?_, ?_⟩)
    · rw [shut.lull.calls.2]
    · unfold Ipc.process
      rw [shut.lull.starts t p later]
  · exact Or.inr (Or.inr gone)

/-- A wait that has not begun to change. -/
theorem Outcome.of_same (outcome : Outcome next third t p) (thread : next.thread t = k.thread t)
    (call : next.history.call = k.history.call) (starts : next.history.starts = k.history.starts) :
    Outcome k third t p := by
  have process : next.process p = k.process p := by
    unfold Ipc.process
    rw [starts]
  rcases outcome with fate | dead | ⟨q, port, unused⟩
  · rcases fate with ⟨same, later, kept⟩ | answered
    · exact Or.inl (Or.inl ⟨thread ▸ same, later.trans (congrFun call t), kept.trans process⟩)
    · rw [call, process] at answered
      exact Or.inl (Or.inr answered)
  · exact Or.inr (Or.inl dead)
  · rw [thread] at port
    exact Or.inr (Or.inr ⟨q, port, unused⟩)

/-- A process that sheds its callers ends: they are told, and nobody waits for
it. -/
theorem Owed.exit (owed : Owed none k) (counted : k.Counted) (sheds : k.Sheds p) (code : Word) :
    Owed none (k.procExit p code) ∧ (∀ t r, k.WaitsFor t r -> Outcome k (k.procExit p code) t r) ∧
      ((k.procs p).state = .live -> ∀ t, k.WaitsFor t p -> (k.thread t).proc ≠ some p ->
        Told k (k.procExit p code) t) := by
  by_cases live : (k.procs p).state = .live
  · have closes := shut_closeAll (k.stopped p code) p
    have rest := procExit_shut live code
    have nobody := sheds.nobody counted owed.exchanged code
    have stops := lull_stopped k p code
    -- A waiting thread of another process is as it was when the handles close.
    have waiting : ∀ t r, k.WaitsFor t r -> (k.thread t).proc ≠ some p ->
        (k.stopped p code).thread t = k.thread t := by
      intro t r waits own
      rw [stopped_thread, killed_thread]
      refine if_neg fun both => own ?_
      rw [Bool.and_eq_true, decide_eq_true_iff] at both
      exact both.1
    have shut := closes.trans rest
    refine ⟨⟨owed.exchanged.lull (stops.trans shut.lull), fun t r waits => Or.inl ?_⟩, fun t r waits => ?_,
      fun _ t waits own => ?_⟩
    · have later := rest.lull.waitsFor waits
      have other : r ≠ p := by
        rintro rfl
        exact nobody t later
      have before := stops.waitsFor (closes.lull.waitsFor later)
      exact (procExit_live_iff live code other).mpr ((owed.alive t r before).resolve_right nofun)
    · by_cases own : (k.thread t).proc = some p
      · have dead : ((k.stopped p code).thread t).state = .dead := by
          have spared : (k.thread t).state ≠ .free := by
            rw [waits.1]
            decide
          rw [stopped_thread, killed_thread, decide_eq_true own, decide_eq_true spared]
          rfl
        have last := (shut.awake t (by rw [dead]; decide)).1.trans dead
        unfold Outcome Thread.active
        rw [last]
        exact Or.inr (Or.inl rfl)
      · have same := waiting t r waits own
        have stopped : (k.stopped p code).WaitsFor t r := by
          unfold WaitsFor
          rw [same]
          exact waits
        have history := stopped_history k p code
        exact (shut.outcome stopped).of_same same (by rw [history]) (by rw [history])
    · have same := waiting t p waits own
      have stopped : (k.stopped p code).WaitsFor t p := by
        unfold WaitsFor
        rw [same]
        exact waits
      rcases closes.waits t p stopped with still | told
      · have later : ((k.stopped p code).handleCloseAll p).WaitsFor t p :=
          ⟨still.state.trans stopped.1, still.reason.trans stopped.2.1, still.waitProc.trans stopped.2.2⟩
        exact absurd later (nobody t)
      · obtain ⟨⟨ready, result⟩, q, port, unused⟩ := told
        obtain ⟨still, last⟩ := rest.awake t (by rw [ready]; decide)
        rw [same] at port
        exact ⟨⟨still.trans ready, last.trans result⟩, q, port, rest.unused q unused⟩
  · have same : k.procExit p code = k := if_pos live
    rw [same]
    exact ⟨owed, fun t r waits => (Shut.refl k).outcome waits, fun alive => absurd alive live⟩

/-! ## Every trap -/

theorem Outcome.quiet (outcome : Outcome k next t p) (waits : k.WaitsFor t p) (quiet : Quiet next third) :
    Outcome k third t p := by
  rcases outcome with fate | dead | ⟨q, port, unused⟩
  · exact Or.inl (fate.trans (fun still => quiet.hush.fate (still.waitsFor waits)) fun _ => quiet.hush.lull.happened)
  · exact Or.inr (Or.inl ((quiet.threads t).active.trans dead))
  · refine Or.inr (Or.inr ⟨q, port, ?_⟩)
    rw [quiet.ports]
    exact unused

/-- A request is sent with a token that nobody has. -/
theorem Owed.sendCall (owed : Owed none k) (runs : (k.thread t).state = .running) (fresh : k.FreshToken t) (c : ChanId)
    (q : PortId) (msg : Msg) (rep buf cap : Word) :
    Owed none (k.sendCall t c q msg rep buf cap) ∧
      ∀ u p, k.WaitsFor u p -> StillWaits k (k.sendCall t c q msg rep buf cap) u p := by
  have threads := sendCall_thread k t c q msg rep buf cap
  have others : ∀ u, u ≠ t -> (k.sendCall t c q msg rep buf cap).thread u = k.thread u := by
    intro u other
    rw [threads, Function.update_of_ne other]
  refine ⟨⟨owed.exchanged.sendCall runs fresh c q msg rep buf cap, fun u p waits => ?_⟩, fun u p waits => ?_⟩
  · have other : u ≠ t := by
      rintro rfl
      have reply := waits.2.1
      rw [threads, Function.update_self] at reply
      cases reply
    unfold WaitsFor at waits
    rw [others u other] at waits
    exact owed.alive u p waits
  · have other : u ≠ t := by
      rintro rfl
      cases runs.symm.trans waits.1
    exact ⟨Thread.SameWait.of_eq (others u other), Function.update_of_ne other .., rfl⟩

theorem Owed.course (owed : Owed none k) (consistent : k.Consistent) {action : Action} (answering : k.Answering action)
    (course : Course k action next) : Owed none next ∧ ∀ t p, k.WaitsFor t p -> Outcome k next t p := by
  cases course with
  | moves path =>
    obtain ⟨behind, fates⟩ := owed.moves consistent path
    exact ⟨behind, fun t p waits => Or.inl (fates t p waits)⟩
  | @call t sends runs c named user q port msg rep buf cap _ path settled =>
    obtain ⟨sent, still⟩ := owed.sendCall runs (answering.2.1 t sends) c q msg rep buf cap
    obtain ⟨behind, fates⟩ := sent.moves (consistent.sendCall runs named port msg rep buf cap) path
    refine ⟨behind, fun u p waits => Or.inl ?_⟩
    rcases fates u p ((still u p waits).waitsFor waits) with later | answered
    · exact Or.inl ⟨(still u p waits).same.trans later.same, later.call.trans (still u p waits).call,
        later.process.trans (still u p waits).process⟩
    · rw [(still u p waits).call, (still u p waits).process] at answered
      exact Or.inr answered
  | @close p i closes _ rest =>
    have shut := shut_closeIx k p i
    obtain ⟨_, live⟩ := closeIx_tables p k i
    have closed : Owed none (closeIx p k i) :=
      ⟨owed.exchanged.lull shut.lull, owed.alive.lull shut.lull fun r => (live r).mpr⟩
    exact ⟨closed.hush rest.hush, fun t r waits => (shut.outcome waits).quiet waits rest⟩
  | @exit p ends code _ rest =>
    obtain ⟨later, outcomes, _⟩ := owed.exit consistent.counted (answering.2.2 p ends) code
    exact ⟨later.hush rest.hush, fun t r waits => (outcomes t r waits).quiet waits rest⟩

theorem owed_boot : Owed none boot := by
  have idle : ∀ t, ¬ boot.Calling t := fun _ calling => by cases calling.1
  refine ⟨⟨fun t blocked => ?_, fun t blocked => ?_, fun t calling => absurd calling (idle t),
    fun t calling => absurd calling (idle t), fun t calling => absurd calling (idle t),
    fun t calling => absurd calling (idle t), fun _ _ => ⟨rfl, rfl⟩, fun t _ calling => absurd calling (idle t),
    fun _ => ⟨Nat.zero_le 1, Nat.zero_le 1⟩, fun _ _ => nofun, fun t calling => absurd calling (idle t)⟩,
    fun t _ waits => ?_⟩
  · cases blocked
  · cases blocked
  · cases waits.1

theorem owed_of_reachable (reached : (machine.within Answering).Reachable k) : Owed none k ∧ k.Consistent := by
  refine reached.invariant (motive := fun k => Owed none k ∧ k.Consistent) (fun start begins => ?_)
    fun first action second holds step => ?_
  · cases begins
    exact ⟨owed_boot, consistent_boot⟩
  · have course := course_of_step holds.2.counted.grounded step.1.1 step.2
    exact ⟨(holds.1.course holds.2 step.1 course).1, holds.2.trail course.trail⟩

/-! ## Who answers -/

/-- What a state between traps says about requests and answers. -/
structure Answerable (k : Ipc) : Prop where
  /-- A caller waits for a live process, the one that was given its request. -/
  live : ∀ t, (k.thread t).state = .blocked -> (k.thread t).reason = .reply -> ∃ p c badge,
    (k.thread t).waitProc = some p ∧ (k.procs p).state = .live ∧
      Event.request c badge (k.history.call t) (k.tokenOf t) (k.process p) ∈ k.history.events
  /-- Its call has not been answered. -/
  open_ : ∀ t, (k.thread t).state = .blocked -> (k.thread t).reason = .reply ->
    ∀ server, Event.answered (k.history.call t) server ∉ k.history.events
  /-- Only that process answers it, and with the token of the call. -/
  current : ∀ p token t, k.tokenCaller p token = some t ↔ k.WaitsFor t p ∧ token = k.tokenOf t
  /-- A token that was handed out is good for its call and its process only. -/
  stale : ∀ c badge n token server, Event.request c badge n token server ∈ k.history.events ->
    ∀ p t, k.tokenCaller p token = some t -> n = k.history.call t ∧ server = k.process p
  rejected : ∀ mem t token addr, k.tokenCaller (k.procOf t) token = none ->
    ∃ error, ipcReply mem k t token addr = (.error error, k)
  /-- No request is given twice and none is answered twice. -/
  once : ∀ n, k.history.events.countP (Event.asks n) ≤ 1 ∧ k.history.events.countP (Event.answers n) ≤ 1
  /-- Who has answered was given the request. -/
  given : ∀ n server, Event.answered n server ∈ k.history.events -> ∃ c badge token,
    Event.request c badge n token server ∈ k.history.events
  /-- A wait ends with the answer, the caller or the port. -/
  ends : ∀ action next, k.Answering action -> Step k action next -> ∀ t p, k.WaitsFor t p -> Outcome k next t p
  /-- The callers of a process that ends are woken with PEER_GONE. -/
  told : ∀ p code, k.Sheds p -> (k.procs p).state = .live -> ∀ t, k.WaitsFor t p -> (k.thread t).proc ≠ some p ->
    Told k (k.procExit p code) t

theorem ipcReply_rejected {mem : UserMemory} {token addr : Word} (stale : k.tokenCaller (k.procOf t) token = none) :
    ∃ error, ipcReply mem k t token addr = (.error error, k) := by
  unfold ipcReply
  split
  · next error _ => exact ⟨error, rfl⟩
  · split
    · exact ⟨.badHandle, rfl⟩
    · rw [stale]
      exact ⟨.peerGone, rfl⟩

theorem Exchanged.onlyServer (exchanged : k.Exchanged) {c c' : Channel} {badge badge' : Word} {n : Nat}
    {token token' : Word} {server server' : Process}
    (first : Event.request c badge n token server ∈ k.history.events)
    (second : Event.request c' badge' n token' server' ∈ k.history.events) : server = server' := by
  have once := (exchanged.once n).1
  rw [List.countP_eq_length_filter] at once
  have left := List.mem_filter.mpr ⟨first, show Event.asks n _ = true from decide_eq_true rfl⟩
  have right := List.mem_filter.mpr ⟨second, show Event.asks n _ = true from decide_eq_true rfl⟩
  match k.history.events.filter (Event.asks n), once, left, right with
  | [only], _, left, right =>
    cases (List.mem_singleton.mp left).trans (List.mem_singleton.mp right).symm
    rfl

theorem Owed.answerable (owed : Owed none k) (consistent : k.Consistent) : k.Answerable := by
  obtain ⟨exchanged, alive⟩ := id owed
  have current : ∀ p token t, k.tokenCaller p token = some t ↔ k.WaitsFor t p ∧ token = k.tokenOf t := by
    intro p token t
    rw [tokenCaller_iff]
    exact ⟨fun ⟨blocked, reply, waits, same⟩ => ⟨⟨blocked, reply, waits⟩, same⟩,
      fun ⟨⟨blocked, reply, waits⟩, same⟩ => ⟨blocked, reply, waits, same⟩⟩
  refine ⟨fun t blocked reply => ?_, fun t blocked reply server answered => ?_, current,
    fun c badge n token server given p t called => ?_, fun _ _ _ _ => ipcReply_rejected, exchanged.once,
    exchanged.answers, fun action next answering step t p waits => ?_, fun p code sheds live => ?_⟩
  · obtain ⟨p, c, badge, waits, given⟩ := exchanged.asked t blocked reply
    exact ⟨p, c, badge, waits, (alive t p ⟨blocked, reply, waits⟩).resolve_right nofun, given⟩
  · have none := exchanged.unanswered t ⟨blocked, Or.inr reply⟩
    rw [List.countP_eq_zero] at none
    exact none _ answered (decide_eq_true rfl)
  · obtain ⟨waits, rfl⟩ := (current p token t).mp called
    have same := exchanged.tokens t ⟨waits.1, Or.inr waits.2.1⟩ c badge n server given
    obtain ⟨q, c', badge', other, asked⟩ := exchanged.asked t waits.1 waits.2.1
    cases waits.2.2.symm.trans other
    rw [same] at given
    exact ⟨same, exchanged.onlyServer given asked⟩
  · have course := course_of_step consistent.counted.grounded answering.1 step
    exact (owed.course consistent answering course).2 t p waits
  · exact (owed.exit consistent.counted sheds code).2.2 live

/-- In a run where every process that ends has shed its callers and every call
has a token of its own, every caller is answered by the process that was given
its request, or is told. -/
theorem answerable_of_reachable (reached : (machine.within Answering).Reachable k) : k.Answerable := by
  obtain ⟨owed, consistent⟩ := owed_of_reachable reached
  exact owed.answerable consistent

/-! ## A server that ends -/

/-- User memory with a `fnd_recv` at 0 for a wait without end. -/
def waitMemory : UserMemory :=
  { zeroMemory with word := fun _ addr => if addr = 56 then fndForever else 0 }

/-- The first process has a port and a channel, and its child waits in RECV. -/
def serverWaits : Ipc := boot.after
  [.module 2 0 emptyImage, .next, .syscall .portCreate, .syscall (.chanCreate 1 1),
    .syscall (.procFork true (.ok ())), .syscall .yield, .next, .syscall (.ipcRecv waitMemory 1 0), .next]

/-- The first process has called its child. -/
def serverAsked : Ipc := serverWaits.handleSyscall 0 (.ipcCall zeroMemory (.ok ()) 2 0 0)

/-- The child has ended. -/
def serverEnded : Ipc := serverAsked.after [.next, .syscall (.procExit 0)]

/-- No call is sent, no process starts another one and none ends. -/
def Action.calm : Action -> Bool
  | .syscall (.procSpawn ..) => false
  | .syscall (.ipcCall ..) => false
  | .syscall (.threadExit _) => false
  | .syscall (.procExit _) => false
  | .syscall (.procKill _) => false
  | .fault _ => false
  | _ => true

theorem calm_answering {action : Action} (calm : action.calm = true) : k.Answering action := by
  cases action with
  | syscall call => cases call <;> first
        | exact ⟨trivial, fun _ sends => False.elim sends, fun _ ends => False.elim ends⟩
        | cases calm
  | fault => cases calm
  | _ => exact ⟨trivial, fun _ sends => False.elim sends, fun _ ends => False.elim ends⟩

theorem serverAsked_reachable : (machine.within Answering).Reachable serverAsked := by
  have waits : (machine.within Answering).Reachable serverWaits :=
    after_reachable (fun _ _ => calm_answering) (System.Reachable.start rfl) (by decide +kernel)
  have runs : serverWaits.sched.Calls 0 ∧ serverWaits.history.events = [] := ⟨⟨by decide +kernel, by decide +kernel⟩, by decide +kernel⟩
  have fresh : ∀ t, serverWaits.FreshToken t := by
    intro t c badge n token server given
    rw [runs.2] at given
    cases given
  have calls : (machine.within Answering).step serverWaits (.syscall (.ipcCall zeroMemory (.ok ()) 2 0 0)) serverAsked :=
    ⟨⟨trivial, fun t _ => fresh t, fun _ => nofun⟩, Step.syscall runs.1 (.ipcCall zeroMemory (.ok ()) 2 0 0)⟩
  exact waits.next calls

theorem serverAsked_answerable : serverAsked.Answerable := answerable_of_reachable serverAsked_reachable

/-- The server has ended while the port is still held, and its caller still waits
for it. -/
theorem caller_orphaned : (machine.within Spawns).Reachable serverEnded ∧ serverAsked.WaitsFor 0 1 ∧
    (serverAsked.procs 1).state = .live ∧ serverEnded.WaitsFor 0 1 ∧ (serverEnded.procs 1).state = .exited := by
  have asked : (machine.within Spawns).Reachable serverAsked := serverAsked_reachable.weaken fun _ _ meets => meets.1
  have ended : (machine.within Spawns).Reachable serverEnded :=
    after_reachable (fun _ _ => plain_spawns) asked (by decide +kernel)
  have facts : serverAsked.WaitsFor 0 1 ∧ (serverAsked.procs 1).state = .live ∧ serverEnded.WaitsFor 0 1 ∧
      (serverEnded.procs 1).state = .exited := by
    unfold WaitsFor
    decide +kernel
  exact ⟨ended, facts⟩

end Src32.Kernel.Ipc
