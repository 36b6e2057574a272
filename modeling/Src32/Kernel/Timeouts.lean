import Src32.Kernel.References
import Src32.Kernel.Replay

namespace Src32.Kernel

open Function (update update_self update_of_ne)

/-!
# Timeouts

A wait with a time limit notes the tick it ends at.  Whatever the kernel does
while the thread stays blocked leaves that note alone, so that only the number
of ticks since the thread blocked decides when the wait ends.  The noted tick
and the current one are compared by the sign of their difference, which is
right for every limit up to 2^31 + 1 and for no longer one.
-/

/-- The second thread waits for the same tick as the first did. -/
structure Thread.SameDeadline (a b : Thread) : Prop where
  blocked : a.state = .blocked
  timed : b.timed = a.timed
  wakeTick : b.wakeTick = a.wakeTick
  sleeps : b.reason = .sleep ↔ a.reason = .sleep

theorem Thread.SameDeadline.refl {a : Thread} (blocked : a.state = .blocked) : a.SameDeadline a :=
  ⟨blocked, rfl, rfl, Iff.rfl⟩

theorem Thread.SameDeadline.trans {a b c : Thread} (first : a.SameDeadline b) (second : b.SameDeadline c) :
    a.SameDeadline c :=
  ⟨first.blocked, second.timed.trans first.timed, second.wakeTick.trans first.wakeTick,
    second.sleeps.trans first.sleeps⟩

namespace Ipc

variable {k next third : Ipc} {t : ThreadId}

/-! ## Operations that block nobody -/

/-- No tick passes, and whoever waits has waited for the same tick before. -/
structure Rests (k next : Ipc) : Prop where
  ticks : next.sched.ticks = k.sched.ticks
  waits : ∀ u, (next.thread u).state = .blocked -> (k.thread u).SameDeadline (next.thread u)

/-- Besides, every thread stays with its process. -/
structure Placid (k next : Ipc) : Prop extends Rests k next where
  procs : ∀ u, (next.thread u).proc = (k.thread u).proc

theorem Rests.trans (first : Rests k next) (second : Rests next third) : Rests k third where
  ticks := second.ticks.trans first.ticks
  waits := by
    intro u blocked
    have late := second.waits u blocked
    exact (first.waits u late.blocked).trans late

theorem Placid.trans (first : Placid k next) (second : Placid next third) : Placid k third where
  toRests := first.toRests.trans second.toRests
  procs := fun u => (second.procs u).trans (first.procs u)

theorem placid_of_sched (same : next.sched = k.sched) : Placid k next := by
  have threads : next.thread = k.thread := congrArg Sched.threads same
  refine ⟨⟨congrArg Sched.ticks same, fun u blocked => ?_⟩, fun u => ?_⟩
  · rw [threads] at blocked ⊢
    exact Thread.SameDeadline.refl blocked
  · rw [threads]

theorem Placid.refl (k : Ipc) : Placid k k := placid_of_sched rfl

theorem Rests.refl (k : Ipc) : Rests k k := (Placid.refl k).toRests

theorem LinesOnly.placid (only : LinesOnly k next) : Placid k next := placid_of_sched only.sched

/-- One thread changes. -/
theorem rests_thread {changed : Thread} (ticks : next.sched.ticks = k.sched.ticks)
    (threads : next.thread = update k.thread t changed)
    (waits : changed.state = .blocked -> (k.thread t).SameDeadline changed) : Rests k next := by
  refine ⟨ticks, fun u blocked => ?_⟩
  rw [threads] at blocked ⊢
  by_cases same : u = t
  · subst same
    rw [update_self] at blocked ⊢
    exact waits blocked
  · rw [update_of_ne same] at blocked ⊢
    exact Thread.SameDeadline.refl blocked

theorem placid_thread {changed : Thread} (ticks : next.sched.ticks = k.sched.ticks)
    (threads : next.thread = update k.thread t changed) (proc : changed.proc = (k.thread t).proc)
    (waits : changed.state = .blocked -> (k.thread t).SameDeadline changed) : Placid k next := by
  refine ⟨rests_thread ticks threads waits, fun u => ?_⟩
  rw [threads]
  by_cases same : u = t
  · subst same
    rw [update_self]
    exact proc
  · rw [update_of_ne same]

theorem noteUrgent_ticks (s : Sched) (t : ThreadId) : (s.noteUrgent t).ticks = s.ticks := by
  unfold Sched.noteUrgent
  split <;> rfl

theorem wake_ticks (s : Sched) (t : ThreadId) (result : Word) : (s.wake t result).ticks = s.ticks := by
  unfold Sched.wake
  exact noteUrgent_ticks _ t

theorem placid_wake (k : Ipc) (t : ThreadId) (result : Word) : Placid k (k.wake t result) :=
  placid_thread (wake_ticks k.sched t result) (wake_thread k t result) rfl nofun

/-- A thread changes outside of its wait. -/
theorem placid_modifyThread {change : Thread -> Thread} (proc : (change (k.thread t)).proc = (k.thread t).proc)
    (state : (change (k.thread t)).state = (k.thread t).state) (timed : (change (k.thread t)).timed = (k.thread t).timed)
    (wakeTick : (change (k.thread t)).wakeTick = (k.thread t).wakeTick)
    (reason : (change (k.thread t)).reason = (k.thread t).reason) : Placid k (k.modifyThread t change) := by
  refine placid_thread rfl (modifyThread_thread k t change) proc fun blocked => ?_
  exact ⟨state.symm.trans blocked, timed, wakeTick, iff_of_eq (congrArg (· = Reason.sleep) reason)⟩

/-- A loop whose rounds block nobody. -/
theorem Placid.foldl {α : Type} {visit : Ipc -> α -> Ipc} (each : ∀ k a, Placid k (visit k a)) (items : List α)
    (k : Ipc) : Placid k (items.foldl visit k) := by
  induction items generalizing k with
  | nil => exact Placid.refl k
  | cons a rest ih => exact (each k a).trans (ih (visit k a))

/-! ## Handles -/

theorem deliverGone_sched (k : Ipc) (receiver : ThreadId) (p : PortId) : (k.deliverGone receiver p).sched = k.sched := by
  unfold deliverGone
  split <;> rfl

theorem placid_wakeVisit (p : PortId) (k : Ipc) (t : ThreadId) : Placid k (wakeVisit p k t) := by
  unfold wakeVisit
  split
  · exact placid_wake k t _
  · exact Placid.refl k

theorem placid_unbindPort (p : PortId) (k : Ipc) :
    Placid k (k.eachIrq fun k irq => if (k.irqs irq).port = some p then k.irqRelease irq else k) := by
  refine Placid.foldl (fun k irq => ?_) _ k
  split
  · exact (linesOnly_irqRelease k irq).placid
  · exact Placid.refl k

theorem placid_portDestroy (k : Ipc) (p : PortId) : Placid k (k.portDestroy p) := by
  unfold portDestroy
  dsimp only
  have unbound := placid_unbindPort p k
  generalize k.eachIrq _ = k₁ at unbound ⊢
  have woken : Placid k₁ (k₁.eachThread (wakeVisit p)) := Placid.foldl (placid_wakeVisit p) _ k₁
  generalize k₁.eachThread (wakeVisit p) = k₂ at woken ⊢
  have cut : Placid k₂ (k₂.orphanChans p) := placid_of_sched rfl
  generalize k₂.orphanChans p = k₃ at cut ⊢
  exact ((unbound.trans woken).trans cut).trans (placid_of_sched rfl)

theorem placid_chanLastClosed (k : Ipc) (c : ChanId) : Placid k (k.chanLastClosed c) := by
  unfold chanLastClosed
  dsimp only
  split
  · exact placid_of_sched rfl
  · split
    · exact placid_of_sched rfl
    · next p _ =>
        split
        · exact placid_of_sched rfl
        · refine Placid.trans (placid_of_sched ?_) (placid_wake _ _ fndOk)
          exact deliverGone_sched _ _ p

theorem placid_objRef (k : Ipc) (o : Obj) : Placid k (k.objRef o) := by
  cases o with
  | thread u => exact placid_modifyThread rfl rfl rfl rfl rfl
  | port p | chan c | proc p => exact placid_of_sched rfl

theorem placid_objUnref (k : Ipc) (o : Obj) : Placid k (k.objUnref o) := by
  cases o with
  | thread u => exact placid_modifyThread rfl rfl rfl rfl rfl
  | proc p => exact placid_of_sched rfl
  | port p =>
    have less : Placid k (k.modifyPort p fun port => { port with refs := port.refs - 1 }) := placid_of_sched rfl
    unfold objUnref
    dsimp only
    split
    · exact less.trans (placid_portDestroy _ p)
    · exact less
  | chan c =>
    have less : Placid k (k.modifyChan c fun chan => { chan with refs := chan.refs - 1 }) := placid_of_sched rfl
    unfold objUnref
    dsimp only
    split
    · exact less.trans (placid_chanLastClosed _ c)
    · exact less

theorem placid_setHandle (k : Ipc) (p : ProcId) (i : HandleIx) (o : Option Obj) : Placid k (k.setHandle p i o) :=
  placid_of_sched rfl

theorem placid_handleAdd (k : Ipc) (p : ProcId) (o : Obj) : Placid k (k.handleAdd p o).2 := by
  unfold handleAdd
  split
  · exact Placid.refl k
  · next i _ => exact (placid_setHandle k p i (some o)).trans (placid_objRef _ o)

theorem placid_closeIx (p : ProcId) (k : Ipc) (i : HandleIx) : Placid k (closeIx p k i) := by
  unfold closeIx
  split
  · exact Placid.refl k
  · next o _ => exact (placid_setHandle k p i none).trans (placid_objUnref _ o)

theorem placid_handleClose (k : Ipc) (p : ProcId) (h : Word) : Placid k (k.handleClose p h).2 := by
  unfold handleClose
  split
  · exact Placid.refl k
  · exact placid_closeIx p k _

theorem placid_handleDupInto (k : Ipc) (from_ : ProcId) (h : Word) (to_ : ProcId) :
    Placid k (k.handleDupInto from_ h to_).2 := by
  rcases handleDupInto_cases k from_ h to_ with ⟨error, failed⟩ | ⟨i, o, _, added⟩
  · rw [failed]
    exact Placid.refl k
  · rw [added]
    exact placid_handleAdd k to_ o

theorem placid_handleMove (k : Ipc) (from_ : ProcId) (h : Word) (to_ : ProcId) :
    Placid k (k.handleMove from_ h to_).2 := by
  have moved := placid_handleDupInto k from_ h to_
  unfold handleMove
  generalize k.handleDupInto from_ h to_ = result at moved ⊢
  obtain ⟨outcome, k₁⟩ := result
  cases outcome with
  | error error => exact moved
  | ok number => exact moved.trans (placid_handleClose k₁ from_ h)

theorem placid_portCreate (k : Ipc) (proc : ProcId) : Placid k (k.portCreate proc).2 := by
  unfold portCreate
  split
  · exact Placid.refl k
  · next p _ =>
      dsimp only
      have fresh : Placid k { k with ports := update k.ports p ⟨true, 0⟩, gone := k.gone.clear p } :=
        placid_of_sched rfl
      have added := fresh.trans (placid_handleAdd _ proc (.port p))
      generalize Ipc.handleAdd _ proc (.port p) = result at added ⊢
      obtain ⟨outcome, k₁⟩ := result
      cases outcome with
      | error error => exact added.trans (placid_of_sched rfl)
      | ok h => exact added

theorem placid_newChannel (k : Ipc) (proc : ProcId) (port : Option PortId) (badge : Word) :
    Placid k (k.newChannel proc port badge).2 := by
  unfold newChannel
  split
  · exact Placid.refl k
  · next c _ =>
      have opened : Placid k (k.openChan c port badge) := placid_of_sched rfl
      have added := opened.trans (placid_handleAdd _ proc (.chan c))
      generalize (k.openChan c port badge).handleAdd proc (.chan c) = result at added ⊢
      obtain ⟨outcome, k₁⟩ := result
      cases outcome with
      | error error => exact added.trans (placid_of_sched rfl)
      | ok h => exact added

theorem placid_modifyNamed (k : Ipc) (proc : ProcId) (h : Word) (change : Chan -> Chan) :
    Placid k (k.modifyNamed proc h change) := by
  unfold modifyNamed
  split
  · exact placid_of_sched rfl
  · exact Placid.refl k

theorem placid_kernelChannel (k : Ipc) (proc : ProcId) (kind : Nat) : Placid k (k.kernelChannel proc kind).2 := by
  have opened := placid_newChannel k proc none 0
  unfold kernelChannel
  generalize k.newChannel proc none 0 = result at opened ⊢
  obtain ⟨outcome, k₁⟩ := result
  cases outcome with
  | error error => exact opened
  | ok h => exact opened.trans (placid_modifyNamed k₁ proc h _)

theorem placid_chanCreate (k : Ipc) (proc : ProcId) (h badge : Word) : Placid k (k.chanCreate proc h badge).2 := by
  unfold chanCreate
  split
  · split
    · exact Placid.refl k
    · exact placid_newChannel k proc _ badge
  · exact Placid.refl k

theorem placid_irqAck (k : Ipc) (proc : ProcId) (irq : Word) : Placid k (k.irqAck proc irq).2 := by
  unfold irqAck
  split
  · exact Placid.refl k
  · split
    · exact Placid.refl k
    · split
      · exact Placid.refl k
      · split
        · exact Placid.refl k
        · exact placid_of_sched rfl

theorem placid_irqNotify (k : Ipc) (irq : Irq) : Placid k (k.irqNotify irq) := by
  rcases irqNotify_lines k irq with only | ⟨lined, u, p, only, _, woken⟩
  · exact only.placid
  · rw [woken]
    exact only.placid.trans (placid_wake lined u fndOk)

/-! ## Calls -/

/-- A request that is accepted leaves SEND for REPLY, and neither is a sleep. -/
theorem placid_acceptCall (receiver : ThreadId) {caller : ThreadId}
    (awake : (k.thread caller).state = .blocked -> (k.thread caller).reason ≠ .sleep) :
    Placid k (k.acceptCall receiver caller) := by
  refine placid_thread rfl (acceptCall_thread k receiver caller) rfl fun blocked => ?_
  exact ⟨blocked, rfl, rfl, nofun, fun sleeps => absurd sleeps (awake blocked)⟩

theorem placid_transferCall (k : Ipc) (receiver caller : ThreadId) : Placid k (k.transferCall receiver caller).2 := by
  unfold transferCall
  split
  · exact placid_handleMove k _ _ _
  · exact Placid.refl k

theorem placid_deliverCall (mem : UserMemory) (receiver : ThreadId) {caller : ThreadId}
    (sends : (k.thread caller).reason = .send) : Placid k (deliverCall mem k receiver caller).2 := by
  unfold deliverCall
  dsimp only
  have read : Placid k (k.touch (k.thread receiver).proc (k.thread receiver).rcv recvSize permR) := placid_of_sched rfl
  have moved := read.trans (placid_transferCall _ receiver caller)
  generalize transferCall _ receiver caller = result at moved ⊢
  obtain ⟨outcome, k₁⟩ := result
  cases outcome with
  | error error => exact moved
  | ok number =>
    have copied : Placid k₁ (copyCall mem k₁ receiver caller) := placid_of_sched rfl
    have before := moved.trans copied
    refine before.trans (placid_acceptCall receiver fun blocked sleeps => ?_)
    have slept := (before.waits caller blocked).sleeps.mp sleeps
    rw [sends] at slept
    cases slept

theorem nextCaller_sched (k : Ipc) (p : PortId) : (k.nextCaller p).2.sched = k.sched := by
  unfold nextCaller
  split <;> rfl

theorem placid_takeCaller (mem : UserMemory) (receiver : ThreadId) (p : PortId) (fuel : Nat) (k : Ipc) :
    Placid k (takeCaller mem receiver p fuel k).2 := by
  induction fuel generalizing k with
  | zero => exact Placid.refl k
  | succ fuel ih =>
    have scanned : Placid k (k.nextCaller p).2 := placid_of_sched (nextCaller_sched k p)
    have waits : ∀ caller, (k.nextCaller p).1 = some caller -> (k.thread caller).reason = .send := fun caller found =>
      (waitsAt_iff.mp (nextCaller_some found)).2.1
    have same := nextCaller_sched k p
    unfold takeCaller
    generalize k.nextCaller p = result at scanned waits same ⊢
    obtain ⟨found, k₁⟩ := result
    cases found with
    | none => exact scanned
    | some caller =>
      dsimp only at scanned waits same ⊢
      have sends : (k₁.thread caller).reason = .send := by
        unfold thread
        rw [same]
        exact waits caller rfl
      have delivered := scanned.trans (placid_deliverCall mem receiver sends)
      generalize deliverCall mem k₁ receiver caller = answer at delivered ⊢
      obtain ⟨outcome, k₂⟩ := answer
      cases outcome with
      | ok done => exact delivered
      | error error => exact (delivered.trans (placid_wake k₂ caller error.code)).trans (ih _)

theorem placid_takeNext (mem : UserMemory) (k : Ipc) (receiver : ThreadId) (p : PortId) :
    Placid k (takeNext mem k receiver p).2 := by
  unfold takeNext
  split
  · exact (linesOnly_deliverIrq k receiver _).placid
  · split
    · exact placid_of_sched (deliverGone_sched k receiver p)
    · exact placid_takeCaller mem receiver p 17 k

theorem placid_answerCall (k : Ipc) (t caller : ThreadId) (msg : Msg) : Placid k (k.answerCall t caller msg) :=
  placid_thread (wake_ticks k.sched caller fndOk) (wake_thread k caller fndOk) rfl nofun

theorem placid_ipcReply (mem : UserMemory) (k : Ipc) (t : ThreadId) (token addr : Word) :
    Placid k (ipcReply mem k t token addr).2 := by
  unfold ipcReply
  split
  · exact Placid.refl k
  · next msg _ =>
      split
      · exact Placid.refl k
      · split
        · exact Placid.refl k
        · next caller _ =>
            split
            · exact Placid.refl k
            · split
              · have moved := placid_handleMove k (k.procOf t) msg.a3 (k.procOf caller)
                generalize k.handleMove (k.procOf t) msg.a3 (k.procOf caller) = result at moved ⊢
                obtain ⟨outcome, k₁⟩ := result
                cases outcome with
                | error error => exact moved
                | ok number => exact moved.trans (placid_answerCall k₁ t caller msg)
              · exact placid_answerCall k t caller msg

theorem placid_svcRegister (mem : UserMemory) (k : Ipc) (proc : ProcId) (addr h : Word) :
    Placid k (svcRegister mem k proc addr h).2 := by
  unfold svcRegister
  split
  · exact Placid.refl k
  · split
    · exact Placid.refl k
    · split
      · exact Placid.refl k
      · split
        · split
          · exact Placid.refl k
          · split
            · exact Placid.refl k
            · exact placid_of_sched rfl
        · exact Placid.refl k

theorem placid_svcLookup (mem : UserMemory) (k : Ipc) (proc : ProcId) (addr : Word) :
    Placid k (svcLookup mem k proc addr).2 := by
  unfold svcLookup
  split
  · exact Placid.refl k
  · split
    · exact placid_kernelChannel k proc _
    · split
      · exact Placid.refl k
      · dsimp only
        have counted : Placid k { k with nextLookupBadge := (k.nextLookupBadge + 1) &&& 0x7FFFFFFF } := placid_of_sched rfl
        exact counted.trans (placid_newChannel _ proc _ _)

/-! ## Processes and threads -/

theorem rests_killed (k : Ipc) (p : ProcId) : Rests k { k with sched := k.sched.killProc p } := by
  refine ⟨rfl, fun u blocked => ?_⟩
  change ((k.sched.killProc p).threads u).state = .blocked at blocked
  change (k.thread u).SameDeadline ((k.sched.killProc p).threads u)
  unfold Sched.killProc at blocked ⊢
  dsimp only at blocked ⊢
  split at blocked
  · cases blocked
  · next spared =>
      rw [if_neg spared]
      exact Thread.SameDeadline.refl blocked

theorem placid_unbindProc (p : ProcId) (k : Ipc) : Placid k (k.irqProcExited p) := by
  unfold irqProcExited
  refine Placid.foldl (fun k irq => ?_) _ k
  split
  · exact (linesOnly_irqRelease k irq).placid
  · exact Placid.refl k

theorem placid_procExitedVisit (p : ProcId) (k : Ipc) (t : ThreadId) : Placid k (procExitedVisit p k t) := by
  unfold procExitedVisit
  split
  · exact placid_wake k t fndOk
  · exact Placid.refl k

theorem rests_procExit (k : Ipc) (p : ProcId) (code : Word) : Rests k (k.procExit p code) := by
  unfold procExit
  split
  · exact Rests.refl k
  · dsimp only
    have killed := rests_killed k p
    generalize ({ k with sched := k.sched.killProc p } : Ipc) = k₁ at killed ⊢
    have unbound := killed.trans (placid_unbindProc p k₁).toRests
    generalize k₁.irqProcExited p = k₂ at unbound ⊢
    have ended : Placid k₂ (k₂.modifyProc p fun proc => { proc with threads := 0, exitCode := code, state := .exited }) :=
      placid_of_sched rfl
    have gone := unbound.trans ended.toRests
    generalize k₂.modifyProc p _ = k₃ at gone ⊢
    have closed := gone.trans (Placid.foldl (placid_closeIx p) (List.finRange 63) k₃).toRests
    change Rests k (((Ipc.eachThread (Ipc.modifyProc (k₃.handleCloseAll p) p _) (procExitedVisit p))).maybeFree p)
    change Rests k (k₃.handleCloseAll p) at closed
    generalize k₃.handleCloseAll p = k₄ at closed ⊢
    have released : Placid k₄ (k₄.modifyProc p fun proc => { proc with arenaLo := 0, arenaHi := 0 }) := placid_of_sched rfl
    have free := closed.trans released.toRests
    generalize k₄.modifyProc p _ = k₅ at free ⊢
    have woken := free.trans (Placid.foldl (placid_procExitedVisit p) (List.finRange 16) k₅).toRests
    change Rests k (k₅.eachThread (procExitedVisit p)) at woken
    generalize k₅.eachThread (procExitedVisit p) = k₆ at woken ⊢
    have last : Placid k₆ (k₆.maybeFree p) := placid_of_sched rfl
    exact woken.trans last.toRests

theorem placid_threadExitVisit (ended : ThreadId) (k : Ipc) (t : ThreadId) : Placid k (threadExitVisit ended k t) := by
  unfold threadExitVisit
  split
  · exact placid_wake k t fndOk
  · exact Placid.refl k

theorem rests_threadExit (k : Ipc) (t : ThreadId) (code : Word) : Rests k (k.threadExit t code) := by
  unfold threadExit
  split
  · exact rests_procExit k _ code
  · dsimp only
    have fewer : Placid k (k.modifyProc (k.procOf t) fun proc => { proc with threads := proc.threads - 1 }) :=
      placid_of_sched rfl
    generalize k.modifyProc (k.procOf t) _ = k₁ at fewer ⊢
    have dies : Rests k₁ (k₁.modifyThread t fun thread => { thread with exitCode := code, state := .dead }) :=
      rests_thread rfl (modifyThread_thread k₁ t _) nofun
    have ended := fewer.toRests.trans dies
    generalize k₁.modifyThread t _ = k₂ at ended ⊢
    exact ended.trans (Placid.foldl (placid_threadExitVisit t) (List.finRange 16) k₂).toRests

/-- A slot that is handed out is free. -/
theorem rests_allocThread {sched : Sched} (taken : k.sched.allocThread = some (t, sched)) :
    Rests k { k with sched := sched } := by
  obtain ⟨_, _, rfl⟩ := Sched.allocThread_some taken
  exact rests_thread rfl rfl nofun

theorem makeReady_ticks (s : Sched) (t : ThreadId) : (s.makeReady t).ticks = s.ticks := by
  unfold Sched.makeReady
  dsimp only
  rw [noteUrgent_ticks]
  split <;> rfl

theorem rests_makeReady (k : Ipc) (t : ThreadId) : Rests k { k with sched := k.sched.makeReady t } := by
  obtain ⟨priority, threads⟩ := Sched.makeReady_threads (s := k.sched) (t := t)
  exact rests_thread (makeReady_ticks k.sched t) threads nofun

theorem rests_startProc (k : Ipc) (p : ProcId) (t : ThreadId) (priority : Nat) :
    Rests k (k.startProc p t priority) := by
  obtain ⟨clamped, threads⟩ := startProc_thread k p t priority
  exact rests_thread (makeReady_ticks _ t) threads nofun

theorem rests_spawnImage (k : Ipc) (priority : Nat) (caps parent : Word) (built : Built) :
    Rests k (k.spawnImage priority caps parent built).2 := by
  unfold spawnImage
  split
  · exact Rests.refl k
  · split
    · exact Rests.refl k
    · next p _ =>
        have claimed : Placid k (k.modifyProc p Proc.claimed) := placid_of_sched rfl
        dsimp only
        generalize k.modifyProc p Proc.claimed = k₁ at claimed ⊢
        split
        · exact claimed.toRests
        · split
          · exact claimed.toRests
          · next t sched taken =>
              have slot := claimed.toRests.trans (rests_allocThread taken)
              split
              · exact slot
              · generalize ({ k₁ with sched := sched } : Ipc) = k₂ at slot ⊢
                have filled : ∀ change, Placid k₂ (k₂.modifyProc p change) := fun change => placid_of_sched rfl
                exact (slot.trans (filled _).toRests).trans (rests_startProc _ p t priority)

theorem placid_passHandles (k : Ipc) (caller child : ProcId) (handles : List Word) :
    Placid k (k.passHandles caller child handles) :=
  Placid.foldl (fun k h => placid_handleDupInto k caller h child) handles k

theorem rests_procSpawn (mem : UserMemory) (early late : Except FndError Unit) (built : Built) (k : Ipc)
    (caller : ProcId) (addr : Word) : Rests k (procSpawn mem early late built k caller addr).2 := by
  unfold procSpawn
  split
  · exact Rests.refl k
  · next sp _ =>
      split
      · exact Rests.refl k
      · split
        · exact Rests.refl k
        · split
          · exact Rests.refl k
          · split
            · exact Rests.refl k
            · have spawned := rests_spawnImage k sp.priority.toNat sp.caps (k.procs caller).pid built
              generalize k.spawnImage sp.priority.toNat sp.caps (k.procs caller).pid built = result at spawned ⊢
              obtain ⟨outcome, k₁⟩ := result
              cases outcome with
              | error error => exact spawned
              | ok pid =>
                dsimp only
                split
                · exact spawned
                · split
                  · exact spawned
                  · next child _ =>
                      have passed := placid_passHandles k₁ caller child (spawnHandles mem caller sp)
                      exact spawned.trans (passed.trans (placid_handleAdd _ caller (.proc child))).toRests

theorem placid_cloneVisit (from_ to_ : ProcId) (k : Ipc) (i : HandleIx) : Placid k (cloneVisit from_ to_ k i) := by
  have copied := placid_setHandle k to_ i (k.handles (from_, i))
  unfold cloneVisit
  dsimp only
  split
  · exact copied
  · exact copied.trans (placid_objRef _ _)

theorem rests_procFork (vm : Bool) (cloned : Except FndError Unit) (k : Ipc) (t : ThreadId) :
    Rests k (procFork vm cloned k t).2 := by
  unfold procFork
  dsimp only
  split
  · exact Rests.refl k
  · split
    · exact Rests.refl k
    · next child _ =>
        have claimed : Placid k (k.modifyProc child Proc.claimed) := placid_of_sched rfl
        generalize k.modifyProc child Proc.claimed = k₁ at claimed ⊢
        split
        · exact claimed.toRests
        · next first sched taken =>
            have slot := claimed.toRests.trans (rests_allocThread taken)
            generalize ({ k₁ with sched := sched } : Ipc) = k₂ at slot ⊢
            split
            · exact slot
            · have filled : ∀ change, Placid k₂ (k₂.modifyProc child change) := fun change => placid_of_sched rfl
              have copied := slot.trans (filled (forkRecord (k₁.procs (k.procOf t)))).toRests
              generalize k₂.modifyProc child _ = k₃ at copied ⊢
              have started := copied.trans (rests_startProc k₃ child first (k₁.procs (k.procOf t)).priority)
              generalize k₃.startProc child first _ = k₄ at started ⊢
              have zeroed : Placid k₄ (k₄.modifyThread first fun thread => { thread with r1 := 0 }) :=
                placid_modifyThread rfl rfl rfl rfl rfl
              have answered := started.trans zeroed.toRests
              generalize k₄.modifyThread first _ = k₅ at answered ⊢
              have shared : Placid k₅ (k₅.handleClone (k.procOf t) child) :=
                Placid.foldl (placid_cloneVisit (k.procOf t) child) (List.finRange 63) k₅
              generalize k₅.handleClone (k.procOf t) child = k₆ at shared ⊢
              exact answered.trans (shared.trans (placid_handleAdd k₆ (k.procOf t) (.proc child))).toRests

theorem rests_threadCreate (mem : UserMemory) (k : Ipc) (caller : ThreadId) (entryPc sp arg : Word) :
    Rests k (threadCreate mem k caller entryPc sp arg).2 := by
  unfold threadCreate
  dsimp only
  split
  · exact Rests.refl k
  · split
    · exact Rests.refl k
    · split
      · exact Rests.refl k
      · split
        · exact Rests.refl k
        · next t sched taken =>
            have slot := rests_allocThread taken
            obtain ⟨_, _, cleared⟩ := Sched.allocThread_some taken
            have free : (sched.threads t).state = .free := by
              rw [cleared]
              exact Sched.clearSlot_state k.sched t
            have filled : Rests k (Ipc.modifyThread { k with sched := sched } t fun thread =>
                { thread with
                  r1 := arg, priority := (k.thread caller).priority, proc := (k.thread caller).proc, exitCode := 0 }) := by
              refine slot.trans (rests_thread rfl (modifyThread_thread _ t _) fun blocked => ?_)
              change (sched.threads t).state = .blocked at blocked
              rw [free] at blocked
              cases blocked
            generalize Ipc.modifyThread _ t _ = k₁ at filled ⊢
            have added := placid_handleAdd k₁ (k.procOf caller) (.thread t)
            generalize k₁.handleAdd (k.procOf caller) (.thread t) = result at added ⊢
            obtain ⟨outcome, k₂⟩ := result
            cases outcome with
            | error error => exact filled.trans added.toRests
            | ok h =>
              dsimp only
              have counted : Placid k₂ (k₂.modifyProc (k.procOf caller) fun proc =>
                  { proc with threads := proc.threads + 1 }) := placid_of_sched rfl
              exact (filled.trans (added.trans counted).toRests).trans (rests_makeReady _ t)

/-! ## System calls -/

/-- The limit a system call of thread `t` waits with, if it waits. -/
def timeout (k : Ipc) (t : ThreadId) : Syscall -> Word
  | .sleep count => count
  | .ipcRecv mem _ rcv => mem.word (k.procOf t) (rcv + 56)
  | .ipcReplyRecv _ recvMem _ _ _ rcv => recvMem.word (k.procOf t) (rcv + 56)
  | .wait _ _ timeout _ => timeout
  | _ => fndForever

/-- The call waits for nothing but its tick. -/
def Syscall.sleeps : Syscall -> Bool
  | .sleep _ => true
  | _ => false

/-- A call of thread `t` blocks nobody, or nobody but `t`. -/
inductive Called (k : Ipc) (t : ThreadId) (limit : Word) (sleeps : Bool) (next : Ipc) : Prop where
  | passes (rests : Rests k next)
  | waits {before : Ipc} (rests : Rests k before) (reason : Reason) (kind : reason = .sleep ↔ sleeps = true)
      (behind : Rests (before.block t reason limit) next)

theorem Called.refl (k : Ipc) (t : ThreadId) (limit : Word) (sleeps : Bool) : Called k t limit sleeps k :=
  .passes (Rests.refl k)

variable {limit : Word}

theorem Called.behind {sleeps : Bool} (called : Called k t limit sleeps next) (rests : Rests next third) :
    Called k t limit sleeps third := by
  cases called with
  | passes before => exact .passes (before.trans rests)
  | waits before reason kind behind => exact .waits before reason kind (behind.trans rests)

theorem Called.within {sleeps : Bool} (rests : Rests k next) (called : Called next t limit sleeps third) :
    Called k t limit sleeps third := by
  cases called with
  | passes before => exact .passes (rests.trans before)
  | waits before reason kind behind => exact .waits (rests.trans before) reason kind behind

theorem called_kernelCall (k : Ipc) (t : ThreadId) (c : ChanId) (msg : Msg) (rep buf cap : Word)
    (driver : Except FndError Unit) : Called k t fndForever false (k.kernelCall t c msg rep buf cap driver).2 := by
  unfold kernelCall
  dsimp only
  split
  · exact .refl k t _ _
  · split
    · generalize (if msg.op = fndDevOpen then driver else .error .unsupported) = opened
      cases opened with
      | error error => exact .refl k t _ _
      | ok done =>
        have opens := placid_kernelChannel k (k.procOf t) ((k.chans c).kernel + 1)
        dsimp only
        generalize k.kernelChannel (k.procOf t) ((k.chans c).kernel + 1) = result at opens ⊢
        obtain ⟨outcome, k₁⟩ := result
        cases outcome with
        | error error => exact .passes opens.toRests
        | ok h => exact .passes (opens.trans (placid_modifyNamed k₁ _ h _)).toRests
    · split
      · have saved : Placid k (k.modifyThread t fun thread =>
            { thread with
              req := { msg with a3 := (k.chans c).badge }, badge := BitVec.ofNat 32 (k.chans c).kernel, rep := rep,
              repBuf := buf, repCap := cap }) := placid_modifyThread rfl rfl rfl rfl rfl
        exact .waits saved.toRests .pecRead ⟨nofun, nofun⟩ (Rests.refl _)
      · exact .refl k t _ _

theorem called_sendCall (k : Ipc) (t : ThreadId) (c : ChanId) (p : PortId) (msg : Msg) (rep buf cap : Word) :
    Called k t fndForever false (k.sendCall t c p msg rep buf cap) := by
  unfold sendCall
  dsimp only
  have saved : Placid k (k.modifyThread t fun thread =>
      { thread with
        req := msg, rep := rep, repBuf := buf, repCap := cap, port := some p, badge := (k.chans c).badge,
        seq := k.nextSeq + 1, gen := thread.gen + 1 }) := placid_modifyThread rfl rfl rfl rfl rfl
  generalize k.modifyThread t _ = k₁ at saved ⊢
  have numbered : Placid k₁ { k₁ with nextSeq := k.nextSeq + 1 } := placid_of_sched rfl
  have before := saved.trans numbered
  generalize ({ k₁ with nextSeq := k.nextSeq + 1 } : Ipc) = k₂ at before ⊢
  have listed : Placid (k₂.block t .send fndForever)
      { k₂.block t .send fndForever with
        sendBlocked := (k₂.block t .send fndForever).sendBlocked ||| (1 : Word) <<< t.val
        history := { k.history with
          calls := k.history.calls + 1
          call := update k.history.call t (k.history.calls + 1)
          via := update k.history.via t (k.channel c) } } := placid_of_sched rfl
  exact .waits before.toRests .send ⟨nofun, nofun⟩ listed.toRests

theorem called_ipcCall (mem : UserMemory) (driver : Except FndError Unit) (k : Ipc) (t : ThreadId) (ch req rep : Word) :
    Called k t fndForever false (ipcCall mem driver k t ch req rep).2 := by
  unfold ipcCall
  split
  · exact .refl k t _ _
  · next c msg buf cap _ =>
      split
      · exact called_kernelCall k t c msg rep buf cap driver
      · split
        · exact .refl k t _ _
        · next p _ =>
            dsimp only
            have sent := called_sendCall k t c p msg rep buf cap
            generalize k.sendCall t c p msg rep buf cap = k₁ at sent ⊢
            split
            · exact sent
            · next receiver _ =>
                have taken := placid_takeNext mem k₁ receiver p
                generalize takeNext mem k₁ receiver p = result at taken ⊢
                obtain ⟨found, k₂⟩ := result
                cases found with
                | true => exact sent.behind (taken.trans (placid_wake k₂ receiver fndOk)).toRests
                | false => exact sent.behind taken.toRests

theorem checkRecv_limit {mem : UserMemory} {proc : ProcId} {h rcv : Word} {p : PortId}
    (checked : checkRecv mem k proc h rcv = .ok (p, limit)) : limit = mem.word proc (rcv + 56) := by
  unfold checkRecv at checked
  split at checked
  · cases aligned : userStruct mem proc rcv recvSize (permR ||| permW) with
    | error error =>
      rw [aligned] at checked
      cases checked
    | ok done =>
      rw [aligned] at checked
      change (if _ then _ else _) = _ at checked
      split at checked
      · cases checked
      · split at checked
        · cases checked
        · cases checked
          rfl
  · cases checked

theorem called_ipcRecv (mem : UserMemory) (k : Ipc) (t : ThreadId) (h rcv : Word) :
    Called k t (mem.word (k.procOf t) (rcv + 56)) false (ipcRecv mem k t h rcv).2 := by
  unfold ipcRecv
  split
  · exact .refl k t _ _
  · next p limit checked =>
      rw [← checkRecv_limit checked]
      have ready : Placid k (k.modifyThread t fun thread => { thread with rcv := rcv }) :=
        placid_modifyThread rfl rfl rfl rfl rfl
      dsimp only
      generalize k.modifyThread t _ = k₁ at ready ⊢
      have taken := ready.trans (placid_takeNext mem k₁ t p)
      generalize takeNext mem k₁ t p = result at taken ⊢
      obtain ⟨found, k₂⟩ := result
      cases found with
      | true => exact .passes taken.toRests
      | false =>
        dsimp only
        split
        · exact .passes taken.toRests
        · have placed : Placid k₂ (k₂.modifyThread t fun thread => { thread with port := some p }) :=
            placid_modifyThread rfl rfl rfl rfl rfl
          exact .waits (taken.trans placed).toRests .recv ⟨nofun, nofun⟩ (Rests.refl _)

theorem called_ipcReplyRecv (replyMem recvMem : UserMemory) (k : Ipc) (t : ThreadId) (token msg port rcv : Word) :
    Called k t (recvMem.word (k.procOf t) (rcv + 56)) false (ipcReplyRecv replyMem recvMem k t token msg port rcv).2 := by
  have replied := placid_ipcReply replyMem k t token msg
  unfold ipcReplyRecv
  generalize ipcReply replyMem k t token msg = result at replied ⊢
  obtain ⟨outcome, k₁⟩ := result
  have proc : k₁.procOf t = k.procOf t := congrArg (·.getD 0) (replied.procs t)
  have received := called_ipcRecv recvMem k₁ t port rcv
  rw [proc] at received
  cases outcome with
  | error error =>
    dsimp only
    split
    · exact .passes replied.toRests
    · exact received.within replied.toRests
  | ok done => exact received.within replied.toRests

theorem called_wait (mem : UserMemory) (k : Ipc) (t : ThreadId) (h limit codePtr : Word) :
    Called k t limit false (wait mem k t h limit codePtr).2 := by
  unfold wait
  split
  · exact .refl k t _ _
  · next target _ =>
      split
      · exact .refl k t _ _
      · split
        · exact .refl k t _ _
        · split
          · exact .refl k t _ _
          · split
            · exact .refl k t _ _
            · have placed : Placid k (k.modifyThread t fun thread =>
                  { thread with
                    waitProc := target.getLeft?, waitThread := target.getRight?, codePtr := codePtr }) :=
                placid_modifyThread rfl rfl rfl rfl rfl
              exact .waits placed.toRests .wait ⟨nofun, nofun⟩ (Rests.refl _)

/-- Every system call blocks its thread with its limit, or nobody. -/
theorem called_syscall (k : Ipc) (t : ThreadId) (call : Syscall) :
    Called k t (k.timeout t call) call.sleeps (k.syscall t call).2 := by
  have yields : Placid k { k with sched := k.sched.yield t } :=
    placid_thread rfl rfl rfl fun blocked => ⟨blocked, rfl, rfl, Iff.rfl⟩
  cases call with
  | yield => exact .passes yields.toRests
  | sleep count =>
    unfold syscall Ipc.sleep Sched.sleep
    dsimp only
    split
    · exact .passes yields.toRests
    · exact .waits (Rests.refl k) .sleep ⟨fun _ => rfl, fun _ => rfl⟩ (Rests.refl _)
  | threadExit code => exact .passes (rests_threadExit k t code)
  | procExit code => exact .passes (rests_procExit k _ code)
  | ipcCall mem driver ch req rep => exact called_ipcCall mem driver k t ch req rep
  | ipcRecv mem port rcv => exact called_ipcRecv mem k t port rcv
  | ipcReply mem token msg => exact .passes (placid_ipcReply mem k t token msg).toRests
  | ipcReplyRecv replyMem recvMem token msg port rcv => exact called_ipcReplyRecv replyMem recvMem k t token msg port rcv
  | portCreate => exact .passes (placid_portCreate k _).toRests
  | chanCreate port badge => exact .passes (placid_chanCreate k _ port badge).toRests
  | handleClose h => exact .passes (placid_handleClose k _ h).toRests
  | handleDup h => exact .passes (placid_handleDupInto k _ h _).toRests
  | wait mem h limit codePtr => exact called_wait mem k t h limit codePtr
  | procFork vm cloned => exact .passes (rests_procFork vm cloned k t)
  | procSpawn mem early late built addr => exact .passes (rests_procSpawn mem early late built k _ addr)
  | procKill h =>
    unfold syscall procKill
    dsimp only
    split
    · exact .refl k t _ _
    · exact .passes (rests_procExit k _ _)
  | svcRegister mem name port => exact .passes (placid_svcRegister mem k _ name port).toRests
  | svcLookup mem name => exact .passes (placid_svcLookup mem k _ name).toRests
  | blkIo accepted =>
    cases accepted with
    | error error => exact .refl k t _ _
    | ok done => exact .waits (Rests.refl k) .blkIo ⟨nofun, nofun⟩ (Rests.refl _)
  | threadCreate mem entryPc sp arg => exact .passes (rests_threadCreate mem k t entryPc sp arg)
  | irqBind irq port => exact .passes (irqBind_lines k _ irq port).placid.toRests
  | irqAck irq => exact .passes (placid_irqAck k _ irq).toRests
  | other result => exact .refl k t _ _

theorem called_handleSyscall (k : Ipc) (t : ThreadId) (call : Syscall) :
    Called k t (k.timeout t call) call.sleeps (k.handleSyscall t call) := by
  have called := called_syscall k t call
  unfold handleSyscall
  dsimp only
  split
  · next runs => exact called.behind (placid_modifyThread rfl rfl rfl rfl rfl).toRests
  · exact called

/-- A thread that a call leaves blocked waits with the limit of the call. -/
theorem handleSyscall_deadline (runs : (k.thread t).state = .running) (call : Syscall)
    (blocked : ((k.handleSyscall t call).thread t).state = .blocked) :
    ((k.handleSyscall t call).thread t).timed = decide (k.timeout t call ≠ fndForever) ∧
      ((k.handleSyscall t call).thread t).wakeTick = (k.handleSyscall t call).sched.ticks + k.timeout t call ∧
      (((k.handleSyscall t call).thread t).reason = .sleep ↔ call.sleeps = true) := by
  cases called_handleSyscall k t call with
  | passes rests =>
    have before := (rests.waits t blocked).blocked
    rw [runs] at before
    cases before
  | @waits before rests reason kind behind =>
    have same := behind.waits t blocked
    have self : (before.block t reason (k.timeout t call)).thread t =
        { before.thread t with
          state := .blocked, reason := reason, timed := k.timeout t call ≠ fndForever,
          wakeTick := before.sched.ticks + k.timeout t call, r1 := fndOk } := update_self ..
    have timed := same.timed
    have wakeTick := same.wakeTick
    have sleeps := same.sleeps
    rw [self] at timed wakeTick sleeps
    have ticks : (before.block t reason (k.timeout t call)).sched.ticks = before.sched.ticks := rfl
    rw [behind.ticks, ticks]
    exact ⟨timed, wakeTick, sleeps.trans kind⟩

end Ipc

/-! ## Ticks -/

namespace Sched

/-- A loop over the threads whose rounds change their own thread by a rule. -/
theorem visits_threads {visit : Sched -> ThreadId -> Sched} {rule : Word -> ThreadId -> Thread -> Thread}
    (ticks : ∀ s t, (visit s t).ticks = s.ticks)
    (threads : ∀ s t, (visit s t).threads = update s.threads t (rule s.ticks t (s.threads t)))
    (items : List ThreadId) (distinct : items.Nodup) (s : Sched) :
    (items.foldl visit s).ticks = s.ticks ∧ ∀ u, (items.foldl visit s).threads u =
      if u ∈ items then rule s.ticks u (s.threads u) else s.threads u := by
  induction items generalizing s with
  | nil => exact ⟨rfl, fun _ => (if_neg List.not_mem_nil).symm⟩
  | cons t rest ih =>
    obtain ⟨outside, others⟩ := List.nodup_cons.mp distinct
    obtain ⟨later, rules⟩ := ih others (visit s t)
    rw [List.foldl_cons]
    refine ⟨later.trans (ticks s t), fun u => ?_⟩
    rw [rules u, ticks s t, threads s t]
    by_cases same : u = t
    · subst same
      rw [if_neg outside, update_self, if_pos List.mem_cons_self]
    · rw [update_of_ne same]
      refine if_congr ?_ rfl rfl
      rw [List.mem_cons]
      exact ⟨Or.inr, fun either => either.resolve_left same⟩

/-- A thread that is woken. -/
def woken (thread : Thread) (result : Word) : Thread :=
  { thread with r1 := result, reason := .none, timed := false, state := .ready }

def pecRule (answered : ThreadId -> Bool) (t : ThreadId) (thread : Thread) : Thread :=
  if thread.state = .blocked && thread.reason = .pecRead && answered t then woken thread fndOk else thread

def tickRule (ticks : Word) (thread : Thread) : Thread :=
  if thread.state = .blocked && thread.timed && !(ticks - thread.wakeTick).msb then woken thread (timedOut thread)
  else thread

theorem eachThread_pec (answered : ThreadId -> Bool) (s : Sched) :
    (s.eachThread (pecVisit answered)).ticks = s.ticks ∧
      ∀ u, (s.eachThread (pecVisit answered)).threads u = pecRule answered u (s.threads u) := by
  have ticks : ∀ s t, (pecVisit answered s t).ticks = s.ticks := by
    intro s t
    unfold pecVisit
    split
    · exact Ipc.wake_ticks s t fndOk
    · rfl
  have threads : ∀ s t, (pecVisit answered s t).threads =
      update s.threads t (pecRule answered t (s.threads t)) := by
    intro s t
    unfold pecVisit pecRule
    split
    · exact wake_threads s t fndOk
    · exact (Function.update_eq_self t s.threads).symm
  have spec := @visits_threads _ (fun _ => pecRule answered) ticks threads (List.finRange 16) (List.nodup_finRange 16) s
  unfold eachThread
  exact ⟨spec.1, fun u => (spec.2 u).trans (if_pos (List.mem_finRange u))⟩

theorem eachThread_tick (s : Sched) :
    (s.eachThread tickVisit).ticks = s.ticks ∧
      ∀ u, (s.eachThread tickVisit).threads u = tickRule s.ticks (s.threads u) := by
  have ticks : ∀ s t, (tickVisit s t).ticks = s.ticks := by
    intro s t
    unfold tickVisit
    split
    · exact Ipc.wake_ticks s t _
    · rfl
  have threads : ∀ s t, (tickVisit s t).threads = update s.threads t (tickRule s.ticks (s.threads t)) := by
    intro s t
    unfold tickVisit tickRule
    split
    · exact wake_threads s t _
    · exact (Function.update_eq_self t s.threads).symm
  have spec := @visits_threads _ (fun ticks _ => tickRule ticks) ticks threads (List.finRange 16)
    (List.nodup_finRange 16) s
  unfold eachThread
  exact ⟨spec.1, fun u => (spec.2 u).trans (if_pos (List.mem_finRange u))⟩

variable {u : ThreadId}

/-- A slice is used by the running thread only. -/
theorem useSlice_thread (s : Sched) (idle : (s.threads u).state ≠ .running) :
    s.useSlice.threads u = s.threads u := by
  unfold useSlice
  split
  · rfl
  · next t _ =>
      split
      · next runs =>
          have other : u ≠ t := by
            rintro rfl
            exact idle runs
          have kept := modify_other s (fun thread => { thread with slice := thread.slice - 1 }) other
          dsimp only
          split
          · exact kept
          · exact kept
      · rfl

/-- A tick ends the wait of a thread that is not answered, or leaves it alone. -/
theorem tick_thread (s : Sched) (answered : ThreadId -> Bool) (blocked : (s.threads u).state = .blocked)
    (unanswered : (s.threads u).reason = .pecRead -> answered u = false) :
    (s.tick answered).threads u = tickRule (s.ticks + 1) (s.threads u) := by
  unfold tick
  dsimp only
  obtain ⟨ticks, polled⟩ := eachThread_pec answered { s with ticks := s.ticks + 1 }
  generalize eachThread _ (pecVisit answered) = second at ticks polled ⊢
  have same : second.threads u = s.threads u := by
    refine (polled u).trans (if_neg fun answers => ?_)
    rw [Bool.and_eq_true, Bool.and_eq_true, decide_eq_true_iff, decide_eq_true_iff] at answers
    exact Bool.false_ne_true ((unanswered answers.1.2).symm.trans answers.2)
  have timed := (eachThread_tick second).2 u
  rw [ticks, same] at timed
  rw [useSlice_thread, timed]
  rw [timed]
  unfold tickRule
  split
  · exact nofun
  · rw [blocked]
    exact nofun

/-- A thread that is not blocked is not blocked by a tick. -/
theorem tick_awake (s : Sched) (answered : ThreadId -> Bool)
    (blocked : ((s.tick answered).threads u).state = .blocked) :
    (s.threads u).state = .blocked ∧ ((s.threads u).reason = .pecRead -> answered u = false) := by
  unfold tick at blocked
  dsimp only at blocked
  obtain ⟨ticks, polled⟩ := eachThread_pec answered { s with ticks := s.ticks + 1 }
  generalize eachThread _ (pecVisit answered) = second at ticks polled blocked
  have timed := (eachThread_tick second).2 u
  generalize second.eachThread tickVisit = third at timed blocked
  have still : (third.threads u).state = .blocked := by
    rw [← (useSlice_turns third u).waits (Or.inr blocked)]
    exact blocked
  rw [timed] at still
  unfold tickRule at still
  split at still
  · cases still
  · rw [polled u] at still
    unfold pecRule at still
    split at still
    · cases still
    · next silent =>
        refine ⟨still, fun reads => ?_⟩
        rw [decide_eq_true still, decide_eq_true reads, Bool.and_self, Bool.true_and] at silent
        exact Bool.eq_false_of_not_eq_true silent

end Sched

namespace Ipc

variable {k next : Ipc} {t : ThreadId}

/-! ## Runs of a blocked thread -/

/-- The ticks of an action. -/
def Action.ticks : Action -> Nat
  | .tick _ => 1
  | _ => 0

/-- Runs through which thread `t` stays blocked, and the ticks in them. -/
inductive StaysBlocked (t : ThreadId) (first : Ipc) : Nat -> Ipc -> Prop where
  | start (blocked : (first.thread t).state = .blocked) : StaysBlocked t first 0 first
  | step {ticks : Nat} {middle next : Ipc} {action : Action} (before : StaysBlocked t first ticks middle)
      (step : Step middle action next) (blocked : (next.thread t).state = .blocked) :
      StaysBlocked t first (ticks + action.ticks) next

variable {first last : Ipc} {sleeps : Bool} {limit : Word} {ticks : Nat}

theorem StaysBlocked.blocked (stays : StaysBlocked t first ticks last) :
    (last.thread t).state = .blocked := by
  cases stays with
  | start blocked => exact blocked
  | step _ _ blocked => exact blocked

theorem drain_ticks (p : Nat) (fuel : Nat) (s : Sched) : (Sched.drain p fuel s).2.ticks = s.ticks := by
  induction fuel generalizing s with
  | zero => rfl
  | succ fuel ih =>
    unfold Sched.drain
    split
    · rfl
    · split
      · rfl
      · exact ih _

theorem dequeueFrom_ticks (order : List Nat) (s : Sched) : (Sched.dequeueFrom order s).2.ticks = s.ticks := by
  induction order generalizing s with
  | nil => rfl
  | cons p rest ih =>
    have drained := drain_ticks p Sched.drainFuel s
    unfold Sched.dequeueFrom
    generalize Sched.drain p Sched.drainFuel s = result at drained ⊢
    obtain ⟨found, s₁⟩ := result
    cases found with
    | none => exact (ih s₁).trans drained
    | some u => exact drained

theorem dispatch_ticks (s : Sched) : s.dispatch.ticks = s.ticks := by
  have chosen : (Sched.dequeue { s with needResched := false }).2.ticks = s.ticks := dequeueFrom_ticks _ _
  unfold Sched.dispatch Sched.resume
  dsimp only
  split <;> exact chosen

theorem schedNext_ticks (s : Sched) : s.schedNext.ticks = s.ticks := by
  have requeued : ∀ u, (s.requeue u).ticks = s.ticks := by
    intro u
    unfold Sched.requeue
    split <;> rfl
  unfold Sched.schedNext
  split
  · exact dispatch_ticks s
  · next u _ =>
      split
      · split
        · exact (dispatch_ticks _).trans (requeued u)
        · rfl
      · exact dispatch_ticks s

/-- A step that is no tick leaves the deadline of a blocked thread alone. -/
theorem step_deadline {action : Action} (step : Step k action next) (quiet : action.ticks = 0)
    (before : (k.thread t).state = .blocked) (blocked : (next.thread t).state = .blocked) :
    next.sched.ticks = k.sched.ticks ∧ (k.thread t).SameDeadline (next.thread t) := by
  have rested : ∀ {last : Ipc}, Rests k last -> (last.thread t).state = .blocked ->
      last.sched.ticks = k.sched.ticks ∧ (k.thread t).SameDeadline (last.thread t) := fun rests still =>
    ⟨rests.ticks, rests.waits t still⟩
  cases step with
  | @syscall u calls call =>
    have other : t ≠ u := by
      rintro rfl
      cases before.symm.trans calls.2
    cases called_handleSyscall k u call with
    | passes rests => exact rested rests blocked
    | @waits mid rests reason kind behind =>
      have late := behind.waits t blocked
      have same : (mid.block u reason (k.timeout u call)).thread t = mid.thread t := update_of_ne other ..
      rw [same] at late
      exact ⟨behind.ticks.trans rests.ticks, (rests.waits t late.blocked).trans late⟩
  | @fault u calls cause => exact rested (rests_procExit k _ cause) blocked
  | irq line => exact rested (placid_irqNotify k line).toRests blocked
  | tick answered => cases quiet
  | @blkDone u _ _ result => exact rested (placid_wake k u result).toRests blocked
  | module priority caps built => exact rested (rests_spawnImage k priority caps 0 built) blocked
  | next =>
    have same := (Sched.schedNext_turns k.sched t).waits (Or.inr blocked)
    change k.sched.schedNext.threads t = k.thread t at same
    refine ⟨schedNext_ticks k.sched, ?_⟩
    change (k.thread t).SameDeadline (k.sched.schedNext.threads t)
    rw [same]
    exact Thread.SameDeadline.refl before

theorem thread_of_sched (k : Ipc) (s : Sched) (t : ThreadId) : Ipc.thread { k with sched := s } t = s.threads t := rfl

/-- A tick that leaves a thread blocked leaves it as it is. -/
theorem tick_blocked {answered : ThreadId -> Bool} (blocked : ((k.sched.tick answered).threads t).state = .blocked) :
    (k.sched.tick answered).threads t = k.thread t := by
  obtain ⟨before, unanswered⟩ := Sched.tick_awake k.sched answered blocked
  have same := Sched.tick_thread k.sched answered before unanswered
  rw [same] at blocked ⊢
  unfold Sched.tickRule at blocked ⊢
  split at blocked
  · cases blocked
  · next early => exact if_neg early

theorem useSlice_ticks (s : Sched) : s.useSlice.ticks = s.ticks := by
  unfold Sched.useSlice
  split
  · rfl
  · split
    · dsimp only
      split <;> rfl
    · rfl

theorem tick_ticks (s : Sched) (answered : ThreadId -> Bool) : (s.tick answered).ticks = s.ticks + 1 := by
  have polled := (Sched.eachThread_pec answered { s with ticks := s.ticks + 1 }).1
  unfold Sched.tick
  dsimp only
  rw [useSlice_ticks, (Sched.eachThread_tick _).1]
  exact polled

theorem succ_ticks (ticks : Nat) : BitVec.ofNat 32 (ticks + 1) = BitVec.ofNat 32 ticks + 1 := by
  apply BitVec.eq_of_toNat_eq
  rw [BitVec.toNat_add, BitVec.toNat_ofNat, BitVec.toNat_ofNat]
  exact (Nat.mod_add_mod ticks (2 ^ 32) 1).symm

/-- Only ticks move a blocked thread towards its deadline. -/
theorem StaysBlocked.deadline (stays : StaysBlocked t first ticks last) :
    last.sched.ticks = first.sched.ticks + BitVec.ofNat 32 ticks ∧
      (first.thread t).SameDeadline (last.thread t) := by
  induction stays with
  | start blocked => exact ⟨(BitVec.add_zero _).symm, Thread.SameDeadline.refl blocked⟩
  | @step ticks middle next action before step blocked ih =>
    obtain ⟨passed, same⟩ := ih
    by_cases quiet : action.ticks = 0
    · obtain ⟨still, kept⟩ := step_deadline step quiet before.blocked blocked
      rw [quiet, Nat.add_zero]
      exact ⟨still.trans passed, same.trans kept⟩
    · cases step with
      | tick answered =>
        refine ⟨?_, ?_⟩
        · have counted : ticks + (Action.tick answered).ticks = ticks + 1 := rfl
          have later := tick_ticks middle.sched answered
          rw [passed, BitVec.add_assoc] at later
          rw [counted, succ_ticks]
          exact later
        · rw [thread_of_sched middle] at blocked ⊢
          rw [tick_blocked blocked]
          exact same
      | _ => exact absurd rfl quiet

/-! ## The deadline -/

/-- The sign of the distance to a deadline is right up to 2^31 + 1 ticks ahead. -/
theorem deadline_passed (start limit : Word) (ticks : Nat) (within : ticks < limit.toNat) (short : limit.toNat ≤ 2 ^ 31 + 1) :
    (!(start + BitVec.ofNat 32 ticks + 1 - (start + limit)).msb) = decide (ticks + 1 = limit.toNat) := by
  have bound := limit.isLt
  have wide := start.isLt
  have one : (1 : Word).toNat = 1 := rfl
  rw [BitVec.msb_eq_decide, ← decide_not]
  refine decide_eq_decide.mpr ?_
  simp only [BitVec.toNat_sub, BitVec.toNat_add, BitVec.toNat_ofNat, one]
  omega

/-- A longer limit has passed at once. -/
theorem deadline_missed (start limit : Word) (long : 2 ^ 31 + 1 < limit.toNat) :
    (!(start + 1 - (start + limit)).msb) = true := by
  have bound := limit.isLt
  have wide := start.isLt
  have one : (1 : Word).toNat = 1 := rfl
  rw [BitVec.msb_eq_decide, ← decide_not]
  refine decide_eq_true ?_
  simp only [BitVec.toNat_sub, BitVec.toNat_add, one]
  omega

/-- A tick answers no read of the thread. -/
def Unanswered (k : Ipc) (t : ThreadId) (answered : ThreadId -> Bool) : Prop :=
  (k.thread t).reason = .pecRead -> answered t = false

/-- However long a thread stays blocked without its event, no tick wakes it. -/
def Endless (first : Ipc) (t : ThreadId) : Prop :=
  ∀ ticks last, StaysBlocked t first ticks last -> ∀ answered, last.Unanswered t answered ->
    (last.sched.tick answered).threads t = last.thread t

/-- A thread that stays blocked without its event is woken by the tick of its
limit, with the result of a wait that timed out, and by no tick before. -/
def Punctual (first : Ipc) (t : ThreadId) (sleeps : Bool) (limit : Word) : Prop :=
  ∀ ticks last, StaysBlocked t first ticks last ->
    ticks < limit.toNat ∧ ∀ answered, last.Unanswered t answered ->
      (ticks + 1 < limit.toNat -> (last.sched.tick answered).threads t = last.thread t) ∧
      (ticks + 1 = limit.toNat ->
        ((last.sched.tick answered).threads t).state = .ready ∧
          ((last.sched.tick answered).threads t).r1 = if sleeps then fndOk else FndError.timeout.code)

/-- A thread is blocked with this limit. -/
structure Limited (first : Ipc) (t : ThreadId) (sleeps : Bool) (limit : Word) : Prop where
  blocked : (first.thread t).state = .blocked
  timed : (first.thread t).timed = decide (limit ≠ fndForever)
  wakeTick : (first.thread t).wakeTick = first.sched.ticks + limit
  kind : (first.thread t).reason = .sleep ↔ sleeps = true

theorem Limited.endless (limited : Limited first t sleeps fndForever) : Endless first t := by
  intro ticks last stays answered unanswered
  have same := stays.deadline.2
  have untimed : (last.thread t).timed = false := same.timed.trans (limited.timed.trans (decide_eq_false (not_not.mpr rfl)))
  refine (Sched.tick_thread last.sched answered stays.blocked unanswered).trans (if_neg ?_)
  change ¬ (_ && (last.thread t).timed && _) = true
  rw [untimed, Bool.and_false, Bool.false_and]
  exact Bool.false_ne_true

/-- Before its tick a wait of a moderate limit is left alone, and it is over at
its tick. -/
theorem Limited.tick (limited : Limited first t sleeps limit) (ends : limit ≠ fndForever)
    (short : limit.toNat ≤ 2 ^ 31 + 1) (stays : StaysBlocked t first ticks last) (within : ticks < limit.toNat)
    {answered : ThreadId -> Bool} (unanswered : last.Unanswered t answered) :
    (last.sched.tick answered).threads t =
      if ticks + 1 = limit.toNat then Sched.woken (last.thread t) (Sched.timedOut (last.thread t)) else last.thread t := by
  obtain ⟨passed, same⟩ := stays.deadline
  refine (Sched.tick_thread last.sched answered stays.blocked unanswered).trans (if_congr ?_ rfl rfl)
  change ((decide ((last.thread t).state = .blocked)) && (last.thread t).timed &&
    !(last.sched.ticks + 1 - (last.thread t).wakeTick).msb) = true ↔ _
  rw [decide_eq_true stays.blocked, same.timed, limited.timed, decide_eq_true ends, passed, same.wakeTick,
    limited.wakeTick, deadline_passed _ _ _ within short]
  exact decide_eq_true_iff

theorem Limited.within (limited : Limited first t sleeps limit) (ends : limit ≠ fndForever) (some_ : limit ≠ 0)
    (short : limit.toNat ≤ 2 ^ 31 + 1) (stays : StaysBlocked t first ticks last) : ticks < limit.toNat := by
  induction stays with
  | start _ => exact Nat.pos_of_ne_zero fun zero => some_ (BitVec.eq_of_toNat_eq zero)
  | @step ticks middle next action before step blocked ih =>
    cases step with
    | tick answered =>
      refine Nat.lt_of_le_of_ne (Nat.succ_le_of_lt ih) fun last => ?_
      rw [thread_of_sched] at blocked
      have unanswered := (Sched.tick_awake middle.sched answered blocked).2
      have woken := limited.tick ends short before ih unanswered
      have now : ticks + 1 = limit.toNat := last
      rw [if_pos now, tick_blocked blocked] at woken
      have state := congrArg Thread.state woken
      rw [before.blocked] at state
      cases state
    | _ => exact Nat.lt_of_le_of_lt (Nat.le_refl _) ih

theorem Limited.punctual (limited : Limited first t sleeps limit) (ends : limit ≠ fndForever) (some_ : limit ≠ 0)
    (short : limit.toNat ≤ 2 ^ 31 + 1) : Punctual first t sleeps limit := by
  intro ticks last stays
  have within := limited.within ends some_ short stays
  refine ⟨within, fun answered unanswered => ?_⟩
  have over_ := limited.tick ends short stays within unanswered
  refine ⟨fun early => ?_, fun now => ?_⟩
  · rw [over_, if_neg (Nat.ne_of_lt early)]
  · rw [over_, if_pos now]
    refine ⟨rfl, ?_⟩
    have kind : (last.thread t).reason = .sleep ↔ sleeps = true := stays.deadline.2.sleeps.trans limited.kind
    exact if_congr kind rfl rfl

/-- A limit beyond 2^31 + 1 is over at the first tick. -/
theorem Limited.early (limited : Limited first t sleeps limit) (ends : limit ≠ fndForever)
    (long : 2 ^ 31 + 1 < limit.toNat) : ¬ Punctual first t sleeps limit := by
  intro punctual
  obtain ⟨_, ticked⟩ := punctual 0 first (.start limited.blocked)
  have unanswered : first.Unanswered t fun _ => false := fun _ => rfl
  have same := (ticked _ unanswered).1 (Nat.lt_trans (by decide) long)
  have woken := Sched.tick_thread first.sched (fun _ => false) limited.blocked unanswered
  have over_ : Sched.tickRule (first.sched.ticks + 1) (first.sched.threads t) =
      Sched.woken (first.thread t) (Sched.timedOut (first.thread t)) := by
    refine if_pos ?_
    change ((decide ((first.thread t).state = .blocked)) && (first.thread t).timed &&
      !(first.sched.ticks + 1 - (first.thread t).wakeTick).msb) = true
    rw [decide_eq_true limited.blocked, limited.timed, decide_eq_true ends, limited.wakeTick, deadline_missed _ _ long]
    rfl
  rw [woken, over_] at same
  have state := congrArg Thread.state same
  rw [limited.blocked] at state
  cases state

/-- A thread that a system call leaves blocked is never timed out if its limit
is `FND_FOREVER`, and on time exactly if the limit is at most 2^31 + 1. -/
theorem punctual_iff (calls : k.sched.Calls t) (call : Syscall)
    (blocked : ((k.handleSyscall t call).thread t).state = .blocked) :
    (k.timeout t call = fndForever -> Endless (k.handleSyscall t call) t) ∧
      (k.timeout t call ≠ 0 -> k.timeout t call ≠ fndForever ->
        (Punctual (k.handleSyscall t call) t call.sleeps (k.timeout t call) ↔ k.timeout t call ≤ 0x80000001)) := by
  obtain ⟨timed, wakeTick, kind⟩ := handleSyscall_deadline calls.2 call blocked
  have limited : Limited (k.handleSyscall t call) t call.sleeps (k.timeout t call) := ⟨blocked, timed, wakeTick, kind⟩
  refine ⟨fun forever => ?_, fun some_ ends => ⟨fun punctual => ?_, fun short => ?_⟩⟩
  · rw [forever] at limited
    exact limited.endless
  · by_contra long
    exact limited.early ends (Nat.lt_of_not_le long) punctual
  · exact limited.punctual ends some_ short

/-! ## A wait -/

theorem punctual_sleeper : Punctual (moduleRuns.handleSyscall 0 (.sleep 5)) 0 true 5 := by
  have blocked : ((moduleRuns.handleSyscall 0 (.sleep 5)).thread 0).state = .blocked := by decide +kernel
  exact ((punctual_iff moduleRuns_calls (.sleep 5) blocked).2 (by decide) (by decide)).mpr (by decide)

/-- A sleep of 2^31 + 2 ticks is over after one. -/
theorem sleeper_early : ¬ ∀ (k : Ipc) (t : ThreadId) (call : Syscall), machine.Reachable k -> k.sched.Calls t ->
    ((k.handleSyscall t call).thread t).state = .blocked -> k.timeout t call ≠ 0 -> k.timeout t call ≠ fndForever ->
    Punctual (k.handleSyscall t call) t call.sleeps (k.timeout t call) := by
  intro punctual
  have start : machine.Reachable boot := System.Reachable.start rfl
  have started : machine.Reachable moduleStarted := start.next (Step.module 2 0 emptyImage)
  have runs : machine.Reachable moduleRuns := started.next Step.next
  have blocked : ((moduleRuns.handleSyscall 0 (.sleep 0x80000002)).thread 0).state = .blocked := by decide +kernel
  obtain ⟨_, ticked⟩ := punctual moduleRuns 0 (.sleep 0x80000002) runs moduleRuns_calls blocked (by decide) (by decide) 0 _
    (.start blocked)
  have same := (ticked (fun _ => false) fun _ => rfl).1 (by decide)
  have differs : (((moduleRuns.handleSyscall 0 (.sleep 0x80000002)).sched.tick fun _ => false).threads 0).state ≠
      ((moduleRuns.handleSyscall 0 (.sleep 0x80000002)).thread 0).state := by decide +kernel
  exact differs (congrArg Thread.state same)

end Ipc
end Src32.Kernel
