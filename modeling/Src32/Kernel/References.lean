import Src32.Kernel.Closing

namespace Src32.Kernel.Ipc

/-!
# Reference counts

In every state a run of the kernel reaches, the count of an object is the
number of handles of live processes that name it.  Ports and channels go with
their last handle, no slot is taken again while a handle names it, and a
handle that cannot be transferred leaves everything as it was.
-/

variable {k next : Ipc} {t : ThreadId} {p : ProcId}

theorem consistent_boot : boot.Consistent where
  counted := by
    have nobody : ∀ t, (boot.thread t).active = false := fun _ => rfl
    refine ⟨fun o => ?_, fun _ => ⟨nofun, fun held => absurd held (Nat.lt_irrefl 0)⟩,
      fun _ held => absurd held (Nat.lt_irrefl 0), fun _ => nofun, fun _ _ => nofun, ?_, fun _ _ => rfl, fun _ _ => nofun,
      fun t active => ?_, fun t p at_ => ?_⟩
    · change _ = tally (fun _ => none) o
      rw [tally_empty]
      cases o <;> rfl
    · refine ⟨fun _ => [], ⟨fun _ => rfl, fun _ => rfl, fun _ _ _ => nofun⟩, fun c p => ⟨nofun, fun pending => ?_⟩⟩
      cases pending.1
    · rw [nobody t] at active
      cases active
    · have active := Thread.active_blocked (atPort_blocked at_)
      rw [nobody t] at active
      cases active
  tables := fun _ _ _ _ => rfl

/-- Every run whose spawns get a pid of their own is consistent. -/
theorem consistent_of_reachable (reached : (machine.within Spawns).Reachable k) : k.Consistent := by
  refine reached.invariant (fun start begins => ?_) fun first action second holds step => ?_
  · cases begins
    exact consistent_boot
  · exact holds.trail (trail_of_step holds.counted.grounded step.1 step.2)

/-- The entries of live processes. -/
def liveHandles (k : Ipc) (e : ProcId × HandleIx) : Option Obj :=
  if (k.procs e.1).state = .live then k.handles e else none

theorem Tables.liveHandles (tables : k.Tables none) : k.liveHandles = k.handles := by
  funext e
  unfold Ipc.liveHandles
  split
  · rfl
  · next ended => exact (tables e.1 nofun ended e.2).symm

/-! ## Transfers that fail -/

variable {error : FndError} {mem : UserMemory}

theorem handleMove_error {from_ to_ : ProcId} {h : Word} (failed : (k.handleMove from_ h to_).1 = .error error) :
    (k.handleMove from_ h to_).2 = k := by
  unfold handleMove at failed ⊢
  rcases handleDupInto_cases k from_ h to_ with ⟨error, refused⟩ | ⟨i, o, _, added⟩
  · rw [refused]
  · rw [added] at failed ⊢
    cases result : (k.handleAdd to_ o).1 with
    | error error =>
      have same := handleAdd_error result
      generalize k.handleAdd to_ o = outcome at failed result same ⊢
      obtain ⟨status, k₁⟩ := outcome
      cases result
      exact same
    | ok h =>
      generalize k.handleAdd to_ o = outcome at failed result
      obtain ⟨status, k₁⟩ := outcome
      cases result
      cases failed

/-- The tables and the counts are as they were. -/
def Untouched (k next : Ipc) : Prop := next.handles = k.handles ∧ next.refs = k.refs

theorem deliverCall_error {receiver caller : ThreadId}
    (failed : (deliverCall mem k receiver caller).1 = .error error) :
    Untouched k (deliverCall mem k receiver caller).2 := by
  unfold deliverCall at failed ⊢
  dsimp only at failed ⊢
  have touched : Untouched k (k.touch (k.thread receiver).proc (k.thread receiver).rcv recvSize permR) :=
    ⟨rfl, refs_congr (fun _ => rfl) (fun _ => rfl) (fun _ => rfl) fun _ => rfl⟩
  generalize k.touch (k.thread receiver).proc (k.thread receiver).rcv recvSize permR = k₁ at touched failed ⊢
  unfold transferCall at failed ⊢
  split at failed
  · next error moved refused =>
      split at refused
      · next transfers =>
          have same := handleMove_error (congrArg Prod.fst refused)
          rw [refused] at same
          dsimp only at same ⊢
          rw [same]
          exact touched
      · cases refused
  · cases failed

theorem ipcReply_error {token addr : Word} (failed : (ipcReply mem k t token addr).1 = .error error) :
    (ipcReply mem k t token addr).2 = k := by
  unfold ipcReply at failed ⊢
  split
  · rfl
  · next msg read =>
      rw [read] at failed
      dsimp only at failed
      split
      · rfl
      · next valid =>
          rw [if_neg valid] at failed
          split
          · rfl
          · next caller called =>
              rw [called] at failed
              dsimp only at failed
              split
              · rfl
              · next fits =>
                  rw [if_neg fits] at failed
                  split
                  · next transfers =>
                      rw [if_pos transfers] at failed
                      split
                      · next error' moved refused =>
                          have same := handleMove_error (congrArg Prod.fst refused)
                          rw [refused] at same
                          exact same
                      · next done =>
                          rw [done] at failed
                          cases failed
                  · next plain =>
                      rw [if_neg plain] at failed
                      cases failed

theorem Quiet.untouched (quiet : Quiet k next) : Untouched k next := ⟨quiet.handles, quiet.framed.counts⟩

theorem procSpawn_error {early late : Except FndError Unit} {built : Built} {addr : Word} (grounded : k.Grounded)
    (fresh : k.FreshPid) (live : (k.procs p).state = .live)
    (failed : (procSpawn mem early late built k p addr).1 = .error error) :
    Untouched k (procSpawn mem early late built k p addr).2 := by
  rcases procSpawn_cases mem early late built grounded fresh live addr with
    ⟨_, refused, outcome, quiet⟩ | ⟨h, next, outcome, _⟩
  · rw [outcome]
    exact quiet.untouched
  · rw [outcome] at failed
    cases failed

theorem procFork_error {vm : Bool} {cloned : Except FndError Unit} (grounded : k.Grounded)
    (runs : (k.thread t).state = .running) (failed : (procFork vm cloned k t).1 = .error error) :
    Untouched k (procFork vm cloned k t).2 := by
  rcases procFork_cases vm cloned grounded runs with ⟨_, refused, outcome, quiet⟩ | ⟨h, next, outcome, _⟩
  · rw [outcome]
    exact quiet.untouched
  · rw [outcome] at failed
    cases failed

/-! ## The accounts -/

/-- What the counts say about a state of the kernel. -/
structure Accounted (k : Ipc) : Prop where
  /-- A count is the number of handles of live processes. -/
  counts : ∀ o, k.refs o = tally k.liveHandles o
  /-- A port is there as long as a handle names it. -/
  ports : ∀ p, (k.ports p).used = true ↔ 0 < k.refs (.port p)
  /-- A channel is there as long as a handle names it or its port has yet to
  hear that none does. -/
  chans : ∀ c, (k.chans c).used = true ↔
    0 < k.refs (.chan c) ∨ ∃ p, k.GonePending c p ∧ (k.ports p).used = true
  /-- The slots that are handed out next are not named. -/
  threadSlot : ∀ t, k.sched.freeSlot = some t -> ¬ k.Named (.thread t)
  record : ∀ p, claimable k.procs = some p -> ¬ k.Named (.proc p)
  portSlot : ∀ p, (k.ports p).used = false -> ¬ k.Named (.port p)
  chanSlot : ∀ c, (k.chans c).used = false -> ¬ k.Named (.chan c)

/-- A transfer that fails, in a call, a reply, a spawn or a fork, leaves the
tables and the counts as they were. -/
structure TransfersWhole (k : Ipc) : Prop where
  call : ∀ (during : Ipc) mem receiver caller error,
    (deliverCall mem during receiver caller).1 = .error error ->
      Untouched during (deliverCall mem during receiver caller).2
  reply : ∀ t mem token msg error, (ipcReply mem k t token msg).1 = .error error ->
    Untouched k (ipcReply mem k t token msg).2
  spawn : ∀ t mem early late built addr error, k.sched.Calls t -> k.FreshPid ->
    (procSpawn mem early late built k (k.procOf t) addr).1 = .error error ->
      Untouched k (procSpawn mem early late built k (k.procOf t) addr).2
  fork : ∀ t vm cloned error, k.sched.Calls t -> (procFork vm cloned k t).1 = .error error ->
    Untouched k (procFork vm cloned k t).2

theorem Counted.unnamed (counted : k.Counted) {o : Obj} (none : k.refs o = 0) : ¬ k.Named o := by
  rw [counted.named, none]
  exact Nat.lt_irrefl 0

theorem Consistent.accounted (consistent : k.Consistent) : k.Accounted := by
  obtain ⟨counted, tables⟩ := consistent
  refine ⟨fun o => ?_, counted.ports, fun c => ⟨fun used => ?_, ?_⟩, fun t found => ?_, fun p found => ?_,
    fun p unused => counted.unnamed (counted.noPortRefs unused), fun c unused => counted.unnamed (counted.noRefs unused)⟩
  · rw [tables.liveHandles]
    exact counted.exact o
  · rcases Nat.eq_zero_or_pos (k.refs (.chan c)) with none | held
    · right
      cases port : (k.chans c).port with
      | none => exact absurd port (counted.pending c used none)
      | some p => exact ⟨p, ⟨used, none, port⟩, counted.behind c p used port⟩
    · exact Or.inl held
  · rintro (held | ⟨p, pending, _⟩)
    · exact counted.chans c held
    · exact pending.1
  · refine counted.unnamed ?_
    have taken := List.find?_some found
    unfold Sched.reusable at taken
    simp only [Bool.and_eq_true, decide_eq_true_iff] at taken
    exact taken.2
  · exact counted.unnamed (claimable_some counted.grounded found).2

/-- Every state that is reached is accounted for, and its transfers are done
whole or not at all. -/
theorem accounted_of_reachable (reached : (machine.within Spawns).Reachable k) :
    k.Accounted ∧ k.TransfersWhole := by
  have consistent := consistent_of_reachable reached
  have grounded := consistent.counted.grounded
  refine ⟨consistent.accounted, ?_, ?_, ?_, ?_⟩
  · intro during mem receiver caller error failed
    exact deliverCall_error failed
  · intro t mem token msg error failed
    rw [ipcReply_error failed]
    exact ⟨rfl, rfl⟩
  · intro t mem early late built addr error calls fresh failed
    exact procSpawn_error grounded fresh (grounded.live calls.2).2 failed
  · intro t vm cloned error calls failed
    exact procFork_error grounded calls.2 failed

/-! ## A thread that no handle names -/

/-- User memory that holds zeros and may all be accessed. -/
def zeroMemory : UserMemory := ⟨fun _ _ => 0, fun _ _ => 0, fun _ _ _ _ => true⟩

/-- A process without regions, which nothing refuses. -/
def emptyImage : Built := ⟨.ok (), .ok (), .ok []⟩

/-- The kernel has started its first process. -/
def moduleStarted : Ipc := (boot.spawnImage 2 0 0 emptyImage).2

def moduleRuns : Ipc := { moduleStarted with sched := moduleStarted.sched.schedNext }

/-- The process has a second thread and a handle for it. -/
def secondThread : Ipc := moduleRuns.handleSyscall 0 (.threadCreate zeroMemory 0 0 0)

/-- It has closed the handle. -/
def threadUnnamed : Ipc := secondThread.handleSyscall 0 (.handleClose 1)

theorem moduleRuns_calls : moduleRuns.sched.Calls 0 := ⟨by decide +kernel, by decide +kernel⟩

theorem secondThread_calls : secondThread.sched.Calls 0 := ⟨by decide +kernel, by decide +kernel⟩

theorem secondThread_reachable : (machine.within Spawns).Reachable secondThread := by
  have starts : (machine.within Spawns).step boot (.module 2 0 emptyImage) moduleStarted :=
    ⟨trivial, Step.module 2 0 emptyImage⟩
  have runs : (machine.within Spawns).step moduleStarted .next moduleRuns := ⟨trivial, Step.next⟩
  have creates : (machine.within Spawns).step moduleRuns (.syscall (.threadCreate zeroMemory 0 0 0)) secondThread :=
    ⟨trivial, Step.syscall moduleRuns_calls (.threadCreate zeroMemory 0 0 0)⟩
  exact ((System.Reachable.start rfl).next starts).next runs |>.next creates

theorem secondThread_accounted : secondThread.Accounted ∧ secondThread.TransfersWhole :=
  accounted_of_reachable secondThread_reachable

/-- The last handle of a thread closes and the thread is still ready. -/
theorem unnamed_thread_ready :
    (machine.within Spawns).Reachable secondThread ∧
      Step secondThread (.syscall (.handleClose 1)) threadUnnamed ∧ secondThread.refs (.thread 1) = 1 ∧
      threadUnnamed.refs (.thread 1) = 0 ∧ (threadUnnamed.thread 1).state = .ready :=
  ⟨secondThread_reachable, Step.syscall secondThread_calls (.handleClose 1), by decide +kernel, by decide +kernel,
    by decide +kernel⟩

end Src32.Kernel.Ipc
