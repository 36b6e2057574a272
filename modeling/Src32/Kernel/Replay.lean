import Src32.Kernel.Steps

namespace Src32.Kernel.Ipc

/-!
# Runs that are computed

A trap leaves one state behind, and whether it can happen is decidable.  A list
of traps is replayed on a state, and what comes out is reachable.
-/

variable {k next : Ipc}

/-- The thread of a system call. -/
def caller (k : Ipc) : Option ThreadId :=
  match k.sched.current with
  | none => none
  | some t => if (k.thread t).state = .running then some t else none

/-- The state behind a trap that can happen. -/
def perform (k : Ipc) : Action -> Option Ipc
  | .syscall call => k.caller.map fun t => k.handleSyscall t call
  | .fault cause => k.caller.map fun t => k.procExit (k.procOf t) cause
  | .irq line => some (k.irqNotify line)
  | .tick answered => some { k with sched := k.sched.tick answered }
  | .blkDone t result =>
    if (k.thread t).state = .blocked ∧ (k.thread t).reason = .blkIo then some (k.wake t result) else none
  | .module priority caps built => some (k.spawnImage priority caps 0 built).2
  | .next => some { k with sched := k.sched.schedNext }

theorem caller_iff {t : ThreadId} : k.caller = some t ↔ k.sched.Calls t := by
  unfold caller Sched.Calls
  cases current : k.sched.current with
  | none => exact ⟨nofun, fun calls => nomatch calls.1⟩
  | some u =>
    dsimp only
    constructor
    · intro found
      split at found
      · next runs =>
          cases found
          exact ⟨rfl, runs⟩
      · cases found
    · rintro ⟨same, runs⟩
      cases same
      exact if_pos runs

/-- A step is determined by its action. -/
theorem perform_iff {action : Action} : k.perform action = some next ↔ Step k action next := by
  constructor
  · intro performed
    cases action with
    | syscall call =>
      obtain ⟨t, calls, rfl⟩ := Option.map_eq_some_iff.mp performed
      exact Step.syscall (caller_iff.mp calls) call
    | fault cause =>
      obtain ⟨t, calls, rfl⟩ := Option.map_eq_some_iff.mp performed
      exact Step.fault (caller_iff.mp calls) cause
    | irq line =>
      rw [← Option.some.inj performed]
      exact Step.irq line
    | tick answered =>
      rw [← Option.some.inj performed]
      exact Step.tick answered
    | blkDone t result =>
      unfold perform at performed
      dsimp only at performed
      split at performed
      · next waits =>
          rw [← Option.some.inj performed]
          exact Step.blkDone waits.1 waits.2 result
      · cases performed
    | module priority caps built =>
      rw [← Option.some.inj performed]
      exact Step.module priority caps built
    | next =>
      rw [← Option.some.inj performed]
      exact Step.next
  · intro step
    cases step with
    | syscall calls call | fault calls cause => exact Option.map_eq_some_iff.mpr ⟨_, caller_iff.mpr calls, rfl⟩
    | irq line => rfl
    | tick answered => rfl
    | blkDone blocked waits result => exact if_pos ⟨blocked, waits⟩
    | module priority caps built => rfl
    | next => rfl

/-- The traps one after the other. -/
def replay : Ipc -> List Action -> Option Ipc
  | k, [] => some k
  | k, action :: rest => (k.perform action).bind fun next => next.replay rest

/-- No process starts another one. -/
def Action.plain : Action -> Bool
  | .syscall (.procSpawn ..) => false
  | _ => true

theorem plain_spawns {action : Action} (plain : action.plain = true) : k.Spawns action := by
  cases action with
  | syscall call =>
    cases call with
    | procSpawn => cases plain
    | _ => exact trivial
  | _ => exact trivial

section
variable {condition : Ipc -> Action -> Prop} {allowed : Action -> Bool} {actions : List Action}

/-- What is left behind by traps that meet a condition whatever the state. -/
theorem replay_reachable (meets : ∀ k action, allowed action = true -> condition k action)
    (reached : (machine.within condition).Reachable k) (all : actions.all allowed = true)
    (replayed : k.replay actions = some next) : (machine.within condition).Reachable next := by
  induction actions generalizing k with
  | nil =>
    cases replayed
    exact reached
  | cons action rest ih =>
    obtain ⟨first, others⟩ := Bool.and_eq_true_iff.mp all
    obtain ⟨second, performed, behind⟩ := Option.bind_eq_some_iff.mp replayed
    exact ih (reached.next ⟨meets k action first, perform_iff.mp performed⟩) others behind

end

/-- The state a list of traps that can happen leads to. -/
def after (k : Ipc) (actions : List Action) : Ipc := (k.replay actions).getD k

/-- The traps can happen, and they are all allowed. -/
def replays (k : Ipc) (allowed : Action -> Bool) (actions : List Action) : Bool :=
  actions.all allowed && (k.replay actions).isSome

theorem after_reachable {condition : Ipc -> Action -> Prop} {allowed : Action -> Bool}
    (meets : ∀ k action, allowed action = true -> condition k action) {actions : List Action}
    (reached : (machine.within condition).Reachable k) (replays : k.replays allowed actions = true) :
    (machine.within condition).Reachable (k.after actions) := by
  obtain ⟨all, possible⟩ := Bool.and_eq_true_iff.mp replays
  obtain ⟨next, replayed⟩ := Option.isSome_iff_exists.mp possible
  have same : k.after actions = next := by
    unfold after
    rw [replayed]
    rfl
  rw [same]
  exact replay_reachable meets reached all replayed

end Src32.Kernel.Ipc
