import Src32.Kernel.Trails

namespace Src32.Kernel.Ipc

open Function (update update_self update_of_ne)

/-!
# Steps as trails

The system calls that start and end processes and threads, and from them every
step of the kernel.
-/

variable {k next : Ipc} {t : ThreadId} {p : ProcId}

/-- What the moves of a trap rely on: handles are counted, records that are
free have no count, a service has a port, and a thread that runs or waits
belongs to a live process. -/
structure Grounded (k : Ipc) : Prop where
  backed : k.Backed
  free : ∀ p, (k.procs p).state = .free -> (k.procs p).refs = 0
  services : ∀ i q, (k.services i).port = some q -> k.Named (.port q)
  owned : ∀ t, (k.thread t).active = true -> ∃ p, (k.thread t).proc = some p ∧ (k.procs p).state = .live

theorem Grounded.live (grounded : k.Grounded) (runs : (k.thread t).state = .running) :
    (k.thread t).proc = some (k.procOf t) ∧ (k.procs (k.procOf t)).state = .live := by
  obtain ⟨p, own, live⟩ := grounded.owned t (Thread.active_running runs)
  unfold procOf
  rw [own]
  exact ⟨rfl, live⟩

/-! ## Slots and records -/

theorem clearSlot_turns {s : Sched} (rests : (s.threads t).active = false) : Sched.Turns s (s.clearSlot t) := by
  intro u
  by_cases same : u = t
  · subst same
    unfold Sched.clearSlot Sched.modify
    dsimp only
    rw [update_self]
    refine ⟨rfl, rests.symm, ?_, fun active => absurd (rests.symm.trans active) Bool.false_ne_true⟩
    rintro (blocked | blocked)
    · exact absurd (rests.symm.trans (Thread.active_blocked blocked)) Bool.false_ne_true
    · cases blocked
  · unfold Sched.clearSlot Sched.modify
    dsimp only
    rw [update_of_ne same]
    exact Thread.Alike.refl _

/-- A slot is taken for a thread. -/
theorem quiet_allocThread {sched : Sched} (taken : k.sched.allocThread = some (t, sched)) :
    Quiet k { k with sched := sched } ∧ (sched.threads t).active = false ∧
      ∀ u, (k.thread u).active = true -> u ≠ t ∧ sched.threads u = k.thread u := by
  obtain ⟨state, _, rfl⟩ := Sched.allocThread_some taken
  have rests : (k.thread t).active = false := by
    unfold Thread.active thread
    rcases state with free | dead
    · rw [free]
      rfl
    · rw [dead]
      rfl
  refine ⟨Quiet.of_turns (clearSlot_turns rests), ?_, fun u active => ?_⟩
  · unfold Sched.clearSlot Sched.modify
    dsimp only
    rw [update_self]
    rfl
  · have other : u ≠ t := by
      rintro rfl
      exact Bool.false_ne_true (rests.symm.trans active)
    refine ⟨other, ?_⟩
    unfold Sched.clearSlot Sched.modify
    dsimp only
    rw [update_of_ne other]
    rfl

/-- The record a launch claims has ended and nobody refers to it. -/
theorem claimable_some (grounded : k.Grounded) (found : claimable k.procs = some p) :
    (k.procs p).state ≠ .live ∧ (k.procs p).refs = 0 := by
  unfold claimable at found
  cases free : (List.finRange 10).find? fun q => (k.procs q).state = .free with
  | some q =>
    rw [free] at found
    cases found
    have state := List.find?_some free
    rw [decide_eq_true_iff] at state
    refine ⟨?_, grounded.free p state⟩
    rw [state]
    decide
  | none =>
    rw [free] at found
    have state := List.find?_some found
    rw [Bool.and_eq_true, decide_eq_true_iff, decide_eq_true_iff] at state
    refine ⟨?_, state.2⟩
    rw [state.1]
    decide

/-! ## Starting -/

theorem startProc_procs (k : Ipc) (p : ProcId) (t : ThreadId) (priority : Nat) :
    (k.startProc p t priority).procs = update k.procs p ((k.procs p).started k.nextPid priority) := rfl

theorem startProc_handles (k : Ipc) (p : ProcId) (t : ThreadId) (priority : Nat) :
    (k.startProc p t priority).handles = fun e => if e.1 = p then none else k.handles e := rfl

theorem makeReady_thread (k : Ipc) (t : ThreadId) : ∃ priority, Ipc.thread { k with sched := k.sched.makeReady t } =
    update k.thread t { k.thread t with state := .ready, priority := priority } :=
  Sched.makeReady_threads k.sched t

theorem startProc_thread (k : Ipc) (p : ProcId) (t : ThreadId) (priority : Nat) :
    ∃ clamped, (k.startProc p t priority).thread = update k.thread t
      { k.thread t with r1 := 0, proc := some p, state := .ready, priority := clamped } := by
  obtain ⟨clamped, threads⟩ := Sched.makeReady_threads
    (s := k.sched.modify t fun thread => { thread with r1 := 0, priority := priority, proc := some p }) (t := t)
  refine ⟨clamped, threads.trans ?_⟩
  unfold Sched.modify
  dsimp only
  rw [update_self, Function.update_idem]
  rfl

variable {action : Action} {q proc : ProcId}

theorem startProc_live (k : Ipc) (p : ProcId) (t : ThreadId) (priority : Nat) (live : (k.procs q).state = .live) :
    ((k.startProc p t priority).procs q).state = .live := by
  rw [startProc_procs]
  by_cases same : q = p
  · subst same
    rw [update_self]
    rfl
  · rw [update_of_ne same]
    exact live

/-- Record `p` was not live and is, and the other records and tables are as
they were. -/
structure Launched (k next : Ipc) (p : ProcId) : Prop where
  idle : (k.procs p).state ≠ .live
  live : (next.procs p).state = .live
  procs : ∀ q, q ≠ p -> next.procs q = k.procs q
  handles : ∀ q i, q ≠ p -> next.handles (q, i) = k.handles (q, i)

theorem Launched.lives (launched : Launched k next p) (live : (k.procs q).state = .live) :
    (next.procs q).state = .live := by
  have other : q ≠ p := by
    rintro rfl
    exact launched.idle live
  rw [launched.procs q other]
  exact live

/-- A launch refuses or starts the record it claims. -/
theorem spawnImage_cases (grounded : k.Grounded) (priority : Nat) (caps parent : Word) (built : Built) :
    (∃ error refused, k.spawnImage priority caps parent built = (.error error, refused) ∧ Quiet k refused) ∨
      ∃ next p, k.spawnImage priority caps parent built = (.ok k.nextPid, next) ∧ Moves k next ∧
        Launched k next p := by
  unfold spawnImage
  cases built.granted with
  | error error => exact Or.inl ⟨error, k, rfl, Quiet.refl k⟩
  | ok done =>
    dsimp only
    cases found : claimable k.procs with
    | none => exact Or.inl ⟨.limit, k, rfl, Quiet.refl k⟩
    | some p =>
      obtain ⟨idle, free⟩ := claimable_some grounded found
      dsimp only
      have claimed : Quiet k (k.modifyProc p Proc.claimed) := quiet_modifyProc rfl rfl
      have others : ∀ q, q ≠ p -> (k.modifyProc p Proc.claimed).procs q = k.procs q := fun q other =>
        update_of_ne other ..
      have pid : (k.modifyProc p Proc.claimed).nextPid = k.nextPid := rfl
      generalize k.modifyProc p Proc.claimed = k₁ at claimed others pid ⊢
      cases built.planned with
      | error error => exact Or.inl ⟨error, k₁, rfl, claimed⟩
      | ok done =>
        dsimp only
        cases slot : k₁.sched.allocThread with
        | none => exact Or.inl ⟨.limit, k₁, rfl, claimed⟩
        | some taken =>
          obtain ⟨t, sched⟩ := taken
          dsimp only
          obtain ⟨quiet, rests, _⟩ := quiet_allocThread slot
          have path := claimed.trans quiet
          cases built.mapped with
          | error error => exact Or.inl ⟨error, _, rfl, path⟩
          | ok regions =>
            dsimp only
            have filled : Quiet { k₁ with sched := sched } ({ k₁ with sched := sched }.modifyProc p
                fun proc => { proc with regions := regions, parent := parent, caps := caps }) :=
              quiet_modifyProc rfl rfl
            have same : ∀ q, q ≠ p -> ({ k₁ with sched := sched }.modifyProc p
                fun proc => { proc with regions := regions, parent := parent, caps := caps }).procs q =
                k₁.procs q := fun q other => update_of_ne other ..
            have threads : ({ k₁ with sched := sched }.modifyProc p
                fun proc => { proc with regions := regions, parent := parent, caps := caps }).sched =
                sched := rfl
            generalize { k₁ with sched := sched }.modifyProc p
                (fun proc => { proc with regions := regions, parent := parent, caps := caps }) = k₂
              at filled same threads ⊢
            have quiet₂ := path.trans filled
            have starts : Move k₂ (k₂.startProc p t priority) := by
              refine Move.startProc ?_ ?_ ?_ priority
              · rw [quiet₂.states]
                exact idle
              · rw [quiet₂.counts]
                exact free
              · unfold thread
                rw [threads]
                exact rests
            refine Or.inr ⟨k₂.startProc p t priority, p, ?_, (Moves.one (Move.quiet quiet₂)).then starts, idle,
              ?_, fun q other => ?_, fun q i other => ?_⟩
            · rw [pid]
            · rw [startProc_procs, update_self]
              rfl
            · rw [startProc_procs, update_of_ne other, same q other]
              exact others q other
            · rw [startProc_handles, ← quiet₂.handles]
              exact if_neg other

theorem objRef_state (k : Ipc) (o : Obj) (q : ProcId) : ((k.objRef o).procs q).state = (k.procs q).state := by
  cases o with
  | proc p =>
    unfold objRef modifyProc
    dsimp only
    by_cases same : q = p
    · subst same
      rw [update_self]
    · rw [update_of_ne same]
  | port _ => rfl
  | chan _ => rfl
  | thread _ => rfl

theorem handleAdd_state (k : Ipc) (p : ProcId) (o : Obj) (q : ProcId) :
    ((k.handleAdd p o).2.procs q).state = (k.procs q).state := by
  unfold handleAdd
  cases k.freeIx p with
  | none => rfl
  | some i => exact objRef_state (k.setHandle p i (some o)) o q

/-- A handle that is added changes a thread in its count only. -/
theorem handleAdd_thread (k : Ipc) (p : ProcId) (o : Obj) (u : ThreadId) :
    ((k.handleAdd p o).2.thread u).active = (k.thread u).active ∧
      ((k.handleAdd p o).2.thread u).proc = (k.thread u).proc := by
  unfold handleAdd
  cases k.freeIx p with
  | none => exact ⟨rfl, rfl⟩
  | some i =>
    dsimp only
    cases o with
    | thread v =>
      change ((update k.thread v _) u).active = _ ∧ ((update k.thread v _) u).proc = _
      by_cases same : u = v
      · subst same
        rw [update_self]
        exact ⟨rfl, rfl⟩
      · rw [update_of_ne same]
        exact ⟨rfl, rfl⟩
    | port _ | chan _ | proc _ => exact ⟨rfl, rfl⟩

theorem handleDupInto_state (k : Ipc) (from_ : ProcId) (h : Word) (to_ q : ProcId) :
    ((k.handleDupInto from_ h to_).2.procs q).state = (k.procs q).state := by
  rcases handleDupInto_cases k from_ h to_ with ⟨error, failed⟩ | ⟨i, o, _, added⟩
  · rw [failed]
  · rw [added]
    exact handleAdd_state k to_ o q

/-- The handles for a live child are added one by one. -/
theorem passHandles_moves (caller : ProcId) {child : ProcId} (handles : List Word)
    (live : (k.procs child).state = .live) :
    Moves k (k.passHandles caller child handles) ∧
      ∀ q, ((k.passHandles caller child handles).procs q).state = (k.procs q).state := by
  unfold passHandles
  induction handles generalizing k with
  | nil => exact ⟨Moves.refl k, fun _ => rfl⟩
  | cons h rest ih =>
    have states := handleDupInto_state k caller h child
    obtain ⟨path, later⟩ := ih ((states child).trans live)
    refine ⟨(handleDupInto_moves caller h (Or.inl live)).trans path, fun q => ?_⟩
    exact (later q).trans (states q)

/-- The next pid is not in use. -/
def FreshPid (k : Ipc) : Prop := ∀ p, (k.procs p).state ≠ .free -> (k.procs p).pid ≠ k.nextPid

/-- The record of a pid that only one record can have. -/
theorem procGet_only {pid : Word} (found : k.procGet pid = some q)
    (only : ∀ r, r ≠ p -> (k.procs r).state ≠ .free -> (k.procs r).pid ≠ pid) : q = p := by
  unfold procGet at found
  have taken := List.find?_some found
  rw [Bool.and_eq_true, decide_eq_true_iff, decide_eq_true_iff] at taken
  by_contra other
  exact only q other taken.1 taken.2

/-- The other tables are as they were. -/
theorem handleDupInto_handles (k : Ipc) (from_ : ProcId) (h : Word) (to_ : ProcId) (other : q ≠ to_) (i : HandleIx) :
    (k.handleDupInto from_ h to_).2.handles (q, i) = k.handles (q, i) := by
  rcases handleDupInto_cases k from_ h to_ with ⟨error, failed⟩ | ⟨j, o, _, added⟩
  · rw [failed]
  · rw [added]
    unfold handleAdd
    cases k.freeIx to_ with
    | none => rfl
    | some l =>
      dsimp only
      rw [objRef_handles]
      exact update_of_ne (fun same => other (Prod.mk.inj same).1) ..

theorem passHandles_handles (k : Ipc) (caller child : ProcId) (handles : List Word) (other : q ≠ child)
    (i : HandleIx) : (k.passHandles caller child handles).handles (q, i) = k.handles (q, i) := by
  unfold passHandles
  induction handles generalizing k with
  | nil => rfl
  | cons h rest ih => exact (ih (k.handleDupInto caller h child).2).trans (handleDupInto_handles k caller h child other i)

/-- A table with a free entry takes a handle. -/
theorem handleAdd_ok (room : k.handleFreeCount proc ≠ 0) (same : ∀ i, next.handles (proc, i) = k.handles (proc, i))
    (o : Obj) :
    ∃ h added, next.handleAdd proc o = (.ok h, added) := by
  unfold handleAdd
  cases free : next.freeIx proc with
  | some i => exact ⟨_, _, rfl⟩
  | none =>
    refine absurd ?_ room
    unfold handleFreeCount
    rw [List.countP_eq_zero]
    intro i member empty
    unfold freeIx at free
    have taken := List.find?_eq_none.mp free i member
    rw [same] at taken
    exact taken empty

/-- A spawn that fails changes nothing that counts; one that does not starts a
process and adds the handles. -/
theorem procSpawn_cases (mem : UserMemory) (early late : Except FndError Unit) (built : Built)
    (grounded : k.Grounded) (fresh : k.FreshPid) {caller : ProcId} (live : (k.procs caller).state = .live)
    (addr : Word) :
    (∃ error refused, procSpawn mem early late built k caller addr = (.error error, refused) ∧ Quiet k refused) ∨
      ∃ h next, procSpawn mem early late built k caller addr = (.ok h, next) ∧ Moves k next := by
  have stays : ∀ error, (∃ error' refused, ((.error error, k) : Except FndError Word × Ipc) = (.error error', refused) ∧
      Quiet k refused) := fun error => ⟨error, k, rfl, Quiet.refl k⟩
  unfold procSpawn
  split
  · exact Or.inl (stays _)
  · next sp _ =>
      split
      · exact Or.inl (stays _)
      · split
        · exact Or.inl (stays _)
        · split
          · exact Or.inl (stays _)
          · next room =>
              split
              · exact Or.inl (stays _)
              · rcases spawnImage_cases grounded sp.priority.toNat sp.caps (k.procs caller).pid built with
                  ⟨error, refused, failed, quiet⟩ | ⟨k₁, p, made, path, launched⟩
                · rw [failed]
                  exact Or.inl ⟨error, refused, rfl, quiet⟩
                · rw [made]
                  dsimp only
                  split
                  · exact Or.inr ⟨_, k₁, rfl, path⟩
                  · split
                    · exact Or.inr ⟨_, k₁, rfl, path⟩
                    · next child found =>
                        have new : child = p := by
                          refine procGet_only found fun q other used => ?_
                          rw [launched.procs q other] at used ⊢
                          exact fresh q used
                        subst new
                        have other : caller ≠ child := by
                          rintro rfl
                          exact launched.idle live
                        obtain ⟨passed, states⟩ :=
                          passHandles_moves caller (spawnHandles mem caller sp) launched.live
                        have tables : ∀ i, (k₁.passHandles caller child (spawnHandles mem caller sp)).handles (caller, i) =
                            k.handles (caller, i) := fun i =>
                          (passHandles_handles k₁ caller child _ other i).trans (launched.handles caller i other)
                        have adds := handleAdd_moves
                          (Or.inl ((states caller).trans (launched.lives live)))
                          (Or.inr (Or.inr ⟨child, rfl, (states child).trans launched.live⟩))
                        obtain ⟨h, added, done⟩ := handleAdd_ok room tables (.proc child)
                        rw [done] at adds ⊢
                        exact Or.inr ⟨h, added, rfl, (path.trans passed).trans adds⟩

theorem procSpawn_moves (mem : UserMemory) (early late : Except FndError Unit) (built : Built)
    (grounded : k.Grounded) (fresh : k.FreshPid) {caller : ProcId} (live : (k.procs caller).state = .live)
    (addr : Word) : Moves k (procSpawn mem early late built k caller addr).2 := by
  rcases procSpawn_cases mem early late built grounded fresh live addr with
    ⟨error, refused, failed, quiet⟩ | ⟨h, next, done, path⟩
  · rw [failed]
    exact Moves.one (Move.quiet quiet)
  · rw [done]
    exact path

/-! ## Forking -/

/-- A table is copied into an empty one. -/
theorem cloneVisits_moves {from_ to_ : ProcId} (items : List HandleIx) (distinct : items.Nodup)
    (live : (k.procs to_).state = .live) (empty : ∀ i ∈ items, k.handles (to_, i) = none) :
    Moves k (items.foldl (cloneVisit from_ to_) k) ∧
      (∀ q, ((items.foldl (cloneVisit from_ to_) k).procs q).state = (k.procs q).state) ∧
      ∀ q i, q ≠ to_ -> (items.foldl (cloneVisit from_ to_) k).handles (q, i) = k.handles (q, i) := by
  induction items generalizing k with
  | nil => exact ⟨Moves.refl k, fun _ => rfl, fun _ _ _ => rfl⟩
  | cons i rest ih =>
    obtain ⟨notAgain, distinct⟩ := List.nodup_cons.mp distinct
    have visit : Moves k (cloneVisit from_ to_ k i) ∧
        (∀ q, ((cloneVisit from_ to_ k i).procs q).state = (k.procs q).state) ∧
        ∀ q j, (q, j) ≠ (to_, i) -> (cloneVisit from_ to_ k i).handles (q, j) = k.handles (q, j) := by
      unfold cloneVisit
      cases named : k.handles (from_, i) with
      | none =>
        have same : k.setHandle to_ i none = k := by
          unfold setHandle
          rw [← empty i List.mem_cons_self, Function.update_eq_self]
        dsimp only
        rw [same, empty i List.mem_cons_self]
        exact ⟨Moves.refl k, fun _ => rfl, fun _ _ _ => rfl⟩
      | some o =>
        have copied : (k.setHandle to_ i (some o)).handles (to_, i) = some o := update_self ..
        dsimp only
        rw [copied]
        dsimp only
        refine ⟨?_, fun q => objRef_state (k.setHandle to_ i (some o)) o q, fun q j differs => ?_⟩
        · exact Moves.one (Move.place (Or.inl live) (empty i List.mem_cons_self) (Or.inl ⟨(from_, i), named⟩))
        · rw [objRef_handles]
          exact update_of_ne differs ..
    obtain ⟨path, states, kept⟩ := visit
    obtain ⟨later, more, others⟩ := ih distinct ((states to_).trans live) fun j member => by
      rw [kept to_ j (fun same => notAgain ((Prod.mk.inj same).2 ▸ member))]
      exact empty j (List.mem_cons_of_mem i member)
    refine ⟨path.trans later, fun q => (more q).trans (states q), fun q j other => ?_⟩
    exact (others q j other).trans (kept q j fun same => other (Prod.mk.inj same).1)

theorem handleClone_moves (from_ : ProcId) {to_ : ProcId} (live : (k.procs to_).state = .live)
    (empty : ∀ i, k.handles (to_, i) = none) :
    Moves k (k.handleClone from_ to_) ∧ (∀ q, ((k.handleClone from_ to_).procs q).state = (k.procs q).state) ∧
      ∀ q i, q ≠ to_ -> (k.handleClone from_ to_).handles (q, i) = k.handles (q, i) :=
  cloneVisits_moves (List.finRange 63) (List.nodup_finRange 63) live fun i _ => empty i

/-- The handles of a live parent go to the child that was launched, and the
parent, whose table has room, gets one for it. -/
theorem cloned_moves {launched : Ipc} {parent child : ProcId} (first : ThreadId) (path : Moves k launched)
    (started : Launched k launched child) (empty : ∀ i, launched.handles (child, i) = none)
    (ready : (launched.thread first).state = .ready) (live : (k.procs parent).state = .live)
    (room : k.handleFreeCount parent ≠ 0) :
    ∃ h next, ((launched.modifyThread first fun thread => { thread with r1 := 0 }).handleClone parent child).handleAdd
      parent (.proc child) = (.ok h, next) ∧ Moves k next := by
  have other : parent ≠ child := by
    rintro rfl
    exact started.idle live
  have answered : Quiet launched (launched.modifyThread first fun thread => { thread with r1 := 0 }) := by
    have awake : (launched.thread first).state ≠ .blocked := by
      rw [ready]
      decide
    exact quiet_modifyThread awake awake rfl rfl rfl
  generalize launched.modifyThread first (fun thread => { thread with r1 := 0 }) = k₁ at answered ⊢
  have liveChild : (k₁.procs child).state = .live := (answered.states child).trans started.live
  obtain ⟨clones, states, tables⟩ := handleClone_moves parent liveChild (by rw [answered.handles]; exact empty)
  generalize k₁.handleClone parent child = k₂ at clones states tables ⊢
  have same : ∀ i, k₂.handles (parent, i) = k.handles (parent, i) := by
    intro i
    rw [tables parent i other, answered.handles, started.handles parent i other]
  obtain ⟨h, added, done⟩ := handleAdd_ok room same (.proc child)
  have adds : Moves k₂ (k₂.handleAdd parent (.proc child)).2 := by
    refine handleAdd_moves (Or.inl ?_) (Or.inr (Or.inr ⟨child, rfl, (states child).trans liveChild⟩))
    rw [states, answered.states]
    exact started.lives live
  rw [done] at adds
  exact ⟨h, added, done, ((path.then (Move.quiet answered)).trans clones).trans adds⟩

theorem checkFork_room {vm : Bool} (checked : k.checkFork vm p = .ok ()) : k.handleFreeCount p ≠ 0 := by
  unfold checkFork at checked
  intro full
  rw [if_pos full] at checked
  split at checked
  · cases checked
  · split at checked
    · cases checked
    · split at checked
      · cases checked
      · split at checked
        · cases checked
        · cases checked

/-- A fork that fails changes nothing that counts. -/
theorem procFork_cases (vm : Bool) (cloned : Except FndError Unit) (grounded : k.Grounded)
    (runs : (k.thread t).state = .running) :
    (∃ error refused, procFork vm cloned k t = (.error error, refused) ∧ Quiet k refused) ∨
      ∃ h next, procFork vm cloned k t = (.ok h, next) ∧ Moves k next := by
  have live := (grounded.live runs).2
  unfold procFork
  dsimp only
  generalize k.procOf t = parent at live ⊢
  cases checked : k.checkFork vm parent with
  | error error => exact Or.inl ⟨error, k, rfl, Quiet.refl k⟩
  | ok done =>
    have room := checkFork_room checked
    dsimp only
    cases found : claimable k.procs with
    | none => exact Or.inl ⟨.limit, k, rfl, Quiet.refl k⟩
    | some child =>
      obtain ⟨idle, free⟩ := claimable_some grounded found
      dsimp only
      have claimed : Quiet k (k.modifyProc child Proc.claimed) := quiet_modifyProc rfl rfl
      have others : ∀ q, q ≠ child -> (k.modifyProc child Proc.claimed).procs q = k.procs q := fun q other =>
        update_of_ne other ..
      generalize k.modifyProc child Proc.claimed = k₁ at claimed others ⊢
      cases slot : k₁.sched.allocThread with
      | none => exact Or.inl ⟨.limit, k₁, rfl, claimed⟩
      | some taken =>
        obtain ⟨first, sched⟩ := taken
        dsimp only
        obtain ⟨quiet, rests, _⟩ := quiet_allocThread slot
        have path := claimed.trans quiet
        have same : ∀ q, q ≠ child -> ({ k₁ with sched := sched } : Ipc).procs q = k.procs q := others
        have threads : ({ k₁ with sched := sched } : Ipc).sched = sched := rfl
        generalize k₁.procs parent = record
        generalize ({ k₁ with sched := sched } : Ipc) = k₂ at path same threads ⊢
        cases cloned with
        | error error => exact Or.inl ⟨error, k₂, rfl, path⟩
        | ok done =>
          dsimp only
          have copied : Quiet k₂ (k₂.modifyProc child (forkRecord record)) := quiet_modifyProc rfl rfl
          have still : ∀ q, q ≠ child -> (k₂.modifyProc child (forkRecord record)).procs q = k.procs q :=
            fun q other => (update_of_ne other ..).trans (same q other)
          have kept : (k₂.modifyProc child (forkRecord record)).sched = sched := threads
          generalize record.priority = priority
          generalize k₂.modifyProc child (forkRecord record) = k₃ at copied still kept ⊢
          have quiet₃ := path.trans copied
          have starts : Move k₃ (k₃.startProc child first priority) := by
            refine Move.startProc ?_ ?_ ?_ priority
            · rw [quiet₃.states]
              exact idle
            · rw [quiet₃.counts]
              exact free
            · unfold thread
              rw [kept]
              exact rests
          have launched : Launched k (k₃.startProc child first priority) child := by
            refine ⟨idle, ?_, fun q other => ?_, fun q i other => ?_⟩
            · rw [startProc_procs, update_self]
              rfl
            · rw [startProc_procs, update_of_ne other]
              exact still q other
            · rw [startProc_handles, ← quiet₃.handles]
              exact if_neg other
          have empty : ∀ i, (k₃.startProc child first priority).handles (child, i) = none := by
            intro i
            rw [startProc_handles]
            exact if_pos rfl
          obtain ⟨_, started⟩ := startProc_thread k₃ child first priority
          have ready : ((k₃.startProc child first priority).thread first).state = .ready := by
            rw [started, update_self]
          exact Or.inr (cloned_moves first ((Moves.one (Move.quiet quiet₃)).then starts) launched empty ready
            live room)

theorem procFork_moves (vm : Bool) (cloned : Except FndError Unit) (grounded : k.Grounded)
    (runs : (k.thread t).state = .running) : Moves k (procFork vm cloned k t).2 := by
  rcases procFork_cases vm cloned grounded runs with ⟨error, refused, failed, quiet⟩ | ⟨h, next, done, path⟩
  · rw [failed]
    exact Moves.one (Move.quiet quiet)
  · rw [done]
    exact path

/-! ## Threads -/

theorem threadCreate_moves (mem : UserMemory) (grounded : k.Grounded) (runs : (k.thread t).state = .running)
    (entryPc sp arg : Word) : Moves k (threadCreate mem k t entryPc sp arg).2 := by
  obtain ⟨own, live⟩ := grounded.live runs
  unfold threadCreate
  dsimp only
  generalize k.procOf t = p at own live ⊢
  split
  · exact Moves.refl k
  · split
    · exact Moves.refl k
    · split
      · exact Moves.refl k
      · cases slot : k.sched.allocThread with
        | none => exact Moves.refl k
        | some taken =>
          obtain ⟨first, sched⟩ := taken
          dsimp only
          obtain ⟨quiet, rests, others⟩ := quiet_allocThread slot
          have still : ({ k with sched := sched } : Ipc).thread t = k.thread t :=
            (others t (Thread.active_running runs)).2
          have rests₁ : (({ k with sched := sched } : Ipc).thread first).active = false := rests
          have live₁ : (({ k with sched := sched } : Ipc).procs p).state = .live := live
          rw [own]
          generalize (k.thread t).priority = priority
          generalize ({ k with sched := sched } : Ipc) = k₁ at quiet rests₁ live₁ ⊢
          have filled : Quiet k₁ (k₁.modifyThread first fun thread =>
              { thread with r1 := arg, priority := priority, proc := some p, exitCode := 0 }) :=
            quiet_rest rests₁ rests₁ rfl
          have rests₂ : ((k₁.modifyThread first fun thread =>
              { thread with r1 := arg, priority := priority, proc := some p, exitCode := 0 }).thread first).active =
              false := by
            rw [modifyThread_thread, update_self]
            exact rests₁
          have own₂ : ((k₁.modifyThread first fun thread =>
              { thread with r1 := arg, priority := priority, proc := some p, exitCode := 0 }).thread first).proc =
              some p := by
            rw [modifyThread_thread, update_self]
          have live₂ : ((k₁.modifyThread first fun thread =>
              { thread with r1 := arg, priority := priority, proc := some p, exitCode := 0 }).procs p).state =
              .live := live₁
          generalize k₁.modifyThread first (fun thread =>
              { thread with r1 := arg, priority := priority, proc := some p, exitCode := 0 }) = k₂
            at filled rests₂ own₂ live₂ ⊢
          have path := (Moves.one (Move.quiet quiet)).then (Move.quiet filled)
          have adds : Moves k₂ (k₂.handleAdd p (.thread first)).2 :=
            handleAdd_moves (Or.inl live₂) (Or.inr (Or.inl ⟨first, rfl⟩))
          have live₃ := (handleAdd_state k₂ p (.thread first) p).trans live₂
          obtain ⟨rests₃, own₃⟩ := handleAdd_thread k₂ p (.thread first) first
          generalize k₂.handleAdd p (.thread first) = result at adds live₃ rests₃ own₃ ⊢
          obtain ⟨outcome, k₃⟩ := result
          cases outcome with
          | error error => exact path.trans adds
          | ok h =>
            dsimp only at adds live₃ rests₃ own₃ ⊢
            have counted : Quiet k₃ (k₃.modifyProc p fun proc => { proc with threads := proc.threads + 1 }) :=
              quiet_modifyProc rfl rfl
            refine ((path.trans adds).then (Move.quiet counted)).then (Move.makeReady ?_ ⟨p, ?_, Or.inl ?_⟩)
            · exact rests₃.trans rests₂
            · exact own₃.trans own₂
            · exact (counted.states p).trans live₃

/-- A thread that waits for a process or a thread goes on. -/
theorem wake_of_wait (blocked : (k.thread t).state = .blocked) (waits : (k.thread t).reason ≠ .reply) (result : Word) :
    Moves k (k.wake t result) :=
  Moves.one (Move.wake blocked (fun replies => absurd replies waits) result)

/-- The last thread of a process ends it. -/
theorem threadExit_cases (runs : (k.thread t).state = .running) (code : Word) :
    ((k.procs (k.procOf t)).threads ≤ 1 ∧ k.threadExit t code = k.procExit (k.procOf t) code) ∨
      Moves k (k.threadExit t code) := by
  unfold threadExit
  split
  · next last => exact Or.inl ⟨last, rfl⟩
  · dsimp only
    have fewer : Quiet k (k.modifyProc (k.procOf t) fun proc => { proc with threads := proc.threads - 1 }) :=
      quiet_modifyProc rfl rfl
    have still : ((k.modifyProc (k.procOf t) fun proc =>
        { proc with threads := proc.threads - 1 }).thread t).state = .running := runs
    generalize k.modifyProc (k.procOf t) (fun proc => { proc with threads := proc.threads - 1 }) = k₁ at fewer still ⊢
    refine Or.inr (((Moves.one (Move.quiet fewer)).then (Move.die still code)).trans ?_)
    unfold eachThread
    refine Moves.foldl (fun k u => ?_) _ _
    unfold threadExitVisit
    split
    · next waits =>
        rw [Bool.and_eq_true, Bool.and_eq_true, decide_eq_true_iff, decide_eq_true_iff] at waits
        exact wake_of_wait waits.1.1 (by rw [waits.1.2]; decide) fndOk
    · exact Moves.refl k

theorem wait_moves (mem : UserMemory) (runs : (k.thread t).state = .running) (h timeout codePtr : Word) :
    Moves k (wait mem k t h timeout codePtr).2 := by
  unfold wait
  split
  · exact Moves.refl k
  · next target _ =>
      split
      · exact Moves.refl k
      · split
        · exact Moves.refl k
        · split
          · exact Moves.refl k
          · split
            · exact Moves.refl k
            · have placed : Quiet k (k.modifyThread t fun thread =>
                  { thread with
                    waitProc := target.getLeft?, waitThread := target.getRight?, codePtr := codePtr }) :=
                quiet_running runs rfl rfl rfl
              refine (Moves.one (Move.quiet placed)).then (Move.block ?_ (by decide) timeout)
              rw [modifyThread_thread, update_self]
              exact runs

/-! ## Ticks -/

theorem wake_sched (k : Ipc) (s : Sched) (t : ThreadId) (result : Word) :
    { k with sched := s.wake t result } = ({ k with sched := s } : Ipc).wake t result := rfl

/-- A visit may wake its thread if that does not wait for a reply or if the wait
has a time limit. -/
def Wakes (visit : Sched -> ThreadId -> Sched) : Prop :=
  ∀ s t, visit s t = s ∨ ∃ result, visit s t = s.wake t result ∧ (s.threads t).state = .blocked ∧
    ((s.threads t).reason = .reply -> (s.threads t).timed = true)

theorem wakes_moves {visit : Sched -> ThreadId -> Sched} (wakes : Wakes visit) (items : List ThreadId) (s : Sched) :
    Moves { k with sched := s } { k with sched := items.foldl visit s } := by
  induction items generalizing s with
  | nil => exact Moves.refl _
  | cons t rest ih =>
    refine Moves.trans ?_ (ih (visit s t))
    rcases wakes s t with same | ⟨result, woken, blocked, timed⟩
    · rw [same]
      exact Moves.refl _
    · rw [woken, wake_sched]
      exact Moves.one (Move.wake (k := { k with sched := s }) blocked timed result)

theorem eachThread_moves {visit : Sched -> ThreadId -> Sched} (wakes : Wakes visit) (s : Sched) :
    Moves { k with sched := s } { k with sched := s.eachThread visit } := wakes_moves wakes (List.finRange 16) s

theorem wakes_pecVisit (answered : ThreadId -> Bool) : Wakes (Sched.pecVisit answered) := by
  intro s t
  unfold Sched.pecVisit
  split
  · next waits =>
      rw [Bool.and_eq_true, Bool.and_eq_true, decide_eq_true_iff, decide_eq_true_iff] at waits
      refine Or.inr ⟨fndOk, rfl, waits.1.1, fun replies => ?_⟩
      rw [waits.1.2] at replies
      cases replies
  · exact Or.inl rfl

theorem wakes_tickVisit : Wakes Sched.tickVisit := by
  intro s t
  unfold Sched.tickVisit
  split
  · next waits =>
      rw [Bool.and_eq_true, Bool.and_eq_true, decide_eq_true_iff] at waits
      exact Or.inr ⟨_, rfl, waits.1.1, fun _ => waits.1.2⟩
  · exact Or.inl rfl

theorem tick_moves (k : Ipc) (answered : ThreadId -> Bool) : Moves k { k with sched := k.sched.tick answered } := by
  unfold Sched.tick
  dsimp only
  have counted : Quiet k { k with sched := { k.sched with ticks := k.sched.ticks + 1 } } :=
    Quiet.of_turns fun _ => Thread.Alike.refl _
  generalize ({ k.sched with ticks := k.sched.ticks + 1 } : Sched) = s at counted ⊢
  have polls := eachThread_moves (k := k) (wakes_pecVisit answered) s
  generalize s.eachThread (Sched.pecVisit answered) = polled at polls ⊢
  have times := eachThread_moves (k := k) wakes_tickVisit polled
  generalize polled.eachThread Sched.tickVisit = timed at times ⊢
  have slices : Quiet { k with sched := timed } { k with sched := timed.useSlice } :=
    Quiet.of_turns (Sched.useSlice_turns timed)
  exact (((Moves.one (Move.quiet counted)).trans polls).trans times).then (Move.quiet slices)

/-! ## Every step -/

/-- What a step has to meet so that a spawn finds the process it started. -/
def Spawns (k : Ipc) : Action -> Prop
  | .syscall (.procSpawn ..) => k.FreshPid
  | _ => True

theorem irqAck_quiet (k : Ipc) (proc : ProcId) (irq : Word) : Quiet k (k.irqAck proc irq).2 := by
  unfold irqAck
  split
  · exact Quiet.refl k
  · next line _ =>
      split
      · exact Quiet.refl k
      · split
        · exact Quiet.refl k
        · split
          · exact Quiet.refl k
          · have same : ∀ {α : Type} (field : IrqBinding -> α),
                field { k.irqs line with delivered := false } = field (k.irqs line) -> ∀ i,
                field (update k.irqs line { k.irqs line with delivered := false } i) = field (k.irqs i) := by
              intro α field kept i
              by_cases here : i = line
              · subst here
                rw [update_self]
                exact kept
              · rw [update_of_ne here]
            exact ⟨fun _ => Thread.Alike.refl _, fun _ => rfl, fun _ => rfl, rfl, rfl, rfl, rfl, rfl,
              same IrqBinding.port rfl, same IrqBinding.pending rfl, rfl, fun _ _ _ bit => bit, rfl, rfl⟩

theorem svcRegister_moves (mem : UserMemory) (k : Ipc) (proc : ProcId) (addr h : Word) :
    Moves k (svcRegister mem k proc addr h).2 := by
  unfold svcRegister
  split
  · exact Moves.refl k
  · split
    · exact Moves.refl k
    · split
      · exact Moves.refl k
      · split
        · next p found =>
            split
            · exact Moves.refl k
            · split
              · exact Moves.refl k
              · next i _ => exact Moves.one (Move.register (entry_named found) i _)
        · exact Moves.refl k

theorem svcLookup_moves (mem : UserMemory) (grounded : k.Grounded) (hosts : k.Hosts proc) (addr : Word) :
    Moves k (svcLookup mem k proc addr).2 := by
  unfold svcLookup
  split
  · exact Moves.refl k
  · split
    · next kind _ => exact (kernelChannel_moves hosts kind).1
    · split
      · exact Moves.refl k
      · next i _ =>
          dsimp only
          have counted : Quiet k { k with nextLookupBadge := (k.nextLookupBadge + 1) &&& 0x7FFFFFFF } :=
            ⟨fun _ => Thread.Alike.refl _, fun _ => rfl, fun _ => rfl, rfl, rfl, rfl, rfl, rfl, fun _ => rfl,
              fun _ => rfl, rfl, fun _ _ _ bit => bit, rfl, rfl⟩
          have known : ∀ q, (k.services i).port = some q ->
              PortKnown { k with nextLookupBadge := (k.nextLookupBadge + 1) &&& 0x7FFFFFFF } q := fun q port =>
            Or.inl (grounded.services i q port)
          have hosts₁ : Hosts { k with nextLookupBadge := (k.nextLookupBadge + 1) &&& 0x7FFFFFFF } proc := hosts
          exact (Moves.one (Move.quiet counted)).then (Move.newChannel hosts₁ _ known _)

theorem chanCreate_moves (hosts : k.Hosts proc) (h badge : Word) :
    Moves k (k.chanCreate proc h badge).2 := by
  unfold chanCreate
  split
  · next q found =>
      split
      · exact Moves.refl k
      · refine Moves.one (Move.newChannel hosts _ (fun r same => ?_) badge)
        cases same
        exact Or.inl (entry_named found)
  · exact Moves.refl k

theorem ipcReplyRecv_moves (replyMem recvMem : UserMemory) (backed : k.Backed) (runs : (k.thread t).state = .running)
    (token msg port rcv : Word) : Moves k (ipcReplyRecv replyMem recvMem k t token msg port rcv).2 := by
  unfold ipcReplyRecv
  obtain ⟨path, still, held⟩ := ipcReply_moves replyMem backed runs token msg
  generalize ipcReply replyMem k t token msg = result at path still held ⊢
  obtain ⟨outcome, k₁⟩ := result
  cases outcome with
  | error error =>
    dsimp only at path still held ⊢
    split
    · exact path
    · exact path.trans (ipcRecv_moves recvMem held still port rcv)
  | ok done => exact path.trans (ipcRecv_moves recvMem held still port rcv)

/-- The thread that sends a request. -/
def Sends (k : Ipc) : Action -> ThreadId -> Prop
  | .syscall (.ipcCall ..), t => k.sched.Calls t
  | _, _ => False

/-- The entry that is closed. -/
def Closes (k : Ipc) : Action -> ProcId -> HandleIx -> Prop
  | .syscall (.handleClose h), p, i => ∃ t o, k.sched.Calls t ∧ k.procOf t = p ∧ k.entry p h = some (i, o)
  | _, _, _ => False

/-- The process that ends. -/
def Ends (k : Ipc) : Action -> ProcId -> Prop
  | .fault _, p => ∃ t, k.sched.Calls t ∧ k.procOf t = p
  | .syscall (.procExit _), p => ∃ t, k.sched.Calls t ∧ k.procOf t = p
  | .syscall (.threadExit _), p => ∃ t, k.sched.Calls t ∧ k.procOf t = p ∧ (k.procs p).threads ≤ 1
  | .syscall (.procKill h), p => ∃ t, k.sched.Calls t ∧ k.processHandle (k.procOf t) h = some p
  | _, _ => False

/-- What an action does: a trail with the action it is of. -/
inductive Course (k : Ipc) (action : Action) : Ipc -> Prop where
  | moves {next : Ipc} (path : Moves k next) : Course k action next
  | call {t : ThreadId} (sends : k.Sends action t) (runs : (k.thread t).state = .running) {c : ChanId}
      (named : k.Named (.chan c)) (user : (k.chans c).kernel = 0) {p : PortId} (port : (k.chans c).port = some p)
      (msg : Msg) (rep buf cap : Word) {next : Ipc} (path : Moves (k.sendCall t c p msg rep buf cap) next)
      (settled : Settled (k.sendCall t c p msg rep buf cap) next p) : Course k action next
  | close {p : ProcId} {i : HandleIx} (closes : k.Closes action p i) {next : Ipc} (rest : Quiet (closeIx p k i) next) :
      Course k action next
  | exit {p : ProcId} (ends : k.Ends action p) (code : Word) {next : Ipc} (rest : Quiet (k.procExit p code) next) :
      Course k action next

theorem Course.refl (k : Ipc) (action : Action) : Course k action k := Course.moves (Moves.refl k)

theorem Course.quiet {third : Ipc} (course : Course k action next) (quiet : Quiet next third) :
    Course k action third := by
  cases course with
  | moves path => exact Course.moves (path.then (Move.quiet quiet))
  | call sends runs named user port msg rep buf cap path settled =>
    exact Course.call sends runs named user port msg rep buf cap (path.then (Move.quiet quiet)) (settled.quiet quiet)
  | close closes rest => exact Course.close closes (rest.trans quiet)
  | exit ends code rest => exact Course.exit ends code (rest.trans quiet)

theorem Course.trail (course : Course k action next) : Trail k next := by
  cases course with
  | moves path => exact Trail.moves path
  | call _ runs named user port msg rep buf cap path settled =>
    exact Trail.call runs named user port msg rep buf cap path settled
  | close _ rest => exact Trail.close _ _ rest
  | exit _ code rest => exact Trail.exit _ code rest

theorem handleClose_course (calls : k.sched.Calls t) (h : Word) :
    Course k (.syscall (.handleClose h)) (k.handleClose (k.procOf t) h).2 := by
  unfold handleClose
  split
  · exact Course.refl k _
  · next i o found =>
      have closes : k.Closes (.syscall (.handleClose h)) (k.procOf t) i := ⟨t, o, calls, rfl, found⟩
      exact Course.close closes (Quiet.refl _)

theorem procKill_course (calls : k.sched.Calls t) (h : Word) :
    Course k (.syscall (.procKill h)) (k.procKill (k.procOf t) h).2 := by
  unfold procKill
  split
  · exact Course.refl k _
  · next target found =>
      have ends : k.Ends (.syscall (.procKill h)) target := ⟨t, calls, found⟩
      exact Course.exit ends _ (Quiet.refl _)

theorem syscall_course (grounded : k.Grounded) (calls : k.sched.Calls t) (call : Syscall)
    (spawns : k.Spawns (.syscall call)) : Course k (.syscall call) (k.syscall t call).2 := by
  have runs : (k.thread t).state = .running := calls.2
  have hosts : k.Hosts (k.procOf t) := Or.inr ⟨t, Thread.active_running runs, rfl⟩
  have yields : Quiet k { k with sched := k.sched.yield t } := by
    have slice : Quiet k (k.modifyThread t fun thread => { thread with slice := 0 }) := quiet_running runs rfl rfl rfl
    exact Quiet.of_turns slice.threads
  unfold syscall
  cases call with
  | yield => exact Course.moves (Moves.one (Move.quiet yields))
  | sleep count =>
    dsimp only
    unfold sleep Sched.sleep
    split
    · exact Course.moves (Moves.one (Move.quiet yields))
    · exact Course.moves (Moves.one (Move.block runs (by decide) count))
  | threadExit code =>
    rcases threadExit_cases runs code with ⟨last, same⟩ | path
    · dsimp only
      rw [same]
      have ends : k.Ends (.syscall (.threadExit code)) (k.procOf t) := ⟨t, calls, rfl, last⟩
      exact Course.exit ends code (Quiet.refl _)
    · exact Course.moves path
  | procExit code =>
    have ends : k.Ends (.syscall (.procExit code)) (k.procOf t) := ⟨t, calls, rfl⟩
    exact Course.exit ends code (Quiet.refl _)
  | ipcCall mem driver ch req rep =>
    rcases ipcCall_cases mem driver grounded.backed runs ch req rep with
      path | ⟨c, p, msg, reply, buf, cap, named, user, port, path, settled⟩
    · exact Course.moves path
    · have sends : k.Sends (.syscall (.ipcCall mem driver ch req rep)) t := calls
      exact Course.call sends runs named user port msg reply buf cap path settled
  | ipcRecv mem port rcv => exact Course.moves (ipcRecv_moves mem grounded.backed runs port rcv)
  | ipcReply mem token msg => exact Course.moves (ipcReply_moves mem grounded.backed runs token msg).1
  | ipcReplyRecv replyMem recvMem token msg port rcv =>
    exact Course.moves (ipcReplyRecv_moves replyMem recvMem grounded.backed runs token msg port rcv)
  | portCreate => exact Course.moves (Moves.one (Move.portCreate hosts))
  | chanCreate port badge => exact Course.moves (chanCreate_moves hosts port badge)
  | handleClose h => exact handleClose_course calls h
  | handleDup h => exact Course.moves (handleDupInto_moves (k.procOf t) h hosts)
  | wait mem h timeout codePtr => exact Course.moves (wait_moves mem runs h timeout codePtr)
  | procFork vm cloned => exact Course.moves (procFork_moves vm cloned grounded runs)
  | procSpawn mem early late built addr =>
    exact Course.moves (procSpawn_moves mem early late built grounded spawns (grounded.live runs).2 addr)
  | procKill h => exact procKill_course calls h
  | svcRegister mem name port => exact Course.moves (svcRegister_moves mem k (k.procOf t) name port)
  | svcLookup mem name => exact Course.moves (svcLookup_moves mem grounded hosts name)
  | blkIo accepted =>
    cases accepted with
    | error error => exact Course.refl k _
    | ok done => exact Course.moves (Moves.one (Move.block runs (by decide) fndForever))
  | threadCreate mem entryPc sp arg => exact Course.moves (threadCreate_moves mem grounded runs entryPc sp arg)
  | irqBind irq port => exact Course.moves (Moves.one (Move.irqBind (k.procOf t) irq port))
  | irqAck irq => exact Course.moves (Moves.one (Move.quiet (irqAck_quiet k (k.procOf t) irq)))
  | other result => exact Course.refl k _

theorem course_of_step (grounded : k.Grounded) (spawns : k.Spawns action) (step : Step k action next) :
    Course k action next := by
  cases step with
  | syscall calls call =>
    have course := syscall_course grounded calls call spawns
    unfold handleSyscall
    dsimp only
    split
    · next runs => exact course.quiet (quiet_running runs rfl rfl rfl)
    · exact course
  | @fault t calls cause =>
    have ends : k.Ends (.fault cause) (k.procOf t) := ⟨t, calls, rfl⟩
    exact Course.exit ends cause (Quiet.refl _)
  | irq line => exact Course.moves (Moves.one (Move.irqNotify line))
  | tick answered => exact Course.moves (tick_moves k answered)
  | blkDone blocked waits result =>
    exact Course.moves (wake_of_wait blocked (by rw [waits]; decide) result)
  | module priority caps built =>
    rcases spawnImage_cases grounded priority caps 0 built with ⟨error, refused, failed, quiet⟩ | ⟨_, p, made, path, _⟩
    · rw [failed]
      exact Course.moves (Moves.one (Move.quiet quiet))
    · rw [made]
      exact Course.moves path
  | next => exact Course.moves (Moves.one (Move.quiet (Quiet.of_turns (Sched.schedNext_turns k.sched))))

/-- Every step is a trail. -/
theorem trail_of_step (grounded : k.Grounded) (spawns : k.Spawns action) (step : Step k action next) :
    Trail k next := (course_of_step grounded spawns step).trail

end Src32.Kernel.Ipc
