import Src32.Kernel.Callers

namespace Src32.Kernel.Ipc

open Function (update_self update_of_ne update_idem update_eq_self)

/-!
# Deliveries as moves

Handles are added and transferred, and a receiver takes what is pending at its
port: each of these is a sequence of moves.
-/

variable {k : Ipc} {t receiver : ThreadId} {p : PortId}

/-! ## Handles -/

variable {proc : ProcId} {i : HandleIx} {o : Obj} {next : Ipc} {h : Word}

theorem entry_some (found : k.entry proc h = some (i, o)) :
    handleIx h = some i ∧ k.handles (proc, i) = some o := by
  unfold entry at found
  cases index : handleIx h with
  | none =>
    rw [index] at found
    cases found
  | some j =>
    rw [index] at found
    cases names : k.handles (proc, j) with
    | none =>
      rw [Option.bind_eq_bind, Option.bind_some, names] at found
      cases found
    | some other =>
      rw [Option.bind_eq_bind, Option.bind_some, names] at found
      cases found
      exact ⟨rfl, names⟩

theorem entry_of (index : handleIx h = some i) (named : k.handles (proc, i) = some o) :
    k.entry proc h = some (i, o) := by
  unfold entry
  rw [index, Option.bind_eq_bind, Option.bind_some, named]
  rfl

theorem entry_named (found : k.entry proc h = some (i, o)) :
    k.Named o := ⟨(proc, i), (entry_some found).2⟩

/-- The index the table hands out is free. -/
theorem freeIx_some (found : k.freeIx proc = some i) : k.handles (proc, i) = none := by
  unfold freeIx at found
  have empty := List.find?_some found
  exact of_decide_eq_true empty

theorem handleAdd_moves (hosts : k.Hosts proc) (known : k.Known o) :
    Moves k (k.handleAdd proc o).2 := by
  unfold handleAdd
  cases found : k.freeIx proc with
  | none => exact Moves.refl k
  | some i => exact Moves.one (Move.place hosts (freeIx_some found) known)

/-- A handle that cannot be added leaves everything as it was. -/
theorem handleAdd_error {error : FndError} (failed : (k.handleAdd proc o).1 = .error error) :
    (k.handleAdd proc o).2 = k := by
  unfold handleAdd at failed ⊢
  cases found : k.freeIx proc with
  | none => rfl
  | some i =>
    rw [found] at failed
    cases failed

/-- What a dup adds, if it adds anything. -/
theorem handleDupInto_cases (k : Ipc) (from_ : ProcId) (h : Word) (to_ : ProcId) :
    (∃ error, k.handleDupInto from_ h to_ = (.error error, k)) ∨
      ∃ i o, k.entry from_ h = some (i, o) ∧ k.handleDupInto from_ h to_ = k.handleAdd to_ o := by
  unfold handleDupInto
  cases found : k.entry from_ h with
  | none => exact Or.inl ⟨.badHandle, rfl⟩
  | some named =>
    obtain ⟨i, o⟩ := named
    cases o with
    | thread u =>
      dsimp only
      split
      · exact Or.inl ⟨.access, rfl⟩
      · exact Or.inr ⟨i, .thread u, rfl, rfl⟩
    | port q => exact Or.inr ⟨i, .port q, rfl, rfl⟩
    | chan c => exact Or.inr ⟨i, .chan c, rfl, rfl⟩
    | proc q => exact Or.inr ⟨i, .proc q, rfl, rfl⟩

theorem handleDupInto_moves (from_ : ProcId) (h : Word) {to_ : ProcId} (hosts : k.Hosts to_) :
    Moves k (k.handleDupInto from_ h to_).2 := by
  rcases handleDupInto_cases k from_ h to_ with ⟨error, failed⟩ | ⟨i, o, found, added⟩
  · rw [failed]
    exact Moves.refl k
  · rw [added]
    exact handleAdd_moves hosts (Or.inl (entry_named found))

/-- A reference that is added and dropped again leaves every count as it was. -/
theorem objUnref_objRef (counted : 0 < k.refs o) : (k.objRef o).objUnref o = k := by
  cases o with
  | port q =>
    have same : (k.objRef (.port q)).modifyPort q (fun port => { port with refs := port.refs - 1 }) = k := by
      unfold objRef modifyPort
      dsimp only
      rw [update_self, update_idem]
      exact congrArg (fun ports => { k with ports := ports }) (update_eq_self q k.ports)
    have held : (k.ports q).refs ≠ 0 := Nat.pos_iff_ne_zero.mp counted
    change (if (((k.objRef (.port q)).modifyPort q _).ports q).refs = 0 then _ else _) = k
    rw [same, if_neg held]
  | chan c =>
    have same : (k.objRef (.chan c)).modifyChan c (fun chan => { chan with refs := chan.refs - 1 }) = k := by
      unfold objRef modifyChan
      dsimp only
      rw [update_self, update_idem]
      exact congrArg (fun chans => { k with chans := chans }) (update_eq_self c k.chans)
    have held : (k.chans c).refs ≠ 0 := Nat.pos_iff_ne_zero.mp counted
    change (if (((k.objRef (.chan c)).modifyChan c _).chans c).refs = 0 then _ else _) = k
    rw [same, if_neg held]
  | thread u =>
    unfold objUnref objRef modifyThread Sched.modify
    dsimp only
    rw [update_self, update_idem]
    exact congrArg (fun threads => { k with sched := { k.sched with threads := threads } })
      (update_eq_self u k.sched.threads)
  | proc q =>
    have held : (k.procs q).refs ≠ 0 := Nat.pos_iff_ne_zero.mp counted
    have same : Proc.release { k.procs q with refs := (k.procs q).refs + 1 } = k.procs q := by
      unfold Proc.release Proc.maybeFree
      rw [if_neg (fun free => held free.2.1)]
      rfl
    unfold objUnref objRef modifyProc
    dsimp only
    rw [update_self, update_idem, same]
    exact congrArg (fun procs => { k with procs := procs }) (update_eq_self q k.procs)

theorem setHandle_objRef (k : Ipc) (proc : ProcId) (i : HandleIx) (named : Option Obj) (o : Obj) :
    (k.objRef o).setHandle proc i named = (k.setHandle proc i named).objRef o := by
  cases o <;> rfl

theorem objRef_handles (k : Ipc) (o : Obj) : (k.objRef o).handles = k.handles := by
  cases o <;> rfl

/-- A handle moves from one table to another and no count changes. -/
theorem handleMove_cases (backed : k.Backed) (from_ : ProcId) (h : Word) (to_ : ProcId) :
    (∃ error, k.handleMove from_ h to_ = (.error error, k)) ∨
      ∃ i j o moved, k.handles (from_, i) = some o ∧ k.handles (to_, j) = none ∧
        k.handleMove from_ h to_ = (.ok moved, (k.setHandle to_ j (some o)).setHandle from_ i none) := by
  unfold handleMove
  rcases handleDupInto_cases k from_ h to_ with ⟨error, failed⟩ | ⟨i, o, found, added⟩
  · rw [failed]
    exact Or.inl ⟨error, rfl⟩
  · rw [added]
    unfold handleAdd
    cases free : k.freeIx to_ with
    | none => exact Or.inl ⟨.limit, rfl⟩
    | some j =>
      obtain ⟨index, named⟩ := entry_some found
      have empty := freeIx_some free
      refine Or.inr ⟨i, j, o, handleOf j, named, empty, ?_⟩
      dsimp only
      have apart : (from_, i) ≠ (to_, j) := by
        intro same
        rw [same, empty] at named
        cases named
      have kept : ((k.setHandle to_ j (some o)).objRef o).handles (from_, i) = some o := by
        rw [objRef_handles]
        exact (update_of_ne apart ..).trans named
      have still := entry_of index kept
      unfold handleClose
      rw [still]
      dsimp only
      unfold closeIx
      rw [kept]
      dsimp only
      rw [setHandle_objRef]
      have counted : 0 < ((k.setHandle to_ j (some o)).setHandle from_ i none).refs o := by
        have held := backed o ⟨(from_, i), named⟩
        cases o <;> exact held
      rw [objUnref_objRef counted]

/-- What a handle names after a transfer was named before. -/
theorem Backed.transfer (backed : k.Backed) {from_ to_ : ProcId} {j : HandleIx}
    (named : k.handles (from_, i) = some o) : ((k.setHandle to_ j (some o)).setHandle from_ i none).Backed := by
  rintro other ⟨e, names⟩
  have before : k.Named other := by
    unfold setHandle at names
    dsimp only at names
    rw [Function.update_apply, Function.update_apply] at names
    split at names
    · cases names
    · split at names
      · cases names
        exact ⟨(from_, i), named⟩
      · exact ⟨e, names⟩
  have counted := backed other before
  cases other <;> exact counted

/-! ## Callers -/

/-- A thread that may receive: it runs or waits, but not in SEND. -/
def Serves (k : Ipc) (receiver : ThreadId) : Prop :=
  (k.thread receiver).active = true ∧ ∀ q, k.waitsAt receiver .send q = false

/-- What callers that are refused leave as it was. -/
structure Refused (k next : Ipc) (receiver : ThreadId) : Prop where
  receiver : next.thread receiver = k.thread receiver
  handles : next.handles = k.handles
  counts : next.refs = k.refs
  irqs : next.irqs = k.irqs
  mask : next.irqPendingMask = k.irqPendingMask
  gone : next.gone = k.gone
  callers : ∀ u q, next.waitsAt u .send q = true -> k.waitsAt u .send q = true

theorem Refused.trans {third : Ipc} (first : Refused k next receiver) (second : Refused next third receiver) :
    Refused k third receiver where
  receiver := second.receiver.trans first.receiver
  handles := second.handles.trans first.handles
  counts := second.counts.trans first.counts
  irqs := second.irqs.trans first.irqs
  mask := second.mask.trans first.mask
  gone := second.gone.trans first.gone
  callers := fun u q waits => first.callers u q (second.callers u q waits)

theorem refused_nextCaller (k : Ipc) (p : PortId) (receiver : ThreadId) : Refused k (k.nextCaller p).2 receiver := by
  rw [nextCaller_eq]
  exact ⟨rfl, rfl, rfl, rfl, rfl, rfl, fun _ _ waits => waits⟩

theorem wake_thread (k : Ipc) (t : ThreadId) (result : Word) :
    (k.wake t result).thread = Function.update k.thread t
      { k.thread t with r1 := result, reason := .none, timed := false, state := .ready } :=
  Sched.wake_threads k.sched t result

/-- A woken thread waits no longer and the others wait as before. -/
theorem wake_waitsAt (k : Ipc) (t : ThreadId) (result : Word) (u : ThreadId) (reason : Reason) (q : PortId) :
    (k.wake t result).waitsAt u reason q = (k.waitsAt u reason q && !decide (u = t)) := by
  unfold waitsAt
  rw [wake_thread]
  by_cases same : u = t
  · subst same
    rw [update_self, decide_eq_true rfl, Bool.not_true, Bool.and_false]
    rfl
  · rw [update_of_ne same, decide_eq_false same, Bool.not_false, Bool.and_true]

theorem wake_refs (k : Ipc) (t : ThreadId) (result : Word) : (k.wake t result).refs = k.refs := by
  funext o
  cases o with
  | thread u =>
    unfold refs
    dsimp only
    rw [wake_thread]
    by_cases same : u = t
    · subst same
      rw [update_self]
    · rw [update_of_ne same]
  | port q => rfl
  | chan c => rfl
  | proc q => rfl

theorem refused_wake (other : receiver ≠ t) (result : Word) : Refused k (k.wake t result) receiver where
  receiver := by
    rw [wake_thread, update_of_ne other]
  handles := rfl
  counts := wake_refs k t result
  irqs := rfl
  mask := rfl
  gone := rfl
  callers := by
    intro u q waits
    rw [wake_waitsAt, Bool.and_eq_true] at waits
    exact waits.1

theorem Backed.of_same (backed : k.Backed) (handles : next.handles = k.handles) (counts : next.refs = k.refs) :
    next.Backed := by
  rintro o ⟨e, named⟩
  rw [counts]
  exact backed o ⟨e, (congrFun handles e).symm.trans named⟩

theorem Serves.of_same (serves : k.Serves receiver) (same : next.thread receiver = k.thread receiver) :
    next.Serves receiver := by
  refine ⟨same ▸ serves.1, fun q => ?_⟩
  have before := serves.2 q
  unfold waitsAt at before ⊢
  rwa [same]

theorem quiet_accesses (k : Ipc) (accesses : List UserAccess) :
    Quiet k { k with history := { k.history with accesses := accesses } } :=
  ⟨fun _ => Thread.Alike.refl _, fun _ => rfl, fun _ => rfl, rfl, rfl, rfl, rfl, rfl, fun _ => rfl, fun _ => rfl, rfl,
    fun _ _ _ bit => bit, rfl, rfl⟩

theorem quiet_writeRecv (k : Ipc) (receiver : ThreadId) : Quiet k (k.writeRecv receiver) :=
  (quiet_touch ..).trans (quiet_touch ..)

theorem quiet_copyCall (mem : UserMemory) (k : Ipc) (receiver caller : ThreadId) :
    Quiet k (copyCall mem k receiver caller) :=
  ((quiet_touch ..).trans (quiet_touch ..)).trans (quiet_writeRecv ..)

/-- A request is refused and nothing but the accesses changes, or it is
delivered and its caller waits for the reply. -/
theorem deliverCall_cases (mem : UserMemory) (backed : k.Backed) (serves : k.Serves receiver) {caller : ThreadId}
    (waits : k.waitsAt caller .send p = true) :
    (∃ error accesses, deliverCall mem k receiver caller =
        (.error error, { k with history := { k.history with accesses := accesses } })) ∨
      ∃ next, deliverCall mem k receiver caller = (.ok (), next) ∧ Moves k next ∧
        (next.thread caller).reason = .reply ∧ next.thread receiver = k.thread receiver := by
  have other : receiver ≠ caller := by
    rintro rfl
    rw [serves.2 p] at waits
    cases waits
  unfold deliverCall
  dsimp only
  have read := quiet_touch k (k.thread receiver).proc (k.thread receiver).rcv recvSize permR
  have still : (k.touch (k.thread receiver).proc (k.thread receiver).rcv recvSize permR).Backed :=
    backed.of_same rfl (by funext o; cases o <;> rfl)
  generalize readEq : k.touch (k.thread receiver).proc (k.thread receiver).rcv recvSize permR = first at read still
  have same : first.sched = k.sched := by
    rw [← readEq]
    rfl
  -- Once the handle has moved, the data is copied and the caller waits.
  have rest : ∀ moved : Ipc, moved.sched = k.sched ->
      Moves k moved -> Moves k ((copyCall mem moved receiver caller).acceptCall receiver caller) ∧
        (((copyCall mem moved receiver caller).acceptCall receiver caller).thread caller).reason = .reply ∧
        ((copyCall mem moved receiver caller).acceptCall receiver caller).thread receiver = k.thread receiver := by
    intro moved threads path
    have copied := quiet_copyCall mem moved receiver caller
    have threadsEq : (copyCall mem moved receiver caller).thread = k.thread := by
      unfold thread
      exact congrArg Sched.threads threads
    refine ⟨?_, ?_, ?_⟩
    · refine (path.then (Move.quiet copied)).then (Move.accept ?_ other (p := p) ?_)
      · rw [threadsEq]
        exact serves.1
      · unfold waitsAt at waits ⊢
        rwa [threadsEq]
    · unfold acceptCall note thread modifyThread Sched.modify
      dsimp only
      rw [update_self]
    · rw [← threadsEq]
      exact update_of_ne other ..
  unfold transferCall
  by_cases transfers : (first.thread caller).req.transfers = true
  · rw [if_pos transfers]
    rcases handleMove_cases still (first.procOf caller) (first.thread caller).req.a3 (first.procOf receiver) with
      ⟨error, failed⟩ | ⟨i, j, o, moved, named, empty, done⟩
    · rw [failed, ← readEq]
      exact Or.inl ⟨error, _, rfl⟩
    · rw [done]
      have hosts : first.Hosts (first.procOf receiver) := by
        refine Or.inr ⟨receiver, ?_, rfl⟩
        unfold thread
        rw [same]
        exact serves.1
      obtain ⟨path, result⟩ :=
        rest ((first.setHandle (first.procOf receiver) j (some o)).setHandle (first.procOf caller) i none) same
          ((Moves.one (Move.quiet read)).then (Move.transfer named empty hosts))
      exact Or.inr ⟨_, rfl, path, result⟩
  · rw [if_neg transfers]
    obtain ⟨path, result⟩ := rest first same (Moves.one (Move.quiet read))
    exact Or.inr ⟨_, rfl, path, result⟩

/-- The callers of a port. -/
def callers (k : Ipc) (p : PortId) : Finset ThreadId := Finset.univ.filter fun t => k.waitsAt t .send p = true

/-- What a receive that finds no caller leaves behind. -/
structure Emptied (k next : Ipc) (receiver : ThreadId) (p : PortId) : Prop where
  refused : Refused k next receiver
  nobody : (next.nextCaller p).1 = none
  gone : ∀ u, k.Queued p u -> next.waitsAt u .send p = false

/-- The loop over callers takes one or refuses them all. -/
theorem takeCaller_cases (mem : UserMemory) (fuel : Nat) (backed : k.Backed) (serves : k.Serves receiver)
    (enough : (k.callers p).card < fuel) :
    Moves k (takeCaller mem receiver p fuel k).2 ∧
      (takeCaller mem receiver p fuel k).2.thread receiver = k.thread receiver ∧
      (((takeCaller mem receiver p fuel k).1 = true ∧
          ∃ u, k.waitsAt u .send p = true ∧ (takeCaller mem receiver p fuel k).2.waitsAt u .send p = false) ∨
        ((takeCaller mem receiver p fuel k).1 = false ∧ Emptied k (takeCaller mem receiver p fuel k).2 receiver p)) := by
  induction fuel generalizing k with
  | zero => exact absurd enough (Nat.not_lt_zero _)
  | succ fuel ih =>
    unfold takeCaller
    have quiet := quiet_nextCaller k p
    have refused := refused_nextCaller k p receiver
    have scanned := nextCaller_scanned k p
    have threads : (k.nextCaller p).2.thread = k.thread := by
      rw [nextCaller_eq]
      rfl
    generalize k.nextCaller p = result at quiet refused scanned threads
    obtain ⟨found, k₁⟩ := result
    dsimp only at quiet refused scanned threads ⊢
    cases found with
    | none =>
      refine ⟨Moves.one (Move.quiet quiet), refused.receiver, Or.inr ⟨rfl, refused, ?_, ?_⟩⟩
      · refine nextCaller_none.mpr fun t queued => scanned.nobody rfl t (List.mem_finRange t) ?_
        exact ⟨scanned.fewer t queued.1, (quiet.waitsAt t .send p).symm.trans queued.2⟩
      · exact fun u queued => absurd queued (scanned.nobody rfl u (List.mem_finRange u))
    | some caller =>
      have waits := (scanned.queued caller rfl).2.2
      have still : k₁.waitsAt caller .send p = true := (quiet.waitsAt caller .send p).trans waits
      have backed₁ := backed.of_same refused.handles refused.counts
      have serves₁ := serves.of_same refused.receiver
      have other : receiver ≠ caller := by
        rintro rfl
        rw [serves.2 p] at waits
        cases waits
      dsimp only
      rcases deliverCall_cases mem backed₁ serves₁ still with
        ⟨error, accesses, failed⟩ | ⟨next, done, path, waiting, kept⟩
      · rw [failed]
        dsimp only
        have touched : Quiet k₁ { k₁ with history := { k₁.history with accesses := accesses } } :=
          quiet_accesses k₁ accesses
        have same : Refused k₁ { k₁ with history := { k₁.history with accesses := accesses } } receiver :=
          ⟨rfl, rfl, by funext o; cases o <;> rfl, rfl, rfl, rfl, fun _ _ waits => waits⟩
        generalize { k₁ with history := { k₁.history with accesses := accesses } } = k₂ at touched same ⊢
        have blocked := waitsAt_iff.mp ((touched.waitsAt caller .send p).trans still)
        have woken := (refused.trans same).trans (refused_wake (k := k₂) other error.code)
        have path : Moves k (k₂.wake caller error.code) := by
          refine ((Moves.one (Move.quiet quiet)).then (Move.quiet touched)).then (Move.wake blocked.1 ?_ _)
          rw [blocked.2.1]
          nofun
        have still₂ : ∀ u q, k₂.waitsAt u .send q = k.waitsAt u .send q := fun u q =>
          (touched.waitsAt u .send q).trans (quiet.waitsAt u .send q)
        have fewer : ((k₂.wake caller error.code).callers p).card < fuel := by
          refine Nat.lt_of_lt_of_le (Finset.card_lt_card ?_) (Nat.le_of_lt_succ enough)
          refine Finset.ssubset_iff_of_subset ?_ |>.mpr ⟨caller, ?_, ?_⟩
          · intro u member
            have waiting := (Finset.mem_filter.mp member).2
            exact Finset.mem_filter.mpr ⟨Finset.mem_univ u, woken.callers u p waiting⟩
          · exact Finset.mem_filter.mpr ⟨Finset.mem_univ caller, waits⟩
          · intro member
            have waiting := (Finset.mem_filter.mp member).2
            rw [wake_waitsAt, decide_eq_true rfl, Bool.not_true, Bool.and_false] at waiting
            cases waiting
        obtain ⟨later, kept, result⟩ :=
          ih (backed.of_same woken.handles woken.counts) (serves.of_same woken.receiver) fewer
        refine ⟨path.trans later, kept.trans woken.receiver, result.imp ?_ ?_⟩
        · rintro ⟨taken, u, waiting, gone⟩
          exact ⟨taken, u, woken.callers u p waiting, gone⟩
        · rintro ⟨none, emptied⟩
          refine ⟨none, woken.trans emptied.refused, emptied.nobody, fun u queued => ?_⟩
          by_cases self : u = caller
          · subst self
            rw [← Bool.not_eq_true]
            intro waiting
            have before := emptied.refused.callers u p waiting
            rw [wake_waitsAt, decide_eq_true rfl, Bool.not_true, Bool.and_false] at before
            cases before
          · refine emptied.gone u ⟨?_, ?_⟩
            · obtain ⟨blocked, sends, _⟩ := waitsAt_iff.mp queued.2
              exact touched.senders u p ((quiet.waitsAt u .send p).trans queued.2)
                (scanned.senders u blocked sends queued.1)
            · rw [wake_waitsAt, decide_eq_false self, Bool.not_false, Bool.and_true, still₂]
              exact queued.2
      · rw [done]
        refine ⟨(Moves.one (Move.quiet quiet)).trans path, kept.trans refused.receiver, Or.inl ⟨rfl, caller, waits, ?_⟩⟩
        dsimp only
        unfold waitsAt
        rw [waiting, decide_eq_false (p := Reason.reply = Reason.send) (by decide), Bool.and_false, Bool.false_and]

end Src32.Kernel.Ipc
