import Src32.Kernel.Counting

namespace Src32.Kernel.Ipc

open Function (update update_self update_of_ne)

/-!
# Closing handles

What closing a handle does: a count goes down, and with the last handle of a
port the port is destroyed, with that of a channel its CLIENT_GONE is listed.
-/

variable {k next : Ipc} {t : ThreadId} {q : PortId} {c : ChanId} {o : Obj}

/-! ## Destroying a port -/

/-- A loop over lines that releases some of them. -/
theorem releases_spec {visit : Ipc -> Irq -> Ipc} (releases : ∀ k irq, visit k irq = k ∨ visit k irq = k.irqRelease irq)
    (items : List Irq) (k : Ipc) : Moves k (items.foldl visit k) ∧ LinesOnly k (items.foldl visit k) := by
  induction items generalizing k with
  | nil => exact ⟨Moves.refl k, LinesOnly.refl k⟩
  | cons irq rest ih =>
    obtain ⟨path, only⟩ := ih (visit k irq)
    rw [List.foldl_cons]
    rcases releases k irq with same | released
    · rw [same] at path only ⊢
      exact ⟨path, only⟩
    · rw [released] at path only ⊢
      exact ⟨(Moves.one (Move.irqRelease irq)).trans path, (linesOnly_irqRelease k irq).trans only⟩

/-- The lines of a port are unbound. -/
theorem unbind_ports (q : PortId) (items : List Irq) (k : Ipc) (irq : Irq)
    (either : irq ∈ items ∨ (k.irqs irq).port ≠ some q) :
    ((items.foldl (fun k irq => if (k.irqs irq).port = some q then k.irqRelease irq else k) k).irqs irq).port ≠
      some q := by
  induction items generalizing k with
  | nil => exact either.resolve_left nofun
  | cons line rest ih =>
    rw [List.foldl_cons]
    by_cases bound : (k.irqs line).port = some q
    · rw [if_pos bound]
      refine ih (k.irqRelease line) ?_
      by_cases same : irq = line
      · right
        rw [same]
        unfold irqRelease irqSetPending
        dsimp only
        rw [update_self, update_self, update_self]
        nofun
      · refine either.imp (fun member => (List.mem_cons.mp member).resolve_left same) fun elsewhere => ?_
        unfold irqRelease irqSetPending
        dsimp only
        rw [update_of_ne same, update_of_ne same, update_of_ne same]
        exact elsewhere
    · rw [if_neg bound]
      refine ih k ?_
      rcases either with member | elsewhere
      · rcases List.mem_cons.mp member with same | later
        · exact Or.inr (same ▸ bound)
        · exact Or.inl later
      · exact Or.inr elsewhere

/-- What the thread is when its port is destroyed. -/
def awoken (thread : Thread) : Thread :=
  { thread with r1 := destroyedResult thread.reason, reason := .none, timed := false, state := .ready }

theorem wakeVisit_at (waits : k.AtPort t q) : wakeVisit q k t = k.wake t (destroyedResult (k.thread t).reason) := by
  unfold wakeVisit
  obtain ⟨reason, port⟩ := atPort_reason waits
  refine if_pos ?_
  rw [decide_eq_true (atPort_blocked waits), decide_eq_true port, Bool.and_self, Bool.true_and]
  rcases reason with sends | replies | receives
  · rw [sends]
    rfl
  · rw [replies]
    rfl
  · rw [receives]
    rfl

theorem wakeVisit_away (away : ¬ k.AtPort t q) : wakeVisit q k t = k := by
  unfold wakeVisit
  refine if_neg fun waits => away ?_
  rw [Bool.and_eq_true, Bool.and_eq_true, decide_eq_true_iff, decide_eq_true_iff, Bool.or_eq_true, Bool.or_eq_true,
    decide_eq_true_iff, decide_eq_true_iff, decide_eq_true_iff] at waits
  obtain ⟨⟨blocked, port⟩, (sends | replies) | receives⟩ := waits
  · exact Or.inl (waitsAt_iff.mpr ⟨blocked, sends, port⟩)
  · exact Or.inr (Or.inl (waitsAt_iff.mpr ⟨blocked, replies, port⟩))
  · exact Or.inr (Or.inr (waitsAt_iff.mpr ⟨blocked, receives, port⟩))

/-- Every thread at the port is woken and no other changes. -/
theorem wakeVisits_spec (q : PortId) (items : List ThreadId) (k : Ipc) :
    (∃ sched, items.foldl (wakeVisit q) k = { k with sched := sched }) ∧
      (∀ t, ¬ k.AtPort t q -> (items.foldl (wakeVisit q) k).thread t = k.thread t) ∧
      ∀ t, k.AtPort t q -> (items.foldl (wakeVisit q) k).thread t =
        if t ∈ items then awoken (k.thread t) else k.thread t := by
  induction items generalizing k with
  | nil => exact ⟨⟨k.sched, rfl⟩, fun _ _ => rfl, fun _ _ => (if_neg List.not_mem_nil).symm⟩
  | cons u rest ih =>
    rw [List.foldl_cons]
    by_cases here : k.AtPort u q
    · rw [wakeVisit_at here]
      generalize woken : k.wake u (destroyedResult (k.thread u).reason) = k₁
      obtain ⟨⟨sched, only⟩, away, at_⟩ := ih k₁
      have self : k₁.thread u = awoken (k.thread u) := by
        rw [← woken, wake_thread, update_self]
        rfl
      have others : ∀ t, t ≠ u -> k₁.thread t = k.thread t := by
        intro t other
        rw [← woken, wake_thread, update_of_ne other]
      have still : ∀ t, t ≠ u -> (k₁.AtPort t q ↔ k.AtPort t q) := by
        intro t other
        refine atPort_congr fun reason => ?_
        unfold waitsAt
        rw [others t other]
      have left : ¬ k₁.AtPort u q := by
        intro waits
        have blocked := atPort_blocked waits
        rw [self] at blocked
        cases blocked
      refine ⟨⟨sched, ?_⟩, fun t elsewhere => ?_, fun t waits => ?_⟩
      · rw [only, ← woken]
        rfl
      · have other : t ≠ u := by
          rintro rfl
          exact elsewhere here
        rw [away t (fun waits => elsewhere ((still t other).mp waits)), others t other]
      · by_cases same : t = u
        · rw [same, away u left, self, if_pos List.mem_cons_self]
        · rw [at_ t ((still t same).mpr waits), others t same]
          refine if_congr ?_ rfl rfl
          rw [List.mem_cons]
          exact ⟨Or.inr, fun either => either.resolve_left same⟩
    · rw [wakeVisit_away here]
      obtain ⟨only, away, at_⟩ := ih k
      refine ⟨only, away, fun t waits => ?_⟩
      rw [at_ t waits]
      refine if_congr ?_ rfl rfl
      rw [List.mem_cons]
      refine ⟨Or.inr, fun either => either.resolve_left ?_⟩
      rintro rfl
      exact here waits

/-- The channels that were cut off and had a CLIENT_GONE lose it. -/
def droppedEvents (k : Ipc) (q : PortId) : List Event := (k.pendingGone q).map fun c => .dropped (k.channel c)

/-- What destroying port `q` comes to. -/
structure Destroyed (k next : Ipc) (q : PortId) : Prop where
  handles : next.handles = k.handles
  procs : next.procs = k.procs
  ports : next.ports = update k.ports q { k.ports q with used := false }
  chans : next.chans = fun c => Chan.orphan q (k.chans c)
  services : next.services = fun i =>
    if (k.services i).port = some q then { k.services i with port := none } else k.services i
  gone : next.gone = k.gone
  woken : ∀ t, k.AtPort t q -> next.thread t = awoken (k.thread t)
  away : ∀ t, ¬ k.AtPort t q -> next.thread t = k.thread t
  lines : ∃ lined, Moves k lined ∧ LinesOnly k lined ∧ next.irqs = lined.irqs ∧
    next.irqPendingMask = lined.irqPendingMask
  unbound : ∀ irq, (next.irqs irq).port ≠ some q
  senders : next.sendBlocked = k.sendBlocked
  seq : next.nextSeq = k.nextSeq
  history : next.history =
    { k.history with events := k.droppedEvents q ++ k.history.events, accesses := next.history.accesses }

theorem portDestroy_spec (k : Ipc) (q : PortId) : Destroyed k (k.portDestroy q) q := by
  unfold portDestroy eachIrq
  dsimp only
  have unbound := unbind_ports q (List.finRange 16) k
  have releases : ∀ (k : Ipc) irq, (if (k.irqs irq).port = some q then k.irqRelease irq else k) = k ∨
      (if (k.irqs irq).port = some q then k.irqRelease irq else k) = k.irqRelease irq := by
    intro k irq
    split
    · exact Or.inr rfl
    · exact Or.inl rfl
  obtain ⟨path, only⟩ := releases_spec releases (List.finRange 16) k
  generalize List.foldl _ k (List.finRange 16) = lined at path only unbound ⊢
  unfold eachThread
  obtain ⟨⟨sched, woken⟩, away, at_⟩ := wakeVisits_spec q (List.finRange 16) lined
  generalize List.foldl (wakeVisit q) lined (List.finRange 16) = awake at woken away at_ ⊢
  have same := only.thread
  have waits : ∀ t, lined.AtPort t q ↔ k.AtPort t q := by
    intro t
    refine atPort_congr fun reason => ?_
    unfold waitsAt
    rw [same]
  refine ⟨?_, ?_, ?_, ?_, ?_, ?_, fun t here => ?_, fun t elsewhere => ?_, ⟨lined, path, only, ?_, ?_⟩,
    fun irq => ?_, ?_, ?_, ?_⟩
  · rw [woken, only.rest]
    rfl
  · rw [woken, only.rest]
    rfl
  · rw [woken, only.rest]
    rfl
  · rw [woken, only.rest]
    rfl
  · rw [woken, only.rest]
    rfl
  · rw [woken, only.rest]
    rfl
  · have thread := at_ t ((waits t).mpr here)
    rw [if_pos (List.mem_finRange t), same] at thread
    exact thread
  · have thread := away t (fun here => elsewhere ((waits t).mp here))
    rw [same] at thread
    exact thread
  · rw [woken]
    rfl
  · rw [woken]
    rfl
  · rw [woken]
    exact unbound irq (Or.inl (List.mem_finRange irq))
  · rw [woken, only.rest]
    rfl
  · rw [woken, only.rest]
    rfl
  · have past : awake.history = { k.history with accesses := lined.history.accesses } := by
      rw [woken]
      exact only.history
    have opens : awake.history.opens = k.history.opens := by
      rw [past]
    have dropped : (awake.pendingGone q).map (fun c => Event.dropped (awake.channel c)) = k.droppedEvents q := by
      unfold droppedEvents pendingGone channel
      rw [opens, woken, only.rest]
    unfold orphanChans modifyPort
    dsimp only
    rw [dropped, past]

/-! ## What closing comes to -/

/-- An entry goes and the count of what it named with it. -/
def less (k : Ipc) (p : ProcId) (i : HandleIx) : Obj -> Ipc
  | .port q => (k.setHandle p i none).modifyPort q fun port => { port with refs := port.refs - 1 }
  | .chan c => (k.setHandle p i none).modifyChan c fun chan => { chan with refs := chan.refs - 1 }
  | .thread t => (k.setHandle p i none).modifyThread t fun thread => { thread with refs := thread.refs - 1 }
  | .proc q => (k.setHandle p i none).modifyProc q Proc.release

theorem less_handles (k : Ipc) (p : ProcId) (i : HandleIx) (o : Obj) :
    (k.less p i o).handles = update k.handles (p, i) none := by
  cases o <;> rfl

theorem release_refs (proc : Proc) : proc.release.refs = proc.refs - 1 := by
  unfold Proc.release Proc.maybeFree
  split <;> rfl

theorem release_state (proc : Proc) :
    proc.release.state = proc.state ∨ (proc.state = .exited ∧ proc.release.state = .free ∧ proc.refs - 1 = 0) := by
  unfold Proc.release Proc.maybeFree
  split
  · next frees => exact Or.inr ⟨frees.1, rfl, frees.2.1⟩
  · exact Or.inl rfl

theorem recount_less (k : Ipc) (p : ProcId) (i : HandleIx) (o : Obj) : Recount k (k.less p i o) := by
  refine (recount_setHandle k p i none).trans ?_
  cases o with
  | port q => exact recount_port (k.setHandle p i none) q (· - 1)
  | chan c => exact recount_chan (k.setHandle p i none) c (· - 1)
  | thread t => exact recount_thread (k.setHandle p i none) t (· - 1)
  | proc q =>
    refine recount_proc (k.setHandle p i none) q ?_
    rcases release_state (k.procs q) with same | ⟨exited, free, _⟩
    · exact iff_of_eq (congrArg (· = ProcState.live) same)
    · change (k.procs q).release.state = .live ↔ (k.procs q).state = .live
      rw [free, exited]
      exact ⟨nofun, nofun⟩

theorem less_refs (k : Ipc) (p : ProcId) (i : HandleIx) (o other : Obj) :
    (k.less p i o).refs other = k.refs other - if other = o then 1 else 0 := by
  cases o with
  | port q =>
    refine (@port_refs k (k.less p i (.port q)) q _ rfl rfl rfl rfl other).trans ?_
    split
    · next same =>
        rw [same]
        rfl
    · rfl
  | chan c =>
    refine (@chan_refs k (k.less p i (.chan c)) c _ rfl rfl rfl rfl other).trans ?_
    split
    · next same =>
        rw [same]
        rfl
    · rfl
  | thread t =>
    cases other with
    | thread u =>
      change (update k.sched.threads t _ u).refs = _
      by_cases same : u = t
      · rw [same, update_self, if_pos rfl]
        rfl
      · rw [update_of_ne same, if_neg (fun equal => same (Obj.thread.inj equal))]
        rfl
    | port _ => rfl
    | chan _ => rfl
    | proc _ => rfl
  | proc q =>
    cases other with
    | proc r =>
      change (update k.procs q _ r).refs = _
      by_cases same : r = q
      · rw [same, update_self, if_pos rfl, release_refs]
        rfl
      · rw [update_of_ne same, if_neg (fun equal => same (Obj.proc.inj equal))]
        rfl
    | port _ => rfl
    | chan _ => rfl
    | thread _ => rfl

/-- The last reference to a port or a channel goes, or nothing is destroyed. -/
theorem closeIx_cases (k : Ipc) (p : ProcId) (i : HandleIx) :
    (k.handles (p, i) = none ∧ closeIx p k i = k) ∨ ∃ o, k.handles (p, i) = some o ∧
      ((closeIx p k i = k.less p i o ∧ (((∀ q, o ≠ .port q) ∧ ∀ c, o ≠ .chan c) ∨ 2 ≤ k.refs o)) ∨
        (∃ q, o = .port q ∧ k.refs o ≤ 1 ∧ closeIx p k i = (k.less p i o).portDestroy q) ∨
        ∃ c, o = .chan c ∧ k.refs o ≤ 1 ∧ closeIx p k i = (k.less p i o).chanLastClosed c) := by
  unfold closeIx
  cases named : k.handles (p, i) with
  | none => exact Or.inl ⟨rfl, rfl⟩
  | some o =>
    refine Or.inr ⟨o, rfl, ?_⟩
    have counts := less_refs k p i o o
    rw [if_pos rfl] at counts
    cases o with
    | port q =>
      change ((k.less p i (.port q)).ports q).refs = k.refs (.port q) - 1 at counts
      by_cases last : k.refs (.port q) ≤ 1
      · refine Or.inr (Or.inl ⟨q, rfl, last, ?_⟩)
        change (if ((k.less p i (.port q)).ports q).refs = 0 then _ else _) = _
        exact if_pos (by omega)
      · refine Or.inl ⟨?_, Or.inr (by omega)⟩
        change (if ((k.less p i (.port q)).ports q).refs = 0 then _ else _) = _
        exact if_neg (by omega)
    | chan c =>
      change ((k.less p i (.chan c)).chans c).refs = k.refs (.chan c) - 1 at counts
      by_cases last : k.refs (.chan c) ≤ 1
      · refine Or.inr (Or.inr ⟨c, rfl, last, ?_⟩)
        change (if ((k.less p i (.chan c)).chans c).refs = 0 then _ else _) = _
        exact if_pos (by omega)
      · refine Or.inl ⟨?_, Or.inr (by omega)⟩
        change (if ((k.less p i (.chan c)).chans c).refs = 0 then _ else _) = _
        exact if_neg (by omega)
    | thread t | proc q => exact Or.inl ⟨rfl, Or.inl ⟨nofun, nofun⟩⟩

variable {p : ProcId} {i : HandleIx}

/-- A reference goes that was not the last one to a port or a channel. -/
theorem Counted.less (counted : k.Counted) (named : k.handles (p, i) = some o)
    (more : ((∀ q, o ≠ .port q) ∧ ∀ c, o ≠ .chan c) ∨ 2 ≤ k.refs o) : (k.less p i o).Counted := by
  have kept : ∀ other, (∃ q, other = Obj.port q) ∨ (∃ c, other = Obj.chan c) ->
      (0 < (k.less p i o).refs other ↔ 0 < k.refs other) := by
    intro other sort
    rw [less_refs]
    split
    · next same =>
        rcases more with ⟨notPort, notChan⟩ | many
        · rcases sort with ⟨q, port⟩ | ⟨c, chan⟩
          · exact absurd (same.symm.trans port) (notPort q)
          · exact absurd (same.symm.trans chan) (notChan c)
        · rw [same]
          omega
    · rfl
  refine counted.recount (recount_less k p i o) (fun other => ?_) (fun q => kept _ (Or.inl ⟨q, rfl⟩))
    (fun c => kept _ (Or.inr ⟨c, rfl⟩)) fun q free => ?_
  · rw [less_refs, less_handles]
    have cleared := tally_clear named other
    rw [← counted.exact other] at cleared
    omega
  · rw [less_refs]
    cases o with
    | proc r =>
      by_cases same : q = r
      · rw [same] at free ⊢
        change (update k.procs r _ r).state = .free at free
        rw [update_self] at free
        rw [if_pos rfl]
        rcases release_state (k.procs r) with state | ⟨_, _, none⟩
        · have before := counted.free r (state.symm.trans free)
          change (k.procs r).refs - 1 = 0
          omega
        · exact none
      · have before : k.refs (.proc q) = 0 := by
          change (update k.procs r _ q).state = .free at free
          rw [update_of_ne same] at free
          exact counted.free q free
        rw [before]
        split <;> rfl
    | port r | chan r | thread r => exact congrArg (· - 0) (counted.free q free)

/-- The last handle of a port is closed. -/
theorem Counted.destroyed (counted : k.Counted) (named : k.handles (p, i) = some (.port q))
    (last : k.refs (.port q) ≤ 1) (destroyed : Destroyed (k.less p i (.port q)) next q) : next.Counted := by
  have ports : next.ports = update k.ports q ⟨false, 0⟩ := by
    rw [destroyed.ports]
    funext r
    by_cases same : r = q
    · rw [same, update_self, update_self]
      unfold Ipc.less modifyPort
      dsimp only
      rw [update_self]
      have none : (k.ports q).refs - 1 = 0 := by
        change (k.ports q).refs ≤ 1 at last
        omega
      exact congrArg (Port.mk false) none
    · rw [update_of_ne same, update_of_ne same]
      exact update_of_ne same ..
  have others : ∀ r, r ≠ q -> next.ports r = k.ports r := by
    intro r other
    rw [ports, update_of_ne other]
  have chans : ∀ c, next.chans c = Chan.orphan q (k.chans c) := by
    intro c
    rw [destroyed.chans]
    rfl
  have chanRefs : ∀ c, (next.chans c).refs = (k.chans c).refs := by
    intro c
    rw [chans]
    unfold Chan.orphan
    split <;> rfl
  have waits : ∀ t r, next.AtPort t r -> k.AtPort t r ∧ r ≠ q := by
    intro t r at_
    by_cases here : (k.less p i (.port q)).AtPort t q
    · have blocked := atPort_blocked at_
      rw [destroyed.woken t here] at blocked
      cases blocked
    · have before : k.AtPort t r := by
        refine (atPort_congr fun reason => ?_).mp at_
        unfold waitsAt
        rw [destroyed.away t here]
        rfl
      refine ⟨before, fun same => here ?_⟩
      rw [← same]
      exact before
  have threads : ∀ t, (next.thread t).active = (k.thread t).active ∧ (next.thread t).proc = (k.thread t).proc ∧
      (next.thread t).refs = (k.thread t).refs := by
    intro t
    by_cases here : (k.less p i (.port q)).AtPort t q
    · rw [destroyed.woken t here]
      refine ⟨?_, rfl, rfl⟩
      have before : k.AtPort t q := here
      rw [Thread.active_blocked (atPort_blocked before)]
      rfl
    · rw [destroyed.away t here]
      exact ⟨rfl, rfl, rfl⟩
  -- A channel that is in use behind a port is behind another port.
  have apart : ∀ c r, (next.chans c).used = true -> (next.chans c).port = some r ->
      r ≠ q ∧ next.chans c = k.chans c := by
    intro c r inUse port
    rw [chans] at inUse port ⊢
    unfold Chan.orphan at inUse port ⊢
    split at inUse
    · next here =>
        rw [if_pos here] at port
        cases port
    · next elsewhere =>
        rw [if_neg elsewhere] at port ⊢
        refine ⟨fun same => elsewhere ?_, rfl⟩
        rw [inUse, port, same, Bool.true_and, decide_eq_true_iff]
  refine ⟨fun o => ?_, fun r => ?_, fun c held => ?_, fun c inUse none => ?_, fun c r inUse port => ?_, ?_, ?_,
    fun j r port => ?_, fun t active => ?_, fun t r at_ => ?_⟩
  · rw [destroyed.handles, less_handles]
    have cleared := tally_clear named o
    have counts : next.refs o = k.refs o - if o = .port q then 1 else 0 := by
      cases o with
      | port r =>
        by_cases same : r = q
        · rw [same, if_pos rfl]
          change (next.ports q).refs = (k.ports q).refs - 1
          rw [ports, update_self]
          change (k.ports q).refs ≤ 1 at last
          dsimp only
          omega
        · rw [if_neg (fun equal => same (Obj.port.inj equal))]
          exact congrArg Port.refs (others r same)
      | chan c => exact chanRefs c
      | thread t => exact (threads t).2.2
      | proc r =>
        change (next.procs r).refs = (k.procs r).refs
        rw [destroyed.procs]
        rfl
    rw [← counted.exact o] at cleared
    omega
  · by_cases same : r = q
    · rw [same, ports, update_self]
      exact ⟨nofun, fun held => absurd held (Nat.lt_irrefl 0)⟩
    · rw [others r same]
      exact counted.ports r
  · rw [chanRefs] at held
    rw [chans]
    unfold Chan.orphan
    split
    · exact decide_eq_true (Nat.pos_iff_ne_zero.mp held)
    · exact counted.chans c held
  · rw [chanRefs] at none
    rw [chans] at inUse ⊢
    unfold Chan.orphan at inUse ⊢
    split at inUse
    · exact absurd none (of_decide_eq_true inUse)
    · next elsewhere =>
        rw [if_neg elsewhere]
        exact counted.pending c inUse none
  · obtain ⟨other, same⟩ := apart c r inUse port
    rw [same] at inUse port
    rw [others r other]
    exact counted.behind c r inUse port
  · obtain ⟨items, holds, listed⟩ := counted.gone
    refine ⟨update items q [], ?_, fun c r => ?_⟩
    · have names : (fun r => (next.ports r).used) = update (fun r => (k.ports r).used) q false := by
        funext r
        by_cases same : r = q
        · rw [same, ports, update_self, update_self]
        · rw [others r same, update_of_ne same]
      rw [names, destroyed.gone, Bank.within_clear]
      exact holds.clear q
    · by_cases same : r = q
      · rw [same, update_self]
        refine ⟨nofun, fun pending => ?_⟩
        exact absurd rfl (apart c q pending.1 pending.2.2).1
      · rw [update_of_ne same, listed]
        constructor
        · intro pending
          have elsewhere : next.chans c = k.chans c := by
            rw [chans]
            unfold Chan.orphan
            refine if_neg fun here => ?_
            rw [Bool.and_eq_true, decide_eq_true_iff, pending.2.2] at here
            exact same (Option.some.inj here.2)
          unfold GonePending
          rw [elsewhere]
          exact pending
        · intro pending
          have elsewhere := (apart c r pending.1 pending.2.2).2
          unfold GonePending at pending
          rw [elsewhere] at pending
          exact pending
  · rw [destroyed.procs]
    exact counted.free
  · rw [destroyed.services] at port
    change (if (k.services j).port = some q then { k.services j with port := none } else k.services j).port = some r
      at port
    split at port
    · cases port
    · next elsewhere =>
        have other : r ≠ q := fun same => elsewhere (same ▸ port)
        rw [others r other]
        exact counted.services j r port
  · rw [(threads t).1] at active
    rw [(threads t).2.1, destroyed.procs]
    exact counted.owned t active
  · obtain ⟨before, other⟩ := waits t r at_
    rw [others r other]
    exact counted.waits t r before

/-! ## The last handle of a channel -/

/-- The CLIENT_GONE of a channel joins the list of its port. -/
def listGone (k : Ipc) (c : ChanId) (q : PortId) : Ipc :=
  ({ k with gone := k.gone.pushBack q c }).note (.closed (k.channel c))

/-- The channel is free, its CLIENT_GONE is listed, or a receiver has it. -/
theorem chanLastClosed_cases (k : Ipc) (c : ChanId) :
    (((k.chans c).kernel ≠ 0 ∨ (k.chans c).port = none) ∧
        k.chanLastClosed c = k.modifyChan c fun chan => { chan with used := false }) ∨
      ∃ q, (k.chans c).kernel = 0 ∧ (k.chans c).port = some q ∧
        (((k.listGone c q).findReceiver q = none ∧ k.chanLastClosed c = k.listGone c q) ∨
          ∃ t, (k.listGone c q).findReceiver q = some t ∧
            k.chanLastClosed c = ((k.listGone c q).deliverGone t q).wake t fndOk) := by
  unfold chanLastClosed
  dsimp only
  split
  · next kernel => exact Or.inl ⟨Or.inl kernel, rfl⟩
  · next user =>
      cases port : (k.chans c).port with
      | none => exact Or.inl ⟨Or.inr rfl, rfl⟩
      | some q =>
        refine Or.inr ⟨q, not_not.mp user, rfl, ?_⟩
        dsimp only
        generalize same : ({ k with gone := k.gone.pushBack q c } : Ipc).note (.closed (k.channel c)) = listed
        have whole : k.listGone c q = listed := same
        rw [whole]
        cases found : listed.findReceiver q with
        | none => exact Or.inl ⟨rfl, rfl⟩
        | some t => exact Or.inr ⟨t, rfl, rfl⟩

/-- The channel whose last handle goes. -/
theorem less_chan (last : k.refs (.chan c) ≤ 1) :
    (k.less p i (.chan c)).chans = update k.chans c { k.chans c with refs := 0 } := by
  have less : (k.chans c).refs - 1 = 0 := by
    change (k.chans c).refs ≤ 1 at last
    omega
  unfold Ipc.less modifyChan setHandle
  dsimp only
  rw [less]

/-- The counts once the last entry for a channel is gone, whatever else becomes
of the channel. -/
theorem Counted.lastExact (counted : k.Counted) (named : k.handles (p, i) = some (.chan c)) {final : Ipc}
    {changed : Chan} (threads : final.thread = k.thread) (procs : final.procs = k.procs)
    (ports : final.ports = k.ports) (chans : final.chans = update k.chans c changed) (zero : changed.refs = 0)
    (last : k.refs (.chan c) ≤ 1) (handles : final.handles = update k.handles (p, i) none) (o : Obj) :
    final.refs o = tally final.handles o := by
  rw [chan_refs threads procs ports chans, handles]
  have cleared := tally_clear named o
  rw [← counted.exact o] at cleared
  split
  · next same =>
      rw [if_pos same, same] at cleared
      rw [same, zero]
      omega
  · next other =>
      rw [if_neg other] at cleared
      omega

/-- The last handle of a channel goes and its CLIENT_GONE is listed. -/
theorem Counted.listGone (counted : k.Counted) (named : k.handles (p, i) = some (.chan c))
    (last : k.refs (.chan c) ≤ 1) (port : (k.chans c).port = some q) :
    ((k.less p i (.chan c)).listGone c q).Counted := by
  have held : 0 < (k.chans c).refs := counted.named.mp ⟨(p, i), named⟩
  have inUse : (k.chans c).used = true := counted.chans c held
  have used := counted.behind c q inUse port
  have before : ∀ r, ¬ k.GonePending c r := fun r pending => Nat.pos_iff_ne_zero.mp held pending.2.1
  have chans : ((k.less p i (.chan c)).listGone c q).chans = update k.chans c { k.chans c with refs := 0 } :=
    less_chan last
  refine counted.channel rfl rfl rfl rfl chans (counted.lastExact named rfl rfl rfl chans rfl last rfl) (fun _ => inUse)
    (fun _ _ => ?_) (fun r _ here => ?_) ?_
  · dsimp only
    rw [port]
    nofun
  · dsimp only at here
    rw [port] at here
    cases here
    exact used
  · obtain ⟨items, holds, listed⟩ := counted.gone
    have outside : ∀ r, c ∉ items r := fun r member => before r ((listed c r).mp member)
    refine ⟨update items q (items q ++ [c]), ?_, fun d r => ?_⟩
    · have pushed := holds.pushBack (i := q) outside
      rw [← Bank.pushBack_within _ (by exact used)] at pushed
      exact pushed
    · unfold GonePending
      rw [chans]
      by_cases same : d = c
      · rw [same, update_self]
        by_cases here : r = q
        · rw [here, update_self]
          exact ⟨fun _ => ⟨inUse, rfl, port⟩, fun _ => List.mem_append_right _ List.mem_cons_self⟩
        · rw [update_of_ne here]
          refine ⟨fun member => absurd member (outside r), fun pending => absurd ?_ here⟩
          have there := pending.2.2
          dsimp only at there
          rw [port] at there
          exact (Option.some.inj there).symm
      · rw [update_of_ne same]
        refine Iff.trans ?_ (listed d r)
        by_cases here : r = q
        · rw [here, update_self, List.mem_append, List.mem_singleton]
          exact ⟨fun either => either.resolve_right same, Or.inl⟩
        · rw [update_of_ne here]

/-- The last handle of a channel is closed. -/
theorem Counted.lastClosed (counted : k.Counted) (named : k.handles (p, i) = some (.chan c))
    (last : k.refs (.chan c) ≤ 1) :
    ((k.less p i (.chan c)).chanLastClosed c).Counted := by
  have held : 0 < (k.chans c).refs := counted.named.mp ⟨(p, i), named⟩
  have inUse : (k.chans c).used = true := counted.chans c held
  have before : ∀ r, ¬ k.GonePending c r := fun r pending => Nat.pos_iff_ne_zero.mp held pending.2.1
  have chan := less_chan (p := p) (i := i) last
  have self : (k.less p i (.chan c)).chans c = { k.chans c with refs := 0 } := by
    rw [chan, update_self]
  rcases chanLastClosed_cases (k.less p i (.chan c)) c with ⟨_, freed⟩ | ⟨q, _, port, outcome⟩
  · rw [freed]
    have chans : ((k.less p i (.chan c)).modifyChan c fun chan => { chan with used := false }).chans =
        update k.chans c { k.chans c with refs := 0, used := false } := by
      change update (k.less p i (.chan c)).chans c _ = _
      rw [self, chan, Function.update_idem]
    refine counted.channel rfl rfl rfl rfl chans (counted.lastExact named rfl rfl rfl chans rfl last rfl)
      (fun held => absurd held (Nat.lt_irrefl 0)) nofun nofun ?_
    exact counted.gone.same rfl (Or.inl rfl) (pending_update chans before nofun)
  · rw [self] at port
    have listed := counted.listGone named last port
    rcases outcome with ⟨_, done⟩ | ⟨t, found, done⟩
    · rw [done]
      exact listed
    · rw [done]
      have waits := findReceiver_some found
      refine (listed.deliverGone t (counted.behind c q inUse port)).wake ?_ fndOk
      rw [deliverGone_thread]
      exact (waitsAt_iff.mp waits).1

/-! ## Every handle -/

theorem Counted.closeIx (counted : k.Counted) (p : ProcId) (i : HandleIx) : (closeIx p k i).Counted := by
  rcases closeIx_cases k p i with ⟨_, same⟩ | ⟨o, named, ⟨done, more⟩ | ⟨q, port, last, done⟩ | ⟨c, chan, last, done⟩⟩
  · rw [same]
    exact counted
  · rw [done]
    exact counted.less named more
  · subst port
    rw [done]
    exact counted.destroyed named last (portDestroy_spec ..)
  · subst chan
    rw [done]
    exact counted.lastClosed named last

/-- Closing a handle empties its entry, and no process starts or ends. -/
theorem closeIx_tables (p : ProcId) (k : Ipc) (i : HandleIx) :
    (closeIx p k i).handles = update k.handles (p, i) none ∧
      ∀ r, ((closeIx p k i).procs r).state = .live ↔ (k.procs r).state = .live := by
  rcases closeIx_cases k p i with ⟨empty, same⟩ | ⟨o, _, ⟨done, _⟩ | ⟨q, _, _, done⟩ | ⟨c, _, _, done⟩⟩
  · rw [same, ← empty, Function.update_eq_self]
    exact ⟨rfl, fun _ => Iff.rfl⟩
  · rw [done]
    exact ⟨less_handles .., (recount_less k p i o).live⟩
  · have destroyed := portDestroy_spec (k.less p i o) q
    rw [done, destroyed.handles, destroyed.procs]
    exact ⟨less_handles .., (recount_less k p i o).live⟩
  · rw [done]
    rcases chanLastClosed_cases (k.less p i o) c with ⟨_, freed⟩ | ⟨q, _, _, ⟨_, listed⟩ | ⟨t, _, woken⟩⟩
    · rw [freed]
      exact ⟨less_handles .., (recount_less k p i o).live⟩
    · rw [listed]
      exact ⟨less_handles .., (recount_less k p i o).live⟩
    · obtain ⟨handles, procs⟩ := deliverGone_tables ((k.less p i o).listGone c q) t q
      rw [woken]
      change (((k.less p i o).listGone c q).deliverGone t q).handles = _ ∧
        ∀ r, ((((k.less p i o).listGone c q).deliverGone t q).procs r).state = .live ↔ _
      rw [handles, procs]
      exact ⟨less_handles .., (recount_less k p i o).live⟩

theorem Tables.closeIx {ending : Option ProcId} (tables : k.Tables ending) (p : ProcId) (i : HandleIx) :
    (closeIx p k i).Tables ending := by
  obtain ⟨handles, live⟩ := closeIx_tables p k i
  intro r other ended j
  rw [handles]
  by_cases same : (r, j) = (p, i)
  · rw [same, update_self]
  · rw [update_of_ne same]
    exact tables r other (fun lives => ended ((live r).mpr lives)) j

theorem Consistent.closeIx (consistent : k.Consistent) (p : ProcId) (i : HandleIx) : (closeIx p k i).Consistent :=
  ⟨consistent.counted.closeIx p i, consistent.tables.closeIx p i⟩

/-! ## The end of a process -/

/-- The table of an ending process is emptied handle by handle. -/
theorem closeAll_invariant {motive : Ipc -> Prop} (p : ProcId) (items : List HandleIx) (begins : motive k)
    (keeps : ∀ k i, motive k -> motive (closeIx p k i)) : motive (items.foldl (closeIx p) k) := by
  induction items generalizing k with
  | nil => exact begins
  | cons i rest ih => exact ih (keeps k i begins)

theorem closeAll_tables (p : ProcId) (items : List HandleIx) (k : Ipc) :
    (∀ i, (i ∈ items ∨ k.handles (p, i) = none) -> (items.foldl (closeIx p) k).handles (p, i) = none) ∧
      (∀ r i, r ≠ p -> (items.foldl (closeIx p) k).handles (r, i) = k.handles (r, i)) ∧
      ∀ r, ((items.foldl (closeIx p) k).procs r).state = .live ↔ (k.procs r).state = .live := by
  induction items generalizing k with
  | nil => exact ⟨fun i either => either.resolve_left nofun, fun _ _ _ => rfl, fun _ => Iff.rfl⟩
  | cons j rest ih =>
    obtain ⟨handles, live⟩ := closeIx_tables p k j
    obtain ⟨empty, others, lives⟩ := ih (closeIx p k j)
    refine ⟨fun i either => empty i ?_, fun r i other => ?_, fun r => (lives r).trans (live r)⟩
    · rw [handles]
      by_cases same : i = j
      · rw [same]
        exact Or.inr (update_self ..)
      · have apart : (p, i) ≠ (p, j) := fun equal => same (Prod.mk.inj equal).2
        rw [update_of_ne apart]
        exact either.imp (fun member => (List.mem_cons.mp member).resolve_left same) id
    · rw [List.foldl_cons, others r i other, handles, update_of_ne]
      exact fun equal => other (Prod.mk.inj equal).1

theorem handleCloseAll_tables (p : ProcId) (k : Ipc) :
    (∀ i, (k.handleCloseAll p).handles (p, i) = none) ∧
      (∀ r i, r ≠ p -> (k.handleCloseAll p).handles (r, i) = k.handles (r, i)) ∧
      ∀ r, ((k.handleCloseAll p).procs r).state = .live ↔ (k.procs r).state = .live := by
  unfold handleCloseAll
  obtain ⟨empty, others, lives⟩ := closeAll_tables p (List.finRange 63) k
  exact ⟨fun i => empty i (Or.inl (List.mem_finRange i)), others, lives⟩

/-- All threads of a process die. -/
def killed (k : Ipc) (p : ProcId) : Ipc := { k with sched := k.sched.killProc p }

/-- The record of a process that has ended. -/
def ended (k : Ipc) (p : ProcId) (code : Word) : Ipc :=
  k.modifyProc p fun proc => { proc with threads := 0, exitCode := code, state := .exited }

theorem killed_thread (k : Ipc) (p : ProcId) (t : ThreadId) :
    (k.killed p).thread t = if (k.thread t).proc = some p && (k.thread t).state ≠ .free then
      { k.thread t with state := .dead } else k.thread t := rfl

/-- A thread that still runs or waits is of another process and as it was. -/
theorem killed_active (active : ((k.killed p).thread t).active = true) :
    (k.killed p).thread t = k.thread t ∧ (k.thread t).active = true ∧ (k.thread t).proc ≠ some p := by
  rw [killed_thread] at active ⊢
  split at active
  · cases active
  · next spared =>
      refine ⟨if_neg spared, active, fun own => spared ?_⟩
      rw [Bool.and_eq_true, decide_eq_true_iff, decide_eq_true_iff]
      refine ⟨own, fun free => ?_⟩
      unfold Thread.active at active
      rw [free] at active
      cases active

/-- The lines of a process are unbound. -/
theorem unbindProc_spec (k : Ipc) (p : ProcId) : Moves k (k.irqProcExited p) ∧ LinesOnly k (k.irqProcExited p) := by
  unfold irqProcExited eachIrq
  refine releases_spec (fun k irq => ?_) (List.finRange 16) k
  split
  · exact Or.inr rfl
  · exact Or.inl rfl

/-- The waits for a process are over. -/
theorem exitedVisits_spec (p : ProcId) (items : List ThreadId) (k : Ipc) :
    Moves k (items.foldl (procExitedVisit p) k) ∧ (items.foldl (procExitedVisit p) k).handles = k.handles ∧
      (items.foldl (procExitedVisit p) k).procs = k.procs := by
  induction items generalizing k with
  | nil => exact ⟨Moves.refl k, rfl, rfl⟩
  | cons t rest ih =>
    obtain ⟨path, handles, procs⟩ := ih (procExitedVisit p k t)
    have visit : Moves k (procExitedVisit p k t) ∧ (procExitedVisit p k t).handles = k.handles ∧
        (procExitedVisit p k t).procs = k.procs := by
      unfold procExitedVisit
      split
      · next waits =>
          rw [Bool.and_eq_true, Bool.and_eq_true, decide_eq_true_iff, decide_eq_true_iff] at waits
          exact ⟨wake_of_wait waits.1.1 (by rw [waits.1.2]; decide) fndOk, rfl, rfl⟩
      · exact ⟨Moves.refl k, rfl, rfl⟩
    exact ⟨visit.1.trans path, handles.trans visit.2.1, procs.trans visit.2.2⟩

theorem procExit_live (live : (k.procs p).state = .live) (code : Word) :
    k.procExit p code = ((((((k.killed p).irqProcExited p).ended p code).handleCloseAll p).modifyProc p
      fun proc => { proc with arenaLo := 0, arenaHi := 0 }).eachThread (procExitedVisit p)).maybeFree p := by
  unfold procExit
  rw [if_neg (not_not.mpr live)]
  rfl

/-- How a live process ends: its threads die and its lines are unbound, its
handles close, and whoever waited for it goes on. -/
theorem procExit_cases (k : Ipc) (p : ProcId) (code : Word) :
    ((k.procs p).state ≠ .live ∧ k.procExit p code = k) ∨
      ((k.procs p).state = .live ∧ ∃ unbound woken, Moves (k.killed p) unbound ∧ LinesOnly (k.killed p) unbound ∧
        Moves ((unbound.ended p code).handleCloseAll p) woken ∧
        (woken.handles = ((unbound.ended p code).handleCloseAll p).handles ∧
          ∀ r, (woken.procs r).state = (((unbound.ended p code).handleCloseAll p).procs r).state) ∧
        k.procExit p code = woken.maybeFree p) := by
  by_cases live : (k.procs p).state = .live
  · have unfolded := procExit_live live code
    obtain ⟨path, only⟩ := unbindProc_spec (k.killed p) p
    generalize (k.killed p).irqProcExited p = unbound at unfolded path only
    generalize closing : (unbound.ended p code).handleCloseAll p = closed at unfolded
    have released : Quiet closed (closed.modifyProc p fun proc => { proc with arenaLo := 0, arenaHi := 0 }) :=
      quiet_modifyProc rfl rfl
    generalize closed.modifyProc p (fun proc => { proc with arenaLo := 0, arenaHi := 0 }) = freed at unfolded released
    have waits : Moves freed (freed.eachThread (procExitedVisit p)) ∧
        (freed.eachThread (procExitedVisit p)).handles = freed.handles ∧
        (freed.eachThread (procExitedVisit p)).procs = freed.procs := exitedVisits_spec p (List.finRange 16) freed
    generalize freed.eachThread (procExitedVisit p) = woken at unfolded waits
    obtain ⟨wakes, handles, procs⟩ := waits
    refine Or.inr ⟨live, unbound, woken, path, only, ?_, ⟨?_, fun r => ?_⟩, unfolded⟩
    · rw [closing]
      exact (Moves.one (Move.quiet released)).trans wakes
    · rw [closing]
      exact handles.trans released.handles
    · rw [closing, ← released.states]
      exact congrArg Proc.state (congrFun procs r)
  · refine Or.inl ⟨live, ?_⟩
    unfold procExit
    rw [if_pos live]

/-! ## Counts at the end of a process -/

theorem Counted.killed (counted : k.Counted) (p : ProcId) : (k.killed p).Counted := by
  have counts : ∀ u, ((k.killed p).thread u).refs = (k.thread u).refs := by
    intro u
    rw [killed_thread]
    split <;> rfl
  refine counted.framed (framed_sched counts) (fun t active => ?_) fun t q at_ => ?_
  · obtain ⟨same, before, _⟩ := killed_active active
    have own := counted.owned t before
    rw [← same] at own
    exact own
  · have same := (killed_active (Thread.active_blocked (atPort_blocked at_))).1
    refine counted.waits t q ((atPort_congr fun reason => ?_).mp at_)
    unfold waitsAt
    rw [same]

/-- No thread of the process runs or waits. -/
def Quiesced (k : Ipc) (p : ProcId) : Prop := ∀ t, (k.thread t).active = true -> (k.thread t).proc ≠ some p

theorem quiesced_killed (k : Ipc) (p : ProcId) : (k.killed p).Quiesced p := by
  intro t active own
  obtain ⟨same, _, other⟩ := killed_active active
  rw [same] at own
  exact other own

theorem Quiesced.lines (quiesced : k.Quiesced p) (only : LinesOnly k next) : next.Quiesced p := by
  intro t
  rw [only.thread]
  exact quiesced t

theorem Counted.ended (counted : k.Counted) (quiesced : k.Quiesced p) (code : Word) :
    (k.ended p code).Counted := by
  have procs : (k.ended p code).procs = update k.procs p
      { k.procs p with threads := 0, exitCode := code, state := .exited } := rfl
  have counts : (k.ended p code).refs = k.refs := by
    refine refs_congr (fun _ => rfl) (fun _ => rfl) (fun _ => rfl) fun r => ?_
    rw [procs]
    by_cases same : r = p
    · rw [same, update_self]
    · rw [update_of_ne same]
  refine ⟨fun o => ?_, counted.ports, counted.chans, counted.pending, counted.behind, counted.gone, fun r free => ?_,
    counted.services, fun t active => ?_, counted.waits⟩
  · rw [counts]
    exact counted.exact o
  · rw [procs] at free ⊢
    by_cases same : r = p
    · rw [same, update_self] at free
      cases free
    · rw [update_of_ne same] at free ⊢
      exact counted.free r free
  · obtain ⟨r, own, live⟩ := counted.owned t active
    have other : r ≠ p := by
      rintro rfl
      exact quiesced t active own
    refine ⟨r, own, ?_⟩
    rw [procs, update_of_ne other]
    exact live

theorem Tables.ended (tables : k.Tables none) (code : Word) : (k.ended p code).Tables (some p) := by
  intro r other ended i
  refine tables r nofun (fun live => ended ?_) i
  have apart : r ≠ p := fun same => other (congrArg some same)
  change (update k.procs p _ r).state = .live
  rw [update_of_ne apart]
  exact live

theorem maybeFree_cases (proc : Proc) :
    proc.maybeFree = proc ∨ (proc.state = .exited ∧ proc.maybeFree.state = .free ∧ proc.refs = 0) := by
  unfold Proc.maybeFree
  split
  · next frees => exact Or.inr ⟨frees.1, rfl, frees.2.1⟩
  · exact Or.inl rfl

theorem maybeFree_refs (proc : Proc) : proc.maybeFree.refs = proc.refs := by
  unfold Proc.maybeFree
  split <;> rfl

theorem recount_maybeFree (k : Ipc) (p : ProcId) : Recount k (k.maybeFree p) := by
  refine recount_proc k p ?_
  rcases maybeFree_cases (k.procs p) with same | ⟨exited, free, _⟩
  · rw [same]
  · rw [free, exited]
    exact ⟨nofun, nofun⟩

theorem Counted.maybeFree (counted : k.Counted) (p : ProcId) : (k.maybeFree p).Counted := by
  have procs : (k.maybeFree p).procs = update k.procs p (k.procs p).maybeFree := rfl
  have counts : (k.maybeFree p).refs = k.refs := by
    refine refs_congr (fun _ => rfl) (fun _ => rfl) (fun _ => rfl) fun r => ?_
    rw [procs]
    by_cases same : r = p
    · rw [same, update_self, maybeFree_refs]
    · rw [update_of_ne same]
  refine counted.recount (recount_maybeFree k p) (fun o => ?_) (fun q => ?_) (fun c => ?_) fun r free => ?_
  · rw [counts]
    exact counted.exact o
  · rw [counts]
  · rw [counts]
  · rw [counts]
    rw [procs] at free
    by_cases same : r = p
    · rw [same] at free ⊢
      rw [update_self] at free
      rcases maybeFree_cases (k.procs p) with kept | ⟨_, _, none⟩
      · rw [kept] at free
        exact counted.free p free
      · exact none
    · rw [update_of_ne same] at free
      exact counted.free r free

/-- The moves behind the end of a process start when its table is empty. -/
theorem Consistent.procExit (consistent : k.Consistent) (p : ProcId) (code : Word) :
    (k.procExit p code).Consistent := by
  rcases procExit_cases k p code with ⟨_, same⟩ | ⟨_, unbound, woken, _, only, path, _, done⟩
  · rw [same]
    exact consistent
  · have killed := consistent.counted.killed p
    have tables : (k.killed p).Tables none := consistent.tables.same rfl fun _ live => live
    have ended := (killed.lines only).ended ((quiesced_killed k p).lines only) code
    have emptied := (tables.lines only).ended (p := p) code
    have closed : ((unbound.ended p code).handleCloseAll p).Counted :=
      closeAll_invariant p (List.finRange 63) ended fun _ i holds => holds.closeIx p i
    have left : ((unbound.ended p code).handleCloseAll p).Tables (some p) :=
      closeAll_invariant (motive := fun k => k.Tables (some p)) p (List.finRange 63) emptied
        fun _ i holds => holds.closeIx p i
    obtain ⟨empty, _, _⟩ := handleCloseAll_tables p (unbound.ended p code)
    have final : ((unbound.ended p code).handleCloseAll p).Consistent := by
      refine ⟨closed, fun r _ past i => ?_⟩
      by_cases same : r = p
      · rw [same]
        exact empty i
      · exact left r (fun equal => same (Option.some.inj equal)) past i
    obtain ⟨counted, tables⟩ := final.moves path
    rw [done]
    exact ⟨counted.maybeFree p, tables.same rfl fun r live => ((recount_maybeFree woken p).live r).mpr live⟩

/-! ## Every trap -/

theorem Consistent.quiet (consistent : k.Consistent) (quiet : Quiet k next) : next.Consistent :=
  consistent.move (Move.quiet quiet)

theorem Consistent.sendCall (consistent : k.Consistent) (runs : (k.thread t).state = .running)
    (named : k.Named (.chan c)) (port : (k.chans c).port = some q) (msg : Msg) (rep buf cap : Word) :
    (k.sendCall t c q msg rep buf cap).Consistent :=
  ⟨consistent.counted.sendCall runs named port msg rep buf cap, consistent.tables.same rfl fun _ live => live⟩

theorem Consistent.trail (consistent : k.Consistent) (trail : Trail k next) : next.Consistent := by
  cases trail with
  | moves path => exact consistent.moves path
  | call runs named _ port msg rep buf cap path _ =>
    exact (consistent.sendCall runs named port msg rep buf cap).moves path
  | close p i rest => exact (consistent.closeIx p i).quiet rest
  | exit p code rest => exact (consistent.procExit p code).quiet rest

end Src32.Kernel.Ipc
