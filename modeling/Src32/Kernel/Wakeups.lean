import Src32.Kernel.References

namespace Src32.Kernel.Ipc

open Function (update update_self update_of_ne)

/-!
# No lost wake-up

A thread waits in RECV only where there is nothing to take.  The masks stand
for the thread table and for the pending lines, and the callers of a port are
served in the order of their calls.
-/

variable {k next : Ipc} {t : ThreadId} {p : PortId} {c : ChanId}

/-- A call that is being delivered: its thread and its port. -/
abbrev Fresh := Option (ThreadId × PortId)

/-- Nothing can be taken where a thread waits in RECV, but for a call that is
just being delivered. -/
structure NoLost (fresh : Fresh) (k : Ipc) : Prop where
  lines : ∀ t p, k.waitsAt t .recv p = true -> ∀ irq, (k.irqs irq).port = some p -> (k.irqs irq).pending = false
  gone : ∀ t p, k.waitsAt t .recv p = true -> k.gone.head p = none
  callers : ∀ t p, k.waitsAt t .recv p = true -> ∀ u, k.waitsAt u .send p = true -> fresh = some (u, p)

/-- The masks say what they stand for. -/
structure Masked (k : Ipc) : Prop where
  lines : ∀ irq : Irq, k.irqPendingMask.getLsbD irq.val = (k.irqs irq).pending
  high : ∀ i, 16 ≤ i -> k.irqPendingMask.getLsbD i = false
  ports : ∀ t, (k.thread t).state = .blocked -> (k.thread t).reason = .send -> ∃ p, (k.thread t).port = some p
  senders : ∀ t p, k.waitsAt t .send p = true -> k.sendBlocked.getLsbD t.val = true

/-- The sequence number of a caller is the low part of the number of its call. -/
structure Sequenced (k : Ipc) : Prop where
  next : k.nextSeq = BitVec.ofNat 32 k.history.calls
  number : ∀ t, (k.thread t).state = .blocked -> (k.thread t).reason = .send ->
    (k.thread t).seq = BitVec.ofNat 32 (k.history.call t) ∧ k.history.call t ≤ k.history.calls
  apart : ∀ t u, (k.thread t).state = .blocked -> (k.thread t).reason = .send ->
    (k.thread u).state = .blocked -> (k.thread u).reason = .send -> k.history.call t = k.history.call u -> t = u

/-- No wait in SEND or RECV is new and no item. -/
structure Fewer (k next : Ipc) : Prop where
  receives : ∀ t p, next.waitsAt t .recv p = true -> k.waitsAt t .recv p = true
  sends : ∀ t, (next.thread t).state = .blocked -> (next.thread t).reason = .send ->
    (k.thread t).state = .blocked ∧ (k.thread t).reason = .send ∧ (next.thread t).port = (k.thread t).port ∧
      (next.thread t).seq = (k.thread t).seq
  lines : ∀ irq p, (next.irqs irq).port = some p -> (next.irqs irq).pending = true ->
    (k.irqs irq).port = some p ∧ (k.irqs irq).pending = true
  gone : ∀ p, k.gone.head p = none -> next.gone.head p = none
  mask : k.Masked -> ∀ irq : Irq, next.irqPendingMask.getLsbD irq.val = (next.irqs irq).pending
  high : ∀ i, 16 ≤ i -> next.irqPendingMask.getLsbD i = k.irqPendingMask.getLsbD i
  senders : ∀ t p, next.waitsAt t .send p = true -> k.sendBlocked.getLsbD t.val = true ->
    next.sendBlocked.getLsbD t.val = true
  seq : next.nextSeq = k.nextSeq
  calls : next.history.calls = k.history.calls ∧ next.history.call = k.history.call

theorem Fewer.waitsSend (fewer : Fewer k next) (waits : next.waitsAt t .send p = true) : k.waitsAt t .send p = true := by
  obtain ⟨blocked, sends, port⟩ := waitsAt_iff.mp waits
  obtain ⟨before, calling, same, _⟩ := fewer.sends t blocked sends
  exact waitsAt_iff.mpr ⟨before, calling, same.symm.trans port⟩

variable {fresh : Fresh}

theorem NoLost.fewer (noLost : NoLost fresh k) (fewer : Fewer k next) : NoLost fresh next where
  lines := by
    intro t p waits irq port
    rw [← Bool.not_eq_true]
    intro pending
    obtain ⟨before, items⟩ := fewer.lines irq p port pending
    rw [noLost.lines t p (fewer.receives t p waits) irq before] at items
    cases items
  gone := fun t p waits => fewer.gone p (noLost.gone t p (fewer.receives t p waits))
  callers := fun t p waits u sends => noLost.callers t p (fewer.receives t p waits) u (fewer.waitsSend sends)

theorem Masked.fewer (masked : k.Masked) (fewer : Fewer k next) : next.Masked where
  lines := fewer.mask masked
  high := fun i beyond => (fewer.high i beyond).trans (masked.high i beyond)
  ports := by
    intro t blocked sends
    obtain ⟨before, calling, same, _⟩ := fewer.sends t blocked sends
    rw [same]
    exact masked.ports t before calling
  senders := fun t p waits => fewer.senders t p waits (masked.senders t p (fewer.waitsSend waits))

theorem Sequenced.fewer (sequenced : k.Sequenced) (fewer : Fewer k next) : next.Sequenced where
  next := by
    rw [fewer.seq, fewer.calls.1]
    exact sequenced.next
  number := by
    intro t blocked sends
    obtain ⟨before, calling, _, same⟩ := fewer.sends t blocked sends
    rw [same, fewer.calls.1, fewer.calls.2]
    exact sequenced.number t before calling
  apart := by
    intro t u blocked sends blocked' sends'
    obtain ⟨before, calling, _, _⟩ := fewer.sends t blocked sends
    obtain ⟨before', calling', _, _⟩ := fewer.sends u blocked' sends'
    rw [fewer.calls.2]
    exact sequenced.apart t u before calling before' calling'

/-- What holds of waits between the moves of a trap. -/
structure Awaited (fresh : Fresh) (k : Ipc) : Prop where
  noLost : NoLost fresh k
  masked : k.Masked
  sequenced : k.Sequenced

theorem Awaited.fewer (awaited : Awaited fresh k) (fewer : Fewer k next) : Awaited fresh next :=
  ⟨awaited.noLost.fewer fewer, awaited.masked.fewer fewer, awaited.sequenced.fewer fewer⟩

/-! ## Moves that bring nothing new -/

theorem Fewer.refl (k : Ipc) : Fewer k k :=
  ⟨fun _ _ waits => waits, fun _ blocked sends => ⟨blocked, sends, rfl, rfl⟩, fun _ _ port pending => ⟨port, pending⟩,
    fun _ none => none, fun masked => masked.lines, fun _ _ => rfl, fun _ _ _ bit => bit, rfl, rfl, rfl⟩

/-- Only threads, tables, objects and the past change, and no wait in SEND or
RECV is new. -/
theorem fewer_waits (waits : ∀ t, (next.thread t).state = .blocked ->
      (next.thread t).reason = .send ∨ (next.thread t).reason = .recv ->
        (k.thread t).state = .blocked ∧ (k.thread t).reason = (next.thread t).reason ∧
          (next.thread t).port = (k.thread t).port ∧ (next.thread t).seq = (k.thread t).seq)
    (irqs : next.irqs = k.irqs) (mask : next.irqPendingMask = k.irqPendingMask)
    (gone : ∀ p, k.gone.head p = none -> next.gone.head p = none) (senders : next.sendBlocked = k.sendBlocked)
    (seq : next.nextSeq = k.nextSeq)
    (calls : next.history.calls = k.history.calls ∧ next.history.call = k.history.call) : Fewer k next where
  receives := by
    intro t p receives
    obtain ⟨blocked, reason, port⟩ := waitsAt_iff.mp receives
    obtain ⟨before, same, ports, _⟩ := waits t blocked (Or.inr reason)
    exact waitsAt_iff.mpr ⟨before, same.trans reason, ports.symm.trans port⟩
  sends := by
    intro t blocked sends
    obtain ⟨before, same, ports, seqs⟩ := waits t blocked (Or.inl sends)
    exact ⟨before, same.trans sends, ports, seqs⟩
  lines := by
    intro irq p
    rw [irqs]
    exact fun port pending => ⟨port, pending⟩
  gone := gone
  mask := by
    intro masked
    rw [irqs, mask]
    exact masked.lines
  high := by
    intro i _
    rw [mask]
  senders := by
    intro t p _
    rw [senders]
    exact id
  seq := seq
  calls := calls

/-- One thread changes, which then waits neither in SEND nor in RECV. -/
theorem fewer_thread {changed : Thread} (threads : next.thread = update k.thread t changed)
    (away : changed.state = .blocked -> changed.reason ≠ .send ∧ changed.reason ≠ .recv)
    (irqs : next.irqs = k.irqs) (mask : next.irqPendingMask = k.irqPendingMask)
    (gone : ∀ p, k.gone.head p = none -> next.gone.head p = none) (senders : next.sendBlocked = k.sendBlocked)
    (seq : next.nextSeq = k.nextSeq)
    (calls : next.history.calls = k.history.calls ∧ next.history.call = k.history.call) : Fewer k next := by
  refine fewer_waits (fun u blocked reason => ?_) irqs mask gone senders seq calls
  rw [threads] at blocked reason ⊢
  by_cases same : u = t
  · rw [same, update_self] at blocked reason
    exact absurd reason (not_or.mpr (away blocked))
  · rw [update_of_ne same] at blocked reason ⊢
    exact ⟨blocked, rfl, rfl, rfl⟩

theorem Quiet.fewer (quiet : Quiet k next) : Fewer k next where
  receives := fun t p waits => (quiet.waitsAt t .recv p).symm.trans waits
  sends := by
    intro t blocked sends
    have same := (quiet.threads t).waits (Or.inr blocked)
    rw [← same]
    exact ⟨blocked, sends, rfl, rfl⟩
  lines := by
    intro irq p
    rw [quiet.irqPorts, quiet.pending]
    exact fun port pending => ⟨port, pending⟩
  gone := by
    intro p none
    rw [quiet.gone]
    exact none
  mask := by
    intro masked irq
    rw [quiet.mask, quiet.pending]
    exact masked.lines irq
  high := by
    intro i _
    rw [quiet.mask]
  senders := fun t p waits bit => quiet.senders t p ((quiet.waitsAt t .send p).symm.trans waits) bit
  seq := quiet.seq
  calls := by
    rw [quiet.history]
    exact ⟨rfl, rfl⟩

theorem Recount.fewer (recount : Recount k next) : Fewer k next := by
  refine fewer_waits (fun t blocked reason => ?_) recount.irqs recount.mask ?_ recount.senders recount.seq ?_
  · rw [recount.threads t] at blocked reason ⊢
    exact ⟨blocked, rfl, rfl, rfl⟩
  · intro p none
    rw [recount.gone]
    exact none
  · rw [recount.history]
    exact ⟨rfl, rfl⟩

theorem fewer_wake (k : Ipc) (t : ThreadId) (result : Word) : Fewer k (k.wake t result) :=
  fewer_thread (wake_thread k t result) nofun rfl rfl (fun _ none => none) rfl rfl ⟨rfl, rfl⟩

/-! ## Lines -/

/-- A line that is set pending or is no longer. -/
theorem irqSetPending_spec (k : Ipc) (irq : Irq) (pending : Bool) (j : Irq) :
    (k.irqSetPending irq pending).irqs j = (if j = irq then { k.irqs irq with pending := pending } else k.irqs j) ∧
      (k.irqSetPending irq pending).irqPendingMask.getLsbD j.val =
        if j = irq then pending else k.irqPendingMask.getLsbD j.val := by
  have wide : j.val < 32 := Nat.lt_trans j.isLt (by decide)
  constructor
  · unfold irqSetPending
    dsimp only
    rw [Function.update_apply]
  · unfold irqSetPending
    dsimp only
    have number : j.val = irq.val ↔ j = irq := Fin.ext_iff.symm
    by_cases same : j = irq
    · rw [if_pos same]
      cases pending with
      | true => rw [if_pos rfl, Word.bit_set _ wide, decide_eq_true (number.mpr same), Bool.or_true]
      | false =>
        rw [if_neg Bool.false_ne_true, Word.bit_clear _ wide, decide_eq_true (number.mpr same), Bool.not_true,
          Bool.and_false]
    · have other : decide (j.val = irq.val) = false := decide_eq_false fun equal => same (number.mp equal)
      rw [if_neg same]
      cases pending with
      | true => rw [if_pos rfl, Word.bit_set _ wide, other, Bool.or_false]
      | false => rw [if_neg Bool.false_ne_true, Word.bit_clear _ wide, other, Bool.not_false, Bool.and_true]

/-- The mask has a bit for every line and no others. -/
theorem irqSetPending_high (k : Ipc) (irq : Irq) (pending : Bool) (i : Nat) (beyond : 16 ≤ i) :
    (k.irqSetPending irq pending).irqPendingMask.getLsbD i = k.irqPendingMask.getLsbD i := by
  have other : decide (i = irq.val) = false := decide_eq_false fun same => Nat.not_le_of_lt irq.isLt (same ▸ beyond)
  rcases Nat.lt_or_ge i 32 with inside | outside
  · unfold irqSetPending
    cases pending with
    | true => rw [if_pos rfl, Word.bit_set _ inside, other, Bool.or_false]
    | false => rw [if_neg Bool.false_ne_true, Word.bit_clear _ inside, other, Bool.not_false, Bool.and_true]
  · rw [BitVec.getLsbD_of_ge _ i outside, BitVec.getLsbD_of_ge _ i outside]

/-- No line comes to be pending. -/
theorem fewer_lines (only : LinesOnly k next)
    (lines : ∀ irq : Irq, ((next.irqs irq).port = (k.irqs irq).port ∧ (next.irqs irq).pending = (k.irqs irq).pending ∧
        next.irqPendingMask.getLsbD irq.val = k.irqPendingMask.getLsbD irq.val) ∨
      ((next.irqs irq).pending = false ∧ next.irqPendingMask.getLsbD irq.val = false))
    (high : ∀ i, 16 ≤ i -> next.irqPendingMask.getLsbD i = k.irqPendingMask.getLsbD i) : Fewer k next where
  receives := fun t p waits => (only.waitsAt t .recv p).symm.trans waits
  sends := by
    intro t blocked sends
    rw [only.thread] at blocked sends ⊢
    exact ⟨blocked, sends, rfl, rfl⟩
  lines := by
    intro irq p port pending
    rcases lines irq with ⟨ports, same, _⟩ | ⟨cleared, _⟩
    · exact ⟨ports.symm.trans port, same.symm.trans pending⟩
    · rw [cleared] at pending
      cases pending
  gone := by
    intro p none
    rw [only.rest]
    exact none
  mask := by
    intro masked irq
    rcases lines irq with ⟨_, same, bit⟩ | ⟨cleared, bit⟩
    · rw [same, bit]
      exact masked.lines irq
    · rw [cleared, bit]
  high := high
  senders := by
    intro t p _ bit
    rw [only.rest]
    exact bit
  seq := by
    rw [only.rest]
  calls := by
    rw [only.history]
    exact ⟨rfl, rfl⟩

theorem fewer_deliverIrq (k : Ipc) (receiver : ThreadId) (irq : Irq) : Fewer k (k.deliverIrq receiver irq) := by
  refine fewer_lines (linesOnly_deliverIrq k receiver irq) (fun j => ?_)
    (irqSetPending_high (k.writeRecv receiver) irq false)
  obtain ⟨line, bit⟩ := irqSetPending_spec (k.writeRecv receiver) irq false j
  change ((update ((k.writeRecv receiver).irqSetPending irq false).irqs irq _ j).port = _ ∧
    (update ((k.writeRecv receiver).irqSetPending irq false).irqs irq _ j).pending = _ ∧
    ((k.writeRecv receiver).irqSetPending irq false).irqPendingMask.getLsbD j.val = _) ∨
    ((update ((k.writeRecv receiver).irqSetPending irq false).irqs irq _ j).pending = false ∧
    ((k.writeRecv receiver).irqSetPending irq false).irqPendingMask.getLsbD j.val = false)
  by_cases same : j = irq
  · rw [if_pos same] at line bit
    subst same
    rw [update_self, line]
    exact Or.inr ⟨rfl, bit⟩
  · rw [if_neg same] at line bit
    rw [update_of_ne same, line]
    exact Or.inl ⟨rfl, rfl, bit⟩

theorem fewer_irqRelease (k : Ipc) (irq : Irq) : Fewer k (k.irqRelease irq) := by
  refine fewer_lines (linesOnly_irqRelease k irq) (fun j => ?_) (irqSetPending_high _ irq false)
  generalize freed : ({ k with
    irqs := update k.irqs irq { k.irqs irq with owner := none, port := none } } : Ipc) = k₁
  obtain ⟨line, bit⟩ := irqSetPending_spec k₁ irq false j
  have mask : k₁.irqPendingMask = k.irqPendingMask := by
    rw [← freed]
  have released : k.irqRelease irq = { k₁.irqSetPending irq false with
      irqs := update (k₁.irqSetPending irq false).irqs irq
        { (k₁.irqSetPending irq false).irqs irq with delivered := false } } := by
    rw [← freed]
    rfl
  rw [released]
  dsimp only
  by_cases same : j = irq
  · rw [if_pos same] at line bit
    subst same
    rw [update_self, line]
    exact Or.inr ⟨rfl, bit⟩
  · rw [if_neg same] at line bit
    have before : k₁.irqs j = k.irqs j := by
      rw [← freed]
      exact update_of_ne same ..
    rw [update_of_ne same, line, before, bit, mask]
    exact Or.inl ⟨rfl, rfl, rfl⟩

theorem fewer_irqBind (k : Ipc) (proc : ProcId) (irq h : Word) : Fewer k (k.irqBind proc irq h).2 := by
  have only := irqBind_lines k proc irq h
  unfold irqBind at only ⊢
  split
  · exact Fewer.refl k
  · next line access =>
      rw [access] at only
      dsimp only at only
      split
      · next p entry found =>
          rw [found] at only
          dsimp only at only
          split
          · exact Fewer.refl k
          · next owned =>
              rw [if_neg owned] at only
              refine fewer_lines only (fun j => ?_) (irqSetPending_high _ line false)
              generalize bound : ({ k with
                irqs := update k.irqs line { k.irqs line with owner := some proc, port := some entry } } : Ipc)
                  = k₁
              obtain ⟨at_, bit⟩ := irqSetPending_spec k₁ line false j
              have mask : k₁.irqPendingMask = k.irqPendingMask := by
                rw [← bound]
              dsimp only
              by_cases same : j = line
              · rw [if_pos same] at at_ bit
                subst same
                rw [update_self, at_]
                exact Or.inr ⟨rfl, bit⟩
              · rw [if_neg same] at at_ bit
                have before : k₁.irqs j = k.irqs j := by
                  rw [← bound]
                  exact update_of_ne same ..
                rw [update_of_ne same, at_, before, bit, mask]
                exact Or.inl ⟨rfl, rfl, rfl⟩
      · exact Fewer.refl k

/-- A line that fires is pending where nobody waits, or somebody has it. -/
theorem Awaited.irqNotify (awaited : Awaited fresh k) (irq : Irq) :
    Awaited fresh (k.irqNotify irq) := by
  rcases irqNotify_cases k irq with same | ⟨p, port, ⟨nobody, same⟩ | ⟨t, found, woken⟩⟩
  · rw [same]
    exact awaited
  · rw [same]
    have spec := irqSetPending_spec k irq true
    have only := linesOnly_irqSetPending k irq true
    have ports : ∀ j, ((k.irqSetPending irq true).irqs j).port = (k.irqs j).port := by
      intro j
      rw [(spec j).1]
      split
      · next here => rw [here]
      · rfl
    refine ⟨⟨fun t q waits j bound => ?_, fun t q => awaited.noLost.gone t q, fun t q => awaited.noLost.callers t q⟩,
      ⟨fun j => ?_, fun i beyond => (irqSetPending_high k irq true i beyond).trans (awaited.masked.high i beyond),
        awaited.masked.ports, awaited.masked.senders⟩, ?_⟩
    · have other : j ≠ irq := by
        rintro rfl
        rw [ports, port] at bound
        cases bound
        have none := findReceiver_none nobody t
        rw [none] at waits
        cases waits
      rw [ports] at bound
      rw [(spec j).1, if_neg other]
      exact awaited.noLost.lines t q ((only.waitsAt t .recv q).symm.trans waits) j bound
    · rw [(spec j).1, (spec j).2]
      split
      · rfl
      · exact awaited.masked.lines j
    · exact ⟨awaited.sequenced.next, awaited.sequenced.number, awaited.sequenced.apart⟩
  · rw [woken]
    generalize pended : k.irqSetPending irq true = pending
    have only : LinesOnly k (pending.deliverIrq t irq) := by
      rw [← pended]
      exact (linesOnly_irqSetPending k irq true).trans (linesOnly_deliverIrq _ t irq)
    have delivered : Fewer k (pending.deliverIrq t irq) := by
      have high : ∀ i, 16 ≤ i -> (pending.deliverIrq t irq).irqPendingMask.getLsbD i = k.irqPendingMask.getLsbD i := by
        intro i beyond
        have set := irqSetPending_high k irq true i beyond
        rw [pended] at set
        exact (irqSetPending_high (pending.writeRecv t) irq false i beyond).trans set
      refine fewer_lines only (fun j => ?_) high
      obtain ⟨line, bit⟩ := irqSetPending_spec (pending.writeRecv t) irq false j
      obtain ⟨before, bits⟩ := irqSetPending_spec k irq true j
      rw [pended] at before bits
      change ((update ((pending.writeRecv t).irqSetPending irq false).irqs irq _ j).port = _ ∧
        (update ((pending.writeRecv t).irqSetPending irq false).irqs irq _ j).pending = _ ∧
        ((pending.writeRecv t).irqSetPending irq false).irqPendingMask.getLsbD j.val = _) ∨
        ((update ((pending.writeRecv t).irqSetPending irq false).irqs irq _ j).pending = false ∧
        ((pending.writeRecv t).irqSetPending irq false).irqPendingMask.getLsbD j.val = false)
      by_cases same : j = irq
      · rw [if_pos same] at line bit
        subst same
        rw [update_self, line]
        exact Or.inr ⟨rfl, bit⟩
      · rw [if_neg same] at line bit before bits
        have still : (pending.writeRecv t).irqs j = k.irqs j := before
        have mask : (pending.writeRecv t).irqPendingMask.getLsbD j.val = k.irqPendingMask.getLsbD j.val := bits
        rw [update_of_ne same, line, still, bit, mask]
        exact Or.inl ⟨rfl, rfl, rfl⟩
    exact (awaited.fewer delivered).fewer (fewer_wake _ t fndOk)

/-! ## Lists -/

theorem fewer_deliverGone (k : Ipc) (receiver : ThreadId) (p : PortId) : Fewer k (k.deliverGone receiver p) := by
  unfold deliverGone
  cases first : k.gone.head p with
  | none => exact Fewer.refl k
  | some c =>
    refine fewer_waits (fun t blocked _ => ⟨blocked, rfl, rfl, rfl⟩) rfl rfl (fun q none => ?_) rfl rfl ⟨rfl, rfl⟩
    have other : q ≠ p := by
      rintro rfl
      rw [first] at none
      cases none
    exact (update_of_ne other ..).trans none

theorem fewer_portCreate (k : Ipc) (proc : ProcId) : Fewer k (k.portCreate proc).2 := by
  have cleared : ∀ p q, k.gone.head q = none -> (k.gone.clear p).head q = none := by
    intro p q none
    unfold Bank.clear
    dsimp only
    by_cases same : q = p
    · rw [same, update_self]
    · rw [update_of_ne same]
      exact none
  rcases portCreate_cases k proc with ⟨error, failed⟩ | ⟨p, _, ⟨error, failed⟩ | ⟨i, _, made⟩⟩
  · rw [failed]
    exact Fewer.refl k
  · rw [failed]
    exact fewer_waits (fun t blocked _ => ⟨blocked, rfl, rfl, rfl⟩) rfl rfl (cleared p) rfl rfl ⟨rfl, rfl⟩
  · rw [made]
    exact fewer_waits (fun t blocked _ => ⟨blocked, rfl, rfl, rfl⟩) rfl rfl (cleared p) rfl rfl ⟨rfl, rfl⟩

theorem fewer_newChannel (k : Ipc) (proc : ProcId) (port : Option PortId) (badge : Word) :
    Fewer k (k.newChannel proc port badge).2 := by
  rcases newChannel_cases k proc port badge with ⟨error, failed⟩ | ⟨c, _, ⟨error, failed⟩ | ⟨i, _, made⟩⟩
  · rw [failed]
    exact Fewer.refl k
  · rw [failed]
    exact fewer_waits (fun t blocked _ => ⟨blocked, rfl, rfl, rfl⟩) rfl rfl (fun _ none => none) rfl rfl ⟨rfl, rfl⟩
  · rw [made]
    exact fewer_waits (fun t blocked _ => ⟨blocked, rfl, rfl, rfl⟩) rfl rfl (fun _ none => none) rfl rfl ⟨rfl, rfl⟩

/-! ## Every move -/

/-- A thread comes to wait in RECV where there is nothing to take. -/
theorem Awaited.receive (awaited : Awaited fresh k) (runs : (k.thread t).state = .running)
    (irqs : k.pendingIrq p = none) (gone : k.gone.head p = none) (callers : (k.nextCaller p).1 = none)
    (timeout : Word) :
    Awaited fresh ((k.modifyThread t fun thread => { thread with port := some p }).block t .recv timeout) := by
  have threads := receive_thread k t p timeout
  generalize placed : (k.modifyThread t fun thread => { thread with port := some p }).block t .recv timeout = next
    at threads ⊢
  have sames : next.irqs = k.irqs ∧ next.irqPendingMask = k.irqPendingMask ∧ next.gone = k.gone ∧
      next.sendBlocked = k.sendBlocked ∧ next.nextSeq = k.nextSeq ∧ next.history = k.history := by
    rw [← placed]
    exact ⟨rfl, rfl, rfl, rfl, rfl, rfl⟩
  obtain ⟨lines, mask, lists, senders, seq, history⟩ := sames
  have others : ∀ u, u ≠ t -> next.thread u = k.thread u := by
    intro u other
    rw [threads, update_of_ne other]
  have waits : ∀ u reason q, u ≠ t -> next.waitsAt u reason q = k.waitsAt u reason q := by
    intro u reason q other
    unfold waitsAt
    rw [others u other]
  have self : (next.thread t).reason = .recv ∧ (next.thread t).port = some p := by
    rw [threads, update_self]
    exact ⟨rfl, rfl⟩
  have sends : ∀ u, (next.thread u).state = .blocked -> (next.thread u).reason = .send -> u ≠ t := by
    rintro u _ sends rfl
    rw [self.1] at sends
    cases sends
  have callers' : ∀ u q, next.waitsAt u .send q = true -> k.waitsAt u .send q = true := by
    intro u q waiting
    obtain ⟨blocked, sending, _⟩ := waitsAt_iff.mp waiting
    rw [waits u .send q (sends u blocked sending)] at waiting
    exact waiting
  have receives : ∀ u q, next.waitsAt u .recv q = true -> k.waitsAt u .recv q = true ∨ q = p := by
    intro u q waiting
    by_cases same : u = t
    · right
      have port := (waitsAt_iff.mp waiting).2.2
      rw [same, self.2] at port
      exact (Option.some.inj port).symm
    · rw [waits u .recv q same] at waiting
      exact Or.inl waiting
  obtain ⟨noLost, masked, sequenced⟩ := awaited
  refine ⟨⟨fun u q waiting irq bound => ?_, fun u q waiting => ?_, fun u q waiting v sending => ?_⟩,
    ⟨fun irq => ?_, fun i beyond => ?_, fun u blocked sending => ?_, fun u q waiting => ?_⟩,
    ⟨?_, fun u blocked sending => ?_, fun u v blocked sending blocked' sending' => ?_⟩⟩
  · rw [lines] at bound ⊢
    rcases receives u q waiting with before | here
    · exact noLost.lines u q before irq bound
    · rw [← Bool.not_eq_true]
      intro pending
      unfold pendingIrq at irqs
      have bit := masked.lines irq
      rw [pending] at bit
      split at irqs
      · next empty =>
          rw [empty, show (0 : Word) = 0#32 from rfl, BitVec.getLsbD_zero] at bit
          cases bit
      · have none := List.find?_eq_none.mp irqs irq (List.mem_finRange irq)
        rw [bound, here, pending, Bool.and_true, decide_eq_true_iff] at none
        exact none rfl
  · rw [lists]
    rcases receives u q waiting with before | here
    · exact noLost.gone u q before
    · rw [here]
      exact gone
  · have caller := callers' v q sending
    rcases receives u q waiting with before | here
    · exact noLost.callers u q before v caller
    · rw [here] at caller
      exact absurd ⟨masked.senders v p caller, caller⟩ (nextCaller_none.mp callers v)
  · rw [lines, mask]
    exact masked.lines irq
  · rw [mask]
    exact masked.high i beyond
  · have same := others u (sends u blocked sending)
    rw [same] at blocked sending ⊢
    exact masked.ports u blocked sending
  · rw [senders]
    exact masked.senders u q (callers' u q waiting)
  · rw [seq, history]
    exact sequenced.next
  · have same := others u (sends u blocked sending)
    rw [same] at blocked sending ⊢
    rw [history]
    exact sequenced.number u blocked sending
  · have same := others u (sends u blocked sending)
    have same' := others v (sends v blocked' sending')
    rw [same] at blocked sending
    rw [same'] at blocked' sending'
    rw [history]
    exact sequenced.apart u v blocked sending blocked' sending'

theorem Awaited.move (awaited : Awaited fresh k) (move : Move k next) : Awaited fresh next := by
  cases move with
  | quiet same => exact awaited.fewer same.fewer
  | wake _ _ result => exact awaited.fewer (fewer_wake k _ result)
  | @block t _ reason other timeout =>
    refine awaited.fewer (fewer_thread (Sched.block_threads k.sched t reason timeout) (fun _ => ⟨other.1, other.2.2⟩) rfl rfl
      (fun _ none => none) rfl rfl ⟨rfl, rfl⟩)
  | @die t _ code =>
    have threads := modifyThread_thread k t fun thread => { thread with exitCode := code, state := .dead }
    exact awaited.fewer (fewer_thread threads nofun rfl rfl (fun _ none => none) rfl rfl ⟨rfl, rfl⟩)
  | @makeReady t _ _ =>
    obtain ⟨priority, ready⟩ := makeReady_thread k t
    exact awaited.fewer (fewer_thread ready nofun rfl rfl (fun _ none => none) rfl rfl ⟨rfl, rfl⟩)
  | irqNotify irq => exact awaited.irqNotify irq
  | irqRelease irq => exact awaited.fewer (fewer_irqRelease k irq)
  | irqBind proc irq h => exact awaited.fewer (fewer_irqBind k proc irq h)
  | takeIrq receiver irq => exact awaited.fewer (fewer_deliverIrq k receiver irq)
  | @takeGone receiver p _ => exact awaited.fewer (fewer_deliverGone k receiver p)
  | @place p _ i _ o _ =>
    exact awaited.fewer ((recount_setHandle k p i (some o)).trans (recount_objRef _ o)).fewer
  | transfer _ _ _ => exact awaited.fewer (recount_transfer ..).fewer
  | @portCreate p _ => exact awaited.fewer (fewer_portCreate k p)
  | @newChannel p _ port _ badge => exact awaited.fewer (fewer_newChannel k p port badge)
  | retune _ _ | register _ _ _ =>
    exact awaited.fewer
      (fewer_waits (fun t blocked _ => ⟨blocked, rfl, rfl, rfl⟩) rfl rfl (fun _ none => none) rfl rfl ⟨rfl, rfl⟩)
  | @accept receiver caller _ _ p _ =>
    have away : Reason.reply ≠ .send ∧ Reason.reply ≠ .recv := by decide
    exact awaited.fewer (fewer_thread (acceptCall_thread k receiver caller) (fun _ => away) rfl rfl
      (fun _ none => none) rfl rfl ⟨rfl, rfl⟩)
  | receive runs _ irqs gone callers timeout => exact awaited.receive runs irqs gone callers timeout
  | @answer t caller _ token _ msg =>
    have threads := answerCall_thread k t caller msg
    exact awaited.fewer (fewer_thread threads nofun rfl rfl (fun _ none => none) rfl rfl ⟨rfl, rfl⟩)
  | @startProc p t _ _ _ priority =>
    obtain ⟨clamped, threads⟩ := startProc_thread k p t priority
    exact awaited.fewer (fewer_thread threads nofun rfl rfl (fun _ none => none) rfl rfl ⟨rfl, rfl⟩)

theorem Awaited.moves (awaited : Awaited fresh k) (path : Moves k next) : Awaited fresh next :=
  path.invariant awaited fun _ _ holds move => holds.move move

/-! ## Sending -/

/-- The call that is sent is the only one that may meet a receiver. -/
theorem Awaited.sendCall (awaited : Awaited none k) (runs : (k.thread t).state = .running) (msg : Msg)
    (rep buf cap : Word) : Awaited (some (t, p)) (k.sendCall t c p msg rep buf cap) := by
  have threads := sendCall_thread k t c p msg rep buf cap
  have queued := sendCall_queued k t c p msg rep buf cap
  generalize sent : k.sendCall t c p msg rep buf cap = next at threads queued ⊢
  have sames : next.irqs = k.irqs ∧ next.irqPendingMask = k.irqPendingMask ∧ next.gone = k.gone ∧
      next.sendBlocked = k.sendBlocked ||| (1 : Word) <<< t.val ∧ next.nextSeq = k.nextSeq + 1 ∧
      next.history.calls = k.history.calls + 1 ∧
      next.history.call = update k.history.call t (k.history.calls + 1) := by
    rw [← sent]
    exact ⟨rfl, rfl, rfl, rfl, rfl, rfl, rfl⟩
  obtain ⟨lines, mask, lists, senders, seq, calls, call⟩ := sames
  have others : ∀ u, u ≠ t -> next.thread u = k.thread u := by
    intro u other
    rw [threads, update_of_ne other]
  have waits : ∀ u reason q, u ≠ t -> next.waitsAt u reason q = k.waitsAt u reason q := by
    intro u reason q other
    unfold waitsAt
    rw [others u other]
  have receives : ∀ u q, next.waitsAt u .recv q = true -> k.waitsAt u .recv q = true := by
    intro u q waiting
    have other : u ≠ t := by
      rintro rfl
      have sends := (waitsAt_iff.mp queued.2).2.1
      rw [(waitsAt_iff.mp waiting).2.1] at sends
      cases sends
    rw [waits u .recv q other] at waiting
    exact waiting
  have self : (next.thread t).port = some p ∧ (next.thread t).seq = k.nextSeq + 1 := by
    rw [threads, update_self]
    exact ⟨rfl, rfl⟩
  have number : k.nextSeq + 1 = BitVec.ofNat 32 (k.history.calls + 1) := by
    rw [awaited.sequenced.next, BitVec.ofNat_add]
    rfl
  obtain ⟨noLost, masked, sequenced⟩ := awaited
  refine ⟨⟨fun u q waiting irq bound => ?_, fun u q waiting => ?_, fun u q waiting v sending => ?_⟩,
    ⟨fun irq => ?_, fun i beyond => ?_, fun u blocked sending => ?_, fun u q waiting => ?_⟩,
    ⟨?_, fun u blocked sending => ?_, fun u v blocked sending blocked' sending' same => ?_⟩⟩
  · rw [lines] at bound ⊢
    exact noLost.lines u q (receives u q waiting) irq bound
  · rw [lists]
    exact noLost.gone u q (receives u q waiting)
  · by_cases here : v = t
    · have port := (waitsAt_iff.mp sending).2.2
      rw [here, self.1] at port
      cases port
      rw [here]
    · rw [waits v .send q here] at sending
      cases noLost.callers u q (receives u q waiting) v sending
  · rw [lines, mask]
    exact masked.lines irq
  · rw [mask]
    exact masked.high i beyond
  · by_cases here : u = t
    · exact ⟨p, here ▸ self.1⟩
    · rw [others u here] at blocked sending ⊢
      exact masked.ports u blocked sending
  · rw [senders, Word.bit_set _ (Nat.lt_trans u.isLt (by decide)), Bool.or_eq_true]
    by_cases here : u = t
    · exact Or.inr (decide_eq_true (congrArg Fin.val here))
    · rw [waits u .send q here] at waiting
      exact Or.inl (masked.senders u q waiting)
  · rw [seq, calls]
    exact number
  · rw [calls, call]
    by_cases here : u = t
    · rw [here, self.2, update_self]
      exact ⟨number, Nat.le_refl _⟩
    · rw [others u here] at blocked sending ⊢
      rw [update_of_ne here]
      obtain ⟨low, most⟩ := sequenced.number u blocked sending
      exact ⟨low, Nat.le_succ_of_le most⟩
  · rw [call] at same
    by_cases here : u = t <;> by_cases there : v = t
    · rw [here, there]
    · rw [here, update_self, update_of_ne there] at same
      rw [others v there] at blocked' sending'
      have most := (sequenced.number v blocked' sending').2
      omega
    · rw [there, update_self, update_of_ne here] at same
      rw [others u here] at blocked sending
      have most := (sequenced.number u blocked sending).2
      omega
    · rw [update_of_ne here, update_of_ne there] at same
      rw [others u here] at blocked sending
      rw [others v there] at blocked' sending'
      exact sequenced.apart u v blocked sending blocked' sending' same

/-- A call that is settled is no longer an exception. -/
theorem Awaited.settled {sent : Ipc} (before : Awaited (some (t, p)) sent) (after : Awaited (some (t, p)) next)
    (settled : Settled sent next p) : Awaited none next := by
  refine ⟨⟨after.noLost.lines, after.noLost.gone, fun u q waits v sends => ?_⟩, after.masked, after.sequenced⟩
  have fresh := after.noLost.callers u q waits v sends
  cases fresh
  rcases settled with nobody | ⟨⟨r, receives⟩, (line | list) | ⟨w, sent, left⟩⟩
  · rw [nobody u] at waits
    cases waits
  · refine absurd ?_ line
    unfold pendingIrq
    split
    · rfl
    · rw [List.find?_eq_none]
      intro irq _ pending
      rw [Bool.and_eq_true, decide_eq_true_iff] at pending
      rw [before.noLost.lines r p receives irq pending.1] at pending
      cases pending.2
  · exact absurd (before.noLost.gone r p receives) list
  · have same := before.noLost.callers r p receives w sent
    cases same
    rw [left] at sends
    cases sends

/-! ## Closing -/

/-- A port in use without a first CLIENT_GONE has no last one. -/
theorem Counted.noTail (counted : k.Counted) (used : (k.ports p).used = true) (empty : k.gone.head p = none) :
    k.gone.tail p = none := by
  obtain ⟨items, holds, _⟩ := counted.gone
  have head : (k.gone.within fun p => (k.ports p).used).head p = none := (if_pos used).trans empty
  have tail : (k.gone.within fun p => (k.ports p).used).tail p = k.gone.tail p := if_pos used
  rw [← tail, holds.tail p]
  rw [holds.head_eq p, List.head?_eq_none_iff] at head
  rw [head]
  rfl

/-- A CLIENT_GONE that is listed is with a waiting receiver at once. -/
theorem fewer_listed (c : ChanId) (head : k.gone.head p = none) (tail : k.gone.tail p = none) (t : ThreadId) :
    Fewer k ((k.listGone c p).deliverGone t p) := by
  have pushed : (k.listGone c p).gone.head = update k.gone.head p (some c) ∧
      (k.listGone c p).gone.next c = none := by
    unfold listGone note Bank.pushBack
    dsimp only
    rw [tail]
    exact ⟨rfl, update_self ..⟩
  have first : (k.listGone c p).gone.head p = some c := by
    rw [pushed.1, update_self]
  have lists : ((k.listGone c p).deliverGone t p).gone.head = k.gone.head := by
    have dropped : ((k.listGone c p).deliverGone t p).gone = (k.listGone c p).gone.dropFront p c := by
      unfold deliverGone
      rw [first]
      rfl
    rw [dropped]
    unfold Bank.dropFront
    dsimp only
    rw [pushed.1, pushed.2, Function.update_idem, ← head, Function.update_eq_self]
  have rest : ((k.listGone c p).deliverGone t p).irqs = k.irqs ∧
      ((k.listGone c p).deliverGone t p).irqPendingMask = k.irqPendingMask ∧
      ((k.listGone c p).deliverGone t p).sendBlocked = k.sendBlocked ∧
      ((k.listGone c p).deliverGone t p).nextSeq = k.nextSeq ∧
      ((k.listGone c p).deliverGone t p).history.calls = k.history.calls ∧
      ((k.listGone c p).deliverGone t p).history.call = k.history.call := by
    unfold deliverGone
    rw [first]
    exact ⟨rfl, rfl, rfl, rfl, rfl, rfl⟩
  obtain ⟨irqs, mask, senders, seq, calls⟩ := rest
  refine fewer_waits (fun u blocked reason => ?_) irqs mask (fun q none => ?_) senders seq calls
  · rw [deliverGone_thread] at blocked reason ⊢
    exact ⟨blocked, rfl, rfl, rfl⟩
  · rw [lists]
    exact none

/-- Where nobody waits a CLIENT_GONE is listed. -/
theorem Awaited.listGone (awaited : Awaited fresh k) (nobody : ∀ t, k.waitsAt t .recv p = false) (c : ChanId) :
    Awaited fresh (k.listGone c p) := by
  obtain ⟨noLost, masked, sequenced⟩ := awaited
  refine ⟨⟨noLost.lines, fun t q waits => ?_, noLost.callers⟩, ⟨masked.lines, masked.high, masked.ports, masked.senders⟩,
    ⟨sequenced.next, sequenced.number, sequenced.apart⟩⟩
  have before : k.waitsAt t .recv q = true := waits
  have other : q ≠ p := by
    rintro rfl
    rw [nobody t] at before
    cases before
  have same : (k.listGone c p).gone.head q = k.gone.head q := by
    unfold Ipc.listGone note Bank.pushBack
    dsimp only
    cases k.gone.tail p with
    | some last => rfl
    | none => exact update_of_ne other ..
  rw [same]
  exact noLost.gone t q before

theorem Awaited.closeIx (awaited : Awaited fresh k) (counted : k.Counted) (proc : ProcId) (i : HandleIx) :
    Awaited fresh (closeIx proc k i) := by
  rcases closeIx_cases k proc i with ⟨_, same⟩ | ⟨o, named, ⟨done, _⟩ | ⟨q, _, _, done⟩ | ⟨c, chan, _, done⟩⟩
  · rw [same]
    exact awaited
  · rw [done]
    exact awaited.fewer (recount_less k proc i o).fewer
  · rw [done]
    have less := awaited.fewer (recount_less k proc i o).fewer
    have destroyed := portDestroy_spec (k.less proc i o) q
    generalize (k.less proc i o).portDestroy q = next at destroyed ⊢
    obtain ⟨lined, path, only, irqs, mask⟩ := destroyed.lines
    refine (less.moves path).fewer (fewer_waits (fun t blocked _ => ?_) irqs mask (fun r none => ?_) ?_ ?_ ?_)
    · by_cases here : (k.less proc i o).AtPort t q
      · rw [destroyed.woken t here] at blocked
        cases blocked
      · have same : next.thread t = lined.thread t := by
          rw [destroyed.away t here, only.thread]
        rw [same] at blocked ⊢
        exact ⟨blocked, rfl, rfl, rfl⟩
    · rw [only.rest] at none
      rw [destroyed.gone]
      exact none
    · rw [destroyed.senders, only.rest]
    · rw [destroyed.seq, only.rest]
    · rw [destroyed.history, only.history]
      exact ⟨rfl, rfl⟩
  · rw [done]
    have less := awaited.fewer (recount_less k proc i o).fewer
    rcases chanLastClosed_cases (k.less proc i o) c with ⟨_, freed⟩ | ⟨q, _, port, ⟨nobody, listed⟩ | ⟨t, found, woken⟩⟩
    · rw [freed]
      exact less.fewer
        (fewer_waits (fun t blocked _ => ⟨blocked, rfl, rfl, rfl⟩) rfl rfl (fun _ none => none) rfl rfl ⟨rfl, rfl⟩)
    · rw [listed]
      exact less.listGone (findReceiver_none nobody) c
    · rw [woken]
      have waits : (k.less proc i o).waitsAt t .recv q = true := findReceiver_some found
      have recount := recount_less k proc i o
      have used : (k.ports q).used = true := by
        refine counted.waits t q (Or.inr (Or.inr ?_))
        rw [← recount.waitsAt]
        exact waits
      have head := less.noLost.gone t q waits
      have tail : (k.less proc i o).gone.tail q = none := by
        rw [recount.gone] at head ⊢
        exact counted.noTail used head
      exact (less.fewer (fewer_listed c head tail t)).fewer (fewer_wake _ t fndOk)

theorem fewer_killed (k : Ipc) (p : ProcId) : Fewer k (k.killed p) := by
  refine fewer_waits (fun t blocked _ => ?_) rfl rfl (fun _ none => none) rfl rfl ⟨rfl, rfl⟩
  have same := (killed_active (Thread.active_blocked blocked)).1
  rw [same] at blocked ⊢
  exact ⟨blocked, rfl, rfl, rfl⟩

theorem Awaited.procExit (awaited : Awaited fresh k) (counted : k.Counted) (p : ProcId) (code : Word) :
    Awaited fresh (k.procExit p code) := by
  rcases procExit_cases k p code with ⟨_, same⟩ | ⟨_, unbound, woken, lines, only, path, _, done⟩
  · rw [same]
    exact awaited
  · have unboundCounts := (counted.killed p).lines only
    have ended := unboundCounts.ended ((quiesced_killed k p).lines only) code
    have waits : Awaited fresh (unbound.ended p code) :=
      ((awaited.fewer (fewer_killed k p)).moves lines).fewer
        (fewer_waits (fun t blocked _ => ⟨blocked, rfl, rfl, rfl⟩) rfl rfl (fun _ none => none) rfl rfl ⟨rfl, rfl⟩)
    have closed : Awaited fresh ((unbound.ended p code).handleCloseAll p) ∧
        ((unbound.ended p code).handleCloseAll p).Counted :=
      closeAll_invariant (motive := fun k => Awaited fresh k ∧ k.Counted) p (List.finRange 63) ⟨waits, ended⟩
        fun _ i holds => ⟨holds.1.closeIx holds.2 p i, holds.2.closeIx p i⟩
    rw [done]
    exact (closed.1.moves path).fewer (recount_maybeFree woken p).fewer

theorem Awaited.trail (awaited : Awaited none k) (counted : k.Counted) (trail : Trail k next) : Awaited none next := by
  cases trail with
  | moves path => exact awaited.moves path
  | @call _ runs c _ _ p _ msg rep buf cap _ path settled =>
    have sent := awaited.sendCall (c := c) (p := p) runs msg rep buf cap
    exact sent.settled (sent.moves path) settled
  | close p i rest => exact (awaited.closeIx counted p i).fewer rest.fewer
  | exit p code rest => exact (awaited.procExit counted p code).fewer rest.fewer

theorem awaited_boot : Awaited none boot := by
  have nobody : ∀ t reason p, boot.waitsAt t reason p = false := fun _ _ _ => rfl
  refine ⟨⟨fun t p waits => ?_, fun t p waits => ?_, fun t p waits => ?_⟩, ⟨fun irq => ?_, fun i _ => ?_, fun t blocked => ?_,
    fun t p waits => ?_⟩, ⟨rfl, fun t blocked => ?_, fun t u blocked => ?_⟩⟩
  · rw [nobody] at waits
    cases waits
  · rw [nobody] at waits
    cases waits
  · rw [nobody] at waits
    cases waits
  · exact BitVec.getLsbD_zero
  · exact BitVec.getLsbD_zero
  · cases blocked
  · rw [nobody] at waits
    cases waits
  · cases blocked
  · cases blocked

theorem awaited_of_reachable (reached : (machine.within Spawns).Reachable k) : Awaited none k ∧ k.Consistent := by
  refine reached.invariant (motive := fun k => Awaited none k ∧ k.Consistent) (fun start begins => ?_)
    fun first action second holds step => ?_
  · cases begins
    exact ⟨awaited_boot, consistent_boot⟩
  · have trail := trail_of_step holds.2.counted.grounded step.1 step.2
    exact ⟨holds.1.trail holds.2.counted trail, holds.2.trail trail⟩

end Src32.Kernel.Ipc
