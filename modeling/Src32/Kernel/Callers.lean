import Src32.Kernel.Moves
import Src32.Machine.Serial

namespace Src32.Kernel.Ipc

/-!
# Callers

Which caller `next_caller` finds, and what the loop of `take_next` over the
callers of a port does.
-/

variable {k : Ipc} {t : ThreadId} {p : PortId}

/-- A caller of the port that the mask knows of. -/
def Queued (k : Ipc) (p : PortId) (t : ThreadId) : Prop :=
  k.sendBlocked.getLsbD t.val = true ∧ k.waitsAt t .send p = true

/-- The callers of a port carry the low bits of these numbers, which are less
than half the range of a word apart. -/
def Numbered (k : Ipc) (p : PortId) (number : ThreadId -> Nat) : Prop :=
  ∀ t u, k.Queued p t -> k.Queued p u ->
    (k.thread t).seq = BitVec.ofNat 32 (number t) ∧ number t < number u + 2 ^ 31

/-- What the scan of `next_caller` has found among the threads it has seen. -/
structure Scanned (k : Ipc) (p : PortId) (seen : List ThreadId) (found : Option ThreadId × Word) : Prop where
  queued : ∀ t, found.1 = some t -> t ∈ seen ∧ k.Queued p t
  nobody : found.1 = none -> ∀ t ∈ seen, ¬ k.Queued p t
  first : ∀ number, k.Numbered p number -> ∀ best, found.1 = some best -> ∀ t ∈ seen, k.Queued p t ->
    number best ≤ number t
  senders : ∀ t, (k.thread t).state = .blocked -> (k.thread t).reason = .send ->
    k.sendBlocked.getLsbD t.val = true -> found.2.getLsbD t.val = true
  fewer : ∀ t : ThreadId, found.2.getLsbD t.val = true -> k.sendBlocked.getLsbD t.val = true

variable {found : Option ThreadId × Word} {seen : List ThreadId}

/-- A thread that is no caller of the port changes nothing but the mask. -/
theorem Scanned.pass (scanned : Scanned k p seen found) {bits : Word} (idle : ¬ k.Queued p t)
    (kept : ∀ u, (k.thread u).state = .blocked -> (k.thread u).reason = .send ->
      found.2.getLsbD u.val = true -> bits.getLsbD u.val = true)
    (less : ∀ u : ThreadId, bits.getLsbD u.val = true -> found.2.getLsbD u.val = true) :
    Scanned k p (seen ++ [t]) (found.1, bits) where
  queued := fun u here => ⟨List.mem_append_left _ (scanned.queued u here).1, (scanned.queued u here).2⟩
  nobody := by
    intro none u member
    rcases List.mem_append.mp member with early | last
    · exact scanned.nobody none u early
    · rw [List.mem_singleton.mp last]
      exact idle
  first := by
    intro number numbered best here u member queued
    rcases List.mem_append.mp member with early | last
    · exact scanned.first number numbered best here u early queued
    · rw [List.mem_singleton.mp last] at queued
      exact absurd queued idle
  senders := fun u blocked sends bit => kept u blocked sends (scanned.senders u blocked sends bit)
  fewer := fun u bit => scanned.fewer u (less u bit)

/-- A caller that comes before all seen so far is taken. -/
theorem Scanned.take (scanned : Scanned k p seen found) (queued : k.Queued p t)
    (before : ∀ number, k.Numbered p number -> ∀ u ∈ seen, k.Queued p u -> number t ≤ number u) :
    Scanned k p (seen ++ [t]) (some t, found.2) where
  queued := by
    intro u same
    cases same
    exact ⟨List.mem_append_right _ List.mem_cons_self, queued⟩
  nobody := nofun
  first := by
    intro number numbered u same v member waits
    cases same
    rcases List.mem_append.mp member with early | last
    · exact before number numbered v early waits
    · rw [List.mem_singleton.mp last]
  senders := scanned.senders
  fewer := scanned.fewer

/-- A caller that comes behind the one found is passed. -/
theorem Scanned.keep (scanned : Scanned k p seen found) {best : ThreadId} (here : found.1 = some best)
    (behind : ∀ number, k.Numbered p number -> k.Queued p t -> number best ≤ number t) :
    Scanned k p (seen ++ [t]) found where
  queued := fun u same => ⟨List.mem_append_left _ (scanned.queued u same).1, (scanned.queued u same).2⟩
  nobody := by
    intro none
    rw [here] at none
    cases none
  first := by
    intro number numbered u same v member waits
    rw [here] at same
    cases same
    rcases List.mem_append.mp member with early | last
    · exact scanned.first number numbered best here v early waits
    · rw [List.mem_singleton.mp last] at waits ⊢
      exact behind number numbered waits
  senders := scanned.senders
  fewer := scanned.fewer

/-- The sign of the difference tells which of two callers comes first. -/
theorem Numbered.before {number : ThreadId -> Nat} (numbered : k.Numbered p number) {u : ThreadId}
    (queued : k.Queued p t) (other : k.Queued p u) :
    ((k.thread t).seq - (k.thread u).seq).msb = decide (number t < number u) := by
  obtain ⟨own, near⟩ := numbered t u queued other
  obtain ⟨theirs, close⟩ := numbered u t other queued
  rw [own, theirs]
  exact Word.serial_before near close

theorem Scanned.visit (scanned : Scanned k p seen found) (t : ThreadId) :
    Scanned k p (seen ++ [t]) (k.callerVisit p k.sendBlocked found t) := by
  unfold callerVisit
  split
  · next bit =>
      rw [Bool.not_eq_true'] at bit
      exact scanned.pass (fun queued => Bool.false_ne_true (bit.symm.trans queued.1)) (fun _ _ _ kept => kept) fun _ kept => kept
  · next bit =>
      rw [Bool.not_eq_true', Bool.not_eq_false] at bit
      split
      · next other =>
          rw [← not_and_or] at other
          refine scanned.pass (fun queued => ?_) (fun u blocked calls kept => ?_) fun u kept => ?_
          · obtain ⟨blocked, reason, _⟩ := waitsAt_iff.mp queued.2
            exact other ⟨blocked, reason⟩
          · rw [Word.bit_clear _ (Nat.lt_trans u.isLt (by decide)), kept, Bool.true_and, Bool.not_eq_true',
              decide_eq_false_iff_not]
            intro same
            rw [Fin.ext same] at blocked calls
            exact other ⟨blocked, calls⟩
          · rw [Word.bit_clear _ (Nat.lt_trans u.isLt (by decide)), Bool.and_eq_true] at kept
            exact kept.1
      · next sends =>
          rw [not_or, not_not, not_not] at sends
          cases best : found.1 with
          | none =>
            dsimp only
            rw [Bool.and_true]
            split
            · next here =>
                have queued : k.Queued p t :=
                  ⟨bit, waitsAt_iff.mpr ⟨sends.1, sends.2, of_decide_eq_true here⟩⟩
                exact scanned.take queued fun _ _ u member waits => absurd waits (scanned.nobody best u member)
            · next elsewhere =>
                rw [decide_eq_true_iff] at elsewhere
                have idle : ¬ k.Queued p t := fun queued => elsewhere (waitsAt_iff.mp queued.2).2.2
                exact scanned.pass idle (fun _ _ _ kept => kept) fun _ kept => kept
          | some b =>
            dsimp only
            have other := (scanned.queued b best).2
            split
            · next earlier =>
                rw [Bool.and_eq_true, decide_eq_true_iff] at earlier
                have queued : k.Queued p t := ⟨bit, waitsAt_iff.mpr ⟨sends.1, sends.2, earlier.1⟩⟩
                refine scanned.take queued fun number numbered u member waits => ?_
                have less := earlier.2
                rw [numbered.before queued other, decide_eq_true_iff] at less
                exact less.le.trans (scanned.first number numbered b best u member waits)
            · next later =>
                refine scanned.keep best fun number numbered queued => ?_
                rw [decide_eq_true (waitsAt_iff.mp queued.2).2.2, Bool.true_and, numbered.before queued other,
                  decide_eq_true_iff, Nat.not_lt] at later
                exact later

theorem scanned_foldl (items : List ThreadId) (scanned : Scanned k p seen found) :
    Scanned k p (seen ++ items) (items.foldl (k.callerVisit p k.sendBlocked) found) := by
  induction items generalizing seen found with
  | nil =>
    rw [List.append_nil]
    exact scanned
  | cons t rest ih =>
    have later := ih (scanned.visit t)
    rw [List.append_assoc] at later
    exact later

/-- `next_caller` only touches the mask. -/
theorem nextCaller_eq (k : Ipc) (p : PortId) :
    (k.nextCaller p).2 = { k with sendBlocked := (k.nextCaller p).2.sendBlocked } := by
  unfold nextCaller
  split <;> rfl

/-- `next_caller` looks at every thread. -/
theorem nextCaller_scanned (k : Ipc) (p : PortId) :
    Scanned k p (List.finRange 16) ((k.nextCaller p).1, (k.nextCaller p).2.sendBlocked) := by
  have begins : Scanned k p [] (none, k.sendBlocked) :=
    ⟨nofun, fun _ _ => nofun, nofun, fun _ _ _ bit => bit, fun _ bit => bit⟩
  unfold nextCaller
  split
  · next empty =>
      refine ⟨nofun, fun _ t _ queued => ?_, nofun, fun _ _ _ bit => bit, fun _ bit => bit⟩
      have bit := queued.1
      rw [empty, show (0 : Word) = 0#32 from rfl, BitVec.getLsbD_zero] at bit
      cases bit
  · exact scanned_foldl (List.finRange 16) begins

theorem nextCaller_some (found : (k.nextCaller p).1 = some t) : k.waitsAt t .send p = true :=
  ((nextCaller_scanned k p).queued t found).2.2

theorem nextCaller_none : (k.nextCaller p).1 = none ↔ ∀ t, ¬ k.Queued p t := by
  constructor
  · intro none t
    exact (nextCaller_scanned k p).nobody none t (List.mem_finRange t)
  · intro nobody
    cases found : (k.nextCaller p).1 with
    | none => rfl
    | some t => exact absurd ((nextCaller_scanned k p).queued t found).2 (nobody t)

theorem quiet_nextCaller (k : Ipc) (p : PortId) : Quiet k (k.nextCaller p).2 := by
  have senders := (nextCaller_scanned k p).senders
  dsimp only at senders
  rw [nextCaller_eq]
  refine ⟨fun _ => Thread.Alike.refl _, fun _ => rfl, fun _ => rfl, rfl, rfl, rfl, rfl, rfl, fun _ => rfl,
    fun _ => rfl, rfl, fun t p waits bit => ?_, rfl, rfl⟩
  obtain ⟨blocked, sends, _⟩ := waitsAt_iff.mp waits
  exact senders t blocked sends bit

end Src32.Kernel.Ipc
