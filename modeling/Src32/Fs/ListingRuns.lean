import Src32.Fs.ListingPeeks

namespace Src32.Fs

open Libfnd ByteFields

/-!
# Listings are complete

The loop of a call takes entries while they fit; calls in a row take all of them.
-/

section Server

variable {t : Casefold} {mounts : Nat -> Mount} {node : Node}

/-! ## Replies -/

variable (stat : Node -> {bytes : List Byte // bytes.length = 64})

theorem record_length (item : DirItem) : (record stat item).length = recordSize item := by
  unfold record
  rw [List.length_append, List.length_append, List.length_append, List.length_append, List.length_append, List.length_reverse,
    List.length_reverse, List.length_reverse, leBytes_length, leBytes_length, leBytes_length, (stat item.node).property,
    List.length_replicate]
  unfold recordSize direntHead
  omega

theorem recordSize_pos (item : DirItem) : 72 ≤ recordSize item := by
  unfold recordSize direntHead
  omega

/-- What a call does at a position: it shows a part of what remains, and stays where it
gives an error. -/
structure Answers (t : Casefold) (mounts : Nat -> Mount) (node : Node) (p : Position) (used : List Byte) (count : Nat)
    (next : Position) (reply : Reply) : Prop where
  shown : ∃ taken, remaining t mounts node p = taken ++ remaining t mounts node next ∧
    reply.data = used ++ taken.flatMap (record stat) ∧ reply.a0 = count + taken.length
  refused : reply.op ≠ .ok -> next = p ∧ count = 0
  finished : reply.op = .ok -> reply.a0 = 0 -> remaining t mounts node next = []

theorem fill_answers (fails : Nat -> Nat -> Failures) {cap n : Nat} {p : Position} {used : List Byte} {count : Nat}
    (enough : cap - used.length < n) (begins : count = 0 -> used = []) :
    ∃ next reply, fill t mounts node stat fails cap n p used count = some (next, reply) ∧
      Answers stat t mounts node p used count next reply := by
  induction n generalizing p used count with
  | zero => exact absurd enough (Nat.not_lt_zero _)
  | succ n ih =>
    obtain ⟨peek, runs, shows⟩ := @dirPeek_shows t mounts node (fails n) p
    unfold fill
    rw [runs]
    have stays : (count = 0 -> remaining t mounts node p = []) ->
        Answers stat t mounts node p used count p ⟨.ok, count, used⟩ := fun last =>
      ⟨⟨[], rfl, (List.append_nil used).symm, rfl⟩, fun bad => absurd rfl bad, fun _ => last⟩
    have refuses : ∀ {op : ReplyStatus}, op ≠ .ok -> count = 0 -> Answers stat t mounts node p used count p ⟨op, 0, []⟩ := by
      intro op bad zero
      refine ⟨⟨[], rfl, ?_, zero.symm⟩, fun _ => ⟨rfl, zero⟩, fun ok => absurd ok bad⟩
      rw [begins zero]
      rfl
    cases peek with
    | finished => exact ⟨_, _, rfl, stays fun _ => shows⟩
    | failed error =>
      dsimp only
      by_cases zero : count = 0
      · rw [if_pos zero]
        exact ⟨_, _, rfl, refuses ReplyStatus.noConfusion zero⟩
      · rw [if_neg zero]
        exact ⟨_, _, rfl, stays fun none => absurd none zero⟩
    | item item next =>
      dsimp only
      by_cases full : used.length + recordSize item > cap
      · rw [if_pos full]
        by_cases zero : count = 0
        · rw [if_pos zero]
          exact ⟨_, _, rfl, refuses ReplyStatus.noConfusion zero⟩
        · rw [if_neg zero]
          exact ⟨_, _, rfl, stays fun none => absurd none zero⟩
      · rw [if_neg full]
        have size := recordSize_pos item
        obtain ⟨after, reply, goes, answers⟩ := @ih next (used ++ record stat item) (count + 1)
          (by rw [List.length_append, record_length]; omega) (fun zero => absurd zero (Nat.succ_ne_zero count))
        refine ⟨after, reply, goes, ?_, ?_, ?_⟩
        · obtain ⟨taken, rest, data, a0⟩ := answers.shown
          refine ⟨item :: taken, ?_, ?_, ?_⟩
          · rw [show remaining t mounts node p = item :: remaining t mounts node next from shows, rest, List.cons_append]
          · rw [data, List.flatMap_cons, List.append_assoc]
          · rw [a0, List.length_cons]
            omega
        · exact fun bad => absurd (answers.refused bad).2 (Nat.succ_ne_zero count)
        · exact answers.finished

/-- A call that can read and has room for the next record gives no error. -/
theorem fill_calm {fails : Nat -> Nat -> Failures} (calm : ∀ n m, Calm (fails n m)) (legible : Legible mounts node) {cap n : Nat}
    {p next : Position} {reply : Reply} (enough : cap < n)
    (room : ∀ item more, remaining t mounts node p = item :: more -> recordSize item ≤ cap)
    (done : fill t mounts node stat fails cap n p [] 0 = some (next, reply)) : reply.op = .ok := by
  obtain ⟨n, rfl⟩ := Nat.exists_eq_succ_of_ne_zero (Nat.ne_of_gt (Nat.lt_of_le_of_lt (Nat.zero_le cap) enough))
  obtain ⟨peek, runs, shows⟩ := @dirPeek_shows t mounts node (fails n) p
  unfold fill at done
  rw [runs] at done
  cases peek with
  | finished =>
    cases done
    rfl
  | failed error => exact absurd runs (dirPeek_calm (calm n) legible p error)
  | item item after =>
    dsimp only at done
    have size := room item _ shows
    have positive := recordSize_pos item
    rw [List.length_nil, Nat.zero_add, if_neg (by omega)] at done
    obtain ⟨last, other, goes, answers⟩ := @fill_answers t mounts node stat fails cap n after ([] ++ record stat item) 1
      (by rw [List.nil_append, record_length]; omega) (fun zero => absurd zero Nat.one_ne_zero)
    rw [goes] at done
    cases done
    by_contra bad
    exact absurd (answers.refused bad).2 Nat.one_ne_zero

/-- A request without stray arguments. -/
def Clean (q : Request) : Prop := q.a0 = 0 ∧ q.a1 = 0 ∧ q.a2 = 0 ∧ q.a3 = 0 ∧ q.len = 0

theorem clean_iff (q : Request) : Clean q ↔ ¬(q.a0 ≠ 0 ∨ q.a1 ≠ 0 ∨ q.a2 ≠ 0 ∨ q.a3 ≠ 0 ∨ q.len ≠ 0) := by
  simp only [Clean, not_or, not_not]

/-- A call other than a rewind. -/
theorem dirOp_answers (fails : Nat -> Nat -> Failures) (p : Position) {q : Request} (goes : q.op ≠ .rewind) :
    ∃ next reply, dirOp t mounts node stat fails p q = some (next, reply) ∧ Answers stat t mounts node p [] 0 next reply := by
  have refuses : ∀ {op : ReplyStatus}, op ≠ .ok -> Answers stat t mounts node p [] 0 p ⟨op, 0, []⟩ := fun bad =>
    ⟨⟨[], rfl, rfl, rfl⟩, fun _ => ⟨rfl, rfl⟩, fun ok => absurd ok bad⟩
  unfold dirOp
  cases kind : q.op with
  | other => exact ⟨_, _, rfl, refuses ReplyStatus.noConfusion⟩
  | rewind => exact absurd kind goes
  | next =>
    dsimp only
    split_ifs
    · exact ⟨_, _, rfl, refuses ReplyStatus.noConfusion⟩
    · exact fill_answers stat fails (by rw [List.length_nil]; omega) fun _ => rfl

/-! ## Calls in a row -/

/-- Each call asks for entries, can read, and has room for the next record. -/
def Roomy (t : Casefold) (mounts : Nat -> Mount) (node : Node) : List Call -> Position -> Prop
  | [], _ => True
  | c :: rest, p => c.request.op = .next ∧ Clean c.request ∧ (∀ n m, Calm (c.fails n m)) ∧
      (∀ item more, remaining t mounts node p = item :: more -> recordSize item ≤ min c.request.cap fsIpcMax) ∧
      ∀ next reply, dirOp t mounts node stat c.fails p c.request = some (next, reply) -> Roomy t mounts node rest next

/-- The replies of calls in a row show a part of what remains, all of it where one is empty. -/
theorem dirOps_shows {calls : List Call} (goes : ∀ c ∈ calls, c.request.op ≠ .rewind) (p : Position) :
    ∃ last replies taken, dirOps t mounts node stat calls p = some (last, replies) ∧
      remaining t mounts node p = taken ++ remaining t mounts node last ∧
      replies.flatMap Reply.data = taken.flatMap (record stat) ∧ (replies.map Reply.a0).sum = taken.length ∧
      ((∃ reply ∈ replies, reply.op = .ok ∧ reply.a0 = 0) -> remaining t mounts node last = []) ∧
      (Legible mounts node -> Roomy stat t mounts node calls p -> (remaining t mounts node p).length < calls.length ->
        ∃ reply ∈ replies, reply.op = .ok ∧ reply.a0 = 0) := by
  induction calls generalizing p with
  | nil =>
    refine ⟨p, [], [], rfl, rfl, rfl, rfl, ?_, fun _ _ less => absurd less (Nat.not_lt_zero _)⟩
    rintro ⟨reply, member, _⟩
    exact absurd member List.not_mem_nil
  | cons c calls ih =>
    obtain ⟨next, reply, runs, answers⟩ := @dirOp_answers t mounts node stat c.fails p _ (goes c List.mem_cons_self)
    obtain ⟨taken, first, data, a0⟩ := answers.shown
    obtain ⟨last, replies, more, rest, second, all, sum, empty, ends⟩ :=
      ih (fun d member => goes d (List.mem_cons_of_mem c member)) next
    refine ⟨last, reply :: replies, taken ++ more, ?_, ?_, ?_, ?_, ?_, ?_⟩
    · unfold dirOps
      rw [runs]
      dsimp only
      rw [rest]
      rfl
    · rw [first, second, List.append_assoc]
    · rw [List.flatMap_cons, data, all, List.nil_append, List.flatMap_append]
    · rw [List.map_cons, List.sum_cons, a0, sum, List.length_append, Nat.zero_add]
    · rintro ⟨found, member, ok, none⟩
      rcases List.mem_cons.mp member with rfl | later
      · have nothing := answers.finished ok none
        rw [second] at nothing
        exact (List.append_eq_nil_iff.mp nothing).2
      · exact empty ⟨found, later, ok, none⟩
    · intro legible roomy less
      obtain ⟨kind, clean, calm, room, after⟩ := roomy
      have ok : reply.op = .ok := by
        unfold dirOp at runs
        rw [kind] at runs
        dsimp only at runs
        rw [if_neg ((clean_iff _).mp clean)] at runs
        exact fill_calm stat calm legible (by omega) room runs
      by_cases none : reply.a0 = 0
      · exact ⟨reply, List.mem_cons_self, ok, none⟩
      · rw [first, List.length_append, List.length_cons] at less
        obtain ⟨found, member, both⟩ := ends legible (after next reply runs) (by omega)
        exact ⟨found, List.mem_cons_of_mem _ member, both⟩

/-! ## What the root shows -/

/-- The root shows no entry of its disk that folds to a reserved name, and the reserved
names that are mounted once each. -/
theorem visible_root (root : node.isRoot = true) (kind : (mounts node.mnt).kind = .fs2 ∨ (mounts node.mnt).kind = .virtual) :
    ∃ disk : List DirItem, (∀ item ∈ disk, ¬Hidden t node item.name) ∧
      visible t mounts node = disk ++ rootReserved.filterMap fun r =>
        if (mounts r.2).present then some ⟨⟨r.2, vfsDirIno⟩, r.1, r.1.length⟩ else none := by
  refine ⟨(List.range (diskSlots t mounts node).count).filterMap (diskSlots t mounts node).slot, ?_, ?_⟩
  · intro item member
    obtain ⟨s, _, shown⟩ := List.mem_filterMap.mp member
    unfold diskSlots at shown
    rcases kind with fs2 | virtual
    · rw [fs2] at shown
      dsimp only at shown
      unfold fs2Slot at shown
      cases here : (((mounts node.mnt).vol node.ino).getD [])[s]? with
      | none =>
        rw [here] at shown
        cases shown
      | some d =>
        rw [here] at shown
        dsimp only at shown
        split_ifs at shown with passed
        cases shown
        exact (not_or.mp passed).2
    · rw [virtual] at shown
      dsimp only at shown
      have outside : node.mnt ≠ vfsDd := by
        unfold Node.isRoot at root
        rw [Bool.and_eq_true, decide_eq_true_iff] at root
        rw [root.1]
        decide
      rw [if_neg outside] at shown
      cases shown
  · unfold visible
    rw [show reservedSlots mounts node = ⟨reservedSlot mounts, 4⟩ from if_pos root]
    rfl

/-! ## Complete listings -/

end Server

/-- A mount table with two volumes, both of them without a file system. -/
def twoVolumes : Nat -> Mount := fun i => ⟨i ≠ vfsTmp ∧ i ≠ vfsDd0 + 1 ∧ i ≠ vfsDd0 + 3, .virtual, fun _ => none, []⟩

def zeroStat : Node -> {bytes : List Byte // bytes.length = 64} := fun _ => ⟨List.replicate 64 0, List.length_replicate⟩

/-- A call with room for one record of `/dd`. -/
def oneRecord : Call := ⟨⟨.next, 0, 0, 0, 0, 0, 100⟩, fun _ _ => ⟨false, false, fun _ => false, fun _ => false⟩⟩

end Src32.Fs
