import Mathlib.Algebra.Order.Ring.Nat
import Mathlib.Data.List.Basic

namespace Src32

open Function (update update_self update_of_ne)

/-!
# Linked queues that share their links

A bank of first-in first-out queues whose elements carry one link each, so
that an element can be in one queue at a time.  Every queue has a pointer to
its first and to its last element.  `Holds` says that the bank stores a list
for every index; the operations of a bank are the list operations as long as
an element that enters is in no queue yet.
-/

/-- The elements met from `first` along the links. -/
def Chain {α : Type} (next : α -> Option α) : Option α -> List α -> Prop
  | first, [] => first = none
  | first, a :: rest => first = some a ∧ Chain next (next a) rest

namespace Chain

variable {α : Type} {next other : α -> Option α} {first : Option α} {items : List α}

/-- Only the links of the elements matter. -/
theorem congr (chain : Chain next first items) (same : ∀ a ∈ items, other a = next a) :
    Chain other first items := by
  induction items generalizing first with
  | nil => exact chain
  | cons a rest ih =>
    obtain ⟨here, behind⟩ := chain
    refine ⟨here, ?_⟩
    rw [same a List.mem_cons_self]
    exact ih behind fun b member => same b (List.mem_cons_of_mem a member)

theorem unique {others : List α} (chain : Chain next first items) (again : Chain next first others) :
    items = others := by
  induction items generalizing first others with
  | nil =>
    cases others with
    | nil => rfl
    | cons b rest => cases chain.symm.trans again.1
  | cons a rest ih =>
    cases others with
    | nil => cases chain.1.symm.trans again
    | cons b later =>
      obtain ⟨here, behind⟩ := chain
      obtain ⟨there, beyond⟩ := again
      cases here.symm.trans there
      rw [ih behind beyond]

/-- The links from an element on. -/
theorem after {before behind : List α} {a : α} (chain : Chain next first (before ++ a :: behind)) :
    Chain next (next a) behind := by
  induction before generalizing first with
  | nil => exact chain.2
  | cons b rest ih => exact ih chain.2

/-- A chain that ends meets no element twice. -/
theorem nodup (chain : Chain next first items) : items.Nodup := by
  induction items generalizing first with
  | nil => exact List.nodup_nil
  | cons a rest ih =>
    refine List.nodup_cons.mpr ⟨?_, ih chain.2⟩
    intro again
    obtain ⟨before, behind, split⟩ := List.append_of_mem again
    have short : Chain next (next a) behind := by
      have whole := chain.2
      rw [split] at whole
      exact whole.after
    have same : rest = behind := chain.2.unique short
    have lengths := congrArg List.length (split.symm.trans same)
    rw [List.length_append, List.length_cons] at lengths
    omega

theorem append {more : List α} {a : α} (chain : Chain next first (items ++ [a]))
    (links : other a = more.head?) (same : ∀ b ∈ items, other b = next b) (behind : Chain other more.head? more) :
    Chain other first (items ++ a :: more) := by
  induction items generalizing first with
  | nil =>
    refine ⟨chain.1, ?_⟩
    rw [links]
    exact behind
  | cons b rest ih =>
    refine ⟨chain.1, ?_⟩
    rw [same b List.mem_cons_self]
    exact ih chain.2 fun c member => same c (List.mem_cons_of_mem b member)

end Chain

/-- The elements met in at most so many steps. -/
def walk {α : Type} (next : α -> Option α) : Nat -> Option α -> List α
  | 0, _ => []
  | _ + 1, none => []
  | fuel + 1, some a => a :: walk next fuel (next a)

theorem Chain.walk_eq {α : Type} {next : α -> Option α} {first : Option α} {items : List α}
    (chain : Chain next first items) {fuel : Nat} (enough : items.length ≤ fuel) :
    walk next fuel first = items := by
  induction items generalizing first fuel with
  | nil =>
    rw [show first = none from chain]
    cases fuel <;> rfl
  | cons a rest ih =>
    cases fuel with
    | zero => exact absurd enough (Nat.not_succ_le_zero _)
    | succ fuel =>
      rw [chain.1]
      exact congrArg (a :: ·) (ih chain.2 (Nat.le_of_succ_le_succ enough))

/-- The pointers of a bank of queues: the first and the last element of every
queue and the one link of every element. -/
structure Bank (ι α : Type) where
  head : ι -> Option α
  tail : ι -> Option α
  next : α -> Option α

namespace Bank

variable {ι α : Type} {bank : Bank ι α} {queue : ι -> List α} {i : ι} {a : α}

/-- The bank stores the lists, and no element is in two of them. -/
structure Holds (bank : Bank ι α) (queue : ι -> List α) : Prop where
  chain : ∀ i, Chain bank.next (bank.head i) (queue i)
  tail : ∀ i, bank.tail i = (queue i).getLast?
  apart : ∀ i j a, a ∈ queue i -> a ∈ queue j -> i = j

theorem Holds.nodup (holds : bank.Holds queue) (i : ι) : (queue i).Nodup := (holds.chain i).nodup

theorem holds_empty : (Bank.mk (fun _ : ι => none) (fun _ => none) (fun _ : α => none)).Holds fun _ => [] where
  chain := fun _ => rfl
  tail := fun _ => rfl
  apart := fun _ _ _ member => by cases member

/-- The first element of a queue. -/
theorem Holds.head_eq (holds : bank.Holds queue) (i : ι) : bank.head i = (queue i).head? := by
  have chain := holds.chain i
  cases items : queue i with
  | nil =>
    rw [items] at chain
    exact chain
  | cons b rest =>
    rw [items] at chain
    exact chain.1

variable [DecidableEq ι]

/-- Changing one queue keeps the lists apart when it gains only elements that
were in no other queue. -/
theorem Holds.apart_update (holds : bank.Holds queue) {items : List α}
    (gains : ∀ b ∈ items, ∀ j, b ∈ queue j -> j = i) (j k : ι) (b : α)
    (first : b ∈ update queue i items j) (second : b ∈ update queue i items k) : j = k := by
  by_cases atFirst : j = i <;> by_cases atSecond : k = i
  · rw [atFirst, atSecond]
  · subst atFirst
    rw [update_self] at first
    rw [update_of_ne atSecond] at second
    exact (gains b first k second).symm
  · subst atSecond
    rw [update_of_ne atFirst] at first
    rw [update_self] at second
    exact gains b second j first
  · rw [update_of_ne atFirst] at first
    rw [update_of_ne atSecond] at second
    exact holds.apart j k b first second

variable [DecidableEq α]

/-- `a` enters at the end of queue `i`. -/
def pushBack (bank : Bank ι α) (i : ι) (a : α) : Bank ι α :=
  let cleared := update bank.next a none
  match bank.tail i with
  | some last =>
    { bank with next := update cleared last (some a), tail := update bank.tail i (some a) }
  | none =>
    { head := update bank.head i (some a),
      tail := update bank.tail i (some a),
      next := cleared }

/-- `a` enters at the front of queue `i`. -/
def pushFront (bank : Bank ι α) (i : ι) (a : α) : Bank ι α where
  next := update bank.next a (bank.head i)
  head := update bank.head i (some a)
  tail := if bank.tail i = none then update bank.tail i (some a) else bank.tail

/-- The first element `a` of queue `i` leaves and keeps its link. -/
def dropFront (bank : Bank ι α) (i : ι) (a : α) : Bank ι α :=
  { bank with
    head := update bank.head i (bank.next a)
    tail := if bank.next a = none then update bank.tail i none else bank.tail }

/-- Queue `i` is left without an element. -/
def clear (bank : Bank ι α) (i : ι) : Bank ι α :=
  { bank with head := update bank.head i none, tail := update bank.tail i none }

/-- The link of `a` changes. -/
def relink (bank : Bank ι α) (a : α) (link : Option α) : Bank ι α :=
  { bank with next := update bank.next a link }

/-- The first element `a` of queue `i` leaves. -/
def popFront (bank : Bank ι α) (i : ι) (a : α) : Bank ι α where
  head := update bank.head i (bank.next a)
  tail := if bank.next a = none then update bank.tail i none else bank.tail
  next := update bank.next a none

theorem Holds.pushBack (holds : bank.Holds queue) (fresh : ∀ j, a ∉ queue j) :
    (bank.pushBack i a).Holds (update queue i (queue i ++ [a])) := by
  have gains : ∀ b ∈ queue i ++ [a], ∀ j, b ∈ queue j -> j = i := by
    intro b member j there
    rcases List.mem_append.mp member with here | last
    · exact holds.apart j i b there here
    · rw [List.mem_singleton.mp last] at there
      exact absurd there (fresh j)
  have others : ∀ j b, b ∈ queue j -> b ≠ a := by
    rintro j b member rfl
    exact fresh j member
  have tails : ∀ j, update bank.tail i (some a) j =
      (update queue i (queue i ++ [a]) j).getLast? := by
    intro j
    by_cases same : j = i
    · subst same
      rw [update_self, update_self, List.getLast?_concat]
    · rw [update_of_ne same, update_of_ne same, holds.tail j]
  unfold Bank.pushBack
  cases stored : bank.tail i with
  | none =>
    have empty : queue i = [] := List.getLast?_eq_none_iff.mp ((holds.tail i).symm.trans stored)
    refine ⟨fun j => ?_, tails, holds.apart_update gains⟩
    dsimp only
    by_cases same : j = i
    · subst same
      rw [update_self, update_self, empty]
      exact ⟨rfl, update_self ..⟩
    · rw [update_of_ne same, update_of_ne same]
      exact (holds.chain j).congr fun b member => update_of_ne (others j b member) ..
  | some last =>
    obtain ⟨front, split⟩ := List.getLast?_eq_some_iff.mp ((holds.tail i).symm.trans stored)
    have lastMember : last ∈ queue i := by
      rw [split]
      exact List.mem_append_right front List.mem_cons_self
    have distinct := holds.nodup i
    rw [split] at distinct
    have lastNew : a ≠ last := fun same => fresh i (same ▸ lastMember)
    refine ⟨fun j => ?_, tails, holds.apart_update gains⟩
    dsimp only
    by_cases same : j = i
    · subst same
      rw [update_self, split, List.append_assoc]
      have chain := holds.chain j
      rw [split] at chain
      refine chain.append (update_self ..) ?_ ⟨rfl, ?_⟩
      · intro b member
        have notLast : b ≠ last := by
          rintro rfl
          exact (List.nodup_append.mp distinct).2.2 b member b List.mem_cons_self rfl
        rw [update_of_ne notLast, update_of_ne]
        exact others j b (by rw [split]; exact List.mem_append_left _ member)
      · rw [update_of_ne lastNew, update_self]
        rfl
    · rw [update_of_ne same]
      refine (holds.chain j).congr fun b member => ?_
      have notLast : b ≠ last := by
        rintro rfl
        exact same (holds.apart j i b member lastMember)
      rw [update_of_ne notLast, update_of_ne (others j b member)]

theorem Holds.pushFront (holds : bank.Holds queue) (fresh : ∀ j, a ∉ queue j) :
    (bank.pushFront i a).Holds (update queue i (a :: queue i)) := by
  have gains : ∀ b ∈ a :: queue i, ∀ j, b ∈ queue j -> j = i := by
    intro b member j there
    rcases List.mem_cons.mp member with rfl | here
    · exact absurd there (fresh j)
    · exact holds.apart j i b there here
  have kept : ∀ j, Chain (update bank.next a (bank.head i)) (bank.head j) (queue j) := by
    intro j
    refine (holds.chain j).congr fun b member => ?_
    rw [update_of_ne]
    rintro rfl
    exact fresh j member
  refine ⟨fun j => ?_, fun j => ?_, holds.apart_update gains⟩
  · unfold Bank.pushFront
    dsimp only
    by_cases same : j = i
    · subst same
      rw [update_self, update_self]
      refine ⟨rfl, ?_⟩
      rw [update_self]
      exact kept j
    · rw [update_of_ne same, update_of_ne same]
      exact kept j
  · unfold Bank.pushFront
    dsimp only
    by_cases same : j = i
    · subst same
      rw [update_self]
      have stored := holds.tail j
      cases items : queue j with
      | nil =>
        rw [items, List.getLast?_nil] at stored
        rw [if_pos stored, update_self]
        rfl
      | cons b rest =>
        rw [items] at stored
        have nonempty : bank.tail j ≠ none := by
          rw [stored]
          exact fun none => List.cons_ne_nil b rest (List.getLast?_eq_none_iff.mp none)
        rw [if_neg nonempty, stored, List.getLast?_cons_cons]
    · rw [update_of_ne same, ← holds.tail j]
      split
      · exact update_of_ne same ..
      · rfl

theorem Holds.popFront (holds : bank.Holds queue) {rest : List α} (items : queue i = a :: rest) :
    (bank.popFront i a).Holds (update queue i rest) := by
  have member : a ∈ queue i := by
    rw [items]
    exact List.mem_cons_self
  have distinct := holds.nodup i
  rw [items] at distinct
  have chain := holds.chain i
  rw [items] at chain
  refine ⟨fun j => ?_, fun j => ?_, holds.apart_update ?_⟩
  · unfold Bank.popFront
    dsimp only
    by_cases same : j = i
    · subst same
      rw [update_self, update_self]
      refine chain.2.congr fun b later => update_of_ne ?_ ..
      rintro rfl
      exact (List.nodup_cons.mp distinct).1 later
    · rw [update_of_ne same, update_of_ne same]
      refine (holds.chain j).congr fun b there => update_of_ne ?_ ..
      rintro rfl
      exact same (holds.apart j i b there member)
  · unfold Bank.popFront
    dsimp only
    have stored := holds.tail i
    rw [items] at stored
    by_cases same : j = i
    · subst same
      rw [update_self]
      cases rest with
      | nil =>
        have ends : bank.next a = none := chain.2
        rw [if_pos ends, update_self]
        rfl
      | cons b later =>
        have more : bank.next a ≠ none := by
          rw [chain.2.1]
          exact Option.some_ne_none b
        rw [if_neg more, stored, List.getLast?_cons_cons]
    · rw [update_of_ne same, ← holds.tail j]
      split
      · exact update_of_ne same ..
      · rfl
  · intro b later j there
    refine holds.apart j i b there ?_
    rw [items]
    exact List.mem_cons_of_mem a later

omit [DecidableEq ι] in
/-- The link of an element that is in no queue does not matter. -/
theorem Holds.relink (holds : bank.Holds queue) (outside : ∀ i, a ∉ queue i) (link : Option α) :
    (bank.relink a link).Holds queue where
  chain := fun i => (holds.chain i).congr fun b member => by
    have different : b ≠ a := fun same => outside i (same ▸ member)
    exact update_of_ne different ..
  tail := holds.tail
  apart := holds.apart

omit [DecidableEq α] in
theorem Holds.clear (holds : bank.Holds queue) (i : ι) :
    (bank.clear i).Holds (update queue i []) := by
  refine ⟨fun j => ?_, fun j => ?_, holds.apart_update nofun⟩
  · unfold Bank.clear
    dsimp only
    by_cases same : j = i
    · subst same
      rw [update_self, update_self]
      rfl
    · rw [update_of_ne same, update_of_ne same]
      exact holds.chain j
  · unfold Bank.clear
    dsimp only
    by_cases same : j = i
    · subst same
      rw [update_self, update_self]
      rfl
    · rw [update_of_ne same, update_of_ne same]
      exact holds.tail j

/-- The element that left may keep its link. -/
theorem Holds.dropFront (holds : bank.Holds queue) {rest : List α} (items : queue i = a :: rest) :
    (bank.dropFront i a).Holds (update queue i rest) := by
  have distinct := holds.nodup i
  rw [items] at distinct
  have outside : ∀ j, a ∉ update queue i rest j := by
    intro j member
    by_cases same : j = i
    · subst same
      rw [update_self] at member
      exact (List.nodup_cons.mp distinct).1 member
    · rw [update_of_ne same] at member
      refine same (holds.apart j i a member ?_)
      rw [items]
      exact List.mem_cons_self
  have popped := (holds.popFront items).relink outside (bank.next a)
  have same : (bank.popFront i a).relink a (bank.next a) = bank.dropFront i a := by
    unfold Bank.relink Bank.popFront Bank.dropFront
    rw [Function.update_idem, Function.update_eq_self]
  rwa [same] at popped

/-! ## A part of the queues -/

omit [DecidableEq ι] [DecidableEq α] in
/-- The head of a queue has its link. -/
theorem Holds.uncons (holds : bank.Holds queue) (first : bank.head i = some a) : ∃ rest, queue i = a :: rest := by
  have head := holds.head_eq i
  rw [first] at head
  cases items : queue i with
  | nil =>
    rw [items] at head
    cases head
  | cons b rest =>
    rw [items] at head
    cases head
    exact ⟨rest, rfl⟩

/-- The bank seen through its queues in use: the others are empty. -/
def within (bank : Bank ι α) (used : ι -> Bool) : Bank ι α where
  head := fun i => if used i then bank.head i else none
  tail := fun i => if used i then bank.tail i else none
  next := bank.next

variable {used : ι -> Bool}

omit [DecidableEq α] in
theorem update_within (pointer : ι -> Option α) (here : used i = true) (value : Option α) :
    (fun j => if used j then update pointer i value j else none) =
      update (fun j => if used j then pointer j else none) i value := by
  funext j
  by_cases same : j = i
  · subst same
    rw [update_self, update_self, if_pos here]
  · rw [update_of_ne same, update_of_ne same]

theorem pushBack_within (bank : Bank ι α) (here : used i = true) (a : α) :
    (bank.pushBack i a).within used = (bank.within used).pushBack i a := by
  have tail : (bank.within used).tail i = bank.tail i := if_pos here
  unfold pushBack
  rw [tail]
  unfold within
  cases bank.tail i with
  | none =>
    dsimp only
    rw [update_within bank.head here, update_within bank.tail here]
  | some last =>
    dsimp only
    rw [update_within bank.tail here]

omit [DecidableEq α] in
theorem dropFront_within (bank : Bank ι α) (here : used i = true) (a : α) :
    (bank.dropFront i a).within used = (bank.within used).dropFront i a := by
  unfold dropFront within
  dsimp only
  rw [update_within bank.head here]
  split
  · rw [update_within bank.tail here]
  · rfl

omit [DecidableEq α] in
/-- A queue that comes into use is empty once it is cleared. -/
theorem clear_within (bank : Bank ι α) (idle : used i = false) :
    (bank.clear i).within (update used i true) = bank.within used := by
  have part : ∀ pointer : ι -> Option α,
      (fun j => if update used i true j then update pointer i none j else none) =
        fun j => if used j then pointer j else none := by
    intro pointer
    funext j
    by_cases same : j = i
    · subst same
      rw [update_self, update_self, if_pos rfl, idle, if_neg Bool.false_ne_true]
    · rw [update_of_ne same, update_of_ne same]
  unfold clear within
  dsimp only
  rw [part bank.head, part bank.tail]

omit [DecidableEq α] in
/-- A queue that goes out of use is seen empty. -/
theorem within_clear (bank : Bank ι α) (used : ι -> Bool) (i : ι) :
    bank.within (update used i false) = (bank.within used).clear i := by
  have part : ∀ pointer : ι -> Option α,
      (fun j => if update used i false j then pointer j else none) =
        update (fun j => if used j then pointer j else none) i none := by
    intro pointer
    funext j
    by_cases same : j = i
    · subst same
      rw [update_self, update_self, if_neg Bool.false_ne_true]
    · rw [update_of_ne same, update_of_ne same]
  unfold clear within
  dsimp only
  rw [part bank.head, part bank.tail]

end Bank
end Src32
