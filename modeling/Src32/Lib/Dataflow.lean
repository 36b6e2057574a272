import Src32.Lib.Fallible

namespace Src32

/-!
# Data flow by a worklist

A forward analysis that gives each node one value.  It visits a node once, and every
edge must carry to its target the value that the target already has.  When the list of
nodes to visit is empty, what has been found is a fixed point: each node that has a
value passes its visit and agrees with all of its targets.
-/

/-- What a node does to its value, which targets are allowed, and what is raised. -/
structure Dataflow (ν β ε : Type) where
  /-- The targets of a node and the value they get. -/
  visit : ν -> β -> Except ε (List ν × β)
  allow : ν -> ν -> Except ε Unit
  /-- Two values meet: the node, its value after the visit, the target and its value. -/
  clash : ν -> β -> ν -> β -> ε
  /-- A node without a value is to be visited. -/
  missing : ε
  /-- The given number of rounds is over. -/
  unfinished : ε

namespace Dataflow

variable {ν β ε : Type} (a : Dataflow ν β ε)

/-- A node whose visit succeeds and agrees with its targets. -/
def Settled (table : ν -> Option β) (node : ν) (value : β) : Prop :=
  ∃ targets after, a.visit node value = .ok (targets, after) ∧
    ∀ target ∈ targets, a.allow node target = .ok () ∧ table target = some after

/-- What one table knows the other knows as well. -/
def Extends (table more : ν -> Option β) : Prop := ∀ node value, table node = some value -> more node = some value

variable {a}

variable {table : ν -> Option β} {node : ν}

theorem Settled.mono {more : ν -> Option β} {value : β} (settled : a.Settled table node value)
    (grows : Extends table more) : a.Settled more node value := by
  obtain ⟨targets, after, visited, agree⟩ := settled
  exact ⟨targets, after, visited, fun target member => ⟨(agree target member).1, grows target after (agree target member).2⟩⟩

theorem Extends.update [DecidableEq ν] (absent : table node = none) (value : β) :
    Extends table (Function.update table node (some value)) := by
  intro other known found
  have differs : other ≠ node := fun same => Option.some_ne_none known (found.symm.trans (same ▸ absent))
  rw [Function.update_of_ne differs]
  exact found

/-! ## The loop -/

variable (a) [DecidableEq ν] [DecidableEq β]

/-- The targets of a node, one after the other; new ones go to the top of the list. -/
def spread (node : ν) (after : β) : List ν -> (ν -> Option β) -> List ν -> Except ε ((ν -> Option β) × List ν)
  | [], table, pending => .ok (table, pending)
  | target :: rest, table, pending => do
    a.allow node target
    match table target with
    | some old => if old ≠ after then .error (a.clash node after target old) else spread node after rest table pending
    | none => spread node after rest (Function.update table target (some after)) (target :: pending)

/-- The loop, for a number of rounds. -/
def rounds : Nat -> (ν -> Option β) -> List ν -> Except ε (ν -> Option β)
  | _, table, [] => .ok table
  | 0, _, _ :: _ => .error a.unfinished
  | n + 1, table, node :: pending =>
    match table node with
    | none => .error a.missing
    | some value => do
      let (targets, after) ← a.visit node value
      let (table, pending) ← a.spread node after targets table pending
      rounds n table pending

variable {a}

/-- Spreading keeps what is known, gives each target the value and queues what is new. -/
theorem spread_spec {after : β} {targets : List ν} {pending : List ν} {result : (ν -> Option β) × List ν}
    (done : a.spread node after targets table pending = .ok result) :
    Extends table result.1 ∧ (∀ target ∈ targets, a.allow node target = .ok () ∧ result.1 target = some after) ∧
      (∀ other ∈ pending, other ∈ result.2) ∧
      ∀ other value, result.1 other = some value -> table other = some value ∨ other ∈ result.2 := by
  induction targets generalizing table pending with
  | nil =>
    obtain rfl := Except.ok.inj done
    exact ⟨fun _ _ found => found, fun target member => absurd member List.not_mem_nil, fun _ member => member,
      fun _ _ found => .inl found⟩
  | cons target rest ih =>
    rw [spread] at done
    obtain ⟨_, admitted, done⟩ := Fallible.bind_ok done
    cases found : table target with
    | some old =>
      rw [found] at done
      dsimp only at done
      by_cases differs : old ≠ after
      · rw [if_pos differs] at done
        cases done
      · rw [if_neg differs] at done
        obtain ⟨grows, agree, queued, fresh⟩ := ih done
        have same : old = after := not_not.mp differs
        refine ⟨grows, fun other member => ?_, queued, fresh⟩
        rcases List.mem_cons.mp member with rfl | later
        · exact ⟨admitted, grows other after (same ▸ found)⟩
        · exact agree other later
    | none =>
      rw [found] at done
      obtain ⟨grows, agree, queued, fresh⟩ := ih done
      have set : Function.update table target (some after) target = some after := Function.update_self ..
      refine ⟨fun other value known => grows other value (Extends.update found after other value known),
        fun other member => ?_, fun other member => queued other (List.mem_cons_of_mem _ member),
        fun other value known => ?_⟩
      · rcases List.mem_cons.mp member with rfl | later
        · exact ⟨admitted, grows other after set⟩
        · exact agree other later
      · rcases fresh other value known with before | new
        · by_cases same : other = target
          · exact .inr (queued other (same ▸ List.mem_cons_self))
          · rw [Function.update_of_ne same] at before
            exact .inl before
        · exact .inr new

/-- The loop keeps what is known, and everything it ends with is settled. -/
theorem rounds_spec {n : Nat} {pending : List ν} {result : ν -> Option β}
    (open_ : ∀ node value, table node = some value -> node ∈ pending ∨ a.Settled table node value)
    (done : a.rounds n table pending = .ok result) :
    Extends table result ∧ ∀ node value, result node = some value -> a.Settled result node value := by
  induction n generalizing table pending with
  | zero =>
    cases pending with
    | nil =>
      obtain rfl := Except.ok.inj done
      exact ⟨fun _ _ found => found,
        fun node value found => (open_ node value found).resolve_left List.not_mem_nil⟩
    | cons node rest => cases done
  | succ n ih =>
    cases pending with
    | nil =>
      obtain rfl := Except.ok.inj done
      exact ⟨fun _ _ found => found,
        fun node value found => (open_ node value found).resolve_left List.not_mem_nil⟩
    | cons node rest =>
      rw [rounds] at done
      cases found : table node with
      | none =>
        rw [found] at done
        cases done
      | some value =>
        rw [found] at done
        obtain ⟨⟨targets, after⟩, visited, done⟩ := Fallible.bind_ok done
        obtain ⟨⟨more, queue⟩, spread_, done⟩ := Fallible.bind_ok done
        obtain ⟨grows, agree, queued, fresh⟩ := spread_spec spread_
        have settled : a.Settled more node value := ⟨targets, after, visited, agree⟩
        have next : ∀ other known, more other = some known -> other ∈ queue ∨ a.Settled more other known := by
          intro other known present
          rcases fresh other known present with before | new
          · rcases open_ other known before with waiting | old
            · rcases List.mem_cons.mp waiting with rfl | later
              · obtain rfl := Option.some.inj (found.symm.trans before)
                exact .inr settled
              · exact .inl (queued other later)
            · exact .inr (old.mono grows)
          · exact .inl new
        obtain ⟨keeps, all⟩ := ih next done
        exact ⟨fun other known present => keeps other known (grows other known present), all⟩

/-- From one node on. -/
theorem rounds_single {n : Nat} {value : β} {result : ν -> Option β}
    (done : a.rounds n (Function.update (fun _ => none) node (some value)) [node] = .ok result) :
    result node = some value ∧ ∀ other known, result other = some known -> a.Settled result other known := by
  have start : Function.update (fun _ => (none : Option β)) node (some value) node = some value := Function.update_self ..
  have spec := rounds_spec (fun other known present => .inl ?_) done
  · exact ⟨spec.1 node value start, spec.2⟩
  · by_cases same : other = node
    · exact List.mem_singleton.mpr same
    · rw [Function.update_of_ne same] at present
      exact absurd present.symm (Option.some_ne_none known)

end Dataflow

/-!
## Programs that avoid an error

A rule of programs in `Except`: a program may fail, but not with one given error, and
what it returns has a given property.
-/

variable {ε α β : Type} {bad : ε}

/-- The program does not end in the error, and a result has the property. -/
def Avoids (bad : ε) (program : Except ε α) (good : α -> Prop) : Prop :=
  program ≠ .error bad ∧ ∀ result, program = .ok result -> good result

namespace Avoids

variable {good : α -> Prop}

theorem ok {result : α} (holds : good result) : Avoids bad (.ok result) good :=
  ⟨fun same => (by cases same), fun _ same => Except.ok.inj same ▸ holds⟩

theorem error {other : ε} (differs : other ≠ bad) (good : α -> Prop) : Avoids bad (.error other : Except ε α) good :=
  ⟨fun same => differs (Except.error.inj same), fun _ same => (by cases same)⟩

theorem bind {first : Except ε α} {second : α -> Except ε β} {middle : α -> Prop} {good : β -> Prop}
    (before : Avoids bad first middle) (after : ∀ result, middle result -> Avoids bad (second result) good) :
    Avoids bad (first >>= second) good := by
  cases first with
  | error other => exact error (fun same => before.1 (congrArg Except.error same)) good
  | ok result => exact after result (before.2 result rfl)

theorem ite {c : Prop} [Decidable c] {yes no : Except ε α} (then_ : c -> Avoids bad yes good)
    (else_ : ¬ c -> Avoids bad no good) : Avoids bad (if c then yes else no) good := by
  by_cases holds : c
  · rw [if_pos holds]
    exact then_ holds
  · rw [if_neg holds]
    exact else_ holds

theorem mono {program : Except ε α} {better : α -> Prop} (avoids : Avoids bad program good)
    (weaker : ∀ result, good result -> better result) : Avoids bad program better :=
  ⟨avoids.1, fun result done => weaker result (avoids.2 result done)⟩

end Avoids

end Src32
