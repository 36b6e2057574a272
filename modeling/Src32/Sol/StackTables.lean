import Src32.Sol.StackCheck

namespace Src32.SolVm

/-!
# What the check leaves behind

The segments of a program do not overlap, and the depths of an accepted program are a
fixed point in each of them.
-/

/-! ## Segments and effects as functions of the program -/

/-- The functions that have a label, and where they start. -/
def namedStarts (program : Program) (functions : List (String × FunctionMeta)) : List (String × Nat) :=
  functions.filterMap fun f => (program.labels f.1).map fun pc => (f.1, pc)

def Program.segments (program : Program) : List Segment :=
  segmentsOf program.instructions.length (namedStarts program program.functions)

/-- Whether a segment has a `ret`. -/
def hasRet (program : Program) (s : Segment) : Bool :=
  (List.range' s.start (s.stop - s.start)).any fun pc => (program.instructions[pc]?).any fun inst => inst.op = .ret

def effectsOf (program : Program) (segments : List Segment) : List (String × Int) :=
  segments.filterMap fun s => s.name.map fun name => (name, if hasRet program s then 1 else 0)

def Program.effects (program : Program) : List (String × Int) := effectsOf program program.segments

variable {program : Program} {effects : List (String × Int)} {capacity : Int}

theorem functionStarts_ok {functions : List (String × FunctionMeta)} {named : List (String × Nat)}
    (done : functionStarts program functions = .ok named) : named = namedStarts program functions := by
  induction functions generalizing named with
  | nil => exact (Except.ok.inj done).symm
  | cons f rest ih =>
    rw [functionStarts] at done
    obtain ⟨start, label, done⟩ := Fallible.bind_ok done
    obtain ⟨more, others, done⟩ := Fallible.bind_ok done
    obtain rfl := Except.ok.inj done
    have found : program.labels f.1 = some start := by
      unfold Program.label at label
      cases here : program.labels f.1 with
      | none =>
        rw [here] at label
        cases label
      | some pc =>
        rw [here] at label
        exact congrArg some (Except.ok.inj label)
    unfold namedStarts
    rw [List.filterMap_cons, found, ih others]
    rfl

theorem fetch_ok {pc : Nat} {inst : Instruction} : program.fetch pc = .ok inst ↔ program.instructions[pc]? = some inst := by
  unfold Program.fetch
  cases here : program.instructions[pc]? with
  | none => exact ⟨fun same => (by cases same), fun same => (by cases same)⟩
  | some found => exact ⟨fun same => congrArg some (Except.ok.inj same), fun same => congrArg Except.ok (Option.some.inj same)⟩

theorem anyRet_ok {pcs : List Nat} {found : Bool} (done : anyRet program pcs = .ok found) :
    found = pcs.any fun pc => (program.instructions[pc]?).any fun inst => inst.op = .ret := by
  induction pcs with
  | nil => exact (Except.ok.inj done).symm
  | cons pc rest ih =>
    rw [anyRet] at done
    obtain ⟨inst, fetched, done⟩ := Fallible.bind_ok done
    rw [List.any_cons, fetch_ok.mp fetched]
    by_cases ret : inst.op = .ret
    · rw [if_pos ret] at done
      rw [← Except.ok.inj done, Option.any_some, decide_eq_true ret, Bool.true_or]
    · rw [if_neg ret] at done
      rw [ih done, Option.any_some, decide_eq_false ret, Bool.false_or]

theorem returnEffects_ok {segments : List Segment} {effects : List (String × Int)}
    (done : returnEffects program segments = .ok effects) : effects = effectsOf program segments := by
  induction segments generalizing effects with
  | nil => exact (Except.ok.inj done).symm
  | cons s rest ih =>
    rw [returnEffects] at done
    unfold effectsOf
    rw [List.filterMap_cons]
    cases name : s.name with
    | none =>
      rw [name] at done
      exact ih done
    | some name_ =>
      rw [name] at done
      obtain ⟨ret, scanned, done⟩ := Fallible.bind_ok done
      obtain ⟨more, others, done⟩ := Fallible.bind_ok done
      rw [← Except.ok.inj done, ih others, anyRet_ok scanned]
      rfl

/-! ## Segments -/

theorem head_least {l : List Nat} {m : Nat} (sorted : l.Pairwise (· ≤ ·)) (head : l.head? = some m) :
    m ∈ l ∧ ∀ x ∈ l, m ≤ x := by
  cases l with
  | nil => exact absurd head.symm (Option.some_ne_none m)
  | cons first rest =>
    obtain rfl := Option.some.inj head
    refine ⟨List.mem_cons_self, fun x member => ?_⟩
    rcases List.mem_cons.mp member with rfl | later
    · exact Nat.le_refl x
    · exact (List.pairwise_cons.mp sorted).1 x later

section Segments

variable {count : Nat} {named : List (String × Nat)}

/-- A segment ends at the next start of a function or at the end of the program. -/
structure EndsAt (count : Nat) (named : List (String × Nat)) (above : Nat -> Prop) (stop : Nat) : Prop where
  start : stop = count ∨ ∃ f ∈ named, f.2 = stop ∧ above stop
  least : ∀ f ∈ named, above f.2 -> stop ≤ f.2

theorem endsAt_segmentStop (start : Nat) :
    EndsAt count named (start < ·) (segmentStop count ((named.map Prod.snd).insertionSort (· ≤ ·)) start) := by
  have sorted := ((List.pairwise_insertionSort (· ≤ ·) (named.map Prod.snd)).filter fun pc => start < pc)
  have members : ∀ pc, pc ∈ ((named.map Prod.snd).insertionSort (· ≤ ·)).filter (fun pc => start < pc) ↔
      (∃ f ∈ named, f.2 = pc) ∧ start < pc := by
    intro pc
    rw [List.mem_filter, List.mem_insertionSort, List.mem_map, decide_eq_true_iff]
  unfold segmentStop
  cases head : (((named.map Prod.snd).insertionSort (· ≤ ·)).filter fun pc => start < pc).head? with
  | none =>
    refine ⟨.inl rfl, fun f member above => ?_⟩
    have empty := List.head?_eq_none_iff.mp head
    have listed := (members f.2).mpr ⟨⟨f, member, rfl⟩, above⟩
    rw [empty] at listed
    exact absurd listed List.not_mem_nil
  | some m =>
    obtain ⟨listed, least⟩ := head_least sorted head
    obtain ⟨⟨f, member, same⟩, above⟩ := (members m).mp listed
    exact ⟨.inr ⟨f, member, same, above⟩, fun g other later => least g.2 ((members g.2).mpr ⟨⟨g, other, rfl⟩, later⟩)⟩

theorem endsAt_first :
    EndsAt count named (fun _ => True) (((named.map Prod.snd).insertionSort (· ≤ ·)).head?.getD count) := by
  have sorted := List.pairwise_insertionSort (· ≤ ·) (named.map Prod.snd)
  cases head : ((named.map Prod.snd).insertionSort (· ≤ ·)).head? with
  | none =>
    refine ⟨.inl rfl, fun f member _ => ?_⟩
    have empty := List.head?_eq_none_iff.mp head
    have listed : f.2 ∈ (named.map Prod.snd).insertionSort (· ≤ ·) :=
      (List.mem_insertionSort _).mpr (List.mem_map_of_mem member)
    rw [empty] at listed
    exact absurd listed List.not_mem_nil
  | some m =>
    obtain ⟨listed, least⟩ := head_least sorted head
    obtain ⟨f, member, same⟩ := List.mem_map.mp ((List.mem_insertionSort _).mp listed)
    exact ⟨.inr ⟨f, member, same, trivial⟩,
      fun g other _ => least g.2 ((List.mem_insertionSort _).mpr (List.mem_map_of_mem other))⟩

variable {s : Segment}

theorem mem_segmentsOf (member : s ∈ segmentsOf count named) :
    (s.start = 0 ∧ s.stop = ((named.map Prod.snd).insertionSort (· ≤ ·)).head?.getD count ∧
        EndsAt count named (fun _ => True) s.stop) ∨
      ∃ f ∈ named, s.start = f.2 ∧ s.stop = segmentStop count ((named.map Prod.snd).insertionSort (· ≤ ·)) f.2 ∧
        EndsAt count named (f.2 < ·) s.stop := by
  rcases List.mem_cons.mp member with rfl | function
  · exact .inl ⟨rfl, rfl, endsAt_first⟩
  · obtain ⟨f, listed, rfl⟩ := List.mem_map.mp function
    exact .inr ⟨f, listed, rfl, rfl, endsAt_segmentStop f.2⟩

/-- Segments that share an instruction have the same bounds. -/
theorem segments_eq {t : Segment} (first : s ∈ segmentsOf count named) (second : t ∈ segmentsOf count named)
    {pc : Nat} (here : s.Contains pc) (there : t.Contains pc) : s.start = t.start ∧ s.stop = t.stop := by
  obtain ⟨low, high⟩ := here
  obtain ⟨low', high'⟩ := there
  rcases mem_segmentsOf first with ⟨zero, stop, ends⟩ | ⟨f, listed, start, stop, ends⟩
  · rcases mem_segmentsOf second with ⟨zero', stop', -⟩ | ⟨g, other, start', -, -⟩
    · exact ⟨zero.trans zero'.symm, stop.trans stop'.symm⟩
    · have bound := ends.least g other trivial
      omega
  · rcases mem_segmentsOf second with ⟨-, -, ends'⟩ | ⟨g, other, start', stop', ends'⟩
    · have bound := ends'.least f listed trivial
      omega
    · rcases Nat.lt_trichotomy f.2 g.2 with before | same | after
      · have bound := ends.least g other before
        omega
      · exact ⟨by rw [start, start', same], by rw [stop, stop', same]⟩
      · have bound := ends'.least f listed after
        omega

/-- Where a function starts one of the segments begins and holds its start. -/
theorem exists_segment_of_named {f : String × Nat} (listed : f ∈ named) (inside : f.2 < count) :
    ∃ s ∈ segmentsOf count named, s.start = f.2 ∧ s.Contains f.2 := by
  refine ⟨⟨some f.1, f.2, segmentStop count ((named.map Prod.snd).insertionSort (· ≤ ·)) f.2⟩,
    List.mem_cons_of_mem _ (List.mem_map.mpr ⟨f, listed, rfl⟩), rfl, Nat.le_refl _, ?_⟩
  have last : EndsAt count named (f.2 < ·) (segmentStop count ((named.map Prod.snd).insertionSort (· ≤ ·)) f.2) :=
    endsAt_segmentStop f.2
  rcases last.start with ends | ⟨g, -, -, above⟩
  · show f.2 < _
    rw [ends]
    exact inside
  · exact above

/-- Behind a segment the program ends or the next segment begins. -/
theorem exists_segment_of_stop (member : s ∈ segmentsOf count named) (inside : s.stop < count) :
    ∃ t ∈ segmentsOf count named, t.start = s.stop ∧ t.Contains s.stop := by
  have next : ∃ f ∈ named, f.2 = s.stop := by
    rcases mem_segmentsOf member with ⟨-, -, ends⟩ | ⟨f, -, -, -, ends⟩
    · rcases ends.start with stop | ⟨g, other, same, -⟩
      · omega
      · exact ⟨g, other, same⟩
    · rcases ends.start with stop | ⟨g, other, same, -⟩
      · omega
      · exact ⟨g, other, same⟩
  obtain ⟨f, listed, same⟩ := next
  rw [← same] at inside ⊢
  exact exists_segment_of_named listed inside

/-- The program begins in a segment. -/
theorem exists_segment_zero (some_ : 0 < count) : ∃ s ∈ segmentsOf count named, s.start = 0 ∧ s.Contains 0 := by
  have first : (⟨none, 0, ((named.map Prod.snd).insertionSort (· ≤ ·)).head?.getD count⟩ : Segment) ∈
      segmentsOf count named := List.mem_cons_self
  rcases Nat.eq_zero_or_pos (((named.map Prod.snd).insertionSort (· ≤ ·)).head?.getD count) with empty | long
  · obtain ⟨t, member, start, holds⟩ := exists_segment_of_stop first (empty ▸ some_)
    dsimp only at start holds
    rw [empty] at start holds
    exact ⟨t, member, start, holds⟩
  · exact ⟨_, first, rfl, Nat.le_refl _, long⟩

end Segments

/-! ## Accepted programs -/

variable {rounds : Nat}

theorem checkSegments_ok {segments : List Segment} {tables : List (Segment × Depths)}
    (done : checkSegments rounds program effects capacity segments = .ok tables) :
    tables.map Prod.fst = segments ∧ ∀ t ∈ tables, segmentDepths rounds program effects capacity t.1 = .ok t.2 := by
  induction segments generalizing tables with
  | nil =>
    obtain rfl := Except.ok.inj done
    exact ⟨rfl, fun t member => absurd member List.not_mem_nil⟩
  | cons s rest ih =>
    rw [checkSegments] at done
    obtain ⟨depths, found, done⟩ := Fallible.bind_ok done
    obtain ⟨more, others, done⟩ := Fallible.bind_ok done
    obtain rfl := Except.ok.inj done
    obtain ⟨names, all⟩ := ih others
    refine ⟨congrArg (s :: ·) names, fun t member => ?_⟩
    rcases List.mem_cons.mp member with rfl | later
    · exact found
    · exact all t later

/-- An instruction that passes its visit, with the depths before and behind it. -/
structure Passed (program : Program) (s : Segment) (pc : Nat) (depth after : Int) (inst : Instruction) : Prop where
  fetched : program.instructions[pc]? = some inst
  counted : ∃ delta required, effect program program.effects depth inst = .ok (delta, required) ∧ required ≤ depth ∧
    after = depth + delta
  returns : s.name.isSome = true -> (inst.op = .ret -> after = 1) ∧ (inst.op = .retn -> after = 0)

theorem visit_ok {s : Segment} {pc : Nat} {depth after : Int} {targets : List Nat}
    (done : visit program program.effects capacity s pc depth = .ok (targets, after)) :
    ∃ inst, Passed program s pc depth after inst ∧ successors program pc s.stop inst = .ok targets := by
  unfold visit at done
  obtain ⟨inst, fetched, done⟩ := Fallible.bind_ok done
  obtain ⟨result, moved, done⟩ := Fallible.bind_ok done
  by_cases bad : s.name.isSome ∧ (inst.op = .ret ∧ result ≠ 1 ∨ inst.op = .retn ∧ result ≠ 0)
  · rw [if_pos bad] at done
    cases done
  · rw [if_neg bad] at done
    obtain ⟨found, next, done⟩ := Fallible.bind_ok done
    obtain ⟨rfl, rfl⟩ := Prod.mk.inj (Except.ok.inj done)
    refine ⟨inst, ⟨fetch_ok.mp fetched, ?_, fun named => ⟨fun ret => ?_, fun retn => ?_⟩⟩, next⟩
    · unfold transfer at moved
      obtain ⟨⟨delta, required⟩, counted, moved⟩ := Fallible.bind_ok moved
      dsimp only at moved
      by_cases low : depth < required
      · rw [if_pos low] at moved
        cases moved
      · rw [if_neg low] at moved
        by_cases high : depth + delta > capacity
        · rw [if_pos high] at moved
          cases moved
        · rw [if_neg high] at moved
          exact ⟨delta, required, counted, Int.not_lt.mp low, (Except.ok.inj moved).symm⟩
    · exact not_not.mp fun other => bad ⟨named, .inl ⟨ret, other⟩⟩
    · exact not_not.mp fun other => bad ⟨named, .inr ⟨retn, other⟩⟩

/-- An accepted segment: it is searched from depth 0 on and its depths are a fixed point. -/
structure Searched (program : Program) (s : Segment) (depths : Depths) : Prop where
  start : depths s.start = some 0
  fixed : ∀ pc depth, depths pc = some depth -> ∃ after inst targets, Passed program s pc depth after inst ∧
    successors program pc s.stop inst = .ok targets ∧ ∀ target ∈ targets, s.Contains target ∧ depths target = some after

theorem segmentDepths_ok {s : Segment} {depths : Depths}
    (done : segmentDepths rounds program program.effects capacity s = .ok depths) : Searched program s depths := by
  obtain ⟨start, settled⟩ := Dataflow.rounds_single done
  refine ⟨start, fun pc depth found => ?_⟩
  obtain ⟨targets, after, visited, agree⟩ := settled pc depth found
  obtain ⟨inst, passed, next⟩ := visit_ok visited
  refine ⟨after, inst, targets, passed, next, fun target member => ⟨?_, (agree target member).2⟩⟩
  have admitted := (agree target member).1
  change (if target < s.start ∨ target ≥ s.stop then Except.error _ else Except.ok ()) = Except.ok () at admitted
  by_cases outside : target < s.start ∨ target ≥ s.stop
  · rw [if_pos outside] at admitted
    cases admitted
  · rw [not_or] at outside
    exact ⟨Nat.not_lt.mp outside.1, Nat.not_le.mp outside.2⟩

/-- The tables of an accepted program: one for each of its segments. -/
structure Tabled (program : Program) (tables : List (Segment × Depths)) : Prop where
  segments : tables.map Prod.fst = program.segments
  searched : ∀ t ∈ tables, Searched program t.1 t.2

theorem checkStaticStackSafety_ok {stackCapacityBytes : Int} {tables : List (Segment × Depths)}
    (some_ : program.instructions ≠ [])
    (done : checkStaticStackSafety rounds program stackCapacityBytes = .ok tables) :
    Tabled program tables := by
  unfold checkStaticStackSafety at done
  rw [if_neg some_] at done
  obtain ⟨named, starts, done⟩ := Fallible.bind_ok done
  obtain ⟨effects, counted, done⟩ := Fallible.bind_ok done
  obtain rfl := functionStarts_ok starts
  obtain rfl := returnEffects_ok counted
  obtain ⟨segments, all⟩ := checkSegments_ok done
  exact ⟨segments, fun t member => segmentDepths_ok (all t member)⟩

/-- The check has assigned a depth to a program counter: all segments around it have it. -/
structure Assigned (program : Program) (tables : List (Segment × Depths)) (pc : Nat) (depth : Int) : Prop where
  inside : ∃ s ∈ program.segments, s.Contains pc
  agree : ∀ t ∈ tables, t.1.Contains pc -> t.2 pc = some depth

namespace Tabled

variable {tables : List (Segment × Depths)}

theorem mem_segments (tabled : Tabled program tables) {t : Segment × Depths} (member : t ∈ tables) :
    t.1 ∈ program.segments := by
  rw [← tabled.segments]
  exact List.mem_map_of_mem member

variable {s : Segment}

theorem exists_table (tabled : Tabled program tables) (member : s ∈ program.segments) :
    ∃ t ∈ tables, t.1 = s := by
  rw [← tabled.segments] at member
  exact List.mem_map.mp member

/-- A segment starts with depth 0. -/
theorem assigned_start (tabled : Tabled program tables) (member : s ∈ program.segments) (holds : s.Contains s.start) :
    Assigned program tables s.start 0 := by
  refine ⟨⟨s, member, holds⟩, fun t listed there => ?_⟩
  rw [(segments_eq member (tabled.mem_segments listed) holds there).1]
  exact (tabled.searched t listed).start

/-- Where a depth is assigned the instruction passes. -/
theorem passes (tabled : Tabled program tables) {pc : Nat} {depth : Int}
    (assigned : Assigned program tables pc depth) (member : s ∈ program.segments) (here : s.Contains pc) :
    ∃ after inst targets, Passed program s pc depth after inst ∧ successors program pc s.stop inst = .ok targets := by
  obtain ⟨t, listed, rfl⟩ := tabled.exists_table member
  obtain ⟨after, inst, targets, passed, next, -⟩ := (tabled.searched t listed).fixed pc depth (assigned.agree t listed here)
  exact ⟨after, inst, targets, passed, next⟩

/-- A successor of an instruction lies in its segment and has the depth behind it. -/
theorem assigned_target (tabled : Tabled program tables) {pc target : Nat} {depth after : Int} {inst : Instruction}
    {targets : List Nat} (assigned : Assigned program tables pc depth) (member : s ∈ program.segments)
    (here : s.Contains pc) (passed : Passed program s pc depth after inst)
    (next : successors program pc s.stop inst = .ok targets) (listed : target ∈ targets) :
    s.Contains target ∧ Assigned program tables target after := by
  have carried : ∀ t ∈ tables, t.1.Contains pc -> t.1.stop = s.stop -> t.1.Contains target ∧ t.2 target = some after := by
    intro t table around stop
    obtain ⟨after', inst', targets', passed', next', agree⟩ :=
      (tabled.searched t table).fixed pc depth (assigned.agree t table around)
    obtain rfl := Option.some.inj (passed.fetched.symm.trans passed'.fetched)
    rw [stop, next] at next'
    obtain rfl := Except.ok.inj next'
    obtain ⟨delta, required, counted, -, rfl⟩ := passed.counted
    obtain ⟨delta', required', counted', -, rfl⟩ := passed'.counted
    obtain ⟨rfl, -⟩ := Prod.mk.inj (Except.ok.inj (counted.symm.trans counted'))
    exact agree target listed
  obtain ⟨t, table, rfl⟩ := tabled.exists_table member
  have inside := (carried t table here rfl).1
  refine ⟨inside, ⟨t.1, member, inside⟩, fun u other around => ?_⟩
  obtain ⟨start, stop⟩ := segments_eq (tabled.mem_segments other) member around inside
  refine (carried u other ⟨?_, ?_⟩ stop).2
  · rw [start]
    exact here.1
  · rw [stop]
    exact here.2

/-- A program is entered at depth 0. -/
theorem assigned_zero (tabled : Tabled program tables) (some_ : 0 < program.instructions.length) :
    Assigned program tables 0 0 := by
  obtain ⟨s, member, start, holds⟩ : ∃ s ∈ program.segments, s.start = 0 ∧ s.Contains 0 := exists_segment_zero some_
  have assigned := tabled.assigned_start member (start.symm ▸ holds)
  rwa [start] at assigned

/-- So is what follows a segment. -/
theorem assigned_stop (tabled : Tabled program tables) (member : s ∈ program.segments)
    (inside : s.stop < program.instructions.length) : Assigned program tables s.stop 0 := by
  obtain ⟨t, other, start, holds⟩ := exists_segment_of_stop member inside
  have assigned := tabled.assigned_start other (start.symm ▸ holds)
  rwa [start] at assigned

/-- And a function that the program knows. -/
theorem assigned_function (tabled : Tabled program tables) {name : String} {info : FunctionMeta} {entry : Nat}
    (known : program.function name = some info) (label : program.labels name = some entry)
    (inside : entry < program.instructions.length) : Assigned program tables entry 0 := by
  have listed : (name, entry) ∈ namedStarts program program.functions := by
    refine List.mem_filterMap.mpr ⟨(name, info), ?_, ?_⟩
    · obtain ⟨before, after, same, -⟩ := List.lookup_eq_some_iff.mp known
      rw [same]
      exact List.mem_append_right _ List.mem_cons_self
    · rw [label]
      rfl
  obtain ⟨s, member, start, holds⟩ := exists_segment_of_named listed inside
  have assigned := tabled.assigned_start member (start.symm ▸ holds)
  rwa [start] at assigned

end Tabled

end Src32.SolVm
