import Src32.Kernel.References

namespace Src32.Kernel.Ipc

/-!
# The handles of a spawned process

`proc_spawn` starts the child and then duplicates the listed handles into its
table, one behind the other.  A duplicate that is refused leaves no hole: the
handles behind it get smaller numbers.  The child itself is looked up by its
pid.  The theorem at the end says when every child gets the handles its spawner
listed.
-/

variable {k next : Ipc} {caller child p q : ProcId}

/-- What a handle names. -/
def object (k : Ipc) (p : ProcId) (h : Word) : Option Obj := (k.entry p h).map Prod.snd

/-! ## The table of the child -/

/-- What the child gets for a listed handle: a THREAD handle stays in its
process. -/
def passed (k : Ipc) (caller : ProcId) (h : Word) : Option Obj :=
  match k.object caller h with
  | some (.thread _) => none
  | named => named

/-- The table holds these objects from its first entry on, and nothing else. -/
def Holds (k : Ipc) (p : ProcId) (objs : List Obj) : Prop := ∀ i : HandleIx, k.handles (p, i) = objs[i.val]?

variable {handles : List Word} {objs : List Obj} {h : Word}

theorem Holds.freeIx (holds : k.Holds p objs) (room : objs.length < 63) :
    k.freeIx p = some ⟨objs.length, room⟩ := by
  unfold Ipc.freeIx
  rw [List.find?_eq_some_iff_getElem]
  refine ⟨?_, objs.length, ?_, ?_, fun j earlier => ?_⟩
  · rw [decide_eq_true_iff, holds]
    exact List.getElem?_eq_none (Nat.le_refl _)
  · rw [List.length_finRange]
    exact room
  · rw [List.getElem_finRange]
    rfl
  · rw [List.getElem_finRange, Bool.not_eq_true', decide_eq_false_iff_not, holds]
    change ¬ objs[j]? = none
    rw [List.getElem?_eq_getElem earlier]
    exact Option.some_ne_none _

theorem Holds.add (holds : k.Holds p objs) (room : objs.length < 63) (o : Obj) :
    (k.handleAdd p o).2.Holds p (objs ++ [o]) := by
  unfold handleAdd
  rw [holds.freeIx room]
  intro i
  dsimp only
  rw [objRef_handles]
  by_cases last : i.val = objs.length
  · have same : i = ⟨objs.length, room⟩ := Fin.ext last
    subst same
    rw [List.getElem?_concat_length]
    exact Function.update_self ..
  · have other : (p, i) ≠ (p, (⟨objs.length, room⟩ : HandleIx)) := fun same =>
      last (congrArg (fun e : ProcId × HandleIx => e.2.val) same)
    have kept : (k.setHandle p ⟨objs.length, room⟩ (some o)).handles (p, i) = k.handles (p, i) :=
      Function.update_of_ne other ..
    rw [kept, holds i]
    rcases Nat.lt_or_gt_of_ne last with before | behind
    · rw [List.getElem?_append_left before]
    · rw [List.getElem?_eq_none (Nat.le_of_lt behind), List.getElem?_eq_none]
      rw [List.length_append]
      exact behind

/-- One duplicate. -/
theorem Holds.dup (holds : k.Holds child objs) (other : caller ≠ child) (room : objs.length < 63) (h : Word) :
    (k.handleDupInto caller h child).2.Holds child (objs ++ (k.passed caller h).toList) := by
  unfold handleDupInto passed object
  cases found : k.entry caller h with
  | none =>
    dsimp only [Option.map_none, Option.toList_none]
    rw [List.append_nil]
    exact holds
  | some named =>
    obtain ⟨i, o⟩ := named
    cases o with
    | thread t =>
      dsimp only [Option.map_some, Option.toList_none]
      rw [if_pos other, List.append_nil]
      exact holds
    | port _ | chan _ | proc _ => exact holds.add room _

theorem object_congr (same : ∀ i, next.handles (p, i) = k.handles (p, i)) :
    next.object p h = k.object p h := by
  unfold object entry
  cases handleIx h with
  | none => rfl
  | some i =>
    rw [Option.bind_eq_bind, Option.bind_some, Option.bind_eq_bind, Option.bind_some, same]

theorem passed_congr (same : ∀ i, next.handles (p, i) = k.handles (p, i)) :
    next.passed p h = k.passed p h := by
  unfold passed
  rw [object_congr same]

/-- What the child gets of the whole list: the entries follow each other
without a hole. -/
theorem Holds.pass (holds : k.Holds child objs) (other : caller ≠ child) (handles : List Word)
    (room : objs.length + handles.length ≤ 63) :
    (k.passHandles caller child handles).Holds child (objs ++ handles.filterMap (k.passed caller)) := by
  unfold passHandles
  induction handles generalizing k objs with
  | nil =>
    rw [List.filterMap_nil, List.append_nil]
    exact holds
  | cons h rest ih =>
    rw [List.length_cons] at room
    have once := holds.dup other (by omega) h
    have callers : ∀ i, (k.handleDupInto caller h child).2.handles (caller, i) = k.handles (caller, i) :=
      handleDupInto_handles k caller h child other
    have fits : (objs ++ (k.passed caller h).toList).length + rest.length ≤ 63 := by
      rw [List.length_append]
      have few : (k.passed caller h).toList.length ≤ 1 := by
        cases k.passed caller h with
        | none => exact Nat.zero_le 1
        | some _ => exact Nat.le_refl 1
      omega
    have all := ih once fits
    have views : (k.handleDupInto caller h child).2.passed caller = k.passed caller := by
      funext g
      exact passed_congr callers
    rw [views, List.append_assoc] at all
    have joined : (k.passed caller h).toList ++ rest.filterMap (k.passed caller) =
        (h :: rest).filterMap (k.passed caller) := by
      rw [List.filterMap_cons]
      cases k.passed caller h with
      | none => rfl
      | some _ => rfl
    rw [joined] at all
    exact all

/-- No listed handle names a thread. -/
def Passable (k : Ipc) (caller : ProcId) (handles : List Word) : Prop :=
  ∀ h ∈ handles, ∀ t, k.object caller h ≠ some (.thread t)

theorem passed_of_passable (passable : k.Passable caller handles) (listed : h ∈ handles) :
    k.passed caller h = k.object caller h := by
  unfold passed
  split
  · next t named => exact absurd named (passable h listed t)
  · rfl

/-- The child's table. -/
def Honours (k : Ipc) (caller : ProcId) (handles : List Word) (next : Ipc) (child : ProcId) : Prop :=
  ∀ i : HandleIx, next.handles (child, i) = handles[i.val]?.bind (k.object caller)

/-- The list arrives whole exactly if it holds no THREAD handle: with one, the
child has fewer handles than were listed. -/
theorem honours_iff (few : handles.length ≤ 63) (valid : ∀ h ∈ handles, (k.object caller h).isSome)
    (holds : next.Holds child (handles.filterMap (k.passed caller))) :
    k.Honours caller handles next child ↔ k.Passable caller handles := by
  constructor
  · intro honours h listed t thread
    have short : (handles.filterMap (k.passed caller)).length < handles.length := by
      have drops : k.passed caller h = none := by
        unfold passed
        rw [thread]
      exact List.length_filterMap_lt_length_iff_exists.mpr ⟨h, listed, drops⟩
    have some_ : 0 < handles.length := by omega
    have last := honours ⟨handles.length - 1, by omega⟩
    rw [holds] at last
    dsimp only at last
    rw [List.getElem?_eq_none (by omega), List.getElem?_eq_getElem (by omega), Option.bind_some] at last
    have named := valid _ (List.getElem_mem (Nat.sub_lt some_ Nat.one_pos))
    rw [← last] at named
    cases named
  · intro passable i
    have whole : handles.filterMap (k.passed caller) = handles.filterMap (k.object caller) := by
      exact List.filterMap_congr fun h listed => passed_of_passable passable listed
    rw [holds, whole]
    clear holds whole few passable
    generalize i.val = n
    induction handles generalizing n with
    | nil => rfl
    | cons h rest ih =>
      obtain ⟨o, named⟩ := Option.isSome_iff_exists.mp (valid h List.mem_cons_self)
      rw [List.filterMap_cons, named]
      cases n with
      | zero => exact named.symm
      | succ n => exact ih (fun g listed => valid g (List.mem_cons_of_mem h listed)) n

/-! ## The launch -/

/-- The loader, the memory backend and the tables leave nothing to refuse, and
the process gets record `p`. -/
structure Launches (k : Ipc) (built : Built) (p : ProcId) : Prop where
  granted : built.granted = .ok ()
  claimed : claimable k.procs = some p
  planned : built.planned = .ok ()
  room : k.sched.allocThread ≠ none
  mapped : ∃ regions, built.mapped = .ok regions

/-- The process in record `p` is new: no handle, and the pid that was next. -/
structure Born (k next : Ipc) (p : ProcId) : Prop where
  launched : Launched k next p
  empty : next.Holds p []
  pid : (next.procs p).pid = k.nextPid

theorem spawnImage_born {built : Built} (launches : k.Launches built p) (priority : Nat) (caps parent : Word) :
    ∃ next, k.spawnImage priority caps parent built = (.ok k.nextPid, next) ∧ Born k next p := by
  obtain ⟨granted, claimed, planned, room, regions, mapped⟩ := launches
  obtain ⟨⟨t, sched⟩, slot⟩ := Option.ne_none_iff_exists'.mp room
  let k₁ := k.modifyProc p Proc.claimed
  let k₂ : Ipc := { k₁ with sched := sched }
  let k₃ := k₂.modifyProc p fun proc => { proc with regions := regions, parent := parent, caps := caps }
  have others : ∀ q, q ≠ p -> k₃.procs q = k.procs q := fun q other =>
    (Function.update_of_ne other ..).trans (Function.update_of_ne other ..)
  refine ⟨k₃.startProc p t priority, ?_, ⟨claimable_idle claimed, ?_, fun q other => ?_, fun q i other => ?_⟩, ?_, ?_⟩
  · unfold spawnImage
    rw [granted, claimed, planned, mapped]
    have same : (k.modifyProc p Proc.claimed).sched.allocThread = some (t, sched) := slot
    dsimp only
    rw [same]
    rfl
  · rw [startProc_procs, Function.update_self]
    rfl
  · rw [startProc_procs, Function.update_of_ne other]
    exact others q other
  · rw [startProc_handles]
    exact if_neg other
  · intro i
    rw [startProc_handles]
    exact if_pos rfl
  · rw [startProc_procs, Function.update_self]
    rfl

/-- Otherwise no process starts. -/
theorem spawnImage_refused {built : Built} (refuses : ∀ p, ¬ k.Launches built p) (priority : Nat)
    (caps parent : Word) : ∃ error next, k.spawnImage priority caps parent built = (.error error, next) ∧
      ∀ q, (next.procs q).state = (k.procs q).state := by
  unfold spawnImage
  cases granted : built.granted with
  | error error => exact ⟨error, k, rfl, fun _ => rfl⟩
  | ok _ =>
    dsimp only
    cases claimed : claimable k.procs with
    | none => exact ⟨.limit, k, rfl, fun _ => rfl⟩
    | some p =>
      have kept : ∀ q, ((k.modifyProc p Proc.claimed).procs q).state = (k.procs q).state := fun q => by
        unfold modifyProc
        dsimp only
        by_cases same : q = p
        · subst same
          rw [Function.update_self]
          rfl
        · rw [Function.update_of_ne same]
      dsimp only
      cases planned : built.planned with
      | error error => exact ⟨error, _, rfl, kept⟩
      | ok _ =>
        dsimp only
        cases slot : (k.modifyProc p Proc.claimed).sched.allocThread with
        | none => exact ⟨.limit, _, rfl, kept⟩
        | some taken =>
          dsimp only
          cases mapped : built.mapped with
          | error error => exact ⟨error, _, rfl, kept⟩
          | ok regions =>
            have room : k.sched.allocThread ≠ none := by
              intro full
              have same : (k.modifyProc p Proc.claimed).sched.allocThread = none := full
              rw [same] at slot
              cases slot
            exact absurd ⟨granted, claimed, planned, room, regions, mapped⟩ (refuses p)

/-! ## The child's pid -/

/-- No earlier record in use has the pid. -/
def FirstOf (k : Ipc) (pid : Word) (p : ProcId) : Prop :=
  ∀ q : ProcId, q < p -> (k.procs q).state ≠ .free -> (k.procs q).pid ≠ pid

theorem procGet_first {pid : Word} (used : (k.procs p).state ≠ .free) (named : (k.procs p).pid = pid)
    (first : k.FirstOf pid p) : k.procGet pid = some p := by
  unfold procGet
  rw [List.find?_eq_some_iff_getElem]
  refine ⟨?_, p.val, ?_, ?_, fun j earlier => ?_⟩
  · rw [Bool.and_eq_true, decide_eq_true_iff, decide_eq_true_iff]
    exact ⟨used, named⟩
  · rw [List.length_finRange]
    exact p.isLt
  · rw [List.getElem_finRange]
    rfl
  · rw [List.getElem_finRange, Bool.not_eq_true', Bool.and_eq_false_iff, decide_eq_false_iff_not,
      decide_eq_false_iff_not]
    refine Classical.or_iff_not_imp_left.mpr fun inUse => ?_
    exact first _ earlier (Classical.not_not.mp inUse)

/-- Another record of the pid before it is found instead. -/
theorem procGet_other {pid : Word} (used : (k.procs p).state ≠ .free) (named : (k.procs p).pid = pid)
    (second : ¬ k.FirstOf pid p) : ∃ q, k.procGet pid = some q ∧ q ≠ p := by
  cases found : k.procGet pid with
  | none =>
    unfold procGet at found
    have misses := List.find?_eq_none.mp found p (List.mem_finRange p)
    rw [Bool.and_eq_true, decide_eq_true_iff, decide_eq_true_iff] at misses
    exact absurd ⟨used, named⟩ misses
  | some q =>
    refine ⟨q, rfl, ?_⟩
    rintro rfl
    refine second fun r earlier inUse same => ?_
    unfold procGet at found
    obtain ⟨_, n, bound, at_, before⟩ := List.find?_eq_some_iff_getElem.mp found
    rw [List.getElem_finRange] at at_
    have index : n = q.val := congrArg Fin.val at_
    have miss := before r.val (index ▸ Fin.lt_def.mp earlier)
    rw [List.getElem_finRange, Bool.not_eq_true', Bool.and_eq_false_iff, decide_eq_false_iff_not,
      decide_eq_false_iff_not] at miss
    rcases miss with free | differs
    · exact free inUse
    · exact differs same

/-! ## The spawn -/

/-- The process was not there before and is. -/
def New (k next : Ipc) (p : ProcId) : Prop := (k.procs p).state ≠ .live ∧ (next.procs p).state = .live

theorem Born.new (born : Born k next p) : New k next p := ⟨born.launched.idle, born.launched.live⟩

theorem Born.only (born : Born k next p) (new : New k next q) : q = p := by
  by_contra other
  have live := new.2
  rw [born.launched.procs q other] at live
  exact new.1 live

/-- The outcome of a system call that its caller takes for a success. -/
def Succeeds (outcome : Except FndError Word) (h : Word) : Prop := outcome = .ok h ∧ h.msb = false

/-- What a spawn with this list leaves behind: with success a new process with
the listed handles and no other, and a handle of it; else no process. -/
structure SpawnsWhole (k : Ipc) (caller : ProcId) (handles : List Word) (result : Except FndError Word × Ipc) :
    Prop where
  child : ∀ h, Succeeds result.1 h -> ∃ child, New k result.2 child ∧
    k.Honours caller handles result.2 child ∧ result.2.object caller h = some (.proc child)
  nothing : (∀ h, ¬ Succeeds result.1 h) -> ∀ p, ¬ New k result.2 p

/-- `proc_spawn` refuses nothing and the child gets record `p`. -/
structure Accepts (mem : UserMemory) (early late : Except FndError Unit) (built : Built) (k : Ipc)
    (caller : ProcId) (addr : Word) (p : ProcId) : Prop where
  checked : checkSpawn mem k caller addr = .ok (spawnArgsAt mem caller addr)
  early : early = .ok ()
  valid : ∀ h ∈ spawnHandles mem caller (spawnArgsAt mem caller addr), (k.object caller h).isSome
  room : k.handleFreeCount caller ≠ 0
  late : late = .ok ()
  launches : k.Launches built p

/-- The list can be honoured: no THREAD handle, and a pid that is no error code
and finds the child. -/
structure Honourable (k : Ipc) (caller p : ProcId) (handles : List Word) : Prop where
  passable : k.Passable caller handles
  positive : k.nextPid.msb = false
  first : k.FirstOf k.nextPid p

theorem checkSpawn_ok {mem : UserMemory} {addr : Word} {sp : SpawnArgs}
    (checked : checkSpawn mem k caller addr = .ok sp) :
    sp = spawnArgsAt mem caller addr ∧ (spawnHandles mem caller sp).length ≤ 16 := by
  unfold checkSpawn at checked
  dsimp only at checked
  split_ifs at checked with align access fields limits ranges rights
  cases checked
  refine ⟨rfl, ?_⟩
  have count : ¬ (spawnArgsAt mem caller addr).handleCount > fndSpawnMaxHandles := fun large =>
    limits (Or.inr (Or.inr (Or.inl large)))
  unfold spawnHandles
  rw [List.length_map, List.length_range]
  rw [gt_iff_lt, BitVec.lt_def] at count
  exact Nat.le_of_not_lt count

theorem passHandles_states (k : Ipc) (caller child : ProcId) (handles : List Word) (q : ProcId) :
    ((k.passHandles caller child handles).procs q).state = (k.procs q).state := by
  unfold passHandles
  induction handles generalizing k with
  | nil => rfl
  | cons h rest ih =>
    exact (ih (k.handleDupInto caller h child).2).trans (handleDupInto_state k caller h child q)

/-- The entries of the list are valid. -/
theorem listed_valid (valid : ∀ h ∈ handles, (k.object p h).isSome) :
    (handles.any fun h => (k.entry p h).isNone) = false := by
  rw [List.any_eq_false]
  intro h listed
  have named := valid h listed
  unfold object at named
  rw [Option.isSome_map] at named
  rw [Option.isNone_iff_eq_none]
  exact Option.isSome_iff_ne_none.mp named

theorem listed_invalid (valid : (handles.any fun h => (k.entry p h).isNone) ≠ true) :
    ∀ h ∈ handles, (k.object p h).isSome := by
  intro h listed
  have all := List.any_eq_false.mp (Bool.eq_false_iff.mpr valid)
  have named := all h listed
  unfold object
  rw [Option.isSome_map, Option.isSome_iff_ne_none]
  rwa [Option.isNone_iff_eq_none] at named

section
variable {mem : UserMemory} {early late : Except FndError Unit} {built : Built} {addr : Word}

/-- A spawn that is accepted has started the child when it passes the handles
on. -/
theorem procSpawn_accepted (accepts : Accepts mem early late built k caller addr p) :
    ∃ born, Born k born p ∧
      (k.nextPid.msb = true -> procSpawn mem early late built k caller addr = (.ok k.nextPid, born)) ∧
      ∀ child, k.nextPid.msb = false -> born.procGet k.nextPid = some child ->
        procSpawn mem early late built k caller addr =
          (born.passHandles caller child (spawnHandles mem caller (spawnArgsAt mem caller addr))).handleAdd caller
            (.proc child) := by
  obtain ⟨checked, earlyOk, valid, room, lateOk, launches⟩ := accepts
  obtain ⟨born, made, starts⟩ := spawnImage_born launches (spawnArgsAt mem caller addr).priority.toNat
    (spawnArgsAt mem caller addr).caps (k.procs caller).pid
  have entries : ¬ ((spawnHandles mem caller (spawnArgsAt mem caller addr)).any
      fun h => (k.entry caller h).isNone) = true := by
    rw [listed_valid valid]
    exact Bool.false_ne_true
  refine ⟨born, starts, fun negative => ?_, fun child positive found => ?_⟩
  · unfold procSpawn
    rw [checked, earlyOk, lateOk]
    dsimp only
    rw [if_neg entries, if_neg room, made]
    dsimp only
    rw [if_pos negative]
  · unfold procSpawn
    rw [checked, earlyOk, lateOk]
    dsimp only
    rw [if_neg entries, if_neg room, made]
    dsimp only
    rw [positive, if_neg Bool.false_ne_true, found]

/-- A spawn that is not accepted starts nothing. -/
theorem procSpawn_refused (refuses : ∀ p, ¬ Accepts mem early late built k caller addr p) :
    ∃ error next, procSpawn mem early late built k caller addr = (.error error, next) ∧
      ∀ q, (next.procs q).state = (k.procs q).state := by
  unfold procSpawn
  cases checked : checkSpawn mem k caller addr with
  | error error => exact ⟨error, k, rfl, fun _ => rfl⟩
  | ok sp =>
    have read := (checkSpawn_ok checked).1
    subst read
    dsimp only
    cases earlyOk : early with
    | error error => exact ⟨error, k, rfl, fun _ => rfl⟩
    | ok _ =>
      dsimp only
      by_cases entries : ((spawnHandles mem caller (spawnArgsAt mem caller addr)).any
          fun h => (k.entry caller h).isNone) = true
      · rw [if_pos entries]
        exact ⟨.badHandle, k, rfl, fun _ => rfl⟩
      · rw [if_neg entries]
        by_cases full : k.handleFreeCount caller = 0
        · rw [if_pos full]
          exact ⟨.limit, k, rfl, fun _ => rfl⟩
        · rw [if_neg full]
          cases lateOk : late with
          | error error => exact ⟨error, k, rfl, fun _ => rfl⟩
          | ok _ =>
            have stops : ∀ p, ¬ k.Launches built p := fun p launches =>
              refuses p ⟨checked, earlyOk, listed_invalid entries, full, lateOk, launches⟩
            obtain ⟨error, next, failed, kept⟩ := spawnImage_refused stops
              (spawnArgsAt mem caller addr).priority.toNat (spawnArgsAt mem caller addr).caps
              (k.procs caller).pid
            dsimp only
            rw [failed]
            exact ⟨error, next, rfl, kept⟩

/-- The other tables are as they were. -/
theorem handleAdd_others (k : Ipc) (p : ProcId) (o : Obj) (other : q ≠ p) (i : HandleIx) :
    (k.handleAdd p o).2.handles (q, i) = k.handles (q, i) := by
  unfold handleAdd
  cases k.freeIx p with
  | none => rfl
  | some j =>
    dsimp only
    rw [objRef_handles]
    exact Function.update_of_ne (fun same => other (Prod.mk.inj same).1) ..

/-- A handle that is added is no error code and names the object. -/
theorem handleAdd_names {o : Obj} {h : Word} (added : (k.handleAdd p o).1 = .ok h) :
    h.msb = false ∧ (k.handleAdd p o).2.object p h = some o := by
  unfold handleAdd at added ⊢
  cases free : k.freeIx p with
  | none =>
    rw [free] at added
    cases added
  | some i =>
    rw [free] at added
    cases added
    dsimp only
    constructor
    · clear free
      revert i
      decide
    · unfold object
      have named : ((k.setHandle p i (some o)).objRef o).handles (p, i) = some o := by
        rw [objRef_handles]
        exact Function.update_self ..
      rw [entry_of (handleIx_handleOf i) named]
      rfl

theorem Born.first_iff (born : Born k next p) (pid : Word) : next.FirstOf pid p ↔ k.FirstOf pid p := by
  refine forall_congr' fun q => imp_congr_right fun earlier => ?_
  rw [born.launched.procs q (Fin.ne_of_lt earlier)]

/-- What the new process has when its spawner has got its handle. -/
theorem Born.table (born : Born k next p) (other : caller ≠ p) (handles : List Word) (few : handles.length ≤ 63) :
    ((next.passHandles caller p handles).handleAdd caller (.proc p)).2.Holds p
      (handles.filterMap (k.passed caller)) := by
  have views : next.passed caller = k.passed caller := by
    funext g
    exact passed_congr fun i => born.launched.handles caller i other
  have table := Holds.pass born.empty other handles (by rwa [List.length_nil, Nat.zero_add])
  rw [views, List.nil_append] at table
  intro i
  rw [handleAdd_others _ _ _ (fun same => other same.symm)]
  exact table i

/-- An accepted spawn that is not honoured is not whole: an error code for a
process that runs, a handle of another process, or a table with a hole. -/
theorem honourable_of_whole (live : (k.procs caller).state = .live)
    (accepts : Accepts mem early late built k caller addr p)
    (whole : SpawnsWhole k caller (spawnHandles mem caller (spawnArgsAt mem caller addr))
      (procSpawn mem early late built k caller addr)) :
    Honourable k caller p (spawnHandles mem caller (spawnArgsAt mem caller addr)) := by
  obtain ⟨born, starts, negative, found⟩ := procSpawn_accepted accepts
  have few := (checkSpawn_ok accepts.checked).2
  have valid := accepts.valid
  generalize spawnHandles mem caller (spawnArgsAt mem caller addr) = handles at whole found few valid ⊢
  generalize procSpawn mem early late built k caller addr = result at whole negative found
  have positive : k.nextPid.msb = false := by
    by_contra set
    rw [Bool.not_eq_false] at set
    rw [negative set] at whole
    refine whole.nothing (fun h success => ?_) p starts.new
    cases success.1
    have clear := success.2
    rw [set] at clear
    cases clear
  have used : (born.procs p).state ≠ .free := by
    rw [starts.launched.live]
    nofun
  -- the new process is the one of record `p` whichever record the pid finds
  have sole : ∀ q, born.procGet k.nextPid = some q -> ∃ h, result.1 = .ok h ∧
      k.Honours caller handles result.2 p ∧ q = p := by
    intro q get
    have outcome := found q positive get
    have states : ∀ r, (result.2.procs r).state = (born.procs r).state := fun r => by
      rw [outcome]
      exact (handleAdd_state _ _ _ r).trans (passHandles_states born caller q handles r)
    have new : New k result.2 p := ⟨starts.launched.idle, (states p).trans starts.launched.live⟩
    cases status : result.1 with
    | error error =>
      refine absurd new (whole.nothing (fun h success => ?_) p)
      rw [status] at success
      cases success.1
    | ok h =>
      have names : h.msb = false ∧ result.2.object caller h = some (.proc q) := by
        rw [outcome] at status ⊢
        exact handleAdd_names status
      obtain ⟨child, childNew, honours, named⟩ := whole.child h ⟨status, names.1⟩
      have same : child = p := starts.only ⟨childNew.1, (states child).symm.trans childNew.2⟩
      subst same
      rw [names.2] at named
      refine ⟨h, rfl, honours, ?_⟩
      exact Obj.proc.inj (Option.some.inj named)
  have first : k.FirstOf k.nextPid p := by
    by_contra second
    rw [← starts.first_iff] at second
    obtain ⟨q, get, other⟩ := procGet_other used starts.pid second
    obtain ⟨_, _, _, same⟩ := sole q get
    exact other same
  refine ⟨?_, positive, first⟩
  have get := procGet_first used starts.pid ((starts.first_iff _).mpr first)
  obtain ⟨h, _, honours, _⟩ := sole p get
  have other : caller ≠ p := by
    rintro rfl
    exact starts.launched.idle live
  have kept := starts.table other handles (by omega)
  rw [← found p positive get] at kept
  exact (honours_iff (by omega) valid kept).mp honours

/-- An accepted spawn that can be honoured is. -/
theorem whole_of_honourable (live : (k.procs caller).state = .live)
    (accepts : Accepts mem early late built k caller addr p)
    (honourable : Honourable k caller p (spawnHandles mem caller (spawnArgsAt mem caller addr))) :
    SpawnsWhole k caller (spawnHandles mem caller (spawnArgsAt mem caller addr))
      (procSpawn mem early late built k caller addr) := by
  obtain ⟨born, starts, _, found⟩ := procSpawn_accepted accepts
  have few := (checkSpawn_ok accepts.checked).2
  have valid := accepts.valid
  have room := accepts.room
  generalize spawnHandles mem caller (spawnArgsAt mem caller addr) = handles at honourable found few valid ⊢
  obtain ⟨passable, positive, first⟩ := honourable
  have used : (born.procs p).state ≠ .free := by
    rw [starts.launched.live]
    nofun
  have get := procGet_first used starts.pid ((starts.first_iff _).mpr first)
  have other : caller ≠ p := by
    rintro rfl
    exact starts.launched.idle live
  rw [found p positive get]
  have tables : ∀ i, (born.passHandles caller p handles).handles (caller, i) = k.handles (caller, i) := fun i =>
    (passHandles_handles born caller p handles other i).trans (starts.launched.handles caller i other)
  obtain ⟨h, next, added⟩ := handleAdd_ok room tables (.proc p)
  have names := handleAdd_names (congrArg Prod.fst added)
  have kept := starts.table other handles (by omega)
  have states : (next.procs p).state = .live := by
    have same := handleAdd_state (born.passHandles caller p handles) caller (.proc p) p
    rw [added] at same
    exact same.trans ((passHandles_states born caller p handles p).trans starts.launched.live)
  rw [added] at names kept ⊢
  refine ⟨fun h' success => ?_, fun failed => ?_⟩
  · have same : h' = h := (Except.ok.inj success.1).symm
    subst same
    exact ⟨p, ⟨starts.launched.idle, states⟩, (honours_iff (by omega) valid kept).mpr passable, names.2⟩
  · exact absurd ⟨rfl, names.1⟩ (failed h)

/-- A spawn gives the child the listed handles in their order and nothing else,
or starts nothing, exactly if one that is accepted can be honoured. -/
theorem spawnsWhole_iff (mem : UserMemory) (early late : Except FndError Unit) (built : Built) (addr : Word)
    (live : (k.procs caller).state = .live) :
    SpawnsWhole k caller (spawnHandles mem caller (spawnArgsAt mem caller addr))
        (procSpawn mem early late built k caller addr) ↔
      ∀ p, Accepts mem early late built k caller addr p ->
        Honourable k caller p (spawnHandles mem caller (spawnArgsAt mem caller addr)) := by
  constructor
  · intro whole p accepts
    exact honourable_of_whole live accepts whole
  · intro honourable
    by_cases accepted : ∃ p, Accepts mem early late built k caller addr p
    · obtain ⟨p, accepts⟩ := accepted
      exact whole_of_honourable live accepts (honourable p accepts)
    · obtain ⟨error, next, failed, kept⟩ := procSpawn_refused (not_exists.mp accepted)
      rw [failed]
      refine ⟨fun h success => ?_, fun _ p new => ?_⟩
      · cases success.1
      · exact new.1 ((kept p).symm.trans new.2)

end

/-! ## A THREAD handle in the list -/

/-- The memory of a process that spawns a child of its own priority and lists
its handle 1. -/
def spawnMemory : UserMemory where
  word := fun _ addr => if addr = 16 then 256 else if addr = 20 then 1 else if addr = 24 then 2
    else if addr = 256 then 1 else 0
  byte := fun _ _ => 0
  rangeOk := fun _ _ _ _ => true

/-- The spawn of the process whose handle 1 names its second thread. -/
def threadListed : Except FndError Word × Ipc :=
  procSpawn spawnMemory (.ok ()) (.ok ()) emptyImage secondThread 0 0

theorem threadListed_whole_iff :
    SpawnsWhole secondThread 0 (spawnHandles spawnMemory 0 (spawnArgsAt spawnMemory 0 0)) threadListed ↔
      ∀ p, Accepts spawnMemory (.ok ()) (.ok ()) emptyImage secondThread 0 0 p ->
        Honourable secondThread 0 p (spawnHandles spawnMemory 0 (spawnArgsAt spawnMemory 0 0)) :=
  spawnsWhole_iff spawnMemory (.ok ()) (.ok ()) emptyImage 0 (by decide +kernel)

/-- The spawn succeeds and the child has no handle at all. -/
theorem thread_not_passed : (machine.within Spawns).Reachable secondThread ∧ secondThread.sched.Calls 0 ∧
    secondThread.procOf 0 = 0 ∧
    ¬ SpawnsWhole secondThread 0 (spawnHandles spawnMemory 0 (spawnArgsAt spawnMemory 0 0)) threadListed := by
  refine ⟨secondThread_reachable, secondThread_calls, by decide +kernel, fun whole => ?_⟩
  have succeeds : Succeeds threadListed.1 2 := ⟨by decide +kernel, by decide⟩
  obtain ⟨child, new, honours, _⟩ := whole.child 2 succeeds
  have empty : ∀ child : ProcId, (secondThread.procs child).state ≠ .live ->
      (threadListed.2.procs child).state = .live -> threadListed.2.handles (child, 0) = none := by decide +kernel
  have first := honours 0
  rw [empty child new.1 new.2] at first
  have listed : (spawnHandles spawnMemory 0 (spawnArgsAt spawnMemory 0 0))[0]?.bind (secondThread.object 0) =
      some (.thread 1) := by decide +kernel
  exact Option.some_ne_none _ (listed.symm.trans first.symm)

end Src32.Kernel.Ipc
