import Src32.Services.Pipe

namespace Src32.Services

open Function (update update_self update_of_ne)
open List (finRange append_nil)

/-!
# What comes out of a pipe

The bytes of the writes that were accepted come out of a pipe in order, and
between two requests nothing waits that could be answered.  Bytes go missing
when a read is answered whose caller is gone, so a run must not feed such a
read.
-/

open Kernel (FndError fndOk)

/-! ## Streams -/

/-- The bytes a pipe was given. -/
def Event.accepts (no : PipeNo) : Event -> List Byte
  | .settled pipe q reply _ _ _ =>
    if pipe = no ∧ q.op = fndStWrite ∧ reply.result = fndOk then q.wbuf.take q.max else []
  | .replied .. => []

/-- The bytes that came out of a pipe and reached a reader. -/
def Event.delivers (no : PipeNo) : Event -> List Byte
  | .settled pipe q reply heard _ _ => if pipe = no ∧ q.op = fndStRead ∧ heard = true then reply.data else []
  | .replied .. => []

/-- A read that has room is answered with no data although there is some, or
there may be more. -/
def Event.falseEnd : Event -> Prop
  | .settled _ q reply _ left writer => q.op = fndStRead ∧ q.max ≠ 0 ∧ reply.data = [] ∧ (left ≠ 0 ∨ writer = true)
  | .replied .. => False

theorem read_ne_write : fndStRead ≠ fndStWrite := by decide

namespace Event

variable {no pipe : PipeNo} {q : Pending} {answers : Reply} {heard : Bool} {left : Nat} {writer : Bool}

theorem accepts_read (reads : q.op = fndStRead) : accepts no (.settled pipe q answers heard left writer) = [] :=
  if_neg fun here => read_ne_write (reads.symm.trans here.2.1)

theorem accepts_refused (refused : answers.result ≠ fndOk) :
    accepts no (.settled pipe q answers heard left writer) = [] :=
  if_neg fun here => refused here.2.2

theorem delivers_write (writes : q.op = fndStWrite) : delivers no (.settled pipe q answers heard left writer) = [] :=
  if_neg fun here => read_ne_write (here.2.1.symm.trans writes)

theorem delivers_nothing (none : answers.data = []) : delivers no (.settled pipe q answers heard left writer) = [] := by
  unfold delivers
  dsimp only
  rw [none, ite_self]

end Event

namespace PipeService

variable {s next third : PipeService} {heard : PendingIx -> Bool} {p q : PipeIx} {i j : PendingIx} {badge : Word}
  {isWrite : Bool} {ring : Ring Byte} {answers : Reply}

def accepted (s : PipeService) (no : PipeNo) : List Byte := s.events.flatMap (Event.accepts no)

def delivered (s : PipeService) (no : PipeNo) : List Byte := s.events.flatMap (Event.delivers no)

/-- What went into a pipe is what came out and what is there. -/
def Streams (s : PipeService) (p : PipeIx) : Prop :=
  s.accepted (s.pipeNo p) = s.delivered (s.pipeNo p) ++ (s.pipes p).ring.contents pipeSize

/-! ## Ends -/

/-- The badge names an open end of a pipe. -/
def End (s : PipeService) (badge : Word) (p : PipeIx) (isWrite : Bool) : Prop :=
  (s.pipes p).id ≠ 0 ∧ badge ≠ 0 ∧ (if isWrite then (s.pipes p).writeBadge else (s.pipes p).readBadge) = badge

/-- Badges name one end each, and whatever waits does so at an open end. -/
structure Wired (s : PipeService) : Prop where
  unique : ∀ badge p isWrite q other, s.End badge p isWrite -> s.End badge q other -> p = q ∧ isWrite = other
  waits : ∀ i, (s.pending i).badge ≠ 0 -> ∃ p isWrite, s.End (s.pending i).badge p isWrite ∧
    (s.pending i).op = (if isWrite then fndStWrite else fndStRead) ∧
    (isWrite = true -> (s.pending i).max ≤ pipeSize)

/-- The request waits at the pipe. -/
def WaitsAt (s : PipeService) (p : PipeIx) (i : PendingIx) (isWrite : Bool) : Prop :=
  (s.pending i).badge ≠ 0 ∧ (s.pending i).op = (if isWrite then fndStWrite else fndStRead) ∧
    (s.pending i).badge = if isWrite then (s.pipes p).writeBadge else (s.pipes p).readBadge

/-- The state of the pipe settles the request. -/
def Settleable (s : PipeService) (p : PipeIx) (i : PendingIx) : Prop :=
  (s.WaitsAt p i false ∧ ((s.pipes p).ring.count ≠ 0 ∨ (s.pipes p).writeBadge = 0)) ∨
    (s.WaitsAt p i true ∧ ((s.pipes p).readBadge = 0 ∨ (s.pipes p).ring.count + (s.pending i).max ≤ pipeSize))

/-- Nothing waits at the pipe that could be answered. -/
def Quiet (s : PipeService) (p : PipeIx) : Prop := ∀ i, ¬ s.Settleable p i

/-! ## One answer -/

/-- How a pipe answers a request: what it holds then, and the reply. -/
inductive Answers (s : PipeService) (p : PipeIx) (i : PendingIx) : Ring Byte -> Reply -> Prop where
  | fed {n : Nat} (waits : s.WaitsAt p i false) (holds : (s.pipes p).ring.count ≠ 0)
      (least : n = min (s.pipes p).ring.count (s.pending i).max) :
      Answers s p i ((s.pipes p).ring.take pipeSize n) ⟨fndOk, 0, (s.pipes p).ring.front pipeSize n⟩
  | ended (waits : s.WaitsAt p i false) (empty : (s.pipes p).ring.count = 0) (closed : (s.pipes p).writeBadge = 0) :
      Answers s p i (s.pipes p).ring ⟨fndOk, 0, []⟩
  | refused (waits : s.WaitsAt p i true) (closed : (s.pipes p).readBadge = 0) :
      Answers s p i (s.pipes p).ring ⟨FndError.peerGone.code, 0, []⟩
  | stored (waits : s.WaitsAt p i true) (opened : (s.pipes p).readBadge ≠ 0)
      (fits : (s.pipes p).ring.count + (s.pending i).max ≤ pipeSize) :
      Answers s p i ((s.pipes p).ring.put pipeSize ((s.pending i).wbuf.take (s.pending i).max))
        ⟨fndOk, BitVec.ofNat 32 (s.pending i).max, []⟩

/-- The service once the request is answered. -/
def settled (s : PipeService) (heard : PendingIx -> Bool) (p : PipeIx) (i : PendingIx) (ring : Ring Byte)
    (answers : Reply) : PipeService :=
  { s with
    pipes := update s.pipes p { s.pipes p with ring := ring }
    pending := update s.pending i { s.pending i with badge := 0 }
    events := s.events ++ [.settled (s.pipeNo p) (s.pending i) answers (heard i) ring.count
      (decide ((s.pipes p).writeBadge ≠ 0))] }

theorem settled_pipe (s : PipeService) (heard : PendingIx -> Bool) (p : PipeIx) (i : PendingIx) (ring : Ring Byte)
    (answers : Reply) : (s.settled heard p i ring answers).pipes p = { s.pipes p with ring := ring } :=
  update_self ..

theorem settled_elsewhere (other : q ≠ p) : (s.settled heard p i ring answers).pipes q = s.pipes q :=
  update_of_ne other ..

theorem settled_pending (s : PipeService) (heard : PendingIx -> Bool) (p : PipeIx) (i : PendingIx) (ring : Ring Byte)
    (answers : Reply) : (s.settled heard p i ring answers).pending i = { s.pending i with badge := 0 } :=
  update_self ..

theorem settled_others (other : j ≠ i) : (s.settled heard p i ring answers).pending j = s.pending j :=
  update_of_ne other ..

theorem Answers.settleable (answered : Answers s p i ring answers) : s.Settleable p i := by
  cases answered with
  | fed waits holds => exact Or.inl ⟨waits, Or.inl holds⟩
  | ended waits _ closed => exact Or.inl ⟨waits, Or.inr closed⟩
  | refused waits closed => exact Or.inr ⟨waits, Or.inl closed⟩
  | stored waits _ fits => exact Or.inr ⟨waits, Or.inr fits⟩

theorem WaitsAt.one (first : s.WaitsAt p i false) (second : s.WaitsAt q i true) : False :=
  read_ne_write (first.2.1.symm.trans second.2.1)

theorem settleOne_eq (s : PipeService) (heard : PendingIx -> Bool) (p : PipeIx) (i : PendingIx) (ring : Ring Byte)
    (result a0 : Word) (data : List Byte) :
    (s.modifyPipe p fun pipe => { pipe with ring := ring }).answer heard p i result a0 data =
      s.settled heard p i ring ⟨result, a0, data⟩ := by
  unfold answer modifyPipe modifyPending settled pipeNo
  simp only [update_self]

/-- A round of the loop leaves a request as it is that cannot be answered, or
answers it. -/
theorem settleOne_cases (s : PipeService) (heard : PendingIx -> Bool) (p : PipeIx) (i : PendingIx) :
    (¬ s.Settleable p i ∧ settleOne heard p s i = s) ∨
      ∃ ring answers, Answers s p i ring answers ∧ settleOne heard p s i = s.settled heard p i ring answers := by
  have same : ∀ result a0 data, s.answer heard p i result a0 data =
      s.settled heard p i (s.pipes p).ring ⟨result, a0, data⟩ := by
    intro result a0 data
    rw [← settleOne_eq]
    unfold modifyPipe
    rw [Function.update_eq_self]
  unfold settleOne
  dsimp only
  split
  · next free =>
      refine Or.inl ⟨?_, rfl⟩
      rintro (⟨waits, _⟩ | ⟨waits, _⟩)
      · exact waits.1 free
      · exact waits.1 free
  · next busy =>
      split
      · next reads =>
          have waits : s.WaitsAt p i false := ⟨busy, reads.1, reads.2⟩
          split
          · next holds =>
              refine Or.inr ⟨_, _, Answers.fed waits holds ?_, settleOne_eq ..⟩
              rw [min_def]
              split <;> split <;> omega
          · next empty =>
              split
              · next closed => exact Or.inr ⟨_, _, Answers.ended waits (not_not.mp empty) closed, same ..⟩
              · next opened =>
                  refine Or.inl ⟨?_, rfl⟩
                  rintro (⟨_, holds | closed⟩ | ⟨writes, _⟩)
                  · exact empty holds
                  · exact opened closed
                  · exact waits.one writes
      · next notRead =>
          split
          · next writes =>
              have waits : s.WaitsAt p i true := ⟨busy, writes.1, writes.2⟩
              split
              · next closed => exact Or.inr ⟨_, _, Answers.refused waits closed, same ..⟩
              · next opened =>
                  split
                  · next fits => exact Or.inr ⟨_, _, Answers.stored waits opened fits, settleOne_eq ..⟩
                  · next full =>
                      refine Or.inl ⟨?_, rfl⟩
                      rintro (⟨reads, _⟩ | ⟨_, closed | fits⟩)
                      · exact reads.one waits
                      · exact opened closed
                      · exact full fits
          · next notWrite =>
              refine Or.inl ⟨?_, rfl⟩
              rintro (⟨reads, _⟩ | ⟨writes, _⟩)
              · exact notRead reads.2
              · exact notWrite writes.2

/-! ## What an answer leaves as it is -/

/-- Only what pipe `p` holds changes, and requests that waited are over. -/
structure Frame (p : PipeIx) (s next : PipeService) : Prop where
  opened : next.opened = s.opened
  ends : ∀ q, (next.pipes q).id = (s.pipes q).id ∧ (next.pipes q).readBadge = (s.pipes q).readBadge ∧
    (next.pipes q).writeBadge = (s.pipes q).writeBadge
  elsewhere : ∀ q, q ≠ p -> next.pipes q = s.pipes q
  pending : ∀ i, next.pending i = s.pending i ∨ next.pending i = { s.pending i with badge := 0 }

theorem Frame.refl (p : PipeIx) (s : PipeService) : Frame p s s :=
  ⟨rfl, fun _ => ⟨rfl, rfl, rfl⟩, fun _ _ => rfl, fun _ => Or.inl rfl⟩

theorem Frame.trans (first : Frame p s next) (second : Frame p next third) : Frame p s third := by
  refine ⟨second.opened.trans first.opened, fun q => ?_, fun q other => ?_, fun i => ?_⟩
  · obtain ⟨id, reads, writes⟩ := first.ends q
    obtain ⟨id', reads', writes'⟩ := second.ends q
    exact ⟨id'.trans id, reads'.trans reads, writes'.trans writes⟩
  · exact (second.elsewhere q other).trans (first.elsewhere q other)
  · rcases second.pending i with same | over_
    · rw [same]
      exact first.pending i
    · rcases first.pending i with before | before
      · rw [over_, before]
        exact Or.inr rfl
      · rw [over_, before]
        exact Or.inr rfl

theorem frame_settled (s : PipeService) (heard : PendingIx -> Bool) (p : PipeIx) (i : PendingIx) (ring : Ring Byte)
    (answers : Reply) : Frame p s (s.settled heard p i ring answers) := by
  refine ⟨rfl, fun q => ?_, fun q other => settled_elsewhere other, fun j => ?_⟩
  · by_cases same : q = p
    · rw [same, settled_pipe]
      exact ⟨rfl, rfl, rfl⟩
    · rw [settled_elsewhere same]
      exact ⟨rfl, rfl, rfl⟩
  · by_cases same : j = i
    · rw [same, settled_pending]
      exact Or.inr rfl
    · exact Or.inl (settled_others same)

theorem frame_settleOne (s : PipeService) (heard : PendingIx -> Bool) (p : PipeIx) (i : PendingIx) :
    Frame p s (settleOne heard p s i) := by
  rcases settleOne_cases s heard p i with ⟨_, same⟩ | ⟨ring, answers, _, done⟩
  · rw [same]
    exact Frame.refl p s
  · rw [done]
    exact frame_settled ..

theorem frame_settles (heard : PendingIx -> Bool) (p : PipeIx) (items : List PendingIx) (s : PipeService) :
    Frame p s (items.foldl (settleOne heard p) s) := by
  induction items generalizing s with
  | nil => exact Frame.refl p s
  | cons i rest ih => exact (frame_settleOne s heard p i).trans (ih (settleOne heard p s i))

theorem frame_settle (s : PipeService) (heard : PendingIx -> Bool) (p : PipeIx) : Frame p s (s.settle heard p) :=
  frame_settles heard p (finRange 16) s

theorem Frame.end_iff (frame : Frame p s next) : next.End badge q isWrite ↔ s.End badge q isWrite := by
  obtain ⟨id, reads, writes⟩ := frame.ends q
  unfold End
  rw [id, reads, writes]

theorem Frame.waitsAt (frame : Frame p s next) (waits : next.WaitsAt q i isWrite) :
    s.WaitsAt q i isWrite ∧ next.pending i = s.pending i := by
  obtain ⟨_, reads, writes⟩ := frame.ends q
  rcases frame.pending i with same | over_
  · unfold WaitsAt at waits
    rw [same, reads, writes] at waits
    exact ⟨waits, same⟩
  · have busy := waits.1
    rw [over_] at busy
    exact absurd rfl busy

theorem Frame.wired (frame : Frame p s next) (wired : s.Wired) : next.Wired := by
  refine ⟨fun badge q isWrite r other first second => ?_, fun i busy => ?_⟩
  · exact wired.unique badge q isWrite r other (frame.end_iff.mp first) (frame.end_iff.mp second)
  · rcases frame.pending i with same | over_
    · rw [same] at busy ⊢
      obtain ⟨q, isWrite, ends, waits⟩ := wired.waits i busy
      exact ⟨q, isWrite, frame.end_iff.mpr ends, waits⟩
    · rw [over_] at busy
      exact absurd rfl busy

/-- Other pipes settle no more than before. -/
theorem Frame.quiet (frame : Frame p s next) (other : q ≠ p) (quiet : s.Quiet q) : next.Quiet q := by
  intro i settleable
  refine quiet i ?_
  have pipe := frame.elsewhere q other
  rcases settleable with ⟨waits, state⟩ | ⟨waits, state⟩
  · rw [pipe] at state
    exact Or.inl ⟨(frame.waitsAt waits).1, state⟩
  · obtain ⟨before, same⟩ := frame.waitsAt waits
    rw [pipe, same] at state
    exact Or.inr ⟨before, state⟩

/-! ## A loop over requests of one kind -/

/-- The requests that wait at the pipe are all reads or all writes. -/
def Alike (s : PipeService) (p : PipeIx) : Prop := (∀ i, ¬ s.WaitsAt p i true) ∨ ∀ i, ¬ s.WaitsAt p i false

theorem Frame.alike (frame : Frame p s next) (alike : s.Alike p) : next.Alike p :=
  alike.imp (fun none i waits => none i (frame.waitsAt waits).1) fun none i waits => none i (frame.waitsAt waits).1

/-- A request is over once it is answered. -/
theorem settled_over (s : PipeService) (heard : PendingIx -> Bool) (p : PipeIx) (i : PendingIx) (ring : Ring Byte)
    (answers : Reply) : ¬ (s.settled heard p i ring answers).Settleable p i := by
  have free : ((s.settled heard p i ring answers).pending i).badge = 0 := by
    rw [settled_pending]
  rintro (⟨waits, _⟩ | ⟨waits, _⟩)
  · exact waits.1 free
  · exact waits.1 free

/-- Answering a request settles no other one of its kind. -/
theorem Answers.others (answered : Answers s p i ring answers) (alike : s.Alike p) (calm : ¬ s.Settleable p j) :
    ¬ (s.settled heard p i ring answers).Settleable p j := by
  have frame := frame_settled s heard p i ring answers
  have reads : s.WaitsAt p j false -> (s.pipes p).ring.count = 0 ∧ (s.pipes p).writeBadge ≠ 0 := by
    intro waits
    have neither := fun state => calm (Or.inl ⟨waits, state⟩)
    exact ⟨not_not.mp fun holds => neither (Or.inl holds), fun closed => neither (Or.inr closed)⟩
  have writes : s.WaitsAt p j true -> (s.pipes p).readBadge ≠ 0 ∧
      pipeSize < (s.pipes p).ring.count + (s.pending j).max := by
    intro waits
    have neither := fun state => calm (Or.inr ⟨waits, state⟩)
    exact ⟨fun closed => neither (Or.inl closed), Nat.lt_of_not_le fun fits => neither (Or.inr fits)⟩
  have both : s.WaitsAt p i true -> s.WaitsAt p j false -> False :=
    fun first second => alike.elim (fun none => none i first) fun none => none j second
  have both' : s.WaitsAt p i false -> s.WaitsAt p j true -> False :=
    fun first second => alike.elim (fun none => none j second) fun none => none i first
  rintro (⟨waits, state⟩ | ⟨waits, state⟩)
  · have before := (frame.waitsAt waits).1
    obtain ⟨empty, opened⟩ := reads before
    rw [settled_pipe] at state
    cases answered with
    | fed _ holds => exact holds empty
    | ended _ _ closed => exact opened closed
    | refused writing _ | stored writing _ _ => exact both writing before
  · obtain ⟨before, same⟩ := frame.waitsAt waits
    obtain ⟨opened, full⟩ := writes before
    rw [settled_pipe, same] at state
    cases answered with
    | fed reading _ | ended reading _ _ => exact both' reading before
    | refused _ closed => exact opened closed
    | stored _ _ _ =>
      rcases state with closed | fits
      · exact opened closed
      · change (s.pipes p).ring.count + _ + (s.pending j).max ≤ pipeSize at fits
        omega

theorem settles_calm (items : List PendingIx) (alike : s.Alike p) :
    (∀ j, ¬ s.Settleable p j -> ¬ (items.foldl (settleOne heard p) s).Settleable p j) ∧
      ∀ j ∈ items, ¬ (items.foldl (settleOne heard p) s).Settleable p j := by
  induction items generalizing s with
  | nil => exact ⟨fun _ calm => calm, fun _ => nofun⟩
  | cons i rest ih =>
    have one : (∀ j, ¬ s.Settleable p j -> ¬ (settleOne heard p s i).Settleable p j) ∧
        ¬ (settleOne heard p s i).Settleable p i := by
      rcases settleOne_cases s heard p i with ⟨calm, same⟩ | ⟨ring, answers, answered, done⟩
      · rw [same]
        exact ⟨fun _ calm => calm, calm⟩
      · rw [done]
        exact ⟨fun j calm => answered.others alike calm, settled_over s heard p i ring answers⟩
    obtain ⟨still, here⟩ := ih ((frame_settleOne s heard p i).alike alike)
    refine ⟨fun j calm => still j (one.1 j calm), fun j member => ?_⟩
    rcases List.mem_cons.mp member with rfl | later
    · exact still j one.2
    · exact here j later

/-- Requests that cannot be answered are passed by. -/
theorem settles_same (items : List PendingIx) (calm : ∀ j ∈ items, ¬ s.Settleable p j) :
    items.foldl (settleOne heard p) s = s := by
  induction items with
  | nil => rfl
  | cons i rest ih =>
    have same : settleOne heard p s i = s := by
      rcases settleOne_cases s heard p i with ⟨_, same⟩ | ⟨_, _, answered, _⟩
      · exact same
      · exact absurd answered.settleable (calm i List.mem_cons_self)
    rw [List.foldl_cons, same]
    exact ih fun j member => calm j (List.mem_cons_of_mem i member)

theorem settle_same (quiet : s.Quiet p) : s.settle heard p = s := settles_same _ fun j _ => quiet j

/-! ## Both rounds -/

/-- The records behind record `i`, and those before it: the order in which they
are served from it on. -/
def from_ (i : PendingIx) : List PendingIx :=
  (finRange 16).filter (i < ·) ++ (finRange 16).filter (· < i)

theorem finRange_split (i : PendingIx) :
    finRange 16 = (finRange 16).filter (· < i) ++ i :: (finRange 16).filter (i < ·) := by
  revert i
  decide

theorem from_nodup (i : PendingIx) : (from_ i).Nodup ∧ i ∉ from_ i ∧ ∀ j, j ≠ i -> j ∈ from_ i := by
  revert i
  decide

/-- A round that finds something to answer at one pipe only. -/
theorem settleRound_eq (used : (s.pipes p).id ≠ 0) (others : ∀ q, q ≠ p -> (s.pipes q).id ≠ 0 -> s.Quiet q) :
    s.settleRound heard = s.settle heard p := by
  have pass : ∀ (items : List PipeIx) (t : PipeService), (∀ q ∈ items, (t.pipes q).id ≠ 0 -> t.Quiet q) ->
      items.foldl (fun s p => if (s.pipes p).id ≠ 0 then s.settle heard p else s) t = t := by
    intro items t quiet
    induction items with
    | nil => rfl
    | cons q rest ih =>
      rw [List.foldl_cons]
      have same : (if (t.pipes q).id ≠ 0 then t.settle heard q else t) = t := by
        split
        · next open_ => exact settle_same (quiet q List.mem_cons_self open_)
        · rfl
      rw [same]
      exact ih fun r member => quiet r (List.mem_cons_of_mem q member)
  obtain ⟨before, behind, split⟩ := List.append_of_mem (List.mem_finRange p)
  have distinct := List.nodup_finRange 16
  rw [split] at distinct
  obtain ⟨_, tail, apart⟩ := List.nodup_append.mp distinct
  have early : ∀ q ∈ before, q ≠ p := fun q member => apart q member p List.mem_cons_self
  have late : ∀ q ∈ behind, q ≠ p := by
    rintro q member rfl
    exact (List.nodup_cons.mp tail).1 member
  have frame := frame_settle s heard p
  have first := pass before s fun q member => others q (early q member)
  have last := pass behind (s.settle heard p) fun q member open_ => by
    rw [(frame.ends q).1] at open_
    exact frame.quiet (late q member) (others q (late q member) open_)
  unfold settleRound
  rw [split, List.foldl_append, first, List.foldl_cons, if_pos used]
  exact last

/-- What a request that joins comes to: nothing, or it is answered, and then the
others are served from its record on. -/
theorem settleAll_eq (used : (s.pipes p).id ≠ 0) (others : ∀ q, q ≠ p -> (s.pipes q).id ≠ 0 -> s.Quiet q)
    (rest : ∀ j, j ≠ i -> ¬ s.Settleable p j) (alike : s.Settleable p i -> (settleOne heard p s i).Alike p) :
    (s.Quiet p ∧ s.settleAll heard = s) ∨
      (s.Settleable p i ∧ s.settleAll heard = (from_ i).foldl (settleOne heard p) (settleOne heard p s i) ∧
        (s.settleAll heard).Quiet p) := by
  have first := @settleRound_eq s heard p used others
  have frame := frame_settle s heard p
  have second : (s.settle heard p).settleRound heard = (s.settle heard p).settle heard p := by
    apply settleRound_eq
    · rw [(frame.ends p).1]
      exact used
    · intro q other open_
      rw [(frame.ends q).1] at open_
      exact frame.quiet other (others q other open_)
  have whole : s.settleAll heard = (s.settle heard p).settle heard p := by
    unfold settleAll
    rw [first, second]
  by_cases settles : s.Settleable p i
  · refine Or.inr ⟨settles, ?_⟩
    have before : ((finRange 16).filter (· < i)).foldl (settleOne heard p) s = s := by
      refine settles_same _ fun j member => rest j ?_
      rintro rfl
      exact Nat.lt_irrefl j.val (of_decide_eq_true (List.mem_filter.mp member).2)
    have round : s.settle heard p = ((finRange 16).filter (i < ·)).foldl (settleOne heard p) (settleOne heard p s i) := by
      unfold settle
      rw [finRange_split i, List.foldl_append, before, List.foldl_cons]
      rw [← finRange_split i]
    have over_ : ¬ (settleOne heard p s i).Settleable p i := by
      rcases settleOne_cases s heard p i with ⟨calm, _⟩ | ⟨ring, answers, _, done⟩
      · exact absurd settles calm
      · rw [done]
        exact settled_over s heard p i ring answers
    obtain ⟨still, served⟩ := @settles_calm _ heard p (from_ i) (alike settles)
    have quiet : ((from_ i).foldl (settleOne heard p) (settleOne heard p s i)).Quiet p := by
      intro j
      by_cases same : j = i
      · rw [same]
        exact still i over_
      · exact served j ((from_nodup i).2.2 j same)
    have again : (s.settle heard p).settle heard p = (from_ i).foldl (settleOne heard p) (settleOne heard p s i) := by
      have loop : (s.settle heard p).settle heard p = (i :: (finRange 16).filter (i < ·)).foldl (settleOne heard p)
          ((from_ i).foldl (settleOne heard p) (settleOne heard p s i)) := by
        rw [round]
        unfold settle from_
        rw [finRange_split i, List.foldl_append]
        rw [← finRange_split i, List.foldl_append]
      rw [loop]
      exact settles_same _ fun j _ => quiet j
    rw [whole, again]
    exact ⟨rfl, quiet⟩
  · have quiet : s.Quiet p := by
      intro j
      by_cases same : j = i
      · rw [same]
        exact settles
      · exact rest j same
    refine Or.inl ⟨quiet, ?_⟩
    rw [whole, settle_same quiet, settle_same quiet]

/-! ## Bytes -/

/-- What the past says about the bytes in the pipes. -/
structure Kept (s : PipeService) : Prop where
  streams : ∀ p, (s.pipes p).id ≠ 0 -> s.Streams p
  prefixes : ∀ no, s.delivered no <+: s.accepted no
  ahead : ∀ p n, s.opened p < n -> s.accepted (p, n) = [] ∧ s.delivered (p, n) = []
  ends : ∀ event ∈ s.events, ¬ event.falseEnd

/-- Nothing goes into a pipe or out of it. -/
theorem Kept.same (kept : s.Kept)
    (pipes : ∀ q, (next.pipes q).id ≠ 0 -> (s.pipes q).id ≠ 0 ∧ (next.pipes q).ring = (s.pipes q).ring)
    (opened : next.opened = s.opened)
    (events : next.events = s.events ∨ ∃ token answers, next.events = s.events ++ [.replied token answers]) : next.Kept := by
  have accepts : ∀ no, next.accepted no = s.accepted no := by
    intro no
    unfold accepted
    rcases events with same | ⟨token, answers, more⟩
    · rw [same]
    · rw [more, List.flatMap_append]
      exact append_nil _
  have delivers : ∀ no, next.delivered no = s.delivered no := by
    intro no
    unfold delivered
    rcases events with same | ⟨token, answers, more⟩
    · rw [same]
    · rw [more, List.flatMap_append]
      exact append_nil _
  refine ⟨fun q used => ?_, fun no => ?_, fun q n beyond => ?_, fun event member => ?_⟩
  · obtain ⟨before, ring⟩ := pipes q used
    have streams := kept.streams q before
    unfold Streams pipeNo at streams ⊢
    rw [accepts, delivers, opened, ring]
    exact streams
  · rw [accepts, delivers]
    exact kept.prefixes no
  · rw [accepts, delivers]
    rw [opened] at beyond
    exact kept.ahead q n beyond
  · rcases events with same | ⟨token, answers, more⟩
    · rw [same] at member
      exact kept.ends event member
    · rw [more, List.mem_append] at member
      rcases member with before | now
      · exact kept.ends event before
      · rw [List.mem_singleton.mp now]
        exact fun impossible => impossible

/-- A request is answered, by a pipe that loses nothing with it. -/
theorem Kept.settled (kept : s.Kept) (used : (s.pipes p).id ≠ 0) (answered : Answers s p i ring answers)
    (reader : s.WaitsAt p i false -> (s.pipes p).ring.count ≠ 0 -> heard i = true ∨ (s.pending i).max = 0) :
    (s.settled heard p i ring answers).Kept := by
  have frame := frame_settled s heard p i ring answers
  have streams := kept.streams p used
  generalize happened : Event.settled (s.pipeNo p) (s.pending i) answers (heard i) ring.count
    (decide ((s.pipes p).writeBadge ≠ 0)) = event
  have events : (s.settled heard p i ring answers).events = s.events ++ [event] := by
    rw [← happened]
    rfl
  have accepts : ∀ no, (s.settled heard p i ring answers).accepted no = s.accepted no ++ event.accepts no := by
    intro no
    unfold accepted
    rw [events, List.flatMap_append, List.flatMap_singleton]
  have delivers : ∀ no, (s.settled heard p i ring answers).delivered no = s.delivered no ++ event.delivers no := by
    intro no
    unfold delivered
    rw [events, List.flatMap_append, List.flatMap_singleton]
  have others : ∀ no, no ≠ s.pipeNo p -> event.accepts no = [] ∧ event.delivers no = [] := by
    intro no other
    rw [← happened]
    exact ⟨if_neg fun here => other here.1.symm, if_neg fun here => other here.1.symm⟩
  -- What comes in and what goes out agree with what the pipe holds then.
  have balance : (s.pipes p).ring.contents pipeSize ++ event.accepts (s.pipeNo p) =
      event.delivers (s.pipeNo p) ++ ring.contents pipeSize := by
    rw [← happened]
    cases answered with
    | fed waits holds least =>
      have op : (s.pending i).op = fndStRead := waits.2.1
      have few := least.trans_le (min_le_left _ _)
      have all := @Ring.contents_front _ pipeSize (s.pipes p).ring _ few
      rw [Event.accepts_read op, append_nil, ← all]
      congr 1
      rcases reader waits holds with there | nothing
      · exact (if_pos ⟨rfl, op, there⟩).symm
      · have zero := least.trans (by rw [nothing, Nat.min_zero])
        have none : (s.pipes p).ring.front pipeSize _ = [] := congrArg ((s.pipes p).ring.front pipeSize) zero
        rw [none]
        exact (Event.delivers_nothing rfl).symm
    | ended waits => rw [Event.accepts_read waits.2.1, Event.delivers_nothing rfl, append_nil, List.nil_append]
    | refused waits =>
      rw [Event.accepts_refused (FndError.code_ne_fndOk _), Event.delivers_nothing rfl, append_nil, List.nil_append]
    | stored waits _ fits =>
      have op : (s.pending i).op = fndStWrite := waits.2.1
      have short := List.length_take_le (s.pending i).max (s.pending i).wbuf
      rw [Event.delivers_write op, List.nil_append, Ring.contents_put (by omega)]
      congr 1
      exact if_pos ⟨rfl, op, rfl⟩
  have whole : (s.settled heard p i ring answers).accepted (s.pipeNo p) =
      (s.settled heard p i ring answers).delivered (s.pipeNo p) ++ ring.contents pipeSize := by
    rw [accepts, delivers, streams, List.append_assoc, balance, List.append_assoc]
  refine ⟨fun q open_ => ?_, fun no => ?_, fun q n beyond => ?_, fun other member => ?_⟩
  · by_cases same : q = p
    · rw [same]
      unfold Streams
      rw [settled_pipe]
      exact whole
    · have before := kept.streams q ((frame.ends q).1 ▸ open_)
      have apart : s.pipeNo q ≠ s.pipeNo p := fun equal => same (Prod.mk.inj equal).1
      unfold Streams
      rw [settled_elsewhere same]
      change (s.settled heard p i ring answers).accepted (s.pipeNo q) =
        (s.settled heard p i ring answers).delivered (s.pipeNo q) ++ _
      rw [accepts, delivers, (others _ apart).1, (others _ apart).2, append_nil, append_nil]
      exact before
  · by_cases same : no = s.pipeNo p
    · rw [same, whole]
      exact List.prefix_append ..
    · rw [accepts, delivers, (others no same).1, (others no same).2, append_nil, append_nil]
      exact kept.prefixes no
  · have apart : (q, n) ≠ s.pipeNo p := by
      intro equal
      obtain ⟨record, number⟩ := Prod.mk.inj equal
      have less : s.opened q < n := beyond
      rw [record, ← number] at less
      exact Nat.lt_irrefl n less
    rw [accepts, delivers, (others _ apart).1, (others _ apart).2, append_nil, append_nil]
    exact kept.ahead q n beyond
  · rw [events, List.mem_append] at member
    rcases member with before | now
    · exact kept.ends other before
    · rw [List.mem_singleton.mp now, ← happened]
      rintro ⟨op, room, none, state⟩
      cases answered with
      | fed waits holds least =>
        have length := congrArg List.length none
        rw [Ring.front, Ring.read_length] at length
        change _ = 0 at length
        omega
      | ended waits empty closed =>
        rcases state with left | writer
        · exact left empty
        · exact (of_decide_eq_true writer) closed
      | refused waits | stored waits => exact read_ne_write (op.symm.trans waits.2.1)

/-! ## Readers that are fed -/

/-- The bytes a read that waits at the pipe has room for. -/
def room (s : PipeService) (p : PipeIx) (i : PendingIx) : Nat :=
  if (s.pending i).badge ≠ 0 ∧ (s.pending i).op = fndStRead ∧ (s.pending i).badge = (s.pipes p).readBadge then
    (s.pending i).max
  else 0

/-- Of reads that are served in this order, those that `count` bytes get to are
heard of. -/
def Fed (heard : PendingIx -> Bool) (room : PendingIx -> Nat) : Nat -> List PendingIx -> Prop
  | _, [] => True
  | count, i :: rest => (heard i = true ∨ room i = 0 ∨ count = 0) ∧ Fed heard room (count - room i) rest

theorem room_waits (waits : s.WaitsAt p i false) : s.room p i = (s.pending i).max := if_pos waits

theorem room_away (away : ¬ s.WaitsAt p i false) : s.room p i = 0 := if_neg away

theorem fed_none {room : PendingIx -> Nat} (items : List PendingIx) (none : ∀ i ∈ items, room i = 0) (count : Nat) :
    Fed heard room count items := by
  induction items generalizing count with
  | nil => trivial
  | cons i rest ih =>
    exact ⟨Or.inr (Or.inl (none i List.mem_cons_self)), ih (fun j member => none j (List.mem_cons_of_mem i member)) _⟩

theorem fed_empty {room : PendingIx -> Nat} (items : List PendingIx) : Fed heard room 0 items := by
  induction items with
  | nil => trivial
  | cons i rest ih =>
    refine ⟨Or.inr (Or.inr rfl), ?_⟩
    rw [Nat.zero_sub]
    exact ih

theorem fed_congr {room other : PendingIx -> Nat} {count : Nat} {items : List PendingIx}
    (same : ∀ i ∈ items, other i = room i) (fed : Fed heard room count items) : Fed heard other count items := by
  induction items generalizing count with
  | nil => trivial
  | cons i rest ih =>
    obtain ⟨first, later⟩ := fed
    have here := same i List.mem_cons_self
    unfold Fed
    rw [here]
    exact ⟨first, ih (fun j member => same j (List.mem_cons_of_mem i member)) later⟩

theorem room_settled (other : j ≠ i) : (s.settled heard p i ring answers).room p j = s.room p j := by
  unfold room
  rw [settled_others other, settled_pipe]

/-- Requests of one kind are served, and every read that is given bytes is there
to take them. -/
theorem Kept.settles (kept : s.Kept) (used : (s.pipes p).id ≠ 0) (alike : s.Alike p) (items : List PendingIx)
    (distinct : items.Nodup) (fed : Fed heard (s.room p) (s.pipes p).ring.count items) :
    (items.foldl (settleOne heard p) s).Kept := by
  induction items generalizing s with
  | nil => exact kept
  | cons i rest ih =>
    obtain ⟨here, later⟩ := fed
    obtain ⟨apart, distinct⟩ := List.nodup_cons.mp distinct
    have frame := frame_settleOne s heard p i
    have used' : ((settleOne heard p s i).pipes p).id ≠ 0 := by
      rw [(frame.ends p).1]
      exact used
    have others : ∀ j ∈ rest, j ≠ i := by
      rintro j member rfl
      exact apart member
    rw [List.foldl_cons]
    rcases settleOne_cases s heard p i with ⟨calm, same⟩ | ⟨ring, answers, answered, done⟩
    · rw [same]
      refine ih kept used alike distinct ?_
      by_cases waits : s.WaitsAt p i false
      · have empty : (s.pipes p).ring.count = 0 := by
          by_contra holds
          exact calm (Or.inl ⟨waits, Or.inl holds⟩)
        rw [empty]
        exact fed_empty rest
      · rw [room_away waits, Nat.sub_zero] at later
        exact later
    · rw [done] at frame used' ⊢
      have stays : (s.settled heard p i ring answers).Kept := by
        refine kept.settled used answered fun waits holds => ?_
        rw [room_waits waits] at here
        exact here.imp_right fun either => either.resolve_right holds
      refine ih stays used' (frame.alike alike) distinct (fed_congr (fun j member => room_settled (others j member)) ?_)
      rw [settled_pipe]
      cases answered with
      | @fed n waits holds least =>
        rw [room_waits waits] at later
        have count : ((s.pipes p).ring.take pipeSize n).count = (s.pipes p).ring.count - (s.pending i).max := by
          change (s.pipes p).ring.count - n = _
          omega
        rw [count]
        exact later
      | ended _ empty _ =>
        rw [empty]
        exact fed_empty rest
      | refused waits _ =>
        rw [room_away fun reads => reads.one waits, Nat.sub_zero] at later
        exact later
      | stored waits _ _ =>
        refine fed_none rest (fun j _ => room_away fun reads => ?_) _
        exact alike.elim (fun none => none i waits) fun none => none j reads

/-! ## A request joins -/

structure Sound (s : PipeService) : Prop where
  wired : s.Wired
  quiet : ∀ p, (s.pipes p).id ≠ 0 -> s.Quiet p
  kept : s.Kept

theorem WaitsAt.ends (waits : s.WaitsAt p i isWrite) (used : (s.pipes p).id ≠ 0) :
    s.End (s.pending i).badge p isWrite := ⟨used, waits.1, waits.2.2.symm⟩

/-- A read waits for a writer at an empty pipe only. -/
theorem Quiet.reads (quiet : s.Quiet p) (waits : s.WaitsAt p i false) :
    (s.pipes p).ring.count = 0 ∧ (s.pipes p).writeBadge ≠ 0 := by
  have neither := fun state => quiet i (Or.inl ⟨waits, state⟩)
  exact ⟨not_not.mp fun holds => neither (Or.inl holds), fun closed => neither (Or.inr closed)⟩

/-- A write waits for room in a pipe that somebody reads. -/
theorem Quiet.writes (quiet : s.Quiet p) (waits : s.WaitsAt p i true) :
    (s.pipes p).readBadge ≠ 0 ∧ pipeSize < (s.pipes p).ring.count + (s.pending i).max := by
  have neither := fun state => quiet i (Or.inr ⟨waits, state⟩)
  exact ⟨fun closed => neither (Or.inl closed), Nat.lt_of_not_le fun fits => neither (Or.inr fits)⟩

theorem Sound.alike (sound : s.Sound) (used : (s.pipes p).id ≠ 0) : s.Alike p := by
  by_cases reads : ∃ i, s.WaitsAt p i false
  · obtain ⟨i, reading⟩ := reads
    refine Or.inl fun j writing => ?_
    obtain ⟨empty, _⟩ := (sound.quiet p used).reads reading
    obtain ⟨_, full⟩ := (sound.quiet p used).writes writing
    obtain ⟨q, isWrite, _, op, small⟩ := sound.wired.waits j writing.1
    cases isWrite with
    | false => exact read_ne_write (op.symm.trans writing.2.1)
    | true =>
      have fits := small rfl
      omega
  · exact Or.inr fun i reading => reads ⟨i, reading⟩

/-- The service with a request in record `i`. -/
def joined (s : PipeService) (i : PendingIx) (q : Pending) : PipeService :=
  { s with pending := update s.pending i q }

variable {request : Pending}

theorem joined_pending (s : PipeService) (i : PendingIx) (q : Pending) : (s.joined i q).pending i = q :=
  update_self ..

theorem joined_others (other : j ≠ i) : (s.joined i request).pending j = s.pending j := update_of_ne other ..

theorem joined_waits (other : j ≠ i) : (s.joined i request).WaitsAt p j isWrite ↔ s.WaitsAt p j isWrite := by
  unfold WaitsAt
  rw [joined_others other]
  exact Iff.rfl

theorem joined_settleable (other : j ≠ i) : (s.joined i request).Settleable p j ↔ s.Settleable p j := by
  unfold Settleable WaitsAt
  rw [joined_others other]
  exact Iff.rfl

theorem Wired.joined (wired : s.Wired) (ends : s.End request.badge p isWrite)
    (op : request.op = if isWrite then fndStWrite else fndStRead) (small : isWrite = true -> request.max ≤ pipeSize) :
    (s.joined i request).Wired := by
  refine ⟨wired.unique, fun j busy => ?_⟩
  by_cases same : j = i
  · rw [same, joined_pending]
    exact ⟨p, isWrite, ends, op, small⟩
  · rw [joined_others same] at busy ⊢
    exact wired.waits j busy

/-- A request joins at an open end, and is answered together with those that it
lets go on. -/
theorem Sound.joined (sound : s.Sound) (ends : s.End request.badge p isWrite)
    (op : request.op = if isWrite then fndStWrite else fndStRead) (small : isWrite = true -> request.max ≤ pipeSize)
    (reader : isWrite = false -> (s.pipes p).ring.count ≠ 0 -> heard i = true ∨ request.max = 0)
    (fed : isWrite = true -> Fed heard (s.room p) (request.wbuf.take request.max).length (from_ i)) :
    ((s.joined i request).settleAll heard).Sound := by
  have used := ends.1
  have wired := sound.wired.joined (i := i) ends op small
  have kept : (s.joined i request).Kept := sound.kept.same (fun _ open_ => ⟨open_, rfl⟩) rfl (Or.inl rfl)
  have others : ∀ q, q ≠ p -> ((s.joined i request).pipes q).id ≠ 0 -> (s.joined i request).Quiet q := by
    intro q other open_ j settleable
    by_cases same : j = i
    · have elsewhere : ∀ isWrite', ¬ (s.joined i request).WaitsAt q i isWrite' := by
        intro isWrite' waits
        have there := waits.ends open_
        rw [joined_pending] at there
        exact other (sound.wired.unique _ _ _ _ _ there ends).1
      rw [same] at settleable
      exact settleable.elim (fun both => elsewhere _ both.1) fun both => elsewhere _ both.1
    · exact sound.quiet q open_ j ((joined_settleable same).mp settleable)
  have rest : ∀ j, j ≠ i -> ¬ (s.joined i request).Settleable p j := fun j other settleable =>
    sound.quiet p used j ((joined_settleable other).mp settleable)
  -- The others wait as before, and are of one kind.
  have behind : ∀ {ring answers j isWrite'}, ((s.joined i request).settled heard p i ring answers).WaitsAt p j isWrite' ->
      j ≠ i ∧ s.WaitsAt p j isWrite' := by
    intro ring answers j isWrite' waits
    have other : j ≠ i := by
      rintro rfl
      refine waits.1 ?_
      rw [settled_pending]
    exact ⟨other, (joined_waits other).mp ((frame_settled ..).waitsAt waits).1⟩
  have alike : ∀ ring answers, ((s.joined i request).settled heard p i ring answers).Alike p := fun _ _ =>
    (sound.alike used).imp (fun none j waits => none j (behind waits).2) fun none j waits => none j (behind waits).2
  have outcome := @settleAll_eq (s.joined i request) heard p i used others rest fun settles => by
    rcases settleOne_cases (s.joined i request) heard p i with ⟨calm, _⟩ | ⟨ring, answers, _, done⟩
    · exact absurd settles calm
    · rw [done]
      exact alike ring answers
  rcases outcome with ⟨quiet, same⟩ | ⟨settles, same, quiet⟩
  · rw [same]
    refine ⟨wired, fun q open_ => ?_, kept⟩
    by_cases here : q = p
    · rw [here]
      exact quiet
    · exact others q here open_
  · rcases settleOne_cases (s.joined i request) heard p i with ⟨calm, _⟩ | ⟨ring, answers, answered, done⟩
    · exact absurd settles calm
    · rw [done] at same
      have first := frame_settled (s.joined i request) heard p i ring answers
      have frame := first.trans (frame_settles heard p (from_ i) _)
      rw [← same] at frame
      refine ⟨frame.wired wired, fun q open_ => ?_, ?_⟩
      · by_cases here : q = p
        · rw [here]
          exact quiet
        · rw [(frame.ends q).1] at open_
          exact frame.quiet here (others q here open_)
      · have reads : (s.joined i request).WaitsAt p i false -> isWrite = false := by
          intro waits
          cases isWrite with
          | false => rfl
          | true =>
            have reading := waits.2.1
            rw [joined_pending] at reading
            exact absurd (reading.symm.trans op) read_ne_write
        have stays : ((s.joined i request).settled heard p i ring answers).Kept := by
          refine kept.settled used answered fun waits holds => ?_
          rw [joined_pending]
          exact reader (reads waits) holds
        rw [same]
        refine stays.settles ?_ (alike ring answers) (from_ i) (from_nodup i).1 ?_
        · rw [(first.ends p).1]
          exact used
        · -- Reads that wait are given what the write brings to the empty pipe.
          by_cases waiting : ∃ j, s.WaitsAt p j false
          · obtain ⟨j, reading⟩ := waiting
            obtain ⟨empty, opened⟩ := (sound.quiet p used).reads reading
            rw [settled_pipe]
            cases answered with
            | fed _ holds => exact absurd empty holds
            | ended _ _ closed => exact absurd closed opened
            | refused _ closed => exact absurd (reading.2.2.trans closed) reading.1
            | stored waits =>
              have writes : isWrite = true := by
                cases isWrite with
                | true => rfl
                | false =>
                  have writing := waits.2.1
                  rw [joined_pending] at writing
                  exact absurd (op.symm.trans writing) read_ne_write
              change Fed heard _ ((s.pipes p).ring.count + _) (from_ i)
              rw [empty, Nat.zero_add, joined_pending]
              refine fed_congr (fun j member => ?_) (fed writes)
              have other : j ≠ i := fun equal => (from_nodup i).2.1 (equal ▸ member)
              rw [room_settled other]
              unfold room
              rw [joined_others other]
              rfl
          · refine fed_none _ (fun j _ => room_away fun reading => waiting ⟨j, (behind reading).2⟩) _

/-! ## Opening and closing -/

/-- No end that is open has the badge a new one gets. -/
def Fresh (s : PipeService) : Prop := ∀ p isWrite, ¬ s.End (following s.nextBadge) p isWrite

theorem following_ne (last : Word) : following last ≠ 0 := by
  unfold following
  split
  · decide
  · next small =>
      intro zero
      have value := congrArg BitVec.toNat zero
      rw [BitVec.toNat_add] at value
      have bound : last.toNat < 0x7FFFFFFF := BitVec.lt_def.mp (BitVec.not_le.mp small)
      change (last.toNat + 1) % 2 ^ 32 = 0 at value
      rw [Nat.mod_eq_of_lt (by omega)] at value
      omega

theorem byBadge_end (found : s.byBadge badge = some (p, isWrite)) : s.End badge p isWrite := by
  unfold byBadge at found
  split at found
  · cases found
  · next some_ =>
      obtain ⟨q, _, here⟩ := List.exists_of_findSome?_eq_some found
      split at here
      · next reads =>
          cases here
          exact ⟨reads.1, some_, reads.2⟩
      · split at here
        · next writes =>
            cases here
            exact ⟨writes.1, some_, writes.2⟩
        · cases here

/-- Everything but the counters and the events is as it was. -/
theorem Sound.replied (sound : s.Sound) (token result a0 : Word) (data : List Byte) :
    (s.reply token result a0 data).Sound :=
  ⟨⟨sound.wired.unique, sound.wired.waits⟩, sound.quiet,
    sound.kept.same (fun _ open_ => ⟨open_, rfl⟩) rfl (Or.inr ⟨token, _, rfl⟩)⟩

theorem Sound.counted (sound : s.Sound) (badge : Word) : Sound { s with nextBadge := badge } :=
  ⟨⟨sound.wired.unique, sound.wired.waits⟩, sound.quiet, sound.kept.same (fun _ open_ => ⟨open_, rfl⟩) rfl (Or.inl rfl)⟩

/-- A record changes at which nothing waits, then or now. -/
theorem Sound.record (sound : s.Sound) (elsewhere : ∀ q, q ≠ p -> next.pipes q = s.pipes q)
    (pending : next.pending = s.pending) (idle : ∀ i isWrite, ¬ next.WaitsAt p i isWrite)
    (keeps : ∀ badge isWrite, s.End badge p isWrite -> (∃ i, (s.pending i).badge = badge) -> next.End badge p isWrite)
    (unique : ∀ badge isWrite q other, next.End badge p isWrite -> next.End badge q other -> p = q ∧ isWrite = other)
    (kept : next.Kept) : next.Sound := by
  have ends : ∀ badge q isWrite, q ≠ p -> (next.End badge q isWrite ↔ s.End badge q isWrite) := by
    intro badge q isWrite other
    unfold End
    rw [elsewhere q other]
  refine ⟨⟨fun badge q isWrite r other first second => ?_, fun i busy => ?_⟩, fun q open_ j settleable => ?_, kept⟩
  · by_cases here : q = p
    · rw [here] at first ⊢
      exact unique badge isWrite r other first second
    · by_cases there : r = p
      · rw [there] at second ⊢
        obtain ⟨same, kind⟩ := unique badge other q isWrite second first
        exact ⟨same.symm, kind.symm⟩
      · exact sound.wired.unique badge q isWrite r other ((ends badge q isWrite here).mp first)
          ((ends badge r other there).mp second)
  · rw [pending] at busy ⊢
    obtain ⟨q, isWrite, before, waits⟩ := sound.wired.waits i busy
    refine ⟨q, isWrite, ?_, waits⟩
    by_cases here : q = p
    · rw [here] at before ⊢
      exact keeps _ isWrite before ⟨i, rfl⟩
    · exact (ends _ q isWrite here).mpr before
  · by_cases here : q = p
    · rw [here] at settleable
      exact settleable.elim (fun both => idle j false both.1) fun both => idle j true both.1
    · rw [elsewhere q here] at open_
      refine sound.quiet q open_ j ?_
      unfold Settleable WaitsAt at settleable ⊢
      rw [elsewhere q here, pending] at settleable
      exact settleable

/-- A pipe whose ends are both closed goes, and so does one that nobody took. -/
theorem Sound.freed (sound : s.Sound) (idle : ∀ i isWrite, ¬ s.WaitsAt p i isWrite) :
    (s.modifyPipe p fun pipe => { pipe with id := 0 }).Sound := by
  have here : (s.modifyPipe p fun pipe => { pipe with id := 0 }).pipes p = { s.pipes p with id := 0 } :=
    update_self ..
  have elsewhere : ∀ q, q ≠ p -> (s.modifyPipe p fun pipe => { pipe with id := 0 }).pipes q = s.pipes q :=
    fun q other => update_of_ne other ..
  have none : ∀ badge isWrite, ¬ (s.modifyPipe p fun pipe => { pipe with id := 0 }).End badge p isWrite := by
    intro badge isWrite ends
    have id := ends.1
    rw [here] at id
    exact id rfl
  refine sound.record elsewhere rfl (fun i isWrite waits => ?_) (fun badge isWrite ends named => ?_)
    (fun badge isWrite _ _ ends => ?_) ?_
  · unfold WaitsAt at waits
    rw [here] at waits
    exact idle i isWrite waits
  · obtain ⟨i, same⟩ := named
    have busy : (s.pending i).badge ≠ 0 := by
      rw [same]
      exact ends.2.1
    obtain ⟨q, kind, there, op, _⟩ := sound.wired.waits i busy
    rw [same] at there
    obtain ⟨rfl, rfl⟩ := sound.wired.unique badge p isWrite q kind ends there
    exact absurd ⟨busy, op, same.trans ends.2.2.symm⟩ (idle i isWrite)
  · exact absurd ends (none badge isWrite)
  · refine sound.kept.same (fun q open_ => ?_) rfl (Or.inl rfl)
    by_cases same : q = p
    · rw [same, here] at open_
      exact absurd rfl open_
    · rw [elsewhere q same] at open_ ⊢
      exact ⟨open_, rfl⟩

/-- A new pipe has a read end and nothing waits there. -/
theorem Sound.opened (sound : s.Sound) (free : (s.pipes p).id = 0) (fresh : s.Fresh) :
    (s.openPipe p).Sound ∧ ∀ i isWrite, ¬ (s.openPipe p).WaitsAt p i isWrite := by
  have here : (s.openPipe p).pipes p = ⟨following s.nextId, following s.nextBadge, 0, ⟨0, 0, fun _ => 0⟩⟩ :=
    update_self ..
  have elsewhere : ∀ q, q ≠ p -> (s.openPipe p).pipes q = s.pipes q := fun q other => update_of_ne other ..
  have badge_ : ∀ badge isWrite, (s.openPipe p).End badge p isWrite -> badge = following s.nextBadge ∧ isWrite = false := by
    rintro badge isWrite ⟨_, some_, names⟩
    rw [here] at names
    cases isWrite with
    | false => exact ⟨names.symm, rfl⟩
    | true => exact absurd names.symm some_
  have idle : ∀ i isWrite, ¬ (s.openPipe p).WaitsAt p i isWrite := by
    intro i isWrite waits
    have used : ((s.openPipe p).pipes p).id ≠ 0 := by
      rw [here]
      exact following_ne s.nextId
    obtain ⟨same, _⟩ := badge_ _ isWrite (waits.ends used)
    obtain ⟨q, kind, ends, _⟩ := sound.wired.waits i waits.1
    have named : (s.pending i).badge = following s.nextBadge := same
    rw [named] at ends
    exact fresh q kind ends
  refine ⟨sound.record elsewhere rfl idle (fun badge isWrite ends _ => ?_) (fun badge isWrite q other ends second => ?_) ?_,
    idle⟩
  · exact absurd free ends.1
  · obtain ⟨same, kind⟩ := badge_ badge isWrite ends
    by_cases there : q = p
    · rw [there] at second
      exact ⟨there.symm, kind.trans (badge_ badge other second).2.symm⟩
    · have before : s.End badge q other := by
        unfold End at second ⊢
        rw [elsewhere q there] at second
        exact second
      rw [same] at before
      exact absurd before (fresh q other)
  · have opens : (s.openPipe p).opened p = s.opened p + 1 := update_self ..
    refine ⟨fun q open_ => ?_, sound.kept.prefixes, fun q n beyond => ?_, sound.kept.ends⟩
    · by_cases same : q = p
      · obtain ⟨accepts, delivers⟩ := sound.kept.ahead p (s.opened p + 1) (Nat.lt_succ_self _)
        rw [same]
        unfold Streams pipeNo
        rw [here, opens]
        change s.accepted _ = s.delivered _ ++ _
        rw [accepts, delivers]
        rfl
      · rw [elsewhere q same] at open_
        have streams := sound.kept.streams q open_
        have later : (s.openPipe p).opened q = s.opened q := update_of_ne same ..
        unfold Streams pipeNo at streams ⊢
        rw [elsewhere q same, later]
        exact streams
    · refine sound.kept.ahead q n ?_
      by_cases same : q = p
      · rw [same] at beyond ⊢
        rw [opens] at beyond
        omega
      · have later : (s.openPipe p).opened q = s.opened q := update_of_ne same ..
        rw [later] at beyond
        exact beyond

/-- A write end is attached to a pipe that has none. -/
theorem Sound.attached (sound : s.Sound) (used : (s.pipes p).id ≠ 0) (closed : (s.pipes p).writeBadge = 0)
    (some_ : badge ≠ 0) (fresh : ∀ q isWrite, ¬ s.End badge q isWrite) :
    (s.modifyPipe p fun pipe => { pipe with writeBadge := badge }).Sound := by
  have here : (s.modifyPipe p fun pipe => { pipe with writeBadge := badge }).pipes p =
      { s.pipes p with writeBadge := badge } := update_self ..
  have elsewhere : ∀ q, q ≠ p -> (s.modifyPipe p fun pipe => { pipe with writeBadge := badge }).pipes q = s.pipes q :=
    fun q other => update_of_ne other ..
  have ends : ∀ other isWrite, (s.modifyPipe p fun pipe => { pipe with writeBadge := badge }).End other p isWrite ->
      (isWrite = true ∧ other = badge) ∨ (isWrite = false ∧ s.End other p false) := by
    rintro other isWrite ⟨_, busy, names⟩
    rw [here] at names
    cases isWrite with
    | true => exact Or.inl ⟨rfl, names.symm⟩
    | false => exact Or.inr ⟨rfl, used, busy, names⟩
  refine sound.record elsewhere rfl (fun i isWrite waits => ?_) (fun other isWrite before _ => ?_)
    (fun other isWrite q kind first second => ?_) ?_
  · have busy := waits.1
    have names := waits.2.2
    rw [here] at names
    cases isWrite with
    | true =>
      obtain ⟨q, kind, before, _⟩ := sound.wired.waits i busy
      rw [show (s.pending i).badge = badge from names] at before
      exact fresh q kind before
    | false => exact ((sound.quiet p used).reads ⟨busy, waits.2.1, names⟩).2 closed
  · obtain ⟨_, busy, names⟩ := before
    cases isWrite with
    | true => exact absurd (names.symm.trans closed) busy
    | false =>
      refine ⟨?_, busy, ?_⟩
      · rw [here]
        exact used
      · rw [here]
        exact names
  · have there : q ≠ p -> s.End other q kind := by
      intro apart
      unfold End at second ⊢
      rw [elsewhere q apart] at second
      exact second
    rcases ends other isWrite first with ⟨writes, same⟩ | ⟨reads, before⟩
    · by_cases apart : q = p
      · rw [apart] at second
        rcases ends other kind second with ⟨also, _⟩ | ⟨_, before⟩
        · exact ⟨apart.symm, writes.trans also.symm⟩
        · rw [same] at before
          exact absurd before (fresh p false)
      · have before := there apart
        rw [same] at before
        exact absurd before (fresh q kind)
    · by_cases apart : q = p
      · rw [apart] at second
        rcases ends other kind second with ⟨_, same⟩ | ⟨also, _⟩
        · rw [same] at before
          exact absurd before (fresh p false)
        · exact ⟨apart.symm, reads.trans also.symm⟩
      · rw [reads]
        exact sound.wired.unique other p false q kind before (there apart)
  · refine sound.kept.same (fun q open_ => ?_) rfl (Or.inl rfl)
    by_cases same : q = p
    · rw [same, here]
      exact ⟨used, rfl⟩
    · rw [elsewhere q same] at open_ ⊢
      exact ⟨open_, rfl⟩

theorem Sound.pipeOpen (sound : s.Sound) (fresh : s.Fresh) (r : Request) (made : Except FndError Unit) (taken : Bool) :
    (s.pipeOpen r made taken).2.Sound := by
  unfold PipeService.pipeOpen
  split
  · cases found : (finRange 16).find? fun i => (s.pipes i).id = 0 with
    | none => exact sound
    | some p =>
      have free := List.find?_some found
      rw [decide_eq_true_iff] at free
      obtain ⟨opened, idle⟩ := sound.opened free fresh
      cases made with
      | error error => exact opened.freed idle
      | ok done =>
        cases taken with
        | true => exact opened.replied ..
        | false => exact opened.freed idle
  · split
    · exact sound
    · cases found : (finRange 16).find? fun i => (s.pipes i).id = r.a1 && r.a1 ≠ 0 with
      | none => exact sound
      | some p =>
        have named := List.find?_some found
        rw [Bool.and_eq_true, decide_eq_true_iff, decide_eq_true_iff] at named
        have used : (s.pipes p).id ≠ 0 := by
          rw [named.1]
          exact named.2
        dsimp only
        split
        · exact sound
        · next closed =>
            have counted := sound.counted (following s.nextBadge)
            cases made with
            | error error => exact counted
            | ok done =>
              cases taken with
              | true => exact (counted.replied ..).attached used (not_not.mp closed) (following_ne _) fresh
              | false => exact counted

theorem closed_pipe (s : PipeService) (p : PipeIx) (isWrite : Bool) (badge : Word) :
    (s.closeEnd p isWrite badge).pipes p =
      if isWrite then { s.pipes p with writeBadge := 0 } else { s.pipes p with readBadge := 0 } := update_self ..

theorem closed_elsewhere (other : q ≠ p) : (s.closeEnd p isWrite badge).pipes q = s.pipes q :=
  update_of_ne other ..

theorem closed_ring : ((s.closeEnd p isWrite badge).pipes p).ring = (s.pipes p).ring ∧
    ((s.closeEnd p isWrite badge).pipes p).id = (s.pipes p).id := by
  rw [closed_pipe]
  cases isWrite <;> exact ⟨rfl, rfl⟩

/-- Whatever still waits is a request of another end. -/
theorem closed_pending (busy : ((s.closeEnd p isWrite badge).pending i).badge ≠ 0) :
    (s.closeEnd p isWrite badge).pending i = s.pending i ∧ (s.pending i).badge ≠ badge := by
  have same : (s.closeEnd p isWrite badge).pending i =
      if (s.pending i).badge = badge then { s.pending i with badge := 0 } else s.pending i := rfl
  rw [same] at busy ⊢
  split at busy
  · exact absurd rfl busy
  · next other => exact ⟨if_neg other, other⟩

/-- The ends that stay open. -/
theorem closed_end {other : Word} {kind : Bool} (ends : (s.closeEnd p isWrite badge).End other q kind) : s.End other q kind := by
  obtain ⟨used, busy, names⟩ := ends
  by_cases same : q = p
  · rw [same] at used names ⊢
    rw [closed_pipe] at used names
    cases isWrite <;> cases kind
    · exact absurd names.symm busy
    · exact ⟨used, busy, names⟩
    · exact ⟨used, busy, names⟩
    · exact absurd names.symm busy
  · rw [closed_elsewhere same] at used names
    exact ⟨used, busy, names⟩

theorem closed_keeps {other : Word} {kind : Bool} (ends : s.End other q kind) (named : s.End badge p isWrite)
    (apart : other ≠ badge) : (s.closeEnd p isWrite badge).End other q kind := by
  obtain ⟨used, busy, names⟩ := ends
  by_cases same : q = p
  · rw [same] at used names ⊢
    unfold End
    rw [closed_pipe]
    have shut := named.2.2
    cases isWrite <;> cases kind
    · exact absurd (names.symm.trans shut) apart
    · exact ⟨used, busy, names⟩
    · exact ⟨used, busy, names⟩
    · exact absurd (names.symm.trans shut) apart
  · unfold End
    rw [closed_elsewhere same]
    exact ⟨used, busy, names⟩

theorem Sound.clientGone (sound : s.Sound) (badge : Word) (heard : PendingIx -> Bool) : (s.clientGone badge heard).Sound := by
  unfold PipeService.clientGone
  cases found : s.byBadge badge with
  | none => exact sound
  | some here =>
    obtain ⟨p, isWrite⟩ := here
    have named := byBadge_end found
    dsimp only
    obtain ⟨ring, id⟩ := @closed_ring s p badge isWrite
    have used : ((s.closeEnd p isWrite badge).pipes p).id ≠ 0 := by
      rw [id]
      exact named.1
    have wired : (s.closeEnd p isWrite badge).Wired := by
      refine ⟨fun b q kind r other first second => ?_, fun i busy => ?_⟩
      · exact sound.wired.unique b q kind r other (closed_end first) (closed_end second)
      · obtain ⟨same, apart⟩ := closed_pending busy
        rw [same] at busy ⊢
        obtain ⟨q, kind, ends, waits⟩ := sound.wired.waits i busy
        exact ⟨q, kind, closed_keeps ends named apart, waits⟩
    have waits : ∀ {q i kind}, ((s.closeEnd p isWrite badge).pipes q).id ≠ 0 -> (s.closeEnd p isWrite badge).WaitsAt q i kind ->
        s.WaitsAt q i kind ∧ (s.closeEnd p isWrite badge).pending i = s.pending i := by
      intro q i kind open_ waiting
      obtain ⟨same, _⟩ := closed_pending waiting.1
      have ends := closed_end (waiting.ends open_)
      rw [same] at ends
      have op := waiting.2.1
      rw [same] at op
      exact ⟨⟨ends.2.1, op, ends.2.2.symm⟩, same⟩
    have kept : (s.closeEnd p isWrite badge).Kept := by
      refine sound.kept.same (fun q open_ => ?_) rfl (Or.inl rfl)
      by_cases same : q = p
      · rw [same] at open_ ⊢
        exact ⟨id ▸ open_, ring⟩
      · rw [closed_elsewhere same] at open_ ⊢
        exact ⟨open_, rfl⟩
    have alike : (s.closeEnd p isWrite badge).Alike p :=
      (sound.alike named.1).imp (fun none i waiting => none i (waits used waiting).1)
        fun none i waiting => none i (waits used waiting).1
    have frame := frame_settle (s.closeEnd p isWrite badge) heard p
    have settles : ((s.closeEnd p isWrite badge).settle heard p).Kept := by
      have fed : Fed heard ((s.closeEnd p isWrite badge).room p) ((s.closeEnd p isWrite badge).pipes p).ring.count
          (finRange 16) := by
        by_cases waiting : ∃ j, s.WaitsAt p j false
        · obtain ⟨j, reading⟩ := waiting
          rw [ring, ((sound.quiet p named.1).reads reading).1]
          exact fed_empty _
        · exact fed_none _ (fun j _ => room_away fun reading => waiting ⟨j, (waits used reading).1⟩) _
      exact kept.settles used alike (finRange 16) (List.nodup_finRange 16) fed
    have calm := (@settles_calm _ heard p (finRange 16) alike).2
    have settled : ((s.closeEnd p isWrite badge).settle heard p).Sound := by
      refine ⟨frame.wired wired, fun q open_ => ?_, settles⟩
      by_cases same : q = p
      · rw [same]
        exact fun j => calm j (List.mem_finRange j)
      · have before := open_
        rw [(frame.ends q).1] at before
        refine frame.quiet same fun j settleable => ?_
        have pipe := @closed_elsewhere s p q badge isWrite same
        refine sound.quiet q (pipe ▸ before) j ?_
        rcases settleable with ⟨waiting, state⟩ | ⟨waiting, state⟩
        · rw [pipe] at state
          exact Or.inl ⟨(waits before waiting).1, state⟩
        · obtain ⟨there, request⟩ := waits before waiting
          rw [pipe, request] at state
          exact Or.inr ⟨there, state⟩
    split
    · next both =>
        refine settled.freed fun i kind waiting => ?_
        have names := waiting.2.2
        cases kind with
        | false => exact waiting.1 (names.trans both.1)
        | true => exact waiting.1 (names.trans both.2)
    · exact settled

/-! ## Every run -/

/-- The bytes a read has room for. -/
def asked (r : Request) : Nat := if r.a0 < r.replyCap then r.a0.toNat else r.replyCap.toNat

/-- What an action has to meet so that no bytes go to a reader that is gone: a
read that finds bytes is heard of, and so are the reads that wait at the empty
pipe, as far as the bytes of a write get. -/
def Hears (s : PipeService) : Action -> Prop
  | .request r _ _ heard =>
    (r.badge &&& lookupBadge ≠ 0 -> r.op = fndPipeOpen -> s.Fresh) ∧ ∀ p i, r.badge &&& lookupBadge = 0 -> s.freePending = some i ->
      (r.op = fndStRead -> s.byBadge r.badge = some (p, false) -> (s.pipes p).ring.count ≠ 0 ->
        heard i = true ∨ asked r = 0) ∧
      (r.op = fndStWrite -> s.byBadge r.badge = some (p, true) -> Fed heard (s.room p) r.data.length (from_ i))
  | _ => True

theorem Sound.reading (sound : s.Sound) {r : Request} (ends : s.End r.badge p false) (i : PendingIx) (max : Nat)
    (reader : (s.pipes p).ring.count ≠ 0 -> heard i = true ∨ max = 0) :
    ((s.queue i r fndStRead max).settleAll heard).Sound := by
  have same : s.queue i r fndStRead max =
      s.joined i { s.pending i with token := r.token, badge := r.badge, op := fndStRead, max := max } := rfl
  rw [same]
  refine sound.joined ends rfl ?_ (fun _ holds => reader holds) ?_
  · intro impossible
    cases impossible
  · intro impossible
    cases impossible

theorem Sound.writing (sound : s.Sound) {r : Request} (ends : s.End r.badge p true) (i : PendingIx)
    (small : r.data.length ≤ pipeSize) (fed : Fed heard (s.room p) r.data.length (from_ i)) :
    (((s.queue i r fndStWrite r.data.length).modifyPending i fun q => { q with wbuf := r.data }).settleAll heard).Sound := by
  have same : ((s.queue i r fndStWrite r.data.length).modifyPending i fun q => { q with wbuf := r.data }) =
      s.joined i ⟨r.token, r.badge, fndStWrite, r.data.length, r.data⟩ := by
    unfold queue modifyPending PipeService.joined
    dsimp only
    rw [update_self, Function.update_idem]
  rw [same]
  refine sound.joined ends rfl (fun _ => small) ?_ fun _ => ?_
  · intro impossible
    cases impossible
  · dsimp only
    rw [List.take_length]
    exact fed

theorem Sound.handle (sound : s.Sound) (r : Request) (made : Except FndError Unit) (taken : Bool)
    (hears : s.Hears (.request r made taken heard)) : (s.handle r made taken heard).2.Sound := by
  obtain ⟨fresh, heard_⟩ := hears
  unfold PipeService.handle
  split
  · next lookup =>
      split
      · exact sound
      · next opens =>
        have opened := sound.pipeOpen (fresh lookup (not_not.mp opens)) r made taken
        generalize s.pipeOpen r made taken = result at opened ⊢
        obtain ⟨outcome, t⟩ := result
        cases outcome <;> exact opened
  · next plain =>
      cases found : s.byBadge r.badge with
      | none => exact sound
      | some here =>
        obtain ⟨p, isWrite⟩ := here
        have ends := byBadge_end found
        dsimp only
        split
        · next reads =>
            split
            · exact sound
            · next readEnd =>
                split
                · exact sound
                · cases free : s.freePending with
                  | none => exact sound
                  | some i =>
                    rw [Bool.not_eq_true] at readEnd
                    subst readEnd
                    dsimp only
                    exact sound.reading ends i _ ((heard_ p i (not_not.mp plain) free).1 reads found)
        · split
          · next writes =>
              split
              · exact sound
              · next writeEnd =>
                  split
                  · exact sound
                  · next small =>
                      split
                      · exact sound.replied ..
                      · cases free : s.freePending with
                        | none => exact sound
                        | some i =>
                          rw [Bool.not_eq_true, Bool.not_eq_false'] at writeEnd
                          subst writeEnd
                          dsimp only
                          have fed := (heard_ p i (not_not.mp plain) free).2 writes found
                          exact sound.writing ends i (Nat.le_of_not_lt small) fed
          · split
            · exact sound.replied ..
            · split
              · exact sound
              · exact sound

theorem Sound.serve (sound : s.Sound) {action : Action} (hears : s.Hears action) : (s.serve action).Sound := by
  cases action with
  | request r made taken heard =>
    have handled := sound.handle r made taken hears
    unfold PipeService.serve
    dsimp only
    generalize s.handle r made taken heard = result at handled ⊢
    obtain ⟨outcome, t⟩ := result
    cases outcome with
    | none => exact handled
    | some result =>
      cases result with
      | ok done | error error => exact handled.replied ..
  | gone badge heard => exact sound.clientGone badge heard
  | other => exact sound

theorem sound_boot : boot.Sound := by
  refine ⟨⟨fun badge p isWrite q other ends => ?_, fun i busy => ?_⟩, fun p used => ?_,
    ⟨fun p used => ?_, fun _ => List.nil_prefix, fun _ _ _ => ⟨rfl, rfl⟩, fun _ => nofun⟩⟩
  · exact absurd rfl ends.1
  · exact absurd rfl busy
  · exact absurd rfl used
  · exact absurd rfl used

theorem streamed_of_reachable (reached : (machine.within Hears).Reachable s) : s.Sound := by
  refine reached.invariant (motive := Sound) (fun start begins => ?_) fun first action second sound step => ?_
  · cases begins
    exact sound_boot
  · obtain ⟨hears, rfl⟩ := step
    exact sound.serve hears

/-- What a state of the service says about its pipes. -/
structure Flows (s : PipeService) : Prop where
  /-- What live readers were given, in this order, and what is there is what was
  written, one write after the other. -/
  streams : ∀ p, (s.pipes p).id ≠ 0 ->
    s.accepted (s.pipeNo p) = s.delivered (s.pipeNo p) ++ (s.pipes p).ring.contents pipeSize
  /-- Also of a pipe that is gone nothing came out but what was written. -/
  prefixes : ∀ no, s.delivered no <+: s.accepted no
  /-- A read that has room is told the end only when the pipe is empty and has no
  writer. -/
  ends : ∀ event ∈ s.events, ¬ event.falseEnd
  /-- Nothing waits that could be answered. -/
  quiet : ∀ p, (s.pipes p).id ≠ 0 -> s.Quiet p
  /-- Whatever waits does so at an open end. -/
  waits : ∀ i, (s.pending i).badge ≠ 0 -> ∃ p isWrite, s.End (s.pending i).badge p isWrite ∧ s.WaitsAt p i isWrite

theorem Sound.flows (sound : s.Sound) : s.Flows := by
  refine ⟨sound.kept.streams, sound.kept.prefixes, sound.kept.ends, sound.quiet, fun i busy => ?_⟩
  obtain ⟨p, isWrite, ends, op, _⟩ := sound.wired.waits i busy
  exact ⟨p, isWrite, ends, busy, op, ends.2.2.symm⟩

/-- A pipe is made. -/
def makePipe : Action := .request ⟨1, 0x80000001, fndPipeOpen, 0, 0, [], 0⟩ (.ok ()) true fun _ => true

/-- Its write end is attached. -/
def attachWriter : Action := .request ⟨2, 0x80000001, fndPipeOpen, 1, 1, [], 0⟩ (.ok ()) true fun _ => true

/-- A read of eight bytes. -/
def readBytes : Action := .request ⟨3, 1, fndStRead, 8, 0, [], 8⟩ (.ok ()) true fun _ => true

/-- A write of one byte, while the readers are there or are not. -/
def writeByte (there : Bool) : Action := .request ⟨4, 2, fndStWrite, 0, 0, [65], 0⟩ (.ok ()) true fun _ => there

/-- A read waits at a pipe with both ends. -/
def readWaits : PipeService := ((boot.serve makePipe).serve attachWriter).serve readBytes

instance (s : PipeService) (badge : Word) (p : PipeIx) (isWrite : Bool) : Decidable (s.End badge p isWrite) :=
  inferInstanceAs (Decidable (_ ∧ _ ∧ _))

instance (s : PipeService) : Decidable s.Fresh := inferInstanceAs (Decidable (∀ p isWrite, ¬ s.End _ p isWrite))

theorem fed_all (room : PendingIx -> Nat) (count : Nat) (items : List PendingIx) : Fed (fun _ => true) room count items := by
  induction items generalizing count with
  | nil => trivial
  | cons i rest ih => exact ⟨Or.inl rfl, ih _⟩

theorem hears_all (fresh : s.Fresh) (r : Request) (made : Except FndError Unit) (taken : Bool) :
    s.Hears (.request r made taken fun _ => true) :=
  ⟨fun _ _ => fresh, fun _ i _ _ => ⟨fun _ _ _ => Or.inl rfl, fun _ _ => fed_all _ _ (from_ i)⟩⟩

theorem readWaits_reachable : (machine.within Hears).Reachable readWaits := by
  have fresh : boot.Fresh ∧ (boot.serve makePipe).Fresh ∧ ((boot.serve makePipe).serve attachWriter).Fresh := by
    decide +kernel
  have makes : (machine.within Hears).step boot makePipe (boot.serve makePipe) := ⟨hears_all fresh.1 .., rfl⟩
  have attaches : (machine.within Hears).step (boot.serve makePipe) attachWriter
      ((boot.serve makePipe).serve attachWriter) := ⟨hears_all fresh.2.1 .., rfl⟩
  have reads : (machine.within Hears).step ((boot.serve makePipe).serve attachWriter) readBytes readWaits :=
    ⟨hears_all fresh.2.2 .., rfl⟩
  exact (((System.Reachable.start rfl).next makes).next attaches).next reads

end PipeService
end Src32.Services
