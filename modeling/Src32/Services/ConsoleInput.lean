import Src32.Services.Console

namespace Src32.Services.Console

/-!
# What becomes of the keys

Keys go to the requests in the order in which both arrived, and the bytes of
finished lines come out in order.  Input goes missing when it is taken for a
request whose client is gone, unless the reply that fails puts the key back, and
a stream that closes leaves its requests behind.
-/

open Kernel (FndError fndOk)

/-! ## The property -/

/-- The keys taken for a request. -/
def Served.keys (t : Served) : List Key :=
  t.worked.map Prod.fst ++ match t.outcome with
    | .key k => [k]
    | _ => []

/-- The bytes of finished lines a request was answered with. -/
def Served.bytes (t : Served) : List Byte :=
  match t.outcome with
  | .line bytes => bytes
  | _ => []

/-- The answer hands out input. -/
def Served.gives (t : Served) : Bool :=
  match t.outcome with
  | .key _ => true
  | .line bytes => bytes ≠ []
  | .eof => true
  | .returned => false
  | .interrupted => false

/-- No input is lost, duplicated or handed to a client that is gone. -/
structure Intact (s : Console) : Prop where
  /-- The keys that arrived were taken in order, and those that were not taken
  wait. -/
  keys : s.arrived = s.served.flatMap Served.keys ++ s.worked.map Prod.fst ++ s.keys
  /-- Requests are answered in the order in which they were queued. -/
  turns : s.queued = s.served.map Served.token ++ s.pending.map Pending.token
  /-- The bytes of finished lines were handed out in order, and the rest waits. -/
  lines : s.finished = s.served.flatMap Served.bytes ++ s.ready
  /-- What was handed out reached its client. -/
  heard : ∀ t ∈ s.served, t.gives = true -> t.heard = true
  /-- Keys are edited and skipped on behalf of clients that are there. -/
  there : (∀ t ∈ s.served, ∀ w ∈ t.worked, w.2 = true) ∧ ∀ w ∈ s.worked, w.2 = true
  /-- Requests wait at open streams only. -/
  opened : ∀ p ∈ s.pending, (s.findStream p.badge).isSome = true

/-- The queue of keys has room, and Ctrl+C answers no break wait. -/
def Calm (s : Console) : Action -> Prop
  | .accept k => s.breaks k = false ∧ s.keys.length < keysMax
  | _ => True

/-- The oldest request takes input for a client that is there, or may put it
back. -/
def FedRequest (s : Console) (p : Pending) : Prop :=
  if p.op = fndStRead ∧ s.hasReady = true then s.heard p.token = true ∨ s.ready ≠ [] ∧ p.max = 0
  else ∀ k ∈ s.keys.head?, p.op = fndConReadKey ∨ s.mode = fndConRaw ∧ k.plain = true ∨ s.heard p.token = true

/-- So does the request that is answered behind the loop. -/
def FedRound (s : Console) (next : Next) : Prop :=
  (s.pending = [] -> s.keys = [] ∨ ∀ token ∈ next.waiter, s.heard token = true) ∧ ∀ p ∈ s.pending.head?, s.FedRequest p

/-- No input is taken for a client that is gone unless it is put back, and no
stream closes while a request waits at it. -/
def Fed (s : Console) : Action -> Prop
  | .clientGone badge => ∀ p ∈ s.pending, p.badge ≠ badge
  | .round => ∀ next ∈ s.phase.behind, s.FedRound next
  | _ => True

/-! ## The invariant -/

/-- Beside the property: only the oldest request has keys taken for it, and only
reads and `CON_READ_KEY` wait. -/
structure Sound (s : Console) : Prop extends Intact s where
  idle : s.pending = [] -> s.worked = []
  ops : ∀ p ∈ s.pending, p.op = fndStRead ∨ p.op = fndConReadKey

variable {s : Console}

theorem sound_boot : Sound boot where
  keys := rfl
  turns := rfl
  lines := rfl
  heard := fun t member => absurd member List.not_mem_nil
  there := ⟨fun t member => absurd member List.not_mem_nil, fun w member => absurd member List.not_mem_nil⟩
  opened := fun p member => absurd member List.not_mem_nil
  idle := fun _ => rfl
  ops := fun p member => absurd member List.not_mem_nil

/-- What the service does beside its input keeps the invariant. -/
theorem Sound.aside (sound : Sound s) {t : Console} (keys : t.keys = s.keys) (pending : t.pending = s.pending)
    (ready : t.ready = s.ready) (arrived : t.arrived = s.arrived) (queued : t.queued = s.queued)
    (served : t.served = s.served) (worked : t.worked = s.worked) (finished : t.finished = s.finished)
    (streams : ∀ badge, (s.findStream badge).isSome = true -> badge ∈ s.pending.map Pending.badge ->
      (t.findStream badge).isSome = true) : Sound t where
  keys := by
    rw [keys, arrived, served, worked]
    exact sound.keys
  turns := by
    rw [pending, queued, served]
    exact sound.turns
  lines := by
    rw [ready, finished, served]
    exact sound.lines
  heard := by
    rw [served]
    exact sound.heard
  there := by
    rw [served, worked]
    exact sound.there
  opened := by
    rw [pending]
    exact fun p member => streams p.badge (sound.opened p member) (List.mem_map_of_mem member)
  idle := by
    rw [pending, worked]
    exact sound.idle
  ops := by
    rw [pending]
    exact sound.ops

/-- The oldest request leaves the queue with `outcome`; `keys` and `ready` are
left. -/
theorem Sound.drop (sound : Sound s) {p : Pending} {rest : List Pending} (oldest : s.pending = p :: rest)
    {outcome : Outcome} {keys : List Key} {ready : List Byte} {eof : Bool}
    (given : (Served.mk p.token s.worked outcome (s.heard p.token)).gives = true -> s.heard p.token = true)
    (taken : s.worked.map Prod.fst ++ s.keys = (Served.mk p.token s.worked outcome (s.heard p.token)).keys ++ keys)
    (read : s.ready = (Served.mk p.token s.worked outcome (s.heard p.token)).bytes ++ ready) :
    Sound { s.dropPending p rest outcome with keys := keys, ready := ready, readyEof := eof } where
  keys := by
    change s.arrived = (s.served ++ [_]).flatMap Served.keys ++ [] ++ keys
    rw [List.flatMap_append, List.flatMap_singleton, List.append_nil, List.append_assoc, ← taken, ← List.append_assoc]
    exact sound.keys
  turns := by
    change s.queued = (s.served ++ [_]).map Served.token ++ rest.map Pending.token
    rw [List.map_append, List.map_singleton, List.append_assoc, sound.turns, oldest]
    rfl
  lines := by
    change s.finished = (s.served ++ [_]).flatMap Served.bytes ++ ready
    rw [List.flatMap_append, List.flatMap_singleton, List.append_assoc, ← read]
    exact sound.lines
  heard := by
    intro t member gives
    rcases List.mem_append.mp member with before | here
    · exact sound.heard t before gives
    · rw [List.mem_singleton.mp here] at gives ⊢
      exact given gives
  there := by
    refine ⟨fun t member => ?_, fun w member => absurd member List.not_mem_nil⟩
    rcases List.mem_append.mp member with before | here
    · exact sound.there.1 t before
    · rw [List.mem_singleton.mp here]
      exact sound.there.2
  opened := by
    intro q member
    refine sound.opened q ?_
    rw [oldest]
    exact List.mem_cons_of_mem p member
  idle := fun _ => rfl
  ops := by
    intro q member
    refine sound.ops q ?_
    rw [oldest]
    exact List.mem_cons_of_mem p member

/-! ## Rounds -/

variable {rest : List Pending} {p : Pending} {k : Key}

/-- A key is edited or skipped on behalf of the oldest request. -/
theorem Sound.work (sound : Sound s) (oldest : s.pending = p :: rest) {keys : List Key} (first : s.keys = k :: keys)
    (there : s.heard p.token = true) :
    Sound { s with keys := keys, worked := s.worked ++ [(k, s.heard p.token)] } where
  keys := by
    change s.arrived = s.served.flatMap Served.keys ++ (s.worked ++ [_]).map Prod.fst ++ keys
    rw [List.map_append, List.map_singleton, ← List.append_assoc, List.append_assoc, List.singleton_append, ← first]
    exact sound.keys
  turns := sound.turns
  lines := sound.lines
  heard := sound.heard
  there := by
    refine ⟨sound.there.1, fun w member => ?_⟩
    rcases List.mem_append.mp member with before | here
    · exact sound.there.2 w before
    · rw [List.mem_singleton.mp here]
      exact there
  opened := sound.opened
  idle := by
    intro nobody
    change s.pending = [] at nobody
    rw [oldest] at nobody
    cases nobody
  ops := sound.ops

/-- The line editor starts a finished line only when the one before was read. -/
theorem Sound.lineKey (sound : Sound s) (read : s.ready = []) (k : Key) : Sound (s.lineKey k) := by
  have edited : ∀ edit eof, Sound { s with edit := edit, readyEof := eof } := fun edit eof =>
    sound.aside rfl rfl rfl rfl rfl rfl rfl rfl fun _ found _ => found
  unfold Console.lineKey
  split_ifs
  · refine { sound with lines := ?_ }
    change s.finished ++ (s.edit ++ [10]) = s.served.flatMap Served.bytes ++ (s.edit ++ [10])
    rw [sound.lines, read, List.append_nil]
  · exact edited _ _
  · exact edited _ _
  · exact edited _ _
  · exact sound
  · exact edited _ _
  · exact sound
  · exact sound

theorem Sound.giveKey (sound : Sound s) (oldest : s.pending = p :: rest) {keys : List Key}
    (first : s.keys = k :: keys) (read : p.op ≠ fndConReadKey -> s.ready = [])
    (fed : p.op = fndConReadKey ∨ s.mode = fndConRaw ∧ k.plain = true ∨ s.heard p.token = true) :
    Sound (s.giveKey p rest k keys) := by
  unfold Console.giveKey
  dsimp only
  by_cases direct : p.op = fndConReadKey ∨ s.mode = fndConRaw ∧ k.plain = true
  · rw [if_pos direct]
    by_cases there : s.heard p.token = true
    · rw [if_pos there]
      refine @Sound.drop s sound p rest oldest (.key k) keys s.ready s.readyEof (fun _ => there) ?_ rfl
      rw [first]
      exact List.append_cons ..
    · rw [if_neg there]
      refine @Sound.drop s sound p rest oldest .returned s.keys s.ready s.readyEof (fun gives => ?_) ?_ rfl
      · cases gives
      · exact congrArg (· ++ s.keys) (List.append_nil _).symm
  · rw [if_neg direct]
    have there : s.heard p.token = true := by
      rcases fed with event | char | there
      · exact absurd (Or.inl event) direct
      · exact absurd (Or.inr char) direct
      · exact there
    have worked := sound.work oldest first there
    split_ifs
    · exact worked
    · exact worked.lineKey (read fun event => direct (Or.inl event)) k

theorem Sound.serveReady (sound : Sound s) (oldest : s.pending = p :: rest)
    (fed : s.heard p.token = true ∨ s.ready ≠ [] ∧ p.max = 0) : Sound (s.serveReady p rest) := by
  refine @Sound.drop s sound p rest oldest (s.lineOutcome p) s.keys (s.ready.drop p.max) _ ?_ ?_ ?_
  · intro gives
    rcases fed with there | ⟨line, none_⟩
    · exact there
    · unfold lineOutcome at gives
      rw [if_neg line, none_] at gives
      cases gives
  · unfold lineOutcome
    split_ifs
    · exact congrArg (· ++ s.keys) (List.append_nil _).symm
    · exact congrArg (· ++ s.keys) (List.append_nil _).symm
  · unfold lineOutcome
    split_ifs with line
    · rw [line]
      exact List.drop_nil.symm
    · exact (List.take_append_drop p.max s.ready).symm

theorem Sound.answerNow (sound : Sound s) {token : Word}
    (fed : s.pending = [] -> s.keys = [] ∨ s.heard token = true) : Sound (s.answerNow token) := by
  have refused : Sound (s.reply token fndEnd) :=
    sound.aside rfl rfl rfl rfl rfl rfl rfl rfl fun _ found _ => found
  unfold Console.answerNow
  by_cases waiting : s.pending = []
  · rw [if_neg (not_not.mpr waiting)]
    cases queue : s.keys with
    | nil => exact refused
    | cons k keys =>
      dsimp only
      have there : s.heard token = true := by
        rcases fed waiting with none_ | there
        · rw [queue] at none_
          cases none_
        · exact there
      have idle := sound.idle waiting
      have all := sound.keys
      have turns := sound.turns
      rw [idle, List.map_nil, List.append_nil, queue] at all
      rw [waiting, List.map_nil, List.append_nil] at turns
      refine ⟨⟨?_, ?_, ?_, ?_, ⟨?_, sound.there.2⟩, sound.opened⟩, sound.idle, sound.ops⟩
      · change s.arrived = (s.served ++ [_]).flatMap Served.keys ++ s.worked.map Prod.fst ++ keys
        rw [idle, List.map_nil, List.append_nil, List.flatMap_append, List.flatMap_singleton, List.append_assoc]
        exact all
      · change s.queued ++ [token] = (s.served ++ [_]).map Served.token ++ s.pending.map Pending.token
        rw [waiting, List.map_nil, List.append_nil, List.map_append, turns]
        rfl
      · change s.finished = (s.served ++ [_]).flatMap Served.bytes ++ s.ready
        rw [List.flatMap_append, List.flatMap_singleton, List.append_assoc]
        exact sound.lines
      · intro t member gives
        rcases List.mem_append.mp member with before | here
        · exact sound.heard t before gives
        · rw [List.mem_singleton.mp here]
          exact there
      · intro t member w edited
        rcases List.mem_append.mp member with before | here
        · exact sound.there.1 t before w edited
        · rw [List.mem_singleton.mp here] at edited
          cases edited
  · rw [if_pos waiting]
    exact refused

theorem Sound.resume (sound : Sound s) (next : Next)
    (fed : s.pending = [] -> s.keys = [] ∨ ∀ token ∈ next.waiter, s.heard token = true) :
    Sound (s.resume next) := by
  have moved : ∀ phase replies, Sound { s with phase := phase, replies := replies } := fun phase replies =>
    sound.aside rfl rfl rfl rfl rfl rfl rfl rfl fun _ found _ => found
  unfold Console.resume
  cases next with
  | recv | poll | keyState token => exact moved _ _
  | nowait token =>
    have polls : Sound { s with phase := .polling .recv } := moved _ _
    refine polls.answerNow fun waiting => ?_
    rcases fed waiting with none_ | there
    · exact Or.inl none_
    · exact Or.inr (there token rfl)

theorem Sound.dispatch (sound : Sound s) {next : Next} (fed : s.FedRound next) : Sound (s.dispatch next) := by
  obtain ⟨behind, oldest⟩ := fed
  unfold Console.dispatch
  cases waiting : s.pending with
  | nil => exact sound.resume next behind
  | cons p rest =>
    have request : s.FedRequest p := by
      refine oldest p ?_
      rw [waiting]
      rfl
    unfold FedRequest at request
    dsimp only
    by_cases serves : p.op = fndStRead ∧ s.hasReady = true
    · rw [if_pos serves] at request ⊢
      exact sound.serveReady waiting request
    · rw [if_neg serves] at request ⊢
      cases queue : s.keys with
      | nil => exact sound.resume next behind
      | cons k keys =>
        rw [queue] at request
        refine sound.giveKey waiting queue (fun other => ?_) (request k rfl)
        have member : p ∈ s.pending := by
          rw [waiting]
          exact List.mem_cons_self
        have reads := (sound.ops p member).resolve_right other
        by_contra line
        refine serves ⟨reads, ?_⟩
        unfold hasReady
        rw [decide_eq_true line]
        rfl

/-! ## Messages -/

theorem findStream_isSome {badge : Word} :
    (s.findStream badge).isSome = true ↔ ∃ stream ∈ s.streams, stream.badge ≠ 0 ∧ stream.badge = badge := by
  unfold findStream
  rw [List.find?_isSome]
  apply exists_congr
  intro stream
  rw [Bool.and_eq_true, decide_eq_true_iff, decide_eq_true_iff]

/-- Changing one record keeps every other one. -/
theorem mem_modify {streams : List Stream} {stream : Stream} (member : stream ∈ streams) {i : Nat} {change : Stream -> Stream}
    (other : ∀ old, streams[i]? = some old -> old ≠ stream) : stream ∈ streams.modify i change := by
  obtain ⟨j, found⟩ := List.mem_iff_getElem?.mp member
  refine List.mem_iff_getElem?.mpr ⟨j, ?_⟩
  have apart : i ≠ j := by
    rintro rfl
    exact other stream found rfl
  rw [List.getElem?_modify_ne _ _ apart]
  exact found

theorem Sound.reply (sound : Sound s) (token result : Word) : Sound (s.reply token result) :=
  sound.aside rfl rfl rfl rfl rfl rfl rfl rfl fun _ found _ => found

/-- A record that was free is written. -/
theorem Sound.opened_stream (sound : Sound s) {i : Nat} (free : s.streams.findIdx? (fun stream => stream.badge = 0) = some i)
    (new : Stream) (badge : Word) : Sound { s with nextBadge := badge, streams := s.streams.set i new } := by
  refine sound.aside rfl rfl rfl rfl rfl rfl rfl rfl fun badge found _ => ?_
  obtain ⟨stream, member, used, same⟩ := findStream_isSome.mp found
  refine findStream_isSome.mpr ⟨stream, ?_, used, same⟩
  change stream ∈ s.streams.set i new
  rw [List.set_eq_modify]
  refine mem_modify member fun old here => ?_
  obtain ⟨inside, empty, _⟩ := List.findIdx?_eq_some_iff_getElem.mp free
  rw [List.getElem?_eq_getElem inside] at here
  rintro rfl
  rw [Option.some_inj.mp here] at empty
  exact used (of_decide_eq_true empty)

theorem Sound.devOpen (sound : Sound s) (r : Request) (made : Except FndError Unit) : Sound (s.devOpen r made) := by
  unfold Console.devOpen
  by_cases bad : r.a0 = 0 ∨ r.a0 &&& ~~~(fndOpenRead ||| fndOpenWrite) ≠ 0
  · rw [if_pos bad]
    exact sound.reply _ _
  · rw [if_neg bad]
    cases free : s.streams.findIdx? (fun stream => stream.badge = 0) with
    | none => exact sound.reply _ _
    | some i =>
      dsimp only
      cases made with
      | error error => exact sound.aside rfl rfl rfl rfl rfl rfl rfl rfl fun _ found _ => found
      | ok _ =>
        dsimp only
        generalize (if s.nextBadge ≥ 0x7FFFFFFF then (1 : Word) else s.nextBadge + 1) = badge
        split_ifs
        · exact (sound.opened_stream free _ _).reply _ _
        · exact sound.opened_stream free _ _

theorem Sound.queue (sound : Sound s) {r : Request} (found : (s.findStream r.badge).isSome = true) {op : Word} (max : Nat)
    (known : op = fndStRead ∨ op = fndConReadKey) : Sound (s.queue r op max) := by
  unfold Console.queue
  split_ifs with full
  · exact sound.aside rfl rfl rfl rfl rfl rfl rfl rfl fun _ found _ => found
  · refine ⟨⟨sound.keys, ?_, sound.lines, sound.heard, sound.there, ?_⟩, ?_, ?_⟩
    · change s.queued ++ [r.token] = s.served.map Served.token ++ (s.pending ++ [_]).map Pending.token
      rw [List.map_append, List.map_singleton, ← List.append_assoc, sound.turns]
    · intro p member
      rcases List.mem_append.mp member with before | here
      · exact sound.opened p before
      · rw [List.mem_singleton.mp here]
        exact found
    · intro nobody
      exact absurd nobody (List.append_ne_nil_of_right_ne_nil _ (List.cons_ne_nil _ _))
    · intro p member
      rcases List.mem_append.mp member with before | here
      · exact sound.ops p before
      · rw [List.mem_singleton.mp here]
        exact known

theorem Sound.serveStream (sound : Sound s) (stream : Stream) {r : Request}
    (found : (s.findStream r.badge).isSome = true) : Sound (s.serveStream stream r) := by
  have moved : ∀ phase mode token badge replies, Sound { s with
      phase := phase, mode := mode, breakToken := token, breakBadge := badge, replies := replies } :=
    fun _ _ _ _ _ => sound.aside rfl rfl rfl rfl rfl rfl rfl rfl fun _ found _ => found
  unfold Console.serveStream
  dsimp only
  split_ifs
  all_goals
    first
    | exact sound.queue found _ (Or.inl rfl)
    | exact sound.queue found _ (Or.inr rfl)
    | exact moved _ _ _ _ _

theorem Sound.handle (sound : Sound s) (r : Request) (made : Except FndError Unit) : Sound (s.handle r made) := by
  have polls : Sound { s with phase := .polling .recv } :=
    sound.aside rfl rfl rfl rfl rfl rfl rfl rfl fun _ found _ => found
  unfold Console.handle
  dsimp only
  split_ifs
  · exact polls.reply _ _
  · exact polls.devOpen r made
  · cases found : s.findStream r.badge with
    | none => exact polls.reply _ _
    | some stream =>
      refine sound.serveStream stream ?_
      rw [found]
      rfl

/-- A stream that closes takes no request with it, so none may wait at it. -/
theorem Sound.clientGone (sound : Sound s) {badge : Word} (calm : ∀ p ∈ s.pending, p.badge ≠ badge) (phase : Phase) :
    Sound { s.clientGone badge with phase := phase } := by
  have closed : ∀ streams token, (∀ other, other ≠ badge -> (s.findStream other).isSome = true ->
      (({ s with streams := streams } : Console).findStream other).isSome = true) ->
      Sound { s with streams := streams, breakToken := token, phase := phase } := by
    intro streams token keeps
    refine sound.aside rfl rfl rfl rfl rfl rfl rfl rfl fun other found waits => ?_
    obtain ⟨p, member, rfl⟩ := List.mem_map.mp waits
    exact keeps p.badge (calm p member) found
  unfold Console.clientGone
  dsimp only
  cases here : s.streams.findIdx? fun stream => stream.badge ≠ 0 && stream.badge = badge with
  | none =>
    dsimp only
    split_ifs
    · exact closed s.streams _ fun _ _ found => found
    · exact closed s.streams _ fun _ _ found => found
  | some i =>
    have keeps : ∀ other, other ≠ badge -> (s.findStream other).isSome = true ->
        (({ s with streams := s.streams.modify i fun stream => { stream with badge := 0 } } : Console).findStream
          other).isSome = true := by
      intro other apart found
      obtain ⟨stream, member, used, same⟩ := findStream_isSome.mp found
      refine findStream_isSome.mpr ⟨stream, mem_modify member fun old there => ?_, used, same⟩
      obtain ⟨inside, closes, _⟩ := List.findIdx?_eq_some_iff_getElem.mp here
      rw [List.getElem?_eq_getElem inside] at there
      rintro rfl
      rw [Option.some_inj.mp there, Bool.and_eq_true, decide_eq_true_iff, decide_eq_true_iff] at closes
      exact apart (same.symm.trans closes.2)
    dsimp only
    split_ifs
    · exact closed _ _ keeps
    · exact closed _ _ keeps

theorem Sound.acceptKey (sound : Sound s) (calm : s.breaks k = false ∧ s.keys.length < keysMax) :
    Sound (s.acceptKey k) := by
  have quiet : Console.breaks { s with arrived := s.arrived ++ [k] } k = false := calm.1
  unfold Console.acceptKey
  dsimp only
  rw [quiet, if_neg Bool.false_ne_true, if_pos calm.2]
  refine { sound with keys := ?_ }
  change s.arrived ++ [k] = s.served.flatMap Served.keys ++ s.worked.map Prod.fst ++ (s.keys ++ [k])
  rw [sound.keys, List.append_assoc]

/-! ## Runs -/

theorem Sound.step (sound : Sound s) {action : Action} {t : Console} (calm : s.Calm action) (fed : s.Fed action)
    (moves : s.step action = some t) : Sound t := by
  have moved : ∀ phase gone, Sound { s with phase := phase, gone := gone } := fun _ _ =>
    sound.aside rfl rfl rfl rfl rfl rfl rfl rfl fun _ found _ => found
  unfold Console.step at moves
  cases action with
  | kill token =>
    cases moves
    exact moved _ _
  | timeout =>
    dsimp only at moves
    split_ifs at moves
    cases moves
    exact moved _ _
  | request r made =>
    dsimp only at moves
    split_ifs at moves
    cases moves
    exact sound.handle r made
  | clientGone badge =>
    dsimp only at moves
    split_ifs at moves
    cases moves
    exact sound.clientGone fed _
  | accept k =>
    dsimp only at moves
    cases phase : s.phase with
    | polling next =>
      rw [phase] at moves
      cases moves
      exact sound.acceptKey calm
    | recv | dispatching next =>
      rw [phase] at moves
      cases moves
  | polled =>
    dsimp only at moves
    cases phase : s.phase with
    | polling next =>
      rw [phase] at moves
      cases moves
      exact moved _ _
    | recv | dispatching next =>
      rw [phase] at moves
      cases moves
  | round =>
    dsimp only at moves
    cases phase : s.phase with
    | dispatching next =>
      rw [phase] at moves
      cases moves
      refine sound.dispatch (fed next ?_)
      rw [phase]
      rfl
    | recv | polling next =>
      rw [phase] at moves
      cases moves

instance (s : Console) : (action : Action) -> Decidable (s.Calm action)
  | .accept _ => inferInstanceAs (Decidable (_ ∧ _))
  | .kill _ | .timeout | .request .. | .clientGone _ | .polled | .round => isTrue trivial

instance (s : Console) (p : Pending) : Decidable (s.FedRequest p) := inferInstanceAs (Decidable (ite _ _ _))

instance (s : Console) (next : Next) : Decidable (s.FedRound next) := inferInstanceAs (Decidable (_ ∧ _))

instance (s : Console) : (action : Action) -> Decidable (s.Fed action)
  | .clientGone badge => inferInstanceAs (Decidable (∀ p ∈ s.pending, p.badge ≠ badge))
  | .round => inferInstanceAs (Decidable (∀ next ∈ s.phase.behind, s.FedRound next))
  | .kill _ | .timeout | .request .. | .accept _ | .polled => isTrue trivial

/-- A run of the given actions, as long as each of them meets the condition. -/
def replay (condition : Console -> Action -> Prop) [∀ s action, Decidable (condition s action)] :
    Console -> List Action -> Option Console
  | s, [] => some s
  | s, action :: rest => if condition s action then (s.step action).bind fun t => replay condition t rest else none

theorem reachable_of_replay {system : System Console Action} {condition : Console -> Action -> Prop}
    [∀ s action, Decidable (condition s action)]
    (steps : ∀ s action t, condition s action -> s.step action = some t -> system.step s action t)
    (actions : List Action) {t : Console} (reached : system.Reachable s) (ran : replay condition s actions = some t) :
    system.Reachable t := by
  induction actions generalizing s with
  | nil =>
    cases ran
    exact reached
  | cons action rest ih =>
    unfold replay at ran
    split_ifs at ran with meets
    obtain ⟨middle, moves, ran⟩ := Option.bind_eq_some_iff.mp ran
    exact ih (reached.next (steps s action middle meets moves)) ran

def letterA : Key := ⟨fndKeyChar, 0x61, 0⟩
def enter : Key := ⟨fndKeyEnter, 0, 0⟩

/-- A stream is opened and a read of ten bytes waits at it. -/
def readWaiting : List Action :=
  [.request ⟨1, lookupBadge, fndDevOpen, fndOpenRead, 0⟩ (.ok ()), .polled, .round,
    .request ⟨2, 1, fndStRead, 10, 10⟩ (.ok ()), .round]

/-- A line is typed and given out. -/
def typed : List Action := [.accept letterA, .accept enter, .polled, .round, .round, .round, .round]

/-- The reader gets its line. -/
theorem line_read : ∃ s, replay (fun s action => s.Calm action ∧ s.Fed action) boot (readWaiting ++ typed) = some s ∧
    s.served = [⟨2, [(letterA, true), (enter, true)], .line [0x61, 10], true⟩] := by
  refine ⟨_, rfl, ?_⟩
  decide +kernel

end Src32.Services.Console
