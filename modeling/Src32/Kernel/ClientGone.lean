import Src32.Kernel.Orphans

namespace Src32.Kernel

open Function (update update_self update_of_ne update_idem)

/-!
# CLIENT_GONE

The end of a channel whose port is there is told to its server once.  A request
that was queued through the channel before it was closed is delivered after
that, as notifications come before callers and a caller is queued with its port
and badge only.  It is not in a run where every handle that is closed leaves
another one for the channels of the callers that are queued.
-/

/-! ## Events of a channel -/

/-- The last handle of the channel closed. -/
def Event.closes (c : Channel) : Event -> Bool
  | .closed d => d = c
  | _ => false

/-- A receiver was given the CLIENT_GONE of the channel. -/
def Event.tells (c : Channel) : Event -> Bool
  | .gone d _ => d = c
  | _ => false

/-- The CLIENT_GONE of the channel went with its port. -/
def Event.drops (c : Channel) : Event -> Bool
  | .dropped d => d = c
  | _ => false

/-- A request was delivered that came through the channel. -/
def Event.through (c : Channel) : Event -> Bool
  | .request d .. => d = c
  | _ => false

/-- The event is the answer to a call. -/
def Event.replies : Event -> Bool
  | .answered .. => true
  | _ => false

namespace Ipc

variable {k next third : Ipc} {t : ThreadId} {c : ChanId} {ch : Channel}

/-- How often an event of this kind happened. -/
def happened (k : Ipc) (kind : Event -> Bool) : Nat := k.history.events.countP kind

/-- The CLIENT_GONE of the channel is listed at its port. -/
def Listed (k : Ipc) (ch : Channel) : Prop :=
  ch.2 = k.history.opens ch.1 ∧ (k.chans ch.1).used = true ∧ (k.chans ch.1).refs = 0

instance (k : Ipc) (ch : Channel) : Decidable (k.Listed ch) := inferInstanceAs (Decidable (_ ∧ _ ∧ _))

/-- The request of thread `t` was queued through the channel in slot `c`, which
a handle names. -/
structure QueuedThrough (k : Ipc) (t : ThreadId) (q : PortId) (c : ChanId) : Prop where
  via : k.history.via t = k.channel c
  used : (k.chans c).used = true
  held : 0 < (k.chans c).refs
  port : (k.chans c).port = some q
  badge : (k.chans c).badge = (k.thread t).badge

/-- What the past says about channels and their ends. -/
structure Parted (k : Ipc) : Prop where
  queued : ∀ t q, k.waitsAt t .send q = true -> ∃ c, k.QueuedThrough t q c
  balance : ∀ ch, k.happened (Event.closes ch) =
    k.happened (Event.tells ch) + k.happened (Event.drops ch) + if k.Listed ch then 1 else 0
  once : ∀ ch, k.happened (Event.closes ch) ≤ 1
  held : ∀ c, (k.chans c).used = true -> 0 < (k.chans c).refs -> k.happened (Event.closes (k.channel c)) = 0
  ahead : ∀ c n, k.history.opens c < n -> k.happened (Event.closes (c, n)) = 0 ∧ k.happened (Event.through (c, n)) = 0
  badges : ∀ c, (k.chans c).port ≠ none -> ∀ badge call token server,
    Event.request (k.channel c) badge call token server ∈ k.history.events -> badge = (k.chans c).badge
  agree : ∀ ch badge call token server other, Event.request ch badge call token server ∈ k.history.events ->
    Event.gone ch other ∈ k.history.events -> badge = other
  order : k.history.events.Pairwise fun later earlier => ∀ ch badge, earlier = .gone ch badge -> later.through ch = false

/-! ## What no channel depends on -/

/-- No request is queued or delivered, and channels stay as they were. -/
structure Aside (k next : Ipc) : Prop where
  queued : ∀ t q, next.waitsAt t .send q = true ->
    k.waitsAt t .send q = true ∧ (next.thread t).badge = (k.thread t).badge
  chans : ∀ c, (next.chans c).used = (k.chans c).used ∧ (0 < (next.chans c).refs ↔ 0 < (k.chans c).refs) ∧
    (next.chans c).port = (k.chans c).port ∧ ((k.chans c).port ≠ none -> (next.chans c).badge = (k.chans c).badge)
  opens : next.history.opens = k.history.opens
  via : next.history.via = k.history.via
  events : ∃ others, next.history.events = others ++ k.history.events ∧ ∀ event ∈ others, event.replies = true

theorem Aside.refl (k : Ipc) : Aside k k :=
  ⟨fun _ _ waits => ⟨waits, rfl⟩, fun _ => ⟨rfl, Iff.rfl, rfl, fun _ => rfl⟩, rfl, rfl, [], rfl, nofun⟩

theorem Aside.trans (first : Aside k next) (second : Aside next third) : Aside k third where
  queued := by
    intro t q waits
    obtain ⟨middle, last⟩ := second.queued t q waits
    obtain ⟨before, same⟩ := first.queued t q middle
    exact ⟨before, last.trans same⟩
  chans := by
    intro c
    obtain ⟨used, held, port, badge⟩ := first.chans c
    obtain ⟨used', held', port', badge'⟩ := second.chans c
    exact ⟨used'.trans used, held'.trans held, port'.trans port,
      fun some_ => (badge' (port ▸ some_)).trans (badge some_)⟩
  opens := second.opens.trans first.opens
  via := second.via.trans first.via
  events := by
    obtain ⟨early, before, answers⟩ := first.events
    obtain ⟨late, after, replies⟩ := second.events
    refine ⟨late ++ early, ?_, fun event member => ?_⟩
    · rw [after, before, List.append_assoc]
    · exact (List.mem_append.mp member).elim (replies event) (answers event)

variable {p : ProcId} {q : PortId} {i : HandleIx} {event : Event} {kind : Event -> Bool} {action : Action}

/-- What does not count answers counts the same. -/
theorem Aside.happened (aside : Aside k next) (other : ∀ event, event.replies = true -> kind event = false) :
    next.happened kind = k.happened kind := by
  obtain ⟨others, same, replies⟩ := aside.events
  have none : others.countP kind = 0 := by
    apply List.countP_eq_zero.mpr
    intro event member counted
    exact Bool.false_ne_true ((other event (replies event member)).symm.trans counted)
  unfold Ipc.happened
  rw [same, List.countP_append, none, Nat.zero_add]

theorem replies_kinds (ch : Channel) (event : Event) (replies : event.replies = true) :
    Event.closes ch event = false ∧ Event.tells ch event = false ∧ Event.drops ch event = false ∧
      Event.through ch event = false := by
  cases event with
  | answered => exact ⟨rfl, rfl, rfl, rfl⟩
  | closed | gone | dropped | request => cases replies

theorem Aside.counts (aside : Aside k next) (ch : Channel) :
    next.happened (Event.closes ch) = k.happened (Event.closes ch) ∧
      next.happened (Event.tells ch) = k.happened (Event.tells ch) ∧
      next.happened (Event.drops ch) = k.happened (Event.drops ch) ∧
      next.happened (Event.through ch) = k.happened (Event.through ch) :=
  ⟨aside.happened fun event replies => (replies_kinds ch event replies).1,
    aside.happened fun event replies => (replies_kinds ch event replies).2.1,
    aside.happened fun event replies => (replies_kinds ch event replies).2.2.1,
    aside.happened fun event replies => (replies_kinds ch event replies).2.2.2⟩

theorem Aside.mem (aside : Aside k next) (other : event.replies = false) :
    event ∈ next.history.events ↔ event ∈ k.history.events := by
  obtain ⟨others, same, replies⟩ := aside.events
  rw [same, List.mem_append]
  refine ⟨fun member => member.resolve_left fun late => ?_, Or.inr⟩
  exact Bool.false_ne_true (other.symm.trans (replies event late))

theorem Aside.channel (aside : Aside k next) (c : ChanId) : next.channel c = k.channel c := by
  unfold Ipc.channel
  rw [aside.opens]

theorem Aside.listed (aside : Aside k next) : next.Listed ch ↔ k.Listed ch := by
  obtain ⟨used, held, _⟩ := aside.chans ch.1
  unfold Listed
  rw [aside.opens, used, ← Nat.le_zero, ← Nat.not_lt, held, Nat.not_lt, Nat.le_zero]

theorem Aside.order (aside : Aside k next)
    (order : k.history.events.Pairwise fun later earlier => ∀ ch badge, earlier = Event.gone ch badge -> later.through ch = false) :
    next.history.events.Pairwise fun later earlier => ∀ ch badge, earlier = Event.gone ch badge -> later.through ch = false := by
  obtain ⟨others, same, replies⟩ := aside.events
  rw [same, List.pairwise_append]
  refine ⟨?_, order, fun later member earlier _ ch badge _ => ?_⟩
  · apply List.pairwise_of_forall_mem_list
    intro later member earlier _ ch badge _
    exact (replies_kinds ch later (replies later member)).2.2.2
  · exact (replies_kinds ch later (replies later member)).2.2.2

theorem Parted.aside (parted : k.Parted) (aside : Aside k next) : next.Parted where
  queued := by
    intro t q waits
    obtain ⟨before, badge⟩ := aside.queued t q waits
    obtain ⟨c, through⟩ := parted.queued t q before
    obtain ⟨used, held, port, same⟩ := aside.chans c
    refine ⟨c, ?_, used.trans through.used, held.mpr through.held, port.trans through.port, ?_⟩
    · rw [aside.via, aside.channel]
      exact through.via
    · rw [badge, same (by rw [through.port]; nofun)]
      exact through.badge
  balance := by
    intro ch
    obtain ⟨closes, tells, drops, _⟩ := aside.counts ch
    rw [closes, tells, drops, parted.balance ch]
    exact congrArg _ (if_congr aside.listed.symm rfl rfl)
  once := by
    intro ch
    rw [(aside.counts ch).1]
    exact parted.once ch
  held := by
    intro c inUse some_
    obtain ⟨used, held, _⟩ := aside.chans c
    rw [aside.channel, (aside.counts _).1]
    exact parted.held c (used ▸ inUse) (held.mp some_)
  ahead := by
    intro c n later
    rw [aside.opens] at later
    rw [(aside.counts _).1, (aside.counts _).2.2.2]
    exact parted.ahead c n later
  badges := by
    intro c some_ badge call token server given
    obtain ⟨_, _, port, same⟩ := aside.chans c
    rw [port] at some_
    rw [aside.channel, aside.mem rfl] at given
    rw [same some_]
    exact parted.badges c some_ badge call token server given
  agree := by
    intro ch badge call token server other given told
    rw [aside.mem rfl] at given told
    exact parted.agree ch badge call token server other given told
  order := aside.order parted.order

/-- Threads that are queued, channels and the past are as they were. -/
theorem aside_of_same (threads : ∀ t q, next.waitsAt t .send q = true -> next.thread t = k.thread t)
    (chans : next.chans = k.chans)
    (history : next.history.opens = k.history.opens ∧ next.history.via = k.history.via ∧
      next.history.events = k.history.events) : Aside k next := by
  refine ⟨fun t q waits => ?_, fun c => ?_, history.1, history.2.1, [], history.2.2, nofun⟩
  · have same := threads t q waits
    unfold waitsAt at waits ⊢
    rw [same] at waits
    rw [same]
    exact ⟨waits, rfl⟩
  · rw [chans]
    exact ⟨rfl, Iff.rfl, rfl, fun _ => rfl⟩

/-- One thread changes, which then is no caller. -/
theorem aside_update {changed : Thread} (threads : next.thread = update k.thread t changed)
    (away : changed.state = .blocked -> changed.reason ≠ .send) (chans : next.chans = k.chans)
    (history : next.history.opens = k.history.opens ∧ next.history.via = k.history.via ∧
      next.history.events = k.history.events) : Aside k next := by
  refine aside_of_same (fun u q waits => ?_) chans history
  have other : u ≠ t := by
    rintro rfl
    obtain ⟨blocked, sends, _⟩ := waitsAt_iff.mp waits
    rw [threads, update_self] at blocked sends
    exact away blocked sends
  rw [threads, update_of_ne other]

theorem Quiet.aside (quiet : Quiet k next) : Aside k next := by
  refine aside_of_same (fun t q waits => ?_) quiet.chans ?_
  · exact (quiet.threads t).waits (Or.inr (waitsAt_iff.mp waits).1)
  · rw [quiet.history]
    exact ⟨rfl, rfl, rfl⟩

theorem LinesOnly.aside (only : LinesOnly k next) : Aside k next := by
  refine aside_of_same (fun t q _ => congrFun only.thread t) ?_ ?_
  · rw [only.rest]
  · rw [only.history]
    exact ⟨rfl, rfl, rfl⟩

/-- Counts change, but no channel comes to be held or is let go. -/
theorem Recount.aside (recount : Recount k next)
    (held : ∀ c, 0 < (next.chans c).refs ↔ 0 < (k.chans c).refs) : Aside k next := by
  refine ⟨fun t q waits => ?_, fun c => ?_, ?_, ?_, [], ?_, nofun⟩
  · refine ⟨(recount.waitsAt t .send q).symm.trans waits, ?_⟩
    rw [recount.threads t]
  · have counts := held c
    rw [recount.chans c] at counts ⊢
    exact ⟨rfl, counts, rfl, fun _ => rfl⟩
  · rw [recount.history]
  · rw [recount.history]
  · rw [recount.history]
    rfl

theorem aside_wake (k : Ipc) (t : ThreadId) (result : Word) : Aside k (k.wake t result) :=
  aside_update (wake_thread k t result) nofun rfl ⟨rfl, rfl, rfl⟩

/-! ## Channels that open -/

/-- A slot that is free holds a new channel, or is free again. -/
theorem Parted.opened (parted : k.Parted) (fresh : Chan) (unused : (k.chans c).used = false)
    (threads : next.thread = k.thread) (chans : next.chans = update k.chans c fresh)
    (held : fresh.used = true -> 0 < fresh.refs)
    (history : next.history = { k.history with opens := update k.history.opens c (k.history.opens c + 1) }) :
    next.Parted := by
  have opens : next.history.opens c = k.history.opens c + 1 := by
    rw [history]
    exact update_self ..
  have later : ∀ d, d ≠ c -> next.history.opens d = k.history.opens d := by
    intro d other
    rw [history]
    exact update_of_ne other ..
  have events : next.history.events = k.history.events := by
    rw [history]
  have via : next.history.via = k.history.via := by
    rw [history]
  have self : next.chans c = fresh := by
    rw [chans, update_self]
  have others : ∀ d, d ≠ c -> next.chans d = k.chans d := by
    intro d other
    rw [chans, update_of_ne other]
  have channel : ∀ d, d ≠ c -> next.channel d = k.channel d := by
    intro d other
    unfold Ipc.channel
    rw [later d other]
  have happened : ∀ kind, next.happened kind = k.happened kind := by
    intro kind
    unfold Ipc.happened
    rw [events]
  have new := parted.ahead c (k.history.opens c + 1) (Nat.lt_succ_self _)
  have newest : next.channel c = (c, k.history.opens c + 1) := by
    unfold Ipc.channel
    rw [opens]
  refine ⟨fun t q waits => ?_, fun ch => ?_, fun ch => ?_, fun d inUse some_ => ?_, fun d n beyond => ?_,
    fun d some_ badge call token server given => ?_, ?_, ?_⟩
  · have before : k.waitsAt t .send q = true := by
      unfold waitsAt at waits ⊢
      rw [threads] at waits
      exact waits
    obtain ⟨d, through⟩ := parted.queued t q before
    have other : d ≠ c := by
      rintro rfl
      exact Bool.false_ne_true (unused.symm.trans through.used)
    refine ⟨d, ?_, ?_, ?_, ?_, ?_⟩
    · rw [via, channel d other]
      exact through.via
    · rw [others d other]
      exact through.used
    · rw [others d other]
      exact through.held
    · rw [others d other]
      exact through.port
    · rw [others d other, threads]
      exact through.badge
  · rw [happened, happened, happened, parted.balance ch]
    congr 1
    apply if_congr _ rfl rfl
    obtain ⟨d, n⟩ := ch
    unfold Listed
    dsimp only
    by_cases same : d = c
    · rw [same, self]
      constructor
      · rintro ⟨_, inUse, _⟩
        exact absurd inUse (by rw [unused]; exact Bool.false_ne_true)
      · rintro ⟨_, inUse, none⟩
        exact absurd (held inUse) (by rw [none]; exact Nat.lt_irrefl 0)
    · rw [others d same, later d same]
  · rw [happened]
    exact parted.once ch
  · rw [happened]
    by_cases same : d = c
    · rw [same, newest]
      exact new.1
    · rw [others d same] at inUse some_
      rw [channel d same]
      exact parted.held d inUse some_
  · rw [happened, happened]
    by_cases same : d = c
    · rw [same] at beyond ⊢
      rw [opens] at beyond
      exact parted.ahead c n (Nat.lt_of_succ_lt beyond)
    · rw [later d same] at beyond
      exact parted.ahead d n beyond
  · rw [events] at given
    by_cases same : d = c
    · rw [same, newest] at given
      have none := List.countP_eq_zero.mp new.2 _ given
      exact absurd (decide_eq_true rfl) none
    · rw [others d same] at some_ ⊢
      rw [channel d same] at given
      exact parted.badges d some_ badge call token server given
  · rw [events]
    exact parted.agree
  · rw [events]
    exact parted.order

theorem Parted.newChannel (parted : k.Parted) (proc : ProcId) (port : Option PortId) (badge : Word) :
    (k.newChannel proc port badge).2.Parted := by
  rcases newChannel_cases k proc port badge with ⟨error, failed⟩ | ⟨c, unused, result⟩
  · rw [failed]
    exact parted
  · rcases result with ⟨error, failed⟩ | ⟨i, _, made⟩
    · rw [failed]
      refine parted.opened ⟨false, 0, port, badge, 0⟩ unused rfl ?_ nofun rfl
      unfold modifyChan openChan
      dsimp only
      rw [update_self, update_idem]
    · rw [made]
      refine parted.opened ⟨true, 1, port, badge, 0⟩ unused rfl ?_ (fun _ => Nat.one_pos) rfl
      unfold objRef setHandle modifyChan openChan
      dsimp only
      rw [update_self, update_idem]

/-! ## Requests -/

/-- A channel that is held has not been told of. -/
theorem Parted.untold (parted : k.Parted) (used : (k.chans c).used = true) (held : 0 < (k.chans c).refs) :
    k.happened (Event.tells (k.channel c)) = 0 := by
  have none := parted.held c used held
  have sum := parted.balance (k.channel c)
  omega

theorem not_mem_of_happened (none : k.happened kind = 0) (counted : kind event = true) :
    event ∉ k.history.events := fun member =>
  List.countP_eq_zero.mp none event member counted

/-- An event that is no end of a channel joins the history. -/
theorem happened_cons (history : next.history.events = event :: k.history.events) (kind : Event -> Bool)
    (other : kind event = false) : next.happened kind = k.happened kind := by
  unfold happened
  rw [history]
  apply List.countP_cons_of_neg
  rw [other]
  exact Bool.false_ne_true

/-- A request that was queued is delivered. -/
theorem Parted.accept (parted : k.Parted) {receiver caller : ThreadId} (waits : k.waitsAt caller .send q = true) :
    (k.acceptCall receiver caller).Parted := by
  obtain ⟨c, through⟩ := parted.queued caller q waits
  have threads := acceptCall_thread k receiver caller
  have events : (k.acceptCall receiver caller).history.events = .request (k.history.via caller) (k.thread caller).badge
      (k.history.call caller) (k.tokenOf caller) (k.process (k.procOf receiver)) :: k.history.events := rfl
  have rest : (k.acceptCall receiver caller).chans = k.chans ∧
      (k.acceptCall receiver caller).history.opens = k.history.opens ∧
      (k.acceptCall receiver caller).history.via = k.history.via := ⟨rfl, rfl, rfl⟩
  generalize k.process (k.procOf receiver) = server at events
  generalize k.acceptCall receiver caller = next at threads events rest ⊢
  obtain ⟨chans, opens, via⟩ := rest
  rw [through.via] at events
  have channel : ∀ d, next.channel d = k.channel d := by
    intro d
    unfold Ipc.channel
    rw [opens]
  have untold := parted.untold through.used through.held
  refine ⟨fun t r waiting => ?_, fun ch => ?_, fun ch => ?_, fun d inUse some_ => ?_, fun d n beyond => ⟨?_, ?_⟩,
    fun d some_ badge call token server' given => ?_, fun ch badge call token server' other given told => ?_, ?_⟩
  · have other : t ≠ caller := by
      rintro rfl
      have sends := (waitsAt_iff.mp waiting).2.1
      rw [threads, update_self] at sends
      cases sends
    have same : next.thread t = k.thread t := by
      rw [threads, update_of_ne other]
    have before : k.waitsAt t .send r = true := by
      unfold waitsAt at waiting ⊢
      rw [same] at waiting
      exact waiting
    obtain ⟨d, queued⟩ := parted.queued t r before
    refine ⟨d, ?_, ?_, ?_, ?_, ?_⟩
    · rw [via, channel]
      exact queued.via
    · rw [chans]
      exact queued.used
    · rw [chans]
      exact queued.held
    · rw [chans]
      exact queued.port
    · rw [chans, same]
      exact queued.badge
  · rw [happened_cons events _ rfl, happened_cons events _ rfl, happened_cons events _ rfl, parted.balance ch]
    congr 1
    apply if_congr _ rfl rfl
    unfold Listed
    rw [opens, chans]
  · rw [happened_cons events _ rfl]
    exact parted.once ch
  · rw [chans] at inUse some_
    rw [channel, happened_cons events _ rfl]
    exact parted.held d inUse some_
  · rw [opens] at beyond
    rw [happened_cons events _ rfl]
    exact (parted.ahead d n beyond).1
  · rw [opens] at beyond
    rw [happened_cons events]
    · exact (parted.ahead d n beyond).2
    · unfold Event.through Ipc.channel
      apply decide_eq_false
      intro same
      have first := (Prod.mk.inj same).1
      have second := (Prod.mk.inj same).2
      rw [first] at second
      omega
  · rw [channel, events] at given
    rw [chans] at some_ ⊢
    rcases List.mem_cons.mp given with here | before
    · obtain ⟨same, badges, _⟩ := Event.request.inj here
      have slot := (Prod.mk.inj same).1
      rw [badges, slot]
      exact through.badge.symm
    · exact parted.badges d some_ badge call token server' before
  · rw [events] at given told
    have before := (List.mem_cons.mp told).resolve_left nofun
    rcases List.mem_cons.mp given with here | earlier
    · obtain ⟨same, _⟩ := Event.request.inj here
      rw [same] at before
      exact absurd before (not_mem_of_happened untold (decide_eq_true rfl))
    · exact parted.agree ch badge call token server' other earlier before
  · rw [events, List.pairwise_cons]
    refine ⟨fun earlier member ch badge same => ?_, parted.order⟩
    unfold Event.through
    apply decide_eq_false
    intro here
    rw [same, ← here] at member
    have tells : Event.tells (k.channel c) (.gone (k.channel c) badge) = true := decide_eq_true rfl
    exact not_mem_of_happened untold tells member

/-- A request is queued through a channel that is held. -/
theorem Parted.sendCall (parted : k.Parted) (counted : k.Counted) (named : k.Named (.chan c))
    (port : (k.chans c).port = some q) (t : ThreadId) (msg : Msg) (rep buf cap : Word) :
    (k.sendCall t c q msg rep buf cap).Parted := by
  have held : 0 < (k.chans c).refs := counted.named.mp named
  have threads := sendCall_thread k t c q msg rep buf cap
  have history : (k.sendCall t c q msg rep buf cap).history.via = update k.history.via t (k.channel c) ∧
      (k.sendCall t c q msg rep buf cap).history.opens = k.history.opens ∧
      (k.sendCall t c q msg rep buf cap).history.events = k.history.events := ⟨rfl, rfl, rfl⟩
  have chans : (k.sendCall t c q msg rep buf cap).chans = k.chans := rfl
  generalize k.sendCall t c q msg rep buf cap = next at threads history chans ⊢
  obtain ⟨via, opens, events⟩ := history
  have channel : ∀ d, next.channel d = k.channel d := by
    intro d
    unfold Ipc.channel
    rw [opens]
  have happened : ∀ kind, next.happened kind = k.happened kind := by
    intro kind
    unfold Ipc.happened
    rw [events]
  refine ⟨fun u r waiting => ?_, fun ch => ?_, fun ch => ?_, fun d inUse some_ => ?_, fun d n beyond => ?_,
    fun d some_ badge call token server given => ?_, ?_, ?_⟩
  · by_cases same : u = t
    · have there := (waitsAt_iff.mp waiting).2.2
      have badge : (next.thread t).badge = (k.chans c).badge := by
        rw [threads, update_self]
      rw [same, threads, update_self] at there
      refine ⟨c, ?_, ?_, ?_, ?_, ?_⟩
      · rw [same, via, update_self, channel]
      · rw [chans]
        exact counted.chans c held
      · rw [chans]
        exact held
      · rw [chans]
        exact port.trans there
      · rw [chans, same]
        exact badge.symm
    · have stays : next.thread u = k.thread u := by
        rw [threads, update_of_ne same]
      have before : k.waitsAt u .send r = true := by
        unfold waitsAt at waiting ⊢
        rw [stays] at waiting
        exact waiting
      obtain ⟨d, queued⟩ := parted.queued u r before
      refine ⟨d, ?_, ?_, ?_, ?_, ?_⟩
      · rw [via, update_of_ne same, channel]
        exact queued.via
      · rw [chans]
        exact queued.used
      · rw [chans]
        exact queued.held
      · rw [chans]
        exact queued.port
      · rw [chans, stays]
        exact queued.badge
  · rw [happened, happened, happened, parted.balance ch]
    congr 1
    apply if_congr _ rfl rfl
    unfold Listed
    rw [opens, chans]
  · rw [happened]
    exact parted.once ch
  · rw [chans] at inUse some_
    rw [channel, happened]
    exact parted.held d inUse some_
  · rw [opens] at beyond
    rw [happened, happened]
    exact parted.ahead d n beyond
  · rw [chans] at some_ ⊢
    rw [channel, events] at given
    exact parted.badges d some_ badge call token server given
  · rw [events]
    exact parted.agree
  · rw [events]
    exact parted.order

/-! ## The end of a channel -/

theorem happened_here (history : next.history.events = event :: k.history.events) (counted : kind event = true) :
    next.happened kind = k.happened kind + 1 := by
  unfold happened
  rw [history]
  exact List.countP_cons_of_pos counted

/-- A receiver takes the first CLIENT_GONE of a port. -/
theorem Parted.deliverGone (parted : k.Parted) (counted : k.Counted) (receiver : ThreadId)
    (used : (k.ports q).used = true) : (k.deliverGone receiver q).Parted := by
  unfold Ipc.deliverGone
  cases first : k.gone.head q with
  | none => exact parted
  | some c =>
    obtain ⟨inUse, none, port⟩ := counted.firstGone used first
    dsimp only
    generalize result : Ipc.note _ _ = next
    have chans : next.chans = update k.chans c { k.chans c with used := false } := by
      rw [← result]
      rfl
    have history : next.history.opens = k.history.opens ∧ next.history.via = k.history.via ∧
        next.history.events = .gone (k.channel c) (k.chans c).badge :: k.history.events := by
      rw [← result]
      exact ⟨rfl, rfl, rfl⟩
    have threads : next.thread = k.thread := by
      rw [← result]
      rfl
    obtain ⟨opens, via, events⟩ := history
    have self : next.chans c = { k.chans c with used := false } := by
      rw [chans, update_self]
    have others : ∀ d, d ≠ c -> next.chans d = k.chans d := by
      intro d other
      rw [chans, update_of_ne other]
    have channel : ∀ d, next.channel d = k.channel d := by
      intro d
      unfold Ipc.channel
      rw [opens]
    have ports : ∀ d, (next.chans d).port = (k.chans d).port ∧ (next.chans d).badge = (k.chans d).badge := by
      intro d
      by_cases same : d = c
      · rw [same, self]
        exact ⟨rfl, rfl⟩
      · rw [others d same]
        exact ⟨rfl, rfl⟩
    refine ⟨fun t r waiting => ?_, fun ch => ?_, fun ch => ?_, fun d inUse' some_ => ?_, fun d n beyond => ?_,
      fun d some_ badge call token server given => ?_, fun ch badge call token server other given told => ?_, ?_⟩
    · have before : k.waitsAt t .send r = true := by
        unfold waitsAt at waiting ⊢
        rw [threads] at waiting
        exact waiting
      obtain ⟨d, queued⟩ := parted.queued t r before
      have other : d ≠ c := by
        rintro rfl
        exact Nat.lt_irrefl 0 (none ▸ queued.held)
      refine ⟨d, ?_, ?_, ?_, ?_, ?_⟩
      · rw [via, channel]
        exact queued.via
      · rw [others d other]
        exact queued.used
      · rw [others d other]
        exact queued.held
      · rw [others d other]
        exact queued.port
      · rw [others d other, threads]
        exact queued.badge
    · have sum := parted.balance ch
      rw [happened_cons events _ rfl, happened_cons events (Event.drops ch) rfl, sum]
      by_cases here : ch = k.channel c
      · have before : k.Listed ch := by
          rw [here]
          exact ⟨rfl, inUse, none⟩
        have after : ¬ next.Listed ch := by
          rintro ⟨_, still, _⟩
          rw [here] at still
          change (next.chans c).used = true at still
          rw [self] at still
          cases still
        rw [happened_here events (show Event.tells ch _ = true from decide_eq_true here.symm), if_pos before, if_neg after]
        omega
      · rw [happened_cons events (Event.tells ch) (decide_eq_false (Ne.symm here))]
        congr 1
        apply if_congr _ rfl rfl
        unfold Listed
        rw [opens]
        by_cases slot : ch.1 = c
        · constructor
          · rintro ⟨current, _⟩
            refine absurd (Prod.ext slot ?_) here
            rw [current, slot]
            rfl
          · rintro ⟨_, still, _⟩
            rw [slot, self] at still
            cases still
        · rw [others ch.1 slot]
    · rw [happened_cons events _ rfl]
      exact parted.once ch
    · by_cases same : d = c
      · rw [same, self] at inUse'
        cases inUse'
      · rw [others d same] at inUse' some_
        rw [channel, happened_cons events _ rfl]
        exact parted.held d inUse' some_
    · rw [opens] at beyond
      rw [happened_cons events _ rfl, happened_cons events _ rfl]
      exact parted.ahead d n beyond
    · rw [(ports d).1] at some_
      rw [channel, events] at given
      rw [(ports d).2]
      exact parted.badges d some_ badge call token server ((List.mem_cons.mp given).resolve_left nofun)
    · rw [events] at given told
      have before := (List.mem_cons.mp given).resolve_left nofun
      rcases List.mem_cons.mp told with here | earlier
      · obtain ⟨same, badges⟩ := Event.gone.inj here
        rw [same] at before
        rw [badges]
        exact parted.badges c (by rw [port]; nofun) badge call token server before
      · exact parted.agree ch badge call token server other before earlier
    · rw [events, List.pairwise_cons]
      exact ⟨fun _ _ _ _ _ => rfl, parted.order⟩

/-- The last handle of a channel goes, through which no request is queued. -/
structure LastGone (k next : Ipc) (c : ChanId) : Prop where
  threads : next.thread = k.thread
  others : ∀ d, d ≠ c -> next.chans d = k.chans d
  refs : (next.chans c).refs = 0
  port : (next.chans c).port = (k.chans c).port ∧ (next.chans c).badge = (k.chans c).badge
  opens : next.history.opens = k.history.opens
  via : next.history.via = k.history.via
  /-- The slot is free, or the CLIENT_GONE of the channel is listed. -/
  events : ((next.chans c).used = false ∧ next.history.events = k.history.events) ∨
    ((next.chans c).used = true ∧ next.history.events = .closed (k.channel c) :: k.history.events)

theorem Parted.lastGone (parted : k.Parted) (gone : LastGone k next c) (used : (k.chans c).used = true)
    (held : 0 < (k.chans c).refs) (unqueued : ∀ t q, k.waitsAt t .send q = true -> k.history.via t ≠ k.channel c) :
    next.Parted := by
  obtain ⟨threads, others, refs, port, opens, via, events⟩ := gone
  have channel : ∀ d, next.channel d = k.channel d := by
    intro d
    unfold Ipc.channel
    rw [opens]
  have untold := parted.untold used held
  have unclosed := parted.held c used held
  have undropped : k.happened (Event.drops (k.channel c)) = 0 := by
    have sum := parted.balance (k.channel c)
    omega
  -- The events are as they were, except that the channel may have closed.
  have kept : ∀ kind, (kind (.closed (k.channel c)) = false) -> next.happened kind = k.happened kind := by
    intro kind other
    rcases events with ⟨_, same⟩ | ⟨_, grown⟩
    · unfold happened
      rw [same]
    · exact happened_cons grown kind other
  have member : ∀ event, event ∈ next.history.events -> event = .closed (k.channel c) ∨ event ∈ k.history.events := by
    intro event here
    rcases events with ⟨_, same⟩ | ⟨_, grown⟩
    · rw [same] at here
      exact Or.inr here
    · rw [grown] at here
      exact List.mem_cons.mp here
  have listed : ∀ ch, ch ≠ k.channel c -> (next.Listed ch ↔ k.Listed ch) := by
    intro ch other
    unfold Listed
    rw [opens]
    by_cases slot : ch.1 = c
    · have past : ch.2 ≠ k.history.opens ch.1 := by
        intro current
        refine other (Prod.ext slot ?_)
        rw [current, slot]
        rfl
      exact ⟨fun both => absurd both.1 past, fun both => absurd both.1 past⟩
    · rw [others ch.1 slot]
  have closes : ∀ ch, ch ≠ k.channel c -> next.happened (Event.closes ch) = k.happened (Event.closes ch) :=
    fun ch other => kept _ (decide_eq_false (Ne.symm other))
  refine ⟨fun t r waiting => ?_, fun ch => ?_, fun ch => ?_, fun d inUse some_ => ?_, fun d n beyond => ?_,
    fun d some_ badge call token server given => ?_, fun ch badge call token server other given told => ?_, ?_⟩
  · have before : k.waitsAt t .send r = true := by
      unfold waitsAt at waiting ⊢
      rw [threads] at waiting
      exact waiting
    obtain ⟨d, queued⟩ := parted.queued t r before
    have other : d ≠ c := by
      rintro rfl
      exact unqueued t r before queued.via
    refine ⟨d, ?_, ?_, ?_, ?_, ?_⟩
    · rw [via, channel]
      exact queued.via
    · rw [others d other]
      exact queued.used
    · rw [others d other]
      exact queued.held
    · rw [others d other]
      exact queued.port
    · rw [others d other, threads]
      exact queued.badge
  · rw [kept (Event.tells ch) rfl, kept (Event.drops ch) rfl]
    by_cases here : ch = k.channel c
    · rw [here, untold, undropped]
      rcases events with ⟨free, same⟩ | ⟨inUse, grown⟩
      · have after : ¬ next.Listed (k.channel c) := by
          rintro ⟨_, still, _⟩
          exact Bool.false_ne_true (free.symm.trans still)
        rw [if_neg after]
        unfold happened at unclosed ⊢
        rw [same]
        exact unclosed
      · have after : next.Listed (k.channel c) := ⟨(congrFun opens c).symm, inUse, refs⟩
        rw [if_pos after, happened_here grown (show Event.closes (k.channel c) _ = true from decide_eq_true rfl), unclosed]
    · rw [closes ch here, parted.balance ch]
      exact congrArg _ (if_congr (listed ch here).symm rfl rfl)
  · by_cases here : ch = k.channel c
    · rw [here]
      rcases events with ⟨_, same⟩ | ⟨_, grown⟩
      · unfold happened at unclosed ⊢
        rw [same, unclosed]
        exact Nat.zero_le 1
      · rw [happened_here grown (show Event.closes (k.channel c) _ = true from decide_eq_true rfl), unclosed]
    · rw [closes ch here]
      exact parted.once ch
  · have other : d ≠ c := by
      rintro rfl
      exact Nat.lt_irrefl 0 (refs ▸ some_)
    rw [others d other] at inUse some_
    have apart : k.channel d ≠ k.channel c := fun same => other (Prod.mk.inj same).1
    rw [channel, closes _ apart]
    exact parted.held d inUse some_
  · rw [opens] at beyond
    have apart : (d, n) ≠ k.channel c := by
      intro same
      obtain ⟨slot, number⟩ := Prod.mk.inj same
      rw [slot] at beyond
      omega
    rw [closes _ apart, kept _ rfl]
    exact parted.ahead d n beyond
  · rw [channel] at given
    have before := (member _ given).resolve_left nofun
    by_cases same : d = c
    · rw [same, port.1] at some_
      rw [same] at before
      rw [same, port.2]
      exact parted.badges c some_ badge call token server before
    · rw [others d same] at some_ ⊢
      exact parted.badges d some_ badge call token server before
  · exact parted.agree ch badge call token server other ((member _ given).resolve_left nofun)
      ((member _ told).resolve_left nofun)
  · rcases events with ⟨_, same⟩ | ⟨_, grown⟩
    · rw [same]
      exact parted.order
    · rw [grown, List.pairwise_cons]
      exact ⟨fun _ _ _ _ _ => rfl, parted.order⟩

/-! ## The end of a port -/

theorem mem_pendingGone : c ∈ k.pendingGone q ↔ k.GonePending c q := by
  unfold pendingGone GonePending
  rw [List.mem_filter, Bool.and_eq_true, Bool.and_eq_true, decide_eq_true_iff, decide_eq_true_iff, and_assoc]
  constructor
  · rintro ⟨_, used, port, unheld⟩
    exact ⟨used, unheld, port⟩
  · rintro ⟨used, unheld, port⟩
    exact ⟨List.mem_finRange c, used, port, unheld⟩

/-- The CLIENT_GONE of a channel is dropped once. -/
theorem droppedEvents_count (k : Ipc) (q : PortId) (ch : Channel) :
    (k.droppedEvents q).countP (Event.drops ch) = if k.Listed ch ∧ (k.chans ch.1).port = some q then 1 else 0 := by
  have each : ∀ c, Event.drops ch (.dropped (k.channel c)) = decide (k.channel c = ch) := fun _ => rfl
  unfold droppedEvents
  rw [List.countP_map]
  have kinds : (Event.drops ch ∘ fun c => Event.dropped (k.channel c)) = fun c => decide (k.channel c = ch) := funext each
  rw [kinds]
  split
  · next here =>
      obtain ⟨⟨current, used, none⟩, port⟩ := here
      have whole : ch = k.channel ch.1 := Prod.ext rfl current
      have member : ch.1 ∈ k.pendingGone q := mem_pendingGone.mpr ⟨used, none, port⟩
      have alone : ∀ c ∈ k.pendingGone q, decide (k.channel c = ch) = (c == ch.1) := by
        intro c _
        apply Bool.eq_iff_iff.mpr
        rw [decide_eq_true_iff, beq_iff_eq]
        constructor
        · rintro rfl
          rfl
        · rintro rfl
          exact whole.symm
      rw [List.countP_congr (fun c here => by rw [alone c here]), ← List.count.eq_1]
      exact List.count_eq_one_of_mem ((List.nodup_finRange 128).filter _) member
  · next elsewhere =>
      apply List.countP_eq_zero.mpr
      intro c member same
      rw [decide_eq_true_iff] at same
      obtain ⟨used, none, port⟩ := mem_pendingGone.mp member
      subst same
      exact elsewhere ⟨⟨rfl, used, none⟩, port⟩

/-- A channel of a destroyed port is cut off, and its CLIENT_GONE is dropped. -/
theorem Parted.destroyed (parted : k.Parted) (destroyed : Destroyed k next q) : next.Parted := by
  have chans : ∀ c, next.chans c = Chan.orphan q (k.chans c) := by
    intro c
    rw [destroyed.chans]
  have spared : ∀ c, (k.chans c).port ≠ some q -> next.chans c = k.chans c := by
    intro c elsewhere
    rw [chans]
    unfold Chan.orphan
    rw [decide_eq_false elsewhere, Bool.and_false]
    exact if_neg Bool.false_ne_true
  have kept : ∀ c, (next.chans c).port ≠ none -> next.chans c = k.chans c := by
    intro c some_
    rw [chans] at some_ ⊢
    unfold Chan.orphan at some_ ⊢
    split at some_
    · exact absurd rfl some_
    · next here => rw [if_neg here]
  have events : next.history.events = k.droppedEvents q ++ k.history.events := by
    rw [destroyed.history]
  have opens : next.history.opens = k.history.opens := by
    rw [destroyed.history]
  have via : next.history.via = k.history.via := by
    rw [destroyed.history]
  have channel : ∀ d, next.channel d = k.channel d := by
    intro d
    unfold Ipc.channel
    rw [opens]
  have dropped : ∀ event ∈ k.droppedEvents q, ∃ d, event = .dropped d := by
    intro event member
    obtain ⟨c, _, rfl⟩ := List.mem_map.mp member
    exact ⟨k.channel c, rfl⟩
  have same : ∀ kind, (∀ d, kind (.dropped d) = false) -> next.happened kind = k.happened kind := by
    intro kind other
    have none : (k.droppedEvents q).countP kind = 0 := by
      apply List.countP_eq_zero.mpr
      intro event member counted
      obtain ⟨d, rfl⟩ := dropped event member
      exact Bool.false_ne_true ((other d).symm.trans counted)
    unfold happened
    rw [events, List.countP_append, none, Nat.zero_add]
  have before : ∀ event, event ∈ next.history.events -> (∀ d, event ≠ .dropped d) -> event ∈ k.history.events := by
    intro event member other
    rw [events, List.mem_append] at member
    refine member.resolve_left fun here => ?_
    obtain ⟨d, same⟩ := dropped event here
    exact other d same
  refine ⟨fun t r waiting => ?_, fun ch => ?_, fun ch => ?_, fun d inUse some_ => ?_, fun d n beyond => ?_,
    fun d some_ badge call token server given => ?_, fun ch badge call token server other given told => ?_, ?_⟩
  · have away : ¬ k.AtPort t q := by
      intro here
      have blocked := (waitsAt_iff.mp waiting).1
      rw [destroyed.woken t here] at blocked
      cases blocked
    have thread := destroyed.away t away
    have waited : k.waitsAt t .send r = true := by
      unfold waitsAt at waiting ⊢
      rw [thread] at waiting
      exact waiting
    have other : r ≠ q := by
      rintro rfl
      exact away (Or.inl waited)
    obtain ⟨d, queued⟩ := parted.queued t r waited
    have elsewhere : (k.chans d).port ≠ some q := by
      rw [queued.port]
      exact fun equal => other (Option.some.inj equal)
    refine ⟨d, ?_, ?_, ?_, ?_, ?_⟩
    · rw [via, channel]
      exact queued.via
    · rw [spared d elsewhere]
      exact queued.used
    · rw [spared d elsewhere]
      exact queued.held
    · rw [spared d elsewhere]
      exact queued.port
    · rw [spared d elsewhere, thread]
      exact queued.badge
  · rw [same _ (fun _ => rfl), same (Event.tells ch) (fun _ => rfl), parted.balance ch]
    have counted : next.happened (Event.drops ch) =
        (if k.Listed ch ∧ (k.chans ch.1).port = some q then 1 else 0) + k.happened (Event.drops ch) := by
      unfold happened
      rw [events, List.countP_append, droppedEvents_count]
    rw [counted]
    by_cases port : (k.chans ch.1).port = some q
    · have after : ¬ next.Listed ch := by
        rintro ⟨_, used, unheld⟩
        rw [chans] at used unheld
        unfold Chan.orphan at used unheld
        by_cases inUse : (k.chans ch.1).used = true
        · rw [inUse, decide_eq_true port, Bool.and_self, if_pos rfl] at used unheld
          rw [decide_eq_true_iff] at used
          exact used unheld
        · rw [Bool.not_eq_true] at inUse
          rw [inUse, Bool.false_and, if_neg Bool.false_ne_true] at used
          exact Bool.false_ne_true (inUse.symm.trans used)
      rw [if_neg after]
      by_cases listed : k.Listed ch
      · rw [if_pos listed, if_pos ⟨listed, port⟩]
        omega
      · rw [if_neg listed, if_neg fun both => listed both.1]
        omega
    · have listed : next.Listed ch ↔ k.Listed ch := by
        unfold Listed
        rw [opens, spared ch.1 port]
      rw [if_neg (fun both : k.Listed ch ∧ _ => port both.2), Nat.zero_add]
      exact congrArg _ (if_congr listed.symm rfl rfl)
  · rw [same _ (fun _ => rfl)]
    exact parted.once ch
  · rw [channel, same _ (fun _ => rfl)]
    by_cases port : (k.chans d).port = some q
    · by_cases used : (k.chans d).used = true
      · refine parted.held d used ?_
        rw [chans] at some_
        unfold Chan.orphan at some_
        rw [used, decide_eq_true port, Bool.and_self, if_pos rfl] at some_
        exact some_
      · rw [Bool.not_eq_true] at used
        rw [chans] at inUse
        unfold Chan.orphan at inUse
        rw [used, Bool.false_and, if_neg Bool.false_ne_true] at inUse
        exact absurd (used.symm.trans inUse) Bool.false_ne_true
    · rw [spared d port] at inUse some_
      exact parted.held d inUse some_
  · rw [opens] at beyond
    rw [same _ (fun _ => rfl), same _ (fun _ => rfl)]
    exact parted.ahead d n beyond
  · have stays := kept d some_
    rw [stays] at some_ ⊢
    rw [channel] at given
    exact parted.badges d some_ badge call token server (before _ given nofun)
  · exact parted.agree ch badge call token server other (before _ given nofun) (before _ told nofun)
  · rw [events, List.pairwise_append]
    refine ⟨?_, parted.order, fun later member earlier _ ch badge _ => ?_⟩
    · apply List.pairwise_of_forall_mem_list
      intro later member earlier _ ch badge _
      obtain ⟨d, rfl⟩ := dropped later member
      rfl
    · obtain ⟨d, rfl⟩ := dropped later member
      rfl

/-! ## Closing a handle -/

/-- The channel of every caller that is queued and stays is named by a handle
that is not closed. -/
def KeepsCallers (k : Ipc) (closing : ProcId × HandleIx -> Prop) (stays : ThreadId -> Prop) : Prop :=
  ∀ t q c, k.waitsAt t .send q = true -> stays t -> k.history.via t = k.channel c ->
    ∃ e, ¬ closing e ∧ k.handles e = some (.chan c)

theorem lastGone_listed (last : k.refs (.chan c) ≤ 1) (used : (k.chans c).used = true) (q : PortId) :
    LastGone k ((k.less p i (.chan c)).listGone c q) c := by
  have chans : ((k.less p i (.chan c)).listGone c q).chans = update k.chans c { k.chans c with refs := 0 } :=
    less_chan last
  have self : ((k.less p i (.chan c)).listGone c q).chans c = { k.chans c with refs := 0 } := by
    rw [chans, update_self]
  refine ⟨rfl, fun d other => ?_, ?_, ⟨?_, ?_⟩, rfl, rfl, Or.inr ⟨?_, rfl⟩⟩
  · rw [chans, update_of_ne other]
  · rw [self]
  · rw [self]
  · rw [self]
  · rw [self]
    exact used

theorem lastGone_freed (last : k.refs (.chan c) ≤ 1) :
    LastGone k ((k.less p i (.chan c)).modifyChan c fun chan => { chan with used := false }) c := by
  have chans : ((k.less p i (.chan c)).modifyChan c fun chan => { chan with used := false }).chans =
      update k.chans c { k.chans c with refs := 0, used := false } := by
    change update (k.less p i (.chan c)).chans c _ = _
    rw [less_chan last, update_self, update_idem]
  have self := congrFun chans c
  rw [update_self] at self
  refine ⟨rfl, fun d other => ?_, ?_, ⟨?_, ?_⟩, rfl, rfl, Or.inl ⟨?_, rfl⟩⟩
  · rw [chans, update_of_ne other]
  · rw [self]
  · rw [self]
  · rw [self]
  · rw [self]

theorem Parted.lastClosed (parted : k.Parted) (counted : k.Counted) (named : k.handles (p, i) = some (.chan c))
    (last : k.refs (.chan c) ≤ 1) (unqueued : ∀ t q, k.waitsAt t .send q = true -> k.history.via t ≠ k.channel c) :
    ((k.less p i (.chan c)).chanLastClosed c).Parted := by
  have held : 0 < (k.chans c).refs := counted.named.mp ⟨(p, i), named⟩
  have used := counted.chans c held
  have port : ((k.less p i (.chan c)).chans c).port = (k.chans c).port := by
    rw [less_chan last, update_self]
  rcases chanLastClosed_cases (k.less p i (.chan c)) c with ⟨_, done⟩ | ⟨q, _, behind, ⟨_, done⟩ | ⟨t, _, done⟩⟩
  · rw [done]
    exact parted.lastGone (lastGone_freed last) used held unqueued
  · rw [done]
    exact parted.lastGone (lastGone_listed last used q) used held unqueued
  · rw [port] at behind
    rw [done]
    have listed := parted.lastGone (lastGone_listed (p := p) (i := i) last used q) used held unqueued
    have counts := counted.listGone named last behind
    exact (listed.deliverGone counts t (counted.behind c q used behind)).aside (aside_wake _ t fndOk)

/-- Only the count of a port, a thread or a process goes, or that of a channel
that is held still. -/
theorem aside_less {o : Obj} (more : (∀ c, o ≠ .chan c) ∨ 2 ≤ k.refs o) :
    Aside k (k.less p i o) := by
  refine (recount_less k p i o).aside fun c => ?_
  have counts := less_refs k p i o (.chan c)
  change ((k.less p i o).chans c).refs = (k.chans c).refs - _ at counts
  rw [counts]
  split
  · next same =>
      rcases more with other | many
      · exact absurd same.symm (other c)
      · rw [← same] at many
        change 2 ≤ (k.chans c).refs at many
        omega
  · rw [Nat.sub_zero]

/-- A handle that is not the last one for a caller that is queued is closed. -/
theorem Parted.closeIx (parted : k.Parted) (counted : k.Counted) (keeps : k.KeepsCallers (· = (p, i)) fun _ => True) :
    (closeIx p k i).Parted := by
  rcases closeIx_cases k p i with ⟨_, same⟩ | ⟨o, named, ⟨done, more⟩ | ⟨q, rfl, _, done⟩ | ⟨c, rfl, last, done⟩⟩
  · rw [same]
    exact parted
  · rw [done]
    exact parted.aside (aside_less (more.imp_left And.right))
  · rw [done]
    exact (parted.aside (aside_less (Or.inl fun _ same => by cases same))).destroyed (portDestroy_spec ..)
  · rw [done]
    refine parted.lastClosed counted named last fun t q waits via => ?_
    obtain ⟨e, other, names⟩ := keeps t q c waits trivial via
    have cleared := tally_clear named (.chan c)
    rw [if_pos rfl, ← counted.exact] at cleared
    have another : 0 < tally (update k.handles (p, i) none) (.chan c) :=
      tally_pos.mpr ⟨e, (update_of_ne other ..).trans names⟩
    omega

/-! ## Every move -/

theorem Parted.move (parted : k.Parted) (counted : k.Counted) (move : Move k next) : next.Parted := by
  cases move with
  | quiet same => exact parted.aside same.aside
  | @wake t _ _ result => exact parted.aside (aside_wake k t result)
  | @block t runs reason other timeout =>
    exact parted.aside (aside_update (Sched.block_threads k.sched t reason timeout) (fun _ => other.1) rfl ⟨rfl, rfl, rfl⟩)
  | @die t runs code =>
    have threads := modifyThread_thread k t fun thread => { thread with exitCode := code, state := .dead }
    exact parted.aside (aside_update threads nofun rfl ⟨rfl, rfl, rfl⟩)
  | @makeReady t rests _ =>
    obtain ⟨priority, ready⟩ := makeReady_thread k t
    exact parted.aside (aside_update ready nofun rfl ⟨rfl, rfl, rfl⟩)
  | irqNotify irq =>
    rcases irqNotify_lines k irq with only | ⟨lined, t, q, only, _, woken⟩
    · exact parted.aside only.aside
    · rw [woken]
      exact parted.aside (only.aside.trans (aside_wake lined t fndOk))
  | irqRelease irq => exact parted.aside (linesOnly_irqRelease k irq).aside
  | irqBind proc irq h => exact parted.aside (irqBind_lines k proc irq h).aside
  | takeIrq receiver irq => exact parted.aside (linesOnly_deliverIrq k receiver irq).aside
  | @takeGone receiver q known => exact parted.deliverGone counted receiver (counted.portKnown known)
  | @place p _ i _ o known =>
    refine parted.aside (((recount_setHandle k p i (some o)).trans (recount_objRef _ o)).aside fun c => ?_)
    have counts := objRef_refs (k.setHandle p i (some o)) o (.chan c)
    change (((k.setHandle p i (some o)).objRef o).chans c).refs = (k.chans c).refs + _ at counts
    rw [counts]
    split
    · next same =>
        have named : k.Named (.chan c) := by
          rcases known with named | ⟨t, thread⟩ | ⟨q, proc, _⟩
          · exact same ▸ named
          · cases same.trans thread
          · cases same.trans proc
        have held : 0 < (k.chans c).refs := counted.named.mp named
        exact ⟨fun _ => held, fun _ => Nat.succ_pos _⟩
    · rfl
  | transfer _ _ _ => exact parted.aside ((recount_transfer ..).aside fun _ => Iff.rfl)
  | @portCreate p _ =>
    rcases portCreate_cases k p with ⟨error, failed⟩ | ⟨q, _, ⟨error, failed⟩ | ⟨i, _, made⟩⟩
    · rw [failed]
      exact parted
    · rw [failed]
      exact parted.aside (aside_of_same (fun _ _ _ => rfl) rfl ⟨rfl, rfl, rfl⟩)
    · rw [made]
      exact parted.aside (aside_of_same (fun _ _ _ => rfl) rfl ⟨rfl, rfl, rfl⟩)
  | @newChannel p _ port _ badge => exact parted.newChannel p port badge
  | @retune c cut change same =>
    refine parted.aside ⟨fun _ _ waits => ⟨waits, rfl⟩, fun d => ?_, rfl, rfl, [], rfl, nofun⟩
    by_cases here : d = c
    · subst here
      unfold modifyChan
      dsimp only
      rw [update_self, same.1, same.2.1, same.2.2]
      exact ⟨rfl, Iff.rfl, rfl, fun some_ => absurd cut some_⟩
    · unfold modifyChan
      dsimp only
      rw [update_of_ne here]
      exact ⟨rfl, Iff.rfl, rfl, fun _ => rfl⟩
  | register _ _ _ => exact parted.aside (aside_of_same (fun _ _ _ => rfl) rfl ⟨rfl, rfl, rfl⟩)
  | accept _ _ waits => exact parted.accept waits
  | @receive t runs q _ _ _ _ timeout =>
    exact parted.aside (aside_update (receive_thread k t q timeout) (fun _ => by nofun) rfl ⟨rfl, rfl, rfl⟩)
  | @answer t caller runs token called msg =>
    have threads := answerCall_thread k t caller msg
    refine parted.aside ⟨fun u q waits => ?_, fun _ => ⟨rfl, Iff.rfl, rfl, fun _ => rfl⟩, rfl, rfl,
      [.answered (k.history.call caller) (k.process (k.procOf t))], rfl, fun event member => ?_⟩
    · have other : u ≠ caller := by
        rintro rfl
        have blocked := (waitsAt_iff.mp waits).1
        rw [threads, update_self] at blocked
        cases blocked
      have same : (k.answerCall t caller msg).thread u = k.thread u := by
        rw [threads, update_of_ne other]
      unfold waitsAt at waits ⊢
      rw [same] at waits
      rw [same]
      exact ⟨waits, rfl⟩
    · rw [List.mem_singleton.mp member]
      rfl
  | @startProc p t _ _ rests priority =>
    obtain ⟨clamped, threads⟩ := startProc_thread k p t priority
    exact parted.aside (aside_update threads nofun rfl ⟨rfl, rfl, rfl⟩)

theorem Parted.moves (parted : k.Parted) (consistent : k.Consistent) (path : Moves k next) : next.Parted := by
  have all : next.Parted ∧ next.Consistent := by
    refine path.invariant (motive := fun next => next.Parted ∧ next.Consistent) ⟨parted, consistent⟩ fun _ _ holds move => ?_
    exact ⟨holds.1.move holds.2.counted move, holds.2.move move⟩
  exact all.1

/-! ## The end of a process -/

theorem aside_killed (k : Ipc) (p : ProcId) : Aside k (k.killed p) := by
  refine aside_of_same (fun t q waits => ?_) rfl ⟨rfl, rfl, rfl⟩
  exact (killed_active (Thread.active_blocked (waitsAt_iff.mp waits).1)).1

theorem aside_exitedVisits (p : ProcId) (items : List ThreadId) (k : Ipc) :
    Aside k (items.foldl (procExitedVisit p) k) := by
  induction items generalizing k with
  | nil => exact Aside.refl k
  | cons t rest ih =>
    refine Aside.trans ?_ (ih (procExitedVisit p k t))
    unfold procExitedVisit
    split
    · exact aside_wake k t fndOk
    · exact Aside.refl k

/-- Closing a handle queues nobody, and no channel is opened. -/
structure FewerCallers (k next : Ipc) : Prop where
  queued : ∀ t q, next.waitsAt t .send q = true -> k.waitsAt t .send q = true
  via : next.history.via = k.history.via
  opens : next.history.opens = k.history.opens

theorem FewerCallers.trans (first : FewerCallers k next) (second : FewerCallers next third) : FewerCallers k third :=
  ⟨fun t q waits => first.queued t q (second.queued t q waits), second.via.trans first.via, second.opens.trans first.opens⟩

theorem Aside.fewerCallers (aside : Aside k next) : FewerCallers k next :=
  ⟨fun t q waits => (aside.queued t q waits).1, aside.via, aside.opens⟩

theorem Recount.fewerCallers (recount : Recount k next) : FewerCallers k next := by
  refine ⟨fun t q waits => (recount.waitsAt t .send q).symm.trans waits, ?_, ?_⟩
  · rw [recount.history]
  · rw [recount.history]

theorem Destroyed.fewerCallers (destroyed : Destroyed k next q) : FewerCallers k next := by
  refine ⟨fun t r waits => ?_, ?_, ?_⟩
  · have away : ¬ k.AtPort t q := by
      intro here
      have blocked := (waitsAt_iff.mp waits).1
      rw [destroyed.woken t here] at blocked
      cases blocked
    unfold waitsAt at waits ⊢
    rw [destroyed.away t away] at waits
    exact waits
  · rw [destroyed.history]
  · rw [destroyed.history]

theorem fewerCallers_deliverGone (k : Ipc) (receiver : ThreadId) (q : PortId) :
    FewerCallers k (k.deliverGone receiver q) := by
  unfold Ipc.deliverGone
  cases k.gone.head q with
  | none | some c => exact ⟨fun _ _ waits => waits, rfl, rfl⟩

theorem fewerCallers_lastClosed (k : Ipc) (c : ChanId) : FewerCallers k (k.chanLastClosed c) := by
  rcases chanLastClosed_cases k c with ⟨_, done⟩ | ⟨q, _, _, ⟨_, done⟩ | ⟨t, _, done⟩⟩
  · rw [done]
    exact ⟨fun _ _ waits => waits, rfl, rfl⟩
  · rw [done]
    exact ⟨fun _ _ waits => waits, rfl, rfl⟩
  · rw [done]
    have listed : FewerCallers k (k.listGone c q) := ⟨fun _ _ waits => waits, rfl, rfl⟩
    exact (listed.trans (fewerCallers_deliverGone _ t q)).trans (aside_wake _ t fndOk).fewerCallers

theorem fewerCallers_closeIx (k : Ipc) (p : ProcId) (i : HandleIx) : FewerCallers k (Ipc.closeIx p k i) := by
  rcases closeIx_cases k p i with ⟨_, same⟩ | ⟨o, _, ⟨done, _⟩ | ⟨q, _, _, done⟩ | ⟨c, _, _, done⟩⟩
  · rw [same]
    exact (Aside.refl k).fewerCallers
  · rw [done]
    exact (recount_less k p i o).fewerCallers
  · rw [done]
    exact (recount_less k p i o).fewerCallers.trans (portDestroy_spec ..).fewerCallers
  · rw [done]
    exact (recount_less k p i o).fewerCallers.trans (fewerCallers_lastClosed _ c)

/-- The callers that are queued keep a handle of another process while the
handles of one are closed. -/
theorem KeepsCallers.closeIx (keeps : k.KeepsCallers (fun e => e.1 = p) fun _ => True) (i : HandleIx) :
    (Ipc.closeIx p k i).KeepsCallers (fun e => e.1 = p) fun _ => True := by
  obtain ⟨queued, via, opens⟩ := fewerCallers_closeIx k p i
  intro t q c waits _ through
  unfold Ipc.channel at through
  rw [via, opens] at through
  obtain ⟨e, other, names⟩ := keeps t q c (queued t q waits) trivial through
  refine ⟨e, other, ?_⟩
  rw [(closeIx_tables p k i).1, update_of_ne]
  · exact names
  · rintro rfl
    exact other rfl

theorem Parted.closeAll (parted : k.Parted) (counted : k.Counted)
    (keeps : k.KeepsCallers (fun e => e.1 = p) fun _ => True) : (k.handleCloseAll p).Parted := by
  have all : (k.handleCloseAll p).Parted ∧ (k.handleCloseAll p).Counted ∧
      (k.handleCloseAll p).KeepsCallers (fun e => e.1 = p) fun _ => True := by
    refine closeAll_invariant (motive := fun k => k.Parted ∧ k.Counted ∧ k.KeepsCallers (fun e => e.1 = p) fun _ => True)
      p (List.finRange 63) ⟨parted, counted, keeps⟩ fun k i holds => ?_
    obtain ⟨parted, counted, keeps⟩ := holds
    refine ⟨parted.closeIx counted fun t q c waits stays via => ?_, counted.closeIx p i, keeps.closeIx i⟩
    obtain ⟨e, other, names⟩ := keeps t q c waits stays via
    exact ⟨e, fun same => other (congrArg Prod.fst same), names⟩
  exact all.1

theorem aside_stopped (k : Ipc) (p : ProcId) (code : Word) : Aside k (k.stopped p code) :=
  ((aside_killed k p).trans (unbindProc_spec (k.killed p) p).2.aside).trans
    (aside_of_same (fun _ _ _ => rfl) rfl ⟨rfl, rfl, rfl⟩)

theorem exitedVisits_chans (p : ProcId) (items : List ThreadId) (k : Ipc) :
    (items.foldl (procExitedVisit p) k).chans = k.chans := by
  induction items generalizing k with
  | nil => rfl
  | cons t rest ih =>
    refine (ih (procExitedVisit p k t)).trans ?_
    unfold procExitedVisit
    split <;> rfl

/-- Once the handles of a process are closed, no channel depends on what is left
of its end. -/
theorem aside_closedAll (live : (k.procs p).state = .live) (code : Word) :
    Aside ((k.stopped p code).handleCloseAll p) (k.procExit p code) ∧
      (k.procExit p code).chans = ((k.stopped p code).handleCloseAll p).chans := by
  rw [procExit_live live]
  change Aside ((k.stopped p code).handleCloseAll p) (((((k.stopped p code).handleCloseAll p).modifyProc p
    fun proc => { proc with arenaLo := 0, arenaHi := 0 }).eachThread (procExitedVisit p)).maybeFree p) ∧
    (((((k.stopped p code).handleCloseAll p).modifyProc p
      fun proc => { proc with arenaLo := 0, arenaHi := 0 }).eachThread (procExitedVisit p)).maybeFree p).chans = _
  generalize (k.stopped p code).handleCloseAll p = closed
  have released : Aside closed (closed.modifyProc p fun proc => { proc with arenaLo := 0, arenaHi := 0 }) :=
    (quiet_modifyProc rfl rfl).aside
  have chans : (closed.modifyProc p fun proc => { proc with arenaLo := 0, arenaHi := 0 }).chans = closed.chans := rfl
  generalize closed.modifyProc p (fun proc => { proc with arenaLo := 0, arenaHi := 0 }) = freed at released chans ⊢
  have waits : Aside freed (freed.eachThread (procExitedVisit p)) := aside_exitedVisits p (List.finRange 16) freed
  have woken : (freed.eachThread (procExitedVisit p)).chans = freed.chans :=
    exitedVisits_chans p (List.finRange 16) freed
  generalize freed.eachThread (procExitedVisit p) = last at waits woken ⊢
  have slot : Aside last (last.maybeFree p) := (recount_maybeFree last p).aside fun _ => Iff.rfl
  exact ⟨(released.trans waits).trans slot, woken.trans chans⟩

/-- A process ends, and the callers that stay are queued through channels that
another process has a handle of. -/
theorem Parted.procExit (parted : k.Parted) (counted : k.Counted)
    (keeps : k.KeepsCallers (fun e => e.1 = p) fun t => (k.thread t).proc ≠ some p) (code : Word) :
    (k.procExit p code).Parted := by
  by_cases live : (k.procs p).state = .live
  · have stops := aside_stopped k p code
    have kept : (k.stopped p code).KeepsCallers (fun e => e.1 = p) fun _ => True := by
      intro t q c waits _ via
      have own : (k.thread t).proc ≠ some p := by
        have blocked := (waitsAt_iff.mp waits).1
        rw [stopped_thread] at blocked
        exact (killed_active (Thread.active_blocked blocked)).2.2
      rw [stops.via, stops.channel] at via
      obtain ⟨e, other, names⟩ := keeps t q c (stops.queued t q waits).1 own via
      refine ⟨e, other, ?_⟩
      rw [stopped_handles]
      exact names
    have closed := (parted.aside stops).closeAll (counted.stopped p code) kept
    exact closed.aside (aside_closedAll live code).1
  · have same : k.procExit p code = k := if_pos live
    rw [same]
    exact parted

/-! ## Every channel is told of -/

/-- The slot holds a channel of user processes to port `q`, whose last handle may
have been closed. -/
structure Stands (k : Ipc) (c : ChanId) (q : PortId) (badge : Word) : Prop where
  used : (k.chans c).used = true
  user : (k.chans c).kernel = 0
  port : (k.chans c).port = some q
  badge : (k.chans c).badge = badge

/-- The channel is still there, or its CLIENT_GONE has been delivered. -/
def Stays (k next : Ipc) (c : ChanId) (q : PortId) (badge : Word) : Prop :=
  (next.Stands c q badge ∧ next.channel c = k.channel c) ∨ Event.gone (k.channel c) badge ∈ next.history.events

variable {q : PortId} {badge : Word}

theorem Stands.of_chan (stands : k.Stands c q badge) (refs : Nat) (same : next.chans c = { k.chans c with refs := refs }) :
    next.Stands c q badge := by
  refine ⟨?_, ?_, ?_, ?_⟩
  · rw [same]
    exact stands.used
  · rw [same]
    exact stands.user
  · rw [same]
    exact stands.port
  · rw [same]
    exact stands.badge

theorem Stands.stays (stands : k.Stands c q badge) (refs : Nat) (same : next.chans c = { k.chans c with refs := refs })
    (opens : next.history.opens c = k.history.opens c) : Stays k next c q badge :=
  Or.inl ⟨stands.of_chan refs same, congrArg (Prod.mk c) opens⟩

theorem Stands.stays_of_same (stands : k.Stands c q badge) (chans : next.chans = k.chans)
    (opens : next.history.opens = k.history.opens) : Stays k next c q badge :=
  stands.stays (k.chans c).refs (congrFun chans c) (congrFun opens c)

theorem Stays.trans (first : Stays k next c q badge) (happened : ∀ event ∈ next.history.events, event ∈ third.history.events)
    (second : next.Stands c q badge -> Stays next third c q badge) : Stays k third c q badge := by
  rcases first with ⟨stands, same⟩ | told
  · rcases second stands with ⟨still, later⟩ | told
    · exact Or.inl ⟨still, later.trans same⟩
    · rw [same] at told
      exact Or.inr told
  · exact Or.inr (happened _ told)

theorem Stands.deliverGone (stands : k.Stands c q badge) (receiver : ThreadId) (p : PortId) :
    Stays k (k.deliverGone receiver p) c q badge := by
  unfold Ipc.deliverGone
  cases k.gone.head p with
  | none => exact stands.stays_of_same rfl rfl
  | some d =>
    by_cases same : c = d
    · subst same
      refine Or.inr (List.mem_cons.mpr (Or.inl ?_))
      rw [← stands.badge]
    · exact stands.stays (k.chans c).refs (update_of_ne same ..) rfl

theorem Stands.opened (stands : k.Stands c q badge) {d : ChanId} (fresh : Chan) (unused : (k.chans d).used = false)
    (chans : next.chans = update k.chans d fresh)
    (opens : next.history.opens = update k.history.opens d (k.history.opens d + 1)) :
    Stays k next c q badge := by
  have other : c ≠ d := by
    rintro rfl
    exact Bool.false_ne_true (unused.symm.trans stands.used)
  refine stands.stays (k.chans c).refs ?_ ?_
  · rw [chans, update_of_ne other]
  · rw [opens, update_of_ne other]

theorem Stands.newChannel (stands : k.Stands c q badge) (proc : ProcId) (port : Option PortId) (given : Word) :
    Stays k (k.newChannel proc port given).2 c q badge := by
  rcases newChannel_cases k proc port given with ⟨error, failed⟩ | ⟨d, unused, ⟨error, failed⟩ | ⟨i, _, made⟩⟩
  · rw [failed]
    exact stands.stays_of_same rfl rfl
  · rw [failed]
    refine stands.opened ⟨false, 0, port, given, 0⟩ unused ?_ rfl
    unfold modifyChan openChan
    dsimp only
    rw [update_self, update_idem]
  · rw [made]
    refine stands.opened ⟨true, 1, port, given, 0⟩ unused ?_ rfl
    unfold objRef setHandle modifyChan openChan
    dsimp only
    rw [update_self, update_idem]

theorem Recount.stays (recount : Recount k next) (stands : k.Stands c q badge) : Stays k next c q badge := by
  refine stands.stays _ (recount.chans c) ?_
  rw [recount.history]

theorem Stands.move (stands : k.Stands c q badge) (move : Move k next) : Stays k next c q badge := by
  cases move with
  | quiet same => exact stands.stays_of_same same.chans (by rw [same.history])
  | irqNotify irq =>
    rcases irqNotify_lines k irq with only | ⟨lined, t, p, only, _, woken⟩
    · exact stands.stays_of_same (by rw [only.rest]) (by rw [only.history])
    · rw [woken]
      refine stands.stays_of_same ?_ ?_
      · change lined.chans = k.chans
        rw [only.rest]
      · change lined.history.opens = k.history.opens
        rw [only.history]
  | irqRelease irq =>
    have only := linesOnly_irqRelease k irq
    exact stands.stays_of_same (by rw [only.rest]) (by rw [only.history])
  | irqBind proc irq h =>
    have only := irqBind_lines k proc irq h
    exact stands.stays_of_same (by rw [only.rest]) (by rw [only.history])
  | takeIrq receiver irq =>
    have only := linesOnly_deliverIrq k receiver irq
    exact stands.stays_of_same (by rw [only.rest]) (by rw [only.history])
  | @takeGone receiver p _ => exact stands.deliverGone receiver p
  | @place p _ i _ o _ => exact ((recount_setHandle k p i (some o)).trans (recount_objRef _ o)).stays stands
  | transfer _ _ _ => exact (recount_transfer ..).stays stands
  | @portCreate p _ =>
    rcases portCreate_cases k p with ⟨error, failed⟩ | ⟨r, _, ⟨error, failed⟩ | ⟨i, _, made⟩⟩
    · rw [failed]
      exact stands.stays_of_same rfl rfl
    · rw [failed]
      exact stands.stays_of_same rfl rfl
    · rw [made]
      exact stands.stays_of_same rfl rfl
  | @newChannel p _ port _ given => exact stands.newChannel p port given
  | @retune d cut change _ =>
    have other : c ≠ d := by
      rintro rfl
      cases cut.symm.trans stands.port
    exact stands.stays (k.chans c).refs (update_of_ne other ..) rfl
  | wake | block | die | makeReady | register | accept | receive | answer | startProc => exact stands.stays_of_same rfl rfl

theorem Stands.moves (stands : k.Stands c q badge) (path : Moves k next) : Stays k next c q badge := by
  refine path.invariant (motive := fun next => Stays k next c q badge) (Or.inl ⟨stands, rfl⟩) fun first second stays move => ?_
  exact stays.trans (fun event happened => move.happened happened) fun stands => stands.move move

/-- The channel stays, or its port is destroyed. -/
def Lasts (k next : Ipc) (c : ChanId) (q : PortId) (badge : Word) : Prop :=
  Stays k next c q badge ∨ (next.ports q).used = false

theorem Lasts.shut (first : Lasts k next c q badge) (shut : Shut next third)
    (second : next.Stands c q badge -> Lasts next third c q badge) : Lasts k third c q badge := by
  rcases first with (⟨stands, same⟩ | told) | unused
  · rcases second stands with (⟨still, later⟩ | told) | unused
    · exact Or.inl (Or.inl ⟨still, later.trans same⟩)
    · rw [same] at told
      exact Or.inl (Or.inr told)
    · exact Or.inr unused
  · exact Or.inl (Or.inr (shut.lull.happened told))
  · exact Or.inr (shut.unused q unused)

theorem Stands.destroyed (stands : k.Stands c q badge) {p : PortId} (destroyed : Destroyed k next p) :
    Lasts k next c q badge := by
  by_cases same : q = p
  · refine Or.inr ?_
    rw [destroyed.ports, same, update_self]
  · refine Or.inl (stands.stays (k.chans c).refs ?_ ?_)
    · rw [destroyed.chans]
      unfold Chan.orphan
      have elsewhere : (k.chans c).port ≠ some p := by
        rw [stands.port]
        exact fun equal => same (Option.some.inj equal)
      dsimp only
      rw [decide_eq_false elsewhere, Bool.and_false]
      exact if_neg Bool.false_ne_true
    · rw [destroyed.history]

/-- The last handle of a channel that stands closes. -/
theorem Stands.lastClosed (stands : k.Stands c q badge) (d : ChanId) : Stays k (k.chanLastClosed d) c q badge := by
  have listed : ∀ p, Stays k (k.listGone d p) c q badge := fun _ => stands.stays_of_same rfl rfl
  rcases chanLastClosed_cases k d with ⟨lone, done⟩ | ⟨p, _, _, ⟨_, done⟩ | ⟨t, _, done⟩⟩
  · have other : c ≠ d := by
      rintro rfl
      rcases lone with kernel | cut
      · exact kernel stands.user
      · cases cut.symm.trans stands.port
    rw [done]
    exact stands.stays (k.chans c).refs (update_of_ne other ..) rfl
  · rw [done]
    exact listed p
  · rw [done]
    refine ((listed p).trans (fun event => (hush_deliverGone _ t p).lull.happened) fun stands =>
      stands.deliverGone t p).trans (fun _ happened => happened) fun stands => stands.stays_of_same rfl rfl

theorem Stands.closeIx (stands : k.Stands c q badge) (p : ProcId) (i : HandleIx) :
    Lasts k (Ipc.closeIx p k i) c q badge := by
  rcases closeIx_cases k p i with ⟨_, same⟩ | ⟨o, _, ⟨done, _⟩ | ⟨r, rfl, _, done⟩ | ⟨d, rfl, _, done⟩⟩
  · rw [same]
    exact Or.inl (Or.inl ⟨stands, rfl⟩)
  · rw [done]
    exact Or.inl ((recount_less k p i o).stays stands)
  · rw [done]
    have destroyed := portDestroy_spec (k.less p i (.port r)) r
    have less : (k.less p i (.port r)).chans = k.chans ∧ (k.less p i (.port r)).history = k.history := ⟨rfl, rfl⟩
    generalize k.less p i (.port r) = lessened at destroyed less ⊢
    have before : lessened.Stands c q badge := stands.of_chan (k.chans c).refs (congrFun less.1 c)
    refine (before.destroyed destroyed).imp_left (Or.imp (fun both => ⟨both.1, ?_⟩) fun told => ?_)
    · rw [both.2]
      unfold Ipc.channel
      rw [less.2]
    · unfold Ipc.channel at told ⊢
      rw [← less.2]
      exact told
  · rw [done]
    refine Or.inl (((recount_less k p i (.chan d)).stays stands).trans (fun event happened => ?_) fun stands =>
      stands.lastClosed d)
    have shut := shut_lastClosed (k.less p i (.chan d)) d
    exact shut.lull.happened happened

theorem Stands.closeAll (stands : k.Stands c q badge) (p : ProcId) : Lasts k (k.handleCloseAll p) c q badge := by
  refine closeAll_invariant (motive := fun next => Lasts k next c q badge) p (List.finRange 63)
    (Or.inl (Or.inl ⟨stands, rfl⟩)) fun middle i lasts => ?_
  exact lasts.shut (shut_closeIx middle p i) fun stands => stands.closeIx p i

theorem Stands.procExit (stands : k.Stands c q badge) (p : ProcId) (code : Word) :
    Lasts k (k.procExit p code) c q badge := by
  by_cases live : (k.procs p).state = .live
  · have chans : (k.stopped p code).chans = k.chans := by
      have only := (unbindProc_spec (k.killed p) p).2
      change ((k.killed p).irqProcExited p).chans = k.chans
      rw [only.rest]
      rfl
    have history := stopped_history k p code
    have stopped : Stays k (k.stopped p code) c q badge := stands.stays_of_same chans (by rw [history])
    have middle : (k.stopped p code).Stands c q badge := stands.of_chan (k.chans c).refs (congrFun chans c)
    have before : Lasts k (k.stopped p code) c q badge := Or.inl stopped
    have closed := before.shut (shut_closeAll _ p) fun stands => stands.closeAll p
    obtain ⟨rest, same⟩ := aside_closedAll live code
    exact closed.shut (procExit_shut live code) fun stands => Or.inl (stands.stays_of_same same rest.opens)
  · have same : k.procExit p code = k := if_pos live
    rw [same]
    exact Or.inl (Or.inl ⟨stands, rfl⟩)

/-! ## Every trap -/

/-- What a step has to meet so that no request is left behind its channel: a
handle is closed, or a process ends, only if the callers that stay queued have
another handle of their channels. -/
def Parting (k : Ipc) (action : Action) : Prop :=
  k.Spawns action ∧ (∀ p i, k.Closes action p i -> k.KeepsCallers (· = (p, i)) fun _ => True) ∧
    ∀ p, k.Ends action p -> k.KeepsCallers (fun e => e.1 = p) fun t => (k.thread t).proc ≠ some p

theorem Parted.course (parted : k.Parted) (consistent : k.Consistent) (parting : k.Parting action)
    (course : Course k action next) : next.Parted := by
  cases course with
  | moves path => exact parted.moves consistent path
  | @call t sends runs c named user q port msg rep buf cap _ path settled =>
    have sent := parted.sendCall consistent.counted named port t msg rep buf cap
    exact sent.moves (consistent.sendCall runs named port msg rep buf cap) path
  | @close p i closes _ rest => exact (parted.closeIx consistent.counted (parting.2.1 p i closes)).aside rest.aside
  | @exit p ends code _ rest => exact (parted.procExit consistent.counted (parting.2.2 p ends) code).aside rest.aside

theorem parted_boot : boot.Parted := by
  refine ⟨fun t q waits => ?_, fun ch => ?_, fun _ => Nat.zero_le 1, fun c inUse => ?_, fun _ _ _ => ⟨rfl, rfl⟩,
    fun c _ badge call token server given => ?_, fun ch badge call token server other given => ?_, List.Pairwise.nil⟩
  · cases waits
  · have unlisted : ¬ boot.Listed ch := fun listed => by cases listed.2.1
    rw [if_neg unlisted]
    rfl
  · cases inUse
  · cases given
  · cases given

theorem parted_of_reachable (reached : (machine.within Parting).Reachable k) : k.Parted ∧ k.Consistent := by
  refine reached.invariant (motive := fun k => k.Parted ∧ k.Consistent) (fun start begins => ?_)
    fun first action second holds step => ?_
  · cases begins
    exact ⟨parted_boot, consistent_boot⟩
  · have course := course_of_step holds.2.counted.grounded step.1.1 step.2
    exact ⟨holds.1.course holds.2 step.1 course, holds.2.trail course.trail⟩

theorem Lasts.quiet (lasts : Lasts k next c q badge) (quiet : Quiet next third) : Lasts k third c q badge := by
  rcases lasts with (⟨stands, same⟩ | told) | unused
  · have opens : third.history.opens = next.history.opens := by
      rw [quiet.history]
    refine Or.inl (Or.inl ⟨stands.of_chan (next.chans c).refs (congrFun quiet.chans c), ?_⟩)
    rw [← same]
    exact congrArg (Prod.mk c) (congrFun opens c)
  · exact Or.inl (Or.inr (quiet.hush.lull.happened told))
  · refine Or.inr ?_
    rw [quiet.ports]
    exact unused

theorem Stands.course (stands : k.Stands c q badge) (course : Course k action next) :
    Lasts k next c q badge := by
  cases course with
  | moves path => exact Or.inl (stands.moves path)
  | @call t sends runs d named user p port msg rep buf cap _ path settled =>
    have sent : (k.sendCall t d p msg rep buf cap).Stands c q badge := stands.of_chan (k.chans c).refs rfl
    exact Or.inl (sent.moves path)
  | @close p i closes _ rest => exact (stands.closeIx p i).quiet rest
  | @exit p ends code _ rest => exact (stands.procExit p code).quiet rest

/-- What a state between traps says about the ends of channels. -/
structure ClientsGone (k : Ipc) : Prop where
  /-- A channel of user processes stays, or its CLIENT_GONE is delivered with its
  badge, or its port is destroyed. -/
  lasts : ∀ action next, k.Spawns action -> Step k action next -> ∀ c q badge, k.Stands c q badge ->
    Lasts k next c q badge
  /-- Once its last handle is closed, its CLIENT_GONE has been delivered once, went
  with its port, or is listed. -/
  closed : ∀ ch, k.happened (Event.closes ch) =
    k.happened (Event.tells ch) + k.happened (Event.drops ch) + if k.Listed ch then 1 else 0
  once : ∀ ch, k.happened (Event.closes ch) ≤ 1
  /-- While it is listed its port lives, and whoever receives there is given a
  notification before any caller. -/
  listed : ∀ c, (k.chans c).used = true -> (k.chans c).refs = 0 -> ∃ q, (k.chans c).port = some q ∧
    (k.ports q).used = true ∧ k.Listed (k.channel c) ∧ ∀ mem receiver,
      (∀ irq, k.pendingIrq q = some irq -> takeNext mem k receiver q = (true, k.deliverIrq receiver irq)) ∧
        (k.pendingIrq q = none -> takeNext mem k receiver q = (true, k.deliverGone receiver q))
  /-- Requests and the CLIENT_GONE of a channel have the same badge. -/
  badges : ∀ ch badge call token server other, Event.request ch badge call token server ∈ k.history.events ->
    Event.gone ch other ∈ k.history.events -> badge = other
  /-- No request came through a channel after its CLIENT_GONE. -/
  order : k.history.events.Pairwise fun later earlier => ∀ ch badge, earlier = .gone ch badge -> later.through ch = false

/-- The list of a port in use that a channel waits in is not empty. -/
theorem Counted.goneHead (counted : k.Counted) (pending : k.GonePending c q) : k.gone.head q ≠ none := by
  have used := counted.behind c q pending.1 pending.2.2
  obtain ⟨items, holds, listed⟩ := counted.gone
  have head : (k.gone.within fun p => (k.ports p).used).head q = k.gone.head q := if_pos used
  rw [← head, holds.head_eq]
  intro empty
  rw [List.head?_eq_none_iff] at empty
  have member := (listed c q).mpr pending
  rw [empty] at member
  cases member

theorem Parted.clientsGone (parted : k.Parted) (consistent : k.Consistent) : k.ClientsGone := by
  refine ⟨fun action next spawns step c q badge stands => ?_, parted.balance, parted.once, fun c used none => ?_,
    parted.agree, parted.order⟩
  · exact stands.course (course_of_step consistent.counted.grounded spawns step)
  · obtain ⟨q, port⟩ := Option.ne_none_iff_exists'.mp (consistent.counted.pending c used none)
    have head := consistent.counted.goneHead ⟨used, none, port⟩
    refine ⟨q, port, consistent.counted.behind c q used port, ⟨rfl, used, none⟩, fun mem receiver => ⟨fun irq first => ?_,
      fun noIrq => ?_⟩⟩
    · unfold takeNext
      rw [first]
    · unfold takeNext
      rw [noIrq]
      exact if_pos head

/-- In a run where no handle that closes leaves a caller queued without a
channel, every channel of user processes ends with one CLIENT_GONE, and no
request comes through it afterwards. -/
theorem clientsGone_of_reachable (reached : (machine.within Parting).Reachable k) : k.ClientsGone := by
  obtain ⟨parted, consistent⟩ := parted_of_reachable reached
  exact parted.clientsGone consistent

/-! ## A handle that closes on a caller -/

/-- The first process has a port, a channel to it and a second thread, which
calls and waits. -/
def callerQueued : Ipc := boot.after
  [.module 2 0 emptyImage, .next, .syscall .portCreate, .syscall (.chanCreate 1 1),
    .syscall (.threadCreate zeroMemory 0 0 0), .syscall .yield, .next,
    .syscall (.ipcCall zeroMemory (.ok ()) 2 0 0), .next]

/-- The first thread has closed the channel. -/
def channelClosed : Ipc := callerQueued.after [.syscall (.handleClose 2)]

/-- It has received twice. -/
def requestAfter : Ipc := channelClosed.after [.syscall (.ipcRecv zeroMemory 1 0), .syscall (.ipcRecv zeroMemory 1 0)]

/-- The handle was closed while a caller was queued, and the caller is given to
the server after the CLIENT_GONE of its channel. -/
theorem request_after_gone : (machine.within Spawns).Reachable requestAfter ∧
    requestAfter.history.events = [.request (0, 1) 1 1 258 (0, 1), .gone (0, 1) 1, .closed (0, 1)] := by
  have queued : (machine.within Spawns).Reachable callerQueued :=
    after_reachable (fun _ _ => plain_spawns) (System.Reachable.start rfl) (by decide +kernel)
  have closed : (machine.within Spawns).Reachable channelClosed :=
    after_reachable (fun _ _ => plain_spawns) queued (by decide +kernel)
  have received : (machine.within Spawns).Reachable requestAfter :=
    after_reachable (fun _ _ => plain_spawns) closed (by decide +kernel)
  exact ⟨received, by decide +kernel⟩

/-- No handle is closed, no process starts another one and none ends. -/
def Action.gentle : Action -> Bool
  | .syscall (.procSpawn ..) => false
  | .syscall (.handleClose _) => false
  | .syscall (.threadExit _) => false
  | .syscall (.procExit _) => false
  | .syscall (.procKill _) => false
  | .fault _ => false
  | _ => true

theorem gentle_parting (gentle : action.gentle = true) : k.Parting action := by
  cases action with
  | syscall call => cases call <;> first
        | exact ⟨trivial, fun _ _ closes => False.elim closes, fun _ ends => False.elim ends⟩
        | cases gentle
  | fault => cases gentle
  | _ => exact ⟨trivial, fun _ _ closes => False.elim closes, fun _ ends => False.elim ends⟩

/-- The first process has a port and a channel to it. -/
def channelOpen : Ipc := boot.after [.module 2 0 emptyImage, .next, .syscall .portCreate, .syscall (.chanCreate 1 1)]

/-- The channel was closed with nobody queued. -/
def channelLeft : Ipc := channelOpen.handleSyscall 0 (.handleClose 2)

/-- A channel that nobody waits for is closed, and its server receives. -/
theorem clientsGone_told : (channelLeft.after [.syscall (.ipcRecv zeroMemory 1 0)]).ClientsGone := by
  have opened : (machine.within Parting).Reachable channelOpen :=
    after_reachable (fun _ _ => gentle_parting) (System.Reachable.start rfl) (by decide +kernel)
  have facts : channelOpen.sched.Calls 0 ∧ (∀ t q, channelOpen.waitsAt t .send q = false) ∧
      channelLeft.replays Action.gentle [.syscall (.ipcRecv zeroMemory 1 0)] = true := by
    refine ⟨⟨by decide +kernel, by decide +kernel⟩, by decide +kernel, by decide +kernel⟩
  have keeps : ∀ closing stays, channelOpen.KeepsCallers closing stays := by
    intro closing stays t q c waits
    exact absurd (waits.symm.trans (facts.2.1 t q)) (by decide)
  have closes : (machine.within Parting).step channelOpen (.syscall (.handleClose 2)) channelLeft :=
    ⟨⟨trivial, fun _ _ _ => keeps _ _, fun _ _ => keeps _ _⟩, Step.syscall facts.1 (.handleClose 2)⟩
  have left := opened.next closes
  exact clientsGone_of_reachable (after_reachable (fun _ _ => gentle_parting) left facts.2.2)

end Ipc
end Src32.Kernel
