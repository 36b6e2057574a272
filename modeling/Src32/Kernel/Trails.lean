import Src32.Kernel.Deliveries
import Src32.Lib.Fallible

namespace Src32.Kernel.Ipc

open Function (update update_self)

/-!
# Traps as moves

Every trap is a sequence of moves, a request with the moves that deliver it, a
handle that closes, or the end of a process.
-/

variable {k next third : Ipc} {t receiver : ThreadId} {p : PortId}

/-- A request just sent is left to later receives, or something was taken from
the port. -/
def Settled (sent next : Ipc) (p : PortId) : Prop :=
  (∀ u, next.waitsAt u .recv p = false) ∨
    ((∃ u, sent.waitsAt u .recv p = true) ∧
      ((sent.pendingIrq p ≠ none ∨ sent.gone.head p ≠ none) ∨
        ∃ u, sent.waitsAt u .send p = true ∧ next.waitsAt u .send p = false))

/-- What a trap does. -/
inductive Trail (k : Ipc) : Ipc -> Prop where
  | moves {next : Ipc} (path : Moves k next) : Trail k next
  | call {t : ThreadId} (runs : (k.thread t).state = .running) {c : ChanId} (named : k.Named (.chan c))
      (user : (k.chans c).kernel = 0) {p : PortId} (port : (k.chans c).port = some p) (msg : Msg) (rep buf cap : Word)
      {next : Ipc} (path : Moves (k.sendCall t c p msg rep buf cap) next)
      (settled : Settled (k.sendCall t c p msg rep buf cap) next p) : Trail k next
  | close (p : ProcId) (i : HandleIx) {next : Ipc} (rest : Quiet (closeIx p k i) next) : Trail k next
  | exit (p : ProcId) (code : Word) {next : Ipc} (rest : Quiet (k.procExit p code) next) : Trail k next

theorem Settled.quiet {sent : Ipc} (settled : Settled sent next p) (quiet : Quiet next third) :
    Settled sent third p := by
  rcases settled with nobody | ⟨receiver, taken | ⟨u, before, after⟩⟩
  · exact Or.inl fun u => (quiet.waitsAt u .recv p).trans (nobody u)
  · exact Or.inr ⟨receiver, Or.inl taken⟩
  · exact Or.inr ⟨receiver, Or.inr ⟨u, before, (quiet.waitsAt u .send p).trans after⟩⟩

/-! ## Receiving -/

theorem callers_lt (k : Ipc) (p : PortId) : (k.callers p).card < 17 := by
  have bound := (k.callers p).card_le_univ
  rw [Fintype.card_fin] at bound
  omega

theorem deliverGone_thread (k : Ipc) (receiver : ThreadId) (p : PortId) (t : ThreadId) :
    (k.deliverGone receiver p).thread t = k.thread t := by
  unfold deliverGone
  cases k.gone.head p <;> rfl

/-- A receive takes an IRQ, a CLIENT_GONE or a caller, or there is none. -/
theorem takeNext_cases (mem : UserMemory) (backed : k.Backed) (serves : k.Serves receiver) (known : k.PortKnown p) :
    Moves k (takeNext mem k receiver p).2 ∧
      (takeNext mem k receiver p).2.thread receiver = k.thread receiver ∧
      (((takeNext mem k receiver p).1 = true ∧
          ((k.pendingIrq p ≠ none ∨ k.gone.head p ≠ none) ∨
            ∃ u, k.waitsAt u .send p = true ∧ (takeNext mem k receiver p).2.waitsAt u .send p = false)) ∨
        ((takeNext mem k receiver p).1 = false ∧ k.pendingIrq p = none ∧ k.gone.head p = none ∧
          Emptied k (takeNext mem k receiver p).2 receiver p)) := by
  unfold takeNext
  cases irq : k.pendingIrq p with
  | some line =>
    exact ⟨Moves.one (Move.takeIrq receiver line), rfl, Or.inl ⟨rfl, Or.inl (Or.inl (Option.some_ne_none line))⟩⟩
  | none =>
    dsimp only
    by_cases gone : k.gone.head p = none
    · rw [if_neg (not_not.mpr gone)]
      obtain ⟨path, kept, result⟩ := takeCaller_cases mem 17 backed serves (callers_lt k p)
      refine ⟨path, kept, result.imp ?_ ?_⟩
      · rintro ⟨taken, u, waits, left⟩
        exact ⟨taken, Or.inr ⟨u, waits, left⟩⟩
      · rintro ⟨none, emptied⟩
        exact ⟨none, rfl, gone, emptied⟩
    · rw [if_pos gone]
      exact ⟨Moves.one (Move.takeGone receiver known), deliverGone_thread k receiver p receiver,
        Or.inl ⟨rfl, Or.inl (Or.inr gone)⟩⟩

theorem findReceiver_some (found : k.findReceiver p = some t) : k.waitsAt t .recv p = true := by
  unfold findReceiver at found
  have waits := List.find?_some found
  exact waits

theorem findReceiver_none (none : k.findReceiver p = none) (u : ThreadId) : k.waitsAt u .recv p = false := by
  unfold findReceiver at none
  exact Bool.eq_false_of_not_eq_true (List.find?_eq_none.mp none u (List.mem_finRange u))

/-- A thread that runs may receive. -/
theorem serves_of_running (runs : (k.thread t).state = .running) : k.Serves t := by
  refine ⟨Thread.active_running runs, fun q => ?_⟩
  unfold waitsAt
  rw [runs]
  rfl

/-- A thread that waits in RECV may receive. -/
theorem serves_of_receiver (waits : k.waitsAt t .recv p = true) : k.Serves t := by
  obtain ⟨blocked, reason, _⟩ := waitsAt_iff.mp waits
  refine ⟨Thread.active_blocked blocked, fun q => ?_⟩
  unfold waitsAt
  rw [reason]
  exact congrArg (· && _) (Bool.and_false _)

variable {proc : ProcId}

theorem checkRecv_named {mem : UserMemory} {h rcv timeout : Word}
    (checked : checkRecv mem k proc h rcv = .ok (p, timeout)) : k.Named (.port p) := by
  unfold checkRecv at checked
  split at checked
  · next q found =>
      obtain ⟨_, _, rest⟩ := Fallible.bind_ok checked
      split at rest
      · cases rest
      · split at rest
        · cases rest
        · cases rest
          exact entry_named found
  · cases checked

theorem pendingIrq_congr (irqs : next.irqs = k.irqs) (mask : next.irqPendingMask = k.irqPendingMask) :
    next.pendingIrq p = k.pendingIrq p := by
  unfold pendingIrq
  rw [irqs, mask]

/-- A thread that runs changes its own record. -/
theorem quiet_running {change : Thread -> Thread} (runs : (k.thread t).state = .running)
    (state : (change (k.thread t)).state = (k.thread t).state) (refs : (change (k.thread t)).refs = (k.thread t).refs)
    (proc : (change (k.thread t)).proc = (k.thread t).proc) : Quiet k (k.modifyThread t change) := by
  have awake : (k.thread t).state ≠ .blocked := by
    rw [runs]
    decide
  refine quiet_modifyThread awake (state ▸ awake) refs ?_ proc
  unfold Thread.active
  rw [state]

theorem modifyThread_thread (k : Ipc) (t : ThreadId) (change : Thread -> Thread) :
    (k.modifyThread t change).thread = update k.thread t (change (k.thread t)) := rfl

theorem ipcRecv_moves (mem : UserMemory) (backed : k.Backed) (runs : (k.thread t).state = .running) (h rcv : Word) :
    Moves k (ipcRecv mem k t h rcv).2 := by
  unfold ipcRecv
  cases checked : checkRecv mem k (k.procOf t) h rcv with
  | error error => exact Moves.refl k
  | ok result =>
    obtain ⟨p, timeout⟩ := result
    dsimp only
    have named := checkRecv_named checked
    have ready : Quiet k (k.modifyThread t fun thread => { thread with rcv := rcv }) :=
      quiet_running runs rfl rfl rfl
    have still : ((k.modifyThread t fun thread => { thread with rcv := rcv }).thread t).state = .running := by
      rw [modifyThread_thread, update_self]
      exact runs
    have counts : (k.modifyThread t fun thread => { thread with rcv := rcv }).refs = k.refs := by
      funext o
      cases o with
      | thread u => exact (ready.threads u).refs
      | port q => rfl
      | chan c => rfl
      | proc q => rfl
    have named₁ : (k.modifyThread t fun thread => { thread with rcv := rcv }).Named (.port p) := named
    obtain ⟨path, kept, result⟩ :=
      takeNext_cases mem (backed.of_same ready.handles counts) (serves_of_running still) (Or.inl named₁)
    generalize k.modifyThread t (fun thread => { thread with rcv := rcv }) = k₁ at ready still named₁ path kept result ⊢
    rcases result with ⟨taken, _⟩ | ⟨nothing, irq, gone, emptied⟩
    · generalize takeNext mem k₁ t p = received at path taken ⊢
      obtain ⟨found, k₂⟩ := received
      cases taken
      exact (Moves.one (Move.quiet ready)).trans path
    · generalize takeNext mem k₁ t p = received at path nothing emptied kept ⊢
      obtain ⟨found, k₂⟩ := received
      cases nothing
      dsimp only at path emptied kept ⊢
      split
      · exact (Moves.one (Move.quiet ready)).trans path
      · have refused := emptied.refused
        have waits : Move k₂ ((k₂.modifyThread t fun thread => { thread with port := some p }).block t .recv timeout) :=
          Move.receive (by rw [kept]; exact still)
            (named₁.imp fun e names => (congrFun refused.handles e).trans names)
            ((pendingIrq_congr refused.irqs refused.mask).trans irq)
            ((congrArg (Bank.head · p) refused.gone).trans gone) emptied.nobody timeout
        exact ((Moves.one (Move.quiet ready)).trans path).then waits

/-! ## Calling -/

theorem checkCall_named {mem : UserMemory} {ch req rep : Word} {c : ChanId} {msg : Msg} {buf cap : Word}
    (checked : checkCall mem k proc ch req rep = .ok (c, msg, buf, cap)) : k.Named (.chan c) := by
  unfold checkCall at checked
  split at checked
  · next d found =>
      obtain ⟨_, _, more⟩ := Fallible.bind_ok checked
      obtain ⟨_, _, rest⟩ := Fallible.bind_ok more
      dsimp only at rest
      split at rest
      · cases rest
      · split at rest
        · cases rest
        · cases rest
          exact entry_named found
  · cases checked

theorem handleIx_handleOf (i : HandleIx) : handleIx (handleOf i) = some i := by
  revert i
  decide

/-- What a new channel's handle names. -/
theorem newChannel_ok {proc : ProcId} {port : Option PortId} {badge h : Word}
    (made : (k.newChannel proc port badge).1 = .ok h) :
    ∃ i c, (k.newChannel proc port badge).2.entry proc h = some (i, .chan c) ∧
      ((k.newChannel proc port badge).2.chans c).port = port := by
  unfold newChannel at made ⊢
  cases slot : (List.finRange 128).find? fun c => !(k.chans c).used with
  | none =>
    rw [slot] at made
    cases made
  | some c =>
    rw [slot] at made
    dsimp only at made ⊢
    unfold handleAdd at made ⊢
    cases free : (k.openChan c port badge).freeIx proc with
    | none =>
      rw [free] at made
      cases made
    | some i =>
      rw [free] at made
      cases made
      refine ⟨i, c, ?_, ?_⟩
      · refine entry_of (handleIx_handleOf i) ?_
        dsimp only
        rw [objRef_handles]
        exact update_self ..
      · unfold objRef setHandle openChan modifyChan
        dsimp only
        rw [update_self, update_self]

/-- A named channel that no port is behind changes. -/
theorem modifyNamed_moves {h : Word} {i : HandleIx} {c : ChanId} (named : k.entry proc h = some (i, .chan c))
    (cut : (k.chans c).port = none) {change : Chan -> Chan}
    (same : (change (k.chans c)).used = (k.chans c).used ∧ (change (k.chans c)).refs = (k.chans c).refs ∧
      (change (k.chans c)).port = (k.chans c).port) :
    Moves k (k.modifyNamed proc h change) ∧ (k.modifyNamed proc h change).entry proc h = some (i, .chan c) ∧
      ((k.modifyNamed proc h change).chans c).port = none := by
  unfold modifyNamed
  rw [named]
  dsimp only
  refine ⟨Moves.one (Move.retune cut same), named, ?_⟩
  unfold modifyChan
  dsimp only
  rw [update_self, same.2.2]
  exact cut

theorem kernelChannel_moves (hosts : k.Hosts proc) (kind : Nat) :
    Moves k (k.kernelChannel proc kind).2 ∧ ∀ h, (k.kernelChannel proc kind).1 = .ok h ->
      ∃ i c, (k.kernelChannel proc kind).2.entry proc h = some (i, .chan c) ∧
        ((k.kernelChannel proc kind).2.chans c).port = none := by
  unfold kernelChannel
  have path : Moves k (k.newChannel proc none 0).2 := Moves.one (Move.newChannel hosts none nofun 0)
  have found := @newChannel_ok k proc none 0
  generalize k.newChannel proc none 0 = result at path found ⊢
  obtain ⟨made, k₁⟩ := result
  cases made with
  | error error => exact ⟨path, nofun⟩
  | ok h =>
    obtain ⟨i, c, named, cut⟩ := found rfl
    dsimp only at named cut ⊢
    have tuned : Moves k₁ (k₁.modifyNamed proc h fun chan => { chan with kernel := kind }) ∧
        (k₁.modifyNamed proc h fun chan => { chan with kernel := kind }).entry proc h = some (i, .chan c) ∧
        ((k₁.modifyNamed proc h fun chan => { chan with kernel := kind }).chans c).port = none :=
      modifyNamed_moves named cut ⟨rfl, rfl, rfl⟩
    obtain ⟨more, still, port⟩ := tuned
    refine ⟨path.trans more, fun h' same => ?_⟩
    cases same
    exact ⟨i, c, still, port⟩

theorem kernelCall_moves (runs : (k.thread t).state = .running) (c : ChanId) (msg : Msg) (rep buf cap : Word)
    (driver : Except FndError Unit) : Moves k (k.kernelCall t c msg rep buf cap driver).2 := by
  unfold kernelCall
  dsimp only
  split
  · exact Moves.refl k
  · split
    · split
      · exact Moves.refl k
      · obtain ⟨path, found⟩ :=
          kernelChannel_moves (Or.inr ⟨t, Thread.active_running runs, rfl⟩) ((k.chans c).kernel + 1)
        generalize k.kernelChannel (k.procOf t) ((k.chans c).kernel + 1) = result at path found ⊢
        obtain ⟨made, k₁⟩ := result
        cases made with
        | error error => exact path
        | ok h =>
          obtain ⟨i, d, named, cut⟩ := found h rfl
          dsimp only at named cut ⊢
          have tuned : Moves k₁ (k₁.modifyNamed (k.procOf t) h fun chan => { chan with badge := msg.a0 }) :=
            (modifyNamed_moves named cut ⟨rfl, rfl, rfl⟩).1
          exact path.trans tuned
    · split
      · have saved : Quiet k (k.modifyThread t fun thread =>
            { thread with
              req := { msg with a3 := (k.chans c).badge }, badge := BitVec.ofNat 32 (k.chans c).kernel, rep := rep,
              repBuf := buf, repCap := cap }) := quiet_running runs rfl rfl rfl
        refine (Moves.one (Move.quiet saved)).then (Move.block ?_ (by decide) fndForever)
        rw [modifyThread_thread, update_self]
        exact runs
      · exact Moves.refl k

theorem sendCall_thread (k : Ipc) (t : ThreadId) (c : ChanId) (p : PortId) (msg : Msg) (rep buf cap : Word) :
    (k.sendCall t c p msg rep buf cap).thread = update k.thread t
      { k.thread t with
        req := msg, rep := rep, repBuf := buf, repCap := cap, port := some p, badge := (k.chans c).badge
        seq := k.nextSeq + 1, gen := (k.thread t).gen + 1, state := .blocked, reason := .send
        timed := decide (fndForever ≠ fndForever), wakeTick := k.sched.ticks + fndForever, r1 := fndOk } := by
  unfold sendCall block modifyThread thread Sched.block Sched.modify
  dsimp only
  rw [update_self, Function.update_idem]

/-- The caller waits in SEND and the mask has its bit. -/
theorem sendCall_queued (k : Ipc) (t : ThreadId) (c : ChanId) (p : PortId) (msg : Msg) (rep buf cap : Word) :
    (k.sendCall t c p msg rep buf cap).Queued p t := by
  constructor
  · unfold sendCall
    dsimp only
    rw [Word.bit_set _ (Nat.lt_trans t.isLt (by decide)), decide_eq_true rfl, Bool.or_true]
  · refine waitsAt_iff.mpr ?_
    rw [sendCall_thread, update_self]
    exact ⟨rfl, rfl, rfl⟩

theorem sendCall_refs (k : Ipc) (t : ThreadId) (c : ChanId) (p : PortId) (msg : Msg) (rep buf cap : Word) :
    (k.sendCall t c p msg rep buf cap).refs = k.refs := by
  funext o
  cases o with
  | thread u =>
    unfold refs
    dsimp only
    rw [sendCall_thread]
    by_cases same : u = t
    · subst same
      rw [update_self]
    · rw [Function.update_of_ne same]
  | port q => rfl
  | chan d => rfl
  | proc q => rfl

/-- What a request that is sent comes to. -/
def Sent (k : Ipc) (t : ThreadId) (next : Ipc) : Prop :=
  ∃ c p msg rep buf cap, k.Named (.chan c) ∧ (k.chans c).kernel = 0 ∧ (k.chans c).port = some p ∧
    Moves (k.sendCall t c p msg rep buf cap) next ∧ Settled (k.sendCall t c p msg rep buf cap) next p

theorem ipcCall_cases (mem : UserMemory) (driver : Except FndError Unit) (backed : k.Backed)
    (runs : (k.thread t).state = .running) (ch req rep : Word) :
    Moves k (ipcCall mem driver k t ch req rep).2 ∨ Sent k t (ipcCall mem driver k t ch req rep).2 := by
  unfold ipcCall
  cases checked : checkCall mem k (k.procOf t) ch req rep with
  | error error => exact Or.inl (Moves.refl k)
  | ok result =>
    obtain ⟨c, msg, buf, cap⟩ := result
    have named := checkCall_named checked
    dsimp only
    split
    · exact Or.inl (kernelCall_moves runs c msg rep buf cap driver)
    · next user =>
        cases port : (k.chans c).port with
        | none => exact Or.inl (Moves.refl k)
        | some p =>
          dsimp only
          have queued := sendCall_queued k t c p msg rep buf cap
          have still : (k.sendCall t c p msg rep buf cap).Backed :=
            backed.of_same rfl (sendCall_refs k t c p msg rep buf cap)
          -- What the moves behind the request come to.
          have trail : ∀ {next}, Moves (k.sendCall t c p msg rep buf cap) next ->
              Settled (k.sendCall t c p msg rep buf cap) next p -> Moves k next ∨ Sent k t next :=
            fun path settled => Or.inr ⟨c, p, msg, rep, buf, cap, named, not_not.mp user, port, path, settled⟩
          generalize k.sendCall t c p msg rep buf cap = sent at queued still trail ⊢
          cases found : sent.findReceiver p with
          | none => exact trail (Moves.refl sent) (Or.inl (findReceiver_none found))
          | some r =>
            have waits := findReceiver_some found
            obtain ⟨path, kept, taken⟩ := takeNext_cases mem still (serves_of_receiver waits)
              (Or.inr ⟨r, Or.inr (Or.inr waits)⟩)
            dsimp only
            generalize takeNext mem sent r p = result at path kept taken ⊢
            obtain ⟨done, k₁⟩ := result
            dsimp only at path kept taken
            rcases taken with ⟨done, item⟩ | ⟨nothing, _, _, emptied⟩
            · subst done
              obtain ⟨blocked, reason, _⟩ := waitsAt_iff.mp waits
              have woken : Move k₁ (k₁.wake r fndOk) := by
                refine Move.wake (kept ▸ blocked) (fun replies => ?_) fndOk
                rw [kept, reason] at replies
                cases replies
              refine trail (path.then woken) (Or.inr ⟨⟨r, waits⟩, item.imp id ?_⟩)
              rintro ⟨u, sends, left⟩
              refine ⟨u, sends, ?_⟩
              rw [wake_waitsAt, left, Bool.false_and]
            · subst nothing
              exact trail path (Or.inr ⟨⟨r, waits⟩, Or.inr ⟨t, queued.2, emptied.gone t queued⟩⟩)

/-! ## Replying -/

theorem tokenCaller_some {token : Word} {caller : ThreadId} (called : k.tokenCaller proc token = some caller) :
    tokenThread token = some caller ∧ (k.thread caller).state = .blocked ∧ (k.thread caller).reason = .reply ∧
      (k.thread caller).waitProc = some proc ∧ (k.thread caller).gen &&& 0x00FFFFFF = token >>> 8 := by
  unfold tokenCaller at called
  cases found : tokenThread token with
  | none =>
    rw [found] at called
    cases called
  | some u =>
    rw [found] at called
    dsimp only at called
    split at called
    · cases called
    · next valid =>
        cases called
        rw [not_or, not_or, not_or, not_not, not_not, not_not, not_not] at valid
        exact ⟨rfl, valid⟩

theorem answerCall_thread (k : Ipc) (t caller : ThreadId) (msg : Msg) :
    (k.answerCall t caller msg).thread = Function.update k.thread caller
      { k.thread caller with r1 := fndOk, reason := .none, timed := false, state := .ready } :=
  wake_thread k caller fndOk

/-- A reply answers its caller and the thread goes on. -/
theorem ipcReply_moves (mem : UserMemory) (backed : k.Backed) (runs : (k.thread t).state = .running)
    (token addr : Word) :
    Moves k (ipcReply mem k t token addr).2 ∧ ((ipcReply mem k t token addr).2.thread t).state = .running ∧
      (ipcReply mem k t token addr).2.Backed := by
  have stays : Moves k k ∧ (k.thread t).state = .running ∧ k.Backed := ⟨Moves.refl k, runs, backed⟩
  unfold ipcReply
  split
  · exact stays
  · next msg _ =>
      split
      · exact stays
      · split
        · exact stays
        · next caller called =>
            obtain ⟨_, blocked, _⟩ := tokenCaller_some called
            have other : t ≠ caller := by
              rintro rfl
              rw [runs] at blocked
              cases blocked
            -- The answer, once a handle may have moved.
            have answers : ∀ moved : Ipc, moved.sched = k.sched -> moved.Backed -> Moves k moved ->
                Moves k (moved.answerCall t caller msg) ∧
                  ((moved.answerCall t caller msg).thread t).state = .running ∧
                  (moved.answerCall t caller msg).Backed := by
              intro moved same still path
              have threads : moved.thread = k.thread := congrArg Sched.threads same
              have calls : moved.tokenCaller (moved.procOf t) token = some caller := by
                rw [← called]
                unfold tokenCaller procOf
                rw [threads]
              refine ⟨path.then (Move.answer (by rw [threads]; exact runs) calls msg), ?_, ?_⟩
              · rw [answerCall_thread, Function.update_of_ne other, threads]
                exact runs
              · exact still.of_same rfl (wake_refs moved caller fndOk)
            split
            · exact stays
            · split
              · rcases handleMove_cases backed (k.procOf t) msg.a3 (k.procOf caller) with
                  ⟨error, failed⟩ | ⟨i, j, o, number, named, empty, done⟩
                · rw [failed]
                  exact stays
                · rw [done]
                  have hosts : k.Hosts (k.procOf caller) := Or.inr ⟨caller, Thread.active_blocked blocked, rfl⟩
                  exact answers ((k.setHandle _ j (some o)).setHandle _ i none) rfl (backed.transfer named)
                    (Moves.one (Move.transfer named empty hosts))
              · exact answers k rfl backed (Moves.refl k)

end Src32.Kernel.Ipc
