import CppPractice.Epoll.Refinement
import CppPractice.Lib.Machine

/-!
# Notify — waking the loop through the eventfd

`notify(h)` stores `h` in the one data slot of the notify event and writes to the eventfd.  A round of
the loop asks the kernel, hands what it reports to `process_events_list`, and runs the posted events;
calls of `notify` may come between any two of these.

What happened is kept in a log, oldest first, which the code does not have.
-/

namespace CppPractice
namespace Epoll

/-- `NGX_MAX_UINT32_VALUE` -/
def ngxMaxUint32Value : UInt64 := 0xffffffff

/-! ## The log -/

inductive Entry (κ : Type)
  /-- A call of `notify`, and whether the eight bytes were written. -/
  | notified (h : κ) (written : Bool)
  /-- `epoll_wait` returned, with the eventfd among its events or not. -/
  | waited (reported : Bool)
  | invoked (h : κ)
  /-- The posted events of the round have been run. -/
  | finished
  deriving DecidableEq, Repr

variable {κ : Type}

def latestStep (last : Option κ) : Entry κ → Option κ
  | .notified h _ => some h
  | _ => last

/-- The handler of the last call of `notify`. -/
def latest (log : List (Entry κ)) : Option κ := log.foldl latestStep none

def writtenStep (written : Bool) : Entry κ → Bool
  | .notified _ ok => written || ok
  | .waited _ => false
  | _ => written

/-- A write has succeeded since the last `epoll_wait`. -/
def writtenSinceWait (log : List (Entry κ)) : Bool := log.foldl writtenStep false

def owesStep (owed : Bool) : Entry κ → Bool
  | .waited reported => owed || reported
  | .invoked _ => false
  | _ => owed

/-- The eventfd has been reported, and no handler invoked since. -/
def owes (log : List (Entry κ)) : Bool := log.foldl owesStep false

theorem latest_snoc (log : List (Entry κ)) (e : Entry κ) :
    latest (log ++ [e]) = latestStep (latest log) e := List.foldl_concat _ _ _ _

theorem writtenSinceWait_snoc (log : List (Entry κ)) (e : Entry κ) :
    writtenSinceWait (log ++ [e]) = writtenStep (writtenSinceWait log) e := List.foldl_concat _ _ _ _

theorem owes_snoc (log : List (Entry κ)) (e : Entry κ) :
    owes (log ++ [e]) = owesStep (owes log) e := List.foldl_concat _ _ _ _

/-! ## The code -/

/-- The notify event's `data` and `index`, the number in the eventfd, and the log. -/
structure NotifyData (κ : Type) where
  data : Option κ
  index : UInt64
  count : Nat
  log : List (Entry κ)

abbrev NotifyWorld (κ : Type) := World (NotifyData κ) Unit

def note (w : NotifyWorld κ) (e : Entry κ) : NotifyWorld κ :=
  { w with rest := { w.rest with log := w.rest.log ++ [e] } }

/-- `notify_handler(ev)`, up to the call of the handler, which is the last thing it does. -/
def notifyHandler (w : NotifyWorld κ) : NotifyWorld κ :=
  let index := w.rest.index + 1
  let rest :=
    -- only then is the eventfd read; in between its edges are enough
    if index = ngxMaxUint32Value then
      { w.rest with index := 0, count := 0 }
    else
      { w.rest with index := index }
  match rest.data with
  | some h => note { w with rest := rest } (.invoked h)
  | none => { w with rest := rest }

/-- `notify_handler` is the handler of the notify event; handlers of other events are not run here. -/
def runNotify (_ : Unit) (_ : EventRef) (w : NotifyWorld κ) : NotifyWorld κ := notifyHandler w

inductive Phase
  | idle
  /-- `epoll_wait` has returned these events. -/
  | collected (batch : List EpollEvent)
  /-- `process_events_list` has returned. -/
  | listed
  deriving DecidableEq, Repr

structure Notifier (κ : Type) where
  world : NotifyWorld κ
  /-- A write has succeeded since the kernel was asked last. -/
  signalled : Bool
  phase : Phase

namespace CppEpollHandler

/-- `notify(h)`; `written` is the outcome of the write. -/
def notify (h : κ) (written : Bool) (s : Notifier κ) : NgxInt × Notifier κ :=
  let rest := { s.world.rest with data := some h }
  let rest := if written then { rest with count := rest.count + 1 } else rest
  -- a failed write is logged, and the result is the same
  (.ngxOk,
    { s with
      world := note { s.world with rest := rest } (.notified h written)
      signalled := s.signalled || written })

end CppEpollHandler

/-- The pointer that the eventfd is registered with: the notify connection, with a clear tag. -/
def eventfdEvent (conn : UInt64) : EpollEvent := ⟨epollin, conn⟩

/-- `epoll_wait` -/
def epollWait (conn : UInt64) (s : Notifier κ) : Notifier κ where
  world := note s.world (.waited s.signalled)
  signalled := false
  phase := .collected (if s.signalled then [eventfdEvent conn] else [])

/-- `process_events_list` -/
def processBatch (posted : Bool) (batch : List EpollEvent) (s : Notifier κ) : Notifier κ :=
  { s with
    world := (CppEpollHandler.processEventsList runNotify posted batch s.world).world
    phase := .listed }

/-- One turn of the loop of `ngx_event_process_posted`, for the notify event. -/
def processPosted (conn : UInt64) (s : Notifier κ) : Notifier κ :=
  { s with world := notifyHandler (s.world.ngxDeletePostedEvent ⟨conn, .read⟩) }

/-- The posted events have been run. -/
def finishRound (s : Notifier κ) : Notifier κ :=
  { s with world := note s.world .finished, phase := .idle }

/-! ## Runs -/

/-- What the rest of the program does leaves the notify connection, its data and its place in the
queue alone. -/
structure LeavesNotify (conn : UInt64) (w w' : NotifyWorld κ) : Prop where
  connection : w'.connections conn = w.connections conn
  rest : w'.rest = w.rest
  queued : (⟨conn, .read⟩ : EventRef) ∈ w.postedEvents → ⟨conn, .read⟩ ∈ w'.postedEvents

inductive NotifyAction (κ : Type)
  | notify (h : κ) (written : Bool)
  | other
  | wait
  | list (posted : Bool)
  | post
  | finish

inductive NotifyStep (conn : UInt64) : Notifier κ → NotifyAction κ → Notifier κ → Prop
  | notify (s : Notifier κ) (h : κ) (written : Bool) :
      NotifyStep conn s (.notify h written) (CppEpollHandler.notify h written s).2
  | other (s : Notifier κ) {w : NotifyWorld κ} (hleaves : LeavesNotify conn s.world w) :
      NotifyStep conn s .other { s with world := w }
  | wait {s : Notifier κ} (hidle : s.phase = .idle) : NotifyStep conn s .wait (epollWait conn s)
  | list {s : Notifier κ} {batch : List EpollEvent} (posted : Bool)
      (hcollected : s.phase = .collected batch) :
      NotifyStep conn s (.list posted) (processBatch posted batch s)
  | post {s : Notifier κ} (hlisted : s.phase = .listed) {queue : List EventRef}
      (hhead : s.world.postedEvents = ⟨conn, .read⟩ :: queue) :
      NotifyStep conn s .post (processPosted conn s)
  | finish {s : Notifier κ} (hlisted : s.phase = .listed) (hempty : s.world.postedEvents = []) :
      NotifyStep conn s .finish (finishRound s)

/-- The notify connection as `init_notify_data` leaves it; its write event is never active. -/
structure NotifyReady (c : Connection Unit) : Prop where
  opened : c.fd ≠ -1
  active : c.read.active = true
  inst : c.read.inst = false
  accept : c.read.accept = false

structure NotifyStart (conn : UInt64) (s : Notifier κ) : Prop where
  aligned : tagOf conn = false
  ready : NotifyReady (s.world.connections conn)
  posted : (s.world.connections conn).read.posted = false
  data : s.world.rest.data = none
  log : s.world.rest.log = []
  signalled : s.signalled = false
  phase : s.phase = .idle

def notifyMachine (κ : Type) (conn : UInt64) : Machine (Notifier κ) (NotifyAction κ) where
  init := NotifyStart conn
  step := NotifyStep conn

/-! ## Histories -/

/-- What an entry says about those before it. -/
def Valid (past : List (Entry κ)) : Entry κ → Prop
  | .notified _ _ => True
  | .waited reported => reported = writtenSinceWait past
  | .invoked h => latest past = some h
  | .finished => owes past = false

def History (log : List (Entry κ)) : Prop :=
  ∀ past e future, log = past ++ e :: future → Valid past e

theorem History.nil : History ([] : List (Entry κ)) := by
  intro past e future h
  exact absurd h (by simp)

theorem History.snoc {log : List (Entry κ)} (h : History log) {e : Entry κ} (he : Valid log e) :
    History (log ++ [e]) := by
  intro past x future heq
  -- The entry looked at is the new one, or one of the old log.
  rcases List.eq_nil_or_concat future with rfl | ⟨future', y, rfl⟩
  · rcases List.append_inj' heq rfl with ⟨rfl, hx⟩
    cases hx
    exact he
  · have hsnoc : log ++ [e] = (past ++ x :: future') ++ [y] := by
      rw [heq]
      simp
    exact h past x future' (List.append_inj' hsnoc rfl).1

theorem foldl_writtenStep {log : List (Entry κ)} (h : ∀ r, Entry.waited r ∉ log) :
    log.foldl writtenStep true = true := by
  induction log with
  | nil => rfl
  | cons e log ih =>
      have hlog : ∀ r, Entry.waited r ∉ log := fun r hr => h r (List.mem_cons_of_mem e hr)
      cases e with
      | notified g ok => exact ih hlog
      | waited r => exact absurd List.mem_cons_self (h r)
      | invoked g => exact ih hlog
      | finished => exact ih hlog

/-- After a written call and before the next `epoll_wait`, the eventfd is readable. -/
theorem writtenSinceWait_notified {before mid : List (Entry κ)} (h : κ)
    (hmid : ∀ r, Entry.waited r ∉ mid) :
    writtenSinceWait (before ++ .notified h true :: mid) = true := by
  -- Only an `epoll_wait` takes the mark away, and `mid` has none.
  have hwritten : writtenStep (before.foldl writtenStep false) (.notified h true) = true :=
    Bool.or_true _
  rw [writtenSinceWait, List.foldl_append, List.foldl_cons, hwritten]
  exact foldl_writtenStep hmid

theorem foldl_owesStep {log : List (Entry κ)} (h : log.foldl owesStep true = false) :
    ∃ (rest₁ : List (Entry κ)) (g : κ) (rest₂ : List (Entry κ)),
      log = rest₁ ++ .invoked g :: rest₂ := by
  induction log with
  | nil => cases h
  | cons e log ih =>
      have hcons : (∃ (rest₁ : List (Entry κ)) (g : κ) (rest₂ : List (Entry κ)),
          log = rest₁ ++ .invoked g :: rest₂) →
          ∃ (rest₁ : List (Entry κ)) (g : κ) (rest₂ : List (Entry κ)),
            e :: log = rest₁ ++ .invoked g :: rest₂ := by
        rintro ⟨rest₁, g, rest₂, rfl⟩
        exact ⟨e :: rest₁, g, rest₂, rfl⟩
      cases e with
      | notified g ok => exact hcons (ih h)
      | waited r => exact hcons (ih h)
      | invoked g => exact ⟨[], g, log, rfl⟩
      | finished => exact hcons (ih h)

/-- What is owed and then not owed has been invoked in between. -/
theorem exists_invoked {before rest : List (Entry κ)}
    (h : owes (before ++ .waited true :: rest) = false) :
    ∃ (rest₁ : List (Entry κ)) (g : κ) (rest₂ : List (Entry κ)),
      rest = rest₁ ++ .invoked g :: rest₂ := by
  have howed : owesStep (before.foldl owesStep false) (.waited true : Entry κ) = true :=
    Bool.or_true _
  rw [owes, List.foldl_append, List.foldl_cons, howed] at h
  exact foldl_owesStep h

/-- After a call of `notify` whose wake-up was written, the next `epoll_wait` reports the eventfd, and
before a round from there on has finished, the handler of the last call made by then is invoked. -/
def NoneLost (log : List (Entry κ)) : Prop :=
  ∀ (before : List (Entry κ)) (h : κ) (mid : List (Entry κ)) (reported : Bool)
    (rest after : List (Entry κ)),
    log = before ++ .notified h true :: mid ++ .waited reported :: rest ++ .finished :: after →
    (∀ r, Entry.waited r ∉ mid) →
    reported = true ∧ ∃ (rest₁ : List (Entry κ)) (g : κ) (rest₂ : List (Entry κ)),
      rest = rest₁ ++ .invoked g :: rest₂ ∧
      latest (before ++ .notified h true :: mid ++ .waited reported :: rest₁) = some g

theorem History.noneLost {log : List (Entry κ)} (hlog : History log) : NoneLost log := by
  intro before h mid reported rest after heq hmid
  have hreported : reported = true := by
    have hwait := hlog (before ++ .notified h true :: mid) (.waited reported)
      (rest ++ .finished :: after) (by rw [heq]; simp)
    rw [show reported = _ from hwait]
    exact writtenSinceWait_notified h hmid
  subst hreported
  refine ⟨rfl, ?_⟩
  -- The round finishes only when nothing is owed, so what it was told of has been invoked.
  have hpaid : owes (before ++ .notified h true :: mid ++ .waited true :: rest) = false :=
    hlog _ .finished after heq
  rcases exists_invoked hpaid with ⟨rest₁, g, rest₂, rfl⟩
  refine ⟨rest₁, g, rest₂, rfl, ?_⟩
  exact hlog (before ++ .notified h true :: mid ++ .waited true :: rest₁) (.invoked g)
    (rest₂ ++ .finished :: after) (by rw [heq]; simp)

/-! ## What every reachable state satisfies -/

structure Sound (conn : UInt64) (s : Notifier κ) : Prop where
  aligned : tagOf conn = false
  ready : NotifyReady (s.world.connections conn)
  /-- The notify event is not marked as posted without being in the queue. -/
  posted : (s.world.event ⟨conn, .read⟩).posted = true → ⟨conn, .read⟩ ∈ s.world.postedEvents
  data : s.world.rest.data = latest s.world.rest.log
  signalled : s.signalled = writtenSinceWait s.world.rest.log
  /-- A wake-up has a handler. -/
  stored : s.signalled = true ∨ owes s.world.rest.log = true →
    latest s.world.rest.log ≠ none
  batch : ∀ batch, s.phase = .collected batch → batch = [] ∨ batch = [eventfdEvent conn]
  /-- What is owed is in the batch or in the queue. -/
  owed : owes s.world.rest.log = true →
    s.phase = .collected [eventfdEvent conn] ∨
      s.phase = .listed ∧ ⟨conn, .read⟩ ∈ s.world.postedEvents
  history : History s.world.rest.log

theorem NotifyStart.sound {conn : UInt64} {s : Notifier κ} (h : NotifyStart conn s) :
    Sound conn s where
  aligned := h.aligned
  ready := h.ready
  posted hposted := by
    have hfalse : (s.world.event ⟨conn, .read⟩).posted = false := h.posted
    rw [hfalse] at hposted
    cases hposted
  data := by
    rw [h.data, h.log]
    rfl
  signalled := by
    rw [h.signalled, h.log]
    rfl
  stored := by
    rw [h.signalled, h.log]
    rintro (hfalse | hfalse)
    · cases hfalse
    · cases hfalse
  batch b hb := by
    rw [h.phase] at hb
    cases hb
  owed := by
    rw [h.log]
    intro hfalse
    cases hfalse
  history := by
    rw [h.log]
    exact History.nil

theorem notifyHandler_connections (w : NotifyWorld κ) :
    (notifyHandler w).connections = w.connections := by
  unfold notifyHandler
  dsimp only
  split
  · rfl
  · rfl

theorem notifyHandler_postedEvents (w : NotifyWorld κ) :
    (notifyHandler w).postedEvents = w.postedEvents := by
  unfold notifyHandler
  dsimp only
  split
  · rfl
  · rfl

/-- The counter of the runs, at its end, is reset; the data slot is left and read. -/
theorem notifyHandler_some {w : NotifyWorld κ} {h : κ} (hdata : w.rest.data = some h) :
    (notifyHandler w).rest.data = some h ∧
      (notifyHandler w).rest.log = w.rest.log ++ [.invoked h] := by
  unfold notifyHandler
  by_cases hend : w.rest.index + 1 = ngxMaxUint32Value
  · simp only [if_pos hend, hdata]
    exact ⟨rfl, rfl⟩
  · simp only [if_neg hend, hdata]
    exact ⟨rfl, rfl⟩

theorem notifyHandler_none {w : NotifyWorld κ} (hdata : w.rest.data = none) :
    (notifyHandler w).rest.data = none ∧ (notifyHandler w).rest.log = w.rest.log := by
  unfold notifyHandler
  by_cases hend : w.rest.index + 1 = ngxMaxUint32Value
  · simp only [if_pos hend, hdata, and_self]
  · simp only [if_neg hend, hdata, and_self]

/-- What `process_events_list` does when the eventfd is readable. -/
theorem processEventsList_eventfd {conn : UInt64} (haligned : tagOf conn = false)
    {w : NotifyWorld κ} (hready : NotifyReady (w.connections conn)) (posted : Bool) :
    (CppEpollHandler.processEventsList runNotify posted [eventfdEvent conn] w).world =
      if posted then (w.setReady ⟨conn, .read⟩).ngxPostEvent ⟨conn, .read⟩ .postedEvents
      else notifyHandler (w.setReady ⟨conn, .read⟩) := by
  let l : Loop (NotifyData κ) Unit := { world := w, calls := [] }
  have haddress : addressOf conn = conn := by
    have h := addressOf_tagged haligned false
    simpa [tagged] using h
  have hfresh : ¬ Stale l ⟨conn, .read⟩ (tagOf conn) := by
    rw [haligned]
    rintro (hclosed | htag)
    · exact hready.opened hclosed
    · exact htag hready.inst
  have hcheck : (CppEpollHandler.checkErrors conn epollin l).2 = l := by
    unfold CppEpollHandler.checkErrors
    rw [if_neg (by decide)]
  have hin : epollin &&& epollin ≠ 0 ∧ (l.world.event ⟨conn, .read⟩).active = true :=
    ⟨by decide, hready.active⟩
  have hmark : markReadable ⟨conn, .read⟩ epollin w = w.setReady ⟨conn, .read⟩ := by
    unfold markReadable
    rw [if_neg (by decide)]
  -- The eventfd is reported as readable only.
  have hidle : ∀ m : Loop (NotifyData κ) Unit,
      writeHalf runNotify posted .read conn (tagOf conn) epollin m = m := by
    intro m
    refine writeHalf_idle fun hd => ?_
    exact hd.1.1 (by decide)
  have hround : CppEpollHandler.processEvent runNotify posted l (eventfdEvent conn) =
      readHalf runNotify posted conn epollin l := by
    have hconn : addressOf (eventfdEvent conn).ptr = conn := haddress
    have hrevents : reventsOf (eventfdEvent conn).events = epollin := by
      change reventsOf epollin = epollin
      decide
    rw [CppEpollHandler.processEvent_fresh (by rw [hconn]; exact hfresh), atWriteHalf, hrevents, hconn]
    exact (hidle _).trans (congrArg (readHalf runNotify posted conn epollin) hcheck)
  calc (CppEpollHandler.processEventsList runNotify posted [eventfdEvent conn] w).world
      = (readHalf runNotify posted conn epollin l).world := congrArg Loop.world hround
    _ = if posted then (w.setReady ⟨conn, .read⟩).ngxPostEvent ⟨conn, .read⟩ .postedEvents
        else notifyHandler (w.setReady ⟨conn, .read⟩) := by
      have haccept : ((w.setReady ⟨conn, .read⟩).event ⟨conn, .read⟩).accept = false := by
        rw [World.setReady, World.event_updateEvent, if_pos rfl]
        exact hready.accept
      cases posted with
      | true =>
          rw [readHalf_posts hin, hmark, haccept]
          simp only [Loop.map_world, Bool.false_eq_true, if_false, if_true]
          exact congrArg (fun v : NotifyWorld κ => v.ngxPostEvent ⟨conn, .read⟩ .postedEvents) hmark
      | false =>
          rw [readHalf_calls hin, Loop.call_world, Loop.map_world]
          exact congrArg notifyHandler hmark

theorem NotifyReady.updateRead {conn : UInt64} {w : NotifyWorld κ}
    (h : NotifyReady (w.connections conn)) {f : Event Unit → Event Unit}
    (hactive : ∀ e, (f e).active = e.active) (hinst : ∀ e, (f e).inst = e.inst)
    (haccept : ∀ e, (f e).accept = e.accept) :
    NotifyReady ((w.updateEvent ⟨conn, .read⟩ f).connections conn) := by
  have hconn : (w.updateEvent ⟨conn, .read⟩ f).connections conn =
      (w.connections conn).updateEvent .read f := Function.update_self _ _ _
  rw [hconn]
  exact ⟨h.opened, (hactive _).trans h.active, (hinst _).trans h.inst, (haccept _).trans h.accept⟩

/-- Posting leaves the notify event in the queue, whether it was there or not. -/
theorem ngxPostEvent_notify {conn : UInt64} {w : NotifyWorld κ}
    (hready : NotifyReady (w.connections conn))
    (hposted : (w.event ⟨conn, .read⟩).posted = true → ⟨conn, .read⟩ ∈ w.postedEvents) :
    (w.ngxPostEvent ⟨conn, .read⟩ .postedEvents).rest = w.rest ∧
      NotifyReady ((w.ngxPostEvent ⟨conn, .read⟩ .postedEvents).connections conn) ∧
      ⟨conn, .read⟩ ∈ (w.ngxPostEvent ⟨conn, .read⟩ .postedEvents).postedEvents := by
  unfold World.ngxPostEvent
  by_cases hp : (w.event ⟨conn, .read⟩).posted = true
  · rw [if_pos hp]
    exact ⟨rfl, hready, hposted hp⟩
  · rw [if_neg hp]
    refine ⟨rfl, ?_, List.mem_append_right _ List.mem_cons_self⟩
    exact hready.updateRead (fun _ => rfl) (fun _ => rfl) fun _ => rfl

namespace Sound

variable {conn : UInt64} {s : Notifier κ}

theorem notify (h : Sound conn s) (g : κ) (written : Bool) :
    Sound conn (CppEpollHandler.notify g written s).2 := by
  have hlog : (CppEpollHandler.notify g written s).2.world.rest.log =
      s.world.rest.log ++ [.notified g written] := by
    cases written with
    | false => rfl
    | true => rfl
  have hdata : (CppEpollHandler.notify g written s).2.world.rest.data = some g := by
    cases written with
    | false => rfl
    | true => rfl
  refine ⟨h.aligned, h.ready, h.posted, ?_, ?_, ?_, h.batch, ?_, ?_⟩
  · rw [hlog, hdata, latest_snoc]
    rfl
  · rw [hlog, writtenSinceWait_snoc, ← h.signalled]
    rfl
  · intro _
    rw [hlog, latest_snoc]
    exact Option.some_ne_none g
  · rw [hlog, owes_snoc]
    exact h.owed
  · rw [hlog]
    exact h.history.snoc trivial

theorem other (h : Sound conn s) {w : NotifyWorld κ} (hleaves : LeavesNotify conn s.world w) :
    Sound conn { s with world := w } := by
  have hevent : w.event ⟨conn, .read⟩ = s.world.event ⟨conn, .read⟩ :=
    congrArg (fun c : Connection Unit => c.read) hleaves.connection
  -- The data and the log are the same, so only the connection and the queue are looked at.
  rcases w with ⟨connections, accepts, queue, rest⟩
  have hrest : rest = s.world.rest := hleaves.rest
  subst hrest
  refine ⟨h.aligned, ?_, ?_, h.data, h.signalled, h.stored, h.batch, ?_, h.history⟩
  · exact hleaves.connection ▸ h.ready
  · intro hposted
    rw [hevent] at hposted
    exact hleaves.queued (h.posted hposted)
  · intro howed
    rcases h.owed howed with hbatch | ⟨hlisted, hqueued⟩
    · exact Or.inl hbatch
    · exact Or.inr ⟨hlisted, hleaves.queued hqueued⟩

/-- While the loop is idle, nothing is owed. -/
theorem idle_owes (h : Sound conn s) (hidle : s.phase = .idle) : owes s.world.rest.log = false := by
  rw [← Bool.not_eq_true]
  intro howed
  rcases h.owed howed with hbatch | ⟨hlisted, -⟩
  · rw [hidle] at hbatch
    cases hbatch
  · rw [hidle] at hlisted
    cases hlisted

theorem wait (h : Sound conn s) (hidle : s.phase = .idle) : Sound conn (epollWait conn s) := by
  have hlog : (epollWait conn s).world.rest.log = s.world.rest.log ++ [.waited s.signalled] := rfl
  have howes : owes (epollWait conn s).world.rest.log = s.signalled := by
    rw [hlog, owes_snoc, owesStep, h.idle_owes hidle, Bool.false_or]
  have hlatest : latest (epollWait conn s).world.rest.log = latest s.world.rest.log := by
    rw [hlog, latest_snoc]
    rfl
  refine ⟨h.aligned, h.ready, h.posted, ?_, ?_, ?_, ?_, ?_, ?_⟩
  · rw [hlatest]
    exact h.data
  · rw [hlog, writtenSinceWait_snoc]
    rfl
  · rw [howes, hlatest]
    rintro (hfalse | hsignalled)
    · cases hfalse
    · exact h.stored (Or.inl hsignalled)
  · intro b hb
    have hbatch : (if s.signalled then [eventfdEvent conn] else []) = b := Phase.collected.inj hb
    rw [← hbatch]
    cases s.signalled with
    | false => exact Or.inl rfl
    | true => exact Or.inr rfl
  · rw [howes]
    intro hsignalled
    refine Or.inl ?_
    simp only [epollWait, hsignalled, if_true]
  · rw [hlog]
    exact h.history.snoc h.signalled

/-- Running `notify_handler` settles what is owed, and hands over the handler stored last. -/
theorem invoke (h : Sound conn s) {w : NotifyWorld κ} (hrest : w.rest = s.world.rest)
    (hready : NotifyReady (w.connections conn))
    (hposted : (w.event ⟨conn, .read⟩).posted = true → ⟨conn, .read⟩ ∈ w.postedEvents) :
    Sound conn { s with world := notifyHandler w, phase := .listed } := by
  have hconn : (notifyHandler w).connections = w.connections := notifyHandler_connections w
  have hready' : NotifyReady ((notifyHandler w).connections conn) := by
    rw [hconn]
    exact hready
  have hposted' : ((notifyHandler w).event ⟨conn, .read⟩).posted = true →
      ⟨conn, .read⟩ ∈ (notifyHandler w).postedEvents := by
    rw [notifyHandler_postedEvents, World.event, hconn]
    exact hposted
  have hbatch : ∀ batch, Phase.listed = .collected batch → batch = [] ∨ batch = [eventfdEvent conn] :=
    fun _ hb => by cases hb
  cases hdata : w.rest.data with
  | none =>
      -- No handler has ever been stored, so no wake-up can be under way.
      rcases notifyHandler_none hdata with ⟨hdata', hlog⟩
      have hlatest : latest s.world.rest.log = none := by
        rw [← h.data, ← hrest, hdata]
      have hsettled : ¬ (s.signalled = true ∨ owes s.world.rest.log = true) :=
        fun hwake => h.stored hwake hlatest
      refine ⟨h.aligned, hready', hposted', ?_, ?_, ?_, hbatch, ?_, ?_⟩
      · rw [hdata', hlog, hrest, hlatest]
      · rw [hlog, hrest]
        exact h.signalled
      · rw [hlog, hrest]
        exact fun hwake => absurd hwake hsettled
      · rw [hlog, hrest]
        exact fun howed => absurd (Or.inr howed) hsettled
      · rw [hlog, hrest]
        exact h.history
  | some g =>
      -- The slot holds the handler of the last call, and that is the one invoked.
      rcases notifyHandler_some hdata with ⟨hdata', hlog⟩
      have hlatest : latest s.world.rest.log = some g := by
        rw [← h.data, ← hrest, hdata]
      have hlog' : (notifyHandler w).rest.log = s.world.rest.log ++ [.invoked g] := by
        rw [hlog, hrest]
      have howes : owes (notifyHandler w).rest.log = false := by
        rw [hlog', owes_snoc]
        rfl
      refine ⟨h.aligned, hready', hposted', ?_, ?_, ?_, hbatch, ?_, ?_⟩
      · rw [hdata', hlog', latest_snoc]
        exact hlatest.symm
      · rw [hlog', writtenSinceWait_snoc]
        exact h.signalled
      · rw [hlog', latest_snoc]
        intro _
        have hkeep : latestStep (latest s.world.rest.log) (.invoked g) = some g := hlatest
        rw [hkeep]
        exact Option.some_ne_none g
      · intro howed
        rw [howes] at howed
        cases howed
      · rw [hlog']
        exact h.history.snoc hlatest

/-- The eventfd is in the batch: `notify_handler` is run, or the notify event is posted. -/
theorem list (h : Sound conn s) {batch : List EpollEvent} (hcollected : s.phase = .collected batch)
    (posted : Bool) : Sound conn (processBatch posted batch s) := by
  rcases h.batch batch hcollected with rfl | rfl
  · -- Nothing was reported, so nothing is owed.
    have hpaid : ¬ owes s.world.rest.log = true := by
      intro howed
      rcases h.owed howed with hbatch | ⟨hlisted, -⟩
      · rw [hcollected] at hbatch
        cases hbatch
      · rw [hcollected] at hlisted
        cases hlisted
    exact ⟨h.aligned, h.ready, h.posted, h.data, h.signalled, h.stored, fun _ hb => (by cases hb),
      fun howed => absurd howed hpaid, h.history⟩
  have hready : NotifyReady ((s.world.setReady ⟨conn, .read⟩).connections conn) :=
    h.ready.updateRead (fun _ => rfl) (fun _ => rfl) fun _ => rfl
  have hposted : ((s.world.setReady ⟨conn, .read⟩).event ⟨conn, .read⟩).posted = true →
      ⟨conn, .read⟩ ∈ s.world.postedEvents := by
    rw [World.posted_setReady]
    exact h.posted
  have hworld := processEventsList_eventfd h.aligned h.ready posted
  unfold processBatch
  rw [hworld]
  cases posted with
  | false => exact h.invoke rfl hready hposted
  | true =>
      rw [if_pos rfl]
      rcases ngxPostEvent_notify hready hposted with ⟨hrest, hready', hqueued⟩
      have hlog : ((s.world.setReady ⟨conn, .read⟩).ngxPostEvent ⟨conn, .read⟩
          .postedEvents).rest = s.world.rest := hrest
      -- What was owed to the batch is owed to the queue from here on.
      refine ⟨h.aligned, hready', fun _ => hqueued, ?_, ?_, ?_, fun _ hb => (by cases hb),
        fun _ => Or.inr ⟨rfl, hqueued⟩, ?_⟩
      · rw [hlog]
        exact h.data
      · rw [hlog]
        exact h.signalled
      · rw [hlog]
        exact h.stored
      · rw [hlog]
        exact h.history

theorem post (h : Sound conn s) (hlisted : s.phase = .listed) :
    Sound conn (processPosted conn s) := by
  have hready : NotifyReady ((s.world.ngxDeletePostedEvent ⟨conn, .read⟩).connections conn) :=
    h.ready.updateRead (fun _ => rfl) (fun _ => rfl) fun _ => rfl
  have hposted : ((s.world.ngxDeletePostedEvent ⟨conn, .read⟩).event ⟨conn, .read⟩).posted = false := by
    have hevent := World.event_updateEvent s.world ⟨conn, .read⟩ ⟨conn, .read⟩
      fun e => { e with posted := false }
    rw [if_pos rfl] at hevent
    exact congrArg Event.posted hevent
  -- The event has left the queue and its mark is off, before its handler runs.
  have hinvoke := h.invoke (w := s.world.ngxDeletePostedEvent ⟨conn, .read⟩) rfl hready
    fun hp => by rw [hposted] at hp; cases hp
  unfold processPosted
  rw [← hlisted] at hinvoke
  exact hinvoke

theorem finish (h : Sound conn s) (hlisted : s.phase = .listed)
    (hempty : s.world.postedEvents = []) : Sound conn (finishRound s) := by
  have hlog : (finishRound s).world.rest.log = s.world.rest.log ++ [.finished] := rfl
  -- With the queue empty there is no place left where something owed could be.
  have hpaid : owes s.world.rest.log = false := by
    rw [← Bool.not_eq_true]
    intro howed
    rcases h.owed howed with hbatch | ⟨-, hqueued⟩
    · rw [hlisted] at hbatch
      cases hbatch
    · rw [hempty] at hqueued
      cases hqueued
  have howes : owes (finishRound s).world.rest.log = false := by
    rw [hlog, owes_snoc]
    exact hpaid
  refine ⟨h.aligned, h.ready, h.posted, ?_, ?_, ?_, ?_, ?_, ?_⟩
  · rw [hlog, latest_snoc]
    exact h.data
  · rw [hlog, writtenSinceWait_snoc]
    exact h.signalled
  · rw [hlog, latest_snoc, ← hlog, howes]
    rintro (hsignalled | hfalse)
    · exact h.stored (Or.inl hsignalled)
    · cases hfalse
  · intro b hb
    cases hb
  · intro howed
    rw [howes] at howed
    cases howed
  · rw [hlog]
    exact h.history.snoc hpaid

theorem step (h : Sound conn s) {a : NotifyAction κ} {s' : Notifier κ}
    (hstep : NotifyStep conn s a s') : Sound conn s' := by
  cases hstep with
  | notify g written => exact h.notify g written
  | other hleaves => exact h.other hleaves
  | wait hidle => exact h.wait hidle
  | list posted hcollected => exact h.list hcollected posted
  | post hlisted hhead => exact h.post hlisted
  | finish hlisted hempty => exact h.finish hlisted hempty

end Sound

theorem notify_invariant (κ : Type) (conn : UInt64) :
    (notifyMachine κ conn).Invariant (Sound conn) where
  start _ hstart := hstart.sound
  kept _ _ _ h hstep := h.step hstep

/-- No wake-up is lost: for every call of `notify` whose wake-up was written, the next `epoll_wait`
reports the eventfd, and by the end of that round the handler that the last call stored has been
invoked. -/
theorem no_wakeup_lost {conn : UInt64} {s₀ : Notifier κ} {tr : List (NotifyAction κ × Notifier κ)}
    (hstart : NotifyStart conn s₀) (hrun : (notifyMachine κ conn).Run s₀ tr) :
    ∀ s ∈ Machine.states s₀ tr, NoneLost s.world.rest.log := by
  intro s hs
  exact ((notify_invariant κ conn).run hstart hrun s hs).history.noneLost

/-! ## Two calls before one round -/

/-- The notify connection at address 64, before any call. -/
def idleNotifier : Notifier Nat where
  world :=
    { connections := fun _ =>
        { fd := 5
          error := false
          read := ⟨true, false, false, false, false, false, ()⟩
          write := ⟨false, false, false, false, false, false, ()⟩ }
      postedAcceptEvents := []
      postedEvents := []
      rest := { data := none, index := 0, count := 0, log := [] } }
  signalled := false
  phase := .idle

theorem idleNotifier_start : NotifyStart 64 idleNotifier where
  aligned := by decide
  ready := ⟨by decide, rfl, rfl, rfl⟩
  posted := rfl
  data := rfl
  log := rfl
  signalled := rfl
  phase := rfl

/-- `notify(1)` and `notify(2)`, both written. -/
def notifiedTwice : Notifier Nat :=
  (CppEpollHandler.notify 2 true (CppEpollHandler.notify 1 true idleNotifier).2).2

/-- A round that runs the handler directly. -/
def roundAfterTwo : Notifier Nat :=
  finishRound (processBatch false [eventfdEvent 64] (epollWait 64 notifiedTwice))

def twoNotifications : List (NotifyAction Nat × Notifier Nat) :=
  [(.notify 1 true, (CppEpollHandler.notify 1 true idleNotifier).2),
    (.notify 2 true, notifiedTwice),
    (.wait, epollWait 64 notifiedTwice),
    (.list false, processBatch false [eventfdEvent 64] (epollWait 64 notifiedTwice)),
    (.finish, roundAfterTwo)]

theorem roundAfterTwo_mem : roundAfterTwo ∈ Machine.states idleNotifier twoNotifications := by
  simp [Machine.states, twoNotifications]

theorem run_twoNotifications : (notifyMachine Nat 64).Run idleNotifier twoNotifications := by
  refine .cons (.notify _ 1 true) (.cons (.notify _ 2 true) (.cons (.wait rfl)
    (.cons (.list false rfl) (.cons (.finish rfl ?_) (.nil _)))))
  decide

theorem no_wakeup_lost_twoNotifications : NoneLost roundAfterTwo.world.rest.log :=
  no_wakeup_lost idleNotifier_start run_twoNotifications roundAfterTwo roundAfterTwo_mem

/-- Every handler is invoked: after a call of `notify(h)` that returned `NGX_OK`, and by the end of
the round of the next `epoll_wait`, so is `h` itself. -/
def EachInvoked (log : List (Entry κ)) : Prop :=
  ∀ (before : List (Entry κ)) (h : κ) (written : Bool) (mid : List (Entry κ)) (reported : Bool)
    (rest after : List (Entry κ)),
    log = before ++ .notified h written :: mid ++ .waited reported :: rest ++ .finished :: after →
    (∀ r, Entry.waited r ∉ mid) → Entry.invoked h ∈ mid ++ rest

/-- The second call takes the data slot from the first, whose handler is never invoked; and a call
whose wake-up is not written returns `NGX_OK` as well. -/
theorem notification_replaced :
    NotifyStart 64 idleNotifier ∧
    (notifyMachine Nat 64).Run idleNotifier twoNotifications ∧
    (∃ s ∈ Machine.states idleNotifier twoNotifications, ¬ EachInvoked s.world.rest.log) ∧
    (CppEpollHandler.notify 1 false idleNotifier).1 = .ngxOk := by
  refine ⟨idleNotifier_start, run_twoNotifications, ⟨_, roundAfterTwo_mem, ?_⟩, rfl⟩
  have hlog : roundAfterTwo.world.rest.log =
      [.notified 1 true, .notified 2 true, .waited true, .invoked 2, .finished] := by
    decide
  intro h
  have hone := h [] 1 true [.notified 2 true] true [.invoked 2] [] hlog (by simp)
  revert hone
  decide

end Epoll
end CppPractice
