import CppPractice.Epoll.Event

/-!
# ProcessEvents — the loop over a batch, and nginx's

`CppEpollHandler::process_events_list` re-implements the loop of `ngx_epoll_process_events`.  The
reading halves of the two loops are the same statements; the writing halves differ in the event they
post and hand to the handler.

The handlers are state transformers `run` that do not read `c->error`: they respect the relation
`SameButError`.
-/

namespace CppPractice
namespace Epoll

variable {Ω H : Type}

section Source

variable (run : H → EventRef → World Ω H → World Ω H) (posted : Bool)

/-- The kernel event is stale: the descriptor is closed, or the tag is not that of the event. -/
def Stale (l : Loop Ω H) (ev : EventRef) (inst : Bool) : Prop :=
  (l.world.connections ev.conn).fd = -1 ∨ (l.world.event ev).inst ≠ inst

instance (l : Loop Ω H) (ev : EventRef) (inst : Bool) : Decidable (Stale l ev inst) :=
  inferInstanceAs (Decidable (_ ∨ _))

/-- The events that are checked: an error without `EPOLLIN` and `EPOLLOUT` sets both. -/
def reventsOf (events : UInt32) : UInt32 :=
  if events &&& (epollerr ||| epollhup) ≠ 0 ∧ events &&& (epollin ||| epollout) = 0 then
    events ||| (epollin ||| epollout)
  else
    events

/-- What is set on a read event before it is dispatched. -/
def markReadable (rev : EventRef) (revents : UInt32) (w : World Ω H) : World Ω H :=
  (if revents &&& epollrdhup ≠ 0 then w.setPendingEof rev else w).setReady rev

/-- The half of both loops for `EPOLLIN`. -/
def readHalf (c : UInt64) (revents : UInt32) (l : Loop Ω H) : Loop Ω H :=
  let rev : EventRef := ⟨c, .read⟩
  if revents &&& epollin ≠ 0 ∧ (l.world.event rev).active = true then
    let l := l.map (markReadable rev revents)
    -- `NGX_POST_EVENTS`: a connection that is accepted goes to a queue of its own
    if posted then
      l.map (·.ngxPostEvent rev
        (if (l.world.event rev).accept then .postedAcceptEvents else .postedEvents))
    else
      l.call run (l.world.event rev).handler rev
  else
    l

/-- The half of both loops for `EPOLLOUT`.  They differ in `given`, the event that is posted or handed
to the handler of the write event. -/
def writeHalf (given : Half) (c : UInt64) (inst : Bool) (revents : UInt32) (l : Loop Ω H) :
    Loop Ω H :=
  let wev : EventRef := ⟨c, .write⟩
  if revents &&& epollout ≠ 0 ∧ (l.world.event wev).active = true then
    -- the read handler may have closed the connection in the meantime
    if Stale l wev inst then
      l
    else
      let l := l.map (·.setReady wev)
      if posted then
        l.map (·.ngxPostEvent ⟨c, given⟩ .postedEvents)
      else
        l.call run (l.world.event wev).handler ⟨c, given⟩
  else
    l

namespace CppEpollHandler

/-- The check for errors: the events that are looked at from then on, and `c->error`. -/
def checkErrors (c : UInt64) (events : UInt32) (l : Loop Ω H) : UInt32 × Loop Ω H :=
  if events &&& (epollerr ||| epollhup) ≠ 0 then
    (if events &&& (epollin ||| epollout) = 0 then events ||| (epollin ||| epollout) else events,
      l.map (·.setError c))
  else
    (events, l)

/-- One round of the loop of `process_events_list`. -/
def processEvent (l : Loop Ω H) (ee : EpollEvent) : Loop Ω H :=
  let inst := tagOf ee.ptr
  let c := addressOf ee.ptr
  if Stale l ⟨c, .read⟩ inst then
    l
  else
    let r := checkErrors c ee.events l
    -- `ngx_post_event(rev, &ngx_posted_events)` and `wev->handler(rev)`
    writeHalf run posted .read c inst r.1 (readHalf run posted c r.1 r.2)

def processEventsList (batch : List EpollEvent) (w : World Ω H) : Loop Ω H :=
  batch.foldl (processEvent run posted) { world := w, calls := [] }

end CppEpollHandler

namespace Nginx

/-- One round of the loop of `ngx_epoll_process_events`. -/
def processEvent (l : Loop Ω H) (ee : EpollEvent) : Loop Ω H :=
  let inst := tagOf ee.ptr
  let c := addressOf ee.ptr
  if Stale l ⟨c, .read⟩ inst then
    l
  else
    let revents := reventsOf ee.events
    -- `ngx_post_event(wev, &ngx_posted_events)` and `wev->handler(wev)`
    writeHalf run posted .write c inst revents (readHalf run posted c revents l)

def processEvents (batch : List EpollEvent) (w : World Ω H) : Loop Ω H :=
  batch.foldl (processEvent run posted) { world := w, calls := [] }

end Nginx

end Source

/-! ## Equal but for `c->error` -/

namespace World

def eraseError (w : World Ω H) : World Ω H :=
  { w with connections := fun c => { w.connections c with error := false } }

def SameButError (w w' : World Ω H) : Prop := w.eraseError = w'.eraseError

theorem eraseError_event (w : World Ω H) (ev : EventRef) : w.eraseError.event ev = w.event ev := by
  rcases ev with ⟨c, half⟩
  cases half with
  | read => rfl
  | write => rfl

theorem eraseError_updateEvent (w : World Ω H) (ev : EventRef) (f : Event H → Event H) :
    (w.updateEvent ev f).eraseError = w.eraseError.updateEvent ev f := by
  rcases ev with ⟨c, half⟩
  simp only [updateEvent, eraseError, World.mk.injEq, and_true]
  funext d
  by_cases hd : d = c
  · subst hd
    cases half <;> simp [Connection.updateEvent]
  · simp [Function.update_of_ne hd]

theorem eraseError_insertTail (w : World Ω H) (q : Queue) (ev : EventRef) :
    (w.insertTail q ev).eraseError = w.eraseError.insertTail q ev := by
  cases q with
  | postedAcceptEvents => rfl
  | postedEvents => rfl

theorem eraseError_ngxPostEvent (w : World Ω H) (ev : EventRef) (q : Queue) :
    (w.ngxPostEvent ev q).eraseError = w.eraseError.ngxPostEvent ev q := by
  simp only [ngxPostEvent, eraseError_event]
  split
  · rfl
  · rw [eraseError_insertTail, eraseError_updateEvent]

theorem eraseError_setError (w : World Ω H) (c : UInt64) :
    (w.setError c).eraseError = w.eraseError := by
  simp only [setError, eraseError, World.mk.injEq, and_true]
  funext d
  by_cases hd : d = c
  · subst hd
    simp
  · simp [Function.update_of_ne hd]

namespace SameButError

variable {w w' : World Ω H}

theorem event (h : w.SameButError w') (ev : EventRef) : w.event ev = w'.event ev := by
  rw [← eraseError_event w, ← eraseError_event w', h]

theorem fd (h : w.SameButError w') (c : UInt64) :
    (w.connections c).fd = (w'.connections c).fd := by
  have heq := congrArg (fun v : World Ω H => (v.connections c).fd) (show w.eraseError = _ from h)
  exact heq

theorem postedAcceptEvents (h : w.SameButError w') :
    w.postedAcceptEvents = w'.postedAcceptEvents := by
  have heq := congrArg World.postedAcceptEvents (show w.eraseError = _ from h)
  exact heq

theorem postedEvents (h : w.SameButError w') : w.postedEvents = w'.postedEvents := by
  have heq := congrArg World.postedEvents (show w.eraseError = _ from h)
  exact heq

theorem updateEvent (h : w.SameButError w') (ev : EventRef) (f : Event H → Event H) :
    (w.updateEvent ev f).SameButError (w'.updateEvent ev f) := by
  rw [SameButError, eraseError_updateEvent, eraseError_updateEvent, h]

theorem ngxPostEvent (h : w.SameButError w') (ev : EventRef) (q : Queue) :
    (w.ngxPostEvent ev q).SameButError (w'.ngxPostEvent ev q) := by
  rw [SameButError, eraseError_ngxPostEvent, eraseError_ngxPostEvent, h]

theorem setError (h : w.SameButError w') (c : UInt64) : (w.setError c).SameButError w' := by
  rw [SameButError, eraseError_setError, h]

end SameButError

end World

/-! ## Loops that agree -/

/-- The handler and the event it was given. -/
def Call.shape (c : Call Ω H) : H × EventRef := (c.handler, c.event)

/-- The two loops have run the same handlers on the same events, and left the same world but for
`c->error`. -/
structure Loop.Agrees (l l' : Loop Ω H) : Prop where
  world : l.world.SameButError l'.world
  calls : l.calls.map Call.shape = l'.calls.map Call.shape

/-- The same handlers in the same order with the same arguments, the same events in the same posted
queues in the same order, and `ready` and `pending_eof` on the same events. -/
structure Loop.SameEffects (l l' : Loop Ω H) : Prop where
  calls : l.calls.map Call.shape = l'.calls.map Call.shape
  postedAcceptEvents : l.world.postedAcceptEvents = l'.world.postedAcceptEvents
  postedEvents : l.world.postedEvents = l'.world.postedEvents
  ready : ∀ ev, (l.world.event ev).ready = (l'.world.event ev).ready
  pendingEof : ∀ ev, (l.world.event ev).pendingEof = (l'.world.event ev).pendingEof

theorem Loop.Agrees.sameEffects {l l' : Loop Ω H} (h : l.Agrees l') : l.SameEffects l' := by
  refine ⟨h.calls, ?_, ?_, ?_, ?_⟩
  · exact h.world.postedAcceptEvents
  · exact h.world.postedEvents
  · intro ev
    rw [h.world.event ev]
  · intro ev
    rw [h.world.event ev]

namespace Loop.Agrees

variable {l l' : Loop Ω H}

theorem refl (l : Loop Ω H) : l.Agrees l := ⟨rfl, rfl⟩

theorem map_update (h : l.Agrees l') (ev : EventRef) (f : Event H → Event H) :
    (l.map (·.updateEvent ev f)).Agrees (l'.map (·.updateEvent ev f)) :=
  ⟨h.world.updateEvent ev f, h.calls⟩

theorem map_setReady (h : l.Agrees l') (ev : EventRef) :
    (l.map (·.setReady ev)).Agrees (l'.map (·.setReady ev)) :=
  h.map_update ev _

theorem map_markReadable (h : l.Agrees l') (ev : EventRef) (revents : UInt32) :
    (l.map (markReadable ev revents)).Agrees (l'.map (markReadable ev revents)) := by
  refine ⟨?_, h.calls⟩
  simp only [Loop.map_world, markReadable]
  split
  · exact (h.world.updateEvent ev _).updateEvent ev _
  · exact h.world.updateEvent ev _

theorem map_post (h : l.Agrees l') (ev : EventRef) (q : Queue) :
    (l.map (·.ngxPostEvent ev q)).Agrees (l'.map (·.ngxPostEvent ev q)) :=
  ⟨h.world.ngxPostEvent ev q, h.calls⟩

theorem map_setError (h : l.Agrees l') (c : UInt64) : (l.map (·.setError c)).Agrees l' :=
  ⟨h.world.setError c, h.calls⟩

theorem stale_iff (h : l.Agrees l') (ev : EventRef) (inst : Bool) :
    Stale l ev inst ↔ Stale l' ev inst := by
  rw [Stale, Stale, h.world.fd, h.world.event]

variable {run : H → EventRef → World Ω H → World Ω H}

theorem call (hrun : ∀ h ev w w', w.SameButError w' → (run h ev w).SameButError (run h ev w'))
    (h : l.Agrees l') (f : H) (ev : EventRef) : (l.call run f ev).Agrees (l'.call run f ev) := by
  refine ⟨hrun f ev _ _ h.world, ?_⟩
  simp only [Loop.call, List.map_append, h.calls]
  rfl

end Loop.Agrees

end Epoll
end CppPractice
