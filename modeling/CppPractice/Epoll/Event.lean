import Mathlib.Data.UInt
import Mathlib.Logic.Function.Basic

/-!
# Event — connections, their events, and the posted queues

The part of nginx's connection table that the event loop looks at.  A connection has a read and a
write event; a pointer to an event is the connection's address with the half it is.  The kernel gives
back, with each `epoll_event`, the pointer it was registered with: the address of the connection,
whose lowest bit is taken by the one-bit `instance` of the event.

`H` is the type of the event handlers and `Ω` whatever else they may read and change.
-/

namespace CppPractice
namespace Epoll

/-! ## Flags -/

def epollin : UInt32 := 0x001
def epollout : UInt32 := 0x004
def epollerr : UInt32 := 0x008
def epollhup : UInt32 := 0x010
def epollrdhup : UInt32 := 0x2000
def epollet : UInt32 := 0x80000000

/-- `NGX_OK` and `NGX_ERROR`. -/
inductive NgxInt
  | ngxOk
  | ngxError
  deriving DecidableEq, Repr

/-! ## The table -/

/-- `ngx_event_t`; `inst` is the bit `instance`. -/
structure Event (H : Type) where
  active : Bool
  inst : Bool
  accept : Bool
  ready : Bool
  pendingEof : Bool
  posted : Bool
  handler : H
  deriving DecidableEq, Repr

/-- `ngx_connection_t` -/
structure Connection (H : Type) where
  fd : Int
  error : Bool
  read : Event H
  write : Event H
  deriving DecidableEq, Repr

inductive Half
  | read
  | write
  deriving DecidableEq, Repr

/-- `ngx_event_t *` -/
structure EventRef where
  conn : UInt64
  half : Half
  deriving DecidableEq, Repr

/-- Which of the two posted queues. -/
inductive Queue
  | postedAcceptEvents
  | postedEvents
  deriving DecidableEq, Repr

structure World (Ω H : Type) where
  connections : UInt64 → Connection H
  postedAcceptEvents : List EventRef
  postedEvents : List EventRef
  rest : Ω

/-- `epoll_event` -/
structure EpollEvent where
  events : UInt32
  ptr : UInt64
  deriving DecidableEq, Repr

variable {Ω H : Type}

def Connection.event (c : Connection H) : Half → Event H
  | .read => c.read
  | .write => c.write

def Connection.updateEvent (c : Connection H) (half : Half) (f : Event H → Event H) :
    Connection H :=
  match half with
  | .read => { c with read := f c.read }
  | .write => { c with write := f c.write }

namespace World

def event (w : World Ω H) (ev : EventRef) : Event H := (w.connections ev.conn).event ev.half

def updateEvent (w : World Ω H) (ev : EventRef) (f : Event H → Event H) : World Ω H :=
  { w with connections :=
      Function.update w.connections ev.conn ((w.connections ev.conn).updateEvent ev.half f) }

/-- `ngx_queue_insert_tail(q, &ev->queue)` -/
def insertTail (w : World Ω H) (q : Queue) (ev : EventRef) : World Ω H :=
  match q with
  | .postedAcceptEvents => { w with postedAcceptEvents := w.postedAcceptEvents ++ [ev] }
  | .postedEvents => { w with postedEvents := w.postedEvents ++ [ev] }

/-- `ngx_post_event(ev, q)` -/
def ngxPostEvent (w : World Ω H) (ev : EventRef) (q : Queue) : World Ω H :=
  if (w.event ev).posted then
    w
  else
    (w.updateEvent ev fun e => { e with posted := true }).insertTail q ev

/-- `ngx_delete_posted_event(ev)` -/
def ngxDeletePostedEvent (w : World Ω H) (ev : EventRef) : World Ω H :=
  let w := w.updateEvent ev fun e => { e with posted := false }
  { w with
    postedAcceptEvents := w.postedAcceptEvents.erase ev
    postedEvents := w.postedEvents.erase ev }

def setReady (w : World Ω H) (ev : EventRef) : World Ω H :=
  w.updateEvent ev fun e => { e with ready := true }

def setPendingEof (w : World Ω H) (ev : EventRef) : World Ω H :=
  w.updateEvent ev fun e => { e with pendingEof := true }

/-- `c->error = true` -/
def setError (w : World Ω H) (c : UInt64) : World Ω H :=
  { w with connections := Function.update w.connections c { w.connections c with error := true } }

theorem event_updateEvent (w : World Ω H) (ev ev' : EventRef) (f : Event H → Event H) :
    (w.updateEvent ev f).event ev' = if ev' = ev then f (w.event ev') else w.event ev' := by
  rcases ev with ⟨c, half⟩
  rcases ev' with ⟨d, half'⟩
  simp only [event, updateEvent, EventRef.mk.injEq]
  by_cases hd : d = c
  · subst hd
    cases half <;> cases half' <;> simp [Connection.updateEvent, Connection.event]
  · rw [Function.update_of_ne hd, if_neg fun h => hd h.1]

theorem fd_updateEvent (w : World Ω H) (ev : EventRef) (f : Event H → Event H) (c : UInt64) :
    ((w.updateEvent ev f).connections c).fd = (w.connections c).fd := by
  rcases ev with ⟨d, half⟩
  simp only [updateEvent]
  by_cases hc : c = d
  · subst hc
    cases half <;> simp [Connection.updateEvent]
  · rw [Function.update_of_ne hc]

theorem event_setError (w : World Ω H) (c : UInt64) (ev : EventRef) :
    (w.setError c).event ev = w.event ev := by
  rcases ev with ⟨d, half⟩
  simp only [event, setError]
  by_cases hd : d = c
  · subst hd
    cases half <;> simp [Connection.event]
  · rw [Function.update_of_ne hd]

theorem fd_setError (w : World Ω H) (c d : UInt64) :
    ((w.setError c).connections d).fd = (w.connections d).fd := by
  simp only [setError]
  by_cases hd : d = c
  · subst hd
    simp
  · rw [Function.update_of_ne hd]

theorem posted_setReady (w : World Ω H) (ev ev' : EventRef) :
    ((w.setReady ev).event ev').posted = (w.event ev').posted := by
  rw [setReady, event_updateEvent]
  split
  · rfl
  · rfl

theorem ngxPostEvent_of_posted {w : World Ω H} {ev : EventRef} (h : (w.event ev).posted = true)
    (q : Queue) : w.ngxPostEvent ev q = w :=
  if_pos h

theorem count_ngxPostEvent_self (w : World Ω H) (ev : EventRef) :
    (w.ngxPostEvent ev .postedEvents).postedEvents.count ev =
      w.postedEvents.count ev + if (w.event ev).posted then 0 else 1 := by
  unfold ngxPostEvent
  split
  · rfl
  · simp only [insertTail, updateEvent, List.count_append, List.count_singleton_self]

/-- Posting an event moves no other event. -/
theorem count_ngxPostEvent_of_ne {ev ev' : EventRef} (h : ev' ≠ ev) (w : World Ω H) (q : Queue) :
    (w.ngxPostEvent ev' q).postedEvents.count ev = w.postedEvents.count ev := by
  unfold ngxPostEvent
  split
  · rfl
  · cases q with
    | postedAcceptEvents => rfl
    | postedEvents =>
        simp only [insertTail, updateEvent, List.count_append, List.count_singleton]
        simp [h]

end World

/-! ## The pointer in an `epoll_event` -/

/-- `(uintptr_t) c & 1` -/
def tagOf (ptr : UInt64) : Bool := ptr &&& 1 = 1

/-- `(uintptr_t) c & (uintptr_t) ~1` -/
def addressOf (ptr : UInt64) : UInt64 := ptr &&& ~~~1

/-- `(uintptr_t) c | ev->instance` -/
def tagged (c : UInt64) (inst : Bool) : UInt64 := c ||| if inst then 1 else 0

theorem tagOf_eq_getLsbD (ptr : UInt64) : tagOf ptr = ptr.toBitVec.getLsbD 0 := by
  have hbits : (ptr &&& 1 = 1) ↔ ptr.toBitVec.getLsbD 0 = true := by
    rw [← UInt64.toBitVec_inj]
    constructor
    · intro h
      have h0 := congrArg (fun v => BitVec.getLsbD v 0) h
      simpa using h0
    · intro h
      -- Masked with 1, every bit but the lowest is clear on both sides.
      apply BitVec.eq_of_getLsbD_eq
      intro i hi
      by_cases hzero : i = 0
      · subst hzero
        simpa using h
      · simp [hzero]
  rw [tagOf, Bool.eq_iff_iff, decide_eq_true_iff, hbits]

theorem tagOf_tagged {c : UInt64} (h : tagOf c = false) (inst : Bool) :
    tagOf (tagged c inst) = inst := by
  rw [tagOf_eq_getLsbD] at h ⊢
  cases inst with
  | false => simpa [tagged] using h
  | true => simp [tagged]

theorem addressOf_getLsbD (ptr : UInt64) {i : Nat} (hi : i < 64) :
    (addressOf ptr).toBitVec.getLsbD i = (ptr.toBitVec.getLsbD i && decide (i ≠ 0)) := by
  have hone : (1 : UInt64).toBitVec.getLsbD i = decide (i = 0) := by simp
  simp only [addressOf, UInt64.toBitVec_and, UInt64.toBitVec_not, BitVec.getLsbD_and,
    BitVec.getLsbD_not, hi, decide_true, Bool.true_and, hone]
  simp

theorem addressOf_tagged {c : UInt64} (h : tagOf c = false) (inst : Bool) :
    addressOf (tagged c inst) = c := by
  rw [tagOf_eq_getLsbD] at h
  rw [← UInt64.toBitVec_inj]
  -- Bit by bit: the lowest one is clear in an address, and the tag touches no other.
  apply BitVec.eq_of_getLsbD_eq
  intro i hi
  rw [addressOf_getLsbD _ hi]
  by_cases hzero : i = 0
  · subst hzero
    rw [h]
    simp
  · cases inst <;> simp [tagged, hzero]

/-! ## The loop -/

/-- A handler run by the loop, with the event it was given and the world it found. -/
structure Call (Ω H : Type) where
  handler : H
  event : EventRef
  world : World Ω H

structure Loop (Ω H : Type) where
  world : World Ω H
  calls : List (Call Ω H)

def Loop.map (l : Loop Ω H) (f : World Ω H → World Ω H) : Loop Ω H := { l with world := f l.world }

@[simp] theorem Loop.map_world (l : Loop Ω H) (f : World Ω H → World Ω H) :
    (l.map f).world = f l.world := rfl

@[simp] theorem Loop.map_calls (l : Loop Ω H) (f : World Ω H → World Ω H) :
    (l.map f).calls = l.calls := rfl

theorem Loop.map_post_of_posted {l : Loop Ω H} {ev : EventRef} (h : (l.world.event ev).posted = true)
    (q : Queue) : l.map (·.ngxPostEvent ev q) = l := by
  simp only [Loop.map, World.ngxPostEvent_of_posted h]

/-- Run the handler `h` on the event `ev`; `run` is what handlers do. -/
def Loop.call (run : H → EventRef → World Ω H → World Ω H) (l : Loop Ω H) (h : H) (ev : EventRef) :
    Loop Ω H :=
  { world := run h ev l.world
    calls := l.calls ++ [{ handler := h, event := ev, world := l.world }] }

@[simp] theorem Loop.call_world (run : H → EventRef → World Ω H → World Ω H) (l : Loop Ω H) (h : H)
    (ev : EventRef) : (l.call run h ev).world = run h ev l.world := rfl

@[simp] theorem Loop.call_calls (run : H → EventRef → World Ω H → World Ω H) (l : Loop Ω H) (h : H)
    (ev : EventRef) : (l.call run h ev).calls =
      l.calls ++ [{ handler := h, event := ev, world := l.world }] := rfl

end Epoll
end CppPractice
