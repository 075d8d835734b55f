import CppPractice.Epoll.Event
import CppPractice.Lib.Machine
import Mathlib.Data.Set.Function

/-!
# InterestSet — the kernel's interest set and the active flags

`add`, `del`, `add_conn` and `del_conn` of `CppEpollHandler`.  Each reads the active flags to find out
what the kernel has, makes one call of `epoll_ctl`, and sets the flags if the call succeeds.
-/

namespace CppPractice
namespace Epoll

def ngxReadEvent : UInt32 := epollin ||| epollrdhup
def ngxWriteEvent : UInt32 := epollout
def ngxCloseEvent : UInt64 := 1

/-! ## The kernel -/

inductive EpollOp
  | add
  | mod
  | del
  deriving DecidableEq, Repr

/-- What the kernel has for each descriptor. -/
abbrev Interest := Int → Option EpollEvent

/-- `epoll_ctl(ep, op, fd, &ee)`: `ADD` of a descriptor that is registered fails, so do `MOD` and `DEL`
of one that is not, and so does any call when the kernel cannot serve it. -/
def epollCtl (k : Interest) (fails : Bool) (op : EpollOp) (fd : Int) (ee : EpollEvent) :
    Option Interest :=
  if fails then
    none
  else
    match op, k fd with
    | .add, none => some (Function.update k fd (some ee))
    | .mod, some _ => some (Function.update k fd (some ee))
    | .del, some _ => some (Function.update k fd none)
    | _, _ => none

/-- `close(fd)` -/
def closeFd {H : Type} (fd : Int) (w : World Interest H) : World Interest H :=
  { w with rest := Function.update w.rest fd none }

/-- A call that succeeds says what the kernel has from then on. -/
theorem epollCtl_some {k k' : Interest} {fails : Bool} {op : EpollOp} {fd : Int} {ee : EpollEvent}
    (h : epollCtl k fails op fd ee = some k') :
    k' = Function.update k fd (if op = .del then none else some ee) := by
  unfold epollCtl at h
  cases fails with
  | true => cases h
  | false =>
      cases op with
      | add =>
          cases hfd : k fd with
          | none =>
              simp only [hfd, Bool.false_eq_true, if_false, Option.some.injEq] at h
              exact h.symm
          | some old => simp [hfd] at h
      | mod =>
          cases hfd : k fd with
          | none => simp [hfd] at h
          | some old =>
              simp only [hfd, Bool.false_eq_true, if_false, Option.some.injEq] at h
              exact h.symm
      | del =>
          cases hfd : k fd with
          | none => simp [hfd] at h
          | some old =>
              simp only [hfd, Bool.false_eq_true, if_false, Option.some.injEq] at h
              exact h.symm

/-! ## The four actions -/

variable {H : Type}

namespace CppEpollHandler

/-- `ev->active = active` -/
def setActive (ev : EventRef) (active : Bool) (w : World Interest H) : World Interest H :=
  w.updateEvent ev fun e => { e with active := active }

/-- `c->read->active = active; c->write->active = active;` -/
def setBothActive (c : UInt64) (active : Bool) (w : World Interest H) : World Interest H :=
  let conn := w.connections c
  let read := { conn.read with active := active }
  let write := { conn.write with active := active }
  { w with connections := Function.update w.connections c { conn with read := read, write := write } }

/-- The other event of the connection, which decides between `ADD` and `MOD`. -/
def otherEvent (c : Connection H) (event : UInt32) : Event H :=
  if event = ngxReadEvent then c.write else c.read

/-- What the kernel is to go on reporting for the other event. -/
def prevOf (event : UInt32) : UInt32 :=
  if event = ngxReadEvent then epollout else epollin ||| epollrdhup

def add (fails : Bool) (ev : EventRef) (event : UInt32) (flags : UInt64) (w : World Interest H) :
    NgxInt × World Interest H :=
  let c := w.connections ev.conn
  let e := otherEvent c event
  let op := if e.active then EpollOp.mod else EpollOp.add
  let events := if e.active then event ||| prevOf event else event
  let ee : EpollEvent := ⟨events ||| flags.toUInt32, tagged ev.conn (w.event ev).inst⟩
  match epollCtl w.rest fails op c.fd ee with
  -- `epoll_ctl(…) == -1`, before `ev->active` is touched
  | none => (.ngxError, w)
  | some k => (.ngxOk, { setActive ev true w with rest := k })

def del (fails : Bool) (ev : EventRef) (event : UInt32) (flags : UInt64) (w : World Interest H) :
    NgxInt × World Interest H :=
  if flags &&& ngxCloseEvent ≠ 0 then
    (.ngxOk, setActive ev false w)
  else
    let c := w.connections ev.conn
    let e := otherEvent c event
    -- the other event stays in the set, or the descriptor leaves it
    let op := if e.active then EpollOp.mod else EpollOp.del
    let ee : EpollEvent :=
      if e.active then
        ⟨prevOf event ||| flags.toUInt32, tagged ev.conn (w.event ev).inst⟩
      else
        ⟨0, 0⟩
    match epollCtl w.rest fails op c.fd ee with
    | none => (.ngxError, w)
    | some k => (.ngxOk, { setActive ev false w with rest := k })

def addConn (fails : Bool) (c : UInt64) (w : World Interest H) : NgxInt × World Interest H :=
  let ee : EpollEvent :=
    ⟨epollin ||| epollout ||| epollet ||| epollrdhup, tagged c (w.connections c).read.inst⟩
  match epollCtl w.rest fails .add (w.connections c).fd ee with
  | none => (.ngxError, w)
  | some k => (.ngxOk, { setBothActive c true w with rest := k })

def delConn (fails : Bool) (c : UInt64) (flags : UInt64) (w : World Interest H) :
    NgxInt × World Interest H :=
  if flags &&& ngxCloseEvent ≠ 0 then
    (.ngxOk, setBothActive c false w)
  else
    match epollCtl w.rest fails .del (w.connections c).fd ⟨0, 0⟩ with
    | none => (.ngxError, w)
    | some k => (.ngxOk, { setBothActive c false w with rest := k })

end CppEpollHandler

/-! ## Closing -/

open CppEpollHandler

/-- `del_conn(c, NGX_CLOSE_EVENT)`, then `close(c->fd)`. -/
def closeByConn (c : UInt64) (w : World Interest H) : World Interest H :=
  closeFd (w.connections c).fd (delConn false c ngxCloseEvent w).2

/-- `del(ev, event, NGX_CLOSE_EVENT)` if the event is active. -/
def dropEvent (ev : EventRef) (event : UInt32) (w : World Interest H) : World Interest H :=
  if (w.event ev).active then (del false ev event ngxCloseEvent w).2 else w

/-- `del` with `NGX_CLOSE_EVENT` on each active event, then `close(c->fd)`. -/
def closeByEvents (c : UInt64) (w : World Interest H) : World Interest H :=
  closeFd (w.connections c).fd
    (dropEvent ⟨c, .write⟩ ngxWriteEvent (dropEvent ⟨c, .read⟩ ngxReadEvent w))

/-- Dropping an event that is not active changes nothing, and one that is active sets its flag. -/
theorem dropEvent_eq (ev : EventRef) (event : UInt32) (w : World Interest H) :
    dropEvent ev event w = setActive ev false w := by
  unfold dropEvent
  cases hactive : (w.event ev).active with
  | true => rfl
  | false =>
      -- Clearing a flag that is clear gives the same connection back.
      rcases ev with ⟨c, half⟩
      rw [if_neg (by simp)]
      have hsame : (w.connections c).updateEvent half (fun e => { e with active := false }) =
          w.connections c := by
        cases half with
        | read =>
            have hread : { (w.connections c).read with active := false } = (w.connections c).read := by
              rw [← show (w.connections c).read.active = false from hactive]
            simp only [Connection.updateEvent, hread]
        | write =>
            have hwrite : { (w.connections c).write with active := false } =
                (w.connections c).write := by
              rw [← show (w.connections c).write.active = false from hactive]
            simp only [Connection.updateEvent, hwrite]
      simp only [setActive, World.updateEvent, hsame, Function.update_eq_self]

/-- The two ways of closing are the same. -/
theorem closeByEvents_eq (c : UInt64) (w : World Interest H) :
    closeByEvents c w = closeByConn c w := by
  have hboth : setActive ⟨c, .write⟩ false (setActive ⟨c, .read⟩ false w) =
      setBothActive c false w := by
    simp [setActive, setBothActive, World.updateEvent, Connection.updateEvent]
  unfold closeByEvents
  rw [dropEvent_eq, dropEvent_eq, hboth]
  rfl

/-! ## Runs -/

/-- A call of one of the four actions, with whether the kernel refuses it, or the closing of a
connection. -/
inductive Action
  | add (fails : Bool) (ev : EventRef) (flags : UInt64)
  | del (fails : Bool) (ev : EventRef) (flags : UInt64)
  | addConn (fails : Bool) (c : UInt64)
  | delConn (fails : Bool) (c : UInt64) (flags : UInt64)
  | closeByConn (c : UInt64)
  | closeByEvents (c : UInt64)

/-- The constant that callers pass with an event. -/
def Half.ngxEvent : Half → UInt32
  | .read => ngxReadEvent
  | .write => ngxWriteEvent

namespace Action

/-- What the call returns and leaves; closing gives no error. -/
def run (w : World Interest H) : Action → NgxInt × World Interest H
  | .add fails ev flags => CppEpollHandler.add fails ev ev.half.ngxEvent flags w
  | .del fails ev flags => CppEpollHandler.del fails ev ev.half.ngxEvent flags w
  | .addConn fails c => CppEpollHandler.addConn fails c w
  | .delConn fails c flags => CppEpollHandler.delConn fails c flags w
  | .closeByConn c => (.ngxOk, Epoll.closeByConn c w)
  | .closeByEvents c => (.ngxOk, Epoll.closeByEvents c w)

/-- The connection that the call is about. -/
def conn : Action → UInt64
  | .add _ ev _ => ev.conn
  | .del _ ev _ => ev.conn
  | .addConn _ c => c
  | .delConn _ c _ => c
  | .closeByConn c => c
  | .closeByEvents c => c

/-- The flags are 0 or `EPOLLET`. -/
def PlainFlags : Action → Prop
  | .add _ _ flags => flags = 0 ∨ flags = epollet.toUInt64
  | .del _ _ flags => flags = 0 ∨ flags = epollet.toUInt64
  | .delConn _ _ flags => flags = 0 ∨ flags = epollet.toUInt64
  | _ => True

end Action

/-- The interest entry of a connection is what its active flags say. -/
structure Mirrored (c : Connection H) (entry : Option EpollEvent) : Prop where
  registered : entry.isSome ↔ c.read.active = true ∨ c.write.active = true
  reads : ∀ ee, entry = some ee → ee.events &&& ngxReadEvent =
    if c.read.active then ngxReadEvent else 0
  writes : ∀ ee, entry = some ee → ee.events &&& ngxWriteEvent =
    if c.write.active then ngxWriteEvent else 0

/-- Every connection of `conns` has its own descriptor, and the kernel mirrors its flags. -/
structure Mirrors (conns : Set UInt64) (w : World Interest H) : Prop where
  distinct : conns.InjOn fun c => (w.connections c).fd
  mirrored : ∀ c ∈ conns, Mirrored (w.connections c) (w.rest (w.connections c).fd)

/-- No connection of `conns` is registered or active, and their descriptors are distinct. -/
structure Untouched (conns : Set UInt64) (w : World Interest H) : Prop where
  distinct : conns.InjOn fun c => (w.connections c).fd
  inactive : ∀ c ∈ conns, ∀ half, (w.event ⟨c, half⟩).active = false
  unregistered : ∀ c ∈ conns, w.rest (w.connections c).fd = none

/-- Any calls on the connections of `conns`, in any order. -/
def interestMachine (H : Type) (conns : Set UInt64) : Machine (World Interest H) Action where
  init := Untouched conns
  step w a w' := a.conn ∈ conns ∧ a.PlainFlags ∧ (a.run w).2 = w'

/-- A change of one connection and of the entry of its descriptor. -/
def World.put (w : World Interest H) (c : UInt64) (conn : Connection H)
    (entry : Option EpollEvent) : World Interest H :=
  { w with
    connections := Function.update w.connections c conn
    rest := Function.update w.rest (w.connections c).fd entry }

theorem Mirrors.put {conns : Set UInt64} {w : World Interest H} (h : Mirrors conns w) {c : UInt64}
    (hc : c ∈ conns) {conn : Connection H} {entry : Option EpollEvent}
    (hfd : conn.fd = (w.connections c).fd) (hmirrored : Mirrored conn entry) :
    Mirrors conns (w.put c conn entry) := by
  have hfds : ∀ d, ((w.put c conn entry).connections d).fd = (w.connections d).fd := by
    intro d
    by_cases hd : d = c
    · subst hd
      simp [World.put, hfd]
    · simp [World.put, Function.update_of_ne hd]
  constructor
  · intro d hd e he hde
    simp only [hfds] at hde
    exact h.distinct hd he hde
  · intro d hd
    rw [hfds]
    by_cases hdc : d = c
    · subst hdc
      simpa [World.put] using hmirrored
    · -- another connection has another descriptor
      have hne : (w.connections d).fd ≠ (w.connections c).fd := fun heq =>
        hdc (h.distinct hd hc heq)
      simpa [World.put, Function.update_of_ne hdc, Function.update_of_ne hne] using h.mirrored d hd

/-! ## One call -/

/-- The mask that two active flags stand for. -/
def maskOf (read write : Bool) : UInt32 :=
  (if read then ngxReadEvent else 0) ||| (if write then ngxWriteEvent else 0)

theorem maskOf_bits (read write : Bool) {flags : UInt64}
    (hflags : flags = 0 ∨ flags = epollet.toUInt64) :
    (maskOf read write ||| flags.toUInt32) &&& ngxReadEvent = (if read then ngxReadEvent else 0) ∧
      (maskOf read write ||| flags.toUInt32) &&& ngxWriteEvent =
        if write then ngxWriteEvent else 0 := by
  -- Neither 0 nor `EPOLLET` has a bit in common with the two masks.
  rcases hflags with rfl | rfl
  · cases read <;> cases write <;> decide
  · cases read <;> cases write <;> decide

theorem mirrored_maskOf {c : Connection H} (hactive : c.read.active = true ∨ c.write.active = true)
    {flags : UInt64} (hflags : flags = 0 ∨ flags = epollet.toUInt64) (ptr : UInt64) :
    Mirrored c (some ⟨maskOf c.read.active c.write.active ||| flags.toUInt32, ptr⟩) where
  registered := by simp [hactive]
  reads := by
    rintro ee ⟨⟩
    exact (maskOf_bits _ _ hflags).1
  writes := by
    rintro ee ⟨⟩
    exact (maskOf_bits _ _ hflags).2

theorem mirrored_none {c : Connection H} (hread : c.read.active = false)
    (hwrite : c.write.active = false) : Mirrored c none where
  registered := by simp [hread, hwrite]
  reads := by simp
  writes := by simp

/-- What `add` asks for is the mask of the flags it will leave. -/
theorem add_mask (c : Connection H) (half : Half) :
    (if (otherEvent c half.ngxEvent).active then half.ngxEvent ||| prevOf half.ngxEvent
      else half.ngxEvent) =
      maskOf (c.updateEvent half fun e => { e with active := true }).read.active
        (c.updateEvent half fun e => { e with active := true }).write.active := by
  cases half with
  | read =>
      change (if c.write.active then _ else _) = maskOf true c.write.active
      cases c.write.active <;> decide
  | write =>
      change (if c.read.active then _ else _) = maskOf c.read.active true
      cases c.read.active <;> decide

/-- What `del` keeps is the mask of the flags it will leave. -/
theorem del_mask {c : Connection H} {half : Half}
    (hother : (otherEvent c half.ngxEvent).active = true) :
    prevOf half.ngxEvent =
      maskOf (c.updateEvent half fun e => { e with active := false }).read.active
        (c.updateEvent half fun e => { e with active := false }).write.active := by
  cases half with
  | read =>
      have hwrite : c.write.active = true := hother
      change epollout = maskOf false c.write.active
      rw [hwrite]
      decide
  | write =>
      have hread : c.read.active = true := hother
      change epollin ||| epollrdhup = maskOf c.read.active false
      rw [hread]
      decide

/-- The call fails and changes nothing, or it changes the connection and its entry and leaves them in
accord. -/
def Accords (w : World Interest H) (c : UInt64) (r : NgxInt × World Interest H) : Prop :=
  r = (.ngxError, w) ∨ ∃ conn entry, r = (.ngxOk, w.put c conn entry) ∧
    conn.fd = (w.connections c).fd ∧ Mirrored conn entry

theorem Accords.mirrors {conns : Set UInt64} {w : World Interest H} {c : UInt64}
    {r : NgxInt × World Interest H} (h : Accords w c r) (hc : c ∈ conns) (hw : Mirrors conns w) :
    Mirrors conns r.2 := by
  rcases h with rfl | ⟨conn, entry, rfl, hfd, hmirrored⟩
  · exact hw
  · exact hw.put hc hfd hmirrored

theorem Accords.error {w w' : World Interest H} {c : UInt64}
    (h : Accords w c (.ngxError, w')) : w' = w := by
  rcases h with h | ⟨conn, entry, h, -⟩
  · exact (Prod.mk.inj h).2
  · cases (Prod.mk.inj h).1

theorem updateEvent_fd (c : Connection H) (half : Half) (f : Event H → Event H) :
    (c.updateEvent half f).fd = c.fd := by
  cases half with
  | read => rfl
  | write => rfl

theorem add_accords (fails : Bool) (ev : EventRef) {flags : UInt64}
    (hflags : flags = 0 ∨ flags = epollet.toUInt64) (w : World Interest H) :
    Accords w ev.conn (add fails ev ev.half.ngxEvent flags w) := by
  unfold add
  dsimp only
  rw [add_mask]
  split
  · exact Or.inl rfl
  · rename_i k hctl
    have hk := epollCtl_some hctl
    rw [if_neg (by split <;> simp)] at hk
    refine Or.inr ⟨_, _, congrArg (Prod.mk NgxInt.ngxOk) (congrArg (World.mk _ _ _) hk),
      updateEvent_fd _ _ _, mirrored_maskOf ?_ hflags _⟩
    cases ev.half with
    | read => exact Or.inl rfl
    | write => exact Or.inr rfl

theorem plain_not_close {flags : UInt64} (hflags : flags = 0 ∨ flags = epollet.toUInt64) :
    ¬ flags &&& ngxCloseEvent ≠ 0 := by
  rcases hflags with rfl | rfl
  · decide
  · decide

theorem del_accords (fails : Bool) (ev : EventRef) {flags : UInt64}
    (hflags : flags = 0 ∨ flags = epollet.toUInt64) (w : World Interest H) :
    Accords w ev.conn (del fails ev ev.half.ngxEvent flags w) := by
  unfold del
  rw [if_neg (plain_not_close hflags)]
  dsimp only
  cases hother : (otherEvent (w.connections ev.conn) ev.half.ngxEvent).active with
  | true =>
      -- `MOD` to what the other event needs
      rw [del_mask hother]
      split
      · exact Or.inl rfl
      · rename_i k hctl
        have hk := epollCtl_some hctl
        simp only [if_true, reduceCtorEq, if_false] at hk
        refine Or.inr ⟨_, _, congrArg (Prod.mk NgxInt.ngxOk) (congrArg (World.mk _ _ _) hk),
          updateEvent_fd _ _ _, mirrored_maskOf ?_ hflags _⟩
        revert hother
        cases ev.half with
        | read => exact Or.inr
        | write => exact Or.inl
  | false =>
      -- `DEL`: no event is active from here on
      split
      · exact Or.inl rfl
      · rename_i k hctl
        have hk := epollCtl_some hctl
        simp only [Bool.false_eq_true, if_false, if_true] at hk
        refine Or.inr ⟨_, _, congrArg (Prod.mk NgxInt.ngxOk) (congrArg (World.mk _ _ _) hk),
          updateEvent_fd _ _ _, mirrored_none ?_ ?_⟩
        · revert hother
          cases ev.half with
          | read => exact fun _ => rfl
          | write => exact id
        · revert hother
          cases ev.half with
          | read => exact id
          | write => exact fun _ => rfl

theorem addConn_accords (fails : Bool) (c : UInt64) (w : World Interest H) :
    Accords w c (addConn fails c w) := by
  unfold addConn
  dsimp only
  split
  · exact Or.inl rfl
  · rename_i k hctl
    have hk := epollCtl_some hctl
    rw [if_neg (by simp)] at hk
    have hmask : epollin ||| epollout ||| epollet ||| epollrdhup =
        maskOf true true ||| epollet.toUInt64.toUInt32 := by decide
    rw [hmask] at hk
    exact Or.inr ⟨_, _, congrArg (Prod.mk NgxInt.ngxOk) (congrArg (World.mk _ _ _) hk), rfl,
      mirrored_maskOf (Or.inl rfl) (Or.inr rfl) _⟩

theorem delConn_accords (fails : Bool) (c : UInt64) {flags : UInt64}
    (hflags : flags = 0 ∨ flags = epollet.toUInt64) (w : World Interest H) :
    Accords w c (delConn fails c flags w) := by
  unfold delConn
  rw [if_neg (plain_not_close hflags)]
  split
  · exact Or.inl rfl
  · rename_i k hctl
    have hk := epollCtl_some hctl
    rw [if_pos rfl] at hk
    exact Or.inr ⟨_, _, congrArg (Prod.mk NgxInt.ngxOk) (congrArg (World.mk _ _ _) hk), rfl,
      mirrored_none rfl rfl⟩

theorem closeByConn_accords (c : UInt64) (w : World Interest H) :
    Accords w c (.ngxOk, closeByConn c w) :=
  Or.inr ⟨_, none, rfl, rfl, mirrored_none rfl rfl⟩

/-- What one call does. -/
theorem Action.accords {a : Action} (h : a.PlainFlags) (w : World Interest H) :
    Accords w a.conn (a.run w) := by
  cases a with
  | add fails ev flags => exact add_accords fails ev h w
  | del fails ev flags => exact del_accords fails ev h w
  | addConn fails c => exact addConn_accords fails c w
  | delConn fails c flags => exact delConn_accords fails c h w
  | closeByConn c => exact closeByConn_accords c w
  | closeByEvents c =>
      -- The other way of closing ends in the same world.
      have h := closeByConn_accords c w
      rw [← closeByEvents_eq] at h
      exact h

/-! ## Runs of calls -/

theorem Untouched.mirrors {conns : Set UInt64} {w : World Interest H} (h : Untouched conns w) :
    Mirrors conns w := by
  refine ⟨h.distinct, ?_⟩
  intro c hc
  rw [h.unregistered c hc]
  exact mirrored_none (h.inactive c hc .read) (h.inactive c hc .write)

theorem mirrors_invariant (H : Type) (conns : Set UInt64) :
    (interestMachine H conns).Invariant (Mirrors conns) := by
  refine ⟨fun _ hinit => Untouched.mirrors hinit, ?_⟩
  rintro w a w' hw ⟨hconn, hflags, rfl⟩
  exact (Action.accords hflags w).mirrors hconn hw

/-- After every call a descriptor is registered iff one of its two events is active, and its mask has
the bits of the active ones; and a call that returns `NGX_ERROR` changes nothing at all. -/
theorem interest_mirrors_active {conns : Set UInt64} {w₀ : World Interest H}
    {tr : List (Action × World Interest H)} (hinit : Untouched conns w₀)
    (hrun : (interestMachine H conns).Run w₀ tr) :
    ∀ w ∈ Machine.states w₀ tr,
      (∀ c ∈ conns, Mirrored (w.connections c) (w.rest (w.connections c).fd)) ∧
      ∀ (a : Action) w', a.PlainFlags → a.run w = (.ngxError, w') → w' = w := by
  intro w hw
  refine ⟨((mirrors_invariant H conns).run hinit hrun w hw).mirrored, ?_⟩
  intro a w' hflags herror
  have h := Action.accords hflags w
  rw [herror] at h
  exact h.error

/-- Connections with a descriptor each, before any call. -/
def newConnections : World Interest Unit where
  connections := fun c =>
    { fd := c.toNat
      error := false
      read := ⟨false, false, false, false, false, false, ()⟩
      write := ⟨false, true, false, false, false, false, ()⟩ }
  postedAcceptEvents := []
  postedEvents := []
  rest := fun _ => none

/-- Both events of a connection have been added. -/
def addedConnection : World Interest Unit := ((Action.addConn false 64).run newConnections).2

/-- The deletion of the reading one has failed. -/
def refusedDeletion : World Interest Unit :=
  ((Action.del true ⟨64, .read⟩ 0).run addedConnection).2

theorem interest_mirrors_active_refused :
    Mirrored (refusedDeletion.connections 64)
      (refusedDeletion.rest (refusedDeletion.connections 64).fd) := by
  have hinit : Untouched {64, 128} newConnections := by
    refine ⟨?_, ?_, fun _ _ => rfl⟩
    · intro c _ d _ hcd
      exact UInt64.toNat_inj.1 (Int.ofNat.inj hcd)
    · intro c _ half
      cases half with
      | read => rfl
      | write => rfl
  have hadd : (Action.addConn false 64).conn ∈ ({64, 128} : Set UInt64) := Or.inl rfl
  have hdel : (Action.del true ⟨64, .read⟩ 0).conn ∈ ({64, 128} : Set UInt64) := Or.inl rfl
  have hrun : (interestMachine Unit {64, 128}).Run newConnections
      [(Action.addConn false 64, addedConnection),
        (Action.del true ⟨64, .read⟩ 0, refusedDeletion)] :=
    .cons ⟨hadd, trivial, rfl⟩ (.cons ⟨hdel, Or.inl rfl, rfl⟩ (.nil _))
  exact (interest_mirrors_active hinit hrun _
    (List.mem_cons_of_mem _ (List.mem_cons_of_mem _ List.mem_cons_self))).1 64 hadd

end Epoll
end CppPractice
