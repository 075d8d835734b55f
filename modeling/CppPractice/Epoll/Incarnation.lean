import CppPractice.Epoll.Refinement
import Mathlib.Algebra.Group.Nat.Even
import Mathlib.Logic.Relation

/-!
# Incarnation — slots that are closed and handed out again

A slot of the connection table holds one connection after another.  `ngx_get_connection` inverts the
`instance` bit each time it hands the slot out, and the kernel gives back the bit an event was
registered with, so that `process_events_list` can tell an incarnation from the one after it.

The number of times a slot has been handed out is not kept by the code; it is the number of the
incarnation the slot holds while it is open.
-/

namespace CppPractice
namespace Epoll

/-! ## Slots -/

structure Cycle (σ : Type) where
  freeConnections : List UInt64
  /-- How often `ngx_get_connection` has handed out each slot. -/
  taken : UInt64 → Nat
  user : σ

variable {σ H : Type}

/-- `ngx_memzero(ev, sizeof(ngx_event_t))`; the default handler is the null pointer. -/
def Event.memzero [Inhabited H] : Event H where
  active := false
  inst := false
  accept := false
  ready := false
  pendingEof := false
  posted := false
  handler := default

/-- What `ngx_get_connection` makes of the slot it takes. -/
def Connection.renew [Inhabited H] (s : Int) (c : Connection H) : Connection H where
  fd := s
  error := false
  read := { Event.memzero with inst := !c.read.inst }
  -- `instance = rev->instance; … wev->instance = !instance;`
  write := { Event.memzero with inst := !c.read.inst }

/-- `ngx_get_connection(s, log)`, once `ngx_drain_connections` has closed what it can. -/
def ngxGetConnection [Inhabited H] (s : Int) (w : World (Cycle σ) H) :
    Option (UInt64 × World (Cycle σ) H) :=
  match w.rest.freeConnections with
  -- `worker_connections are not enough`
  | [] => none
  | c :: free => some (c,
      { w with
        connections := Function.update w.connections c ((w.connections c).renew s)
        rest := { w.rest with
          freeConnections := free
          taken := Function.update w.rest.taken c (w.rest.taken c + 1) } })

/-- `ngx_free_connection(c)` and `c->fd = -1` -/
def ngxFreeConnection (w : World (Cycle σ) H) (c : UInt64) : World (Cycle σ) H :=
  { w with
    connections := Function.update w.connections c { w.connections c with fd := -1 }
    rest := { w.rest with freeConnections := c :: w.rest.freeConnections } }

/-- `ngx_close_connection(c)`, with `del_conn(c, NGX_CLOSE_EVENT)` -/
def ngxCloseConnection (w : World (Cycle σ) H) (c : UInt64) : World (Cycle σ) H :=
  if (w.connections c).fd = -1 then
    w
  else
    let w := w.updateEvent ⟨c, .read⟩ fun e => { e with active := false }
    let w := w.updateEvent ⟨c, .write⟩ fun e => { e with active := false }
    let w := if (w.event ⟨c, .read⟩).posted then w.ngxDeletePostedEvent ⟨c, .read⟩ else w
    let w := if (w.event ⟨c, .write⟩).posted then w.ngxDeletePostedEvent ⟨c, .write⟩ else w
    ngxFreeConnection w c

/-! ## What handlers can do -/

/-- One thing that a handler does: close a connection, obtain one, or change anything but the
descriptors, the instance bits and the free slots. -/
inductive Step [Inhabited H] : World (Cycle σ) H → World (Cycle σ) H → Prop
  | close (w : World (Cycle σ) H) (c : UInt64) : Step w (ngxCloseConnection w c)
  | get {w w' : World (Cycle σ) H} {s : Int} {c : UInt64}
      (hget : ngxGetConnection s w = some (c, w')) : Step w w'
  | other {w w' : World (Cycle σ) H} (hfd : ∀ c, (w'.connections c).fd = (w.connections c).fd)
      (hinst : ∀ ev, (w'.event ev).inst = (w.event ev).inst)
      (hfree : w'.rest.freeConnections = w.rest.freeConnections)
      (htaken : w'.rest.taken = w.rest.taken) : Step w w'

/-- Any number of steps. -/
def Reaches [Inhabited H] : World (Cycle σ) H → World (Cycle σ) H → Prop :=
  Relation.ReflTransGen Step

/-- What `ngx_event_process_init` leaves: no slot is in use, and the read events have `instance`
set. -/
structure AtInit (w : World (Cycle σ) H) : Prop where
  closed : ∀ c, (w.connections c).fd = -1
  inst : ∀ c, (w.event ⟨c, .read⟩).inst = true
  taken : ∀ c, w.rest.taken c = 0

/-- The instance bit of the `n`-th incarnation of a slot. -/
def instanceOf (n : Nat) : Bool := n % 2 = 0

theorem instanceOf_succ (n : Nat) : instanceOf (n + 1) = !instanceOf n := by
  unfold instanceOf
  rcases Nat.mod_two_eq_zero_or_one n with h | h
  · have hsucc : (n + 1) % 2 = 1 := by omega
    simp [h, hsucc]
  · have hsucc : (n + 1) % 2 = 0 := by omega
    simp [h, hsucc]

theorem even_sub_of_instanceOf_eq {n r : Nat} (h : instanceOf n = instanceOf r) :
    Even (n - r) := by
  have hiff : n % 2 = 0 ↔ r % 2 = 0 := by
    simpa only [instanceOf, decide_eq_decide] using h
  rw [Nat.even_iff]
  omega

/-- The instance bits tell the parity of the incarnation, and only slots that have been handed out
are open. -/
structure Tagged (w : World (Cycle σ) H) : Prop where
  read : ∀ c, (w.event ⟨c, .read⟩).inst = instanceOf (w.rest.taken c)
  write : ∀ c, 1 ≤ w.rest.taken c → (w.event ⟨c, .write⟩).inst = instanceOf (w.rest.taken c)
  handedOut : ∀ c, (w.connections c).fd ≠ -1 → 1 ≤ w.rest.taken c

/-- Nothing has been handed out or opened, and the instance bits are as they were. -/
structure KeepsTags (w w' : World (Cycle σ) H) : Prop where
  inst : ∀ ev, (w'.event ev).inst = (w.event ev).inst
  taken : w'.rest.taken = w.rest.taken
  opened : ∀ c, (w'.connections c).fd ≠ -1 → (w.connections c).fd ≠ -1

namespace KeepsTags

variable {w w' w'' : World (Cycle σ) H}

theorem refl (w : World (Cycle σ) H) : KeepsTags w w := ⟨fun _ => rfl, rfl, fun _ h => h⟩

theorem trans (h : KeepsTags w w') (h' : KeepsTags w' w'') : KeepsTags w w'' where
  inst ev := (h'.inst ev).trans (h.inst ev)
  taken := h'.taken.trans h.taken
  opened c hc := h.opened c (h'.opened c hc)

theorem updateEvent (w : World (Cycle σ) H) (ev : EventRef) {f : Event H → Event H}
    (hf : ∀ e, (f e).inst = e.inst) : KeepsTags w (w.updateEvent ev f) where
  inst ev' := by
    rw [World.event_updateEvent]
    split
    · exact hf _
    · rfl
  taken := rfl
  opened c hc := by
    rw [World.fd_updateEvent] at hc
    exact hc

theorem deletePosted (w : World (Cycle σ) H) (ev : EventRef) :
    KeepsTags w (w.ngxDeletePostedEvent ev) := by
  have h := updateEvent w ev (f := fun e => { e with posted := false }) fun _ => rfl
  exact ⟨h.inst, h.taken, h.opened⟩

theorem freeConnection (w : World (Cycle σ) H) (c : UInt64) :
    KeepsTags w (ngxFreeConnection w c) where
  inst ev := by
    rcases ev with ⟨d, half⟩
    by_cases hd : d = c
    · subst hd
      cases half <;> simp [World.event, ngxFreeConnection, Connection.event]
    · simp only [World.event, ngxFreeConnection, Function.update_of_ne hd]
  taken := rfl
  opened d hd := by
    by_cases hdc : d = c
    · subst hdc
      simp [ngxFreeConnection] at hd
    · simp only [ngxFreeConnection, Function.update_of_ne hdc] at hd
      exact hd

theorem closeConnection (w : World (Cycle σ) H) (c : UInt64) :
    KeepsTags w (ngxCloseConnection w c) := by
  have hdelete : ∀ (v : World (Cycle σ) H) (ev : EventRef),
      KeepsTags v (if (v.event ev).posted then v.ngxDeletePostedEvent ev else v) := by
    intro v ev
    split
    · exact deletePosted v ev
    · exact refl v
  unfold ngxCloseConnection
  by_cases hclosed : (w.connections c).fd = -1
  · rw [if_pos hclosed]
    exact refl w
  · rw [if_neg hclosed]
    have hread := updateEvent w ⟨c, .read⟩ (f := fun e => { e with active := false }) fun _ => rfl
    have hwrite := hread.trans
      (updateEvent _ ⟨c, .write⟩ (f := fun e => { e with active := false }) fun _ => rfl)
    exact ((hwrite.trans (hdelete _ _)).trans (hdelete _ _)).trans (freeConnection _ _)

theorem tagged (h : KeepsTags w w') (hw : Tagged w) : Tagged w' where
  read c := by
    rw [h.inst, h.taken]
    exact hw.read c
  write c hc := by
    rw [h.taken] at hc
    rw [h.inst, h.taken]
    exact hw.write c hc
  handedOut c hc := by
    rw [h.taken]
    exact hw.handedOut c (h.opened c hc)

end KeepsTags

/-- What the loop itself does to the table: the instance bits, the descriptors and the free slots
stay. -/
structure Marks (w w' : World (Cycle σ) H) : Prop where
  keeps : KeepsTags w w'
  fd : ∀ c, (w'.connections c).fd = (w.connections c).fd
  free : w'.rest.freeConnections = w.rest.freeConnections

namespace Marks

variable {w w' w'' : World (Cycle σ) H}

theorem trans (h : Marks w w') (h' : Marks w' w'') : Marks w w'' where
  keeps := h.keeps.trans h'.keeps
  fd c := (h'.fd c).trans (h.fd c)
  free := h'.free.trans h.free

theorem updateEvent (w : World (Cycle σ) H) (ev : EventRef) {f : Event H → Event H}
    (hf : ∀ e, (f e).inst = e.inst) : Marks w (w.updateEvent ev f) :=
  ⟨KeepsTags.updateEvent w ev hf, World.fd_updateEvent w ev f, rfl⟩

theorem setReady (w : World (Cycle σ) H) (ev : EventRef) : Marks w (w.setReady ev) :=
  updateEvent w ev fun _ => rfl

theorem setPendingEof (w : World (Cycle σ) H) (ev : EventRef) : Marks w (w.setPendingEof ev) :=
  updateEvent w ev fun _ => rfl

theorem markReadable (w : World (Cycle σ) H) (ev : EventRef) (revents : UInt32) :
    Marks w (Epoll.markReadable ev revents w) := by
  unfold Epoll.markReadable
  split
  · exact (setPendingEof w ev).trans (setReady _ ev)
  · exact setReady w ev

theorem setError (w : World (Cycle σ) H) (c : UInt64) : Marks w (w.setError c) where
  keeps :=
    { inst := fun ev => congrArg Event.inst (World.event_setError w c ev)
      taken := rfl
      opened := fun d hd => by rwa [World.fd_setError] at hd }
  fd := World.fd_setError w c
  free := rfl

end Marks

theorem checkErrors_stale_iff (c : UInt64) (events : UInt32) (l : Loop (Cycle σ) H) (ev : EventRef)
    (inst : Bool) : Stale (CppEpollHandler.checkErrors c events l).2 ev inst ↔ Stale l ev inst :=
  (checkErrors_agrees (Loop.Agrees.refl l) c events).stale_iff ev inst

/-! ## The slots over runs -/

theorem AtInit.tagged {w : World (Cycle σ) H} (h : AtInit w) : Tagged w where
  read c := by
    rw [h.inst, h.taken]
    rfl
  write c hc := by
    rw [h.taken] at hc
    exact absurd hc (by decide)
  handedOut c hc := absurd (h.closed c) hc

variable [Inhabited H]

/-- Handing out a slot inverts its instance bit, and goes on to the next incarnation. -/
theorem Tagged.get {w w' : World (Cycle σ) H} (hw : Tagged w) {s : Int} {c : UInt64}
    (h : ngxGetConnection s w = some (c, w')) : Tagged w' := by
  unfold ngxGetConnection at h
  cases hfree : w.rest.freeConnections with
  | nil =>
      rw [hfree] at h
      cases h
  | cons d free =>
      simp only [hfree, Option.some.injEq, Prod.mk.injEq] at h
      rcases h with ⟨rfl, rfl⟩
      -- The bit of both events is the inverse of the read event's, whatever the write event had.
      have hnext : (!(w.connections d).read.inst) = instanceOf (w.rest.taken d + 1) := by
        rw [instanceOf_succ]
        exact congrArg not (hw.read d)
      constructor
      · intro e
        by_cases he : e = d
        · subst he
          simpa [World.event, Connection.event, Connection.renew] using hnext
        · simpa [World.event, Connection.event, Function.update_of_ne he] using hw.read e
      · intro e hpos
        by_cases he : e = d
        · subst he
          simpa [World.event, Connection.event, Connection.renew] using hnext
        · simp only [Function.update_of_ne he] at hpos
          simpa [World.event, Connection.event, Function.update_of_ne he] using hw.write e hpos
      · intro e hopen
        by_cases he : e = d
        · subst he
          simp
        · simp only [Function.update_of_ne he] at hopen
          simpa [Function.update_of_ne he] using hw.handedOut e hopen

theorem Tagged.step {w w' : World (Cycle σ) H} (hw : Tagged w) (h : Step w w') : Tagged w' := by
  cases h with
  | close c => exact (KeepsTags.closeConnection w c).tagged hw
  | get hget => exact hw.get hget
  | other hfd hinst hfree htaken =>
      have hkeeps : KeepsTags w w' := ⟨hinst, htaken, fun c hc => by rwa [← hfd c]⟩
      exact hkeeps.tagged hw

theorem Tagged.reaches {w w' : World (Cycle σ) H} (hw : Tagged w) (h : Reaches w w') :
    Tagged w' := by
  -- Over the steps, from the first: each keeps the parity of every slot.
  induction h with
  | refl => exact hw
  | tail _ hstep ih => exact ih.step hstep

theorem Step.taken_le {w w' : World (Cycle σ) H} (h : Step w w') (c : UInt64) :
    w.rest.taken c ≤ w'.rest.taken c := by
  cases h with
  | close d => rw [(KeepsTags.closeConnection w d).taken]
  | get hget =>
      unfold ngxGetConnection at hget
      cases hfree : w.rest.freeConnections with
      | nil =>
          rw [hfree] at hget
          cases hget
      | cons e free =>
          simp only [hfree, Option.some.injEq, Prod.mk.injEq] at hget
          rcases hget with ⟨rfl, rfl⟩
          by_cases hc : c = e
          · subst hc
            simp
          · simp [Function.update_of_ne hc]
  | other hfd hinst hfree htaken => rw [htaken]

theorem Reaches.taken_le {w w' : World (Cycle σ) H} (h : Reaches w w') (c : UInt64) :
    w.rest.taken c ≤ w'.rest.taken c := by
  induction h with
  | refl => exact le_rfl
  | tail _ hstep ih => exact ih.trans (hstep.taken_le c)

/-! ## What a round changes -/

theorem Marks.reaches {w w' : World (Cycle σ) H} (h : Marks w w') : Reaches w w' :=
  .single (.other h.fd h.keeps.inst h.free h.keeps.taken)

section Round

variable {run : H → EventRef → World (Cycle σ) H → World (Cycle σ) H}

/-- The handlers run in the round for `ee`. -/
def roundCalls (run : H → EventRef → World (Cycle σ) H → World (Cycle σ) H)
    (l : Loop (Cycle σ) H) (ee : EpollEvent) : List (Call (Cycle σ) H) :=
  (CppEpollHandler.processEvent run false l ee).calls.drop l.calls.length

/-- A handler run for an event of `c` with the tag `inst`, in a world reached from `w`: the slot is
open, and one of its events has that tag. -/
structure Delivered (w : World (Cycle σ) H) (c : UInt64) (inst : Bool) (call : Call (Cycle σ) H) :
    Prop where
  event : call.event.conn = c
  reached : Reaches w call.world
  opened : (call.world.connections c).fd ≠ -1
  tag : ∃ half, (call.world.event ⟨c, half⟩).inst = inst

/-- From `l` the loop has come to `l'` by running handlers for events of `c` tagged `inst`. -/
structure Rounds (c : UInt64) (inst : Bool) (l l' : Loop (Cycle σ) H) : Prop where
  reached : Reaches l.world l'.world
  calls : ∃ new, l'.calls = l.calls ++ new ∧ ∀ call ∈ new, Delivered l.world c inst call

theorem Rounds.refl (c : UInt64) (inst : Bool) (l : Loop (Cycle σ) H) : Rounds c inst l l :=
  ⟨.refl, [], by simp, by simp⟩

theorem Rounds.trans {c : UInt64} {inst : Bool} {l l' l'' : Loop (Cycle σ) H}
    (h : Rounds c inst l l') (h' : Rounds c inst l' l'') : Rounds c inst l l'' := by
  rcases h.calls with ⟨new, hnew, hcalls⟩
  rcases h'.calls with ⟨new', hnew', hcalls'⟩
  refine ⟨h.reached.trans h'.reached, new ++ new', by rw [hnew', hnew, List.append_assoc], ?_⟩
  intro call hcall
  rcases List.mem_append.1 hcall with hold | hlater
  · exact hcalls call hold
  -- What is reached from the later loop is reached from the earlier one.
  · have hd := hcalls' call hlater
    exact ⟨hd.event, h.reached.trans hd.reached, hd.opened, hd.tag⟩

/-- Marking an event that is not stale and running its handler. -/
theorem Rounds.dispatch (hrun : ∀ h ev w, Reaches w (run h ev w)) {l : Loop (Cycle σ) H}
    {ev : EventRef} {inst : Bool} (hfresh : ¬ Stale l ev inst)
    {mark : World (Cycle σ) H → World (Cycle σ) H} (hmark : Marks l.world (mark l.world)) (h : H)
    (given : Half) : Rounds ev.conn inst l ((l.map mark).call run h ⟨ev.conn, given⟩) := by
  -- The check has just been made, and marking the event changes neither descriptor nor bit.
  rcases not_or.1 hfresh with ⟨hopen, htag⟩
  refine ⟨hmark.reaches.trans (hrun _ _ _), [⟨h, ⟨ev.conn, given⟩, mark l.world⟩], rfl, ?_⟩
  intro call hcall
  rw [List.mem_singleton] at hcall
  subst hcall
  refine ⟨rfl, hmark.reaches, ?_, ev.half, ?_⟩
  · rw [hmark.fd]
    exact hopen
  · rw [hmark.keeps.inst]
    exact not_not.1 htag

theorem readHalf_rounds (hrun : ∀ h ev w, Reaches w (run h ev w)) {l : Loop (Cycle σ) H}
    {c : UInt64} {inst : Bool} (hfresh : ¬ Stale l ⟨c, .read⟩ inst) (revents : UInt32) :
    Rounds c inst l (readHalf run false c revents l) := by
  by_cases hin : revents &&& epollin ≠ 0 ∧ (l.world.event ⟨c, .read⟩).active = true
  · rw [readHalf_calls hin]
    exact Rounds.dispatch hrun hfresh (Marks.markReadable l.world _ revents) _ .read
  · rw [readHalf_idle hin]
    exact Rounds.refl c inst l

/-- The writing half looks at the connection again, after the read handler has run. -/
theorem writeHalf_rounds (hrun : ∀ h ev w, Reaches w (run h ev w)) (l : Loop (Cycle σ) H)
    (given : Half) (c : UInt64) (inst : Bool) (revents : UInt32) :
    Rounds c inst l (writeHalf run false given c inst revents l) := by
  by_cases hd : Dispatches c inst revents l
  · rw [writeHalf_calls hd]
    exact Rounds.dispatch hrun hd.2 (Marks.setReady l.world _) _ given
  · rw [writeHalf_idle hd]
    exact Rounds.refl c inst l

theorem checkErrors_rounds (c : UInt64) (inst : Bool) (events : UInt32) (l : Loop (Cycle σ) H) :
    Rounds c inst l (CppEpollHandler.checkErrors c events l).2 := by
  rcases checkErrors_snd c events l with h | h
  · rw [h]
    exact Rounds.refl c inst l
  · rw [h]
    exact ⟨(Marks.setError l.world c).reaches, [], by simp, by simp⟩

theorem processEvent_rounds (hrun : ∀ h ev w, Reaches w (run h ev w)) (l : Loop (Cycle σ) H)
    (ee : EpollEvent) : Rounds (addressOf ee.ptr) (tagOf ee.ptr) l
      (CppEpollHandler.processEvent run false l ee) := by
  by_cases hstale : Stale l ⟨addressOf ee.ptr, .read⟩ (tagOf ee.ptr)
  · rw [CppEpollHandler.processEvent_stale hstale]
    exact Rounds.refl _ _ l
  · rw [CppEpollHandler.processEvent_fresh hstale]
    have hcheck := checkErrors_rounds (addressOf ee.ptr) (tagOf ee.ptr) ee.events l
    have hfresh : ¬ Stale (CppEpollHandler.checkErrors (addressOf ee.ptr) ee.events l).2
        ⟨addressOf ee.ptr, .read⟩ (tagOf ee.ptr) := by
      rw [checkErrors_stale_iff]
      exact hstale
    have hread := readHalf_rounds hrun hfresh (reventsOf ee.events)
    exact (hcheck.trans hread).trans (writeHalf_rounds hrun _ _ _ _ _)

theorem delivered_of_mem_roundCalls (hrun : ∀ h ev w, Reaches w (run h ev w))
    {l : Loop (Cycle σ) H} {ee : EpollEvent} {call : Call (Cycle σ) H}
    (h : call ∈ roundCalls run l ee) :
    Delivered l.world (addressOf ee.ptr) (tagOf ee.ptr) call := by
  rcases (processEvent_rounds hrun l ee).calls with ⟨new, hnew, hcalls⟩
  rw [roundCalls, hnew, List.drop_left] at h
  exact hcalls call h

theorem processEventsList_reaches (hrun : ∀ h ev w, Reaches w (run h ev w))
    (batch : List EpollEvent) (w : World (Cycle σ) H) :
    Reaches w (CppEpollHandler.processEventsList run false batch w).world := by
  have hfold : ∀ (batch : List EpollEvent) (l : Loop (Cycle σ) H),
      Reaches l.world (batch.foldl (CppEpollHandler.processEvent run false) l).world := by
    intro batch
    induction batch with
    | nil => exact fun _ => .refl
    | cons ee batch ih =>
        intro l
        exact (processEvent_rounds hrun l ee).reached.trans (ih _)
  exact hfold batch { world := w, calls := [] }

end Round

/-! ## Stale events -/

/-- An `epoll_event` with the connection and the incarnation it was registered for. -/
structure Registration where
  ee : EpollEvent
  conn : UInt64
  incarnation : Nat

/-- Some time before `w` the connection was open in its slot, and `add` or `add_conn` gave the kernel
its address with the `instance` of one of its events. -/
def Registration.MadeIn (x : Registration) (w₀ w : World (Cycle σ) H) : Prop :=
  ∃ (w₁ : World (Cycle σ) H) (half : Half), Reaches w₀ w₁ ∧ Reaches w₁ w ∧
    tagOf x.conn = false ∧ (w₁.connections x.conn).fd ≠ -1 ∧
    w₁.rest.taken x.conn = x.incarnation ∧
    x.ee.ptr = tagged x.conn (w₁.event ⟨x.conn, half⟩).inst

/-- The slot is open, and holds the incarnation that the event was registered for or the second after
it, the fourth and so on. -/
structure Registration.Deliverable (x : Registration) (w : World (Cycle σ) H) : Prop where
  opened : (w.connections x.conn).fd ≠ -1
  later : x.incarnation ≤ w.rest.taken x.conn
  even : Even (w.rest.taken x.conn - x.incarnation)

omit [Inhabited H] in
/-- Where the slot has been handed out at most once more, it is the very incarnation. -/
theorem Registration.Deliverable.same {x : Registration} {w : World (Cycle σ) H}
    (h : x.Deliverable w) (hone : w.rest.taken x.conn ≤ x.incarnation + 1) :
    w.rest.taken x.conn = x.incarnation := by
  have hlater := h.later
  rcases h.even with ⟨k, hk⟩
  omega

/-- What the tag says: an event of the slot that has it is of the incarnation or an even number
after it. -/
theorem Registration.MadeIn.deliverable {x : Registration} {w₀ w w' : World (Cycle σ) H}
    (hinit : AtInit w₀) (h : x.MadeIn w₀ w) (hw : Reaches w w')
    (hopen : (w'.connections x.conn).fd ≠ -1) {half : Half}
    (htag : (w'.event ⟨x.conn, half⟩).inst = tagOf x.ee.ptr) : x.Deliverable w' := by
  rcases h with ⟨w₁, half₁, hw₁, hwfrom, haligned, hopen₁, hincarnation, hptr⟩
  -- In an open slot both events have the bit of the incarnation it holds.
  have hinst : ∀ {v : World (Cycle σ) H}, Reaches w₀ v → (v.connections x.conn).fd ≠ -1 →
      ∀ half, (v.event ⟨x.conn, half⟩).inst = instanceOf (v.rest.taken x.conn) := by
    intro v hv hvopen half
    have htagged := hinit.tagged.reaches hv
    cases half with
    | read => exact htagged.read _
    | write => exact htagged.write _ (htagged.handedOut _ hvopen)
  have hlater := Reaches.taken_le (hwfrom.trans hw) x.conn
  rw [hincarnation] at hlater
  refine ⟨hopen, hlater, even_sub_of_instanceOf_eq ?_⟩
  calc instanceOf (w'.rest.taken x.conn)
      = (w'.event ⟨x.conn, half⟩).inst :=
        (hinst (hw₁.trans (hwfrom.trans hw)) hopen half).symm
    _ = tagOf x.ee.ptr := htag
    _ = (w₁.event ⟨x.conn, half₁⟩).inst := by rw [hptr, tagOf_tagged haligned]
    _ = instanceOf x.incarnation := by rw [hinst hw₁ hopen₁, hincarnation]

/-- Every handler that the loop runs for an event of the batch finds the slot as `P` says. -/
def EveryCall (run : H → EventRef → World (Cycle σ) H → World (Cycle σ) H) (w : World (Cycle σ) H)
    (batch : List Registration) (P : Registration → World (Cycle σ) H → Prop) : Prop :=
  ∀ before x after, batch = before ++ x :: after →
    ∀ call ∈ roundCalls run
      (CppEpollHandler.processEventsList run false (before.map Registration.ee) w) x.ee,
      call.event.conn = x.conn ∧ P x call.world

/-- Events of closed incarnations, and of incarnations that one other has replaced, are skipped: when
a handler is run for an event, the slot is open and has been handed out an even number of times since
the event was registered.  So if it has been handed out at most once, it is the very incarnation. -/
theorem stale_events_skipped {run : H → EventRef → World (Cycle σ) H → World (Cycle σ) H}
    (hrun : ∀ h ev w, Reaches w (run h ev w)) {w₀ w : World (Cycle σ) H} (hinit : AtInit w₀)
    {batch : List Registration} (hbatch : ∀ x ∈ batch, x.MadeIn w₀ w) :
    EveryCall run w batch fun x w' => x.Deliverable w' ∧
      (w'.rest.taken x.conn ≤ x.incarnation + 1 → w'.rest.taken x.conn = x.incarnation) := by
  intro before x after heq call hcall
  have hmade : x.MadeIn w₀ w := hbatch x (by rw [heq]; simp)
  have hdelivered := delivered_of_mem_roundCalls hrun hcall
  have hconn : addressOf x.ee.ptr = x.conn := by
    rcases hmade with ⟨w₁, half, -, -, haligned, -, -, hptr⟩
    rw [hptr, addressOf_tagged haligned]
  rw [hconn] at hdelivered
  rcases hdelivered.tag with ⟨half, htag⟩
  -- The handlers run before have led from `w` to the world this one found.
  have hreach := (processEventsList_reaches hrun (before.map Registration.ee) w).trans
    hdelivered.reached
  have hdeliverable := hmade.deliverable hinit hreach hdelivered.opened htag
  exact ⟨hdelivered.event, hdeliverable, hdeliverable.same⟩

/-! ## A slot handed out twice in one batch -/

/-- Two free slots. -/
def bootWorld : World (Cycle Unit) Unit where
  connections := fun _ =>
    { fd := -1, error := false, read := { Event.memzero with inst := true }, write := Event.memzero }
  postedAcceptEvents := []
  postedEvents := []
  rest := { freeConnections := [64, 128], taken := fun _ => 0, user := () }

/-- Take a slot for the socket `s`, with its read event active. -/
def acceptSocket (s : Int) (w : World (Cycle Unit) Unit) : World (Cycle Unit) Unit :=
  match ngxGetConnection s w with
  | none => w
  | some (c, w) => w.updateEvent ⟨c, .read⟩ fun e => { e with active := true }

theorem reaches_acceptSocket (s : Int) (w : World (Cycle Unit) Unit) :
    Reaches w (acceptSocket s w) := by
  unfold acceptSocket
  cases hget : ngxGetConnection s w with
  | none => exact .refl
  | some r =>
      rcases r with ⟨c, w'⟩
      have hactive := (Marks.updateEvent w' ⟨c, .read⟩
        (f := fun e => { e with active := true }) fun _ => rfl).reaches
      exact (Relation.ReflTransGen.single (.get hget)).trans hactive

/-- The handler of the connection in slot 64 closes the one in slot 128, and serves two others there
in turn. -/
def recycleHandler (_ : Unit) (ev : EventRef) (w : World (Cycle Unit) Unit) :
    World (Cycle Unit) Unit :=
  if ev.conn = 64 then
    acceptSocket 10 (ngxCloseConnection (acceptSocket 9 (ngxCloseConnection w 128)) 128)
  else
    w

theorem reaches_recycleHandler (h : Unit) (ev : EventRef) (w : World (Cycle Unit) Unit) :
    Reaches w (recycleHandler h ev w) := by
  unfold recycleHandler
  split
  · have hclose : ∀ v : World (Cycle Unit) Unit, Reaches v (ngxCloseConnection v 128) :=
      fun v => .single (.close v 128)
    exact (((hclose w).trans (reaches_acceptSocket 9 _)).trans (hclose _)).trans
      (reaches_acceptSocket 10 _)
  · exact .refl

/-- Both slots serve their first connection. -/
def servingWorld : World (Cycle Unit) Unit := acceptSocket 8 (acceptSocket 7 bootWorld)

/-- Both connections can be read. -/
def readableBatch : List Registration :=
  [⟨⟨epollin, 64⟩, 64, 1⟩, ⟨⟨epollin, 128⟩, 128, 1⟩]

theorem atInit_bootWorld : AtInit bootWorld := ⟨fun _ => rfl, fun _ => rfl, fun _ => rfl⟩

theorem madeIn_servingWorld : ∀ x ∈ readableBatch, x.MadeIn bootWorld servingWorld := by
  have hreach : Reaches bootWorld servingWorld :=
    (reaches_acceptSocket 7 _).trans (reaches_acceptSocket 8 _)
  intro x hx
  refine ⟨servingWorld, .read, hreach, .refl, ?_⟩
  rcases List.mem_cons.1 hx with rfl | hx
  · decide
  · rcases List.mem_singleton.1 hx with rfl
    decide

theorem stale_events_skipped_recycled :
    EveryCall recycleHandler servingWorld readableBatch fun x w' => x.Deliverable w' ∧
      (w'.rest.taken x.conn ≤ x.incarnation + 1 → w'.rest.taken x.conn = x.incarnation) :=
  stale_events_skipped reaches_recycleHandler atInit_bootWorld madeIn_servingWorld

/-- The event of the first connection of slot 128 is handed to the third. -/
theorem stale_event_delivered :
    AtInit bootWorld ∧ (∀ x ∈ readableBatch, x.MadeIn bootWorld servingWorld) ∧
    (∀ h ev w, Reaches w (recycleHandler h ev w)) ∧
    ¬ EveryCall recycleHandler servingWorld readableBatch fun x w' =>
      w'.rest.taken x.conn = x.incarnation := by
  refine ⟨atInit_bootWorld, madeIn_servingWorld, reaches_recycleHandler, ?_⟩
  intro h
  have hcalls := h [⟨⟨epollin, 64⟩, 64, 1⟩] ⟨⟨epollin, 128⟩, 128, 1⟩ [] rfl
  have hthird : (roundCalls recycleHandler (CppEpollHandler.processEventsList recycleHandler false
      [⟨epollin, 64⟩] servingWorld) ⟨epollin, 128⟩).map (fun call => call.world.rest.taken 128) =
        [3] := by
    decide
  have hmem : 3 ∈ (roundCalls recycleHandler (CppEpollHandler.processEventsList recycleHandler false
      [⟨epollin, 64⟩] servingWorld) ⟨epollin, 128⟩).map
        (fun call => call.world.rest.taken 128) := by
    rw [hthird]
    exact List.mem_singleton_self 3
  rcases List.mem_map.1 hmem with ⟨call, hcall, htaken⟩
  have hone : call.world.rest.taken 128 = 1 := (hcalls call hcall).2
  have hthree : call.world.rest.taken 128 = 3 := htaken
  rw [hthree] at hone
  cases hone

end Epoll
end CppPractice
