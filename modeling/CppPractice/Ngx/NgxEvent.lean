import CppPractice.Ngx.Timer

/-!
# NgxEvent — events that carry their own timer

Two classes put an event of their own into the timer tree.  `NgxTimerEv` fills the event in with `init`,
which zeroes it, and then starts and clears it; the object is its user's and not a pool's.
`NgxEvent::timeout` sets, keeps or deletes the timer of the event that it wraps.

Both are followed among any other timers, expirations and moments of the clock (`EventLoop`).
-/

namespace CppPractice
namespace Ngx

open Rbtree

/-- `ngx_nil`, at `ngx_msec_t` -/
def ngxNil : BitVec 64 := -1

/-- The timer tree and `ngx_current_msec`. -/
structure EventLoop (E : Type) where
  timers : Timers E
  currentMsec : BitVec 64

namespace EventLoop

variable {E : Type} [DecidableEq E]

def addTimer (e : E) (timer : BitVec 64) (s : EventLoop E) : Option (EventLoop E) := do
  let timers ← s.timers.ngxEventAddTimer s.currentMsec e timer
  return { s with timers := timers }

def delTimer (e : E) (s : EventLoop E) : Option (EventLoop E) := do
  let timers ← s.timers.ngxEventDelTimer e
  return { s with timers := timers }

/-- `if (ev->timer_set) ngx_del_timer(ev)` -/
def clearTimer (e : E) (s : EventLoop E) : Option (EventLoop E) :=
  if (s.timers.event e).timerSet then s.delTimer e else some s

/-- A turn of the loop of `ngx_event_expire_timers`, with the event whose handler it calls. -/
def expireTimer (s : EventLoop E) : Option (Option E × EventLoop E) := do
  let (expired, timers) ← s.timers.ngxEventExpireTimers s.currentMsec
  return (expired, { s with timers := timers })

/-- What goes on around an event: the clock, and the timers of other events. -/
inductive Around (E : Type)
  | clock (now : BitVec 64)
  | add (d : E) (timer : BitVec 64)
  | clear (d : E)

def around (s : EventLoop E) : Around E → Option (EventLoop E)
  | .clock now => some { s with currentMsec := now }
  | .add d timer => s.addTimer d timer
  | .clear d => s.clearTimer d

/-- The timer of `d` is in `t` what it is in `s`. -/
def SameTimer (s t : EventLoop E) (d : E) : Prop :=
  t.timers.event d = s.timers.event d ∧ t.timers.tree.nodes.count d = s.timers.tree.nodes.count d

theorem SameTimer.refl (s : EventLoop E) (d : E) : s.SameTimer s d := ⟨rfl, rfl⟩

/-- The deadline that `ngx_event_add_timer` leaves. -/
def deadline (s : EventLoop E) (e : E) (timer : BitVec 64) : BitVec 64 :=
  if (s.timers.event e).timerSet ∧
      ngxAbs (s.currentMsec + timer - (s.timers.event e).key) < ngxTimerLazyDelay then
    (s.timers.event e).key
  else s.currentMsec + timer

variable {s : EventLoop E} {e : E}

theorem count_eq {T : Timers E} (h : T.Sound) (e : E) :
    T.tree.nodes.count e = if (T.event e).timerSet then 1 else 0 := by
  rw [Multiset.count_eq_of_nodup h.nodup]
  simp only [h.mem_iff]

theorem addTimer_key {T T' : Timers E} (h : T.Sound) {now timer : BitVec 64}
    (hadd : T.ngxEventAddTimer now e timer = some T') :
    (T'.event e).key =
      if (T.event e).timerSet ∧ ngxAbs (now + timer - (T.event e).key) < ngxTimerLazyDelay then
        (T.event e).key
      else now + timer := by
  rw [Timers.ngxEventAddTimer] at hadd
  cases he : (T.event e).timerSet with
  | false =>
      rcases h.arm he (now + timer) with ⟨T₁, harm, _, _, hkey, _⟩
      simp only [he, harm, Bool.false_eq_true, if_false, Option.some.injEq] at hadd
      rw [← hadd, hkey, if_neg (fun hset => absurd hset.1 Bool.false_ne_true)]
  | true =>
      by_cases hlazy : ngxAbs (now + timer - (T.event e).key) < ngxTimerLazyDelay
      · simp only [he, hlazy, if_true] at hadd
        rw [if_pos ⟨rfl, hlazy⟩, Option.some.inj hadd]
      · rcases h.ngxEventDelTimer he with ⟨T₁, hdel, hsound, _, hunset, _⟩
        rcases hsound.arm hunset (now + timer) with ⟨T₂, harm, _, _, hkey, _⟩
        simp only [he, hlazy, hdel, if_true, if_false, Option.bind_eq_bind, Option.bind_some, harm,
          Option.some.injEq] at hadd
        rw [← hadd, hkey, if_neg fun hset => hlazy hset.2]

theorem addTimer_spec (h : s.timers.Sound) (e : E) (timer : BitVec 64) :
    ∃ t, s.addTimer e timer = some t ∧ t.timers.Sound ∧ e ∈ t.timers.tree.nodes ∧
      (t.timers.event e).key = s.deadline e timer ∧ ∀ d ≠ e, s.SameTimer t d := by
  rcases h.ngxEventAddTimer s.currentMsec e timer with ⟨T, hadd, hsound, hnodes, hothers⟩
  refine ⟨{ s with timers := T }, ?_, hsound, ?_, addTimer_key h hadd, fun d hd => ⟨hothers d hd, ?_⟩⟩
  · rw [addTimer, hadd]
    rfl
  · rw [hnodes]
    exact Multiset.mem_cons_self e _
  · rw [hnodes, Multiset.count_cons_of_ne hd, Multiset.count_erase_of_ne hd]

theorem delTimer_spec (h : s.timers.Sound) (he : (s.timers.event e).timerSet = true) :
    ∃ t, s.delTimer e = some t ∧ t.timers.Sound ∧ e ∉ t.timers.tree.nodes ∧
      ∀ d ≠ e, s.SameTimer t d := by
  rcases h.ngxEventDelTimer he with ⟨T, hdel, hsound, hnodes, hunset, hothers⟩
  refine ⟨{ s with timers := T }, ?_, hsound, ?_, fun d hd => ⟨hothers d hd, ?_⟩⟩
  · rw [delTimer, hdel]
    rfl
  · rw [hsound.mem_iff, hunset]
    exact Bool.false_ne_true
  · rw [hnodes, Multiset.count_cons_of_ne hd]

theorem clearTimer_spec (h : s.timers.Sound) (e : E) :
    ∃ t, s.clearTimer e = some t ∧ t.timers.Sound ∧ e ∉ t.timers.tree.nodes ∧
      ∀ d ≠ e, s.SameTimer t d := by
  cases he : (s.timers.event e).timerSet with
  | false =>
      refine ⟨s, by simp [clearTimer, he], h, ?_, fun d _ => .refl s d⟩
      rw [h.mem_iff, he]
      exact Bool.false_ne_true
  | true =>
      rcases delTimer_spec h he with ⟨t, hdel, hspec⟩
      exact ⟨t, by simp [clearTimer, he, hdel], hspec⟩

theorem expireTimer_spec (h : s.timers.Sound) :
    ∃ expired t, s.expireTimer = some (expired, t) ∧ t.timers.Sound ∧
      (∀ e, expired = some e → (t.timers.event e).timedout = true) ∧
      ∀ d, expired ≠ some d → s.SameTimer t d := by
  rcases h.ngxEventExpireTimers s.currentMsec with
    hnone | ⟨e, T, hturn, hsound, hnodes, _, htimedout, hothers⟩
  · refine ⟨none, s, ?_, h, nofun, fun d _ => .refl s d⟩
    rw [expireTimer, hnone]
    rfl
  · refine ⟨some e, { s with timers := T }, ?_, hsound, ?_, ?_⟩
    · rw [expireTimer, hturn]
      rfl
    · rintro d hd
      cases hd
      exact htimedout
    · intro d hd
      have hne : d ≠ e := fun hde => hd (congrArg some hde.symm)
      refine ⟨hothers d hne, ?_⟩
      rw [hnodes, Multiset.count_cons_of_ne hne]

/-- The event that a step around changes the timer of. -/
def Around.touched : Around E → Option E
  | .clock _ => none
  | .add d _ => some d
  | .clear d => some d

theorem around_spec (h : s.timers.Sound) (a : Around E) :
    ∃ t, s.around a = some t ∧ t.timers.Sound ∧ ∀ d, a.touched ≠ some d → s.SameTimer t d := by
  have hne : ∀ {d e : E}, some e ≠ some d → d ≠ e := fun h hde => h (congrArg some hde.symm)
  cases a with
  | clock now => exact ⟨_, rfl, h, fun d _ => ⟨rfl, rfl⟩⟩
  | add e timer =>
      rcases addTimer_spec h e timer with ⟨t, hadd, hsound, _, _, hothers⟩
      exact ⟨t, hadd, hsound, fun d hd => hothers d (hne hd)⟩
  | clear e =>
      rcases clearTimer_spec h e with ⟨t, hclear, hsound, _, hothers⟩
      exact ⟨t, hclear, hsound, fun d hd => hothers d (hne hd)⟩

end EventLoop

open EventLoop Trace

/-! ## NgxTimerEv -/

/-- `e` stands for `m_ev`.  `called` is a record of the calls of functions. -/
structure NgxTimerEv (E : Type) extends EventLoop E where
  func : Option Nat := none
  called : List Nat := []

namespace NgxTimerEv

variable {E : Type} [DecidableEq E]

def start (e : E) (ms : BitVec 64) (s : NgxTimerEv E) : Option (NgxTimerEv E) := do
  let loop ← s.toEventLoop.addTimer e ms
  return { s with toEventLoop := loop }

/-- `init(f)` is this at `ngxNil`. -/
def init (e : E) (f : Nat) (ms : BitVec 64) (s : NgxTimerEv E) : Option (NgxTimerEv E) :=
  let s := { s with func := some f, timers := s.timers.memzero e }
  if NgxTimer.invalid ms then some s else s.start e ms

def clear (e : E) (s : NgxTimerEv E) : Option (NgxTimerEv E) := do
  let loop ← s.toEventLoop.clearTimer e
  return { s with toEventLoop := loop }

/-- `operator()`, which `NgxTimerCaller::call` ends in.  A call of an empty function is an exception. -/
def call (e : E) (s : NgxTimerEv E) : Option (NgxTimerEv E) :=
  if (s.timers.event e).timedout then do
    let f ← s.func
    return { s with called := s.called ++ [f] }
  else some s

def expire (e : E) (s : NgxTimerEv E) : Option (NgxTimerEv E) := do
  let (expired, loop) ← s.toEventLoop.expireTimer
  let s := { s with toEventLoop := loop }
  if expired = some e then s.call e else return s

inductive Input (E : Type)
  | init (f : Nat) (ms : BitVec 64)
  | start (ms : BitVec 64)
  | clear
  | expire
  | around (a : Around E)

def step (e : E) (s : NgxTimerEv E) : Input E → Option (NgxTimerEv E)
  | .init f ms => s.init e f ms
  | .start ms => s.start e ms
  | .clear => s.clear e
  | .expire => s.expire e
  | .around a => do
      let loop ← s.toEventLoop.around a
      return { s with toEventLoop := loop }

/-- The event that a step changes the timer of: for an expiration, the one that expires. -/
def touched (e : E) (s : NgxTimerEv E) : Input E → Option E
  | .expire => s.toEventLoop.expireTimer.bind Prod.fst
  | .around a => a.touched
  | _ => some e

/-- After the step the tree is one, the node of the object is in it as its bit says, at most once, and
other timers are as they were. -/
def Agrees (e : E) (s : NgxTimerEv E) (i : Input E) : Prop :=
  ∃ t, s.step e i = some t ∧ IsRbtree t.timers.tree ∧
    t.timers.tree.nodes.count e = (if (t.timers.event e).timerSet then 1 else 0) ∧
    ∀ d, s.touched e i ≠ some d → s.SameTimer t.toEventLoop d

/-- The object is not in the tree where it is initialised. -/
def InitsIdle (e : E) (s : NgxTimerEv E) : Input E → Prop
  | .init _ _ => e ∉ s.timers.tree.nodes
  | _ => True

/-- The memory of the object is new: its contents are arbitrary, and the rest is as it should be. -/
def Fresh (e : E) (s : NgxTimerEv E) : Prop := (s.timers.set e {}).Sound

structure Kept (s : NgxTimerEv E) : Prop where
  sound : s.timers.Sound
  func : s.func.isSome

variable {e : E} {s : NgxTimerEv E}

theorem Fresh.notMem (h : s.Fresh e) : e ∉ s.timers.tree.nodes := by
  have hmem := h.mem_iff e
  rw [Timers.set_event_self] at hmem
  exact fun he => Bool.false_ne_true (hmem.1 he)

theorem Kept.fresh (h : s.Kept) (he : e ∉ s.timers.tree.nodes) : s.Fresh e := by
  rw [h.sound.mem_iff, Bool.not_eq_true] at he
  exact h.sound.set he.symm

/-- What a step that succeeds does, for the object that it touches. -/
theorem agrees_of_eq {i : Input E} {t : NgxTimerEv E} (hstep : s.step e i = some t) (ht : t.Kept)
    (hothers : ∀ d, s.touched e i ≠ some d → s.SameTimer t.toEventLoop d) :
    s.Agrees e i ∧ ∃ t, s.step e i = some t ∧ t.Kept :=
  ⟨⟨t, hstep, ht.sound.isRbtree, count_eq ht.sound e, hothers⟩, t, hstep, ht⟩

theorem Fresh.init (h : s.Fresh e) (f : Nat) (ms : BitVec 64) :
    s.Agrees e (.init f ms) ∧ ∃ t, s.step e (.init f ms) = some t ∧ t.Kept := by
  have hzero : s.timers.memzero e = s.timers.set e {} := Timers.memzero_eq_set h.notMem
  have hset : ∀ d ≠ e, (s.timers.set e {}).event d = s.timers.event d :=
    fun d hd => Timers.set_event_of_ne hd {} s.timers
  have hne : ∀ d, some e ≠ some d → d ≠ e := fun d h hde => h (congrArg some hde.symm)
  by_cases hms : NgxTimer.invalid ms
  · refine agrees_of_eq (t := { s with func := some f, timers := s.timers.set e {} }) ?_ ⟨h, rfl⟩ ?_
    · rw [step, NgxTimerEv.init, hzero, if_pos hms]
    · exact fun d hd => ⟨hset d (hne d hd), rfl⟩
  · rcases addTimer_spec (s := ⟨s.timers.set e {}, s.currentMsec⟩) h e ms with
      ⟨t, hadd, hsound, _, _, hothers⟩
    refine agrees_of_eq (t := { s with func := some f, toEventLoop := t }) ?_ ⟨hsound, rfl⟩ ?_
    · rw [step, NgxTimerEv.init, hzero, if_neg hms, start, hadd]
      rfl
    · intro d hd
      exact ⟨((hothers d (hne d hd)).1).trans (hset d (hne d hd)), (hothers d (hne d hd)).2⟩

theorem Kept.expire (h : s.Kept) (e : E) :
    s.Agrees e .expire ∧ ∃ t, s.step e .expire = some t ∧ t.Kept := by
  rcases expireTimer_spec h.sound with ⟨expired, loop, hexpire, hsound, htimedout, hothers⟩
  have htouched : s.touched e .expire = expired := by
    rw [touched, hexpire]
    rfl
  by_cases he : expired = some e
  · rcases Option.isSome_iff_exists.1 h.func with ⟨f, hf⟩
    refine agrees_of_eq (t := { s with toEventLoop := loop, called := s.called ++ [f] }) ?_
      ⟨hsound, h.func⟩ ?_
    · simp [step, NgxTimerEv.expire, hexpire, he, call, htimedout e he, hf]
    · rw [htouched]
      exact hothers
  · refine agrees_of_eq (t := { s with toEventLoop := loop }) ?_ ⟨hsound, h.func⟩ ?_
    · simp [step, NgxTimerEv.expire, hexpire, he]
    · rw [htouched]
      exact hothers

/-- A step that meets the condition succeeds and does what it should. -/
theorem Kept.step (h : s.Kept) {i : Input E} (hi : s.InitsIdle e i) :
    s.Agrees e i ∧ ∃ t, s.step e i = some t ∧ t.Kept := by
  have hne : ∀ d, some e ≠ some d → d ≠ e := fun d h hde => h (congrArg some hde.symm)
  cases i with
  | init f ms => exact (h.fresh hi).init f ms
  | expire => exact h.expire e
  | start ms =>
      rcases addTimer_spec h.sound e ms with ⟨loop, hadd, hsound, _, _, hothers⟩
      refine agrees_of_eq (t := { s with toEventLoop := loop }) ?_ ⟨hsound, h.func⟩ ?_
      · rw [NgxTimerEv.step, start, hadd]
        rfl
      · exact fun d hd => hothers d (hne d hd)
  | clear =>
      rcases clearTimer_spec h.sound e with ⟨loop, hclear, hsound, _, hothers⟩
      refine agrees_of_eq (t := { s with toEventLoop := loop }) ?_ ⟨hsound, h.func⟩ ?_
      · rw [NgxTimerEv.step, clear, hclear]
        rfl
      · exact fun d hd => hothers d (hne d hd)
  | around a =>
      rcases around_spec h.sound a with ⟨loop, haround, hsound, hothers⟩
      refine agrees_of_eq (t := { s with toEventLoop := loop }) ?_ ⟨hsound, h.func⟩ hothers
      rw [NgxTimerEv.step, haround]
      rfl

/-- Zeroed while it is in the tree, the object has a node there and no bit; with a time to start, its
node is put there a second time. -/
theorem not_agrees_init {f : Nat} {ms : BitVec 64} (he : e ∈ s.timers.tree.nodes) :
    ¬ s.Agrees e (.init f ms) := by
  rintro ⟨t, hstep, _, hcount, _⟩
  have hmem : e ∈ (s.timers.memzero e).tree.nodes := mem_zeroed he
  have hunset : ((s.timers.memzero e).event e).timerSet = false := by
    rw [Timers.memzero, Timers.set_event_self]
  rw [step, init] at hstep
  by_cases hms : NgxTimer.invalid ms
  · rw [if_pos hms, Option.some.injEq] at hstep
    rw [← hstep, hunset] at hcount
    exact Multiset.count_ne_zero.2 hmem hcount
  · have hadd : (s.timers.memzero e).ngxEventAddTimer s.currentMsec e ms = none := by
      simp [Timers.ngxEventAddTimer, hunset, Timers.arm, ngxRbtreeInsert, hmem]
    simp [hms, start, addTimer, hadd] at hstep

theorem Kept.agrees_iff (h : s.Kept) (i : Input E) : s.Agrees e i ↔ s.InitsIdle e i := by
  constructor
  · intro hagrees
    cases i with
    | init f ms => exact fun he => not_agrees_init he hagrees
    | _ => trivial
  · exact fun hi => (h.step hi).1

/-- From the first `init` of an object on: its node and its bit agree after every step, and no other timer
is affected, exactly in the runs that never initialise the object while it is in the tree. -/
theorem node_agrees_iff (e : E) {s : NgxTimerEv E} (hs : s.Fresh e) (f : Nat) (ms : BitVec 64)
    (inputs : List (Input E)) :
    AlongM (step e) (Agrees e) s (.init f ms :: inputs) ↔
      AlongM (step e) (InitsIdle e) s (.init f ms :: inputs) := by
  rcases hs.init f ms with ⟨hagrees, t, ht, hkept⟩
  have hrest : AlongM (step e) (Agrees e) t inputs ↔ AlongM (step e) (InitsIdle e) t inputs :=
    alongM_iff_alongM (fun _ _ hs hi => (hs.step hi).2) (fun _ i hs => hs.agrees_iff i) hkept
  rw [alongM_cons ht, alongM_cons ht, hrest]
  exact and_congr_left' (iff_of_true hagrees hs.notMem)

/-- An object whose memory has arbitrary contents, in an empty tree. -/
def newObject : NgxTimerEv Nat where
  timers := ⟨Function.update (fun _ => {}) 0 ⟨true, true, 7⟩, .sentinel⟩
  currentMsec := 100

theorem newObject_fresh : newObject.Fresh 0 := by
  have hempty : newObject.timers.set 0 {} = ⟨fun _ => {}, .sentinel⟩ := by
    simp [newObject, Timers.set]
  rw [Fresh, hempty]
  exact .empty

/-- An object that is started, cleared and used again. -/
def usedAgain : List (Input Nat) :=
  [.start 5000, .around (.add 1 300), .clear, .init 8 20, .around (.clock 120), .expire]

theorem node_agrees_usedAgain :
    AlongM (step 0) (Agrees 0) newObject (.init 7 ngxNil :: usedAgain) ↔
      AlongM (step 0) (InitsIdle 0) newObject (.init 7 ngxNil :: usedAgain) :=
  node_agrees_iff 0 newObject_fresh 7 ngxNil usedAgain

/-- A second `init` of an object that waits. -/
theorem armed_init_leaves_node :
    ¬ AlongM (step 0) (Agrees 0) newObject [.init 7 1000, .init 8 ngxNil] := by
  intro h
  rcases newObject_fresh.init 7 1000 with ⟨⟨t, ht, _, hcount, _⟩, _⟩
  have hset : (t.timers.event 0).timerSet = true := by
    have hrun : (newObject.step 0 (.init 7 1000)).map (fun t => (t.timers.event 0).timerSet) = some true := by
      decide
    rw [ht] at hrun
    exact Option.some.inj hrun
  rw [hset, if_pos rfl] at hcount
  have hmem : 0 ∈ t.timers.tree.nodes := Multiset.one_le_count_iff_mem.1 hcount.ge
  exact not_agrees_init hmem ((alongM_cons ht).1 h).2.head

end NgxTimerEv

/-! ## NgxEvent::timeout -/

namespace NgxEvent

variable {E : Type} [DecidableEq E]

/-- `NgxEvent::timeout`, where `e` is the event. -/
def timeout (e : E) (timer : BitVec 64) (reset : Bool) (s : EventLoop E) : Option (EventLoop E) :=
  if (s.timers.event e).timerSet then
    if NgxTimer.invalid timer then s.delTimer e
    else if !reset then some s
    else s.addTimer e timer
  else s.addTimer e timer

inductive Input (E : Type)
  | timeout (timer : BitVec 64) (reset : Bool)
  | expire
  | around (a : Around E)

def step (e : E) (s : EventLoop E) : Input E → Option (EventLoop E)
  | .timeout timer reset => timeout e timer reset s
  | .expire => s.expireTimer.map Prod.snd
  | .around a => s.around a

/-- The deadlines are less than 300 ms apart. -/
def Near (a b : BitVec 64) : Prop := (a - b).toInt.natAbs < 300

/-- What a call is for: `ngx_nil` takes the event out of the tree, and a time puts it there, with the
deadline it has if it has one that is not to be reset or is near. -/
def Meant (e : E) (timer : BitVec 64) (reset : Bool) (s t : EventLoop E) : Prop :=
  if timer = ngxNil then e ∉ t.timers.tree.nodes
  else
    e ∈ t.timers.tree.nodes ∧
      if (s.timers.event e).timerSet = true ∧ reset = false then
        (t.timers.event e).key = (s.timers.event e).key
      else
        (t.timers.event e).key = s.currentMsec + timer ∨
          (s.timers.event e).timerSet = true ∧
            Near (s.currentMsec + timer) (s.timers.event e).key ∧
            (t.timers.event e).key = (s.timers.event e).key

def Obeys (e : E) (s : EventLoop E) (i : Input E) : Prop :=
  ∃ t, step e s i = some t ∧
    match i with
    | .timeout timer reset => Meant e timer reset s t
    | _ => True

/-- `ngx_nil` comes to an event that is set, and no reset to a deadline 2^63 ms from the old one, whose
distance `ngx_abs` has no value for. -/
def Sensible (e : E) (s : EventLoop E) : Input E → Prop
  | .timeout timer reset =>
      if timer = ngxNil then (s.timers.event e).timerSet = true
      else ¬ ((s.timers.event e).timerSet = true ∧ reset = true ∧
        s.currentMsec + timer - (s.timers.event e).key = BitVec.intMin 64)
  | _ => True

theorem near_iff {a b : BitVec 64} (h : a - b ≠ BitVec.intMin 64) :
    ngxAbs (a - b) < ngxTimerLazyDelay ↔ Near a b := by
  rw [ngxAbs, Near, ngxTimerLazyDelay]
  split
  · omega
  · rw [BitVec.toInt_neg_of_ne_intMin h]
    omega

theorem not_near_intMin {a b : BitVec 64} (h : a - b = BitVec.intMin 64) : ¬ Near a b ∧ b ≠ a := by
  constructor
  · rw [Near, h]
    decide
  · rintro rfl
    rw [BitVec.sub_self] at h
    exact absurd h (by decide)

theorem invalid_iff (timer : BitVec 64) : NgxTimer.invalid timer = true ↔ timer = ngxNil := by
  rw [NgxTimer.invalid, beq_iff_eq, ngxNil]

variable {e : E} {s : EventLoop E}

/-- Adding the timer is what a call with a time is for, where the event is not set or is to be reset. -/
theorem addTimer_meant_iff (h : s.timers.Sound) {timer : BitVec 64} {reset : Bool} (htimer : timer ≠ ngxNil)
    (hset : (s.timers.event e).timerSet = true → reset = true) :
    ∃ t, s.addTimer e timer = some t ∧ t.timers.Sound ∧
      (Meant e timer reset s t ↔ Sensible e s (.timeout timer reset)) := by
  rcases addTimer_spec h e timer with ⟨t, hadd, hsound, hmem, hkey, _⟩
  refine ⟨t, hadd, hsound, ?_⟩
  have hreset : ¬ ((s.timers.event e).timerSet = true ∧ reset = false) := by
    rintro ⟨hs, hr⟩
    exact Bool.false_ne_true (hr.symm.trans (hset hs))
  rw [Meant, Sensible, if_neg htimer, if_neg htimer, if_neg hreset, hkey, EventLoop.deadline]
  by_cases he : (s.timers.event e).timerSet = true
  · simp only [hmem, he, hset he, true_and]
    by_cases hfar : s.currentMsec + timer - (s.timers.event e).key = BitVec.intMin 64
    · -- `ngx_abs` is negative here, so that the old deadline stays.
      rcases not_near_intMin hfar with ⟨hnear, hne⟩
      have hlazy : ngxAbs (BitVec.intMin 64) < ngxTimerLazyDelay := by decide
      simp [hfar, hlazy, hnear, hne]
    · by_cases hnear : Near (s.currentMsec + timer) (s.timers.event e).key
      · simp [(near_iff hfar).2 hnear, hnear, hfar]
      · simp [mt (near_iff hfar).1 hnear, hfar]
  · simp [hmem, he]

theorem timeout_meant_iff (h : s.timers.Sound) (e : E) (timer : BitVec 64) (reset : Bool) :
    ∃ t, timeout e timer reset s = some t ∧ t.timers.Sound ∧
      (Meant e timer reset s t ↔ Sensible e s (.timeout timer reset)) := by
  rw [timeout]
  by_cases htimer : timer = ngxNil
  · have hinvalid : NgxTimer.invalid timer = true := (invalid_iff timer).2 htimer
    simp only [Meant, Sensible, if_pos htimer, hinvalid]
    cases he : (s.timers.event e).timerSet with
    | true =>
        rcases delTimer_spec h he with ⟨t, hdel, hsound, hnot, _⟩
        exact ⟨t, hdel, hsound, iff_of_true hnot rfl⟩
    | false =>
        -- The call goes on to `ngx_add_timer`, with the greatest time there is.
        rcases addTimer_spec h e timer with ⟨t, hadd, hsound, hmem, _, _⟩
        exact ⟨t, hadd, hsound, iff_of_false (not_not.2 hmem) Bool.false_ne_true⟩
  · have hvalid : ¬ NgxTimer.invalid timer = true := fun hinvalid => htimer ((invalid_iff timer).1 hinvalid)
    cases he : (s.timers.event e).timerSet with
    | false => exact addTimer_meant_iff h htimer fun hset => absurd (he.symm.trans hset) Bool.false_ne_true
    | true =>
        simp only [if_true, if_neg hvalid]
        cases reset with
        | true => exact addTimer_meant_iff h htimer fun _ => rfl
        | false =>
            refine ⟨s, rfl, h, iff_of_true ?_ ?_⟩
            · rw [Meant, if_neg htimer, if_pos ⟨he, rfl⟩]
              exact ⟨(h.mem_iff e).2 he, rfl⟩
            · rw [Sensible, if_neg htimer]
              exact fun hfar => Bool.false_ne_true hfar.2.1

theorem step_spec (h : s.timers.Sound) (e : E) (i : Input E) :
    (∃ t, step e s i = some t ∧ t.timers.Sound) ∧ (Obeys e s i ↔ Sensible e s i) := by
  cases i with
  | timeout timer reset =>
      rcases timeout_meant_iff h e timer reset with ⟨t, ht, hsound, hiff⟩
      refine ⟨⟨t, ht, hsound⟩, ?_⟩
      rw [← hiff]
      constructor
      · rintro ⟨t', ht', hmeant⟩
        obtain rfl := Option.some.inj (ht.symm.trans ht')
        exact hmeant
      · exact fun hmeant => ⟨t, ht, hmeant⟩
  | expire =>
      rcases expireTimer_spec h with ⟨expired, t, hexpire, hsound, _⟩
      have ht : step e s .expire = some t := by
        rw [step, hexpire]
        rfl
      exact ⟨⟨t, ht, hsound⟩, iff_of_true ⟨t, ht, trivial⟩ trivial⟩
  | around a =>
      rcases around_spec h a with ⟨t, haround, hsound, _⟩
      exact ⟨⟨t, haround, hsound⟩, iff_of_true ⟨t, haround, trivial⟩ trivial⟩

/-- Whatever else happens to the event and around it, every call of `timeout` does what it is for in
exactly the runs that never take out an event that is not set, and never ask for a deadline 2^63 ms away
from the old one. -/
theorem timeout_obeys_iff (e : E) {s : EventLoop E} (hs : s.timers.Sound) (inputs : List (Input E)) :
    AlongM (step e) (Obeys e) s inputs ↔ AlongM (step e) (Sensible e) s inputs :=
  alongM_iff_alongM (fun _ i hs _ => (step_spec hs e i).1) (fun _ i hs => (step_spec hs e i).2) hs

def quietLoop : EventLoop Nat := ⟨⟨fun _ => {}, .sentinel⟩, 100⟩

/-- An event that gets a deadline, keeps it, is reset, expires, is set and is taken out. -/
def watched : List (Input Nat) :=
  [.timeout 60 false, .timeout 900 false, .around (.add 1 300), .timeout 900 true, .around (.clock 1000),
    .expire, .expire, .timeout 5 true, .timeout ngxNil false]

theorem timeout_obeys_watched :
    AlongM (step 0) (Obeys 0) quietLoop watched ↔ AlongM (step 0) (Sensible 0) quietLoop watched :=
  timeout_obeys_iff 0 Timers.Sound.empty watched

/-- The event is not set, and gets a timer by being taken out. -/
theorem nil_timeout_arms : ¬ AlongM (step 0) (Obeys 0) quietLoop [.timeout ngxNil false] := by
  intro h
  have hsensible : Sensible 0 quietLoop (.timeout ngxNil false) :=
    (step_spec Timers.Sound.empty 0 _).2.1 h.head
  rw [Sensible, if_pos rfl] at hsensible
  exact Bool.false_ne_true hsensible

end NgxEvent
end Ngx
end CppPractice
