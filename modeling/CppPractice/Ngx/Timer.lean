import CppPractice.Lib.Trace
import CppPractice.Ngx.Rbtree
import Mathlib.Data.Multiset.Range

/-!
# Timer — the timer tree and pooled timers

`ngx_event_timer_rbtree` holds the events that wait for a moment, keyed by that moment in milliseconds
modulo 2^64.  `NgxTimer::add` takes an `NgxTimerEv` from a pool and puts its event there, and
`NgxTimer::call`, the handler of the event, puts the object back after its function has returned.  The
function may call `add` itself, so that between the tree and the pool an object is on the stack.

Other events share the tree.  Steps that the code does not survive (`none`) are those that follow a null
pointer of the tree, which is what comes of an event zeroed while it is there.
-/

namespace CppPractice
namespace Ngx

open Rbtree

/-! ## The timer tree -/

/-- The members of `ngx_event_t` that timers are about. -/
structure TimerEvent where
  timerSet : Bool := false
  timedout : Bool := false
  key : BitVec 64 := 0

structure Timers (E : Type) where
  event : E → TimerEvent
  tree : Rbtree E

/-- `ngx_abs`, which leaves the least integer negative. -/
def ngxAbs (v : BitVec 64) : Int := if 0 ≤ v.toInt then v.toInt else (-v).toInt

def ngxTimerLazyDelay : Int := 300

namespace Timers

variable {E : Type} [DecidableEq E]

def set (e : E) (v : TimerEvent) (T : Timers E) : Timers E :=
  { T with event := Function.update T.event e v }

/-- The order of `ngx_rbtree_insert_timer_value`. -/
def less (T : Timers E) (a b : E) : Bool := decide (((T.event a).key - (T.event b).key).toInt < 0)

/-- Taking the node out of the tree zeroes its key. -/
def ngxEventDelTimer (e : E) (T : Timers E) : Option (Timers E) := do
  let tree ← ngxRbtreeDelete e T.tree
  return { T with tree := tree }.set e { T.event e with timerSet := false, key := 0 }

/-- The end of `ngx_event_add_timer`, for an event that is not in the tree. -/
def arm (e : E) (key : BitVec 64) (T : Timers E) : Option (Timers E) := do
  let T := T.set e { T.event e with key := key }
  let tree ← ngxRbtreeInsert T.less e T.tree
  return { T with tree := tree }.set e { T.event e with timerSet := true }

def ngxEventAddTimer (now : BitVec 64) (e : E) (timer : BitVec 64) (T : Timers E) :
    Option (Timers E) := do
  let key := now + timer
  if (T.event e).timerSet then
    if ngxAbs (key - (T.event e).key) < ngxTimerLazyDelay then return T
    else arm e key (← T.ngxEventDelTimer e)
  else arm e key T

/-- A turn of the loop of `ngx_event_expire_timers`, up to the handler: the event that has timed out. -/
def ngxEventExpireTimers (now : BitVec 64) (T : Timers E) : Option (Option E × Timers E) :=
  match T.tree with
  | .sentinel => some (none, T)
  | tree => do
      let e ← ngxRbtreeMin tree
      if 0 < ((T.event e).key - now).toInt then return (none, T)
      let tree ← ngxRbtreeDelete e tree
      return (some e, { T with tree := tree }.set e ⟨false, true, 0⟩)

/-- `memzero` on an event -/
def memzero (e : E) (T : Timers E) : Timers E := { T with tree := T.tree.zeroed e }.set e {}

/-- The tree is one, and the events in it are those with their flag set. -/
structure Sound (T : Timers E) : Prop where
  isRbtree : IsRbtree T.tree
  nodup : T.tree.nodes.Nodup
  mem_iff : ∀ e, e ∈ T.tree.nodes ↔ (T.event e).timerSet = true

@[simp] theorem set_tree (e : E) (v : TimerEvent) (T : Timers E) : (T.set e v).tree = T.tree := rfl

@[simp] theorem set_event_self (e : E) (v : TimerEvent) (T : Timers E) : (T.set e v).event e = v := by
  simp [set]

theorem set_event_of_ne {e d : E} (h : d ≠ e) (v : TimerEvent) (T : Timers E) :
    (T.set e v).event d = T.event d := by
  simp [set, h]

namespace Sound

variable {T : Timers E} {e : E}

omit [DecidableEq E] in
theorem empty : (Timers.mk (fun _ : E => {}) .sentinel).Sound where
  isRbtree := ⟨0, .sentinel⟩
  nodup := Multiset.nodup_zero
  mem_iff e := by simp [nodes]

/-- Deletion, whatever the event's other members become. -/
theorem delete (h : T.Sound) (he : e ∈ T.tree.nodes) (v : TimerEvent) (hv : v.timerSet = false) :
    ∃ tree, ngxRbtreeDelete e T.tree = some tree ∧ T.tree.nodes = e ::ₘ tree.nodes ∧
      ({ T with tree := tree }.set e v).Sound := by
  rcases ngxRbtreeDelete_leads h.isRbtree he with ⟨tree, hdelete, htree, hnodes⟩
  refine ⟨tree, hdelete, ?_, htree, ?_, ?_⟩
  · rw [hnodes, Multiset.cons_erase he]
  · rw [set_tree, hnodes]
    exact h.nodup.erase e
  · intro d
    by_cases hd : d = e
    · subst hd
      rw [set_event_self, set_tree, hnodes, hv]
      simp [h.nodup.mem_erase_iff]
    · rw [set_event_of_ne hd, set_tree, hnodes, Multiset.mem_erase_of_ne hd]
      exact h.mem_iff d

theorem ngxEventDelTimer (h : T.Sound) (he : (T.event e).timerSet = true) :
    ∃ T', T.ngxEventDelTimer e = some T' ∧ T'.Sound ∧ T.tree.nodes = e ::ₘ T'.tree.nodes ∧
      (T'.event e).timerSet = false ∧ ∀ d ≠ e, T'.event d = T.event d := by
  rcases h.delete ((h.mem_iff e).2 he) { T.event e with timerSet := false, key := 0 } rfl with
    ⟨tree, hdelete, hnodes, hsound⟩
  refine ⟨_, ?_, hsound, hnodes, ?_, fun d hd => set_event_of_ne hd _ _⟩
  · rw [Timers.ngxEventDelTimer, hdelete]
    rfl
  · rw [set_event_self]

theorem insert (h : T.Sound) (he : (T.event e).timerSet = false) (v : TimerEvent)
    (hv : v.timerSet = true) (less : E → E → Bool) :
    ∃ tree, ngxRbtreeInsert less e T.tree = some tree ∧ tree.nodes = e ::ₘ T.tree.nodes ∧
      ({ T with tree := tree }.set e v).Sound := by
  have hmem : e ∉ T.tree.nodes := by
    rw [h.mem_iff, he]
    exact Bool.false_ne_true
  rcases ngxRbtreeInsert_leads less h.isRbtree hmem with ⟨tree, hinsert, htree, hnodes⟩
  refine ⟨tree, hinsert, hnodes, htree, ?_, ?_⟩
  · rw [set_tree, hnodes]
    exact Multiset.nodup_cons.2 ⟨hmem, h.nodup⟩
  · intro d
    rw [set_tree, hnodes, Multiset.mem_cons]
    by_cases hd : d = e
    · subst hd
      simp [hv]
    · rw [set_event_of_ne hd]
      exact (or_iff_right hd).trans (h.mem_iff d)

/-- Setting the members of an event, its flag apart, leaves the tree right. -/
theorem set (h : T.Sound) {v : TimerEvent} (hv : v.timerSet = (T.event e).timerSet) :
    (T.set e v).Sound where
  isRbtree := h.isRbtree
  nodup := h.nodup
  mem_iff d := by
    rw [set_tree, h.mem_iff]
    by_cases hd : d = e
    · rw [hd, set_event_self, hv]
    · rw [set_event_of_ne hd]

theorem arm (h : T.Sound) (he : (T.event e).timerSet = false) (key : BitVec 64) :
    ∃ T', T.arm e key = some T' ∧ T'.Sound ∧ T'.tree.nodes = e ::ₘ T.tree.nodes ∧
      (T'.event e).key = key ∧ ∀ d ≠ e, T'.event d = T.event d := by
  have hset : (T.set e { T.event e with key := key }).Sound := h.set rfl
  have hunset : ((T.set e { T.event e with key := key }).event e).timerSet = false := by
    rw [set_event_self, he]
  rcases hset.insert hunset { T.event e with key := key, timerSet := true } rfl
    (T.set e { T.event e with key := key }).less with ⟨tree, hinsert, hnodes, hsound⟩
  refine ⟨_, ?_, hsound, hnodes, ?_, ?_⟩
  · rw [Timers.arm, hinsert, set_event_self]
    rfl
  · rw [set_event_self]
  · intro d hd
    rw [set_event_of_ne hd]
    exact set_event_of_ne hd _ T

theorem ngxEventAddTimer (h : T.Sound) (now : BitVec 64) (e : E) (timer : BitVec 64) :
    ∃ T', T.ngxEventAddTimer now e timer = some T' ∧ T'.Sound ∧
      T'.tree.nodes = e ::ₘ T.tree.nodes.erase e ∧ ∀ d ≠ e, T'.event d = T.event d := by
  rw [Timers.ngxEventAddTimer]
  cases he : (T.event e).timerSet with
  | false =>
      rcases h.arm he (now + timer) with ⟨T', harm, hsound, hnodes, _, hothers⟩
      refine ⟨T', harm, hsound, ?_, hothers⟩
      have hmem : e ∉ T.tree.nodes := by
        rw [h.mem_iff, he]
        exact Bool.false_ne_true
      rw [hnodes, Multiset.erase_of_notMem hmem]
  | true =>
      -- The old deadline stays where the new one is close to it.
      by_cases hlazy : ngxAbs (now + timer - (T.event e).key) < ngxTimerLazyDelay
      · refine ⟨T, by simp [hlazy], h, ?_, fun d _ => rfl⟩
        exact (Multiset.cons_erase ((h.mem_iff e).2 he)).symm
      · rcases h.ngxEventDelTimer he with ⟨T₁, hdel, hsound₁, hnodes₁, hunset, hothers₁⟩
        rcases hsound₁.arm hunset (now + timer) with ⟨T', harm, hsound, hnodes, _, hothers⟩
        refine ⟨T', by simp [hlazy, hdel, harm], hsound, ?_, ?_⟩
        · rw [hnodes, hnodes₁, Multiset.erase_cons_head]
        · exact fun d hd => (hothers d hd).trans (hothers₁ d hd)

/-- A turn of the loop that finds an event: it was in the tree, its time has come, and it leaves. -/
theorem ngxEventExpireTimers (h : T.Sound) (now : BitVec 64) :
    T.ngxEventExpireTimers now = some (none, T) ∨
      ∃ e T', T.ngxEventExpireTimers now = some (some e, T') ∧ T'.Sound ∧
        T.tree.nodes = e ::ₘ T'.tree.nodes ∧ ((T.event e).key - now).toInt ≤ 0 ∧
        (T'.event e).timedout = true ∧ ∀ d ≠ e, T'.event d = T.event d := by
  by_cases hempty : T.tree = .sentinel
  -- The loop ends at an empty tree, and at a first event whose time has not come.
  · left
    simp [Timers.ngxEventExpireTimers, hempty]
  · rcases ngxRbtreeMin_spec h.isRbtree hempty with ⟨e, hmin, he⟩
    have hturn : T.ngxEventExpireTimers now = (do
        if 0 < ((T.event e).key - now).toInt then return (none, T)
        let tree ← ngxRbtreeDelete e T.tree
        return (some e, { T with tree := tree }.set e ⟨false, true, 0⟩)) := by
      simp [Timers.ngxEventExpireTimers, hmin]
    by_cases hlate : 0 < ((T.event e).key - now).toInt
    · left
      rw [hturn, if_pos hlate]
      rfl
    · right
      rcases h.delete he ⟨false, true, 0⟩ rfl with ⟨tree, hdelete, hnodes, hsound⟩
      refine ⟨e, _, ?_, hsound, hnodes, not_lt.1 hlate, ?_, fun d hd => set_event_of_ne hd _ _⟩
      · rw [hturn, if_neg hlate, hdelete]
        rfl
      · rw [set_event_self]

end Sound

/-- An event outside the tree is zeroed alone. -/
theorem memzero_eq_set {T : Timers E} {e : E} (he : e ∉ T.tree.nodes) : T.memzero e = T.set e {} := by
  rw [memzero, zeroed_eq_self he]

/-- An event outside the tree may be zeroed and set. -/
theorem Sound.memzero_add {T : Timers E} {e : E} (h : T.Sound) (he : e ∉ T.tree.nodes)
    (now timer : BitVec 64) :
    ∃ T', (T.memzero e).ngxEventAddTimer now e timer = some T' ∧ T'.Sound ∧
      T'.tree.nodes = e ::ₘ T.tree.nodes ∧ (T'.event e).key = now + timer ∧
      ∀ d ≠ e, T'.event d = T.event d := by
  have hunset : (T.event e).timerSet = false := by
    rw [← Bool.not_eq_true, ← h.mem_iff]
    exact he
  have hzero : (T.set e {}).Sound := h.set hunset.symm
  rcases hzero.arm (by rw [set_event_self]) (now + timer) with ⟨T', harm, hsound, hnodes, hkey, hothers⟩
  refine ⟨T', ?_, hsound, hnodes, hkey, fun d hd => (hothers d hd).trans (set_event_of_ne hd {} T)⟩
  rw [memzero_eq_set he, Timers.ngxEventAddTimer, set_event_self]
  exact harm

end Timers

/-! ## Pooled timers -/

/-- An event in the tree: that of an `NgxTimerEv` of the pool's, or any other. -/
inductive Ev
  | timer (o : Nat)
  | other (n : Nat)
  deriving DecidableEq

def Ev.object : Ev → Option Nat
  | .timer o => some o
  | .other _ => none

/-- Functions are told apart by the call of `add` that they came with.  `running` has the objects whose
`m_func` has not returned, the innermost call first; `added` and `ran` are a record, of the moment and the
time of each call of `add`, and of the function and the moment of each call of an `m_func`. -/
structure NgxTimer where
  timers : Timers Ev := ⟨fun _ => {}, .sentinel⟩
  func : Nat → Option Nat := fun _ => none
  pool : List Nat := []
  running : List Nat := []
  objects : Nat := 0
  clock : Nat := 0
  added : List (Nat × BitVec 64) := []
  ran : List (Nat × Nat) := []

namespace NgxTimer

/-- `ngx_current_msec` -/
def currentMsec (s : NgxTimer) : BitVec 64 := BitVec.ofNat 64 s.clock

/-- `NgxValue::invalid` at `ngx_msec_t`: the value is `ngx_nil`. -/
def invalid (ms : BitVec 64) : Bool := ms == -1

/-- The objects whose events are in the tree. -/
def armed (s : NgxTimer) : Multiset Nat := s.timers.tree.nodes.filterMap Ev.object

def acquire (s : NgxTimer) : Nat × NgxTimer :=
  match s.pool with
  | [] => (s.objects, { s with objects := s.objects + 1 })
  | o :: pool => (o, { s with pool := pool })

def release (o : Nat) (s : NgxTimer) : NgxTimer := { s with pool := s.pool ++ [o] }

/-- `NgxTimerEv::start` -/
def start (o : Nat) (ms : BitVec 64) (s : NgxTimer) : Option NgxTimer := do
  let timers ← s.timers.ngxEventAddTimer s.currentMsec (.timer o) ms
  return { s with timers := timers }

/-- `NgxTimerEv::init` -/
def init (o f : Nat) (ms : BitVec 64) (s : NgxTimer) : Option NgxTimer :=
  let s := { s with func := Function.update s.func o (some f), timers := s.timers.memzero (.timer o) }
  if invalid ms then some s else s.start o ms

def add (ms : BitVec 64) (s : NgxTimer) : Option NgxTimer :=
  let f := s.added.length
  let s := { s with added := s.added ++ [(s.clock, ms)] }
  let (o, s) := s.acquire
  s.init o f ms

/-- `NgxTimer::call`, up to the function.  An object without one is an exception. -/
def call (o : Nat) (s : NgxTimer) : Option NgxTimer :=
  if (s.timers.event (.timer o)).timedout then do
    let f ← s.func o
    return { s with ran := s.ran ++ [(f, s.clock)], running := o :: s.running }
  else some (s.release o)

/-- A turn of the loop of `ngx_event_expire_timers`. -/
def expire (s : NgxTimer) : Option NgxTimer := do
  let (expired, timers) ← s.timers.ngxEventExpireTimers s.currentMsec
  let s := { s with timers := timers }
  match expired with
  | some (.timer o) => s.call o
  | _ => return s

/-- The function that was called last returns, and `NgxTimer::call` goes on. -/
def afterCall (s : NgxTimer) : NgxTimer :=
  match s.running with
  | [] => s
  | o :: running => { s with running := running }.release o

inductive Input
  | add (ms : BitVec 64)
  | expire
  | returns
  /-- `ngx_time_update` -/
  | clock (now : Nat)
  | addOther (n : Nat) (ms : BitVec 64)
  /-- `if (ev->timer_set) ngx_del_timer(ev)` -/
  | delOther (n : Nat)

/-- The times that `add` is called with are less than 2^31. -/
def Input.InRange : Input → Prop
  | .add ms => ms.toNat < 2 ^ 31
  | _ => True

def step (s : NgxTimer) : Input → Option NgxTimer
  | .add ms => s.add ms
  | .expire => s.expire
  | .returns => some s.afterCall
  | .clock now => some { s with clock := now }
  | .addOther n ms => do
      let timers ← s.timers.ngxEventAddTimer s.currentMsec (.other n) ms
      return { s with timers := timers }
  | .delOther n =>
      if (s.timers.event (.other n)).timerSet then do
        let timers ← s.timers.ngxEventDelTimer (.other n)
        return { s with timers := timers }
      else some s

/-! ## What every run keeps -/

/-- A moment that is not before the deadline of a timer, unless the clock was set back by more than a
hundred million years. -/
def NotBefore (t : Nat) (ms : BitVec 64) (now : Nat) : Prop := t < now + 2 ^ 62 → t + ms.toNat ≤ now

theorem notBefore_of_toInt_le {t now : Nat} {ms : BitVec 64} (hms : ms.toNat < 2 ^ 31)
    (h : (BitVec.ofNat 64 t + ms - BitVec.ofNat 64 now).toInt ≤ 0) : NotBefore t ms now := by
  intro hback
  by_contra hearly
  -- The time that is left is less than half of the range of the clock.
  obtain ⟨left, hleft⟩ : ∃ left, t + ms.toNat = now + left := Nat.exists_eq_add_of_le (by omega)
  have hdiff : BitVec.ofNat 64 t + ms - BitVec.ofNat 64 now = BitVec.ofNat 64 left := by
    have hsum : BitVec.ofNat 64 t + ms = BitVec.ofNat 64 now + BitVec.ofNat 64 left := by
      rw [← BitVec.ofNat_add, ← hleft, BitVec.ofNat_add, BitVec.ofNat_toNat, BitVec.setWidth_eq]
    rw [hsum, BitVec.add_comm, BitVec.add_sub_cancel]
  have hsmall : left < 2 ^ 63 := by omega
  have hpositive : (BitVec.ofNat 64 left).toNat = left := by
    rw [BitVec.toNat_ofNat, Nat.mod_eq_of_lt (by omega)]
  rw [hdiff, BitVec.toInt_eq_toNat_of_lt (by omega), hpositive] at h
  omega

/-- An armed object waits with a function of its own, for the moment that `add` was asked for. -/
def Waits (s : NgxTimer) (o : Nat) : Prop :=
  ∃ f t ms, s.func o = some f ∧ s.added[f]? = some (t, ms) ∧ ms.toNat < 2 ^ 31 ∧
    (s.timers.event (.timer o)).key = BitVec.ofNat 64 t + ms

structure Kept (s : NgxTimer) : Prop where
  sound : s.timers.Sound
  places : (s.pool : Multiset Nat) + s.running + s.armed = Multiset.range s.objects
  waits : ∀ o ∈ s.armed, s.Waits o
  once : (s.armed.filterMap s.func + (s.ran.map Prod.fst : Multiset Nat)).Nodup
  notBefore : ∀ r ∈ s.ran, ∃ t ms, s.added[r.1]? = some (t, ms) ∧ NotBefore t ms r.2

theorem mem_armed {s : NgxTimer} {o : Nat} : o ∈ s.armed ↔ .timer o ∈ s.timers.tree.nodes := by
  rw [armed, Multiset.mem_filterMap]
  constructor
  · rintro ⟨e, he, ho⟩
    cases e with
    | timer o' =>
        cases ho
        exact he
    | other n => cases ho
  · intro he
    exact ⟨.timer o, he, rfl⟩

theorem filterMap_erase_other (n : Nat) (m : Multiset Ev) :
    (m.erase (.other n)).filterMap Ev.object = m.filterMap Ev.object := by
  by_cases hmem : .other n ∈ m
  · rw [← Multiset.cons_erase hmem, Multiset.erase_cons_head, Multiset.filterMap_cons_none _ _ rfl]
  · rw [Multiset.erase_of_notMem hmem]

/-- The function of an object does not matter where the object is not. -/
theorem filterMap_update {func : Nat → Option Nat} {v : Option Nat} {o : Nat} {m : Multiset Nat}
    (ho : o ∉ m) : m.filterMap (Function.update func o v) = m.filterMap func := by
  induction m using Quotient.inductionOn with
  | h l =>
      refine congrArg Multiset.ofList (List.filterMap_congr fun o' ho' => ?_)
      have hne : o' ≠ o := by
        rintro rfl
        exact ho (Multiset.mem_coe.2 ho')
      exact Function.update_of_ne hne v func

theorem getElem?_added {s s' : NgxTimer} (hadded : s.added <+: s'.added) {f : Nat}
    {call : Nat × BitVec 64} (h : s.added[f]? = some call) : s'.added[f]? = some call := by
  rcases hadded with ⟨more, hmore⟩
  have hf : f < s.added.length := (List.getElem?_eq_some_iff.1 h).1
  rw [← hmore, List.getElem?_append_left hf, h]

theorem Waits.congr {s s' : NgxTimer} {o : Nat} (h : s.Waits o) (hfunc : s'.func o = s.func o)
    (hadded : s.added <+: s'.added) (hevent : s'.timers.event (.timer o) = s.timers.event (.timer o)) :
    s'.Waits o := by
  rcases h with ⟨f, t, ms, hf, hcall, hms, hkey⟩
  exact ⟨f, t, ms, by rw [hfunc, hf], getElem?_added hadded hcall, hms, by rw [hevent, hkey]⟩

namespace Kept

variable {s : NgxTimer}

theorem start : Kept {} where
  sound := .empty
  places := rfl
  waits o ho := absurd ho (Multiset.notMem_zero o)
  once := Multiset.nodup_zero
  notBefore _ hr := nomatch hr

/-- The functions that wait or have been called came with a call of `add`. -/
theorem lt_length (h : s.Kept) {f : Nat}
    (hf : f ∈ s.armed.filterMap s.func + (s.ran.map Prod.fst : Multiset Nat)) :
    f < s.added.length := by
  rcases Multiset.mem_add.1 hf with hf | hf
  · rcases (Multiset.mem_filterMap _ _).1 hf with ⟨o, ho, hfunc⟩
    rcases h.waits o ho with ⟨f', t, ms, hf', hcall, _⟩
    obtain rfl := Option.some.inj (hf'.symm.trans hfunc)
    exact (List.getElem?_eq_some_iff.1 hcall).1
  · rcases List.mem_map.1 (Multiset.mem_coe.1 hf) with ⟨r, hr, rfl⟩
    rcases h.notBefore r hr with ⟨t, ms, hcall, _⟩
    exact (List.getElem?_eq_some_iff.1 hcall).1

end Kept

theorem notMem_of_cons_eq_range {o n : Nat} {m : Multiset Nat} (h : o ::ₘ m = Multiset.range n) :
    o ∉ m :=
  (Multiset.nodup_cons.1 (h ▸ Multiset.nodup_range n)).1

/-- The object that `acquire` gives is in none of the three places. -/
theorem acquire_spec {s : NgxTimer}
    (h : (s.pool : Multiset Nat) + s.running + s.armed = Multiset.range s.objects) :
    ∃ o pool objects, s.acquire = (o, { s with pool := pool, objects := objects }) ∧
      o ::ₘ ((pool : Multiset Nat) + s.running + s.armed) = Multiset.range objects := by
  cases hpool : s.pool with
  | nil =>
      refine ⟨s.objects, [], s.objects + 1, ?_, ?_⟩
      · simp [acquire, hpool]
      · rw [Multiset.range_succ, ← h, hpool]
  | cons o pool =>
      refine ⟨o, pool, s.objects, ?_, ?_⟩
      · simp [acquire, hpool]
      · rw [← h, hpool, ← Multiset.cons_coe]
        simp only [Multiset.cons_add]

namespace Kept

variable {s : NgxTimer}

theorem add (h : s.Kept) {ms : BitVec 64} (hms : ms.toNat < 2 ^ 31) :
    ∃ s', s.add ms = some s' ∧ s'.Kept := by
  rcases acquire_spec (s := { s with added := s.added ++ [(s.clock, ms)] }) h.places with
    ⟨o, pool, objects, hacquire, hplaces⟩
  have hfree : o ∉ s.armed := fun ho =>
    notMem_of_cons_eq_range hplaces (Multiset.mem_add.2 (.inr ho))
  -- `ngx_nil` is out of the range, so that the event is set.
  have hvalid : invalid ms = false := by
    rw [invalid, beq_eq_false_iff_ne]
    rintro rfl
    exact absurd hms (by decide)
  rcases h.sound.memzero_add (mt mem_armed.2 hfree) s.currentMsec ms with
    ⟨timers, htimers, hsound, hnodes, hkey, hothers⟩
  have harmed : timers.tree.nodes.filterMap Ev.object = o ::ₘ s.armed := by
    rw [hnodes]
    exact Multiset.filterMap_cons_some Ev.object (.timer o) _ rfl
  refine ⟨{ s with
    timers := timers, func := Function.update s.func o (some s.added.length), pool := pool,
    objects := objects, added := s.added ++ [(s.clock, ms)] }, ?_, hsound, ?_, ?_, ?_, ?_⟩
  · simp only [NgxTimer.add, hacquire, init, hvalid, NgxTimer.start, currentMsec] at htimers ⊢
    simp [htimers]
  · rw [← hplaces, armed, harmed, Multiset.add_cons]
    rfl
  · intro o' ho'
    rw [armed, harmed, Multiset.mem_cons] at ho'
    by_cases heq : o' = o
    -- The new object waits for this call, the others for theirs.
    · subst heq
      exact ⟨s.added.length, s.clock, ms, Function.update_self .., by simp, hms, hkey⟩
    · have hwaits : s.Waits o' := h.waits o' (ho'.resolve_left heq)
      refine hwaits.congr (Function.update_of_ne heq ..) ⟨_, rfl⟩ (hothers _ ?_)
      exact fun hev => heq (Ev.timer.inj hev)
  · rw [armed, harmed, Multiset.filterMap_cons_some _ _ _ (Function.update_self ..),
      filterMap_update hfree, Multiset.cons_add]
    exact Multiset.nodup_cons.2 ⟨fun hmem => (h.lt_length hmem).false, h.once⟩
  · intro r hr
    rcases h.notBefore r hr with ⟨t, ms', hcall, hdue⟩
    exact ⟨t, ms', getElem?_added (s := s) ⟨_, rfl⟩ hcall, hdue⟩

/-- Changes to other events leave everything as it was. -/
theorem retime (h : s.Kept) {timers : Timers Ev} (hsound : timers.Sound)
    (harmed : timers.tree.nodes.filterMap Ev.object = s.armed)
    (hevent : ∀ o, timers.event (.timer o) = s.timers.event (.timer o)) :
    Kept { s with timers := timers } where
  sound := hsound
  places := by
    rw [armed, harmed]
    exact h.places
  waits o ho := by
    rw [armed, harmed] at ho
    have hwaits : s.Waits o := h.waits o ho
    exact hwaits.congr rfl (List.prefix_refl _) (hevent o)
  once := by
    rw [armed, harmed]
    exact h.once
  notBefore := h.notBefore

/-- The function of an expired timer is called. -/
theorem fire (h : s.Kept) {o : Nat} {timers : Timers Ev} (hsound : timers.Sound)
    (hnodes : s.timers.tree.nodes = .timer o ::ₘ timers.tree.nodes)
    (hlate : ((s.timers.event (.timer o)).key - s.currentMsec).toInt ≤ 0)
    (htimedout : (timers.event (.timer o)).timedout = true)
    (hothers : ∀ d ≠ .timer o, timers.event d = s.timers.event d) :
    ∃ s', NgxTimer.call o { s with timers := timers } = some s' ∧ s'.Kept := by
  have harmed : s.armed = o ::ₘ timers.tree.nodes.filterMap Ev.object := by
    rw [armed, hnodes]
    exact Multiset.filterMap_cons_some Ev.object (.timer o) _ rfl
  have hleft : o ∉ timers.tree.nodes.filterMap Ev.object := by
    have hnodup : s.armed.Nodup := by
      refine Multiset.nodup_of_le ?_ (Multiset.nodup_range s.objects)
      exact h.places ▸ Multiset.le_add_left _ _
    rw [harmed] at hnodup
    exact (Multiset.nodup_cons.1 hnodup).1
  have ho : o ∈ s.armed := by
    rw [harmed]
    exact Multiset.mem_cons_self o _
  rcases h.waits o ho with ⟨f, t, ms, hfunc, hcall, hms, hkey⟩
  refine ⟨{ s with
    timers := timers, ran := s.ran ++ [(f, s.clock)], running := o :: s.running },
    ?_, hsound, ?_, ?_, ?_, ?_⟩
  · simp [NgxTimer.call, htimedout, hfunc]
  · rw [← h.places, harmed, armed, ← Multiset.cons_coe]
    simp only [Multiset.add_cons, Multiset.cons_add]
  · intro o' ho'
    have hne : o' ≠ o := by
      rintro rfl
      exact hleft ho'
    have hwaits : s.Waits o' := h.waits o' (by rw [harmed]; exact Multiset.mem_cons_of_mem ho')
    exact hwaits.congr rfl (List.prefix_refl _) (hothers _ fun hev => hne (Ev.timer.inj hev))
  -- The function moves from those that wait to those that were called.
  · have honce := h.once
    rw [harmed, Multiset.filterMap_cons_some _ _ _ hfunc] at honce
    convert honce using 1
    rw [armed, List.map_append, ← Multiset.coe_add, List.map_singleton, Multiset.coe_singleton,
      ← Multiset.singleton_add]
    abel
  · intro r hr
    rcases List.mem_append.1 hr with hr | hr
    · exact h.notBefore r hr
    · obtain rfl := List.mem_singleton.1 hr
      rw [hkey] at hlate
      exact ⟨t, ms, hcall, notBefore_of_toInt_le hms hlate⟩

theorem expire (h : s.Kept) : ∃ s', s.expire = some s' ∧ s'.Kept := by
  rcases h.sound.ngxEventExpireTimers s.currentMsec with
    hnone | ⟨e, timers, hturn, hsound, hnodes, hlate, htimedout, hothers⟩
  · refine ⟨s, ?_, h⟩
    simp [NgxTimer.expire, hnone]
  · cases e with
    | timer o =>
        rcases h.fire hsound hnodes hlate htimedout hothers with ⟨s', hcall, hs'⟩
        refine ⟨s', ?_, hs'⟩
        simp [NgxTimer.expire, hturn, hcall]
    | other n =>
        refine ⟨{ s with timers := timers }, ?_, ?_⟩
        · simp [NgxTimer.expire, hturn]
        · refine h.retime hsound ?_ fun o => hothers _ Ev.noConfusion
          rw [armed, hnodes, Multiset.filterMap_cons_none _ _ rfl]

theorem afterCall (h : s.Kept) : s.afterCall.Kept := by
  cases hrunning : s.running with
  | nil =>
      rw [NgxTimer.afterCall, hrunning]
      exact h
  | cons o running =>
      have hreturn : s.afterCall = release o { s with running := running } := by
        simp [NgxTimer.afterCall, hrunning]
      rw [hreturn]
      refine ⟨h.sound, ?_, h.waits, h.once, h.notBefore⟩
      have hplaces : ((s.pool ++ [o] : List Nat) : Multiset Nat) + running + s.armed =
          Multiset.range s.objects := by
        rw [← h.places, hrunning, ← Multiset.coe_add, Multiset.coe_singleton, ← Multiset.cons_coe,
          ← Multiset.singleton_add]
        abel
      exact hplaces

/-- One step never fails, and keeps the places. -/
theorem step (h : s.Kept) {i : Input} (hi : i.InRange) : ∃ s', s.step i = some s' ∧ s'.Kept := by
  cases i with
  | add ms => exact h.add hi
  | expire => exact h.expire
  | returns => exact ⟨_, rfl, h.afterCall⟩
  | clock now => exact ⟨_, rfl, h.sound, h.places, h.waits, h.once, h.notBefore⟩
  | addOther n ms =>
      rcases h.sound.ngxEventAddTimer s.currentMsec (.other n) ms with
        ⟨timers, hadd, hsound, hnodes, hothers⟩
      refine ⟨{ s with timers := timers }, ?_, ?_⟩
      · simp [NgxTimer.step, hadd]
      · refine h.retime hsound ?_ fun o => hothers _ Ev.noConfusion
        rw [hnodes, Multiset.filterMap_cons_none _ _ rfl]
        exact filterMap_erase_other n _
  | delOther n =>
      cases hset : (s.timers.event (.other n)).timerSet with
      | false => exact ⟨s, by simp [NgxTimer.step, hset], h⟩
      | true =>
          rcases h.sound.ngxEventDelTimer hset with ⟨timers, hdel, hsound, hnodes, _, hothers⟩
          refine ⟨{ s with timers := timers }, ?_, ?_⟩
          · simp [NgxTimer.step, hset, hdel]
          · refine h.retime hsound ?_ fun o => hothers _ Ev.noConfusion
            rw [armed, hnodes, Multiset.filterMap_cons_none _ _ rfl]

end Kept

/-! ## Runs -/

def run (inputs : List Input) : Option NgxTimer := inputs.foldlM step {}

/-- No function is called a second time, and none before its deadline. -/
def FiresOnce (s : NgxTimer) : Prop :=
  (s.ran.map Prod.fst).Nodup ∧
    ∀ r ∈ s.ran, ∃ t ms, s.added[r.1]? = some (t, ms) ∧ NotBefore t ms r.2

/-- Every object is in one of the three places, once. -/
def OnePlace (s : NgxTimer) : Prop :=
  ∀ o, s.pool.count o + s.running.count o + s.armed.count o = if o < s.objects then 1 else 0

theorem Kept.firesOnce {s : NgxTimer} (h : s.Kept) : s.FiresOnce := by
  refine ⟨?_, h.notBefore⟩
  have hran : (s.ran.map Prod.fst : Multiset Nat).Nodup :=
    Multiset.nodup_of_le (Multiset.le_add_left _ _) h.once
  exact Multiset.coe_nodup.1 hran

theorem Kept.onePlace {s : NgxTimer} (h : s.Kept) : s.OnePlace := by
  intro o
  have hcount := congrArg (Multiset.count o) h.places
  rw [Multiset.count_add, Multiset.count_add, Multiset.coe_count, Multiset.coe_count] at hcount
  rw [hcount, Multiset.count_eq_of_nodup (Multiset.nodup_range s.objects)]
  simp only [Multiset.mem_range]

/-- Whatever the order of the calls of `add`, from functions or not, of expirations and of changes to
other timers: the tree stays one, no function runs twice or early, every object has one place, and the
object that the next `add` takes is neither in the tree nor running. -/
theorem pooled_timers_fire_once (inputs : List Input) (h : ∀ i ∈ inputs, i.InRange) :
    ∃ s, run inputs = some s ∧ s.timers.Sound ∧ s.FiresOnce ∧ s.OnePlace ∧
      s.acquire.1 ∉ s.armed ∧ s.acquire.1 ∉ s.running := by
  have hstep : ∀ (s : NgxTimer) (i : Input), s.Kept → i.InRange → ∃ t, s.step i = some t ∧ t.Kept :=
    fun _ _ hs hi => hs.step hi
  rcases Trace.exists_foldlM hstep Kept.start h with ⟨s, hrun, hs⟩
  rcases acquire_spec hs.places with ⟨o, pool, objects, hacquire, hplaces⟩
  have hfree := notMem_of_cons_eq_range hplaces
  simp only [Multiset.mem_add, Multiset.mem_coe, not_or] at hfree
  refine ⟨s, hrun, hs.sound, hs.firesOnce, hs.onePlace, ?_, ?_⟩
  · rw [hacquire]
    exact hfree.2
  · rw [hacquire]
    exact hfree.1.2

/-- A function that calls `add`, while its own object is neither in the tree nor in the pool. -/
def rearming : List Input :=
  [.clock 1000, .add 5, .addOther 3 60000, .add 5, .clock 1005, .expire, .add 7, .returns, .expire, .add 9]

theorem pooled_timers_fire_once_rearming :
    ∃ s, run rearming = some s ∧ s.timers.Sound ∧ s.FiresOnce ∧ s.OnePlace ∧
      s.acquire.1 ∉ s.armed ∧ s.acquire.1 ∉ s.running :=
  pooled_timers_fire_once rearming (by simp [rearming, Input.InRange])

example : (run rearming).map (fun s => (s.ran, s.pool, s.running, s.objects)) =
    some ([(0, 1005), (1, 1005)], [], [1], 3) := by decide

end NgxTimer
end Ngx
end CppPractice
