import CppPractice.Ngx.NgxEvent
import CppPractice.Ngx.RbtreeOrder

/-!
# TimerOrder — timers expire in the order of their deadlines

The tree keeps its events in the order of their deadlines as long as these are less than half of the range
of the clock apart.  Then its leftmost event is the next one to expire, `ngx_event_find_timer` says how long
that takes, and a call of `ngx_event_expire_timers` goes through the events that are due in order, whatever
the handlers set and delete meanwhile.
-/

namespace CppPractice
namespace Ngx

open Rbtree

def ngxTimerInfinite : BitVec 64 := -1

namespace EventLoop

variable {E : Type} [DecidableEq E]

/-! ## The functions -/

/-- `ngx_event_find_timer` -/
def findTimer (s : EventLoop E) : Option (BitVec 64) :=
  match s.timers.tree with
  | .sentinel => some ngxTimerInfinite
  | tree => do
      let e ← ngxRbtreeMin tree
      let timer := (s.timers.event e).key - s.currentMsec
      return if 0 < timer.toInt then timer else 0

/-- `ngx_event_expire_timers`: the events whose handlers it calls, with their deadlines.  `handler` says what
the handler of an event does to the timers. -/
def expireTimers (handler : E → EventLoop E → List (Around E)) :
    Nat → EventLoop E → Option (List (E × BitVec 64) × EventLoop E)
  | 0, _ => none
  | rounds + 1, s => do
      let (expired, t) ← s.expireTimer
      match expired with
      | none => return ([], t)
      | some e => do
          let t ← (handler e t).foldlM around t
          let (fired, u) ← expireTimers handler rounds t
          return ((e, (s.timers.event e).key) :: fired, u)

/-- A step of a run: something around the tree, or a turn of the loop of `ngx_event_expire_timers`, between
which the handlers run. -/
inductive TimerStep (E : Type)
  | around (a : Around E)
  | turn

def timerStep (s : EventLoop E) : TimerStep E → Option (EventLoop E)
  | .around a => s.around a
  | .turn => s.expireTimer.map Prod.snd

/-- The clock goes forward, and neither it nor the times come near to half of the range of the clock. -/
def InTime (s : EventLoop E) : Around E → Prop
  | .clock now => s.currentMsec.toNat ≤ now.toNat ∧ now.toNat < 2 ^ 62
  | .add _ timer => timer.toNat < 2 ^ 62
  | .clear _ => True

def TimerStep.InTime (s : EventLoop E) : TimerStep E → Prop
  | .around a => s.InTime a
  | .turn => True

instance (s : EventLoop E) (i : TimerStep E) : Decidable (i.InTime s) :=
  match i with
  | .around (.clock now) =>
      inferInstanceAs (Decidable (s.currentMsec.toNat ≤ now.toNat ∧ now.toNat < 2 ^ 62))
  | .around (.add _ timer) => inferInstanceAs (Decidable (timer.toNat < 2 ^ 62))
  | .around (.clear _) => .isTrue trivial
  | .turn => .isTrue trivial

/-! ## The order of the deadlines -/

theorem toInt_sub {a b : BitVec 64} (ha : a.toNat < 2 ^ 63) (hb : b.toNat < 2 ^ 63) :
    (a - b).toInt = (a.toNat : Int) - b.toNat := by
  rw [BitVec.toInt_eq_toNat_cond, BitVec.toNat_sub]
  split <;> omega

/-- The deadline of an event, in milliseconds. -/
def due (s : EventLoop E) (e : E) : Nat := (s.timers.event e).key.toNat

/-- The deadlines are in order from left to right, and none is before `k`, which has passed. -/
structure Ordered (k : Nat) (s : EventLoop E) : Prop where
  sound : s.timers.Sound
  passed : k ≤ s.currentMsec.toNat
  clock : s.currentMsec.toNat < 2 ^ 62
  range : ∀ e ∈ s.timers.tree.nodes, k ≤ s.due e ∧ s.due e < 2 ^ 63
  sorted : s.timers.tree.inorder.Pairwise fun d e => s.due d ≤ s.due e

namespace Ordered

variable {k : Nat} {s : EventLoop E} {e : E}

omit [DecidableEq E] in
theorem start {now : BitVec 64} (hnow : now.toNat < 2 ^ 62) :
    Ordered 0 (⟨⟨fun _ : E => {}, .sentinel⟩, now⟩ : EventLoop E) where
  sound := Timers.Sound.empty
  passed := Nat.zero_le _
  clock := hnow
  range _ he := absurd he (Multiset.notMem_zero _)
  sorted := .nil

omit [DecidableEq E] in
/-- Nothing else than the deadlines of the events in the tree matters. -/
theorem of_eq {timers : Timers E} (h : Ordered k s) (hsound : timers.Sound)
    (hrange : ∀ d ∈ timers.tree.nodes, k ≤ (timers.event d).key.toNat ∧ (timers.event d).key.toNat < 2 ^ 63)
    {l : List E} (hl : l.Pairwise fun d e => s.due d ≤ s.due e) (htree : timers.tree.inorder = l)
    (hsame : ∀ d ∈ l, timers.event d = s.timers.event d) : Ordered k { s with timers := timers } where
  sound := hsound
  passed := h.passed
  clock := h.clock
  range := hrange
  sorted := by
    change timers.tree.inorder.Pairwise _
    rw [htree]
    refine hl.imp_of_mem ?_
    intro d d' hd hd' hle
    simp only [due, hsame d hd, hsame d' hd']
    exact hle

/-- An event that leaves the tree. -/
theorem without (h : Ordered k s) (he : e ∈ s.timers.tree.nodes) (v : TimerEvent) (hv : v.timerSet = false)
    {tree : Rbtree E} (hdelete : ngxRbtreeDelete e s.timers.tree = some tree) :
    Ordered k { s with timers := { s.timers with tree := tree }.set e v } := by
  rcases h.sound.delete he v hv with ⟨tree', hdelete', hnodes, hsound⟩
  obtain rfl : tree' = tree := Option.some.inj (hdelete'.symm.trans hdelete)
  rcases ngxRbtreeDelete_order hdelete with ⟨before, after, hold, hnew⟩
  have hnodup : (e ::ₘ tree'.nodes).Nodup := hnodes ▸ h.sound.nodup
  have hother : ∀ d ∈ tree'.nodes, d ≠ e := by
    rintro d hd rfl
    exact (Multiset.nodup_cons.1 hnodup).1 hd
  have hsame : ∀ d ∈ tree'.nodes,
      (({ s.timers with tree := tree' } : Timers E).set e v).event d = s.timers.event d :=
    fun d hd => Timers.set_event_of_ne (hother d hd) v _
  have hsorted : (before ++ after).Pairwise fun d e => s.due d ≤ s.due e := by
    have hall := h.sorted
    rw [hold] at hall
    exact hall.sublist ((List.sublist_cons_self e after).append_left before)
  apply h.of_eq hsound _ hsorted hnew
  · intro d hd
    rw [← hnew] at hd
    exact hsame d (mem_inorder.1 hd)
  · intro d hd
    rw [hsame d hd]
    exact h.range d (by rw [hnodes]; exact Multiset.mem_cons_of_mem hd)

/-- An event that comes into the tree. -/
theorem arm (h : Ordered k s) (he : (s.timers.event e).timerSet = false) {key : BitVec 64}
    (hkey : k ≤ key.toNat ∧ key.toNat < 2 ^ 63) {timers : Timers E}
    (harm : s.timers.arm e key = some timers) : Ordered k { s with timers := timers } := by
  rcases h.sound.arm he key with ⟨timers', harm', hsound, hnodes, hnewkey, hothers⟩
  obtain rfl : timers' = timers := Option.some.inj (harm'.symm.trans harm)
  have hmem : e ∉ s.timers.tree.nodes := by
    rw [h.sound.mem_iff, he]
    exact Bool.false_ne_true
  rcases Option.bind_eq_some_iff.1 harm with ⟨tree, hinsert, hset⟩
  have hdue : ∀ d, (timers'.event d).key.toNat =
      ((s.timers.set e { s.timers.event e with key := key }).event d).key.toNat := by
    intro d
    by_cases hd : d = e
    · rw [hd, hnewkey, Timers.set_event_self]
    · rw [hothers d hd, Timers.set_event_of_ne hd]
  have hold : ∀ d ∈ s.timers.tree.inorder, (timers'.event d).key.toNat = s.due d := by
    intro d hd
    rw [hothers d fun heq => hmem (heq ▸ mem_inorder.1 hd)]
    rfl
  have hsorted : s.timers.tree.inorder.Pairwise fun d d' =>
      (timers'.event d).key.toNat ≤ (timers'.event d').key.toNat := by
    refine h.sorted.imp_of_mem ?_
    intro d d' hd hd' hle
    rw [hold d hd, hold d' hd']
    exact hle
  -- The tree compares by the difference of the deadlines, which is that of the numbers.
  have hless : ∀ d ∈ s.timers.tree.inorder,
      ((s.timers.set e { s.timers.event e with key := key }).less e d = true →
        (timers'.event e).key.toNat ≤ (timers'.event d).key.toNat) ∧
      ((s.timers.set e { s.timers.event e with key := key }).less e d = false →
        (timers'.event d).key.toNat ≤ (timers'.event e).key.toNat) := by
    intro d hd
    have hrange : (timers'.event d).key.toNat < 2 ^ 63 := by
      rw [hold d hd]
      exact (h.range d (mem_inorder.1 hd)).2
    have hnew : (timers'.event e).key.toNat < 2 ^ 63 := by
      rw [hnewkey]
      exact hkey.2
    rw [hdue] at hrange hnew
    have hdiff := toInt_sub hnew hrange
    rw [← hdue, ← hdue] at hdiff
    constructor
    · intro hcmp
      have hneg := of_decide_eq_true hcmp
      omega
    · intro hcmp
      have hneg := of_decide_eq_false hcmp
      omega
  have htrans : ∀ b c d, (timers'.event b).key.toNat ≤ (timers'.event c).key.toNat →
      (timers'.event c).key.toNat ≤ (timers'.event d).key.toNat →
      (timers'.event b).key.toNat ≤ (timers'.event d).key.toNat := fun _ _ _ => Nat.le_trans
  rcases ngxRbtreeInsert_order htrans hinsert hless hsorted with ⟨before, after, -, -, hsorted'⟩
  cases hset
  refine ⟨hsound, h.passed, h.clock, ?_, hsorted'⟩
  intro d hd
  rw [hnodes] at hd
  rcases Multiset.mem_cons.1 hd with rfl | hd
  · simpa only [due, hnewkey] using hkey
  · have hrange := h.range d hd
    rw [← hold d (mem_inorder.2 hd)] at hrange
    exact hrange

omit [DecidableEq E] in
/-- A time that is not far from now, if there is one. -/
theorem deadline_range (h : Ordered k s) {timer : BitVec 64} (htimer : timer.toNat < 2 ^ 62) :
    (s.currentMsec + timer).toNat = s.currentMsec.toNat + timer.toNat ∧
      k ≤ (s.currentMsec + timer).toNat ∧ (s.currentMsec + timer).toNat < 2 ^ 63 := by
  have hclock := h.clock
  have hpassed := h.passed
  have hsum : (s.currentMsec + timer).toNat = s.currentMsec.toNat + timer.toNat := by
    rw [BitVec.toNat_add, Nat.mod_eq_of_lt (by omega)]
  rw [hsum]
  omega

theorem delTimer (h : Ordered k s) (he : (s.timers.event e).timerSet = true) :
    ∃ t, s.delTimer e = some t ∧ Ordered k t ∧ (t.timers.event e).timerSet = false := by
  have hmem : e ∈ s.timers.tree.nodes := (h.sound.mem_iff e).2 he
  rcases h.sound.delete hmem { s.timers.event e with timerSet := false, key := 0 } rfl with
    ⟨tree, hdelete, -, -⟩
  refine ⟨_, ?_, h.without hmem { s.timers.event e with timerSet := false, key := 0 } rfl hdelete, ?_⟩
  · rw [EventLoop.delTimer, Timers.ngxEventDelTimer, hdelete]
    rfl
  · rw [Timers.set_event_self]

theorem clearTimer (h : Ordered k s) (e : E) : ∃ t, s.clearTimer e = some t ∧ Ordered k t := by
  cases he : (s.timers.event e).timerSet with
  | false => exact ⟨s, by simp [EventLoop.clearTimer, he], h⟩
  | true =>
      rcases h.delTimer he with ⟨t, hdel, ht, -⟩
      exact ⟨t, by simp [EventLoop.clearTimer, he, hdel], ht⟩

theorem addTimer (h : Ordered k s) (e : E) {timer : BitVec 64} (htimer : timer.toNat < 2 ^ 62) :
    ∃ t, s.addTimer e timer = some t ∧ Ordered k t := by
  rcases h.deadline_range htimer with ⟨-, hkey⟩
  cases he : (s.timers.event e).timerSet with
  | false =>
      rcases h.sound.arm he (s.currentMsec + timer) with ⟨timers, harm, -⟩
      refine ⟨{ s with timers := timers }, ?_, h.arm he hkey harm⟩
      simp [EventLoop.addTimer, Timers.ngxEventAddTimer, he, harm]
  | true =>
      by_cases hlazy : ngxAbs (s.currentMsec + timer - (s.timers.event e).key) < ngxTimerLazyDelay
      · exact ⟨s, by simp [EventLoop.addTimer, Timers.ngxEventAddTimer, he, hlazy], h⟩
      · rcases h.delTimer he with ⟨t, hdel, ht, hunset⟩
        rcases Option.bind_eq_some_iff.1 hdel with ⟨timers, hdelTimers, hset⟩
        cases hset
        rcases ht.sound.arm hunset (s.currentMsec + timer) with ⟨timers', harm, -⟩
        refine ⟨{ s with timers := timers' }, ?_, ht.arm hunset hkey harm⟩
        simp [EventLoop.addTimer, Timers.ngxEventAddTimer, he, hlazy, hdelTimers, harm]

theorem around (h : Ordered k s) {a : Around E} (ha : s.InTime a) :
    ∃ t, s.around a = some t ∧ Ordered k t := by
  cases a with
  | clock now => exact ⟨_, rfl, h.sound, Nat.le_trans h.passed ha.1, ha.2, h.range, h.sorted⟩
  | add d timer => exact h.addTimer d ha
  | clear d => exact h.clearTimer d

omit [DecidableEq E] in
/-- The leftmost event is the first that is due. -/
theorem first (h : Ordered k s) (hempty : s.timers.tree ≠ .sentinel) :
    ∃ e, ngxRbtreeMin s.timers.tree = some e ∧ e ∈ s.timers.tree.nodes ∧
      ∀ d ∈ s.timers.tree.nodes, s.due e ≤ s.due d := by
  rcases ngxRbtreeMin_spec h.sound.isRbtree hempty with ⟨e, hmin, he⟩
  rcases ngxRbtreeMin_eq hmin with ⟨after, hlist⟩
  refine ⟨e, hmin, he, ?_⟩
  intro d hd
  have hsorted := h.sorted
  have hin := mem_inorder.2 hd
  rw [hlist] at hsorted hin
  rcases List.mem_cons.1 hin with rfl | hin
  · exact Nat.le_refl _
  · exact (List.pairwise_cons.1 hsorted).1 d hin

omit [DecidableEq E] in
/-- How far away a deadline is, in the integers of the code. -/
theorem toInt_due (h : Ordered k s) (he : e ∈ s.timers.tree.nodes) :
    ((s.timers.event e).key - s.currentMsec).toInt = (s.due e : Int) - s.currentMsec.toNat := by
  have hclock := h.clock
  exact toInt_sub (h.range e he).2 (by omega)

/-- A turn of the loop: nothing is due, or the event with the first deadline leaves the tree. -/
theorem turn (h : Ordered k s) :
    s.expireTimer = some (none, s) ∧ (∀ d ∈ s.timers.tree.nodes, s.currentMsec.toNat < s.due d) ∨
      ∃ e t, s.expireTimer = some (some e, t) ∧ k ≤ s.due e ∧ s.due e ≤ s.currentMsec.toNat ∧
        Ordered (s.due e) t ∧ t.currentMsec = s.currentMsec ∧
        s.timers.tree.nodes = e ::ₘ t.timers.tree.nodes ∧
        (∀ d ∈ s.timers.tree.nodes, s.due e ≤ s.due d) ∧ ∀ d ≠ e, t.timers.event d = s.timers.event d := by
  by_cases hempty : s.timers.tree = .sentinel
  · refine .inl ⟨by simp [expireTimer, Timers.ngxEventExpireTimers, hempty], ?_⟩
    rw [hempty]
    exact fun _ he => absurd he (Multiset.notMem_zero _)
  · rcases h.first hempty with ⟨e, hmin, he, hfirst⟩
    have hturn : s.timers.ngxEventExpireTimers s.currentMsec = (do
        if 0 < ((s.timers.event e).key - s.currentMsec).toInt then return (none, s.timers)
        let tree ← ngxRbtreeDelete e s.timers.tree
        return (some e, { s.timers with tree := tree }.set e ⟨false, true, 0⟩)) := by
      simp [Timers.ngxEventExpireTimers, hmin]
    have hdue := h.toInt_due he
    -- the first timer is in the future only if all are
    by_cases hlate : 0 < ((s.timers.event e).key - s.currentMsec).toInt
    · rw [if_pos hlate] at hturn
      refine .inl ⟨by simp [expireTimer, hturn], fun d hd => ?_⟩
      have hle := hfirst d hd
      rw [hdue] at hlate
      omega
    · rcases h.sound.delete he ⟨false, true, 0⟩ rfl with ⟨tree, hdelete, hnodes, -⟩
      have hleft := h.without he ⟨false, true, 0⟩ rfl hdelete
      rw [if_neg hlate, hdelete] at hturn
      rw [hdue] at hlate
      have hpassed : s.due e ≤ s.currentMsec.toNat := by omega
      refine .inr ⟨e, { s with timers := { s.timers with tree := tree }.set e ⟨false, true, 0⟩ }, ?_,
        (h.range e he).1, hpassed, ?_, rfl, hnodes, hfirst,
        fun d hd => Timers.set_event_of_ne hd _ _⟩
      · rw [expireTimer, hturn]
        rfl
      · refine ⟨hleft.sound, hpassed, hleft.clock, ?_, hleft.sorted⟩
        intro d hd
        have hin : d ∈ s.timers.tree.nodes := by
          rw [hnodes]
          exact Multiset.mem_cons_of_mem hd
        have hne : d ≠ e := by
          rintro rfl
          exact (Multiset.nodup_cons.1 (hnodes ▸ h.sound.nodup)).1 hd
        have hrange := hfirst d hin
        refine ⟨?_, (hleft.range d hd).2⟩
        simp only [EventLoop.due, Timers.set_event_of_ne hne] at hrange ⊢
        exact hrange

theorem timerStep (h : Ordered k s) {i : TimerStep E} (hi : i.InTime s) :
    ∃ t, s.timerStep i = some t ∧ Ordered 0 t := by
  have hweaken : ∀ {l : Nat} {t : EventLoop E}, Ordered l t → Ordered 0 t := fun ht =>
    ⟨ht.sound, Nat.zero_le _, ht.clock, fun d hd => ⟨Nat.zero_le _, (ht.range d hd).2⟩, ht.sorted⟩
  cases i with
  | around a =>
      rcases h.around hi with ⟨t, ht, hordered⟩
      exact ⟨t, ht, hweaken hordered⟩
  | turn =>
      rcases h.turn with ⟨hturn, -⟩ | ⟨e, t, hturn, -, -, hordered, -⟩
      · exact ⟨s, by simp [EventLoop.timerStep, hturn], hweaken h⟩
      · exact ⟨t, by simp [EventLoop.timerStep, hturn], hweaken hordered⟩

end Ordered

/-! ## The next deadline -/

/-- What `ngx_event_find_timer` says: for ever without a timer, and else how long it is to the first
deadline. -/
def FindsFirst (s : EventLoop E) : Prop :=
  (s.timers.tree.nodes = 0 ∧ s.findTimer = some ngxTimerInfinite) ∨
    ∃ e v, e ∈ s.timers.tree.nodes ∧ (∀ d ∈ s.timers.tree.nodes, s.due e ≤ s.due d) ∧
      s.findTimer = some v ∧ v.toNat = s.due e - s.currentMsec.toNat

omit [DecidableEq E] in
theorem Ordered.findsFirst {k : Nat} {s : EventLoop E} (h : Ordered k s) : s.FindsFirst := by
  by_cases hempty : s.timers.tree = .sentinel
  · refine .inl ⟨?_, ?_⟩
    · rw [hempty]
      rfl
    · simp [findTimer, hempty]
  · rcases h.first hempty with ⟨e, hmin, he, hfirst⟩
    have hfind : s.findTimer = some (if 0 < ((s.timers.event e).key - s.currentMsec).toInt then
        (s.timers.event e).key - s.currentMsec else 0) := by
      simp [findTimer, hmin]
    have hdue := h.toInt_due he
    refine .inr ⟨e, _, he, hfirst, hfind, ?_⟩
    by_cases hlate : 0 < ((s.timers.event e).key - s.currentMsec).toInt
    · rw [hdue] at hlate
      rw [if_pos (hdue ▸ hlate), BitVec.toNat_sub_of_le (BitVec.le_def.2 ?_)]
      · rfl
      · change s.currentMsec.toNat ≤ s.due e
        omega
    · rw [if_neg hlate]
      rw [hdue] at hlate
      change 0 = _
      omega

/-! ## The loop -/

section loop

variable {handler : E → EventLoop E → List (Around E)} {k : Nat} {s u : EventLoop E}

/-- What the handlers do is in time. -/
def HandlersInTime (handler : E → EventLoop E → List (Around E)) : Prop :=
  ∀ e s, Trace.AlongReached around InTime s (handler e s)

theorem Ordered.calls (h : Ordered k s) {calls : List (Around E)}
    (hcalls : Trace.AlongReached EventLoop.around InTime s calls) :
    ∃ t, calls.foldlM EventLoop.around s = some t ∧ Ordered k t :=
  Trace.exists_foldlM_reached (J := Ordered k) (fun _ _ hs ha => hs.around ha) h hcalls

/-- The deadlines of the events that expire, one after the other, and what is left. -/
structure InOrder (fired : List (E × BitVec 64)) (u : EventLoop E) : Prop where
  sorted : (fired.map fun f => f.2.toNat).Pairwise (· ≤ ·)
  passed : ∀ f ∈ fired, f.2.toNat ≤ u.currentMsec.toNat
  left : ∀ d ∈ u.timers.tree.nodes, u.currentMsec.toNat < u.due d

/-- Handlers cannot set a timer before the deadline of the event that they are called for. -/
theorem Ordered.expireTimers (hhandler : HandlersInTime handler) {rounds : Nat}
    {fired : List (E × BitVec 64)} (h : Ordered k s)
    (hrun : s.expireTimers handler rounds = some (fired, u)) :
    Ordered k u ∧ InOrder fired u ∧ ∀ f ∈ fired, k ≤ f.2.toNat := by
  induction rounds generalizing s k fired with
  | zero => cases hrun
  | succ rounds ih =>
      rw [EventLoop.expireTimers] at hrun
      rcases h.turn with ⟨hturn, hlate⟩ | ⟨e, t, hturn, hke, -, ht, -⟩
      · rw [hturn] at hrun
        cases hrun
        exact ⟨h, ⟨.nil, (by simp), hlate⟩, (by simp)⟩
      · rw [hturn] at hrun
        rcases ht.calls (hhandler e t) with ⟨t', hcalls, ht'⟩
        simp only [Option.bind_eq_bind, Option.bind_some, hcalls] at hrun
        rcases Option.bind_eq_some_iff.1 hrun with ⟨⟨rest, v⟩, hrest, hrun⟩
        cases hrun
        rcases ih ht' hrest with ⟨hu, hinorder, hfrom⟩
        refine ⟨⟨hu.sound, Nat.le_trans hke hu.passed, hu.clock, ?_, hu.sorted⟩, ⟨?_, ?_, hinorder.left⟩, ?_⟩
        · exact fun d hd => ⟨Nat.le_trans hke (hu.range d hd).1, (hu.range d hd).2⟩
        · refine List.pairwise_cons.2 ⟨?_, hinorder.sorted⟩
          intro n hn
          rcases List.mem_map.1 hn with ⟨f, hf, rfl⟩
          exact hfrom f hf
        · intro f hf
          rcases List.mem_cons.1 hf with rfl | hf
          · exact hu.passed
          · exact hinorder.passed f hf
        · intro f hf
          rcases List.mem_cons.1 hf with rfl | hf
          · exact hke
          · exact Nat.le_trans hke (hfrom f hf)

/-- Handlers that set timers for a later moment only, without waiting for it. -/
def Later : Around E → Prop
  | .clock _ => False
  | .add _ timer => 0 < timer.toNat ∧ timer.toNat < 2 ^ 62
  | .clear _ => True

/-- How many events are due. -/
def dueCount (s : EventLoop E) : Nat := s.timers.tree.nodes.countP fun d => s.due d ≤ s.currentMsec.toNat

omit [DecidableEq E] in
/-- The events that stay with the deadline they have are due if they were. -/
theorem countP_same {t : EventLoop E} {m : Multiset E} (hclock : t.currentMsec = s.currentMsec)
    (hsame : ∀ d ∈ m, t.timers.event d = s.timers.event d) :
    (m.countP fun d => t.due d ≤ t.currentMsec.toNat) = m.countP fun d => s.due d ≤ s.currentMsec.toNat := by
  apply Multiset.countP_congr rfl
  intro d hd
  simp only [due, hsame d hd, hclock]

omit [DecidableEq E] in
/-- An event that leaves the tree. -/
theorem dueCount_cons (h : s.timers.Sound) {t : EventLoop E} {e : E} (hclock : t.currentMsec = s.currentMsec)
    (hnodes : s.timers.tree.nodes = e ::ₘ t.timers.tree.nodes)
    (hothers : ∀ d ≠ e, t.timers.event d = s.timers.event d) :
    s.dueCount = t.dueCount + if s.due e ≤ s.currentMsec.toNat then 1 else 0 := by
  have hnodup : (e ::ₘ t.timers.tree.nodes).Nodup := hnodes ▸ h.nodup
  have hsame : ∀ d ∈ t.timers.tree.nodes, t.timers.event d = s.timers.event d := by
    intro d hd
    apply hothers d
    rintro rfl
    exact (Multiset.nodup_cons.1 hnodup).1 hd
  rw [dueCount, hnodes, Multiset.countP_cons, dueCount, countP_same hclock hsame]

theorem Ordered.later (h : Ordered k s) {a : Around E} (ha : Later a) :
    ∃ t, s.around a = some t ∧ Ordered k t ∧ t.currentMsec = s.currentMsec ∧ t.dueCount ≤ s.dueCount := by
  cases a with
  | clock now => exact absurd ha id
  | clear e =>
      cases he : (s.timers.event e).timerSet with
      | false => exact ⟨s, by simp [EventLoop.around, EventLoop.clearTimer, he], h, rfl, Nat.le_refl _⟩
      | true =>
          rcases h.delTimer he with ⟨t, hdel, ht, -⟩
          rcases h.sound.ngxEventDelTimer he with ⟨timers, hdelTimers, -, hnodes, -, hothers⟩
          rw [EventLoop.delTimer, hdelTimers] at hdel
          cases hdel
          refine ⟨_, ?_, ht, rfl, ?_⟩
          · simp [EventLoop.around, EventLoop.clearTimer, EventLoop.delTimer, he, hdelTimers]
          · rw [dueCount_cons h.sound (t := { s with timers := timers }) rfl hnodes hothers]
            exact Nat.le_add_right _ _
  | add e timer =>
      rcases h.addTimer e ha.2 with ⟨t, hadd, ht⟩
      rcases h.sound.ngxEventAddTimer s.currentMsec e timer with ⟨timers, haddTimers, -, hnodes, hothers⟩
      have hkey := addTimer_key h.sound haddTimers
      rw [EventLoop.addTimer, haddTimers] at hadd
      cases hadd
      refine ⟨_, ?_, ht, rfl, ?_⟩
      · simp [EventLoop.around, EventLoop.addTimer, haddTimers]
      · have hnodup := h.sound.nodup
        have hsame : ∀ d ∈ s.timers.tree.nodes.erase e, timers.event d = s.timers.event d := by
          intro d hd
          exact hothers d (hnodup.mem_erase_iff.1 hd).1
        have hrest := countP_same (s := s) (t := ⟨timers, s.currentMsec⟩) rfl hsame
        rw [dueCount, hnodes, Multiset.countP_cons, hrest, dueCount]
        by_cases hkept : (s.timers.event e).timerSet = true ∧
            ngxAbs (s.currentMsec + timer - (s.timers.event e).key) < ngxTimerLazyDelay
        · -- the timer stays as it was
          rw [if_pos hkept] at hkey
          have hmem : e ∈ s.timers.tree.nodes := (h.sound.mem_iff e).2 hkept.1
          have hdue : (⟨timers, s.currentMsec⟩ : EventLoop E).due e = s.due e :=
            congrArg BitVec.toNat hkey
          have hcons : (s.timers.tree.nodes.countP fun d => s.due d ≤ s.currentMsec.toNat) =
              ((s.timers.tree.nodes.erase e).countP fun d => s.due d ≤ s.currentMsec.toNat) +
                if s.due e ≤ s.currentMsec.toNat then 1 else 0 := by
            rw [← Multiset.countP_cons, Multiset.cons_erase hmem]
          rw [hcons, hdue]
        · -- the new deadline is later than now
          rw [if_neg hkept] at hkey
          have hsum := (h.deadline_range ha.2).1
          have hpos := ha.1
          have hdue : ¬(⟨timers, s.currentMsec⟩ : EventLoop E).due e ≤ s.currentMsec.toNat := by
            rw [due, hkey, hsum]
            omega
          rw [if_neg hdue, Nat.add_zero]
          exact Multiset.countP_le_of_le _ (Multiset.erase_le e _)

theorem Ordered.laterCalls {calls : List (Around E)} (h : Ordered k s) (hcalls : ∀ a ∈ calls, Later a) :
    ∃ t, calls.foldlM EventLoop.around s = some t ∧ Ordered k t ∧ t.dueCount ≤ s.dueCount := by
  induction calls generalizing s with
  | nil => exact ⟨s, rfl, h, Nat.le_refl _⟩
  | cons a calls ih =>
      rcases h.later (hcalls a List.mem_cons_self) with ⟨s', hstep, hs', -, hle⟩
      rcases ih hs' fun b hb => hcalls b (List.mem_cons_of_mem a hb) with ⟨t, ht, hordered, hle'⟩
      refine ⟨t, ?_, hordered, Nat.le_trans hle' hle⟩
      rw [List.foldlM_cons, hstep]
      exact ht

/-- Every turn leaves an event less that is due. -/
theorem Ordered.expireTimers_ends (hlater : ∀ e s, ∀ a ∈ handler e s, Later a) {rounds : Nat}
    (h : Ordered k s) (hrounds : s.dueCount < rounds) :
    ∃ fired u, s.expireTimers handler rounds = some (fired, u) := by
  induction rounds generalizing s k with
  | zero => exact absurd hrounds (Nat.not_lt_zero _)
  | succ rounds ih =>
      rw [EventLoop.expireTimers]
      rcases h.turn with ⟨hturn, -⟩ | ⟨e, t, hturn, -, hdue, ht, hclock, hnodes, -, hothers⟩
      · exact ⟨[], s, by rw [hturn]; rfl⟩
      · have hcount := dueCount_cons h.sound hclock hnodes hothers
        rw [if_pos hdue] at hcount
        rcases ht.laterCalls (hlater e t) with ⟨w, hw, hordered, hle⟩
        rcases ih hordered (by omega) with ⟨fired, u, hrest⟩
        refine ⟨(e, (s.timers.event e).key) :: fired, u, ?_⟩
        simp only [hturn, Option.bind_eq_bind, Option.bind_some, hw, hrest]
        rfl

end loop

/-! ## Every run -/

/-- No timers, at some moment. -/
def idle (now : BitVec 64) : EventLoop E := ⟨⟨fun _ => {}, .sentinel⟩, now⟩

/-- After any run the first deadline is found, a call of `ngx_event_expire_timers` that comes to an end has
gone through the events in the order of their deadlines and left none that is due, and it does come to an
end where the handlers only set timers for later.  The tree is never high. -/
theorem timers_expire_in_order {now : BitVec 64} (hnow : now.toNat < 2 ^ 62) {steps : List (TimerStep E)}
    (hsteps : Trace.AlongReached timerStep (fun s i => i.InTime s) (idle now) steps) :
    ∃ s, steps.foldlM timerStep (idle now) = some s ∧ s.FindsFirst ∧
      s.timers.tree.height ≤ 2 * Nat.log 2 (s.timers.tree.nodes.card + 1) ∧
      ∀ handler, (HandlersInTime handler → ∀ rounds fired u,
          s.expireTimers handler rounds = some (fired, u) → InOrder fired u ∧ u.FindsFirst) ∧
        ((∀ e s, ∀ a ∈ handler e s, Later a) → ∀ rounds, s.timers.tree.nodes.card < rounds →
          ∃ fired u, s.expireTimers handler rounds = some (fired, u)) := by
  rcases Trace.exists_foldlM_reached (J := Ordered 0) (fun _ _ hs hi => hs.timerStep hi)
    (Ordered.start hnow) hsteps with ⟨s, hrun, hs⟩
  refine ⟨s, hrun, hs.findsFirst, hs.sound.isRbtree.height_le, fun handler => ⟨?_, ?_⟩⟩
  · intro hhandler rounds fired u hexpire
    rcases hs.expireTimers hhandler hexpire with ⟨hu, hinorder, -⟩
    exact ⟨hinorder, hu.findsFirst⟩
  · intro hlater rounds hrounds
    exact hs.expireTimers_ends hlater (Nat.lt_of_le_of_lt (Multiset.countP_le_card _ _) hrounds)

/-- Three timers, one of which is set again, and a turn of the loop. -/
def threeTimers : List (TimerStep Nat) :=
  [.around (.add 1 500), .around (.add 2 20), .around (.add 3 20), .around (.add 1 10),
    .around (.clock 130), .turn]

theorem timers_expire_in_order_three :
    ∃ s, threeTimers.foldlM timerStep (idle (E := Nat) 100) = some s ∧ s.FindsFirst ∧
      s.timers.tree.height ≤ 2 * Nat.log 2 (s.timers.tree.nodes.card + 1) ∧
      ∀ handler, (HandlersInTime handler → ∀ rounds fired u,
          s.expireTimers handler rounds = some (fired, u) → InOrder fired u ∧ u.FindsFirst) ∧
        ((∀ e s, ∀ a ∈ handler e s, Later a) → ∀ rounds, s.timers.tree.nodes.card < rounds →
          ∃ fired u, s.expireTimers handler rounds = some (fired, u)) := by
  exact timers_expire_in_order (by decide) (by decide +kernel)

end EventLoop

end Ngx
end CppPractice
