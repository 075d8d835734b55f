import CppPractice.Epoll.ProcessEvents
import Mathlib.Data.List.Nodup

/-!
# Refinement — when the loop does what nginx's does

The two loops are run side by side.  As long as no round is one in which the writing halves part,
they agree.  A round that does part leaves a trace that no later round takes away: another argument
of a handler, or another event in a posted queue.
-/

namespace CppPractice
namespace Epoll

variable {Ω H : Type} {run : H → EventRef → World Ω H → World Ω H} {posted : Bool}

/-- What handlers do does not depend on `c->error`. -/
def IgnoresError (run : H → EventRef → World Ω H → World Ω H) : Prop :=
  ∀ h ev w w', World.SameButError w w' → World.SameButError (run h ev w) (run h ev w')

/-- The writing half, in the state `l`, comes to dispatch the write event of `c`. -/
def Dispatches (c : UInt64) (inst : Bool) (revents : UInt32) (l : Loop Ω H) : Prop :=
  (revents &&& epollout ≠ 0 ∧ (l.world.event ⟨c, .write⟩).active = true) ∧
    ¬ Stale l ⟨c, .write⟩ inst

section Condition

variable (run : H → EventRef → World Ω H → World Ω H) (posted : Bool)

/-- The state in which nginx's loop comes to the writing half of a round. -/
def atWriteHalf (l : Loop Ω H) (ee : EpollEvent) : Loop Ω H :=
  readHalf run posted (addressOf ee.ptr) (reventsOf ee.events) l

/-- nginx's loop, in the state `l`, dispatches the write event of the round for `ee`. -/
def WritesAt (l : Loop Ω H) (ee : EpollEvent) : Prop :=
  ¬ Stale l ⟨addressOf ee.ptr, .read⟩ (tagOf ee.ptr) ∧
    Dispatches (addressOf ee.ptr) (tagOf ee.ptr) (reventsOf ee.events)
      (atWriteHalf run posted l ee)

/-- The round for `ee` dispatches no write event, or it is one that posts while both events of the
connection are posted already. -/
def Harmless (l : Loop Ω H) (ee : EpollEvent) : Prop :=
  WritesAt run posted l ee →
    posted = true ∧ ∀ half,
      ((atWriteHalf run posted l ee).world.event ⟨addressOf ee.ptr, half⟩).posted = true

/-- Every round of nginx's loop over the batch, from the state `l`, is harmless. -/
def AllHarmless (l : Loop Ω H) (batch : List EpollEvent) : Prop :=
  ∀ before ee after, batch = before ++ ee :: after →
    Harmless run posted (before.foldl (Nginx.processEvent run posted) l) ee

end Condition

theorem AllHarmless.nil (l : Loop Ω H) : AllHarmless run posted l [] := by
  intro before ee after h
  exact absurd h (by simp)

theorem allHarmless_cons {l : Loop Ω H} {ee : EpollEvent} {batch : List EpollEvent} :
    AllHarmless run posted l (ee :: batch) ↔
      Harmless run posted l ee ∧
        AllHarmless run posted (Nginx.processEvent run posted l ee) batch := by
  constructor
  · intro h
    refine ⟨h [] ee batch rfl, ?_⟩
    intro before e after heq
    exact h (ee :: before) e after (by rw [heq]; rfl)
  · rintro ⟨hhead, htail⟩ before e after heq
    -- The round is the first one, or comes after it.
    cases before with
    | nil =>
        simp only [List.nil_append, List.cons.injEq] at heq
        rcases heq with ⟨rfl, -⟩
        exact hhead
    | cons b before =>
        simp only [List.cons_append, List.cons.injEq] at heq
        rcases heq with ⟨rfl, hrest⟩
        exact htail before e after hrest

/-! ## One round, half by half -/

theorem checkErrors_fst (c : UInt64) (events : UInt32) (l : Loop Ω H) :
    (CppEpollHandler.checkErrors c events l).1 = reventsOf events := by
  unfold CppEpollHandler.checkErrors reventsOf
  by_cases herr : events &&& (epollerr ||| epollhup) ≠ 0
  · by_cases hno : events &&& (epollin ||| epollout) = 0
    · rw [if_pos herr, if_pos hno]
      exact (if_pos ⟨herr, hno⟩).symm
    · rw [if_pos herr, if_neg hno]
      exact (if_neg fun h => hno h.2).symm
  · rw [if_neg herr]
    exact (if_neg fun h => herr h.1).symm

theorem checkErrors_snd (c : UInt64) (events : UInt32) (l : Loop Ω H) :
    (CppEpollHandler.checkErrors c events l).2 = l ∨
      (CppEpollHandler.checkErrors c events l).2 = l.map (·.setError c) := by
  unfold CppEpollHandler.checkErrors
  split
  · exact Or.inr rfl
  · exact Or.inl rfl

theorem checkErrors_calls (c : UInt64) (events : UInt32) (l : Loop Ω H) :
    (CppEpollHandler.checkErrors c events l).2.calls = l.calls := by
  rcases checkErrors_snd c events l with h | h
  · rw [h]
  · rw [h, Loop.map_calls]

theorem checkErrors_postedEvents (c : UInt64) (events : UInt32) (l : Loop Ω H) :
    (CppEpollHandler.checkErrors c events l).2.world.postedEvents = l.world.postedEvents := by
  rcases checkErrors_snd c events l with h | h
  · rw [h]
  · rw [h, Loop.map_world]
    rfl

theorem checkErrors_agrees {l l' : Loop Ω H} (h : l.Agrees l') (c : UInt64) (events : UInt32) :
    (CppEpollHandler.checkErrors c events l).2.Agrees l' := by
  rcases checkErrors_snd c events l with hsnd | hsnd
  · rw [hsnd]
    exact h
  · rw [hsnd]
    exact h.map_setError c

section ReadHalf

variable {c : UInt64} {revents : UInt32} {l : Loop Ω H}

theorem readHalf_idle
    (h : ¬ (revents &&& epollin ≠ 0 ∧ (l.world.event ⟨c, .read⟩).active = true)) :
    readHalf run posted c revents l = l :=
  if_neg h

theorem readHalf_posts
    (h : revents &&& epollin ≠ 0 ∧ (l.world.event ⟨c, .read⟩).active = true) :
    readHalf run true c revents l =
      (l.map (markReadable ⟨c, .read⟩ revents)).map (·.ngxPostEvent ⟨c, .read⟩
        (if ((markReadable ⟨c, .read⟩ revents l.world).event ⟨c, .read⟩).accept then
          .postedAcceptEvents else .postedEvents)) :=
  if_pos h

theorem readHalf_calls
    (h : revents &&& epollin ≠ 0 ∧ (l.world.event ⟨c, .read⟩).active = true) :
    readHalf run false c revents l =
      (l.map (markReadable ⟨c, .read⟩ revents)).call run
        ((markReadable ⟨c, .read⟩ revents l.world).event ⟨c, .read⟩).handler ⟨c, .read⟩ :=
  if_pos h

end ReadHalf

theorem readHalf_agrees (hrun : IgnoresError run) {l l' : Loop Ω H} (h : l.Agrees l') (c : UInt64)
    (revents : UInt32) :
    (readHalf run posted c revents l).Agrees (readHalf run posted c revents l') := by
  by_cases hin : revents &&& epollin ≠ 0 ∧ (l'.world.event ⟨c, .read⟩).active = true
  · have hin' : revents &&& epollin ≠ 0 ∧ (l.world.event ⟨c, .read⟩).active = true := by
      rw [h.world.event]
      exact hin
    have hmark := h.map_markReadable ⟨c, .read⟩ revents
    -- The flag `accept` and the handler are read off the same event in both loops.
    have hevent := hmark.world.event ⟨c, .read⟩
    rw [Loop.map_world, Loop.map_world] at hevent
    cases posted with
    | true =>
        rw [readHalf_posts hin', readHalf_posts hin, hevent]
        exact hmark.map_post _ _
    | false =>
        rw [readHalf_calls hin', readHalf_calls hin, hevent]
        exact hmark.call hrun _ _
  · rw [readHalf_idle hin, readHalf_idle (l := l)]
    · exact h
    · rw [h.world.event]
      exact hin

section WriteHalf

variable {given : Half} {c : UInt64} {inst : Bool} {revents : UInt32} {l : Loop Ω H}

theorem writeHalf_idle (h : ¬ Dispatches c inst revents l) :
    writeHalf run posted given c inst revents l = l := by
  unfold writeHalf
  by_cases hout : revents &&& epollout ≠ 0 ∧ (l.world.event ⟨c, .write⟩).active = true
  · have hstale : Stale l ⟨c, .write⟩ inst := by
      by_contra hs
      exact h ⟨hout, hs⟩
    simp only [if_pos hout, if_pos hstale]
  · simp only [if_neg hout]

theorem writeHalf_posts (h : Dispatches c inst revents l) :
    writeHalf run true given c inst revents l =
      (l.map (·.setReady ⟨c, .write⟩)).map (·.ngxPostEvent ⟨c, given⟩ .postedEvents) := by
  simp only [writeHalf, if_pos h.1, if_neg h.2, if_true]

theorem writeHalf_calls (h : Dispatches c inst revents l) :
    writeHalf run false given c inst revents l =
      (l.map (·.setReady ⟨c, .write⟩)).call run
        ((l.map (·.setReady ⟨c, .write⟩)).world.event ⟨c, .write⟩).handler ⟨c, given⟩ := by
  simp only [writeHalf, if_pos h.1, if_neg h.2, Bool.false_eq_true, if_false]

end WriteHalf

theorem Loop.Agrees.dispatches_iff {l l' : Loop Ω H} (h : l.Agrees l') (c : UInt64) (inst : Bool)
    (revents : UInt32) : Dispatches c inst revents l ↔ Dispatches c inst revents l' := by
  rw [Dispatches, Dispatches, h.world.event, h.stale_iff]

/-! ## One round -/

section Round

variable {l : Loop Ω H} {ee : EpollEvent}

theorem Nginx.processEvent_stale (h : Stale l ⟨addressOf ee.ptr, .read⟩ (tagOf ee.ptr)) :
    Nginx.processEvent run posted l ee = l :=
  if_pos h

theorem Nginx.processEvent_fresh (h : ¬ Stale l ⟨addressOf ee.ptr, .read⟩ (tagOf ee.ptr)) :
    Nginx.processEvent run posted l ee =
      writeHalf run posted .write (addressOf ee.ptr) (tagOf ee.ptr) (reventsOf ee.events)
        (atWriteHalf run posted l ee) :=
  if_neg h

theorem CppEpollHandler.processEvent_stale
    (h : Stale l ⟨addressOf ee.ptr, .read⟩ (tagOf ee.ptr)) :
    CppEpollHandler.processEvent run posted l ee = l :=
  if_pos h

theorem CppEpollHandler.processEvent_fresh
    (h : ¬ Stale l ⟨addressOf ee.ptr, .read⟩ (tagOf ee.ptr)) :
    CppEpollHandler.processEvent run posted l ee =
      writeHalf run posted .read (addressOf ee.ptr) (tagOf ee.ptr) (reventsOf ee.events)
        (atWriteHalf run posted (CppEpollHandler.checkErrors (addressOf ee.ptr) ee.events l).2 ee) := by
  rw [atWriteHalf, ← checkErrors_fst (addressOf ee.ptr) ee.events l]
  exact if_neg h

end Round

/-- The loops come to the writing half of a round in agreement. -/
theorem atWriteHalf_agrees (posted : Bool) (hrun : IgnoresError run) {l l' : Loop Ω H}
    (h : l.Agrees l') (ee : EpollEvent) :
    (atWriteHalf run posted (CppEpollHandler.checkErrors (addressOf ee.ptr) ee.events l).2 ee).Agrees
      (atWriteHalf run posted l' ee) :=
  readHalf_agrees hrun (checkErrors_agrees h _ _) _ _

theorem processEvent_agrees (hrun : IgnoresError run) {l l' : Loop Ω H} (h : l.Agrees l')
    {ee : EpollEvent} (hharmless : Harmless run posted l' ee) :
    (CppEpollHandler.processEvent run posted l ee).Agrees (Nginx.processEvent run posted l' ee) := by
  by_cases hstale : Stale l' ⟨addressOf ee.ptr, .read⟩ (tagOf ee.ptr)
  · rw [CppEpollHandler.processEvent_stale ((h.stale_iff _ _).2 hstale),
      Nginx.processEvent_stale hstale]
    exact h
  have hm := atWriteHalf_agrees posted hrun h ee
  rw [CppEpollHandler.processEvent_fresh fun hs => hstale ((h.stale_iff _ _).1 hs),
    Nginx.processEvent_fresh hstale]
  by_cases hd : Dispatches (addressOf ee.ptr) (tagOf ee.ptr) (reventsOf ee.events)
      (atWriteHalf run posted l' ee)
  · -- both events are in a queue already, so that neither loop posts anything
    rcases hharmless ⟨hstale, hd⟩ with ⟨rfl, hboth⟩
    have hready := hm.map_setReady ⟨addressOf ee.ptr, .write⟩
    have hpost' : ∀ half, (((atWriteHalf run true l' ee).map
        (·.setReady ⟨addressOf ee.ptr, .write⟩)).world.event ⟨addressOf ee.ptr, half⟩).posted = true := by
      intro half
      rw [Loop.map, World.posted_setReady]
      exact hboth half
    have hpost := hpost' .read
    rw [← hready.world.event] at hpost
    rw [writeHalf_posts ((hm.dispatches_iff _ _ _).2 hd), writeHalf_posts hd,
      Loop.map_post_of_posted hpost, Loop.map_post_of_posted (hpost' .write)]
    exact hready
  · rw [writeHalf_idle fun hd' => hd ((hm.dispatches_iff _ _ _).1 hd'), writeHalf_idle hd]
    exact hm

/-! ## Where the loops part -/

/-- At some point the two loops handed different things to a handler. -/
def CallsPart (l l' : Loop Ω H) : Prop :=
  ∃ (done : List (H × EventRef)) (x y : H × EventRef), x ≠ y ∧
    done ++ [x] <+: l.calls.map Call.shape ∧ done ++ [y] <+: l'.calls.map Call.shape

/-- An event of the connection `c` is posted by one loop only. -/
def QueuesPart (c : UInt64) (l l' : Loop Ω H) : Prop :=
  ∃ half, l.world.postedEvents.count ⟨c, half⟩ ≠ l'.world.postedEvents.count ⟨c, half⟩

theorem CallsPart.not_sameEffects {l l' : Loop Ω H} (h : CallsPart l l') : ¬ l.SameEffects l' := by
  rintro ⟨hcalls, -⟩
  rcases h with ⟨done, x, y, hne, hx, hy⟩
  rw [hcalls] at hx
  -- Two prefixes of one list of calls, of the same length, would be the same.
  have heq : done ++ [x] = done ++ [y] :=
    List.IsPrefix.eq_of_length (List.prefix_of_prefix_length_le hx hy (by simp)) (by simp)
  simp only [List.append_cancel_left_eq, List.cons.injEq, and_true] at heq
  exact hne heq

theorem QueuesPart.not_sameEffects {c : UInt64} {l l' : Loop Ω H} (h : QueuesPart c l l') :
    ¬ l.SameEffects l' := by
  rintro hsame
  rcases h with ⟨half, hne⟩
  rw [hsame.postedEvents] at hne
  exact hne rfl

theorem writeHalf_callsPart {m m' : Loop Ω H} (h : m.Agrees m') {c : UInt64} {inst : Bool}
    {revents : UInt32} (hd : Dispatches c inst revents m') :
    CallsPart (writeHalf run false .read c inst revents m)
      (writeHalf run false .write c inst revents m') := by
  have hready := h.map_setReady ⟨c, .write⟩
  let handler := ((m'.map (·.setReady ⟨c, .write⟩)).world.event ⟨c, .write⟩).handler
  rw [writeHalf_calls ((h.dispatches_iff _ _ _).2 hd), writeHalf_calls hd, hready.world.event]
  refine ⟨m.calls.map Call.shape, (handler, ⟨c, .read⟩), (handler, ⟨c, .write⟩), by simp, ?_, ?_⟩
  -- The handler is that of the write event in both loops; the arguments differ.
  · rw [Loop.call_calls, List.map_append]
    exact List.prefix_rfl
  · rw [Loop.call_calls, List.map_append, h.calls]
    exact List.prefix_rfl

theorem writeHalf_queuesPart {m m' : Loop Ω H} (h : m.Agrees m') {c : UInt64} {inst : Bool}
    {revents : UInt32} (hd : Dispatches c inst revents m')
    (hnot : ¬ ∀ half, (m'.world.event ⟨c, half⟩).posted = true) :
    QueuesPart c (writeHalf run true .read c inst revents m)
      (writeHalf run true .write c inst revents m') := by
  have hready := h.map_setReady ⟨c, .write⟩
  have hqueue := hready.world.postedEvents
  have hread : (((m.map (·.setReady ⟨c, .write⟩))).world.event ⟨c, .read⟩).posted =
      (m'.world.event ⟨c, .read⟩).posted := by
    rw [hready.world.event, Loop.map_world, World.posted_setReady]
  have hwrite : (((m'.map (·.setReady ⟨c, .write⟩))).world.event ⟨c, .write⟩).posted =
      (m'.world.event ⟨c, .write⟩).posted := by
    rw [Loop.map_world, World.posted_setReady]
  rw [writeHalf_posts ((h.dispatches_iff _ _ _).2 hd), writeHalf_posts hd]
  cases hr : (m'.world.event ⟨c, .read⟩).posted with
  | false =>
      -- the read event enters the queue here and not there
      refine ⟨.read, ?_⟩
      rw [Loop.map_world, Loop.map_world _ (·.ngxPostEvent ⟨c, .write⟩ .postedEvents),
        World.count_ngxPostEvent_self, World.count_ngxPostEvent_of_ne (by simp), hread, hr, hqueue]
      simp
  | true =>
      -- the read event is no news, so the write event is: it enters the queue there and not here
      have hw : (m'.world.event ⟨c, .write⟩).posted = false := by
        rw [← Bool.not_eq_true]
        intro hw
        refine hnot ?_
        rintro (_ | _)
        · exact hr
        · exact hw
      refine ⟨.write, ?_⟩
      rw [Loop.map_world, Loop.map_world _ (·.ngxPostEvent ⟨c, .write⟩ .postedEvents),
        World.count_ngxPostEvent_self, World.count_ngxPostEvent_of_ne (by simp), hwrite, hw, hqueue]
      simp

/-- A round that is not harmless makes the loops part. -/
theorem processEvent_parts (hrun : IgnoresError run) {l l' : Loop Ω H} (h : l.Agrees l')
    {ee : EpollEvent} (hharm : ¬ Harmless run posted l' ee) :
    (posted = false ∧ CallsPart (CppEpollHandler.processEvent run posted l ee)
        (Nginx.processEvent run posted l' ee)) ∨
      (posted = true ∧ QueuesPart (addressOf ee.ptr) (CppEpollHandler.processEvent run posted l ee)
        (Nginx.processEvent run posted l' ee)) := by
  unfold Harmless at hharm
  rw [Classical.not_imp] at hharm
  rcases hharm with ⟨⟨hfresh, hd⟩, hnot⟩
  have hm := atWriteHalf_agrees posted hrun h ee
  rw [CppEpollHandler.processEvent_fresh fun hs => hfresh ((h.stale_iff _ _).1 hs),
    Nginx.processEvent_fresh hfresh]
  cases posted with
  | false => exact Or.inl ⟨rfl, writeHalf_callsPart hm hd⟩
  | true => exact Or.inr ⟨rfl, writeHalf_queuesPart hm hd fun hboth => hnot ⟨rfl, hboth⟩⟩

theorem processEvent_not_sameEffects (hrun : IgnoresError run) {l l' : Loop Ω H} (h : l.Agrees l')
    {ee : EpollEvent} (hharm : ¬ Harmless run posted l' ee) :
    ¬ (CppEpollHandler.processEvent run posted l ee).SameEffects
      (Nginx.processEvent run posted l' ee) := by
  rcases processEvent_parts hrun h hharm with ⟨-, hparts⟩ | ⟨-, hparts⟩
  · exact hparts.not_sameEffects
  · exact hparts.not_sameEffects

/-! ## Rounds after that -/

theorem readHalf_grows (c : UInt64) (revents : UInt32) (l : Loop Ω H) :
    l.calls <+: (readHalf run posted c revents l).calls := by
  by_cases hin : revents &&& epollin ≠ 0 ∧ (l.world.event ⟨c, .read⟩).active = true
  · cases posted with
    | true =>
        rw [readHalf_posts hin]
        exact List.prefix_rfl
    | false =>
        rw [readHalf_calls hin]
        exact List.prefix_append _ _
  · rw [readHalf_idle hin]

theorem writeHalf_grows (given : Half) (c : UInt64) (inst : Bool) (revents : UInt32)
    (l : Loop Ω H) : l.calls <+: (writeHalf run posted given c inst revents l).calls := by
  by_cases hd : Dispatches c inst revents l
  · cases posted with
    | true =>
        rw [writeHalf_posts hd]
        exact List.prefix_rfl
    | false =>
        rw [writeHalf_calls hd]
        exact List.prefix_append _ _
  · rw [writeHalf_idle hd]

theorem Nginx.processEvent_grows (l : Loop Ω H) (ee : EpollEvent) :
    l.calls <+: (Nginx.processEvent run posted l ee).calls := by
  by_cases h : Stale l ⟨addressOf ee.ptr, .read⟩ (tagOf ee.ptr)
  · rw [Nginx.processEvent_stale h]
  · rw [Nginx.processEvent_fresh h]
    exact (readHalf_grows _ _ l).trans (writeHalf_grows _ _ _ _ _)

theorem CppEpollHandler.processEvent_grows (l : Loop Ω H) (ee : EpollEvent) :
    l.calls <+: (CppEpollHandler.processEvent run posted l ee).calls := by
  by_cases h : Stale l ⟨addressOf ee.ptr, .read⟩ (tagOf ee.ptr)
  · rw [CppEpollHandler.processEvent_stale h]
  · rw [CppEpollHandler.processEvent_fresh h]
    calc l.calls
        = (CppEpollHandler.checkErrors (addressOf ee.ptr) ee.events l).2.calls :=
          (checkErrors_calls _ _ l).symm
      _ <+: (atWriteHalf run posted _ ee).calls := readHalf_grows _ _ _
      _ <+: _ := writeHalf_grows _ _ _ _ _

theorem foldl_grows {step : Loop Ω H → EpollEvent → Loop Ω H}
    (hstep : ∀ l ee, l.calls <+: (step l ee).calls) (batch : List EpollEvent) (l : Loop Ω H) :
    l.calls <+: (batch.foldl step l).calls := by
  induction batch generalizing l with
  | nil => exact List.prefix_rfl
  | cons ee batch ih => exact (hstep l ee).trans (ih (step l ee))

theorem CallsPart.foldl {l l' : Loop Ω H} (h : CallsPart l l') (batch : List EpollEvent) :
    CallsPart (batch.foldl (CppEpollHandler.processEvent run posted) l)
      (batch.foldl (Nginx.processEvent run posted) l') := by
  rcases h with ⟨done, x, y, hne, hx, hy⟩
  -- Later rounds only append calls.
  refine ⟨done, x, y, hne, hx.trans ?_, hy.trans ?_⟩
  · exact (foldl_grows CppEpollHandler.processEvent_grows batch l).map _
  · exact (foldl_grows Nginx.processEvent_grows batch l').map _

/-- Posting the events of one connection leaves those of the others where they are. -/
theorem readHalf_count {c d : UInt64} (hne : d ≠ c) (half : Half) (revents : UInt32)
    (l : Loop Ω H) : (readHalf run true d revents l).world.postedEvents.count ⟨c, half⟩ =
      l.world.postedEvents.count ⟨c, half⟩ := by
  by_cases hin : revents &&& epollin ≠ 0 ∧ (l.world.event ⟨d, .read⟩).active = true
  · have hmark : (markReadable ⟨d, .read⟩ revents l.world).postedEvents = l.world.postedEvents := by
      unfold markReadable
      split
      · rfl
      · rfl
    rw [readHalf_posts hin, Loop.map_world, World.count_ngxPostEvent_of_ne (by simp [hne]),
      Loop.map_world, hmark]
  · rw [readHalf_idle hin]

theorem writeHalf_count {c d : UInt64} (hne : d ≠ c) (half given : Half) (inst : Bool)
    (revents : UInt32) (l : Loop Ω H) :
    (writeHalf run true given d inst revents l).world.postedEvents.count ⟨c, half⟩ =
      l.world.postedEvents.count ⟨c, half⟩ := by
  by_cases hd : Dispatches d inst revents l
  · rw [writeHalf_posts hd, Loop.map_world, World.count_ngxPostEvent_of_ne (by simp [hne])]
    rfl
  · rw [writeHalf_idle hd]

theorem Nginx.processEvent_count {c : UInt64} {ee : EpollEvent} (hne : addressOf ee.ptr ≠ c)
    (half : Half) (l : Loop Ω H) :
    (Nginx.processEvent run true l ee).world.postedEvents.count ⟨c, half⟩ =
      l.world.postedEvents.count ⟨c, half⟩ := by
  by_cases h : Stale l ⟨addressOf ee.ptr, .read⟩ (tagOf ee.ptr)
  · rw [Nginx.processEvent_stale h]
  · rw [Nginx.processEvent_fresh h, writeHalf_count hne]
    exact readHalf_count hne half _ l

theorem CppEpollHandler.processEvent_count {c : UInt64} {ee : EpollEvent}
    (hne : addressOf ee.ptr ≠ c) (half : Half) (l : Loop Ω H) :
    (CppEpollHandler.processEvent run true l ee).world.postedEvents.count ⟨c, half⟩ =
      l.world.postedEvents.count ⟨c, half⟩ := by
  by_cases h : Stale l ⟨addressOf ee.ptr, .read⟩ (tagOf ee.ptr)
  · rw [CppEpollHandler.processEvent_stale h]
  · rw [CppEpollHandler.processEvent_fresh h, writeHalf_count hne, atWriteHalf, readHalf_count hne,
      checkErrors_postedEvents]

theorem QueuesPart.foldl {c : UInt64} {l l' : Loop Ω H} (h : QueuesPart c l l')
    {batch : List EpollEvent} (hne : ∀ ee ∈ batch, addressOf ee.ptr ≠ c) :
    QueuesPart c (batch.foldl (CppEpollHandler.processEvent run true) l)
      (batch.foldl (Nginx.processEvent run true) l') := by
  induction batch generalizing l l' with
  | nil => exact h
  | cons ee batch ih =>
      have hee : addressOf ee.ptr ≠ c := hne ee List.mem_cons_self
      rcases h with ⟨half, hcount⟩
      refine ih ⟨half, ?_⟩ fun e he => hne e (List.mem_cons_of_mem _ he)
      rw [CppEpollHandler.processEvent_count hee, Nginx.processEvent_count hee]
      exact hcount

/-! ## Whole batches -/

/-- No two events of the batch are of the same connection, as in what `epoll_wait` returns. -/
def OnePerConnection (batch : List EpollEvent) : Prop :=
  batch.Pairwise fun a b => addressOf a.ptr ≠ addressOf b.ptr

theorem foldl_agrees (hrun : IgnoresError run) {l l' : Loop Ω H} (h : l.Agrees l')
    {batch : List EpollEvent} (hharmless : AllHarmless run posted l' batch) :
    (batch.foldl (CppEpollHandler.processEvent run posted) l).Agrees
      (batch.foldl (Nginx.processEvent run posted) l') := by
  -- Over the batch, for any two loops that agree so far.
  induction batch generalizing l l' with
  | nil => exact h
  | cons ee batch ih =>
      rcases allHarmless_cons.1 hharmless with ⟨hhead, htail⟩
      exact ih (processEvent_agrees hrun h hhead) htail

/-- Where every prefix of the batch has the same effects, every round is harmless. -/
theorem allHarmless_of_prefixes (hrun : IgnoresError run) {l l' : Loop Ω H} (h : l.Agrees l')
    {batch : List EpollEvent}
    (hsame : ∀ before, before <+: batch →
      (before.foldl (CppEpollHandler.processEvent run posted) l).SameEffects
        (before.foldl (Nginx.processEvent run posted) l')) :
    AllHarmless run posted l' batch := by
  induction batch generalizing l l' with
  | nil => exact AllHarmless.nil l'
  | cons ee batch ih =>
      have hhead : Harmless run posted l' ee := by
        by_contra hharm
        exact processEvent_not_sameEffects hrun h hharm (hsame [ee] (by simp))
      refine allHarmless_cons.2 ⟨hhead, ih (processEvent_agrees hrun h hhead) ?_⟩
      intro before hbefore
      exact hsame (ee :: before) (List.cons_prefix_cons.2 ⟨rfl, hbefore⟩)

/-- A loop that calls handlers directly, or has one event for each connection, cannot make up for a
round that is not harmless. -/
theorem allHarmless_of_sameEffects (hrun : IgnoresError run) {l l' : Loop Ω H} (h : l.Agrees l')
    {batch : List EpollEvent} (hbatch : posted = false ∨ OnePerConnection batch)
    (hsame : (batch.foldl (CppEpollHandler.processEvent run posted) l).SameEffects
      (batch.foldl (Nginx.processEvent run posted) l')) :
    AllHarmless run posted l' batch := by
  induction batch generalizing l l' with
  | nil => exact AllHarmless.nil l'
  | cons ee batch ih =>
      -- The first round that is not harmless leaves a trace, which the rest of the batch keeps.
      have hhead : Harmless run posted l' ee := by
        by_contra hharm
        rcases processEvent_parts hrun h hharm with ⟨-, hparts⟩ | ⟨rfl, hparts⟩
        · exact (hparts.foldl batch).not_sameEffects hsame
        · rcases hbatch with hdirect | hone
          · cases hdirect
          · -- No later round posts an event of this connection.
            have hother : ∀ e ∈ batch, addressOf e.ptr ≠ addressOf ee.ptr :=
              fun e he => ((List.pairwise_cons.1 hone).1 e he).symm
            exact (hparts.foldl hother).not_sameEffects hsame
      refine allHarmless_cons.2 ⟨hhead, ih (processEvent_agrees hrun h hhead) ?_ hsame⟩
      rcases hbatch with hdirect | hone
      · exact Or.inl hdirect
      · exact Or.inr (List.pairwise_cons.1 hone).2

/-- `process_events_list` has the effects of nginx's loop on a batch and all that it begins with
exactly when every round of nginx's loop is harmless; and so on the batch alone, if handlers are run
directly or no connection is in it twice. -/
theorem processEventsList_refines_iff (hrun : IgnoresError run) (batch : List EpollEvent)
    (w : World Ω H) :
    ((∀ before, before <+: batch →
        (CppEpollHandler.processEventsList run posted before w).SameEffects
          (Nginx.processEvents run posted before w)) ↔
      AllHarmless run posted { world := w, calls := [] } batch) ∧
    (posted = false ∨ OnePerConnection batch →
      ((CppEpollHandler.processEventsList run posted batch w).SameEffects
          (Nginx.processEvents run posted batch w) ↔
        AllHarmless run posted { world := w, calls := [] } batch)) := by
  have hstart := Loop.Agrees.refl ({ world := w, calls := [] } : Loop Ω H)
  refine ⟨⟨allHarmless_of_prefixes hrun hstart, ?_⟩, ?_⟩
  · rintro hharmless before ⟨after, rfl⟩
    refine (foldl_agrees hrun hstart ?_).sameEffects
    intro b ee a heq
    exact hharmless b ee (a ++ after) (by rw [heq]; simp)
  · intro hbatch
    refine ⟨allHarmless_of_sameEffects hrun hstart hbatch, ?_⟩
    intro hharmless
    exact (foldl_agrees hrun hstart hharmless).sameEffects

/-- A handler that closes the connection it is called for. -/
def closeHandler (_ : Unit) (ev : EventRef) (w : World Unit Unit) : World Unit Unit :=
  { w with connections :=
      Function.update w.connections ev.conn { w.connections ev.conn with fd := -1 } }

theorem ignoresError_closeHandler : IgnoresError closeHandler := by
  intro _ ev w w' h
  have herase : ∀ v : World Unit Unit,
      (closeHandler () ev v).eraseError = closeHandler () ev v.eraseError := by
    intro v
    simp only [closeHandler, World.eraseError, World.mk.injEq, and_true]
    funext d
    by_cases hd : d = ev.conn
    · subst hd
      simp
    · simp [Function.update_of_ne hd]
  have heq : w.eraseError = w'.eraseError := h
  rw [World.SameButError, herase, herase, heq]

/-- Open connections whose two events are active and not posted. -/
def openConnections : World Unit Unit where
  connections := fun _ =>
    { fd := 7
      error := false
      read := ⟨true, false, false, false, false, false, ()⟩
      write := ⟨true, false, false, false, false, false, ()⟩ }
  postedAcceptEvents := []
  postedEvents := []
  rest := ()

theorem processEventsList_refines_iff_close :
    (CppEpollHandler.processEventsList closeHandler false [⟨epollin ||| epollout, 64⟩]
          openConnections).SameEffects
        (Nginx.processEvents closeHandler false [⟨epollin ||| epollout, 64⟩] openConnections) ↔
      AllHarmless closeHandler false { world := openConnections, calls := [] }
        [⟨epollin ||| epollout, 64⟩] :=
  (processEventsList_refines_iff ignoresError_closeHandler _ _).2 (Or.inl rfl)

/-- A connection that can be written: the posted event is the other one, and so is the argument of
the handler. -/
theorem writable_not_refined :
    ¬ (CppEpollHandler.processEventsList closeHandler true [⟨epollout, 64⟩]
          openConnections).SameEffects
        (Nginx.processEvents closeHandler true [⟨epollout, 64⟩] openConnections) ∧
    ¬ (CppEpollHandler.processEventsList closeHandler false [⟨epollout, 64⟩]
          openConnections).SameEffects
        (Nginx.processEvents closeHandler false [⟨epollout, 64⟩] openConnections) := by
  constructor
  · intro hsame
    have hqueue := hsame.postedEvents
    revert hqueue
    decide
  · intro hsame
    have hcalls := hsame.calls
    revert hcalls
    decide

end Epoll
end CppPractice
