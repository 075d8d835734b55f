import CppPractice.Lib.TailQueue
import CppPractice.Lib.Trace

/-!
# ThreadPool — tasks that worker threads run

`NgxThreadPool::post` puts a task into the queue of a pool.  A worker takes it out, runs its handler and
puts it into the queue of the tasks that are done, and `ngx_notify` makes the main thread call
`ngx_thread_pool_handler`, which takes that queue and calls the handler of each task's event.

The threads take turns at the sections that the mutex and the spinlock protect.  What the system decides is
input: which worker a signal wakes, spurious wake-ups, and the calls that fail.  A task is linked through
its member `next`, whichever of the lists it is in; `0` is the null pointer.
-/

namespace CppPractice
namespace Ngx

open Segment

/-! ## The state -/

/-- Where a worker is in the loop of `ngx_thread_pool_cycle`. -/
inductive Worker
  /-- Before the mutex. -/
  | idle
  /-- In `ngx_thread_cond_wait`, and not woken. -/
  | waiting
  /-- On the way out of `ngx_thread_cond_wait`. -/
  | woken
  | running (t : Nat)
  /-- The handler of the task has returned. -/
  | finished (t : Nat)
  /-- Before `ngx_notify`. -/
  | notifying
  /-- The thread has ended. -/
  | returned
  deriving DecidableEq

/-- The pool, the members of the tasks and the variables of the main thread.  From `posted` on it is a
record, which the code does not have: the tasks that were posted, taken from the queue, run and completed,
those that a worker had when it ended, and whether a notification could not be written. -/
structure ThreadPool where
  next : Nat → Nat := fun _ => 0
  active : Nat → Bool := fun _ => false
  complete : Nat → Bool := fun _ => false
  id : Nat → Nat := fun _ => 0
  /-- `ngx_thread_pool_task_id` -/
  taskId : Nat := 0
  queue : TailQueue Nat := .init 0
  waiting : Int := 0
  maxQueue : Int
  workers : List Worker
  /-- `ngx_thread_pool_done` -/
  done : TailQueue Nat := .init 0
  /-- The variable of `ngx_thread_pool_handler`. -/
  task : Nat := 0
  /-- The eventfd has been written since the last `epoll_wait`. -/
  signalled : Bool := false
  /-- `epoll_wait` has reported it, and the handler has not been called yet. -/
  reported : Bool := false
  posted : List Nat := []
  taken : List Nat := []
  ran : List Nat := []
  completed : List Nat := []
  lost : List Nat := []
  unwritten : Bool := false

namespace ThreadPool

def setWorker (i : Nat) (w : Worker) (s : ThreadPool) : ThreadPool := { s with workers := s.workers.set i w }

/-! ## Posting -/

/-- `pthread_cond_signal` wakes the worker that the system chooses, if it waits, and else some other one if
any does. -/
def condSignal (choice : Nat) (s : ThreadPool) : ThreadPool :=
  if s.workers[choice]? = some .waiting then s.setWorker choice .woken
  else
    match s.workers.findIdx? (· = .waiting) with
    | some i => s.setWorker i .woken
    | none => s

/-- The members of a task that is posted are set. -/
def activate (t : Nat) (s : ThreadPool) : ThreadPool :=
  { s with
    active := Function.update s.active t true
    id := Function.update s.id t s.taskId
    taskId := s.taskId + 1
    next := Function.update s.next t 0 }

/-- The task comes to the end of the queue. -/
def enqueue (t : Nat) (s : ThreadPool) : ThreadPool :=
  let (next, queue) := s.queue.push t s.next
  { s with next := next, queue := queue, waiting := s.waiting + 1, posted := s.posted ++ [t] }

/-- Whether the result is `NGX_OK`.  `locked` and `sent` say whether the calls for the mutex and the
condition succeed. -/
def ngxThreadTaskPost (t : Nat) (locked sent : Bool) (choice : Nat) (s : ThreadPool) : Bool × ThreadPool :=
  if s.active t then (false, s)
  else if !locked then (false, s)
  else if s.waiting ≥ s.maxQueue then (false, s)
  else
    let s := s.activate t
    if !sent then (false, s) else (true, (s.condSignal choice).enqueue t)

/-! ## A worker -/

/-- The first task leaves the queue. -/
def dequeue (s : ThreadPool) : ThreadPool :=
  { s with queue := s.queue.pop 0 s.next, taken := s.taken ++ [s.queue.first] }

/-- From the test for an empty queue on, under the mutex. -/
def takeTask (i : Nat) (unlocked : Bool) (s : ThreadPool) : ThreadPool :=
  let task := s.queue.first
  if task = 0 then s.setWorker i .waiting
  else
    let s := s.dequeue
    if unlocked then s.setWorker i (.running task)
    else { s with lost := s.lost ++ [task] }.setWorker i .returned

/-- A turn of the loop, up to the handler or the first wait. -/
def lock (i : Nat) (locked unlocked : Bool) (s : ThreadPool) : ThreadPool :=
  if !locked then s.setWorker i .returned
  else takeTask i unlocked { s with waiting := s.waiting - 1 }

/-- `ngx_thread_cond_wait` returns. -/
def resume (i : Nat) (ok unlocked : Bool) (s : ThreadPool) : ThreadPool :=
  if !ok then s.setWorker i .returned else takeTask i unlocked s

/-- The end of a turn, under the spinlock. -/
def finish (i t : Nat) (s : ThreadPool) : ThreadPool :=
  let s := { s with next := Function.update s.next t 0 }
  let (next, done) := s.done.push t s.next
  { s with next := next, done := done }.setWorker i .notifying

/-! ## The main thread -/

/-- The start of `ngx_thread_pool_handler`, under the spinlock. -/
def dispatch (s : ThreadPool) : ThreadPool :=
  { s with reported := false, task := s.done.first, done := .init 0 }

/-- A turn of its loop, up to the call of the handler, which is recorded. -/
def completeTask (s : ThreadPool) : ThreadPool :=
  let event := s.task
  { s with
    task := s.next s.task
    complete := Function.update s.complete event true
    active := Function.update s.active event false
    completed := s.completed ++ [event] }

/-! ## Steps -/

inductive Action
  /-- The main thread posts a task: anywhere, in the handler of an event too. -/
  | post (t : Nat) (locked sent : Bool) (choice : Nat)
  | lock (i : Nat) (locked unlocked : Bool)
  /-- A wake-up without a signal. -/
  | wake (i : Nat)
  | resume (i : Nat) (ok unlocked : Bool)
  | run (i : Nat)
  | finish (i : Nat)
  | notify (i : Nat) (written : Bool)
  /-- `epoll_wait` -/
  | wait
  | dispatch
  | complete

/-- A thread that is not where the action starts does nothing. -/
def step (s : ThreadPool) : Action → ThreadPool
  | .post t locked sent choice => (s.ngxThreadTaskPost t locked sent choice).2
  | .lock i locked unlocked =>
      match s.workers[i]? with
      | some .idle => s.lock i locked unlocked
      | _ => s
  | .wake i =>
      match s.workers[i]? with
      | some .waiting => s.setWorker i .woken
      | _ => s
  | .resume i ok unlocked =>
      match s.workers[i]? with
      | some .woken => s.resume i ok unlocked
      | _ => s
  | .run i =>
      match s.workers[i]? with
      | some (.running t) => { s with ran := s.ran ++ [t] }.setWorker i (.finished t)
      | _ => s
  | .finish i =>
      match s.workers[i]? with
      | some (.finished t) => s.finish i t
      | _ => s
  | .notify i written =>
      match s.workers[i]? with
      | some .notifying =>
          { s with signalled := s.signalled || written, unwritten := s.unwritten || !written }.setWorker i
            .idle
      | _ => s
  | .wait =>
      -- a round is over when the handlers of what was reported have been called
      if s.task = 0 ∧ s.reported = false then { s with reported := s.signalled, signalled := false } else s
  | .dispatch => if s.task = 0 ∧ s.reported = true then s.dispatch else s
  | .complete => if s.task ≠ 0 then s.completeTask else s

/-- Tasks are not null. -/
def Legal (_ : ThreadPool) : Action → Prop
  | .post t _ _ _ => t ≠ 0
  | _ => True

end ThreadPool

/-! ## What every step keeps -/

namespace Worker

/-- The task whose handler the worker is to call. -/
def toRun : Worker → List Nat
  | .running t => [t]
  | _ => []

/-- The task that the worker is to hand back. -/
def toFinish : Worker → List Nat
  | .finished t => [t]
  | _ => []

/-- In `ngx_thread_cond_wait`, or on the way out of it. -/
def sleeps (w : Worker) : Bool := w = .waiting || w = .woken

end Worker

namespace ThreadPool

/-- How often a task is in one of the lists or in a worker's hands. -/
def places (s : ThreadPool) (queued handed left : List Nat) (t : Nat) : Nat :=
  queued.count t + (s.workers.flatMap Worker.toRun).count t + (s.workers.flatMap Worker.toFinish).count t +
    handed.count t + left.count t + s.lost.count t

/-- `queued`, `handed` and `left` are the tasks in the queue of the pool, in that of the tasks that are done,
and those that `ngx_thread_pool_handler` still has to complete. -/
structure Kept (s : ThreadPool) (queued handed left : List Nat) : Prop where
  queue : s.queue.IsQueue s.next 0 queued
  done : s.done.IsQueue s.next 0 handed
  task : Chain s.next 0 s.task left
  /-- A task is in one place at a time, and cannot be posted meanwhile. -/
  once : ∀ t, s.places queued handed left t ≤ 1
  active : ∀ t, 0 < s.places queued handed left t → t ≠ 0 ∧ s.active t = true
  /-- First in, first out. -/
  fifo : s.posted = s.taken ++ queued
  ran : ∀ t, s.taken.count t =
    s.ran.count t + (s.workers.flatMap Worker.toRun).count t + s.lost.count t
  completed : ∀ t, s.ran.count t =
    s.completed.count t + (s.workers.flatMap Worker.toFinish).count t + handed.count t + left.count t
  /-- No worker sleeps on while there are tasks that no other one has been woken for. -/
  awake : .returned ∉ s.workers → .waiting ∈ s.workers → queued.length ≤ s.workers.count .woken
  lost : s.lost ≠ [] → .returned ∈ s.workers
  number : .returned ∉ s.workers → s.waiting = queued.length - s.workers.countP Worker.sleeps
  /-- The main thread is told of tasks that are done. -/
  told : s.unwritten = false → handed ≠ [] →
    s.signalled = true ∨ s.reported = true ∨ .notifying ∈ s.workers

/-- A worker among the others. -/
theorem exists_split {ws : List Worker} {i : Nat} {w : Worker} (h : ws[i]? = some w) :
    ∃ u v, ws = u ++ w :: v ∧ ∀ w', ws.set i w' = u ++ w' :: v := by
  rcases List.getElem?_eq_some_iff.1 h with ⟨hi, rfl⟩
  refine ⟨ws.take i, ws.drop (i + 1), ?_, fun w' => List.set_eq_take_append_cons_drop.trans (if_pos hi)⟩
  rw [← List.drop_eq_getElem_cons hi, List.take_append_drop]

/-- The hands of the workers, those of one of them apart. -/
theorem count_hands (f : Worker → List Nat) (u v : List Worker) (w : Worker) (r : Nat) :
    ((u ++ w :: v).flatMap f).count r = ((u ++ v).flatMap f).count r + (f w).count r := by
  simp only [List.flatMap_append, List.flatMap_cons, List.count_append]
  omega

/-- A signal wakes a worker, unless none waits. -/
theorem condSignal_cases (choice : Nat) (s : ThreadPool) :
    (s.condSignal choice = s ∧ .waiting ∉ s.workers) ∨
      ∃ u v, s.workers = u ++ .waiting :: v ∧ s.condSignal choice = { s with workers := u ++ .woken :: v } := by
  have hwake : ∀ i, s.workers[i]? = some .waiting → ∃ u v, s.workers = u ++ .waiting :: v ∧
      s.setWorker i .woken = { s with workers := u ++ .woken :: v } := by
    intro i hi
    rcases exists_split hi with ⟨u, v, hws, hset⟩
    exact ⟨u, v, hws, by rw [setWorker, hset]⟩
  rw [condSignal]
  by_cases hchoice : s.workers[choice]? = some .waiting
  · rw [if_pos hchoice]
    exact .inr (hwake choice hchoice)
  · rw [if_neg hchoice]
    cases hfind : s.workers.findIdx? (· = .waiting) with
    | none =>
        refine .inl ⟨rfl, ?_⟩
        have hnone := List.findIdx?_eq_none_iff.1 hfind
        exact fun hin => absurd (hnone _ hin) (by simp)
    | some i =>
        rcases List.findIdx?_eq_some_iff_getElem.1 hfind with ⟨hi, hw, -⟩
        exact .inr (hwake i (List.getElem?_eq_some_iff.2 ⟨hi, by simpa using hw⟩))

/-- What a post can do. -/
theorem post_cases (t : Nat) (locked sent : Bool) (choice : Nat) (s : ThreadPool) :
    (s.ngxThreadTaskPost t locked sent choice).2 = s ∨
      s.active t = false ∧ s.waiting < s.maxQueue ∧
        ((s.ngxThreadTaskPost t locked sent choice).2 = s.activate t ∨
          (s.ngxThreadTaskPost t locked sent choice).2 = ((s.activate t).condSignal choice).enqueue t) := by
  rw [ngxThreadTaskPost]
  by_cases hactive : s.active t = true
  · exact .inl (by rw [if_pos hactive])
  rw [if_neg hactive]
  cases locked with
  | false => exact .inl rfl
  | true =>
      by_cases hfull : s.waiting ≥ s.maxQueue
      · exact .inl (by rw [if_neg (by simp), if_pos hfull])
      rw [if_neg (by simp), if_neg hfull]
      refine .inr ⟨Bool.not_eq_true _ ▸ hactive, Int.not_le.1 hfull, ?_⟩
      cases sent with
      | false => exact .inl rfl
      | true => exact .inr rfl

namespace Kept

variable {s : ThreadPool} {queued handed left : List Nat} {u v : List Worker} {t : Nat}

/-- A task that is in no place is in none of the lists. -/
theorem notMem_of_places (h : s.places queued handed left t = 0) : t ∉ queued ∧ t ∉ handed ∧ t ∉ left := by
  simp only [places, Nat.add_eq_zero_iff, List.count_eq_zero] at h
  tauto

theorem places_woken (hws : s.workers = u ++ .waiting :: v) (r : Nat) :
    ThreadPool.places { s with workers := u ++ .woken :: v } queued handed left r =
      s.places queued handed left r := by
  simp [places, hws, Worker.toRun, Worker.toFinish]

/-- A worker that wakes up. -/
theorem woken (h : s.Kept queued handed left) (hws : s.workers = u ++ .waiting :: v) :
    Kept { s with workers := u ++ .woken :: v } queued handed left ∧
      (.returned ∉ u ++ .woken :: v → queued.length + 1 ≤ (u ++ Worker.woken :: v).count .woken) := by
  have hreturned : .returned ∉ u ++ .woken :: v ↔ .returned ∉ s.workers := by simp [hws]
  have hcount : (u ++ Worker.woken :: v).count .woken = s.workers.count .woken + 1 := by
    simp [hws]
    omega
  have hlength : .returned ∉ u ++ .woken :: v → queued.length + 1 ≤ (u ++ Worker.woken :: v).count .woken := by
    intro hnone
    have hawake := h.awake (hreturned.1 hnone) (by simp [hws])
    omega
  refine ⟨⟨h.queue, h.done, h.task, ?_, ?_, h.fifo, ?_, ?_, ?_, ?_, ?_, ?_⟩, hlength⟩
  · exact fun r => (places_woken hws r).symm ▸ h.once r
  · exact fun r hr => h.active r (places_woken hws r ▸ hr)
  · intro r
    have hran := h.ran r
    simpa [hws, Worker.toRun] using hran
  · intro r
    have hcompleted := h.completed r
    simpa [hws, Worker.toFinish] using hcompleted
  · intro hnone _
    exact Nat.le_of_succ_le (hlength hnone)
  · intro hlost
    have hin := h.lost hlost
    simpa [hws] using hin
  · intro hnone
    have hnumber := h.number (hreturned.1 hnone)
    simpa [hws, Worker.sleeps] using hnumber
  · intro hwritten hhanded
    have htold := h.told hwritten hhanded
    simpa [hws] using htold

/-- A task that is in no place gets its members. -/
theorem activate (h : s.Kept queued handed left) (ht : s.places queued handed left t = 0) :
    (s.activate t).Kept queued handed left := by
  rcases notMem_of_places ht with ⟨hq, hd, hl⟩
  have hsame : ∀ {l : List Nat}, t ∉ l → ∀ r ∈ l, (s.activate t).next r = s.next r := by
    intro l hnot r hr
    apply Function.update_of_ne
    rintro rfl
    exact hnot hr
  refine ⟨h.queue.congr (hsame hq), h.done.congr (hsame hd), h.task.congr (hsame hl), h.once, ?_, h.fifo,
    h.ran, h.completed, h.awake, h.lost, h.number, h.told⟩
  intro r hr
  have hne : r ≠ t := by
    rintro rfl
    exact absurd ht (Nat.ne_of_gt hr)
  rcases h.active r hr with ⟨hnull, hactive⟩
  refine ⟨hnull, Eq.trans ?_ hactive⟩
  exact Function.update_of_ne hne true s.active

/-- A task at the end of the queue of the pool. -/
theorem enqueue (h : s.Kept queued handed left) (ht : s.places queued handed left t = 0) (hnull : t ≠ 0)
    (hnext : s.next t = 0) (hactive : s.active t = true)
    (hawake : .returned ∉ s.workers → .waiting ∈ s.workers →
      queued.length + 1 ≤ s.workers.count .woken) :
    (s.enqueue t).Kept (queued ++ [t]) handed left := by
  rcases notMem_of_places ht with ⟨hq, hd, hl⟩
  rcases h.queue.push hq hnull hnext with ⟨hqueue, hothers⟩
  -- the lists share no task
  have hapart : ∀ {l : List Nat}, (∀ r, l.count r ≤ handed.count r + left.count r) →
      ∀ r ∈ l, (s.enqueue t).next r = s.next r := by
    intro l hle r hr
    apply hothers
    intro hrq
    have hone := h.once r
    have hleft := hle r
    have hpos := List.count_pos_iff.2 hr
    have hposq := List.count_pos_iff.2 hrq
    simp only [places] at hone
    omega
  have hplaces : ∀ r, (s.enqueue t).places (queued ++ [t]) handed left r =
      s.places queued handed left r + if t = r then 1 else 0 := by
    intro r
    simp [places, ThreadPool.enqueue, List.count_singleton]
    omega
  refine ⟨hqueue, ?_, ?_, ?_, ?_, ?_, h.ran, h.completed, ?_, h.lost, ?_, h.told⟩
  · exact h.done.congr (hapart fun r => Nat.le_add_right _ _)
  · exact h.task.congr (hapart fun r => Nat.le_add_left _ _)
  · intro r
    rw [hplaces]
    split
    case isTrue heq =>
      subst heq
      omega
    case isFalse => exact h.once r
  · intro r hr
    rw [hplaces] at hr
    split at hr
    case isTrue heq => exact heq ▸ ⟨hnull, hactive⟩
    case isFalse => exact h.active r hr
  · refine Eq.trans ?_ (List.append_assoc s.taken queued [t])
    rw [← h.fifo]
    rfl
  · intro hnone hwaiting
    rw [List.length_append]
    exact hawake hnone hwaiting
  · intro hnone
    have hnumber := h.number hnone
    have hworkers : (s.enqueue t).workers = s.workers := rfl
    rw [List.length_append, List.length_singleton, hworkers]
    exact (congrArg (· + 1) hnumber).trans (by omega)

theorem post (h : s.Kept queued handed left) (hnull : t ≠ 0) (locked sent : Bool) (choice : Nat) :
    ∃ queued', Kept (s.ngxThreadTaskPost t locked sent choice).2 queued' handed left := by
  rcases post_cases t locked sent choice s with hsame | ⟨hactive, -, hpost⟩
  · rw [hsame]
    exact ⟨queued, h⟩
  have ht : s.places queued handed left t = 0 := by
    by_contra hne
    have hin := (h.active t (Nat.pos_of_ne_zero hne)).2
    simp [hactive] at hin
  have hset := h.activate ht
  rcases hpost with hfailed | hposted
  · rw [hfailed]
    exact ⟨queued, hset⟩
  · rw [hposted]
    refine ⟨queued ++ [t], ?_⟩
    have hnext : (s.activate t).next t = 0 := Function.update_self ..
    have hact : (s.activate t).active t = true := Function.update_self ..
    rcases condSignal_cases choice (s.activate t) with ⟨hsignal, hnone⟩ | ⟨u, v, hws, hsignal⟩
    · rw [hsignal]
      exact hset.enqueue ht hnull hnext hact fun _ hwaiting => absurd hwaiting hnone
    · rcases hset.woken hws with ⟨hkept, hlength⟩
      rw [hsignal]
      exact hkept.enqueue ((places_woken hws t).trans ht) hnull hnext hact fun hnone _ => hlength hnone

/-- A worker that ends without a task. -/
theorem ended (h : s.Kept queued handed left) {w : Worker} (hws : s.workers = u ++ w :: v)
    (hw : w = .idle ∨ w = .woken) : Kept { s with workers := u ++ .returned :: v } queued handed left := by
  have hplaces : ∀ r, ThreadPool.places { s with workers := u ++ .returned :: v } queued handed left r =
      s.places queued handed left r := by
    intro r
    rcases hw with rfl | rfl <;> simp [places, hws, Worker.toRun, Worker.toFinish]
  refine ⟨h.queue, h.done, h.task, fun r => (hplaces r).symm ▸ h.once r,
    fun r hr => h.active r (hplaces r ▸ hr), h.fifo, ?_, ?_, ?_, ?_, ?_, ?_⟩
  · intro r
    have hran := h.ran r
    rcases hw with rfl | rfl <;> simpa [hws, Worker.toRun] using hran
  · intro r
    have hcompleted := h.completed r
    rcases hw with rfl | rfl <;> simpa [hws, Worker.toFinish] using hcompleted
  · exact fun hnone => absurd (by simp) hnone
  · exact fun _ => by simp
  · exact fun hnone => absurd (by simp) hnone
  · intro hwritten hhanded
    have htold := h.told hwritten hhanded
    rcases hw with rfl | rfl <;> simpa [hws] using htold

/-- A worker that gets a task, and runs it or ends with it. -/
theorem taken (h : s.Kept (t :: queued) handed left) {w w' : Worker} {lost : List Nat}
    (hws : s.workers = u ++ w :: v) (hw : w = .idle ∨ w = .woken)
    (hw' : w' = .running t ∧ lost = s.lost ∨ w' = .returned ∧ lost = s.lost ++ [t]) :
    Kept { s with
      queue := s.queue.pop 0 s.next
      taken := s.taken ++ [t]
      waiting := if w = .idle then s.waiting - 1 else s.waiting
      workers := u ++ w' :: v
      lost := lost } queued handed left := by
  rcases h.queue.pop with ⟨-, -, hqueue⟩
  -- the task goes into the worker's hands, or is lost with the worker
  have hhands : w.toRun = [] ∧ w.toFinish = [] ∧ w'.toFinish = [] ∧
      ∀ r, w'.toRun.count r + lost.count r = [t].count r + s.lost.count r := by
    refine ⟨?_, ?_, ?_, fun r => ?_⟩
    · rcases hw with rfl | rfl <;> rfl
    · rcases hw with rfl | rfl <;> rfl
    · rcases hw' with ⟨rfl, -⟩ | ⟨rfl, -⟩ <;> rfl
    · rcases hw' with ⟨rfl, rfl⟩ | ⟨rfl, rfl⟩
      · rfl
      · have hnone : Worker.returned.toRun = [] := rfl
        rw [hnone, List.count_append, List.count_nil]
        omega
  rcases hhands with ⟨hrun, hfinish, hfinish', hlost⟩
  have hplaces : ∀ r, ThreadPool.places { s with
      queue := s.queue.pop 0 s.next
      taken := s.taken ++ [t]
      waiting := if w = .idle then s.waiting - 1 else s.waiting
      workers := u ++ w' :: v
      lost := lost } queued handed left r = s.places (t :: queued) handed left r := by
    intro r
    have hone := hlost r
    rw [List.count_singleton] at hone
    simp only [places, hws, count_hands, hrun, hfinish, hfinish', List.count_cons, List.count_nil]
    omega
  have hreturned : .returned ∉ u ++ w' :: v → .returned ∉ s.workers := by
    intro hnone hin
    rw [hws] at hin
    refine hnone (List.mem_append.2 ((List.mem_append.1 hin).imp_right fun hin => ?_))
    rcases hw with rfl | rfl <;> exact List.mem_cons_of_mem w' (by simpa using hin)
  refine ⟨hqueue, h.done, h.task, fun r => (hplaces r).symm ▸ h.once r, fun r hr => h.active r (hplaces r ▸ hr),
    ?_, ?_, ?_, ?_, ?_, ?_, ?_⟩
  · exact h.fifo.trans (List.append_cons s.taken t queued)
  · intro r
    have hran := h.ran r
    have hone := hlost r
    rw [hws, count_hands, hrun, List.count_nil] at hran
    dsimp only
    rw [List.count_append, count_hands]
    omega
  · intro r
    have hcompleted := h.completed r
    rw [hws, count_hands, hfinish] at hcompleted
    dsimp only
    rw [count_hands, hfinish']
    exact hcompleted
  · intro hnone hwaiting
    have hin : .waiting ∈ s.workers := by
      rw [hws]
      refine List.mem_append.2 ((List.mem_append.1 hwaiting).imp_right fun hin => ?_)
      rcases hw' with ⟨rfl, -⟩ | ⟨rfl, -⟩ <;> exact List.mem_cons_of_mem w (by simpa using hin)
    have hawake := h.awake (hreturned hnone) hin
    rw [hws] at hawake
    rcases hw with rfl | rfl <;> rcases hw' with ⟨rfl, -⟩ | ⟨rfl, -⟩ <;>
      simp at hawake ⊢ <;> omega
  · intro hsome
    rcases hw' with ⟨rfl, rfl⟩ | ⟨rfl, -⟩
    · have hin := h.lost hsome
      rcases hw with rfl | rfl <;> simpa [hws] using hin
    · simp
  · intro hnone
    have hnumber := h.number (hreturned hnone)
    rw [hws] at hnumber
    rcases hw' with ⟨rfl, -⟩ | ⟨rfl, -⟩
    · rcases hw with rfl | rfl <;> simp [Worker.sleeps] at hnumber ⊢ <;> omega
    · exact absurd (by simp) hnone
  · intro hwritten hhanded
    have htold := h.told hwritten hhanded
    rw [hws] at htold
    rcases hw with rfl | rfl <;> rcases hw' with ⟨rfl, -⟩ | ⟨rfl, -⟩ <;> simpa using htold

/-- A worker under the mutex: one that comes new to it counts down first. -/
theorem take (h : s.Kept queued handed left) {w : Worker} {i : Nat} (hws : s.workers = u ++ w :: v)
    (hset : ∀ w', s.workers.set i w' = u ++ w' :: v) (hw : w = .idle ∨ w = .woken) (unlocked : Bool) :
    ∃ queued', Kept (takeTask i unlocked
      { s with waiting := if w = .idle then s.waiting - 1 else s.waiting }) queued' handed left := by
  rw [takeTask]
  dsimp only [setWorker, dequeue]
  simp only [hset]
  cases queued with
  | nil =>
      have hfirst : s.queue.first = 0 := h.queue.chain.eq_null_of_nil
      rw [if_pos hfirst]
      refine ⟨[], h.queue, h.done, h.task, ?_, ?_, h.fifo, ?_, ?_, ?_, ?_, ?_, ?_⟩
      · intro r
        have honce := h.once r
        rcases hw with rfl | rfl <;> simpa [places, hws, Worker.toRun, Worker.toFinish] using honce
      · intro r
        have hactive := h.active r
        rcases hw with rfl | rfl <;> simpa [places, hws, Worker.toRun, Worker.toFinish] using hactive
      · intro r
        have hran := h.ran r
        rcases hw with rfl | rfl <;> simpa [hws, Worker.toRun] using hran
      · intro r
        have hcompleted := h.completed r
        rcases hw with rfl | rfl <;> simpa [hws, Worker.toFinish] using hcompleted
      · exact fun _ _ => Nat.zero_le _
      · intro hlost
        have hin := h.lost hlost
        rcases hw with rfl | rfl <;> simpa [hws] using hin
      · intro hnone
        have hnumber := h.number (by rcases hw with rfl | rfl <;> simpa [hws] using hnone)
        rcases hw with rfl | rfl <;> simp [hws, Worker.sleeps] at hnumber ⊢ <;> omega
      · intro hwritten hhanded
        have htold := h.told hwritten hhanded
        rcases hw with rfl | rfl <;> simpa [hws] using htold
  | cons t queued =>
      rcases h.queue.pop with ⟨hfirst, hnull, -⟩
      rw [hfirst, if_neg hnull]
      refine ⟨queued, ?_⟩
      cases unlocked with
      | true => exact h.taken hws hw (.inl ⟨rfl, rfl⟩)
      | false => exact h.taken hws hw (.inr ⟨rfl, rfl⟩)

/-- The handler of a task is called. -/
theorem run (h : s.Kept queued handed left) (hws : s.workers = u ++ .running t :: v) :
    Kept { s with ran := s.ran ++ [t], workers := u ++ .finished t :: v } queued handed left := by
  have hplaces : ∀ r, ThreadPool.places { s with ran := s.ran ++ [t], workers := u ++ .finished t :: v } queued
      handed left r = s.places queued handed left r := by
    intro r
    simp [places, hws, Worker.toRun, Worker.toFinish, List.count_cons]
    omega
  refine ⟨h.queue, h.done, h.task, fun r => (hplaces r).symm ▸ h.once r,
    fun r hr => h.active r (hplaces r ▸ hr), h.fifo, ?_, ?_, ?_, ?_, ?_, ?_⟩
  · intro r
    have hran := h.ran r
    simp [hws, Worker.toRun, List.count_cons] at hran ⊢
    omega
  · intro r
    have hcompleted := h.completed r
    simp [hws, Worker.toFinish, List.count_cons] at hcompleted ⊢
    omega
  · intro hnone hwaiting
    have hawake := h.awake (by simpa [hws] using hnone) (by simpa [hws] using hwaiting)
    simpa [hws] using hawake
  · intro hlost
    have hin := h.lost hlost
    simpa [hws] using hin
  · intro hnone
    have hnumber := h.number (by simpa [hws] using hnone)
    simpa [hws, Worker.sleeps] using hnumber
  · intro hwritten hhanded
    have htold := h.told hwritten hhanded
    simpa [hws] using htold

/-- A task comes to the queue of those that are done. -/
theorem finish (h : s.Kept queued handed left) (hws : s.workers = u ++ .finished t :: v) :
    Kept { s with
      next := (s.done.push t (Function.update s.next t 0)).1
      done := (s.done.push t (Function.update s.next t 0)).2
      workers := u ++ .notifying :: v } queued (handed ++ [t]) left := by
  have hnull : t ≠ 0 := by
    refine (h.active t ?_).1
    rw [places, hws, count_hands Worker.toFinish, Worker.toFinish, List.count_singleton_self]
    omega
  -- a task in a worker's hands is in none of the lists
  have hone : queued.count t = 0 ∧ handed.count t = 0 ∧ left.count t = 0 := by
    have honce := h.once t
    simp [places, hws, Worker.toFinish] at honce
    omega
  rcases hone with ⟨hq, hd, hl⟩
  rw [List.count_eq_zero] at hq hd hl
  have hsame : ∀ {l : List Nat}, t ∉ l → ∀ r ∈ l, Function.update s.next t 0 r = s.next r := by
    intro l hnot r hr
    apply Function.update_of_ne
    rintro rfl
    exact hnot hr
  rcases (h.done.congr (hsame hd)).push hd hnull (Function.update_self ..) with ⟨hdone, hothers⟩
  -- the lists share no task
  have hapart : ∀ {l : List Nat}, (∀ r, l.count r ≤ queued.count r + left.count r) → t ∉ l →
      ∀ r ∈ l, (s.done.push t (Function.update s.next t 0)).1 r = s.next r := by
    intro l hle hnot r hr
    refine (hothers r fun hrd => ?_).trans (hsame hnot r hr)
    have hone := h.once r
    have hleft := hle r
    have hpos := List.count_pos_iff.2 hr
    have hposd := List.count_pos_iff.2 hrd
    simp only [places] at hone
    omega
  have hplaces : ∀ r, ThreadPool.places { s with
      next := (s.done.push t (Function.update s.next t 0)).1
      done := (s.done.push t (Function.update s.next t 0)).2
      workers := u ++ .notifying :: v } queued (handed ++ [t]) left r = s.places queued handed left r := by
    intro r
    simp [places, hws, Worker.toRun, Worker.toFinish, List.count_cons]
    omega
  refine ⟨?_, hdone, ?_, fun r => (hplaces r).symm ▸ h.once r, fun r hr => h.active r (hplaces r ▸ hr), h.fifo,
    ?_, ?_, ?_, ?_, ?_, ?_⟩
  · exact h.queue.congr (hapart (fun r => Nat.le_add_right _ _) hq)
  · exact h.task.congr (hapart (fun r => Nat.le_add_left _ _) hl)
  · intro r
    have hran := h.ran r
    simpa [hws, Worker.toRun] using hran
  · intro r
    have hcompleted := h.completed r
    simp [hws, Worker.toFinish, List.count_cons] at hcompleted ⊢
    omega
  · intro hnone hwaiting
    have hawake := h.awake (by simpa [hws] using hnone) (by simpa [hws] using hwaiting)
    simpa [hws] using hawake
  · intro hlost
    have hin := h.lost hlost
    simpa [hws] using hin
  · intro hnone
    have hnumber := h.number (by simpa [hws] using hnone)
    simpa [hws, Worker.sleeps] using hnumber
  · intro _ _
    simp

/-- `ngx_notify` is called. -/
theorem notify (h : s.Kept queued handed left) (hws : s.workers = u ++ .notifying :: v) (written : Bool) :
    Kept { s with
      signalled := s.signalled || written
      unwritten := s.unwritten || !written
      workers := u ++ .idle :: v } queued handed left := by
  have hplaces : ∀ r, ThreadPool.places { s with
      signalled := s.signalled || written
      unwritten := s.unwritten || !written
      workers := u ++ .idle :: v } queued handed left r = s.places queued handed left r := by
    intro r
    simp [places, hws, Worker.toRun, Worker.toFinish]
  refine ⟨h.queue, h.done, h.task, fun r => (hplaces r).symm ▸ h.once r,
    fun r hr => h.active r (hplaces r ▸ hr), h.fifo, ?_, ?_, ?_, ?_, ?_, ?_⟩
  · intro r
    have hran := h.ran r
    simpa [hws, Worker.toRun] using hran
  · intro r
    have hcompleted := h.completed r
    simpa [hws, Worker.toFinish] using hcompleted
  · intro hnone hwaiting
    have hawake := h.awake (by simpa [hws] using hnone) (by simpa [hws] using hwaiting)
    simpa [hws] using hawake
  · intro hlost
    have hin := h.lost hlost
    simpa [hws] using hin
  · intro hnone
    have hnumber := h.number (by simpa [hws] using hnone)
    simpa [hws, Worker.sleeps] using hnumber
  · intro hwritten _
    -- a notification that is written stays until the main thread waits
    simp only [Bool.or_eq_false_iff, Bool.not_eq_false'] at hwritten
    exact .inl (by simp [hwritten.2])

/-- The main thread goes through its descriptors. -/
theorem wait (h : s.Kept queued handed left) (hreported : s.reported = false) :
    Kept { s with reported := s.signalled, signalled := false } queued handed left := by
  refine { h with told := ?_ }
  intro hwritten hhanded
  rcases h.told hwritten hhanded with hsignalled | hreported' | hnotifying
  · exact .inr (.inl hsignalled)
  · exact absurd hreported' (by simp [hreported])
  · exact .inr (.inr hnotifying)

/-- The queue of the tasks that are done is taken. -/
theorem dispatch (h : s.Kept queued handed left) (htask : s.task = 0) :
    Kept s.dispatch queued [] handed := by
  have hleft : left = [] := (htask ▸ h.task).unique (.nil s.next 0)
  subst hleft
  have hplaces : ∀ r, s.dispatch.places queued [] handed r = s.places queued handed [] r := by
    intro r
    simp only [places, ThreadPool.dispatch, List.count_nil]
    omega
  refine ⟨h.queue, .init s.next 0, h.done.chain, fun r => (hplaces r).symm ▸ h.once r,
    fun r hr => h.active r (hplaces r ▸ hr), h.fifo, h.ran, ?_, h.awake, h.lost, h.number,
    fun _ hhanded => absurd rfl hhanded⟩
  intro r
  have hcompleted := h.completed r
  simpa [ThreadPool.dispatch] using hcompleted

/-- The handler of the event of a task is called. -/
theorem complete (h : s.Kept queued handed left) (htask : s.task ≠ 0) :
    ∃ left', left = s.task :: left' ∧ Kept s.completeTask queued handed left' := by
  cases left with
  | nil => exact absurd h.task.eq_null_of_nil htask
  | cons t left =>
      rcases h.task.cons_inv with ⟨hfirst, hnull, htail⟩
      refine ⟨left, by rw [hfirst], ?_⟩
      have hplaces : ∀ r, s.places queued handed (t :: left) r =
          s.completeTask.places queued handed left r + if t = r then 1 else 0 := by
        intro r
        simp only [places, ThreadPool.completeTask, List.count_cons, beq_iff_eq]
        omega
      refine ⟨h.queue, h.done, ?_, ?_, ?_, h.fifo, h.ran, ?_, h.awake, h.lost, h.number, h.told⟩
      · rw [← hfirst] at htail
        exact htail
      · intro r
        have honce := h.once r
        rw [hplaces] at honce
        omega
      · intro r hr
        have hbefore : 0 < s.places queued handed (t :: left) r := by
          rw [hplaces]
          omega
        rcases h.active r hbefore with ⟨hnull', hactive⟩
        have hne : r ≠ s.task := by
          rw [hfirst]
          rintro rfl
          have honce := h.once r
          rw [hplaces, if_pos rfl] at honce
          omega
        refine ⟨hnull', Eq.trans ?_ hactive⟩
        exact Function.update_of_ne hne false s.active
      · intro r
        have hcompleted := h.completed r
        simp [ThreadPool.completeTask, hfirst, List.count_cons] at hcompleted ⊢
        omega

theorem step (h : s.Kept queued handed left) {a : Action} (hlegal : s.Legal a) :
    ∃ queued' handed' left', (s.step a).Kept queued' handed' left' := by
  cases a with
  | post t locked sent choice =>
      rcases h.post hlegal locked sent choice with ⟨queued', hkept⟩
      exact ⟨queued', handed, left, hkept⟩
  | lock i locked unlocked =>
      rw [ThreadPool.step]
      split
      case h_1 hi =>
        rcases exists_split hi with ⟨u, v, hws, hset⟩
        rw [ThreadPool.lock]
        cases locked with
        | false =>
            refine ⟨queued, handed, left, ?_⟩
            have hkept := h.ended hws (.inl rfl)
            rw [← hset] at hkept
            exact hkept
        | true =>
            rcases h.take hws hset (.inl rfl) unlocked with ⟨queued', hkept⟩
            exact ⟨queued', handed, left, hkept⟩
      case h_2 => exact ⟨queued, handed, left, h⟩
  | wake i =>
      rw [ThreadPool.step]
      split
      case h_1 hi =>
        rcases exists_split hi with ⟨u, v, hws, hset⟩
        refine ⟨queued, handed, left, ?_⟩
        rw [setWorker, hset]
        exact (h.woken hws).1
      case h_2 => exact ⟨queued, handed, left, h⟩
  | resume i ok unlocked =>
      rw [ThreadPool.step]
      split
      case h_1 hi =>
        rcases exists_split hi with ⟨u, v, hws, hset⟩
        rw [ThreadPool.resume]
        cases ok with
        | false =>
            refine ⟨queued, handed, left, ?_⟩
            have hkept := h.ended hws (.inr rfl)
            rw [← hset] at hkept
            exact hkept
        | true =>
            rcases h.take hws hset (.inr rfl) unlocked with ⟨queued', hkept⟩
            exact ⟨queued', handed, left, hkept⟩
      case h_2 => exact ⟨queued, handed, left, h⟩
  | run i =>
      rw [ThreadPool.step]
      split
      case h_1 t hi =>
        rcases exists_split hi with ⟨u, v, hws, hset⟩
        refine ⟨queued, handed, left, ?_⟩
        have hkept := h.run hws
        rw [← hset] at hkept
        exact hkept
      case h_2 => exact ⟨queued, handed, left, h⟩
  | finish i =>
      rw [ThreadPool.step]
      split
      case h_1 t hi =>
        rcases exists_split hi with ⟨u, v, hws, hset⟩
        refine ⟨queued, handed ++ [t], left, ?_⟩
        have hkept := h.finish hws
        rw [← hset] at hkept
        exact hkept
      case h_2 => exact ⟨queued, handed, left, h⟩
  | notify i written =>
      rw [ThreadPool.step]
      split
      case h_1 hi =>
        rcases exists_split hi with ⟨u, v, hws, hset⟩
        refine ⟨queued, handed, left, ?_⟩
        have hkept := h.notify hws written
        rw [← hset] at hkept
        exact hkept
      case h_2 => exact ⟨queued, handed, left, h⟩
  | wait =>
      rw [ThreadPool.step]
      split
      case isTrue hover => exact ⟨queued, handed, left, h.wait hover.2⟩
      case isFalse => exact ⟨queued, handed, left, h⟩
  | dispatch =>
      rw [ThreadPool.step]
      split
      case isTrue hcalled => exact ⟨queued, [], handed, h.dispatch hcalled.1⟩
      case isFalse => exact ⟨queued, handed, left, h⟩
  | complete =>
      rw [ThreadPool.step]
      split
      case isTrue htask =>
        rcases h.complete htask with ⟨left', -, hkept⟩
        exact ⟨queued, handed, left', hkept⟩
      case isFalse => exact ⟨queued, handed, left, h⟩

end Kept

/-! ## Whole runs -/

/-- `n` workers that have just been started. -/
def start (n : Nat) (maxQueue : Int) : ThreadPool where
  maxQueue := maxQueue
  workers := List.replicate n .idle

end ThreadPool

end Ngx
end CppPractice
