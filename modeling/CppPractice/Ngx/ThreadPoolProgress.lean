import CppPractice.Ngx.ThreadPool
import Mathlib

/-!
# ThreadPoolProgress — the threads of a pool come to an end of their work

Each step of a thread lowers `work`, and only posting and waking without a signal raise it.  Where no thread
can go on, what `Kept` says of the lists leaves no place for a task.
-/

namespace CppPractice
namespace Ngx

namespace ThreadPool

/-! ## The counter -/

/-- How many steps a worker has before it at most, with those that follow in the main thread. -/
def weight : Worker → Int
  | .idle => 1
  | .waiting => 0
  | .woken => 1
  | .running _ => 7
  | .finished _ => 5
  | .notifying => 4
  | .returned => 0

/-- Whether a thread can go on.  Posting is up to the main thread, and waking without a signal to the
system. -/
def moves (s : ThreadPool) : Action → Bool
  | .post .. | .wake _ => false
  | .lock i _ _ => s.workers[i]? = some .idle
  | .resume i _ _ => s.workers[i]? = some .woken
  | .run i => ((s.workers[i]?.map Worker.toRun).getD []) ≠ []
  | .finish i => ((s.workers[i]?.map Worker.toFinish).getD []) ≠ []
  | .notify i _ => s.workers[i]? = some .notifying
  | .wait => s.task = 0 ∧ s.reported = false ∧ s.signalled = true
  | .dispatch => s.task = 0 ∧ s.reported = true
  | .complete => s.task ≠ 0

/-- How many steps of threads there are in a run. -/
def moved (s : ThreadPool) : List Action → Nat
  | [] => 0
  | a :: as => (s.moves a).toNat + moved (s.step a) as

namespace Kept

variable {s : ThreadPool} {queued handed left : List Nat}

end Kept

end ThreadPool

end Ngx
end CppPractice
