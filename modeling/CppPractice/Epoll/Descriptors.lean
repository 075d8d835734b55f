import CppPractice.Epoll.Event
import CppPractice.Lib.Trace
import Mathlib.Logic.Function.Basic

/-!
# Descriptors — which descriptors the epoll module owns

`init` and `done` of `CppEpollHandler`: the epoll descriptor in `epoll_data().ep`, the eventfd in
`notify_data().fd`, and the calls of `epoll_create`, `eventfd`, `epoll_ctl` and `close` on them.  The
kernel's answers are inputs.  Between two calls other code of the process opens and closes descriptors
of its own.

The descriptors the module obtains are numbered in the order it obtains them, so that the same number
obtained again is another descriptor.  The code keeps no such number.
-/

namespace CppPractice
namespace Epoll
namespace Descriptors

inductive Kind
  | epoll
  | eventfd
  deriving DecidableEq, Repr

inductive Owner
  | handler (kind : Kind) (id : Nat)
  | other
  deriving DecidableEq, Repr

/-- Who has each open descriptor of the process. -/
abbrev Table := Int → Option Owner

structure World where
  /-- `epoll_data().ep` -/
  ep : Int
  /-- `epoll_data().event_list.size()` -/
  eventList : Nat
  /-- `notify_data().fd` -/
  fd : Int
  /-- `actions().notify` is not null. -/
  notify : Bool
  table : Table
  /-- The tables before this one, the latest first. -/
  past : List Table
  /-- How many descriptors the module has obtained. -/
  obtained : Nat
  /-- The module's calls of `close`, with what the descriptor was at the time. -/
  closes : List (Int × Option Owner)

namespace World

def stored (w : World) : Kind → Int
  | .epoll => w.ep
  | .eventfd => w.fd

def store (kind : Kind) (n : Int) (w : World) : World :=
  match kind with
  | .epoll => { w with ep := n }
  | .eventfd => { w with fd := n }

/-- The module before its first `init`, in a process that has the descriptors `others` open. -/
def start (others : Int → Bool) : World where
  ep := -1
  eventList := 0
  fd := -1
  notify := true
  table n := if 0 ≤ n ∧ others n = true then some .other else none
  past := []
  obtained := 0
  closes := []

end World

/-! ## The kernel -/

/-- A number the kernel can give to a new descriptor. -/
def Free (t : Table) (n : Int) : Prop := 0 ≤ n ∧ t n = none

instance (t : Table) (n : Int) : Decidable (Free t n) := by
  unfold Free
  infer_instance

theorem Free.ne_neg {t : Table} {n : Int} (h : Free t n) : n ≠ -1 := by
  rintro rfl
  exact absurd h.1 (by decide)

/-- Another open descriptor, or one less. -/
def World.setTable (n : Int) (owner : Option Owner) (w : World) : World :=
  { w with table := Function.update w.table n owner, past := w.table :: w.past }

/-- `epoll_create(size)` and `eventfd(0, 0)`: the kernel's answer is a number that is not in use, and
every other answer is `-1`. -/
def obtain (kind : Kind) (answer : Int) (w : World) : Int × World :=
  if Free w.table answer then
    (answer, { w.setTable answer (some (.handler kind w.obtained)) with obtained := w.obtained + 1 })
  else
    (-1, w)

/-- `close(n)` -/
def close (n : Int) (w : World) : World :=
  { w.setTable n none with closes := (n, w.table n) :: w.closes }

/-! ## The module -/

namespace CppEpollHandler

/-- `if(event_list.size() < cf.events) event_list.resize(cf.events);` -/
def resize (events : Nat) (w : World) : World :=
  if w.eventList < events then { w with eventList := events } else w

def initEpollData (events : Nat) (epollCreate : Int) (w : World) : NgxInt × World :=
  if w.ep = -1 then
    let r := obtain .epoll epollCreate w
    let w := r.2.store .epoll r.1
    if w.ep = -1 then (.ngxError, w) else (.ngxOk, resize events w)
  else
    (.ngxOk, resize events w)

def doneEpollData (w : World) : World :=
  { (close w.ep w).store .epoll (-1) with eventList := 0 }

def initNotifyData (eventfd : Int) (epollCtl : Bool) (w : World) : NgxInt × World :=
  let r := obtain .eventfd eventfd w
  let w := r.2.store .eventfd r.1
  if w.fd = -1 then
    (.ngxError, w)
  else if epollCtl then
    (.ngxOk, w)
  else
    -- `ommit close error`; `notify.fd` keeps the number
    (.ngxError, close w.fd w)

def doneNotifyData (w : World) : World := (close w.fd w).store .eventfd (-1)

def init (events : Nat) (epollCreate eventfd : Int) (epollCtl : Bool) (w : World) :
    NgxInt × World :=
  match initEpollData events epollCreate w with
  | (.ngxError, w) => (.ngxError, w)
  | (.ngxOk, w) =>
      match initNotifyData eventfd epollCtl w with
      | (.ngxError, w) => (.ngxOk, { w with notify := false })
      | (.ngxOk, w) => (.ngxOk, w)

def done (w : World) : World := doneNotifyData (doneEpollData w)

end CppEpollHandler

/-- A call of the module, with the answers of the kernel, or other code opening or closing a descriptor
of its own. -/
inductive Call
  | init (events : Nat) (epollCreate eventfd : Int) (epollCtl : Bool)
  | done
  | otherOpen (n : Int)
  | otherClose (n : Int)
  deriving DecidableEq, Repr

def step (w : World) : Call → World
  | .init events epollCreate eventfd epollCtl =>
      (CppEpollHandler.init events epollCreate eventfd epollCtl w).2
  | .done => CppEpollHandler.done w
  | .otherOpen n => if Free w.table n then w.setTable n (some .other) else w
  | .otherClose n => if w.table n = some .other then w.setTable n none else w

/-! ## Ownership -/

/-- The descriptors among the closed ones that were the module's. -/
def closedIds (w : World) : List Nat :=
  w.closes.filterMap fun c =>
    match c.2 with
    | some (.handler _ id) => some id
    | _ => none

/-- At most one descriptor of each kind is open. -/
def OneOpen (t : Table) : Prop :=
  ∀ kind m n i j, t m = some (.handler kind i) → t n = some (.handler kind j) → m = n

structure OwnedOnce (w : World) : Prop where
  one_open : ∀ t ∈ w.table :: w.past, OneOpen t
  stored_or_closed : ∀ i < w.obtained,
    (∃ kind, w.table (w.stored kind) = some (.handler kind i)) ∨ i ∈ closedIds w
  closed_once : (closedIds w).Nodup
  close_own : ∀ c ∈ w.closes, 0 ≤ c.1 → ∃ kind i, c.2 = some (.handler kind i)

/-- What a call leaves: each descriptor owned once, and after a successful `init` an event list of the
configured size. -/
def Sound (w : World) (call : Call) : Prop :=
  OwnedOnce (step w call) ∧
    match call with
    | .init events epollCreate eventfd epollCtl =>
        (CppEpollHandler.init events epollCreate eventfd epollCtl w).1 = .ngxOk →
          events ≤ (step w call).eventList
    | _ => True

/-- The eventfd that `notify_data().fd` names is open, and the module's. -/
def EventfdOpen (w : World) : Prop := ∃ i, w.table w.fd = some (.handler .eventfd i)

/-- `init` finds no open eventfd stored, unless it fails before it asks for one; and `done` finds one
whenever a number is stored. -/
def Safe (w : World) : Call → Prop
  | .init _ epollCreate _ _ => EventfdOpen w → w.ep = -1 ∧ ¬Free w.table epollCreate
  | .done => 0 ≤ w.fd → EventfdOpen w
  | _ => True

/-! ## What the calls keep -/

/-- No descriptor of this kind is open. -/
def NoneOpen (kind : Kind) (t : Table) : Prop := ∀ n i, t n ≠ some (.handler kind i)

structure Tracked (w : World) : Prop where
  owned : OwnedOnce w
  nonneg : ∀ n o, w.table n = some o → 0 ≤ n
  /-- An open descriptor of the module is stored where its kind is. -/
  held : ∀ n kind i, w.table n = some (.handler kind i) → n = w.stored kind
  injective : ∀ m n kind kind' i,
    w.table m = some (.handler kind i) → w.table n = some (.handler kind' i) → m = n
  fresh : ∀ n kind i, w.table n = some (.handler kind i) → i < w.obtained ∧ i ∉ closedIds w
  closed_lt : ∀ i ∈ closedIds w, i < w.obtained

/-- Between two calls the stored `ep` is the open epoll descriptor, or none. -/
structure Consistent (w : World) : Prop extends Tracked w where
  ep_open : w.ep = -1 ∨ ∃ i, w.table w.ep = some (.handler .epoll i)

section tables

variable {t : Table}

theorem OneOpen.update (h : OneOpen t) (n : Int) {owner : Option Owner}
    (hnone : ∀ kind i, owner = some (.handler kind i) → NoneOpen kind t) :
    OneOpen (Function.update t n owner) := by
  intro kind k m i j hk hm
  by_cases hkn : k = n
  · subst hkn
    by_cases hmn : m = k
    · exact hmn.symm
    · have howner : owner = some (.handler kind i) := by simpa using hk
      have hm' : t m = some (.handler kind j) := by simpa [hmn] using hm
      exact absurd hm' (hnone kind i howner m j)
  · have hk' : t k = some (.handler kind i) := by simpa [hkn] using hk
    by_cases hmn : m = n
    · subst hmn
      have howner : owner = some (.handler kind j) := by simpa using hm
      exact absurd hk' (hnone kind j howner k i)
    · have hm' : t m = some (.handler kind j) := by simpa [hmn] using hm
      exact h kind k m i j hk' hm'

theorem OwnedOnce.moments {w : World} (h : OwnedOnce w) {t : Table} (ht : OneOpen t) :
    ∀ u ∈ t :: w.table :: w.past, OneOpen u := by
  intro u hu
  rcases List.mem_cons.1 hu with rfl | hu
  · exact ht
  · exact h.one_open u hu

end tables

section store

variable (w : World) (kind : Kind) (n : Int)

@[simp] theorem store_table : (w.store kind n).table = w.table := by cases kind <;> rfl
@[simp] theorem store_past : (w.store kind n).past = w.past := by cases kind <;> rfl
@[simp] theorem store_obtained : (w.store kind n).obtained = w.obtained := by cases kind <;> rfl
@[simp] theorem store_closes : (w.store kind n).closes = w.closes := by cases kind <;> rfl

@[simp] theorem stored_store : (w.store kind n).stored kind = n := by cases kind <;> rfl

theorem stored_store_of_ne {kind other : Kind} (h : other ≠ kind) :
    (w.store kind n).stored other = w.stored other := by
  cases kind <;> cases other <;> first | rfl | exact absurd rfl h

end store

/-- What is stored is in two fields, whatever else changes. -/
theorem stored_congr {w w' : World} (hep : w'.ep = w.ep) (hfd : w'.fd = w.fd) (kind : Kind) :
    w'.stored kind = w.stored kind := by
  cases kind with
  | epoll => exact hep
  | eventfd => exact hfd

section close

variable (w : World) (n : Int)

@[simp] theorem close_table : (close n w).table = Function.update w.table n none := rfl
@[simp] theorem close_past : (close n w).past = w.table :: w.past := rfl
@[simp] theorem close_obtained : (close n w).obtained = w.obtained := rfl
@[simp] theorem close_closes : (close n w).closes = (n, w.table n) :: w.closes := rfl

@[simp] theorem stored_close (kind : Kind) : (close n w).stored kind = w.stored kind :=
  stored_congr rfl rfl kind

end close

/-- A number can be stored where nothing open is. -/
theorem Tracked.store {w : World} {kind : Kind} (h : Tracked w) (hnone : NoneOpen kind w.table)
    (n : Int) : Tracked (w.store kind n) := by
  have hstored : ∀ m other i, w.table m = some (.handler other i) →
      (w.store kind n).stored other = w.stored other := by
    intro m other i hm
    apply stored_store_of_ne
    rintro rfl
    exact hnone m i hm
  refine ⟨⟨?_, ?_, ?_, ?_⟩, ?_, ?_, ?_, ?_, ?_⟩
  · simpa using h.owned.one_open
  · intro i hi
    rcases h.owned.stored_or_closed i (by simpa using hi) with ⟨other, hopen⟩ | hclosed
    · exact Or.inl ⟨other, by simpa [hstored _ _ _ hopen] using hopen⟩
    · exact Or.inr (by simpa [closedIds] using hclosed)
  · simpa [closedIds] using h.owned.closed_once
  · simpa using h.owned.close_own
  · simpa using h.nonneg
  · intro m other i hm
    have hm' : w.table m = some (.handler other i) := by simpa using hm
    calc
      m = w.stored other := h.held m other i hm'
      _ = (w.store kind n).stored other := (hstored m other i hm').symm
  · simpa using h.injective
  · simpa [closedIds] using h.fresh
  · simpa [closedIds] using h.closed_lt

section acquire

/-- A new descriptor of the module, which is stored where its kind is. -/
def acquired (kind : Kind) (n : Int) (w : World) : World :=
  World.store kind n
    { w.setTable n (some (.handler kind w.obtained)) with obtained := w.obtained + 1 }

variable {w : World} {kind : Kind} {n : Int}

@[simp] theorem acquired_table : (acquired kind n w).table =
    Function.update w.table n (some (.handler kind w.obtained)) := by cases kind <;> rfl

@[simp] theorem acquired_past : (acquired kind n w).past = w.table :: w.past := by
  cases kind <;> rfl

@[simp] theorem acquired_obtained : (acquired kind n w).obtained = w.obtained + 1 := by
  cases kind <;> rfl

@[simp] theorem acquired_closes : (acquired kind n w).closes = w.closes := by cases kind <;> rfl

@[simp] theorem closedIds_acquired : closedIds (acquired kind n w) = closedIds w := by
  simp [closedIds]

@[simp] theorem stored_acquired : (acquired kind n w).stored kind = n := by cases kind <;> rfl

theorem stored_acquired_of_ne {other : Kind} (h : other ≠ kind) :
    (acquired kind n w).stored other = w.stored other := by
  cases kind <;> cases other <;> first | rfl | exact absurd rfl h

/-- What is open afterwards is the new descriptor, or was open before and is of the other kind. -/
theorem open_acquired (hnone : NoneOpen kind w.table) {m : Int} {other : Kind} {i : Nat}
    (hm : (acquired kind n w).table m = some (.handler other i)) :
    (m = n ∧ other = kind ∧ i = w.obtained) ∨
      (other ≠ kind ∧ w.table m = some (.handler other i)) := by
  rw [acquired_table] at hm
  by_cases hmn : m = n
  · subst hmn
    have hnew : kind = other ∧ w.obtained = i := by simpa using hm
    exact Or.inl ⟨rfl, hnew.1.symm, hnew.2.symm⟩
  · have hold : w.table m = some (.handler other i) := by simpa [hmn] using hm
    refine Or.inr ⟨?_, hold⟩
    rintro rfl
    exact hnone m i hold

/-- What was open before is open still. -/
theorem still_open_acquired (hnone : NoneOpen kind w.table) (hfree : w.table n = none) {other : Kind}
    {i : Nat} (hold : w.table (w.stored other) = some (.handler other i)) :
    (acquired kind n w).table ((acquired kind n w).stored other) = some (.handler other i) := by
  have hne : other ≠ kind := by
    rintro rfl
    exact hnone _ i hold
  have hat : w.stored other ≠ n := by
    intro heq
    simp [heq, hfree] at hold
  rw [stored_acquired_of_ne hne, acquired_table, Function.update_of_ne hat]
  exact hold

theorem OwnedOnce.acquired (h : OwnedOnce w) (hnone : NoneOpen kind w.table)
    (hfree : w.table n = none) : OwnedOnce (acquired kind n w) := by
  refine ⟨?_, ?_, ?_, ?_⟩
  · have hset : OneOpen (Function.update w.table n (some (.handler kind w.obtained))) := by
      apply (h.one_open _ List.mem_cons_self).update
      rintro other i hkind
      cases hkind
      exact hnone
    simpa using h.moments hset
  · intro i hi
    have hle : i < w.obtained + 1 := by simpa using hi
    rcases Nat.lt_succ_iff_lt_or_eq.1 hle with hlt | rfl
    · rcases h.stored_or_closed i hlt with ⟨other, hold⟩ | hclosed
      · exact Or.inl ⟨other, still_open_acquired hnone hfree hold⟩
      · exact Or.inr (by simpa using hclosed)
    · exact Or.inl ⟨kind, by simp⟩
  · simpa using h.closed_once
  · simpa using h.close_own

theorem Tracked.acquired (h : Tracked w) (hnone : NoneOpen kind w.table) (hfree : Free w.table n) :
    Tracked (acquired kind n w) := by
  refine ⟨h.owned.acquired hnone hfree.2, ?_, ?_, ?_, ?_, ?_⟩
  · intro m o hm
    by_cases hmn : m = n
    · exact hmn ▸ hfree.1
    · exact h.nonneg m o (by simpa [hmn] using hm)
  · intro m other i hm
    rcases open_acquired hnone hm with ⟨rfl, rfl, -⟩ | ⟨hne, hold⟩
    · exact stored_acquired.symm
    · rw [stored_acquired_of_ne hne]
      exact h.held m other i hold
  · intro m k other other' i hm hk
    rcases open_acquired hnone hm with ⟨rfl, -, rfl⟩ | ⟨-, hmold⟩
    · rcases open_acquired hnone hk with ⟨rfl, -, -⟩ | ⟨-, hkold⟩
      · rfl
      · exact absurd (h.fresh k other' _ hkold).1 (Nat.lt_irrefl _)
    · rcases open_acquired hnone hk with ⟨rfl, -, rfl⟩ | ⟨-, hkold⟩
      · exact absurd (h.fresh m other _ hmold).1 (Nat.lt_irrefl _)
      · exact h.injective m k other other' i hmold hkold
  · intro m other i hm
    rw [acquired_obtained, closedIds_acquired]
    rcases open_acquired hnone hm with ⟨-, -, rfl⟩ | ⟨-, hold⟩
    · exact ⟨Nat.lt_succ_self _, fun hmem => Nat.lt_irrefl _ (h.closed_lt _ hmem)⟩
    · exact ⟨Nat.lt_succ_of_lt (h.fresh m other i hold).1, (h.fresh m other i hold).2⟩
  · intro i hi
    rw [closedIds_acquired] at hi
    rw [acquired_obtained]
    exact Nat.lt_succ_of_lt (h.closed_lt i hi)

/-- A descriptor obtained and stored where nothing open is. -/
theorem Tracked.acquire (h : Tracked w) (hnone : NoneOpen kind w.table) (answer : Int) :
    Tracked ((obtain kind answer w).2.store kind (obtain kind answer w).1) := by
  by_cases hfree : Free w.table answer
  · have hobtain : (obtain kind answer w).2.store kind (obtain kind answer w).1 =
        Descriptors.acquired kind answer w := by
      simp [obtain, hfree, Descriptors.acquired]
    rw [hobtain]
    exact h.acquired hnone hfree
  · simpa [obtain, hfree] using h.store hnone (-1)

end acquire

/-- `close` of a number that no descriptor has. -/
theorem Tracked.close_negative {w : World} (h : Tracked w) {n : Int} (hn : n < 0) :
    Tracked (close n w) := by
  have hnone : w.table n = none := by
    cases hw : w.table n with
    | none => rfl
    | some o => exact absurd (h.nonneg n o hw) (Int.not_le.2 hn)
  have htable : Function.update w.table n none = w.table := by
    rw [← hnone, Function.update_eq_self]
  have hids : closedIds (close n w) = closedIds w := by simp [closedIds, hnone]
  have hone : OneOpen w.table := h.owned.one_open _ List.mem_cons_self
  refine ⟨⟨?_, ?_, ?_, ?_⟩, ?_, ?_, ?_, ?_, ?_⟩
  · simpa [htable] using h.owned.moments hone
  · simpa [htable, hids] using h.owned.stored_or_closed
  · simpa [hids] using h.owned.closed_once
  · intro c hc hpos
    rcases List.mem_cons.1 hc with rfl | hc
    · exact absurd hpos (Int.not_le.2 hn)
    · exact h.owned.close_own c hc hpos
  · simpa [htable] using h.nonneg
  · simpa [htable] using h.held
  · simpa [htable] using h.injective
  · simpa [htable, hids] using h.fresh
  · simpa [hids] using h.closed_lt

/-- `close` of a descriptor of the module. -/
theorem Tracked.close_open {w : World} (h : Tracked w) {n : Int} {kind : Kind} {i : Nat}
    (hn : w.table n = some (.handler kind i)) : Tracked (close n w) := by
  have hids : closedIds (close n w) = i :: closedIds w := by simp [closedIds, hn]
  -- what is open afterwards was open before, and is another descriptor
  have hopen : ∀ m other j, (close n w).table m = some (.handler other j) →
      w.table m = some (.handler other j) ∧ j ≠ i := by
    intro m other j hm
    by_cases hmn : m = n
    · simp [hmn] at hm
    · have hold : w.table m = some (.handler other j) := by simpa [hmn] using hm
      refine ⟨hold, ?_⟩
      rintro rfl
      exact hmn (h.injective m n other kind j hold hn)
  refine ⟨⟨?_, ?_, ?_, ?_⟩, ?_, ?_, ?_, ?_, ?_⟩
  · have hone : OneOpen (Function.update w.table n none) := by
      apply (h.owned.one_open _ List.mem_cons_self).update
      intro other j hother
      cases hother
    exact h.owned.moments hone
  · intro j hj
    rcases h.owned.stored_or_closed j hj with ⟨other, hold⟩ | hclosed
    · by_cases hat : w.stored other = n
      · have hij : i = j := by
          rw [hat, hn] at hold
          cases hold
          rfl
        exact Or.inr (by simp [hids, hij])
      · exact Or.inl ⟨other, by simpa [hat] using hold⟩
    · exact Or.inr (by simp [hids, hclosed])
  · rw [hids]
    exact List.nodup_cons.2 ⟨(h.fresh n kind i hn).2, h.owned.closed_once⟩
  · intro c hc hpos
    rcases List.mem_cons.1 hc with rfl | hc
    · exact ⟨kind, i, hn⟩
    · exact h.owned.close_own c hc hpos
  · intro m o hm
    by_cases hmn : m = n
    · simp [hmn] at hm
    · exact h.nonneg m o (by simpa [hmn] using hm)
  · intro m other j hm
    simpa using h.held m other j (hopen m other j hm).1
  · intro m k other other' j hm hk
    exact h.injective m k other other' j (hopen m other j hm).1 (hopen k other' j hk).1
  · intro m other j hm
    rcases hopen m other j hm with ⟨hold, hne⟩
    rcases h.fresh m other j hold with ⟨hlt, hnot⟩
    exact ⟨hlt, by simp [hids, hne, hnot]⟩
  · intro j hj
    rw [hids] at hj
    rcases List.mem_cons.1 hj with rfl | hj
    · exact (h.fresh n kind j hn).1
    · exact h.closed_lt j hj

/-- A call of `close` on a stored number that is open, or is no descriptor's number. -/
theorem Tracked.close (kind : Kind) {w : World} (h : Tracked w)
    (hopen : 0 ≤ w.stored kind → ∃ i, w.table (w.stored kind) = some (.handler kind i)) :
    Tracked (close (w.stored kind) w) ∧ NoneOpen kind (close (w.stored kind) w).table := by
  have hnone : NoneOpen kind (Descriptors.close (w.stored kind) w).table := by
    intro n i hn
    by_cases heq : n = w.stored kind
    · simp [heq] at hn
    · have hold : w.table n = some (.handler kind i) := by simpa [heq] using hn
      exact heq (h.held n kind i hold)
  refine ⟨?_, hnone⟩
  by_cases hpos : 0 ≤ w.stored kind
  · rcases hopen hpos with ⟨i, hi⟩
    exact h.close_open hi
  · exact h.close_negative (Int.not_le.1 hpos)

/-- Other code opening or closing what is not the module's. -/
theorem Consistent.other {w : World} (h : Consistent w) {n : Int} {owner : Option Owner}
    (hold : ∀ kind i, w.table n ≠ some (.handler kind i)) (hpos : owner ≠ none → 0 ≤ n)
    (hnew : ∀ kind i, owner ≠ some (.handler kind i)) : Consistent (w.setTable n owner) := by
  -- Neither before nor after is the descriptor one of the module's, so that the module sees no change.
  have hsame : ∀ m kind i, Function.update w.table n owner m = some (.handler kind i) ↔
      w.table m = some (.handler kind i) := by
    intro m kind i
    by_cases hmn : m = n
    · subst hmn
      simp [hold, hnew]
    · simp [hmn]
  have hstored : ∀ kind, (w.setTable n owner).stored kind = w.stored kind := stored_congr rfl rfl
  refine ⟨⟨⟨?_, ?_, h.owned.closed_once, h.owned.close_own⟩, ?_, ?_, ?_, ?_, h.closed_lt⟩, ?_⟩
  · have hone : OneOpen (Function.update w.table n owner) := by
      apply (h.owned.one_open _ List.mem_cons_self).update
      intro kind i howner
      exact absurd howner (hnew kind i)
    exact h.owned.moments hone
  · intro i hi
    rcases h.owned.stored_or_closed i hi with ⟨kind, hkind⟩ | hclosed
    · refine Or.inl ⟨kind, ?_⟩
      rw [hstored]
      exact (hsame _ kind i).2 hkind
    · exact Or.inr hclosed
  · intro m o hm
    by_cases hmn : m = n
    · subst hmn
      have howner : owner = some o := by simpa [World.setTable] using hm
      exact hpos (by simp [howner])
    · exact h.nonneg m o (by simpa [World.setTable, hmn] using hm)
  · intro m kind i hm
    rw [hstored]
    exact h.held m kind i ((hsame m kind i).1 hm)
  · intro m k kind kind' i hm hk
    exact h.injective m k kind kind' i ((hsame m kind i).1 hm) ((hsame k kind' i).1 hk)
  · intro m kind i hm
    exact h.fresh m kind i ((hsame m kind i).1 hm)
  · rcases h.ep_open with hep | ⟨i, hi⟩
    · exact Or.inl hep
    · exact Or.inr ⟨i, (hsame _ _ _).2 hi⟩

theorem Tracked.noneOpen {w : World} {kind : Kind} (h : Tracked w)
    (hstored : ∀ i, w.table (w.stored kind) ≠ some (.handler kind i)) : NoneOpen kind w.table := by
  intro n i hn
  apply hstored i
  rw [← h.held n kind i hn]
  exact hn

theorem consistent_start (others : Int → Bool) : Consistent (World.start others) := by
  have hnone : ∀ n kind i, (World.start others).table n ≠ some (.handler kind i) := by
    intro n kind i
    simp [World.start]
  refine ⟨⟨⟨?_, ?_, List.nodup_nil, ?_⟩, ?_, ?_, ?_, ?_, ?_⟩, Or.inl rfl⟩
  · intro t ht kind m n i j hm
    rcases List.mem_singleton.1 ht with rfl
    exact absurd hm (hnone m kind i)
  · intro i hi
    exact absurd hi (Nat.not_lt_zero i)
  · intro c hc
    cases hc
  · intro n o hn
    by_contra hneg
    simp [World.start, hneg] at hn
  · intro n kind i hn
    exact absurd hn (hnone n kind i)
  · intro m n kind kind' i hm
    exact absurd hm (hnone m kind i)
  · intro n kind i hn
    exact absurd hn (hnone n kind i)
  · intro i hi
    cases hi

/-! ## The calls of the module -/

/-- Who owns what is a matter of what is stored, of the tables and of what has been closed. -/
theorem OwnedOnce.congr {w w' : World} (h : OwnedOnce w)
    (hstored : ∀ kind, w'.stored kind = w.stored kind) (htable : w'.table = w.table)
    (hpast : w'.past = w.past) (hobtained : w'.obtained = w.obtained)
    (hcloses : w'.closes = w.closes) : OwnedOnce w' := by
  have hids : closedIds w' = closedIds w := by rw [closedIds, closedIds, hcloses]
  refine ⟨?_, ?_, ?_, ?_⟩
  · rw [htable, hpast]
    exact h.one_open
  · intro i hi
    rw [hids, htable]
    rcases h.stored_or_closed i (hobtained ▸ hi) with ⟨kind, hkind⟩ | hclosed
    · exact Or.inl ⟨kind, (hstored kind).symm ▸ hkind⟩
    · exact Or.inr hclosed
  · rw [hids]
    exact h.closed_once
  · rw [hcloses]
    exact h.close_own

/-- The event list and the `notify` action say nothing about descriptors. -/
theorem Consistent.untouched {w : World} (h : Consistent w) (events : Nat) (notify : Bool) :
    Consistent { w with eventList := events, notify := notify } := by
  have hstored : ∀ kind,
      World.stored { w with eventList := events, notify := notify } kind = w.stored kind :=
    stored_congr rfl rfl
  refine ⟨⟨h.owned.congr hstored rfl rfl rfl rfl, h.nonneg, ?_, h.injective, h.fresh, h.closed_lt⟩,
    h.ep_open⟩
  intro n kind i hn
  rw [hstored]
  exact h.held n kind i hn

theorem resize_spec (events : Nat) (w : World) :
    ∃ size, CppEpollHandler.resize events w = { w with eventList := size } ∧ events ≤ size := by
  unfold CppEpollHandler.resize
  by_cases hlt : w.eventList < events
  · exact ⟨events, if_pos hlt, Nat.le_refl _⟩
  · exact ⟨w.eventList, if_neg hlt, Nat.not_lt.1 hlt⟩

/-- `init_epoll_data` fails where `epoll_create` does, and otherwise leaves an open `ep`, an event list
of the configured size, and the eventfd as it was. -/
theorem initEpollData_spec {w : World} (h : Consistent w) (events : Nat) (answer : Int) :
    ((CppEpollHandler.initEpollData events answer w).1 = .ngxError ∧
      Consistent (CppEpollHandler.initEpollData events answer w).2 ∧
      w.ep = -1 ∧ ¬Free w.table answer) ∨
    ((CppEpollHandler.initEpollData events answer w).1 = .ngxOk ∧
      Consistent (CppEpollHandler.initEpollData events answer w).2 ∧
      events ≤ (CppEpollHandler.initEpollData events answer w).2.eventList ∧
      (EventfdOpen (CppEpollHandler.initEpollData events answer w).2 ↔ EventfdOpen w) ∧
      ¬(w.ep = -1 ∧ ¬Free w.table answer)) := by
  unfold CppEpollHandler.initEpollData
  by_cases hep : w.ep = -1
  -- There is no `ep` yet, and so no open epoll descriptor: `epoll_create` is called.
  · have hnone : NoneOpen .epoll w.table := by
      apply h.noneOpen
      intro i hi
      have hneg : (0 : Int) ≤ -1 := hep ▸ h.nonneg _ _ hi
      exact absurd hneg (by decide)
    have hacquired := h.toTracked.acquire hnone answer
    simp only [hep, if_true]
    by_cases hfree : Free w.table answer
    · have hne : answer ≠ -1 := hfree.ne_neg
      rcases resize_spec events ((obtain .epoll answer w).2.store .epoll answer) with
        ⟨size, hsize, hle⟩
      simp only [obtain, hfree, if_true] at hacquired hsize ⊢
      simp only [World.store, hne, if_false] at hacquired hsize ⊢
      refine Or.inr ⟨trivial, ?_, ?_, ?_, by simp⟩
      · rw [hsize]
        refine Consistent.untouched ⟨hacquired, Or.inr ⟨w.obtained, ?_⟩⟩ size w.notify
        simp [World.setTable]
      · rw [hsize]
        exact hle
      · rw [hsize]
        -- The new descriptor is not the eventfd, also where it has the number that `fd` still holds.
        have hfd : ∀ i, Function.update w.table answer (some (.handler .epoll w.obtained)) w.fd =
            some (.handler .eventfd i) ↔ w.table w.fd = some (.handler .eventfd i) := by
          intro i
          by_cases hfd : w.fd = answer
          · simp [hfd, hfree.2]
          · simp [hfd]
        exact exists_congr hfd
    · simp only [obtain, hfree, if_false] at hacquired ⊢
      simp only [World.store, if_true] at hacquired ⊢
      exact Or.inl ⟨trivial, ⟨hacquired, Or.inl rfl⟩, trivial, not_false⟩
  -- `ep` is kept, and only the event list may grow.
  · rcases resize_spec events w with ⟨size, hsize, hle⟩
    simp only [hep, if_false, hsize, false_and, not_false_iff, and_true]
    exact Or.inr ⟨trivial, h.untouched size w.notify, hle, Iff.rfl⟩

theorem initNotifyData_eventList (answer : Int) (ctl : Bool) (w : World) :
    (CppEpollHandler.initNotifyData answer ctl w).2.eventList = w.eventList := by
  unfold CppEpollHandler.initNotifyData obtain
  by_cases hfree : Free w.table answer
  · cases ctl <;> simp [hfree, hfree.ne_neg, World.store, World.setTable, close]
  · simp [hfree, World.store]

/-- Where no open eventfd is stored, `init_notify_data` keeps the books, whatever the kernel answers. -/
theorem initNotifyData_consistent {w : World} (h : Consistent w) (hnot : ¬EventfdOpen w)
    (answer : Int) (ctl : Bool) : Consistent (CppEpollHandler.initNotifyData answer ctl w).2 := by
  have hnone : NoneOpen .eventfd w.table := by
    apply h.noneOpen
    intro i hi
    exact hnot ⟨i, hi⟩
  have hacquired := h.toTracked.acquire hnone answer
  unfold CppEpollHandler.initNotifyData
  by_cases hfree : Free w.table answer
  · have hep : w.ep = -1 ∨ ∃ i, Function.update w.table answer
        (some (.handler .eventfd w.obtained)) w.ep = some (.handler .epoll i) := by
      rcases h.ep_open with hep | ⟨i, hi⟩
      · exact Or.inl hep
      · have hne : w.ep ≠ answer := by
          intro heq
          simp [heq, hfree.2] at hi
        exact Or.inr ⟨i, by simpa [hne] using hi⟩
    have hneg : answer ≠ -1 := hfree.ne_neg
    simp only [obtain, hfree, if_true] at hacquired ⊢
    simp only [World.store, hneg, if_false] at hacquired ⊢
    cases ctl with
    | true => exact ⟨hacquired, hep⟩
    | false =>
        -- the eventfd just obtained is closed; `ep` is another descriptor
        refine ⟨(hacquired.close .eventfd fun _ => ⟨w.obtained, ?_⟩).1, ?_⟩
        · simp [World.stored, World.setTable]
        · rcases hep with hep | ⟨i, hi⟩
          · exact Or.inl hep
          · have hne : w.ep ≠ answer := by
              intro heq
              simp [heq] at hi
            refine Or.inr ⟨i, ?_⟩
            simpa [close, World.setTable, hne] using hi
  · simp only [obtain, hfree, if_false] at hacquired ⊢
    simp only [World.store, if_true] at hacquired ⊢
    exact ⟨hacquired, h.ep_open⟩

/-- Where one is stored, it is lost from sight: every outcome leaves it open and not stored, or two open
at once. -/
theorem initNotifyData_leaks {w : World} (h : Consistent w) (hopen : EventfdOpen w) (answer : Int)
    (ctl : Bool) : ¬OwnedOnce (CppEpollHandler.initNotifyData answer ctl w).2 := by
  rcases hopen with ⟨i, hi⟩
  unfold CppEpollHandler.initNotifyData
  by_cases hfree : Free w.table answer
  · have hneg : answer ≠ -1 := by
      rintro rfl
      exact absurd hfree.1 (by decide)
    have hne : w.fd ≠ answer := by
      intro heq
      simp [heq, hfree.2] at hi
    have htwo : ¬OneOpen (Function.update w.table answer (some (.handler .eventfd w.obtained))) := by
      intro hone
      exact hne (hone .eventfd w.fd answer i w.obtained (by simpa [hne] using hi) (by simp))
    simp only [obtain, hfree, if_true]
    simp only [World.store, hneg, if_false]
    cases ctl with
    | true =>
        intro howned
        exact htwo (howned.one_open _ List.mem_cons_self)
    | false =>
        -- the table before the last `close`
        intro howned
        exact htwo (howned.one_open _ (List.mem_cons_of_mem _ List.mem_cons_self))
  · simp only [obtain, hfree, if_false]
    simp only [World.store, if_true]
    intro howned
    rcases h.fresh _ _ _ hi with ⟨hlt, hnotclosed⟩
    rcases howned.stored_or_closed i hlt with ⟨kind, hkind⟩ | hclosed
    · cases kind with
      | epoll =>
          have hsame : w.fd = w.ep := h.injective w.fd w.ep _ _ i hi hkind
          have hboth : w.table w.fd = some (.handler .epoll i) := hsame ▸ hkind
          simp [hi] at hboth
      | eventfd =>
          have hpos : (0 : Int) ≤ -1 := h.nonneg _ _ hkind
          exact absurd hpos (by decide)
    · exact hnotclosed hclosed

/-- `init` is one of its two parts, or both. -/
theorem init_cases {w : World} (h : Consistent w) (events : Nat) (epollCreate eventfd : Int)
    (ctl : Bool) :
    ((CppEpollHandler.init events epollCreate eventfd ctl w).1 = .ngxError ∧
      Consistent (step w (.init events epollCreate eventfd ctl)) ∧
      Safe w (.init events epollCreate eventfd ctl)) ∨
    ∃ u notify, Consistent u ∧ events ≤ u.eventList ∧
      (¬EventfdOpen u ↔ Safe w (.init events epollCreate eventfd ctl)) ∧
      step w (.init events epollCreate eventfd ctl) =
        { (CppEpollHandler.initNotifyData eventfd ctl u).2 with notify := notify } := by
  have hspec := initEpollData_spec h events epollCreate
  cases hepoll : CppEpollHandler.initEpollData events epollCreate w with
  | mk r u =>
      rw [hepoll] at hspec
      rcases hspec with ⟨hr, hu, hep, hfree⟩ | ⟨hr, hu, hsize, hsame, hok⟩
      · have hr' : r = .ngxError := hr
        subst hr'
        refine Or.inl ⟨?_, ?_, fun _ => ⟨hep, hfree⟩⟩
        · simp [CppEpollHandler.init, hepoll]
        · simpa [step, CppEpollHandler.init, hepoll] using hu
      · have hr' : r = .ngxOk := hr
        subst hr'
        have hsafe : ¬EventfdOpen u ↔ Safe w (.init events epollCreate eventfd ctl) := by
          calc
            ¬EventfdOpen u ↔ ¬EventfdOpen w := not_congr hsame
            _ ↔ Safe w (.init events epollCreate eventfd ctl) :=
              ⟨fun hnot hopen => absurd hopen hnot, fun hs hopen => hok (hs hopen)⟩
        cases hnotify : CppEpollHandler.initNotifyData eventfd ctl u with
        | mk r v =>
            cases r with
            | ngxOk =>
                refine Or.inr ⟨u, v.notify, hu, hsize, hsafe, ?_⟩
                simp [step, CppEpollHandler.init, hepoll, hnotify]
            | ngxError =>
                refine Or.inr ⟨u, false, hu, hsize, hsafe, ?_⟩
                simp [step, CppEpollHandler.init, hepoll, hnotify]

/-- What `notify` is does not matter to who owns what. -/
theorem ownedOnce_notify {w : World} {notify : Bool} :
    OwnedOnce { w with notify := notify } ↔ OwnedOnce w := by
  have hstored : ∀ kind, World.stored { w with notify := notify } kind = w.stored kind :=
    stored_congr rfl rfl
  constructor
  · exact fun h => h.congr (fun kind => (hstored kind).symm) rfl rfl rfl rfl
  · exact fun h => h.congr hstored rfl rfl rfl rfl

theorem init_sound_iff {w : World} (h : Consistent w) (events : Nat) (epollCreate eventfd : Int)
    (ctl : Bool) :
    Sound w (.init events epollCreate eventfd ctl) ↔ Safe w (.init events epollCreate eventfd ctl) := by
  rcases init_cases h events epollCreate eventfd ctl with
    ⟨herror, hkept, hsafe⟩ | ⟨u, notify, hu, hsize, hsafe, hstep⟩
  · refine iff_of_true ⟨hkept.owned, ?_⟩ hsafe
    intro hok
    rw [herror] at hok
    cases hok
  · rw [← hsafe]
    unfold Sound
    rw [hstep, ownedOnce_notify]
    constructor
    · intro hsound hopen
      exact initNotifyData_leaks hu hopen eventfd ctl hsound.1
    · intro hnot
      refine ⟨(initNotifyData_consistent hu hnot eventfd ctl).owned, fun _ => ?_⟩
      simpa [initNotifyData_eventList] using hsize

theorem init_consistent {w : World} (h : Consistent w) {events : Nat} {epollCreate eventfd : Int}
    {ctl : Bool} (hsafe : Safe w (.init events epollCreate eventfd ctl)) :
    Consistent (step w (.init events epollCreate eventfd ctl)) := by
  rcases init_cases h events epollCreate eventfd ctl with
    ⟨-, hkept, -⟩ | ⟨u, notify, hu, -, hiff, hstep⟩
  · exact hkept
  · rw [hstep]
    exact (initNotifyData_consistent hu (hiff.2 hsafe) eventfd ctl).untouched _ notify

/-- `done` keeps the books where the stored eventfd is open, or none is stored. -/
theorem done_consistent {w : World} (h : Consistent w) (hsafe : Safe w .done) :
    Consistent (step w .done) := by
  have hep : 0 ≤ w.stored .epoll → ∃ i, w.table (w.stored .epoll) = some (.handler .epoll i) := by
    intro hpos
    rcases h.ep_open with hneg | hopen
    · have hpos' : (0 : Int) ≤ -1 := hneg ▸ (show 0 ≤ w.ep from hpos)
      exact absurd hpos' (by decide)
    · exact hopen
  rcases h.toTracked.close .epoll hep with ⟨hclosed, hnone⟩
  have hepoll : Consistent (CppEpollHandler.doneEpollData w) :=
    Consistent.untouched ⟨hclosed.store hnone (-1), Or.inl rfl⟩ 0 w.notify
  have hfd : 0 ≤ w.fd → ∃ i, (CppEpollHandler.doneEpollData w).table w.fd =
      some (.handler .eventfd i) := by
    intro hpos
    rcases hsafe hpos with ⟨i, hi⟩
    have hne : w.fd ≠ w.ep := by
      intro heq
      rcases h.ep_open with hneg | ⟨j, hj⟩
      · rw [heq, hneg] at hpos
        exact absurd hpos (by decide)
      · simp [← heq, hi] at hj
    exact ⟨i, by simpa [CppEpollHandler.doneEpollData, hne] using hi⟩
  rcases hepoll.toTracked.close .eventfd hfd with ⟨hclosed', hnone'⟩
  exact ⟨hclosed'.store hnone' (-1), Or.inl rfl⟩

theorem done_sound_iff {w : World} (h : Consistent w) : Sound w .done ↔ Safe w .done := by
  constructor
  · rintro ⟨howned, -⟩ hpos
    rcases howned.close_own _ List.mem_cons_self hpos with ⟨kind, i, hi⟩
    have hat : Function.update w.table w.ep none w.fd = some (.handler kind i) := hi
    by_cases heq : w.fd = w.ep
    · simp [heq] at hat
    · have hold : w.table w.fd = some (.handler kind i) := by simpa [heq] using hat
      cases kind with
      | epoll => exact absurd (h.held _ _ _ hold) heq
      | eventfd => exact ⟨i, hold⟩
  · intro hsafe
    exact ⟨(done_consistent h hsafe).owned, trivial⟩

/-! ## Whole runs -/

theorem otherStep_consistent {w : World} (h : Consistent w) (n : Int) :
    Consistent (step w (.otherOpen n)) ∧ Consistent (step w (.otherClose n)) := by
  constructor
  · by_cases hfree : Free w.table n
    · simp only [step, hfree, if_true]
      exact h.other (by simp [hfree.2]) (fun _ => hfree.1) (by simp)
    · simpa [step, hfree] using h
  · by_cases hother : w.table n = some .other
    · simp only [step, hother, if_true]
      exact h.other (by simp [hother]) (by simp) (by simp)
    · simpa [step, hother] using h

theorem step_consistent (w : World) (call : Call) (h : Consistent w) (hsafe : Safe w call) :
    Consistent (step w call) := by
  cases call with
  | init => exact init_consistent h hsafe
  | done => exact done_consistent h hsafe
  | otherOpen n => exact (otherStep_consistent h n).1
  | otherClose n => exact (otherStep_consistent h n).2

theorem step_sound_iff (w : World) (call : Call) (h : Consistent w) : Sound w call ↔ Safe w call := by
  cases call with
  | init events epollCreate eventfd ctl => exact init_sound_iff h events epollCreate eventfd ctl
  | done => exact done_sound_iff h
  | otherOpen n =>
      exact iff_of_true ⟨(otherStep_consistent h n).1.owned, trivial⟩ trivial
  | otherClose n =>
      exact iff_of_true ⟨(otherStep_consistent h n).2.owned, trivial⟩ trivial

/-- From the start of the process each descriptor is owned once, after every call of a run, if and only
if every call of it is safe. -/
theorem descriptors_owned_iff (others : Int → Bool) (calls : List Call) :
    Trace.Along step Sound (World.start others) calls ↔
      Trace.Along step Safe (World.start others) calls :=
  Trace.along_iff_along (J := Consistent) (fun w call h hsafe => step_consistent w call h hsafe)
    (fun w call h => step_sound_iff w call h) (consistent_start others)

/-- A second `init` without a `done` leaves the first eventfd open and stored nowhere. -/
theorem descriptors_not_owned_once :
    ¬Trace.Along step Sound (World.start fun _ => false)
      [.init 512 3 4 true, .init 512 0 5 true] := by
  intro h
  have hsecond := h [.init 512 3 4 true] (.init 512 0 5 true) [] rfl
  have htwo := hsecond.1.one_open _ List.mem_cons_self .eventfd 4 5 1 2 (by decide) (by decide)
  exact absurd htwo (by decide)

end Descriptors
end Epoll
end CppPractice
