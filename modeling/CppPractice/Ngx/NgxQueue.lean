import CppPractice.Lib.Ring
import CppPractice.Lib.Trace

/-!
# NgxQueue — queues of nodes that are members of their elements

`ngx_queue_t` is a node of a circular doubly linked list, with the queue itself as the sentinel.  An
element has its node at a fixed offset.  `NgxQueue`, `NgxQueueNode` and `NgxQueueIterator` are what the
macros do.

Any number of queues live in one heap, so that merging two of them is an operation like the others.  The
queues that there are, with their elements, are kept beside the heap, and every run keeps the two in step.

`operator*` of an iterator hands out a reference to a member of the iterator, so that it matters which
iterators are alive.  `boost::reverse_iterator` is a parameter; what is relied on of it is `Documented`.
-/

namespace CppPractice
namespace Ngx

open Segment CppPractice.Ring

/-! ## The macros -/

/-- The two links of every node. -/
structure QueueHeap where
  next : Nat → Nat
  prev : Nat → Nat

namespace QueueHeap

/-- `p->next = q` -/
def setNext (p q : Nat) (s : QueueHeap) : QueueHeap := { s with next := Function.update s.next p q }

/-- `p->prev = q` -/
def setPrev (p q : Nat) (s : QueueHeap) : QueueHeap := { s with prev := Function.update s.prev p q }

end QueueHeap

def ngxQueueInit (q : Nat) (s : QueueHeap) : QueueHeap := (s.setPrev q q).setNext q q

def ngxQueueInsertHead (h x : Nat) (s : QueueHeap) : QueueHeap :=
  let s := s.setNext x (s.next h)
  let s := s.setPrev (s.next x) x
  let s := s.setPrev x h
  s.setNext h x

def ngxQueueInsertAfter : Nat → Nat → QueueHeap → QueueHeap := ngxQueueInsertHead

def ngxQueueInsertTail (h x : Nat) (s : QueueHeap) : QueueHeap :=
  let s := s.setPrev x (s.prev h)
  let s := s.setNext (s.prev x) x
  let s := s.setNext x h
  s.setPrev h x

/-- `debug` is `NGX_DEBUG`. -/
def ngxQueueRemove (debug : Bool) (x : Nat) (s : QueueHeap) : QueueHeap :=
  let s := s.setPrev (s.next x) (s.prev x)
  let s := s.setNext (s.prev x) (s.next x)
  if debug then (s.setPrev x 0).setNext x 0 else s

def ngxQueueAdd (h n : Nat) (s : QueueHeap) : QueueHeap :=
  let s := s.setNext (s.prev h) (s.next n)
  let s := s.setPrev (s.next n) (s.prev h)
  let s := s.setPrev h (s.prev n)
  s.setNext (s.prev h) h

/-! ## The wrappers -/

namespace NgxQueueNode

variable (offset : Nat)

/-- `&(v.*q)` -/
def ofData (v : Nat) : Nat := v + offset

def data (p : Nat) : Nat := p - offset

@[simp] theorem data_ofData (v : Nat) : data offset (ofData offset v) = v := Nat.add_sub_cancel v offset

def append (p v : Nat) : QueueHeap → QueueHeap := ngxQueueInsertAfter p (ofData offset v)

end NgxQueueNode

namespace NgxQueue

variable (offset : Nat)

def insert (h v : Nat) : QueueHeap → QueueHeap := ngxQueueInsertHead h (NgxQueueNode.ofData offset v)

def append (h v : Nat) : QueueHeap → QueueHeap := ngxQueueInsertTail h (NgxQueueNode.ofData offset v)

/-- `insert(iter, v)`, which is `iter->append(v)` -/
def insertAt (iter v : Nat) : QueueHeap → QueueHeap := NgxQueueNode.append offset iter v

end NgxQueue

/-! ## Iterators -/

/-- The node that the iterator is at, and `m_proxy`, which `operator*` returns by reference. -/
structure NgxQueueIterator where
  cur : Nat
  proxy : Nat
  deriving DecidableEq, Repr

/-- The iterators that are alive, the oldest first; a reference to the `m_proxy` of one is its place. -/
abbrev Iterators := List NgxQueueIterator

namespace Iterators

/-- The node that a reference refers to; one to the member of a destroyed iterator has no meaning. -/
def read (its : Iterators) (ref : Nat) : Option Nat := its[ref]?.map NgxQueueIterator.proxy

/-- A function that returns a reference and has the local variable `it`. -/
def withLocal (its : Iterators) (it : NgxQueueIterator)
    (body : Nat → Iterators → Option (Nat × Iterators)) : Option (Nat × Iterators) :=
  (body its.length (its ++ [it])).map fun r => (r.1, r.2.take its.length)

theorem read_take (its : Iterators) (n : Nat) : read (its.take n) n = none := by
  rw [read, List.getElem?_eq_none (List.length_take_le n its)]
  rfl

end Iterators

namespace NgxQueueIterator

def ofNode (p : Nat) : NgxQueueIterator := ⟨p, p⟩

def increment (s : QueueHeap) (it : NgxQueueIterator) : NgxQueueIterator := { it with cur := s.next it.cur }

def decrement (s : QueueHeap) (it : NgxQueueIterator) : NgxQueueIterator := { it with cur := s.prev it.cur }

def equal (it o : NgxQueueIterator) : Bool := it.cur = o.cur

/-- `m_proxy = m_cur; return m_proxy;` in the iterator at `i` -/
def dereference (i : Nat) (its : Iterators) : Option (Nat × Iterators) :=
  its[i]?.map fun it => (i, its.set i { it with proxy := it.cur })

end NgxQueueIterator

/-- `boost::reverse_iterator<iterator>` -/
structure ReverseIterator (R : Type) where
  make : NgxQueueIterator → R
  base : R → NgxQueueIterator
  increment : QueueHeap → R → R
  equal : R → R → Bool
  dereference : QueueHeap → R → Iterators → Option (Nat × Iterators)

/-- It goes the other way with its base iterator, and `operator*` is
`Iterator tmp = m_iterator; return *--tmp;`. -/
structure ReverseIterator.Documented {R : Type} (rev : ReverseIterator R) : Prop where
  base_make : ∀ it, rev.base (rev.make it) = it
  base_increment : ∀ s r, rev.base (rev.increment s r) = (rev.base r).decrement s
  equal : ∀ r o, rev.equal r o = (rev.base r).equal (rev.base o)
  dereference : ∀ s r its, rev.dereference s r its = its.withLocal (rev.base r) fun i its =>
    NgxQueueIterator.dereference i (its.modify i (NgxQueueIterator.decrement s))

namespace NgxQueue

variable (offset : Nat) {R : Type} (rev : ReverseIterator R)

/-- `for(auto it = ..; it != last; ++it)`, reading `(*it).data()` in each of at most `fuel` rounds -/
def forwardLoop (s : QueueHeap) (last : NgxQueueIterator) : Nat → NgxQueueIterator → Option (List Nat)
  | 0, it => if it.equal last then some [] else none
  | fuel + 1, it =>
      if it.equal last then some []
      else do
        let (ref, its) ← NgxQueueIterator.dereference 0 [it]
        let p ← its.read ref
        let it ← its[0]?
        let vs ← forwardLoop s last fuel (it.increment s)
        return NgxQueueNode.data offset p :: vs

/-- The same loop with reverse iterators. -/
def backwardLoop (s : QueueHeap) (last : R) : Nat → R → Option (List Nat)
  | 0, r => if rev.equal r last then some [] else none
  | fuel + 1, r =>
      if rev.equal r last then some []
      else do
        let (ref, its) ← rev.dereference s r []
        let p ← its.read ref
        let vs ← backwardLoop s last fuel (rev.increment s r)
        return NgxQueueNode.data offset p :: vs

/-- The elements from `begin()` to `end()`, if there are at most `fuel`. -/
def forward (fuel h : Nat) (s : QueueHeap) : Option (List Nat) :=
  forwardLoop offset s (.ofNode h) fuel (.ofNode (s.next h))

/-- The elements from the last one back along the `prev` links, if there are at most `fuel`. -/
def alongPrev (fuel h : Nat) (s : QueueHeap) : Option (List Nat) :=
  (nodes s.prev h fuel (s.prev h)).map fun ps => ps.map (NgxQueueNode.data offset)

/-- The elements from `rbegin()` to `rend()`, if there are at most `fuel`. -/
def backward (fuel h : Nat) (s : QueueHeap) : Option (List Nat) :=
  backwardLoop offset rev s (rev.make (.ofNode (s.next h))) fuel (rev.make (.ofNode h))

end NgxQueue

/-! ## Runs -/

/-- The queues that there are, by their sentinels, and the elements of each. -/
abbrev Queues := Nat → Option (List Nat)

inductive QueueOp
  | init (h : Nat)
  | insert (h v : Nat)
  | append (h v : Nat)
  | insertAt (iter v : Nat)
  | nodeAppend (p v : Nat)
  | remove (p : Nat)
  | merge (h other : Nat)
  deriving DecidableEq, Repr

namespace QueueOp

variable (debug : Bool) (offset : Nat)

def apply : QueueOp → QueueHeap → QueueHeap
  | init h => ngxQueueInit h
  | insert h v => NgxQueue.insert offset h v
  | append h v => NgxQueue.append offset h v
  | insertAt iter v => NgxQueue.insertAt offset iter v
  | nodeAppend p v => NgxQueueNode.append offset p v
  | remove p => ngxQueueRemove debug p
  | merge h other => ngxQueueAdd h other

/-- The elements of a queue with `v` right after the position `p`, which is its sentinel `h`, the node of
one of its elements or no node of it. -/
def insertBehind (p v h : Nat) (l : List Nat) : List Nat :=
  (if p = h then [v] else []) ++
    l.flatMap fun e => if NgxQueueNode.ofData offset e = p then [e, v] else [e]

/-- What the operation means for the elements. -/
def model : QueueOp → Queues → Queues
  | init h, qs => Function.update qs h (some [])
  | insert h v, qs => Function.update qs h ((qs h).map fun l => v :: l)
  | append h v, qs => Function.update qs h ((qs h).map fun l => l ++ [v])
  | insertAt p v, qs | nodeAppend p v, qs => fun h => (qs h).map (insertBehind offset p v h)
  | remove p, qs => fun h => (qs h).map fun l => l.filter fun e => NgxQueueNode.ofData offset e ≠ p
  | merge h other, qs =>
      Function.update (Function.update qs other none) h
        ((qs h).bind fun l => (qs other).map fun m => l ++ m)

/-- The node `p` is in one of the queues, as its sentinel or as the node of an element. -/
def Linked (qs : Queues) (p : Nat) : Prop :=
  ∃ h l, qs h = some l ∧ p ∈ h :: l.map (NgxQueueNode.ofData offset)

/-- New nodes are in no queue, and everything else is: removed nodes are those of elements, and the two
queues of a merger are different. -/
def Legal (qs : Queues) : QueueOp → Prop
  | init h => ¬Linked offset qs h
  | insert h v | append h v => (∃ l, qs h = some l) ∧ ¬Linked offset qs (NgxQueueNode.ofData offset v)
  | insertAt p v | nodeAppend p v =>
      Linked offset qs p ∧ ¬Linked offset qs (NgxQueueNode.ofData offset v)
  | remove p => ∃ h l, qs h = some l ∧ p ∈ l.map (NgxQueueNode.ofData offset)
  | merge h other => h ≠ other ∧ (∃ l, qs h = some l) ∧ ∃ m, qs other = some m

/-- One operation, on the heap and on the elements. -/
def step (s : QueueHeap × Queues) (op : QueueOp) : QueueHeap × Queues :=
  (op.apply debug offset s.1, op.model offset s.2)

end QueueOp

/-! ## The macros on a ring -/

namespace QueueHeap

/-- The links of `s'` are those of `s` with `x` between `p` and `q`. -/
structure Inserted (s s' : QueueHeap) (p x q : Nat) : Prop where
  left : Step s'.next s'.prev p x
  right : Step s'.next s'.prev x q
  next : ∀ r, r ≠ p → r ≠ x → s'.next r = s.next r
  prev : ∀ r, r ≠ q → r ≠ x → s'.prev r = s.prev r

variable {s : QueueHeap} {p x q : Nat}

theorem inserted_after (hpq : s.next p = q) (hxp : x ≠ p) (hxq : x ≠ q) :
    s.Inserted (ngxQueueInsertHead p x s) p x q := by
  refine ⟨⟨?_, ?_⟩, ⟨?_, ?_⟩, ?_, ?_⟩
  · simp [ngxQueueInsertHead, setNext, setPrev]
  · simp [ngxQueueInsertHead, setNext, setPrev]
  · simp [ngxQueueInsertHead, setNext, setPrev, hxp, hpq]
  · simp [ngxQueueInsertHead, setNext, setPrev, hxq.symm, hpq]
  · intro r hrp hrx
    simp [ngxQueueInsertHead, setNext, setPrev, hrp, hrx]
  · intro r hrq hrx
    simp [ngxQueueInsertHead, setNext, setPrev, hrq, hrx, hpq]

theorem inserted_before (hpq : s.prev q = p) (hxp : x ≠ p) (hxq : x ≠ q) :
    s.Inserted (ngxQueueInsertTail q x s) p x q := by
  refine ⟨⟨?_, ?_⟩, ⟨?_, ?_⟩, ?_, ?_⟩
  · simp [ngxQueueInsertTail, setNext, setPrev, hxp.symm, hpq]
  · simp [ngxQueueInsertTail, setNext, setPrev, hxq, hpq]
  · simp [ngxQueueInsertTail, setNext, setPrev]
  · simp [ngxQueueInsertTail, setNext, setPrev]
  · intro r hrp hrx
    simp [ngxQueueInsertTail, setNext, setPrev, hrp, hrx, hpq]
  · intro r hrq hrx
    simp [ngxQueueInsertTail, setNext, setPrev, hrq, hrx]

/-- The links of `s'` are those of `s` with nothing between `p` and `q`, apart from those of `x`. -/
structure Removed (s s' : QueueHeap) (p x q : Nat) : Prop where
  step : Step s'.next s'.prev p q
  next : ∀ r, r ≠ p → r ≠ x → s'.next r = s.next r
  prev : ∀ r, r ≠ q → r ≠ x → s'.prev r = s.prev r

theorem removed (debug : Bool) (hpx : s.prev x = p) (hxq : s.next x = q) (hxp : x ≠ p) (hxq' : x ≠ q) :
    s.Removed (ngxQueueRemove debug x s) p x q := by
  cases debug with
  | true =>
      refine ⟨⟨?_, ?_⟩, ?_, ?_⟩
      · simp [ngxQueueRemove, setNext, setPrev, hxp.symm, hxq', hpx, hxq]
      · simp [ngxQueueRemove, setNext, setPrev, hxq'.symm, hpx, hxq]
      · intro r hrp hrx
        simp [ngxQueueRemove, setNext, setPrev, hrp, hrx, hpx, hxq, hxq']
      · intro r hrq hrx
        simp [ngxQueueRemove, setNext, setPrev, hrq, hrx, hxq]
  | false =>
      refine ⟨⟨?_, ?_⟩, ?_, ?_⟩
      · simp [ngxQueueRemove, setNext, setPrev, hxq', hpx, hxq]
      · simp [ngxQueueRemove, setNext, setPrev, hpx, hxq]
      · intro r hrp hrx
        simp [ngxQueueRemove, setNext, setPrev, hrp, hpx, hxq, hxq']
      · intro r hrq hrx
        simp [ngxQueueRemove, setNext, setPrev, hrq, hxq]

/-- Adding an empty queue changes nothing but its own links. -/
theorem add_empty {h n : Nat} (hnext : s.next n = n) (hp : s.prev h = p) (hph : s.next p = h)
    (hnp : n ≠ p) :
    (ngxQueueAdd h n s).next = s.next ∧ ∀ r, r ≠ n → (ngxQueueAdd h n s).prev r = s.prev r := by
  constructor
  · funext r
    by_cases hrp : r = p
    · simp [ngxQueueAdd, setNext, setPrev, hnext, hp, hnp, hrp, hph]
    · simp [ngxQueueAdd, setNext, setPrev, hnext, hp, hnp, hrp]
  · intro r hrn
    by_cases hrh : r = h
    · simp [ngxQueueAdd, setNext, setPrev, hnext, hp, hnp, hrh]
    · simp [ngxQueueAdd, setNext, setPrev, hnext, hp, hnp, hrn, hrh]

/-- Adding a queue from `x` to `z` links `p` to `x` and `z` to `h`. -/
theorem add_linked {h n z : Nat} (hx : s.next n = x) (hz : s.prev n = z) (hp : s.prev h = p)
    (hnp : n ≠ p) (hnx : n ≠ x) (hxh : x ≠ h) (hpz : p ≠ z) :
    Step (ngxQueueAdd h n s).next (ngxQueueAdd h n s).prev p x ∧
      Step (ngxQueueAdd h n s).next (ngxQueueAdd h n s).prev z h ∧
      (∀ r, r ≠ p → r ≠ z → (ngxQueueAdd h n s).next r = s.next r) ∧
      ∀ r, r ≠ x → r ≠ h → (ngxQueueAdd h n s).prev r = s.prev r := by
  have hnext : (ngxQueueAdd h n s).next = Function.update (Function.update s.next p x) z h := by
    simp [ngxQueueAdd, setNext, setPrev, hx, hz, hp, hnp, hnx]
  have hprev : (ngxQueueAdd h n s).prev = Function.update (Function.update s.prev x p) h z := by
    simp [ngxQueueAdd, setNext, setPrev, hx, hz, hp, hnp, hnx]
  rw [hnext, hprev]
  refine ⟨⟨?_, ?_⟩, ⟨?_, ?_⟩, ?_, ?_⟩
  · simp [hpz]
  · simp [hxh]
  · simp
  · simp
  · intro r hrp hrz
    simp [hrp, hrz]
  · intro r hrx hrh
    simp [hrx, hrh]

end QueueHeap

/-! ## The queues in the heap -/

/-- Every queue is a ring of the nodes of its elements, and no node is in two of them. -/
structure Rings (offset : Nat) (s : QueueHeap) (qs : Queues) : Prop where
  ring : ∀ h l, qs h = some l → IsRing s.next s.prev h (l.map (NgxQueueNode.ofData offset))
  apart : ∀ h h' l l', qs h = some l → qs h' = some l' → h ≠ h' →
    ∀ p ∈ h :: l.map (NgxQueueNode.ofData offset), p ∉ h' :: l'.map (NgxQueueNode.ofData offset)

namespace Rings

open NgxQueueNode QueueOp

variable {offset : Nat} {s s' : QueueHeap} {qs : Queues} {h p v : Nat} {l l' : List Nat}

/-- The queue `h` gets the elements `l'`, whose nodes are in no other queue, while the other queues keep
their links. -/
theorem set (hr : Rings offset s qs) (hring : IsRing s'.next s'.prev h (l'.map (ofData offset)))
    (hfree : ∀ h' m, qs h' = some m → h' ≠ h →
      ∀ p ∈ h :: l'.map (ofData offset), p ∉ h' :: m.map (ofData offset))
    (hsame : ∀ h' m, qs h' = some m → h' ≠ h → ∀ p ∈ h' :: m.map (ofData offset),
      s'.next p = s.next p ∧ s'.prev p = s.prev p) :
    Rings offset s' (Function.update qs h (some l')) := by
  refine ⟨?_, ?_⟩
  · intro h' m hm
    by_cases heq : h' = h
    · subst heq
      rw [Function.update_self] at hm
      cases hm
      exact hring
    · rw [Function.update_of_ne heq] at hm
      have hkept := hsame h' m hm heq
      exact (hr.ring h' m hm).congr (fun r hr' => (hkept r hr').1) fun r hr' => (hkept r hr').2
  · intro h₁ h₂ m₁ m₂ hm₁ hm₂ hne q hq
    by_cases heq₁ : h₁ = h
    · subst heq₁
      rw [Function.update_self] at hm₁
      rw [Function.update_of_ne hne.symm] at hm₂
      cases hm₁
      exact hfree h₂ m₂ hm₂ hne.symm q hq
    · rw [Function.update_of_ne heq₁] at hm₁
      by_cases heq₂ : h₂ = h
      · subst heq₂
        rw [Function.update_self] at hm₂
        cases hm₂
        exact fun hq' => hfree h₁ m₁ hm₁ heq₁ q hq' hq
      · rw [Function.update_of_ne heq₂] at hm₂
        exact hr.apart h₁ h₂ m₁ m₂ hm₁ hm₂ hne q hq

/-- A new element at some place of a queue. -/
theorem inserted (hr : Rings offset s qs) {u t : List Nat} (hq : qs h = some (u ++ t))
    {a b : List Nat} {q : Nat} (hu : h :: u.map (ofData offset) = a ++ [p])
    (ht : t.map (ofData offset) ++ [h] = q :: b) (hv : ¬QueueOp.Linked offset qs (ofData offset v))
    (hs : s.Inserted s' p (ofData offset v) q) :
    Rings offset s' (Function.update qs h (some (u ++ v :: t))) := by
  have hring := hr.ring h _ hq
  have hold : (u ++ t).map (ofData offset) = u.map (ofData offset) ++ t.map (ofData offset) :=
    List.map_append
  have hnew : (u ++ v :: t).map (ofData offset) =
      u.map (ofData offset) ++ ofData offset v :: t.map (ofData offset) := by simp
  have hvfree : ofData offset v ∉ h :: (u ++ t).map (ofData offset) := fun hin => hv ⟨h, _, hq, hin⟩
  have hpin : p ∈ h :: (u ++ t).map (ofData offset) := hold ▸ (IsRing.sides_mem hu ht).1
  have hqin : q ∈ h :: (u ++ t).map (ofData offset) := hold ▸ (IsRing.sides_mem hu ht).2
  apply hr.set
  · rw [hnew]
    rw [hold] at hring hvfree
    exact hring.insert hu ht hvfree hs.left hs.right hs.next hs.prev
  · intro h' m hm hne r hrin
    have hcases : r = ofData offset v ∨ r ∈ h :: (u ++ t).map (ofData offset) := by
      rw [hnew] at hrin
      rw [hold]
      simp only [List.mem_cons, List.mem_append] at hrin ⊢
      tauto
    rcases hcases with rfl | hrin
    · exact fun hin => hv ⟨h', m, hm, hin⟩
    · exact hr.apart h h' _ m hq hm hne.symm r hrin
  · intro h' m hm hne r hrin
    have hout : ∀ x ∈ h :: (u ++ t).map (ofData offset), r ≠ x := by
      rintro x hx rfl
      exact hr.apart h h' _ m hq hm hne.symm r hx hrin
    have hrv : r ≠ ofData offset v := by
      rintro rfl
      exact hv ⟨h', m, hm, hrin⟩
    exact ⟨hs.next r (hout p hpin) hrv, hs.prev r (hout q hqin) hrv⟩

/-- An element less. -/
theorem removed (hr : Rings offset s qs) {u t : List Nat} {e : Nat} (hq : qs h = some (u ++ e :: t))
    {a b : List Nat} {q : Nat} (hu : h :: u.map (ofData offset) = a ++ [p])
    (ht : t.map (ofData offset) ++ [h] = q :: b) (hs : s.Removed s' p (ofData offset e) q) :
    Rings offset s' (Function.update qs h (some (u ++ t))) := by
  have hring := hr.ring h _ hq
  have hold : (u ++ e :: t).map (ofData offset) =
      u.map (ofData offset) ++ ofData offset e :: t.map (ofData offset) := by simp
  have hnew : (u ++ t).map (ofData offset) = u.map (ofData offset) ++ t.map (ofData offset) :=
    List.map_append
  have hsub : h :: (u.map (ofData offset) ++ t.map (ofData offset)) ⊆
      h :: (u ++ e :: t).map (ofData offset) := by
    intro r hrin
    rw [hold]
    simp only [List.mem_cons, List.mem_append] at hrin ⊢
    tauto
  have hpin := hsub (IsRing.sides_mem hu ht).1
  have hqin := hsub (IsRing.sides_mem hu ht).2
  have hein : ofData offset e ∈ h :: (u ++ e :: t).map (ofData offset) := by simp
  apply hr.set
  · rw [hnew]
    rw [hold] at hring
    exact hring.erase hu ht hs.step hs.next hs.prev
  · intro h' m hm hne r hrin
    rw [hnew] at hrin
    exact hr.apart h h' _ m hq hm hne.symm r (hsub hrin)
  · intro h' m hm hne r hrin
    have hout : ∀ x ∈ h :: (u ++ e :: t).map (ofData offset), r ≠ x := by
      rintro x hx rfl
      exact hr.apart h h' _ m hq hm hne.symm r hx hrin
    exact ⟨hs.next r (hout p hpin) (hout _ hein), hs.prev r (hout q hqin) (hout _ hein)⟩

end Rings

/-! ## What the operations mean for the elements -/

namespace QueueOp

open NgxQueueNode

variable {offset : Nat} {p v h : Nat} {l : List Nat}

theorem flatMap_absent (hp : p ∉ l.map (ofData offset)) :
    (l.flatMap fun e => if ofData offset e = p then [e, v] else [e]) = l := by
  induction l with
  | nil => rfl
  | cons e l ih =>
      have hparts : ¬p = ofData offset e ∧ p ∉ l.map (ofData offset) := by simpa using hp
      have he : ¬ofData offset e = p := fun heq => hparts.1 heq.symm
      simp [he, ih hparts.2]

/-- Queues without the position stay as they are. -/
theorem insertBehind_absent (hp : p ∉ h :: l.map (ofData offset)) :
    insertBehind offset p v h l = l := by
  have hph : ¬p = h := fun heq => hp (heq ▸ List.mem_cons_self)
  have hpl : p ∉ l.map (ofData offset) := fun hin => hp (List.mem_cons_of_mem h hin)
  simp [insertBehind, hph, flatMap_absent hpl]

/-- In the queue with the position the new element is right after it. -/
theorem insertBehind_split (hnodup : (h :: l.map (ofData offset)).Nodup)
    (hp : p ∈ h :: l.map (ofData offset)) :
    ∃ u t a, l = u ++ t ∧ insertBehind offset p v h l = u ++ v :: t ∧
      h :: u.map (ofData offset) = a ++ [p] := by
  rcases List.nodup_cons.1 hnodup with ⟨hh, hl⟩
  rcases List.mem_cons.1 hp with rfl | hp
  · refine ⟨[], l, [], rfl, ?_, rfl⟩
    simp [insertBehind, flatMap_absent hh]
  · have hph : ¬p = h := fun heq => hh (heq ▸ hp)
    rcases List.mem_map.1 hp with ⟨e, he, rfl⟩
    rcases List.append_of_mem he with ⟨u, t, rfl⟩
    rw [List.map_append, List.map_cons] at hl
    have hsplit := List.nodup_append.1 hl
    have hu : ofData offset e ∉ u.map (ofData offset) := by
      intro hin
      exact hsplit.2.2 _ hin _ List.mem_cons_self rfl
    have ht : ofData offset e ∉ t.map (ofData offset) := (List.nodup_cons.1 hsplit.2.1).1
    refine ⟨u ++ [e], t, h :: u.map (ofData offset), by simp, ?_, by simp⟩
    simp [insertBehind, hph, flatMap_absent hu, flatMap_absent ht]

/-- Taking an element out of the queue that has it. -/
theorem filter_split {u t : List Nat} {e : Nat} (hnodup : ((u ++ e :: t).map (ofData offset)).Nodup) :
    ((u ++ e :: t).filter fun d => ofData offset d ≠ ofData offset e) = u ++ t := by
  rw [List.map_append, List.map_cons] at hnodup
  have hsplit := List.nodup_append.1 hnodup
  have hu : ∀ d ∈ u, ofData offset d ≠ ofData offset e := by
    intro d hd
    exact hsplit.2.2 _ (List.mem_map_of_mem hd) _ List.mem_cons_self
  have ht : ∀ d ∈ t, ofData offset d ≠ ofData offset e := by
    intro d hd heq
    exact (List.nodup_cons.1 hsplit.2.1).1 (heq ▸ List.mem_map_of_mem hd)
  have hfu : (u.filter fun d => ofData offset d ≠ ofData offset e) = u :=
    List.filter_eq_self.2 fun d hd => by simpa using hu d hd
  have hft : (t.filter fun d => ofData offset d ≠ ofData offset e) = t :=
    List.filter_eq_self.2 fun d hd => by simpa using ht d hd
  rw [List.filter_append, List.filter_cons_of_neg (by simp), hfu, hft]

/-- A change of one queue and of none of the others. -/
theorem map_eq_update {qs : Queues} {f : Nat → List Nat → List Nat} {l' : List Nat}
    (hq : qs h = some l) (hself : f h l = l')
    (hother : ∀ h' m, qs h' = some m → h' ≠ h → f h' m = m) :
    (fun h' => (qs h').map (f h')) = Function.update qs h (some l') := by
  funext h'
  by_cases heq : h' = h
  · subst heq
    simp [hq, hself]
  · rw [Function.update_of_ne heq]
    cases hm : qs h' with
    | none => rfl
    | some m => simp [hother h' m hm heq]

end QueueOp

/-! ## One operation -/

namespace Rings

open NgxQueueNode QueueOp

variable {offset : Nat} {s : QueueHeap} {qs : Queues} {h p v : Nat} {l : List Nat}

theorem init (hr : Rings offset s qs) (hh : ¬QueueOp.Linked offset qs h) :
    Rings offset (ngxQueueInit h s) (Function.update qs h (some [])) := by
  apply hr.set
  · exact IsRing.empty (by simp [ngxQueueInit, QueueHeap.setNext, QueueHeap.setPrev])
      (by simp [ngxQueueInit, QueueHeap.setNext, QueueHeap.setPrev])
  · intro h' m hm _ q hq hin
    have hqh : q = h := by simpa using hq
    exact hh ⟨h', m, hm, hqh ▸ hin⟩
  · intro h' m hm _ q hq
    have hqh : q ≠ h := by
      rintro rfl
      exact hh ⟨h', m, hm, hq⟩
    simp [ngxQueueInit, QueueHeap.setNext, QueueHeap.setPrev, hqh]

/-- An element right after the node `p`. -/
theorem insertAfter (hr : Rings offset s qs) {u t : List Nat} {a : List Nat}
    (hq : qs h = some (u ++ t)) (hu : h :: u.map (ofData offset) = a ++ [p])
    (hv : ¬QueueOp.Linked offset qs (ofData offset v)) :
    Rings offset (ngxQueueInsertHead p (ofData offset v) s)
      (Function.update qs h (some (u ++ v :: t))) := by
  obtain ⟨q, b, ht⟩ : ∃ q b, t.map (ofData offset) ++ [h] = q :: b := by
    rcases IsRing.exists_sides h [] (t.map (ofData offset)) with ⟨-, -, q, b, -, ht⟩
    exact ⟨q, b, ht⟩
  have hring := hr.ring h _ hq
  rw [List.map_append] at hring
  have hpq := hring.step hu ht
  have hin : ∀ x ∈ h :: (u.map (ofData offset) ++ t.map (ofData offset)), ofData offset v ≠ x := by
    rintro x hx rfl
    exact hv ⟨h, _, hq, by rwa [List.map_append]⟩
  have hvp : ofData offset v ≠ p := hin p (IsRing.sides_mem hu ht).1
  have hvq : ofData offset v ≠ q := hin q (IsRing.sides_mem hu ht).2
  exact hr.inserted hq hu ht hv (QueueHeap.inserted_after hpq.1 hvp hvq)

/-- An element at the tail. -/
theorem insertTail (hr : Rings offset s qs) (hq : qs h = some l)
    (hv : ¬QueueOp.Linked offset qs (ofData offset v)) :
    Rings offset (ngxQueueInsertTail h (ofData offset v) s)
      (Function.update qs h (some (l ++ [v]))) := by
  rcases (hr.ring h _ hq).last_step with ⟨a, p, hl, hpq⟩
  have hin : ∀ x ∈ h :: l.map (ofData offset), ofData offset v ≠ x := by
    rintro x hx rfl
    exact hv ⟨h, _, hq, hx⟩
  have hvp : ofData offset v ≠ p := hin p (by simp [hl])
  have hvh : ofData offset v ≠ h := hin h List.mem_cons_self
  have hq' : qs h = some (l ++ []) := by simpa using hq
  exact hr.inserted hq' hl rfl hv (QueueHeap.inserted_before hpq.2 hvp hvh)

theorem remove (debug : Bool) (hr : Rings offset s qs) {u t : List Nat} {e : Nat}
    (hq : qs h = some (u ++ e :: t)) :
    Rings offset (ngxQueueRemove debug (ofData offset e) s)
      (Function.update qs h (some (u ++ t))) := by
  rcases IsRing.exists_sides h (u.map (ofData offset)) (t.map (ofData offset)) with
    ⟨a, p, q, b, hu, ht⟩
  have hring : IsRing s.next s.prev h
      (u.map (ofData offset) ++ ofData offset e :: t.map (ofData offset)) := by
    simpa using hr.ring h _ hq
  have hpe : Step s.next s.prev p (ofData offset e) := hring.step hu rfl
  have heq : Step s.next s.prev (ofData offset e) q := by
    have hring' : IsRing s.next s.prev h
        ((u.map (ofData offset) ++ [ofData offset e]) ++ t.map (ofData offset)) := by
      simpa using hring
    exact hring'.step (a := h :: u.map (ofData offset)) rfl ht
  have hnodup : (ofData offset e :: ((h :: u.map (ofData offset)) ++ t.map (ofData offset))).Nodup :=
    List.perm_middle.nodup_iff.1 hring.nodup
  have hout := (List.nodup_cons.1 hnodup).1
  have hep : ofData offset e ≠ p := fun heq => hout (heq ▸ (IsRing.sides_mem hu ht).1)
  have heq' : ofData offset e ≠ q := fun heq => hout (heq ▸ (IsRing.sides_mem hu ht).2)
  exact hr.removed hq hu ht (QueueHeap.removed debug hpe.2 heq.1 hep heq')

/-- Without one of the queues. -/
theorem drop (hr : Rings offset s qs) (n : Nat) : Rings offset s (Function.update qs n none) := by
  have hsub : ∀ h' m, Function.update qs n none h' = some m → h' ≠ n ∧ qs h' = some m := by
    intro h' m hm
    by_cases heq : h' = n
    · subst heq
      simp at hm
    · rw [Function.update_of_ne heq] at hm
      exact ⟨heq, hm⟩
  refine ⟨?_, ?_⟩
  · exact fun h' m hm => hr.ring h' m (hsub h' m hm).2
  · exact fun h₁ h₂ m₁ m₂ hm₁ hm₂ => hr.apart h₁ h₂ m₁ m₂ (hsub h₁ m₁ hm₁).2 (hsub h₂ m₂ hm₂).2

section merge

variable {n : Nat} {m : List Nat} (hr : Rings offset s qs) (hhn : h ≠ n) (hq : qs h = some l)
  (hn : qs n = some m)

include hr hq hn

/-- A node of a third queue is in neither of the two. -/
theorem third {h' : Nat} {k : List Nat} (hk : Function.update qs n none h' = some k) (hne : h' ≠ h)
    {r : Nat} (hrin : r ∈ h' :: k.map (ofData offset)) :
    r ∉ h :: l.map (ofData offset) ∧ r ∉ n :: m.map (ofData offset) := by
  have hneq : h' ≠ n := by
    rintro rfl
    simp at hk
  rw [Function.update_of_ne hneq] at hk
  exact ⟨hr.apart h' h k l hk hq hne r hrin, hr.apart h' n k m hk hn hneq r hrin⟩

theorem merged_apart : ∀ h' k, Function.update qs n none h' = some k → h' ≠ h →
    ∀ r ∈ h :: (l ++ m).map (ofData offset), r ∉ h' :: k.map (ofData offset) := by
  intro h' k hk hne r hrin hrin'
  rcases hr.third hq hn hk hne hrin' with ⟨hrl, hrm⟩
  rw [List.map_append, ← List.cons_append] at hrin
  rcases List.mem_append.1 hrin with hrin | hrin
  · exact hrl hrin
  · exact hrm (List.mem_cons_of_mem n hrin)

include hhn

/-- An empty queue added to this one. -/
theorem merge_nil (hm : m = []) : Rings offset (ngxQueueAdd h n s)
    (Function.update (Function.update qs n none) h (some (l ++ m))) := by
  have hring := hr.ring h l hq
  have hother := hr.ring n m hn
  have happart := hr.apart h n l m hq hn hhn
  subst hm
  rcases hring.last_step with ⟨a, p, hl, hph⟩
  have hpin : p ∈ h :: l.map (ofData offset) := by simp [hl]
  have hnp : n ≠ p := fun heq => happart p hpin (heq ▸ List.mem_cons_self)
  have hself : Step s.next s.prev n n := (List.isChain_cons_cons.1 hother.linked).1
  rcases QueueHeap.add_empty hself.1 hph.2 hph.1 hnp with ⟨hnext, hprev⟩
  apply (hr.drop n).set
  · rw [List.append_nil]
    apply hring.congr
    · exact fun r _ => congrFun hnext r
    · exact fun r hrin => hprev r fun heq => happart r hrin (heq ▸ List.mem_cons_self)
  · exact hr.merged_apart hq hn
  · intro h' k hk hne r hrin
    have hrn : r ≠ n := fun heq => (hr.third hq hn hk hne hrin).2 (heq ▸ List.mem_cons_self)
    exact ⟨congrFun hnext r, hprev r hrn⟩

/-- A queue from `x` to `z` added to this one. -/
theorem merge_linked {x z : Nat} {c d : List Nat} (hx : m.map (ofData offset) = x :: c)
    (hz : m.map (ofData offset) = d ++ [z]) : Rings offset (ngxQueueAdd h n s)
      (Function.update (Function.update qs n none) h (some (l ++ m))) := by
  have hring := hr.ring h l hq
  have hother := hr.ring n m hn
  have happart := hr.apart h n l m hq hn hhn
  rcases hring.last_step with ⟨a, p, hl, hph⟩
  have hpin : p ∈ h :: l.map (ofData offset) := by simp [hl]
  have hnp : n ≠ p := fun heq => happart p hpin (heq ▸ List.mem_cons_self)
  have hnx : Step s.next s.prev n x := by
    have hlinked := hother.linked
    rw [hx] at hlinked
    exact (List.isChain_cons_cons.1 hlinked).1
  have hzn : Step s.next s.prev z n := by
    have hring' : IsRing s.next s.prev n (m.map (ofData offset) ++ []) := by simpa using hother
    have hlast : n :: m.map (ofData offset) = (n :: d) ++ [z] := by rw [hz]; rfl
    exact hring'.step hlast rfl
  have hxm : x ∈ m.map (ofData offset) := by simp [hx]
  have hzm : z ∈ m.map (ofData offset) := by simp [hz]
  have hout : ∀ r ∈ h :: l.map (ofData offset), r ∉ m.map (ofData offset) :=
    fun r hrin hin => happart r hrin (List.mem_cons_of_mem n hin)
  have hnx' : n ≠ x := fun heq => (List.nodup_cons.1 hother.nodup).1 (heq ▸ hxm)
  have hxh : x ≠ h := fun heq => hout h List.mem_cons_self (heq ▸ hxm)
  have hpz : p ≠ z := fun heq => hout p hpin (heq ▸ hzm)
  -- The macro reads the ends of the other queue from its head, which is in neither list then.
  rcases QueueHeap.add_linked hnx.1 hzn.2 hph.2 hnp hnx' hxh hpz with ⟨hpx, hzh, hnext, hprev⟩
  apply (hr.drop n).set
  · rw [List.map_append]
    exact hring.append hother hout hl hx hz hpx hzh hnext hprev
  · exact hr.merged_apart hq hn
  · intro h' k hk hne r hrin
    rcases hr.third hq hn hk hne hrin with ⟨hrl, hrm⟩
    constructor
    · apply hnext
      · exact fun heq => hrl (heq ▸ hpin)
      · exact fun heq => hrm (heq ▸ List.mem_cons_of_mem n hzm)
    · apply hprev
      · exact fun heq => hrm (heq ▸ List.mem_cons_of_mem n hxm)
      · exact fun heq => hrl (heq ▸ List.mem_cons_self)

/-- The elements of another queue behind those of this one. -/
theorem merge : Rings offset (ngxQueueAdd h n s)
    (Function.update (Function.update qs n none) h (some (l ++ m))) := by
  rcases List.eq_nil_or_concat (m.map (ofData offset)) with hnil | ⟨d, z, hz⟩
  · exact hr.merge_nil hhn hq hn (List.map_eq_nil_iff.1 hnil)
  · rw [List.concat_eq_append] at hz
    cases m with
    | nil => exact hr.merge_nil hhn hq hn rfl
    | cons e m => exact hr.merge_linked hhn hq hn rfl hz

end merge

/-- A legal operation keeps the heap and the elements in step. -/
theorem step (debug : Bool) (hr : Rings offset s qs) {op : QueueOp} (hop : op.Legal offset qs) :
    Rings offset (op.apply debug offset s) (op.model offset qs) := by
  -- A node behind another, which may be the head: the same macro, for two of the operations.
  have hat : ∀ p v, QueueOp.Linked offset qs p → ¬QueueOp.Linked offset qs (ofData offset v) →
      Rings offset (ngxQueueInsertHead p (ofData offset v) s)
        (fun h => (qs h).map (insertBehind offset p v h)) := by
    rintro p v ⟨h, l, hq, hp⟩ hv
    rcases insertBehind_split (v := v) (hr.ring h l hq).nodup hp with ⟨u, t, a, rfl, hbehind, hu⟩
    rw [map_eq_update hq hbehind fun h' m hm hne =>
      insertBehind_absent (hr.apart h h' _ m hq hm hne.symm p hp)]
    exact hr.insertAfter hq hu hv
  cases op with
  | init h => exact hr.init hop
  | insert h v =>
      rcases hop with ⟨⟨l, hq⟩, hv⟩
      have hnew : (QueueOp.insert h v).model offset qs = Function.update qs h (some (v :: l)) := by
        simp [model, hq]
      rw [hnew]
      exact hr.insertAfter (u := []) (a := []) hq rfl hv
  | append h v =>
      rcases hop with ⟨⟨l, hq⟩, hv⟩
      have hnew : (QueueOp.append h v).model offset qs = Function.update qs h (some (l ++ [v])) := by
        simp [model, hq]
      rw [hnew]
      exact hr.insertTail hq hv
  | insertAt p v => exact hat p v hop.1 hop.2
  | nodeAppend p v => exact hat p v hop.1 hop.2
  | remove p =>
      rcases hop with ⟨h, l, hq, hp⟩
      rcases List.mem_map.1 hp with ⟨e, he, rfl⟩
      rcases List.append_of_mem he with ⟨u, t, rfl⟩
      have hnodup := (List.nodup_cons.1 (hr.ring h _ hq).nodup).2
      have hnew : (QueueOp.remove (ofData offset e)).model offset qs =
          Function.update qs h (some (u ++ t)) := by
        -- The other queues do not have the node, so that the filter leaves them alone.
        apply map_eq_update (f := fun _ l => l.filter fun d => ofData offset d ≠ ofData offset e) hq
        · exact filter_split hnodup
        · intro h' m hm hne
          apply List.filter_eq_self.2
          intro d hd
          have hout := hr.apart h h' _ m hq hm hne.symm (ofData offset e) (List.mem_cons_of_mem h hp)
          have hne' : ofData offset d ≠ ofData offset e := by
            intro heq
            exact hout (List.mem_cons_of_mem h' (heq ▸ List.mem_map_of_mem hd))
          simpa using hne'
      rw [hnew]
      exact hr.remove debug hq
  | merge h n =>
      rcases hop with ⟨hhn, ⟨l, hq⟩, ⟨m, hn⟩⟩
      have hnew : (QueueOp.merge h n).model offset qs =
          Function.update (Function.update qs n none) h (some (l ++ m)) := by
        simp [model, hq, hn]
      rw [hnew]
      exact hr.merge hhn hq hn

end Rings

/-! ## Any number of operations -/

namespace NgxQueue

open NgxQueueNode QueueOp

variable {offset : Nat} {R : Type} {rev : ReverseIterator R} {s : QueueHeap} {h : Nat} {l : List Nat}

theorem map_data_ofData (l : List Nat) : (l.map (ofData offset)).map (data offset) = l := by
  simp [Function.comp_def]

theorem equal_ofNode (it : NgxQueueIterator) (p : Nat) :
    it.equal (.ofNode p) = true ↔ it.cur = p :=
  decide_eq_true_iff

/-- A loop over iterators reads the nodes on its way: the iterator it reads from is its own variable. -/
theorem forwardLoop_eq (s : QueueHeap) (h : Nat) : ∀ (fuel : Nat) (it : NgxQueueIterator),
    forwardLoop offset s (.ofNode h) fuel it =
      (nodes s.next h fuel it.cur).map fun ps => ps.map (data offset) := by
  intro fuel
  induction fuel with
  | zero =>
      intro it
      by_cases hend : it.cur = h <;> simp [forwardLoop, nodes, equal_ofNode, hend]
  | succ fuel ih =>
      intro it
      by_cases hend : it.cur = h
      · simp [forwardLoop, nodes, equal_ofNode, hend]
      · have hrest := ih (NgxQueueIterator.increment s { it with proxy := it.cur })
        have hnext : (NgxQueueIterator.increment s { it with proxy := it.cur }).cur = s.next it.cur := rfl
        have hread : forwardLoop offset s (.ofNode h) (fuel + 1) it =
            (forwardLoop offset s (.ofNode h) fuel
              (NgxQueueIterator.increment s { it with proxy := it.cur })).map (data offset it.cur :: ·) := by
          have hstar : NgxQueueIterator.dereference 0 [it] = some (0, [{ it with proxy := it.cur }]) := rfl
          rw [forwardLoop, if_neg (mt (equal_ofNode it h).1 hend), hstar]
          change (forwardLoop offset s (.ofNode h) fuel
            (NgxQueueIterator.increment s { it with proxy := it.cur }) >>= fun vs =>
              some (data offset it.cur :: vs)) = _
          cases forwardLoop offset s (.ofNode h) fuel
            (NgxQueueIterator.increment s { it with proxy := it.cur }) with
          | none => rfl
          | some vs => rfl
        rw [hread, hrest, hnext, nodes, if_neg hend, Option.map_map, Option.map_map]
        rfl

/-- Going forward from the head gives the elements. -/
theorem forward_eq (hr : IsRing s.next s.prev h (l.map (ofData offset))) {fuel : Nat}
    (hfuel : l.length ≤ fuel) : forward offset fuel h s = some l := by
  have hnodes : nodes s.next h fuel (s.next h) = some (l.map (ofData offset)) :=
    nodes_chain hr.forward (by simpa using hfuel)
  have hcur : (NgxQueueIterator.ofNode (s.next h)).cur = s.next h := rfl
  rw [forward, forwardLoop_eq, hcur, hnodes, Option.map_some, map_data_ofData]

/-- What a reverse iterator returns refers to its local variable, and cannot be read. -/
theorem read_dereference (hrev : rev.Documented) (r : R) {ref : Nat} {its its' : Iterators}
    (h : rev.dereference s r its = some (ref, its')) : its'.read ref = none := by
  rw [hrev.dereference, Iterators.withLocal, Option.map_eq_some_iff] at h
  rcases h with ⟨⟨ref', its''⟩, hbody, heq⟩
  cases heq
  rcases Option.map_eq_some_iff.1 hbody with ⟨it, -, heq⟩
  cases heq
  exact Iterators.read_take _ _

/-- Going backward reads nothing but where there is nothing to read. -/
theorem backward_iff (hrev : rev.Documented) (hr : IsRing s.next s.prev h (l.map (ofData offset)))
    (fuel : Nat) : backward offset rev fuel h s = some l.reverse ↔ l = [] := by
  have hend : rev.equal (rev.make (.ofNode h)) (rev.make (.ofNode (s.next h))) = true ↔ h = s.next h := by
    rw [hrev.equal, hrev.base_make, hrev.base_make, equal_ofNode]
    rfl
  cases l with
  | nil =>
      have hlinked : Linked s.next s.prev [h, h] := hr.linked
      have hself : s.next h = h := (List.isChain_cons_cons.1 hlinked).1.1
      refine iff_of_true ?_ rfl
      rw [backward]
      cases fuel <;> exact if_pos (hend.2 hself.symm)
  | cons v l =>
      -- the first node is not the sentinel, so that there is a first round
      have hlinked : Linked s.next s.prev (h :: ofData offset v :: (l.map (ofData offset) ++ [h])) := hr.linked
      have hfirst : s.next h = ofData offset v := (List.isChain_cons_cons.1 hlinked).1.1
      have hne : ¬h = s.next h := by
        intro heq
        exact (List.nodup_cons.1 hr.nodup).1 (heq.trans hfirst ▸ List.mem_cons_self)
      have hnone : backward offset rev fuel h s = none := by
        rw [backward]
        cases fuel with
        | zero => exact if_neg (mt hend.1 hne)
        | succ fuel =>
            rw [backwardLoop, if_neg (mt hend.1 hne)]
            cases hstar : rev.dereference s (rev.make (.ofNode h)) [] with
            | none => rfl
            | some r =>
                have hread := read_dereference hrev _ hstar
                simp [hread]
      refine iff_of_false ?_ (List.cons_ne_nil v l)
      rw [hnone]
      simp

/-- Going back along the links from the last node gives the elements in reverse. -/
theorem alongPrev_eq (hr : IsRing s.next s.prev h (l.map (ofData offset))) {fuel : Nat}
    (hfuel : l.length ≤ fuel) : alongPrev offset fuel h s = some l.reverse := by
  have hnodes : nodes s.prev h fuel (s.prev h) = some (l.map (ofData offset)).reverse :=
    nodes_chain hr.reverse.forward (by simpa using hfuel)
  rw [alongPrev, hnodes, Option.map_some, ← List.map_reverse, map_data_ofData]

/-- A run of legal operations from a heap without queues. -/
def Run (debug : Bool) (offset : Nat) (s : QueueHeap) (ops : List QueueOp) : Prop :=
  Trace.Along (QueueOp.step debug offset) (fun s op => op.Legal offset s.2) (s, fun _ => none) ops

/-- The heap and the elements of all queues after a run. -/
def after (debug : Bool) (offset : Nat) (s : QueueHeap) (ops : List QueueOp) : QueueHeap × Queues :=
  Trace.run (QueueOp.step debug offset) (s, fun _ => none) ops

theorem rings_after (debug : Bool) {ops : List QueueOp} (hops : Run debug offset s ops) :
    Rings offset (after debug offset s ops).1 (after debug offset s ops).2 := by
  apply Trace.run_of_along (J := fun s : QueueHeap × Queues => Rings offset s.1 s.2) _ _ hops
  · intro s op hs hop
    exact hs.step debug hop
  · exact ⟨fun _ _ hnone => (nomatch hnone), fun _ _ _ _ hnone => (nomatch hnone)⟩

/-- After any run the links of each queue are inverse to each other, and from `begin()` to `end()` there are
its elements; back along the links there are their reverse, but from `rbegin()` to `rend()` that can be read
only if there are none. -/
theorem queue_is_list_iff (hrev : rev.Documented) (debug : Bool) {ops : List QueueOp}
    (hops : Run debug offset s ops) (hl : (after debug offset s ops).2 h = some l) :
    (∀ p ∈ h :: l.map (ofData offset),
      (after debug offset s ops).1.prev ((after debug offset s ops).1.next p) = p ∧
        (after debug offset s ops).1.next ((after debug offset s ops).1.prev p) = p) ∧
      ∀ fuel, l.length ≤ fuel →
        forward offset fuel h (after debug offset s ops).1 = some l ∧
          alongPrev offset fuel h (after debug offset s ops).1 = some l.reverse ∧
          (backward offset rev fuel h (after debug offset s ops).1 = some l.reverse ↔ l = []) := by
  have hring := (rings_after debug hops).ring h l hl
  refine ⟨?_, ?_⟩
  · exact fun p hp => ⟨(hring.prev_next hp).1, (hring.next_prev hp).1⟩
  · exact fun fuel hfuel => ⟨forward_eq hring hfuel, alongPrev_eq hring hfuel, backward_iff hrev hring fuel⟩

/-- A reverse iterator is its base iterator, with the documented operations. -/
def baseReverse : ReverseIterator NgxQueueIterator where
  make := id
  base := id
  increment := NgxQueueIterator.decrement
  equal := NgxQueueIterator.equal
  dereference s r its := its.withLocal r fun i its =>
    NgxQueueIterator.dereference i (its.modify i (NgxQueueIterator.decrement s))

theorem baseReverse_documented : baseReverse.Documented where
  base_make _ := rfl
  base_increment _ _ := rfl
  equal _ _ := rfl
  dereference _ _ _ := rfl

/-- Two queues, an element at the head of the first, the second put behind it, and an element taken out. -/
def merging : List QueueOp :=
  [.init 1, .append 1 10, .init 2, .append 2 20, .insertAt 1 30, .merge 1 2, .remove 110]

theorem queue_is_list_iff_merging :
    forward 100 2 1 (after true 100 ⟨id, id⟩ merging).1 = some [30, 20] ∧
    alongPrev 100 2 1 (after true 100 ⟨id, id⟩ merging).1 = some [20, 30] ∧
    (backward 100 baseReverse 2 1 (after true 100 ⟨id, id⟩ merging).1 = some [20, 30] ↔ [30, 20] = []) := by
  have hops : Run true 100 ⟨id, id⟩ merging := by
    simp only [Run, merging, Trace.along_cons]
    refine ⟨?_, ?_, ?_, ?_, ?_, ⟨by decide, ⟨[30, 10], rfl⟩, [20], rfl⟩,
      ⟨1, [30, 10, 20], rfl, by decide⟩, Trace.along_nil _⟩
    all_goals
      simp [QueueOp.Legal, QueueOp.Linked, QueueOp.step, model, Function.update_apply, ofData]
    · intro q l hl
      split at hl <;> grind
    · intro q l hl
      split at hl <;> grind
  exact (queue_is_list_iff baseReverse_documented true hops (h := 1) (l := [30, 20]) (by rfl)).2 2 (by decide)

/-- A queue with one element: what `*rbegin()` refers to is gone. -/
theorem reverse_iteration_dangles :
    Run true 100 ⟨id, id⟩ [.init 1, .append 1 10] ∧
      (after true 100 ⟨id, id⟩ [.init 1, .append 1 10]).2 1 = some [10] ∧
      backward 100 baseReverse 1 1 (after true 100 ⟨id, id⟩ [.init 1, .append 1 10]).1 ≠ some [10] := by
  refine ⟨?_, rfl, by decide⟩
  simp only [Run, Trace.along_cons]
  refine ⟨?_, ?_, Trace.along_nil _⟩
  all_goals
    simp [QueueOp.Legal, QueueOp.Linked, QueueOp.step, model, Function.update_apply, ofData]

end NgxQueue

end Ngx
end CppPractice
