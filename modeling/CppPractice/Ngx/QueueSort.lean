import CppPractice.Ngx.NgxQueue
import Mathlib.Data.List.Sort

/-!
# QueueSort — sorting, halving and splitting a queue

`ngx_queue_sort` is an insertion sort in place: each node from the second on is taken out and put behind
the first node before it that does not compare greater.  `ngx_queue_middle` goes twice as fast with one
pointer as with the other, and `ngx_queue_split` gives the nodes from one on to another sentinel.

The loops take a bound on their rounds.  `NgxQueue::sort` hands its comparison on as it is; nothing is
asked of it for the queue to stay a queue of the same elements.
-/

namespace CppPractice
namespace Ngx

open Segment CppPractice.Ring NgxQueueNode

/-! ## The functions -/

section sort

variable (cmp : Nat → Nat → Int) (debug : Bool) (queue : Nat)

/-- The `do` loop: where to put `q`. -/
def sortPlace (q : Nat) (s : QueueHeap) : Nat → Nat → Option Nat
  | 0, _ => none
  | rounds + 1, prev =>
      if cmp prev q ≤ 0 then some prev
      else
        let prev := s.prev prev
        if prev ≠ queue then sortPlace q s rounds prev else some prev

/-- The `for` loop. -/
def sortFrom (rounds : Nat) : Nat → Nat → QueueHeap → Option QueueHeap
  | nodes, q, s =>
      if q ≠ queue then
        match nodes with
        | 0 => none
        | nodes + 1 =>
            let prev := s.prev q
            let next := s.next q
            let s := ngxQueueRemove debug q s
            (sortPlace cmp queue q s rounds prev).bind fun prev =>
              sortFrom rounds nodes next (ngxQueueInsertAfter prev q s)
      else some s

/-- The loop is over at the sentinel. -/
theorem sortFrom_queue (rounds nodes : Nat) (s : QueueHeap) :
    sortFrom cmp debug queue rounds nodes queue s = some s := by
  cases nodes <;> simp [sortFrom]

def ngxQueueSort (rounds : Nat) (s : QueueHeap) : Option QueueHeap :=
  let q := s.next queue
  if q = s.prev queue then some s
  else sortFrom cmp debug queue rounds rounds (s.next q) s

end sort

/-- The loop of `ngx_queue_middle`. -/
def middleFrom (queue : Nat) (s : QueueHeap) : Nat → Nat → Nat → Option Nat
  | 0, _, _ => none
  | rounds + 1, middle, next =>
      let middle := s.next middle
      let next := s.next next
      if next = s.prev queue then some middle
      else
        let next := s.next next
        if next = s.prev queue then some middle else middleFrom queue s rounds middle next

def ngxQueueMiddle (queue rounds : Nat) (s : QueueHeap) : Option Nat :=
  let middle := s.next queue
  if middle = s.prev queue then some middle
  else middleFrom queue s rounds middle (s.next queue)

def ngxQueueSplit (h q n : Nat) (s : QueueHeap) : QueueHeap :=
  let s := s.setPrev n (s.prev h)
  let s := s.setNext (s.prev n) n
  let s := s.setNext n q
  let s := s.setPrev h (s.prev q)
  let s := s.setNext (s.prev h) h
  s.setPrev q n

namespace NgxQueue

def sort (cmp : Nat → Nat → Int) (debug : Bool) (h rounds : Nat) (s : QueueHeap) : Option QueueHeap :=
  ngxQueueSort cmp debug h rounds s

end NgxQueue

/-! ## What sorting means for the elements -/

section order

variable (offset : Nat) (cmp : Nat → Nat → Int)

/-- `a` may stay before `b`. -/
abbrev Precedes (a b : Nat) : Prop := cmp (ofData offset a) (ofData offset b) ≤ 0

/-- `v` behind the last of the elements that it may stay behind. -/
def inserted (l : List Nat) (v : Nat) : List Nat :=
  (l.reverse.orderedInsert (fun a b => Precedes offset cmp b a) v).reverse

/-- The elements put in one by one, the first first. -/
def sortedElements (l : List Nat) : List Nat :=
  (l.reverse.insertionSort fun a b => Precedes offset cmp b a).reverse

theorem sortedElements_concat (l : List Nat) (v : Nat) :
    sortedElements offset cmp (l ++ [v]) = inserted offset cmp (sortedElements offset cmp l) v := by
  simp [sortedElements, inserted]

theorem sortedElements_perm (l : List Nat) : (sortedElements offset cmp l).Perm l :=
  (List.reverse_perm _).trans ((List.perm_insertionSort _ _).trans (List.reverse_perm l))

variable {offset cmp}

/-- With a comparison of all nodes that is transitive the elements are in order. -/
theorem sortedElements_ordered (htotal : ∀ a b, cmp a b ≤ 0 ∨ cmp b a ≤ 0)
    (htrans : ∀ a b c, cmp a b ≤ 0 → cmp b c ≤ 0 → cmp a c ≤ 0) (l : List Nat) :
    (sortedElements offset cmp l).Pairwise (Precedes offset cmp) := by
  have : Std.Total fun a b => Precedes offset cmp b a := ⟨fun a b => htotal _ _⟩
  have : IsTrans Nat fun a b => Precedes offset cmp b a := ⟨fun a b c hab hbc => htrans _ _ _ hbc hab⟩
  exact List.pairwise_reverse.2 (List.pairwise_insertionSort (fun a b => Precedes offset cmp b a) l.reverse)

/-- Elements that may stay in the order they are in stay in it. -/
theorem sortedElements_stable {l c : List Nat} (hordered : c.Pairwise (Precedes offset cmp))
    (hc : c.Sublist l) : c.Sublist (sortedElements offset cmp l) := by
  have hback : c.reverse.Pairwise fun a b => Precedes offset cmp b a := List.pairwise_reverse.2 hordered
  have hsublist := List.sublist_insertionSort hback hc.reverse
  simpa [sortedElements] using hsublist.reverse

end order

/-! ## Sorting on a ring -/

namespace NgxQueue

section sort

variable {offset h : Nat} {s : QueueHeap} {qs : Queues}

/-- The place that the `do` loop finds going back from the last of `l`. -/
theorem sortPlace_eq (cmp : Nat → Nat → Int) (v : Nat) {l w : List Nat} {e rounds : Nat}
    (hr : IsRing s.next s.prev h ((l ++ [e]).map (ofData offset) ++ w)) (hrounds : l.length < rounds) :
    ∃ before after a p, inserted offset cmp (l ++ [e]) v = before ++ v :: after ∧
      l ++ [e] = before ++ after ∧ h :: before.map (ofData offset) = a ++ [p] ∧
      sortPlace cmp h (ofData offset v) s rounds (ofData offset e) = some p := by
  -- back over the sorted elements, to one that precedes or to the sentinel
  induction l using List.reverseRecOn generalizing e w rounds with
  | nil =>
      rcases Nat.exists_eq_succ_of_ne_zero (Nat.ne_of_gt (Nat.lt_of_le_of_lt (Nat.zero_le _) hrounds))
        with ⟨rounds, rfl⟩
      by_cases hcmp : cmp (ofData offset e) (ofData offset v) ≤ 0
      · refine ⟨[e], [], [h], ofData offset e, ?_, rfl, rfl, ?_⟩
        · simp [inserted, hcmp]
        · rw [sortPlace, if_pos hcmp]
      · have hprev : s.prev (ofData offset e) = h :=
          (hr.step (s := []) (a := []) (t := ofData offset e :: w) rfl rfl).2
        refine ⟨[], [e], [], h, ?_, rfl, rfl, ?_⟩
        · simp [inserted, hcmp]
        · rw [sortPlace, if_neg hcmp]
          simp [hprev]
  | append_singleton l d ih =>
      rcases Nat.exists_eq_succ_of_ne_zero (Nat.ne_of_gt (Nat.lt_of_le_of_lt (Nat.zero_le _) hrounds))
        with ⟨rounds, rfl⟩
      by_cases hcmp : cmp (ofData offset e) (ofData offset v) ≤ 0
      · refine ⟨(l ++ [d]) ++ [e], [], h :: (l ++ [d]).map (ofData offset), ofData offset e, ?_, ?_, ?_, ?_⟩
        · simp [inserted, hcmp]
        · simp
        · simp
        · rw [sortPlace, if_pos hcmp]
      · have hring : IsRing s.next s.prev h ((l ++ [d]).map (ofData offset) ++ ofData offset e :: w) := by
          simpa using hr
        have hstep := hring.step (a := h :: l.map (ofData offset)) (p := ofData offset d) (by simp) rfl
        have hne : ofData offset d ≠ h := by
          rintro heq
          exact (List.nodup_cons.1 hring.nodup).1 (by simp [← heq])
        have hlength : l.length < rounds := by simpa using hrounds
        rcases ih hring hlength with ⟨before, after, a, p, hins, hsplit, hbefore, hplace⟩
        refine ⟨before, after ++ [e], a, p, ?_, ?_, hbefore, ?_⟩
        · have hone : inserted offset cmp ((l ++ [d]) ++ [e]) v =
              inserted offset cmp (l ++ [d]) v ++ [e] := by
            simp [inserted, hcmp]
          rw [hone, hins]
          simp
        · rw [hsplit, List.append_assoc]
        · rw [sortPlace, if_neg hcmp, hstep.2]
          simpa [hne] using hplace

/-- A node that has been taken out is in no queue. -/
theorem removed_free (hr : Rings offset s qs) {u t : List Nat} {v : Nat} (hq : qs h = some (u ++ v :: t)) :
    ¬QueueOp.Linked offset (Function.update qs h (some (u ++ t))) (ofData offset v) := by
  rintro ⟨h', m, hm, hin⟩
  have hring := hr.ring h _ hq
  by_cases heq : h' = h
  · subst heq
    rw [Function.update_self] at hm
    cases hm
    have hperm : (h' :: (u ++ v :: t).map (ofData offset)).Perm
        (ofData offset v :: h' :: (u ++ t).map (ofData offset)) :=
      ((List.perm_middle.map _).cons h').trans (.swap _ _ _)
    exact (List.nodup_cons.1 (hperm.nodup_iff.1 hring.nodup)).1 hin
  · rw [Function.update_of_ne heq] at hm
    exact hr.apart h' h m _ hm hq heq _ hin (by simp)

/-- The `for` loop, with the elements of `l` in their places already. -/
theorem sortFrom_eq (cmp : Nat → Nat → Int) (debug : Bool) {l t : List Nat} {q nodes rounds : Nat}
    {b : List Nat} (hr : Rings offset s qs)
    (hq : qs h = some (sortedElements offset cmp l ++ t)) (hl : l ≠ [])
    (hfirst : t.map (ofData offset) ++ [h] = q :: b) (hnodes : t.length ≤ nodes)
    (hrounds : l.length + t.length ≤ rounds) :
    ∃ s', sortFrom cmp debug h rounds nodes q s = some s' ∧
      Rings offset s' (Function.update qs h (some (sortedElements offset cmp (l ++ t)))) := by
  induction t generalizing l q nodes b s qs with
  | nil =>
      cases hfirst
      refine ⟨s, ?_, ?_⟩
      · exact sortFrom_queue ..
      · rw [List.append_nil] at hq ⊢
        rw [← hq, Function.update_eq_self]
        exact hr
  | cons v t ih =>
      cases hfirst
      rcases Nat.exists_eq_succ_of_ne_zero (Nat.ne_of_gt (Nat.lt_of_lt_of_le t.length.succ_pos hnodes))
        with ⟨nodes, rfl⟩
      obtain ⟨u, e, hu⟩ : ∃ u e, sortedElements offset cmp l = u ++ [e] := by
        rcases List.eq_nil_or_concat (sortedElements offset cmp l) with hnil | ⟨u, e, hu⟩
        · exact absurd (hnil ▸ (sortedElements_perm offset cmp l).symm).eq_nil hl
        · exact ⟨u, e, by rw [hu, List.concat_eq_append]⟩
      rw [hu] at hq
      obtain ⟨x, b', hx⟩ : ∃ x b', t.map (ofData offset) ++ [h] = x :: b' := by
        rcases IsRing.exists_sides h [] (t.map (ofData offset)) with ⟨-, -, x, b', -, hx⟩
        exact ⟨x, b', hx⟩
      have hring := hr.ring h _ hq
      have hne : ofData offset v ≠ h := by
        intro heq
        exact (List.nodup_cons.1 hring.nodup).1 (by simp [← heq])
      have hprev : s.prev (ofData offset v) = ofData offset e := by
        rw [List.map_append, List.map_append] at hring
        exact (hring.step (a := h :: u.map (ofData offset)) (by simp) rfl).2
      have hnext : s.next (ofData offset v) = x := by
        have hring' : IsRing s.next s.prev h
            (((u ++ [e]) ++ [v]).map (ofData offset) ++ t.map (ofData offset)) := by simpa using hring
        exact (hring'.step (a := h :: (u ++ [e]).map (ofData offset)) (by simp) hx).1
      -- taken out, and put in again behind the place that the inner loop finds
      have hremoved := hr.remove debug hq
      have hq' : Function.update qs h (some ((u ++ [e]) ++ t)) h = some ((u ++ [e]) ++ t) :=
        Function.update_self ..
      have hring' := hremoved.ring h _ hq'
      rw [List.map_append] at hring'
      have hlength : u.length < rounds := by
        have hlen := (sortedElements_perm offset cmp l).length_eq
        rw [hu] at hlen
        simp only [List.length_append, List.length_cons, List.length_nil] at hlen hrounds
        omega
      rcases sortPlace_eq cmp v hring' hlength with
        ⟨before, after, a, p, hins, hsplit, hbefore, hplace⟩
      have hq'' : Function.update qs h (some ((u ++ [e]) ++ t)) h = some (before ++ (after ++ t)) := by
        rw [hq', hsplit, List.append_assoc]
      have hinserted := hremoved.insertAfter hq'' hbefore (removed_free hr hq)
      rw [Function.update_idem] at hinserted
      have hsorted : sortedElements offset cmp (l ++ [v]) = before ++ v :: after := by
        rw [sortedElements_concat, hu, hins]
      have hqnew : Function.update qs h (some (before ++ v :: (after ++ t))) h =
          some (sortedElements offset cmp (l ++ [v]) ++ t) := by
        rw [Function.update_self, hsorted, List.append_assoc, List.cons_append]
      have hrounds' : (l ++ [v]).length + t.length ≤ rounds := by
        simp only [List.length_append, List.length_cons, List.length_nil] at hrounds ⊢
        omega
      rcases ih hinserted hqnew (by simp) hx (Nat.le_of_succ_le_succ hnodes) hrounds' with
        ⟨s', hs', hr'⟩
      refine ⟨s', ?_, ?_⟩
      · rw [sortFrom, if_pos hne]
        simp only [hprev, hnext, hplace, Option.bind_some]
        exact hs'
      · rw [Function.update_idem, List.append_assoc] at hr'
        exact hr'

/-- Sorting comes to an end within as many rounds as there are elements, and keeps all queues: one has its
elements in the order of the sort. -/
theorem ngxQueueSort_eq (cmp : Nat → Nat → Int) (debug : Bool) {l : List Nat} {rounds : Nat}
    (hr : Rings offset s qs) (hq : qs h = some l)
    (hrounds : l.length ≤ rounds) :
    ∃ s', ngxQueueSort cmp debug h rounds s = some s' ∧
      Rings offset s' (Function.update qs h (some (sortedElements offset cmp l))) := by
  have hring := hr.ring h _ hq
  cases l with
  | nil =>
      have hempty := (List.isChain_cons_cons.1 hring.linked).1
      refine ⟨s, ?_, ?_⟩
      · rw [ngxQueueSort, if_pos (by rw [hempty.1, hempty.2])]
      · change Rings offset s (Function.update qs h (some []))
        rw [← hq, Function.update_eq_self]
        exact hr
  | cons e t =>
      obtain ⟨x, b, hx⟩ : ∃ x b, t.map (ofData offset) ++ [h] = x :: b := by
        rcases IsRing.exists_sides h [] (t.map (ofData offset)) with ⟨-, -, x, b, -, hx⟩
        exact ⟨x, b, hx⟩
      have hhead : s.next h = ofData offset e := (hring.step (s := []) (a := []) rfl rfl).1
      have hsecond : s.next (ofData offset e) = x := by
        have hring' : IsRing s.next s.prev h ([ofData offset e] ++ t.map (ofData offset)) := hring
        exact (hring'.step (a := [h]) rfl hx).1
      have hone : sortedElements offset cmp [e] = [e] := rfl
      by_cases hlast : ofData offset e = s.prev h
      · -- the first node is the last one
        have ht : t = [] := by
          rcases List.eq_nil_or_concat t with hnil | ⟨t', d, ht⟩
          · exact hnil
          · rw [List.concat_eq_append] at ht
            subst ht
            have hring' : IsRing s.next s.prev h ((e :: (t' ++ [d])).map (ofData offset) ++ []) := by
              simpa using hring
            have hd := (hring'.step (a := h :: (e :: t').map (ofData offset)) (p := ofData offset d)
              (by simp) rfl).2
            rw [hd] at hlast
            have hnodup := (List.nodup_cons.1 (List.nodup_cons.1 hring.nodup).2).1
            exact absurd (by simp [hlast]) hnodup
        subst ht
        refine ⟨s, ?_, ?_⟩
        · rw [ngxQueueSort, hhead, if_pos hlast]
        · rw [hone, ← hq, Function.update_eq_self]
          exact hr
      · have hq' : qs h = some (sortedElements offset cmp [e] ++ t) := by rw [hone, hq, List.singleton_append]
        have hlength : [e].length + t.length ≤ rounds := by simpa [Nat.add_comm] using hrounds
        rcases sortFrom_eq cmp debug hr hq' (by simp) hx
          (Nat.le_trans (Nat.le_succ _) hrounds) hlength with ⟨s', hs', hr'⟩
        refine ⟨s', ?_, hr'⟩
        rw [ngxQueueSort, hhead, if_neg hlast, hsecond]
        exact hs'

end sort

/-! ## The middle -/

section middle

variable {offset h : Nat} {s : QueueHeap}

theorem next_getElem {l : List Nat} (hr : IsRing s.next s.prev h l) {i : Nat} (hi : i + 1 < l.length) :
    s.next l[i] = l[i + 1] := by
  have hlinked : Linked s.next s.prev l := (List.isChain_cons.1 hr.linked).2.left_of_append
  exact (List.isChain_iff_getElem.1 hlinked i hi).1

theorem prev_eq_getElem {l : List Nat} (hr : IsRing s.next s.prev h l) {i : Nat} (hi : i < l.length) :
    l[i] = s.prev h ↔ i + 1 = l.length := by
  rcases hr.last_step with ⟨a, p, hl, hstep⟩
  have hnodup : l.Nodup := (List.nodup_cons.1 hr.nodup).2
  have hlast : l[l.length - 1] = p := by
    have hne : l ≠ [] := List.ne_nil_of_length_pos (Nat.lt_of_le_of_lt (Nat.zero_le i) hi)
    have hp : (h :: l).getLast? = some p := by rw [hl]; simp
    rw [List.getLast?_cons_of_ne_nil hne, List.getLast?_eq_getElem?] at hp
    exact (List.getElem?_eq_some_iff.1 hp).2
  rw [hstep.2, ← hlast, hnodup.getElem_inj_iff]
  omega

/-- The second pointer is twice as far as the first. -/
theorem middleFrom_eq {l : List Nat} (hr : IsRing s.next s.prev h l) {i rounds : Nat}
    (hi : 2 * i + 1 < l.length) (hrounds : l.length ≤ rounds + i) :
    middleFrom h s rounds (l[i]) (l[2 * i]) = l[l.length / 2]? := by
  induction rounds generalizing i with
  | zero => omega
  | succ rounds ih =>
      have hmiddle : s.next (l[i]) = l[i + 1] := next_getElem hr (by omega)
      have hnext : s.next (l[2 * i]) = l[2 * i + 1] := next_getElem hr hi
      have hhalf : l.length / 2 = i + 1 → some l[i + 1] = l[l.length / 2]? := by
        intro heq
        rw [heq, List.getElem?_eq_getElem]
      rw [middleFrom]
      simp only [hmiddle, hnext, prev_eq_getElem hr hi]
      by_cases heven : 2 * i + 1 + 1 = l.length
      · rw [if_pos heven]
        exact hhalf (by omega)
      · have hi' : 2 * i + 1 + 1 < l.length := by omega
        have hnext' : s.next (l[2 * i + 1]) = l[2 * i + 1 + 1] := next_getElem hr hi'
        rw [if_neg heven]
        simp only [hnext', prev_eq_getElem hr hi']
        by_cases hodd : 2 * i + 1 + 1 + 1 = l.length
        · rw [if_pos hodd]
          exact hhalf (by omega)
        · rw [if_neg hodd]
          exact ih (i := i + 1) (by omega) (by omega)

/-- The middle of a ring is the first node of its second half, and of an empty ring the sentinel. -/
theorem ngxQueueMiddle_nodes {l : List Nat} (hr : IsRing s.next s.prev h l) {rounds : Nat}
    (hrounds : l.length ≤ rounds) : ngxQueueMiddle h rounds s = some (l[l.length / 2]?.getD h) := by
  rw [ngxQueueMiddle]
  cases l with
  | nil =>
      have hempty := (List.isChain_cons_cons.1 hr.linked).1
      simp [hempty.1, hempty.2]
  | cons p l =>
      have hhead : s.next h = p := (hr.step (s := []) (a := []) rfl rfl).1
      have hone : p = s.prev h ↔ 0 + 1 = (p :: l).length :=
        prev_eq_getElem hr (i := 0) l.length.succ_pos
      simp only [hhead, hone]
      by_cases hlength : 0 + 1 = (p :: l).length
      · have hl : l = [] := List.eq_nil_of_length_eq_zero (by simpa using hlength)
        rw [if_pos hlength, hl]
        simp
      · have hmiddle := middleFrom_eq hr (i := 0)
          (by simp only [List.length_cons] at hlength ⊢; omega) hrounds
        have hsome : (p :: l).length / 2 < (p :: l).length := by
          simp only [List.length_cons]
          omega
        rw [if_neg hlength, List.getElem?_eq_getElem hsome]
        rw [List.getElem?_eq_getElem hsome] at hmiddle
        exact hmiddle

theorem ngxQueueMiddle_eq {l : List Nat} (hr : IsRing s.next s.prev h (l.map (ofData offset))) {rounds : Nat}
    (hrounds : l.length ≤ rounds) :
    ngxQueueMiddle h rounds s = some ((l[l.length / 2]?.map (ofData offset)).getD h) := by
  rw [ngxQueueMiddle_nodes hr (by simpa using hrounds), List.length_map, List.getElem?_map]

end middle

/-! ## Splitting -/

section split

variable {offset h : Nat} {s : QueueHeap} {qs : Queues}

/-- The links after a split before `q`, with `p` before it and `z` the last node. -/
theorem split_links {n p q z : Nat} (hp : s.prev q = p) (hz : s.prev h = z) (hnh : n ≠ h) (hnp : n ≠ p)
    (hnq : n ≠ q) (hnz : n ≠ z) (hhq : h ≠ q) (hpz : p ≠ z) :
    Step (ngxQueueSplit h q n s).next (ngxQueueSplit h q n s).prev p h ∧
      Step (ngxQueueSplit h q n s).next (ngxQueueSplit h q n s).prev n q ∧
      Step (ngxQueueSplit h q n s).next (ngxQueueSplit h q n s).prev z n ∧
      (∀ r, r ≠ p → r ≠ z → r ≠ n → (ngxQueueSplit h q n s).next r = s.next r) ∧
      ∀ r, r ≠ h → r ≠ q → r ≠ n → (ngxQueueSplit h q n s).prev r = s.prev r := by
  have hnext : (ngxQueueSplit h q n s).next =
      Function.update (Function.update (Function.update s.next z n) n q) p h := by
    simp [ngxQueueSplit, QueueHeap.setNext, QueueHeap.setPrev, hp, hz, hnq.symm]
  have hprev : (ngxQueueSplit h q n s).prev =
      Function.update (Function.update (Function.update s.prev n z) h p) q n := by
    simp [ngxQueueSplit, QueueHeap.setNext, QueueHeap.setPrev, hp, hz, hnq.symm]
  rw [hnext, hprev]
  refine ⟨⟨?_, ?_⟩, ⟨?_, ?_⟩, ⟨?_, ?_⟩, ?_, ?_⟩
  · simp
  · simp [hhq]
  · simp [hnp]
  · simp
  · simp [hpz.symm, hnz.symm]
  · simp [hnq, hnh]
  · intro r hrp hrz hrn
    simp [hrp, hrz, hrn]
  · intro r hrh hrq hrn
    simp [hrh, hrq, hrn]

/-- The elements from `e` on go to the new queue `n`. -/
theorem split_rings (hr : Rings offset s qs) {u t : List Nat} {e n : Nat} (hq : qs h = some (u ++ e :: t))
    (hn : ¬QueueOp.Linked offset qs n) :
    Rings offset (ngxQueueSplit h (ofData offset e) n s)
      (Function.update (Function.update qs h (some u)) n (some (e :: t))) := by
  have hring : IsRing s.next s.prev h
      (u.map (ofData offset) ++ ofData offset e :: t.map (ofData offset)) := by
    simpa using hr.ring h _ hq
  have hfree : n ∉ h :: (u.map (ofData offset) ++ ofData offset e :: t.map (ofData offset)) := by
    intro hin
    exact hn ⟨h, _, hq, by simpa using hin⟩
  have hnodup : ((h :: u.map (ofData offset)) ++ ofData offset e :: t.map (ofData offset)).Nodup :=
    hring.nodup
  have hdisjoint := (List.nodup_append.1 hnodup).2.2
  obtain ⟨a, p, hp⟩ : ∃ a p, h :: u.map (ofData offset) = a ++ [p] := by
    rcases IsRing.exists_sides h (u.map (ofData offset)) [] with ⟨a, p, -, -, hp, -⟩
    exact ⟨a, p, hp⟩
  obtain ⟨d, z, hz⟩ : ∃ d z, ofData offset e :: t.map (ofData offset) = d ++ [z] := by
    rcases List.eq_nil_or_concat (ofData offset e :: t.map (ofData offset)) with hnil | ⟨d, z, hz⟩
    · cases hnil
    · exact ⟨d, z, by rw [hz, List.concat_eq_append]⟩
  have hprev : s.prev (ofData offset e) = p := (hring.step hp rfl).2
  have hlast : s.prev h = z := by
    have hring' : IsRing s.next s.prev h
        ((u.map (ofData offset) ++ ofData offset e :: t.map (ofData offset)) ++ []) := by simpa using hring
    have hsides : h :: (u.map (ofData offset) ++ ofData offset e :: t.map (ofData offset)) =
        (h :: (u.map (ofData offset) ++ d)) ++ [z] := by rw [hz]; simp
    exact (hring'.step hsides rfl).2
  have hpin : p ∈ h :: u.map (ofData offset) := by simp [hp]
  have hzin : z ∈ ofData offset e :: t.map (ofData offset) := by simp [hz]
  have hout : ∀ r ∈ (h :: u.map (ofData offset)) ++ ofData offset e :: t.map (ofData offset), n ≠ r :=
    fun r hrin heq => hfree (heq ▸ hrin)
  have hnh : n ≠ h := hout h List.mem_cons_self
  rcases split_links hprev hlast hnh (hout p (List.mem_append_left _ hpin))
    (hout _ (List.mem_append_right _ List.mem_cons_self)) (hout z (List.mem_append_right _ hzin))
    (hdisjoint h List.mem_cons_self _ List.mem_cons_self) (hdisjoint p hpin z hzin) with
    ⟨hph, hnx, hzn, hnext, hprev'⟩
  rcases hring.split hfree hp hz hph hnx hzn hnext hprev' with ⟨hself, hother⟩
  -- the nodes of the two halves are those of one queue before
  have hhalf : ∀ r ∈ h :: u.map (ofData offset), r ∈ h :: (u ++ e :: t).map (ofData offset) := by
    intro r hrin
    rw [List.map_append, ← List.cons_append]
    exact List.mem_append_left _ hrin
  have hhalf' : ∀ r ∈ (e :: t).map (ofData offset), r ∈ h :: (u ++ e :: t).map (ofData offset) := by
    intro r hrin
    rw [List.map_append, ← List.cons_append]
    exact List.mem_append_right _ hrin
  have hkept : ∀ h' m, qs h' = some m → h' ≠ h → ∀ r ∈ h' :: m.map (ofData offset),
      (ngxQueueSplit h (ofData offset e) n s).next r = s.next r ∧
        (ngxQueueSplit h (ofData offset e) n s).prev r = s.prev r := by
    intro h' m hm hne r hrin
    have hin := hr.apart h' h m _ hm hq hne r hrin
    have hrn : r ≠ n := fun heq => hn ⟨h', m, hm, heq ▸ hrin⟩
    constructor
    · exact hnext r (fun heq => hin (heq ▸ hhalf p hpin)) (fun heq => hin (heq ▸ hhalf' z hzin)) hrn
    · apply hprev' r (fun heq => hin (heq ▸ List.mem_cons_self)) _ hrn
      exact fun heq => hin (heq ▸ hhalf' _ List.mem_cons_self)
  have hfirst : Rings offset (ngxQueueSplit h (ofData offset e) n s) (Function.update qs h (some u)) := by
    apply hr.set hself _ hkept
    intro h' m hm hne r hrin
    exact hr.apart h h' _ m hq hm hne.symm r (hhalf r hrin)
  apply hfirst.set hother
  · intro h' m hm hne r hrin
    rcases List.mem_cons.1 hrin with rfl | hrin
    · intro hin
      by_cases heq : h' = h
      · subst heq
        rw [Function.update_self] at hm
        cases hm
        exact hn ⟨h', _, hq, hhalf _ hin⟩
      · rw [Function.update_of_ne heq] at hm
        exact hn ⟨h', m, hm, hin⟩
    · intro hin
      by_cases heq : h' = h
      · subst heq
        rw [Function.update_self] at hm
        cases hm
        exact hdisjoint r hin r hrin rfl
      · rw [Function.update_of_ne heq] at hm
        exact hr.apart h' h m _ hm hq heq r hin (hhalf' r hrin)
  · exact fun h' m hm hne r hrin => ⟨rfl, rfl⟩

end split

/-! ## Any number of operations -/

/-- What can be done to the queues: the operations of before, sorting and splitting. -/
inductive Edit
  | basic (op : QueueOp)
  | sort (h rounds : Nat) (cmp : Nat → Nat → Int)
  | split (h e n : Nat)

namespace Edit

variable (debug : Bool) (offset : Nat)

def step (s : QueueHeap × Queues) : Edit → Option (QueueHeap × Queues)
  | basic op => some (QueueOp.step debug offset s op)
  | sort h rounds cmp =>
      (NgxQueue.sort cmp debug h rounds s.1).map fun s' =>
        (s', Function.update s.2 h ((s.2 h).map (sortedElements offset cmp)))
  | split h e n =>
      some (ngxQueueSplit h (ofData offset e) n s.1,
        Function.update (Function.update s.2 h ((s.2 h).map (List.takeWhile fun d => d ≠ e))) n
          ((s.2 h).map (List.dropWhile fun d => d ≠ e)))

/-- A sort has rounds enough, and a split is before an element of the queue, to a new sentinel. -/
def Legal (s : QueueHeap × Queues) : Edit → Prop
  | basic op => op.Legal offset s.2
  | sort h rounds _ => ∃ l, s.2 h = some l ∧ l.length ≤ rounds
  | split h e n => (∃ l, s.2 h = some l ∧ e ∈ l) ∧ ¬QueueOp.Linked offset s.2 n

variable {debug offset}

theorem step_rings {s : QueueHeap × Queues} {edit : Edit} (hs : Rings offset s.1 s.2)
    (hedit : Legal offset s edit) :
    ∃ s', step debug offset s edit = some s' ∧ Rings offset s'.1 s'.2 := by
  cases edit with
  | basic op => exact ⟨_, rfl, Rings.step debug hs hedit⟩
  | sort h rounds cmp =>
      rcases hedit with ⟨l, hq, hrounds⟩
      rcases ngxQueueSort_eq cmp debug hs hq hrounds with ⟨s', hs', hr'⟩
      refine ⟨(s', Function.update s.2 h (some (sortedElements offset cmp l))), ?_, hr'⟩
      simp [step, NgxQueue.sort, hs', hq]
  | split h e n =>
      rcases hedit with ⟨⟨l, hq, he⟩, hn⟩
      rcases List.append_of_mem he with ⟨u, t, rfl⟩
      have hnodup : (u ++ e :: t).Nodup := (List.nodup_cons.1 (hs.ring h _ hq).nodup).2.of_map
      have heu : ∀ d ∈ u, decide (d ≠ e) = true := by
        intro d hd
        have hne := (List.nodup_append.1 hnodup).2.2 d hd e List.mem_cons_self
        exact decide_eq_true hne
      have htake : (u ++ e :: t).takeWhile (fun d => decide (d ≠ e)) = u := by
        rw [List.takeWhile_append_of_pos heu, List.takeWhile_cons_of_neg (by simp), List.append_nil]
      have hdrop : (u ++ e :: t).dropWhile (fun d => decide (d ≠ e)) = e :: t := by
        rw [List.dropWhile_append_of_pos heu, List.dropWhile_cons_of_neg (by simp)]
      refine ⟨_, rfl, ?_⟩
      simp only [hq, Option.map_some, htake, hdrop]
      exact split_rings hs hq hn

/-- A run of legal edits from a heap without queues. -/
def Run (debug : Bool) (offset : Nat) (s : QueueHeap) (edits : List Edit) : Prop :=
  Trace.AlongReached (step debug offset) (Legal offset) (s, fun _ => none) edits

theorem rings_after {s : QueueHeap} {edits : List Edit} (hedits : Run debug offset s edits) :
    ∃ t, edits.foldlM (step debug offset) (s, fun _ => none) = some t ∧ Rings offset t.1 t.2 := by
  apply Trace.exists_foldlM_reached (J := fun s : QueueHeap × Queues => Rings offset s.1 s.2) _ _ hedits
  · intro s edit hs hedit
    exact step_rings hs hedit
  · exact ⟨fun _ _ hnone => (nomatch hnone), fun _ _ _ _ hnone => (nomatch hnone)⟩

end Edit

/-- The queues read back as their elements, and along the `prev` links as their reverse. -/
def Reads (offset : Nat) (s : QueueHeap) (qs : Queues) : Prop :=
  ∀ h l, qs h = some l → ∀ fuel, l.length ≤ fuel →
    forward offset fuel h s = some l ∧ alongPrev offset fuel h s = some l.reverse

theorem reads_of_rings {offset : Nat} {s : QueueHeap} {qs : Queues} (hr : Rings offset s qs) :
    Reads offset s qs := by
  intro h l hq fuel hfuel
  have hring := hr.ring h l hq
  exact ⟨forward_eq hring hfuel, alongPrev_eq hring hfuel⟩

/-- `l'` is `l` in the order of the comparison: in order if the comparison is one, with elements that are
in order already left as they are. -/
structure SortOf (offset : Nat) (cmp : Nat → Nat → Int) (l l' : List Nat) : Prop where
  perm : l'.Perm l
  ordered : (∀ a b, cmp a b ≤ 0 ∨ cmp b a ≤ 0) → (∀ a b c, cmp a b ≤ 0 → cmp b c ≤ 0 → cmp a c ≤ 0) →
    l'.Pairwise (Precedes offset cmp)
  stable : ∀ c : List Nat, c.Pairwise (Precedes offset cmp) → c.Sublist l → c.Sublist l'

/-- After any run the queues read back, sorting any of them comes to an end whatever the comparison, and
reorders that queue only; the middle is the element that splits a queue in half. -/
theorem queue_sorts {debug : Bool} {offset : Nat} {s : QueueHeap} {edits : List Edit}
    (hedits : Edit.Run debug offset s edits) :
    ∃ t, edits.foldlM (Edit.step debug offset) (s, fun _ => none) = some t ∧
      Reads offset t.1 t.2 ∧ ∀ h l, t.2 h = some l → ∀ rounds, l.length ≤ rounds →
        ngxQueueMiddle h rounds t.1 = some ((l[l.length / 2]?.map (ofData offset)).getD h) ∧
        ∀ cmp, ∃ s' l', NgxQueue.sort cmp debug h rounds t.1 = some s' ∧ SortOf offset cmp l l' ∧
          Reads offset s' (Function.update t.2 h (some l')) := by
  rcases Edit.rings_after hedits with ⟨t, ht, hr⟩
  refine ⟨t, ht, reads_of_rings hr, ?_⟩
  intro h l hq rounds hrounds
  refine ⟨ngxQueueMiddle_eq (hr.ring h l hq) hrounds, ?_⟩
  intro cmp
  rcases ngxQueueSort_eq cmp debug hr hq hrounds with ⟨s', hs', hr'⟩
  refine ⟨s', sortedElements offset cmp l, hs', ⟨?_, ?_, ?_⟩, reads_of_rings hr'⟩
  · exact sortedElements_perm offset cmp l
  · exact fun htotal htrans => sortedElements_ordered htotal htrans l
  · exact fun c hordered hc => sortedElements_stable hordered hc

/-- Elements compared by their tens, from a queue that is split before. -/
def splitAndSorted : List Edit :=
  [.basic (.init 1), .basic (.append 1 32), .basic (.append 1 25), .split 1 25 2,
    .sort 2 1 fun a b => (a / 10 : Int) - (b / 10 : Int)]

theorem queue_sorts_split :
    ∃ t, splitAndSorted.foldlM (Edit.step true 100) (⟨id, id⟩, fun _ => none) = some t ∧
      Reads 100 t.1 t.2 ∧ ∀ h l, t.2 h = some l → ∀ rounds, l.length ≤ rounds →
        ngxQueueMiddle h rounds t.1 = some ((l[l.length / 2]?.map (ofData 100)).getD h) ∧
        ∀ cmp, ∃ s' l', NgxQueue.sort cmp true h rounds t.1 = some s' ∧ SortOf 100 cmp l l' ∧
          Reads 100 s' (Function.update t.2 h (some l')) := by
  apply queue_sorts
  simp only [Edit.Run, splitAndSorted, Trace.alongReached_cons, Edit.step, Option.some.injEq,
    forall_eq']
  refine ⟨?_, ?_, ?_, ?_, ?_, fun t _ => Trace.alongReached_nil t⟩
  all_goals
    simp [Edit.Legal, QueueOp.Legal, QueueOp.Linked, QueueOp.step, QueueOp.model, Function.update_apply,
      ofData]

end NgxQueue

end Ngx
end CppPractice
