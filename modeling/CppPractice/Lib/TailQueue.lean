import CppPractice.Lib.Segment

/-!
# TailQueue — singly linked queues with a pointer to the end

The links are in the nodes, and the queue is a pointer to the first node and the place where the next one
goes: the first pointer itself while the queue is empty, and the link of the last node else.

`IsQueue next null q l` says that the nodes of the queue are those of `l`.  Each rule says besides which
links an operation leaves alone, so that queues that share no node keep apart.
-/

namespace CppPractice

open Segment

structure TailQueue (P : Type*) where
  first : P
  last : Slot P

namespace TailQueue

variable {P : Type*} [DecidableEq P]

/-- `q.first = null; q.last = &q.first` -/
def init (null : P) : TailQueue P := ⟨null, .head⟩

/-- `*q.last = x; q.last = &x->next`, on the links and on the queue -/
def push (x : P) (next : P → P) (q : TailQueue P) : (P → P) × TailQueue P :=
  (q.last.fillNext x next, ⟨q.last.fillHead x q.first, .behind x⟩)

/-- `q.first = q.first->next; if (q.first == null) q.last = &q.first` -/
def pop (null : P) (next : P → P) (q : TailQueue P) : TailQueue P :=
  let first := next q.first
  ⟨first, if first = null then .head else q.last⟩

structure IsQueue (next : P → P) (null : P) (q : TailQueue P) (l : List P) : Prop where
  chain : Chain next null q.first l
  slot : Slot.After next q.first q.last l

namespace IsQueue

variable {next next' : P → P} {null x : P} {q : TailQueue P} {l : List P}

omit [DecidableEq P] in
theorem init (next : P → P) (null : P) : IsQueue next null (TailQueue.init null) [] :=
  ⟨.nil next null, .head⟩

omit [DecidableEq P] in
/-- A queue depends on the links of its own nodes only. -/
theorem congr (h : IsQueue next null q l) (hsame : ∀ r ∈ l, next' r = next r) :
    IsQueue next' null q l := by
  refine ⟨h.chain.congr hsame, ?_⟩
  rcases q with ⟨first, last⟩
  cases h.slot with
  | head => exact .head
  | @behind l p hpath =>
      exact .behind (hpath.congr fun r hr => hsame r (List.mem_append_left [p] hr))

/-- A node at the end. -/
theorem push (h : IsQueue next null q l) (hx : x ∉ l) (hnull : x ≠ null) (hend : next x = null) :
    IsQueue (q.push x next).1 null (q.push x next).2 (l ++ [x]) ∧
      ∀ r ∉ l, (q.push x next).1 r = next r := by
  have hothers : ∀ r ∉ l, (q.push x next).1 r = next r := by
    intro r hr
    rcases q with ⟨first, last⟩
    cases h.slot with
    | head => rfl
    | @behind l p hpath =>
        apply Function.update_of_ne
        rintro rfl
        exact hr (by simp)
  have hpath : Path (q.push x next).1 (q.push x next).2.first l x := h.slot.fill h.chain.nodup x
  have hlast : (q.push x next).1 x = null := (hothers x hx).trans hend
  refine ⟨⟨⟨Path.concat_iff.2 ⟨hpath, hlast⟩, ?_⟩, .behind hpath⟩, hothers⟩
  simp [h.chain.null_notMem, hnull.symm]

/-- Without the first node. -/
theorem pop (h : IsQueue next null q (x :: l)) :
    q.first = x ∧ x ≠ null ∧ IsQueue next null (q.pop null next) l := by
  rcases h.chain.cons_inv with ⟨hfirst, hx, htail⟩
  refine ⟨hfirst, hx, ?_⟩
  rcases q with ⟨first, last⟩
  obtain rfl : first = x := hfirst
  refine ⟨htail, ?_⟩
  rw [TailQueue.pop]
  cases l with
  | nil =>
      have hnull : next first = null := htail.eq_null_of_nil
      simp only [hnull, if_true]
      exact .head
  | cons y l =>
      have hne : next first ≠ null := by
        rcases htail.cons_inv with ⟨hy, hne, -⟩
        rwa [hy]
      simp only [hne, if_false]
      -- the place is behind the last node, which is still there
      obtain ⟨d, z, hz⟩ : ∃ d z, y :: l = d ++ [z] := by
        rcases List.eq_nil_or_concat (y :: l) with hnil | ⟨d, z, hz⟩
        · cases hnil
        · exact ⟨d, z, by rw [hz, List.concat_eq_append]⟩
      have hslot := h.slot
      rw [hz] at hslot ⊢
      rw [← List.cons_append] at hslot
      generalize hall : (first :: d) ++ [z] = all at hslot
      cases hslot with
      | head => cases hall
      | @behind m p hpath =>
          rcases List.append_inj' hall rfl with ⟨rfl, hp⟩
          cases hp
          exact .behind hpath.cons_inv.2

end IsQueue

end TailQueue
end CppPractice
