import CppPractice.Lib.Segment
import Mathlib.Data.List.Chain

/-!
# Ring — circular doubly linked lists

`IsRing next prev h l` says that from `h` the links go through the nodes of `l` and back to `h`, in both
directions.  The node `h` is the sentinel.

The rules for a change of the links take the new links by what they are at the few places that change and
that they are the old ones elsewhere, whatever the order of the assignments.  The nodes before and after
such a place may be the sentinel: the nodes before it are written `h :: s`, with `p` the last of them, and
those after it `t ++ [h]`, with `q` the first.
-/

namespace CppPractice
namespace Ring

open Segment

variable {P : Type*} {next prev next' prev' : P → P}

/-! ## Linked nodes -/

/-- `b` comes right after `a`, and `a` right before `b`. -/
def Step (next prev : P → P) (a b : P) : Prop := next a = b ∧ prev b = a

/-- Each node of the list comes right after the one before it. -/
abbrev Linked (next prev : P → P) (l : List P) : Prop := l.IsChain (Step next prev)

namespace Linked

variable {l s t : List P} {p q : P}

/-- The links of a list are the next pointers of all nodes but the last and the previous pointers of all
but the first. -/
theorem congr (hl : Linked next prev l) (hnext : ∀ r ∈ l.dropLast, next' r = next r)
    (hprev : ∀ r ∈ l.tail, prev' r = prev r) : Linked next' prev' l := by
  induction l with
  | nil => exact .nil
  | cons a l ih =>
      cases l with
      | nil => exact .singleton a
      | cons b l =>
          rcases List.isChain_cons_cons.1 hl with ⟨⟨hab, hba⟩, htail⟩
          have hrest : Linked next' prev' (b :: l) := by
            apply ih htail
            · exact fun r hr => hnext r (List.mem_cons_of_mem a hr)
            · exact fun r hr => hprev r (List.mem_cons_of_mem b hr)
          have hstep : Step next' prev' a b := by
            constructor
            · rw [hnext a List.mem_cons_self, hab]
            · rw [hprev b List.mem_cons_self, hba]
          exact List.isChain_cons_cons.2 ⟨hstep, hrest⟩

/-- Two lists with a link between them are one. -/
theorem join (hs : Linked next prev (s ++ [p])) (hpq : Step next prev p q)
    (ht : Linked next prev (q :: t)) : Linked next prev ((s ++ [p]) ++ q :: t) := by
  rw [List.append_assoc]
  exact List.isChain_append_cons_cons.2 ⟨hs, hpq, ht⟩

theorem split (h : Linked next prev ((s ++ [p]) ++ q :: t)) :
    Linked next prev (s ++ [p]) ∧ Step next prev p q ∧ Linked next prev (q :: t) := by
  rw [List.append_assoc] at h
  exact List.isChain_append_cons_cons.1 h

theorem reverse (hl : Linked next prev l) : Linked prev next l.reverse := by
  apply List.isChain_reverse.2
  exact hl.imp fun _ _ hstep => ⟨hstep.2, hstep.1⟩

/-- Going forward visits all nodes up to the last. -/
theorem path (hl : Linked next prev (p :: (l ++ [q]))) : Path next p (p :: l) q := by
  induction l generalizing p with
  | nil =>
      have hpq : Step next prev p q := (List.isChain_cons_cons.1 hl).1
      exact Path.concat_iff.2 ⟨.nil p, hpq.1⟩
  | cons r l ih =>
      rcases List.isChain_cons_cons.1 hl with ⟨hpr, htail⟩
      have hrest : Path next (next p) (r :: l) q := by
        rw [hpr.1]
        exact ih htail
      exact .cons hrest

end Linked

/-! ## Rings -/

structure IsRing (next prev : P → P) (h : P) (l : List P) : Prop where
  nodup : (h :: l).Nodup
  linked : Linked next prev (h :: (l ++ [h]))

namespace IsRing

variable {h n p q x : P} {l m s t a b : List P}

/-- A sentinel that points to itself is an empty ring. -/
theorem empty (hnext : next h = h) (hprev : prev h = h) : IsRing next prev h [] where
  nodup := List.nodup_singleton h
  linked := List.isChain_pair.2 ⟨hnext, hprev⟩

/-- A ring depends on the links of its own nodes only. -/
theorem congr (hr : IsRing next prev h l) (hnext : ∀ r ∈ h :: l, next' r = next r)
    (hprev : ∀ r ∈ h :: l, prev' r = prev r) : IsRing next' prev' h l where
  nodup := hr.nodup
  linked := by
    apply hr.linked.congr
    · rw [← List.cons_append, List.dropLast_concat]
      exact hnext
    · intro r hr
      apply hprev
      rcases List.mem_append.1 hr with hr | hr
      · exact List.mem_cons_of_mem h hr
      · rw [List.mem_singleton.1 hr]
        exact List.mem_cons_self

theorem reverse (hr : IsRing next prev h l) : IsRing prev next h l.reverse where
  nodup := by
    have hnodup := List.nodup_cons.1 hr.nodup
    exact List.nodup_cons.2 ⟨by simpa using hnodup.1, List.nodup_reverse.2 hnodup.2⟩
  linked := by simpa using hr.linked.reverse

/-- There is a last node before any place, and a first one after it. -/
theorem exists_sides (h : P) (s t : List P) :
    ∃ a p q b, h :: s = a ++ [p] ∧ t ++ [h] = q :: b := by
  rcases List.eq_nil_or_concat (h :: s) with hnil | ⟨a, p, hs⟩
  · cases hnil
  · rw [List.concat_eq_append] at hs
    cases t with
    | nil => exact ⟨a, p, h, [], hs, rfl⟩
    | cons q t => exact ⟨a, p, q, t ++ [h], hs, rfl⟩

/-- They are nodes of the ring. -/
theorem sides_mem (hs : h :: s = a ++ [p]) (ht : t ++ [h] = q :: b) :
    p ∈ h :: (s ++ t) ∧ q ∈ h :: (s ++ t) := by
  constructor
  · rw [← List.cons_append, hs]
    simp
  · have hq : q ∈ t ++ [h] := by simp [ht]
    rcases List.mem_append.1 hq with hq | hq
    · exact List.mem_cons_of_mem h (List.mem_append_right s hq)
    · exact List.mem_singleton.1 hq ▸ List.mem_cons_self

/-- The last node before a place and the first after it are linked. -/
theorem step (hr : IsRing next prev h (s ++ t)) (hs : h :: s = a ++ [p]) (ht : t ++ [h] = q :: b) :
    Step next prev p q := by
  have hlist : h :: ((s ++ t) ++ [h]) = (a ++ [p]) ++ q :: b := by
    rw [← hs, ← ht]
    simp
  exact (hlist ▸ hr.linked).split.2.1

/-- The last node and the sentinel are linked. -/
theorem last_step (hr : IsRing next prev h l) : ∃ a p, h :: l = a ++ [p] ∧ Step next prev p h := by
  rcases exists_sides h l [] with ⟨a, p, -, -, hl, -⟩
  have hring : IsRing next prev h (l ++ []) := by simpa using hr
  exact ⟨a, p, hl, hring.step hl rfl⟩

/-- The next node of a node of the ring is a node of the ring, and the node before that is the node. -/
theorem prev_next (hr : IsRing next prev h l) (hp : p ∈ h :: l) :
    prev (next p) = p ∧ next p ∈ h :: l := by
  obtain ⟨s, t, a, rfl, hs⟩ : ∃ s t a, l = s ++ t ∧ h :: s = a ++ [p] := by
    rcases List.mem_cons.1 hp with rfl | hp
    · exact ⟨[], l, [], rfl, rfl⟩
    · rcases List.append_of_mem hp with ⟨s, t, rfl⟩
      exact ⟨s ++ [p], t, h :: s, by simp, by simp⟩
  rcases exists_sides h s t with ⟨-, -, q, b, -, ht⟩
  have hstep := hr.step hs ht
  rw [hstep.1]
  exact ⟨hstep.2, (sides_mem hs ht).2⟩

theorem next_prev (hr : IsRing next prev h l) (hp : p ∈ h :: l) :
    next (prev p) = p ∧ prev p ∈ h :: l := by
  have hback := hr.reverse.prev_next (p := p) (by simpa using hp)
  simpa using hback

/-! ### Iteration -/

/-- Forward from the node after the sentinel up to the sentinel. -/
theorem forward (hr : IsRing next prev h l) : Chain next h (next h) l :=
  ⟨(hr.linked.path.cons_inv).2, (List.nodup_cons.1 hr.nodup).1⟩

/-! ### Changes of the links -/

/-- The nodes before a place and those after it, the sentinel being on both sides, are different. -/
theorem apart (hnodup : (h :: (s ++ t)).Nodup) (hs : h :: s = a ++ [p]) (ht : t ++ [h] = q :: b) :
    p ∉ a ∧ p ∉ t ∧ q ∉ s ∧ q ∉ b := by
  have hleft : (a ++ [p]).Nodup := hs ▸ hnodup.sublist (by simp)
  have hright : (q :: b).Nodup := by
    rw [← ht]
    have hth : (h :: t).Nodup := hnodup.sublist (by simp)
    exact (List.perm_append_singleton h t).nodup_iff.2 hth
  have hboth : ((h :: s) ++ t).Nodup := hnodup
  have hps : p ∈ h :: s := by simp [hs]
  have hqt : q ∈ t ++ [h] := by simp [ht]
  refine ⟨?_, ?_, ?_, (List.nodup_cons.1 hright).1⟩
  · intro hp
    exact (List.nodup_append.1 hleft).2.2 p hp p (List.mem_singleton_self p) rfl
  · intro hp
    exact (List.nodup_append.1 hboth).2.2 p hps p hp rfl
  · intro hq
    rcases List.mem_append.1 hqt with hqt | hqt
    · exact (List.nodup_append.1 hboth).2.2 q (List.mem_cons_of_mem h hq) q hqt rfl
    · rw [List.mem_singleton.1 hqt] at hq
      exact (List.nodup_cons.1 hnodup).1 (List.mem_append_left t hq)

/-- The links before a place and those after it stay when only `p` and `q`, and a node `x` that is not
among them, are linked anew. -/
theorem sides (hnodup : (h :: (s ++ t)).Nodup) (hs : h :: s = a ++ [p]) (ht : t ++ [h] = q :: b)
    (hx : x ∉ h :: (s ++ t)) (hleft : Linked next prev (a ++ [p])) (hright : Linked next prev (q :: b))
    (hnext : ∀ r, r ≠ p → r ≠ x → next' r = next r)
    (hprev : ∀ r, r ≠ q → r ≠ x → prev' r = prev r) :
    Linked next' prev' (a ++ [p]) ∧ Linked next' prev' (q :: b) := by
  -- `p` is last before the place and `q` first after it, so that no link within a side begins or ends there.
  rcases apart hnodup hs ht with ⟨hpa, hpt, hqs, hqb⟩
  have hxs : x ∉ h :: s := fun hin => hx (List.mem_append_left t hin)
  have hxt : x ∉ t ++ [h] := by
    intro hin
    apply hx
    rcases List.mem_append.1 hin with hin | hin
    · exact List.mem_cons_of_mem h (List.mem_append_right s hin)
    · exact List.mem_singleton.1 hin ▸ List.mem_cons_self
  constructor
  · apply hleft.congr
    · intro r hr
      rw [List.dropLast_concat] at hr
      have hrx : r ≠ x := by
        rintro rfl
        exact hxs (hs ▸ List.mem_append_left _ hr)
      exact hnext r (fun heq => hpa (heq ▸ hr)) hrx
    · intro r hr
      rw [← hs] at hr
      have hrx : r ≠ x := by
        rintro rfl
        exact hxs (List.mem_cons_of_mem h hr)
      exact hprev r (fun heq => hqs (heq ▸ hr)) hrx
  · apply hright.congr
    · intro r hr
      rw [← ht, List.dropLast_concat] at hr
      have hrx : r ≠ x := by
        rintro rfl
        exact hxt (List.mem_append_left _ hr)
      exact hnext r (fun heq => hpt (heq ▸ hr)) hrx
    · intro r hr
      have hrx : r ≠ x := by
        rintro rfl
        exact hxt (ht ▸ List.mem_cons_of_mem q hr)
      exact hprev r (fun heq => hqb (heq ▸ hr)) hrx

/-- A new node between `p` and the node after it. -/
theorem insert (hr : IsRing next prev h (s ++ t)) (hs : h :: s = a ++ [p]) (ht : t ++ [h] = q :: b)
    (hx : x ∉ h :: (s ++ t)) (hpx : Step next' prev' p x) (hxq : Step next' prev' x q)
    (hnext : ∀ r, r ≠ p → r ≠ x → next' r = next r)
    (hprev : ∀ r, r ≠ q → r ≠ x → prev' r = prev r) : IsRing next' prev' h (s ++ x :: t) := by
  have hlist : h :: ((s ++ t) ++ [h]) = (a ++ [p]) ++ q :: b := by
    rw [← hs, ← ht]
    simp
  have hnew : h :: ((s ++ x :: t) ++ [h]) = (a ++ [p]) ++ x :: q :: b := by
    rw [← hs, ← ht]
    simp
  have hperm : (h :: (s ++ x :: t)).Perm (x :: h :: (s ++ t)) :=
    (List.perm_middle.cons h).trans (.swap x h _)
  rcases (hlist ▸ hr.linked).split with ⟨hleft, -, hright⟩
  rcases sides hr.nodup hs ht hx hleft hright hnext hprev with ⟨hleft', hright'⟩
  refine ⟨hperm.nodup_iff.2 (List.nodup_cons.2 ⟨hx, hr.nodup⟩), ?_⟩
  rw [hnew]
  exact hleft'.join hpx (List.isChain_cons_cons.2 ⟨hxq, hright'⟩)

/-- A node less: its neighbours are linked. -/
theorem erase (hr : IsRing next prev h (s ++ x :: t)) (hs : h :: s = a ++ [p]) (ht : t ++ [h] = q :: b)
    (hpq : Step next' prev' p q) (hnext : ∀ r, r ≠ p → r ≠ x → next' r = next r)
    (hprev : ∀ r, r ≠ q → r ≠ x → prev' r = prev r) : IsRing next' prev' h (s ++ t) := by
  have hlist : h :: ((s ++ x :: t) ++ [h]) = (a ++ [p]) ++ x :: q :: b := by
    rw [← hs, ← ht]
    simp
  have hnew : h :: ((s ++ t) ++ [h]) = (a ++ [p]) ++ q :: b := by
    rw [← hs, ← ht]
    simp
  have hperm : (h :: (s ++ x :: t)).Perm (x :: h :: (s ++ t)) :=
    (List.perm_middle.cons h).trans (.swap x h _)
  rcases List.nodup_cons.1 (hperm.nodup_iff.1 hr.nodup) with ⟨hx, hnodup⟩
  rcases (hlist ▸ hr.linked).split with ⟨hleft, -, hrest⟩
  rcases sides hnodup hs ht hx hleft (List.isChain_cons_cons.1 hrest).2 hnext hprev with
    ⟨hleft', hright'⟩
  refine ⟨hnodup, ?_⟩
  rw [hnew]
  exact hleft'.join hpq hright'

/-- The nodes of another ring, from `x` to `z`, behind those of this one. -/
theorem append {c d : List P} {z : P} (hr : IsRing next prev h l) (hm : IsRing next prev n m)
    (happart : ∀ r ∈ h :: l, r ∉ m) (hl : h :: l = a ++ [p]) (hx : m = x :: c) (hz : m = d ++ [z])
    (hpx : Step next' prev' p x) (hzh : Step next' prev' z h)
    (hnext : ∀ r, r ≠ p → r ≠ z → next' r = next r)
    (hprev : ∀ r, r ≠ x → r ≠ h → prev' r = prev r) : IsRing next' prev' h (l ++ m) := by
  have hzm : z ∈ m := by simp [hz]
  have hxm : x ∈ m := by simp [hx]
  have hmnodup : m.Nodup := (List.nodup_cons.1 hm.nodup).2
  have hnodup : (h :: (l ++ m)).Nodup := by
    rw [← List.cons_append]
    exact List.nodup_append.2 ⟨hr.nodup, hmnodup, fun r hrl q hq heq => happart r hrl (heq ▸ hq)⟩
  -- Within either list the links are the old ones: `p` and `z` are last there, `x` and `h` first.
  have hself : Linked next' prev' (h :: l) := by
    have hold : Linked next prev (h :: l) := by
      have hlinked := hr.linked
      rw [← List.cons_append] at hlinked
      exact hlinked.left_of_append
    apply hold.congr
    · intro r hrl
      rw [hl, List.dropLast_concat] at hrl
      have hmem : r ∈ h :: l := by simp [hl, hrl]
      apply hnext
      · rintro rfl
        exact (List.nodup_append.1 (hl ▸ hr.nodup)).2.2 r hrl r (List.mem_singleton_self r) rfl
      · exact fun heq => happart r hmem (heq ▸ hzm)
    · intro r hrl
      apply hprev
      · exact fun heq => happart r (List.mem_cons_of_mem h hrl) (heq ▸ hxm)
      · exact fun heq => (List.nodup_cons.1 hr.nodup).1 (heq ▸ hrl)
  have hother : Linked next' prev' m := by
    have hold : Linked next prev m := by
      have hlinked := (List.isChain_cons.1 hm.linked).2
      exact hlinked.left_of_append
    apply hold.congr
    · intro r hrm
      rw [hz, List.dropLast_concat] at hrm
      have hmem : r ∈ m := by simp [hz, hrm]
      apply hnext
      · intro heq
        exact happart r (by simp [hl, heq]) hmem
      · rintro rfl
        exact (List.nodup_append.1 (hz ▸ hmnodup)).2.2 r hrm r (List.mem_singleton_self r) rfl
    · intro r hrm
      have hmem : r ∈ m := List.mem_of_mem_tail hrm
      apply hprev
      · rintro rfl
        rw [hx] at hrm hmnodup
        exact (List.nodup_cons.1 hmnodup).1 hrm
      · exact fun heq => happart r (heq ▸ List.mem_cons_self) hmem
  refine ⟨hnodup, ?_⟩
  have hnew : h :: ((l ++ m) ++ [h]) = (a ++ [p]) ++ x :: (c ++ [h]) := by
    rw [← hl, hx]
    simp
  -- What is new are the links from `p` to `x` and from `z` back to the head.
  have hend : Linked next' prev' (x :: (c ++ [h])) := by
    have hlist : x :: (c ++ [h]) = (d ++ [z]) ++ [h] := by rw [← hz, hx, List.cons_append]
    rw [hlist]
    exact (hz ▸ hother).join hzh (.singleton h)
  rw [hnew]
  exact (hl ▸ hself).join hpx hend

/-- A ring cut before `x`: the nodes from `x` to `z` go to a sentinel of their own. -/
theorem split {d : List P} {z : P} (hr : IsRing next prev h (s ++ x :: t)) (hn : n ∉ h :: (s ++ x :: t))
    (hs : h :: s = a ++ [p]) (hz : x :: t = d ++ [z]) (hph : Step next' prev' p h)
    (hnx : Step next' prev' n x) (hzn : Step next' prev' z n)
    (hnext : ∀ r, r ≠ p → r ≠ z → r ≠ n → next' r = next r)
    (hprev : ∀ r, r ≠ h → r ≠ x → r ≠ n → prev' r = prev r) :
    IsRing next' prev' h s ∧ IsRing next' prev' n (x :: t) := by
  have hnodup : ((h :: s) ++ x :: t).Nodup := hr.nodup
  rcases List.nodup_append.1 hnodup with ⟨hleft, hright, happart⟩
  have hnleft : n ∉ h :: s := fun hin => hn (List.mem_append_left (x :: t) hin)
  have hnright : n ∉ x :: t := fun hin => hn (List.mem_append_right (h :: s) hin)
  have hzin : z ∈ x :: t := by simp [hz]
  have hpin : p ∈ h :: s := by simp [hs]
  rw [hs] at hleft
  rw [hz] at hright
  have hlinked : Linked next prev ((h :: s) ++ ((x :: t) ++ [h])) := by simpa using hr.linked
  have hself : Linked next' prev' (h :: s) := by
    have hold : Linked next prev (h :: s) := hlinked.left_of_append
    apply hold.congr
    · intro r hrs
      rw [hs, List.dropLast_concat] at hrs
      have hmem : r ∈ h :: s := by simp [hs, hrs]
      apply hnext
      · exact fun heq => (List.nodup_append.1 hleft).2.2 r hrs p (List.mem_singleton_self p) heq
      · exact fun heq => happart r hmem z hzin heq
      · exact fun heq => hnleft (heq ▸ hmem)
    · intro r hrs
      have hmem : r ∈ h :: s := List.mem_cons_of_mem h hrs
      apply hprev
      · exact fun heq => (List.nodup_cons.1 (hs ▸ hleft)).1 (heq ▸ hrs)
      · exact fun heq => happart r hmem x List.mem_cons_self heq
      · exact fun heq => hnleft (heq ▸ hmem)
  have hother : Linked next' prev' (x :: t) := by
    have hold : Linked next prev (x :: t) := hlinked.right_of_append.left_of_append
    apply hold.congr
    · intro r hrt
      rw [hz, List.dropLast_concat] at hrt
      have hmem : r ∈ x :: t := by simp [hz, hrt]
      apply hnext
      · exact fun heq => happart p hpin r hmem heq.symm
      · exact fun heq => (List.nodup_append.1 hright).2.2 r hrt z (List.mem_singleton_self z) heq
      · exact fun heq => hnright (heq ▸ hmem)
    · intro r hrt
      have hmem : r ∈ x :: t := List.mem_cons_of_mem x hrt
      apply hprev
      · exact fun heq => happart h List.mem_cons_self r hmem heq.symm
      · exact fun heq => (List.nodup_cons.1 (hz ▸ hright)).1 (heq ▸ hrt)
      · exact fun heq => hnright (heq ▸ hmem)
  refine ⟨⟨hs ▸ hleft, ?_⟩, ⟨List.nodup_cons.2 ⟨hnright, hz ▸ hright⟩, ?_⟩⟩
  · rw [← List.cons_append, hs]
    exact (hs ▸ hself).join hph (.singleton h)
  · have hback : Linked next' prev' ((x :: t) ++ [n]) := by
      rw [hz]
      exact (hz ▸ hother).join hzn (.singleton n)
    exact List.isChain_cons_cons.2 ⟨hnx, hback⟩

end IsRing

end Ring
end CppPractice
