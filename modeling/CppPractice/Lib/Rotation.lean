import Mathlib.Algebra.BigOperators.Group.Finset.Piecewise
import Mathlib.Algebra.BigOperators.Ring.Finset
import Mathlib.Algebra.Order.BigOperators.Group.Finset
import Mathlib.Tactic.Linarith
import Mathlib.Tactic.Ring

/-!
# Rotation — taking turns in proportion to weights

In a turn everyone earns its weight, and the one that has most then pays the sum of the weights.  The
credits sum to what they summed to before, and no credit falls to minus that sum.  As a credit is what its
owner has earned less what it has paid, that bounds how often each is chosen.
-/

namespace CppPractice
namespace Rotation

open Finset

variable {ι : Type*} [DecidableEq ι]

/-- One turn, in which `b` is chosen and the credits `c` become `c'`. -/
structure Turn (s : Finset ι) (w : ι → ℤ) (c : ι → ℤ) (b : ι) (c' : ι → ℤ) : Prop where
  mem : b ∈ s
  most : ∀ i ∈ s, c i + w i ≤ c b + w b
  paid : ∀ i ∈ s, c' i = c i + w i - if i = b then ∑ j ∈ s, w j else 0

/-- Turns in which those of a list are chosen one after another. -/
inductive Turns (s : Finset ι) (w : ι → ℤ) (c : ι → ℤ) : List ι → (ι → ℤ) → Prop
  | nil : Turns s w c [] c
  | concat {c' c'' : ι → ℤ} {bs : List ι} {b : ι} (hturns : Turns s w c bs c')
      (hturn : Turn s w c' b c'') : Turns s w c (bs ++ [b]) c''

/-- The credits are in balance. -/
structure Even (s : Finset ι) (w : ι → ℤ) (c : ι → ℤ) : Prop where
  sum : ∑ i ∈ s, c i = 0
  low : ∀ i ∈ s, -∑ j ∈ s, w j < c i

variable {s : Finset ι} {w : ι → ℤ} {c c' : ι → ℤ} {b : ι} {bs : List ι}

theorem Turn.sum (h : Turn s w c b c') : ∑ i ∈ s, c' i = ∑ i ∈ s, c i := by
  have hpaid : ∑ i ∈ s, c' i = ∑ i ∈ s, (c i + w i - if i = b then ∑ j ∈ s, w j else 0) :=
    sum_congr rfl h.paid
  rw [hpaid, sum_sub_distrib, sum_add_distrib, sum_ite_eq' s b, if_pos h.mem]
  ring

/-- Some credit is positive when all have earned, so the highest is. -/
theorem Turn.pos (h : Turn s w c b c') (hc : ∑ i ∈ s, c i = 0) (hw : 0 < ∑ i ∈ s, w i) :
    0 < c b + w b := by
  by_contra hle
  have hall : ∑ i ∈ s, (c i + w i) ≤ 0 :=
    sum_nonpos fun i hi => (h.most i hi).trans (not_lt.1 hle)
  rw [sum_add_distrib, hc, zero_add] at hall
  exact absurd hw (not_lt.2 hall)

theorem Turn.even (h : Turn s w c b c') (hc : Even s w c) (hw : ∀ i ∈ s, 0 ≤ w i)
    (hpos : 0 < ∑ i ∈ s, w i) : Even s w c' := by
  refine ⟨h.sum.trans hc.sum, ?_⟩
  intro i hi
  rw [h.paid i hi]
  by_cases hib : i = b
  · rw [if_pos hib, hib]
    have hb := h.pos hc.sum hpos
    linarith
  · rw [if_neg hib]
    have hlow := hc.low i hi
    have hearned := hw i hi
    linarith

theorem Turns.even (h : Turns s w c bs c') (hc : Even s w c) (hw : ∀ i ∈ s, 0 ≤ w i)
    (hpos : 0 < ∑ i ∈ s, w i) : Even s w c' := by
  induction h with
  | nil => exact hc
  | concat _ hturn ih => exact hturn.even ih hw hpos

/-- A credit is what has been earned less what has been paid. -/
theorem Turns.credit (h : Turns s w c bs c') {i : ι} (hi : i ∈ s) :
    c' i = c i + bs.length * w i - bs.count i * ∑ j ∈ s, w j := by
  induction h with
  | nil => simp
  | @concat c' c'' bs b _ hturn ih =>
      rw [hturn.paid i hi, ih, List.count_append, List.length_append, List.count_singleton]
      by_cases hib : i = b
      · rw [if_pos hib, hib, beq_self_eq_true, if_pos rfl]
        push_cast [List.length_singleton]
        ring
      · rw [if_neg hib, if_neg (by simpa using Ne.symm hib)]
        push_cast [List.length_singleton]
        ring

theorem Turns.mem (h : Turns s w c bs c') : ∀ i ∈ bs, i ∈ s := by
  induction h with
  | nil => exact fun i hi => absurd hi List.not_mem_nil
  | concat _ hturn ih =>
      intro i hi
      rcases List.mem_append.1 hi with hi | hi
      · exact ih i hi
      · rw [List.mem_singleton.1 hi]
        exact hturn.mem

/-- Every turn is someone's. -/
theorem sum_count (hbs : ∀ i ∈ bs, i ∈ s) : ∑ i ∈ s, (bs.count i : ℤ) = bs.length := by
  induction bs with
  | nil => simp
  | cons b bs ih =>
      have hb : b ∈ s := hbs b List.mem_cons_self
      simp only [List.count_cons, Nat.cast_add, sum_add_distrib, List.length_cons]
      rw [ih fun i hi => hbs i (List.mem_cons_of_mem b hi)]
      congr 1
      simp [hb]

section

variable (h : Turns s w c bs c') (hstart : ∀ i ∈ s, c i = 0) (hw : ∀ i ∈ s, 0 ≤ w i)
  (hpos : 0 < ∑ i ∈ s, w i)

include h hstart hw hpos

/-- Nobody is ever a whole turn ahead of its share. -/
theorem Turns.count_lt {i : ι} (hi : i ∈ s) :
    bs.count i * ∑ j ∈ s, w j < bs.length * w i + ∑ j ∈ s, w j := by
  have heven : Even s w c := by
    refine ⟨sum_eq_zero hstart, fun j hj => ?_⟩
    rw [hstart j hj]
    exact neg_neg_of_pos hpos
  have hlow := (h.even heven hw hpos).low i hi
  rw [h.credit hi, hstart i hi] at hlow
  linarith

/-- After whole rounds everyone has had its share, and the credits are back where they were. -/
theorem Turns.count_eq (hround : ∑ j ∈ s, w j ∣ (bs.length : ℤ)) {i : ι} (hi : i ∈ s) :
    bs.count i * ∑ j ∈ s, w j = bs.length * w i ∧ c' i = 0 := by
  rcases hround with ⟨k, hk⟩
  have hle : ∀ j ∈ s, (bs.count j : ℤ) ≤ k * w j := by
    intro j hj
    have hlt := h.count_lt hstart hw hpos hj
    rw [hk] at hlt
    by_contra hgt
    have hgt : k * w j + 1 ≤ bs.count j := by omega
    nlinarith [mul_le_mul_of_nonneg_right hgt hpos.le]
  -- The shares sum to all the turns, so none of them is missed.
  have hsum : ∑ j ∈ s, (k * w j - bs.count j) = 0 := by
    rw [sum_sub_distrib, ← mul_sum, sum_count h.mem, hk]
    ring
  have hzero := (sum_eq_zero_iff_of_nonneg fun j hj => sub_nonneg.2 (hle j hj)).1 hsum i hi
  have hcount : (bs.count i : ℤ) = k * w i := by omega
  have heq : bs.count i * ∑ j ∈ s, w j = bs.length * w i := by
    rw [hcount, hk]
    ring
  refine ⟨heq, ?_⟩
  rw [h.credit hi, hstart i hi, heq]
  ring

end

end Rotation
end CppPractice
