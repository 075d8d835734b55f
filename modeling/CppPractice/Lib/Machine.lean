import Mathlib.Tactic.TypeStar

/-!
# Machine — labelled transition systems and their runs

A machine has initial states and labelled steps.  A run is the list of the steps taken, each with the
state it leads to, so that a statement about every state of a run is one about the members of that
list.

The two rules of use are `Invariant.run`, for what every step preserves, and `Run.kept_under`, for
what is preserved as long as the run stays inside a condition.
-/

namespace CppPractice

structure Machine (S A : Type*) where
  init : S → Prop
  step : S → A → S → Prop

namespace Machine

variable {S A : Type*} {M : Machine S A} {I : S → Prop}

/-- `M.Run s tr`: from `s` the machine can take the steps of `tr`. -/
inductive Run (M : Machine S A) : S → List (A × S) → Prop
  | nil (s : S) : Run M s []
  | cons {s t : S} {a : A} {tr : List (A × S)} (hstep : M.step s a t) (hrun : Run M t tr) :
      Run M s ((a, t) :: tr)

/-- The states of a run that starts in `s`. -/
def states (s : S) (tr : List (A × S)) : List S := s :: tr.map Prod.snd

/-- `I` holds at the start and is kept by every step. -/
structure Invariant (M : Machine S A) (I : S → Prop) : Prop where
  start : ∀ s, M.init s → I s
  kept : ∀ s a t, I s → M.step s a t → I t

/-- What the steps between states of `C` keep holds all along a run that stays in `C`. -/
theorem Run.kept_under {C : S → Prop}
    (hkept : ∀ s a t, I s → C s → C t → M.step s a t → I t) {s : S} {tr : List (A × S)}
    (h : M.Run s tr) (hs : I s) (hC : ∀ t ∈ states s tr, C t) : ∀ t ∈ states s tr, I t := by
  -- Over the run from its front; the head of the rest is the state the first step leads to.
  induction h with
  | nil s =>
      intro t ht
      cases List.mem_singleton.1 ht
      exact hs
  | @cons s t a tr hstep hrun ih =>
      have hCs : C s := hC s List.mem_cons_self
      have hCt : ∀ u ∈ states t tr, C u := fun u hu => hC u (List.mem_cons_of_mem s hu)
      have ht : I t := hkept s a t hs hCs (hCt t List.mem_cons_self) hstep
      intro u hu
      rcases List.mem_cons.1 hu with rfl | hu
      · exact hs
      · exact ih ht hCt u hu

theorem Invariant.run (hI : M.Invariant I) {s : S} {tr : List (A × S)} (hs : M.init s)
    (h : M.Run s tr) : ∀ t ∈ states s tr, I t := by
  refine h.kept_under (C := fun _ => True) ?_ (hI.start s hs) fun _ _ => trivial
  intro u a t hu _ _ hstep
  exact hI.kept u a t hu hstep

end Machine
end CppPractice
