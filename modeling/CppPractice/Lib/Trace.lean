import Mathlib.Data.List.Induction

/-!
# Trace — runs of a step function on a sequence of inputs

A system that is deterministic once its inputs are given: a step takes a state and an input to the next
state.  `Along step P s as` says that every step of the run on `as` from `s` meets `P`, which sees the
state before the step and its input.

`along_iff_along` is the rule for exact conditions: where an invariant makes a property of one step
equivalent to a condition, and the condition keeps the invariant, the runs that have the property
throughout are the runs that meet the condition throughout.
-/

namespace CppPractice
namespace Trace

variable {S A : Type*}

def run (step : S → A → S) (s : S) (as : List A) : S := as.foldl step s

/-- Every step of the run on `as` from `s` meets `P`. -/
def Along (step : S → A → S) (P : S → A → Prop) (s : S) (as : List A) : Prop :=
  ∀ before a after, as = before ++ a :: after → P (run step s before) a

variable {step : S → A → S} {P Q : S → A → Prop}

@[simp] theorem run_nil (s : S) : run step s [] = s := rfl

@[simp] theorem run_cons (s : S) (a : A) (as : List A) :
    run step s (a :: as) = run step (step s a) as := rfl

theorem along_nil (s : S) : Along step P s [] := by
  intro before a after h
  simp at h

theorem along_cons {s : S} {a : A} {as : List A} :
    Along step P s (a :: as) ↔ P s a ∧ Along step P (step s a) as := by
  constructor
  · intro h
    refine ⟨h [] a as rfl, ?_⟩
    intro before b after has
    exact h (a :: before) b after (by rw [has, List.cons_append])
  · rintro ⟨hhead, htail⟩ before b after h
    cases before with
    | nil =>
        rcases List.cons.inj h with ⟨rfl, rfl⟩
        exact hhead
    | cons c before =>
        rcases List.cons.inj h with ⟨rfl, hrest⟩
        exact htail before b after hrest

theorem run_concat (s : S) (as : List A) (a : A) :
    run step s (as ++ [a]) = step (run step s as) a := by
  simp [run]

/-- What the steps under a condition keep, with the inputs so far in sight, holds at every moment of a
run under it. -/
theorem history_of_along {J : List A → S → Prop}
    (hkept : ∀ seen s a, J seen s → P s a → J (seen ++ [a]) (step s a)) {s : S} {as : List A}
    (hs : J [] s) (h : Along step P s as) :
    ∀ before after, as = before ++ after → J before (run step s before) := by
  intro before
  induction before using List.reverseRecOn with
  | nil =>
      intro after _
      exact hs
  | append_singleton before a ih =>
      intro after has
      have has' : as = before ++ a :: after := by rw [has, List.append_assoc, List.singleton_append]
      rw [run_concat]
      exact hkept before _ a (ih (a :: after) has') (h before a after has')

variable {J : S → Prop}

/-- What the steps under a condition keep holds at the end of a run under it. -/
theorem run_of_along (hkept : ∀ s a, J s → P s a → J (step s a)) {s : S} {as : List A} (hs : J s)
    (h : Along step P s as) : J (run step s as) := by
  induction as generalizing s with
  | nil => exact hs
  | cons a as ih =>
      rcases along_cons.1 h with ⟨ha, has⟩
      exact ih (hkept s a hs ha) has

/-- A property that is exactly a condition at every state of the invariant holds all along the runs that
meet the condition all along, and no others. -/
theorem along_iff_along (hkept : ∀ s a, J s → P s a → J (step s a))
    (hexact : ∀ s a, J s → (Q s a ↔ P s a)) {s : S} {as : List A} (hs : J s) :
    Along step Q s as ↔ Along step P s as := by
  -- The first step that misses the condition misses the property: up to it the invariant has held.
  induction as generalizing s with
  | nil => exact iff_of_true (along_nil s) (along_nil s)
  | cons a as ih =>
      have hhead : Q s a ↔ P s a := hexact s a hs
      constructor
      · intro h
        rcases along_cons.1 h with ⟨ha, has⟩
        have hP : P s a := hhead.1 ha
        exact along_cons.2 ⟨hP, (ih (hkept s a hs hP)).1 has⟩
      · intro h
        rcases along_cons.1 h with ⟨ha, has⟩
        exact along_cons.2 ⟨hhead.2 ha, (ih (hkept s a hs ha)).2 has⟩

/-! ## Steps that can fail -/

/-- Where a step from a state of the invariant, on an input that is allowed, succeeds and keeps the
invariant, every run on allowed inputs succeeds. -/
theorem exists_foldlM {step : S → A → Option S} {J : S → Prop} {C : A → Prop}
    (hstep : ∀ s a, J s → C a → ∃ t, step s a = some t ∧ J t) {s : S} {as : List A} (hs : J s)
    (has : ∀ a ∈ as, C a) : ∃ t, as.foldlM step s = some t ∧ J t := by
  induction as generalizing s with
  | nil => exact ⟨s, rfl, hs⟩
  | cons a as ih =>
      rcases hstep s a hs (has a List.mem_cons_self) with ⟨t, ht, hJ⟩
      rcases ih hJ fun b hb => has b (List.mem_cons_of_mem a hb) with ⟨u, hu, hJu⟩
      refine ⟨u, ?_, hJu⟩
      rw [List.foldlM_cons, ht]
      exact hu

/-- Every step of the run on `as` from `s` is reached, and meets `P` there. -/
def AlongM (step : S → A → Option S) (P : S → A → Prop) (s : S) (as : List A) : Prop :=
  ∀ before a after, as = before ++ a :: after → ∃ t, before.foldlM step s = some t ∧ P t a

section Fallible

variable {step : S → A → Option S} {P Q : S → A → Prop} {J : S → Prop}

theorem alongM_nil (s : S) : AlongM step P s [] := by
  intro before a after h
  simp at h

theorem AlongM.head {s : S} {a : A} {as : List A} (h : AlongM step P s (a :: as)) : P s a := by
  rcases h [] a as rfl with ⟨t, ht, hP⟩
  cases ht
  exact hP

theorem alongM_cons {s t : S} {a : A} {as : List A} (hstep : step s a = some t) :
    AlongM step P s (a :: as) ↔ P s a ∧ AlongM step P t as := by
  constructor
  · intro h
    refine ⟨h.head, ?_⟩
    intro before b after has
    rcases h (a :: before) b after (by rw [has, List.cons_append]) with ⟨u, hu, hP⟩
    rw [List.foldlM_cons, hstep] at hu
    exact ⟨u, hu, hP⟩
  · rintro ⟨hhead, htail⟩ before b after h
    cases before with
    | nil =>
        rcases List.cons.inj h with ⟨rfl, rfl⟩
        exact ⟨s, rfl, hhead⟩
    | cons c before =>
        rcases List.cons.inj h with ⟨rfl, hrest⟩
        rcases htail before b after hrest with ⟨u, hu, hP⟩
        refine ⟨u, ?_, hP⟩
        rw [List.foldlM_cons, hstep]
        exact hu

/-- A run with a property that only steps that succeed have does not fail. -/
theorem AlongM.exists_foldlM (hP : ∀ s a, P s a → ∃ t, step s a = some t) {s : S} {as : List A}
    (h : AlongM step P s as) : ∃ t, as.foldlM step s = some t := by
  induction as generalizing s with
  | nil => exact ⟨s, rfl⟩
  | cons a as ih =>
      rcases hP s a h.head with ⟨t, ht⟩
      rw [List.foldlM_cons, ht]
      exact ih ((alongM_cons ht).1 h).2

/-- Every step of the run on `as` from `s` that is reached meets `P`. -/
def AlongReached (step : S → A → Option S) (P : S → A → Prop) (s : S) (as : List A) : Prop :=
  ∀ before a after t, as = before ++ a :: after → before.foldlM step s = some t → P t a

theorem alongReached_nil (s : S) : AlongReached step P s [] := by
  intro before a after t h
  simp at h

theorem alongReached_cons {s : S} {a : A} {as : List A} :
    AlongReached step P s (a :: as) ↔ P s a ∧ ∀ t, step s a = some t → AlongReached step P t as := by
  constructor
  · intro h
    refine ⟨h [] a as s rfl rfl, fun t ht before b after u has hu => ?_⟩
    refine h (a :: before) b after u (by rw [has, List.cons_append]) ?_
    rw [List.foldlM_cons, ht]
    exact hu
  · rintro ⟨hhead, htail⟩ before b after u h hu
    cases before with
    | nil =>
        rcases List.cons.inj h with ⟨rfl, rfl⟩
        cases hu
        exact hhead
    | cons c before =>
        rcases List.cons.inj h with ⟨rfl, hrest⟩
        rw [List.foldlM_cons] at hu
        rcases Option.bind_eq_some_iff.1 hu with ⟨t, ht, hu⟩
        exact htail t ht before b after u hrest hu

instance decidableAlongReached (step : S → A → Option S) (P : S → A → Prop) [∀ s a, Decidable (P s a)]
    (s : S) : (as : List A) → Decidable (AlongReached step P s as)
  | [] => isTrue (alongReached_nil s)
  | a :: as =>
      match hstep : step s a with
      | none =>
          decidable_of_iff (P s a) (by simp [alongReached_cons, hstep])
      | some t =>
          have := decidableAlongReached step P t as
          decidable_of_iff (P s a ∧ AlongReached step P t as) (by simp [alongReached_cons, hstep])

variable {V : S → A → Prop}

/-- `along_iff_along`, where the condition is also what a step needs to succeed, on inputs that are as they
have to be. -/
theorem alongM_iff_alongM_reached (hkept : ∀ s a, J s → V s a → P s a → ∃ t, step s a = some t ∧ J t)
    (hexact : ∀ s a, J s → V s a → (Q s a ↔ P s a)) {s : S} {as : List A} (hs : J s)
    (hV : AlongReached step V s as) : AlongM step Q s as ↔ AlongM step P s as := by
  induction as generalizing s with
  | nil => exact iff_of_true (alongM_nil s) (alongM_nil s)
  | cons a as ih =>
      rcases alongReached_cons.1 hV with ⟨ha, has⟩
      have hhead : Q s a ↔ P s a := hexact s a hs ha
      constructor
      · intro h
        have hP : P s a := hhead.1 h.head
        rcases hkept s a hs ha hP with ⟨t, ht, hJ⟩
        exact (alongM_cons ht).2 ⟨hP, (ih hJ (has t ht)).1 ((alongM_cons ht).1 h).2⟩
      · intro h
        rcases hkept s a hs ha h.head with ⟨t, ht, hJ⟩
        exact (alongM_cons ht).2 ⟨hhead.2 h.head, (ih hJ (has t ht)).2 ((alongM_cons ht).1 h).2⟩

theorem alongM_iff_alongM (hkept : ∀ s a, J s → P s a → ∃ t, step s a = some t ∧ J t)
    (hexact : ∀ s a, J s → (Q s a ↔ P s a)) {s : S} {as : List A} (hs : J s) :
    AlongM step Q s as ↔ AlongM step P s as :=
  alongM_iff_alongM_reached (V := fun _ _ => True) (fun s a hs _ => hkept s a hs)
    (fun s a hs _ => hexact s a hs) hs fun _ _ _ _ _ _ => trivial

/-- Where a step from a state of the invariant, on an input that is as it has to be, succeeds, meets `P` and
keeps the invariant, every run on such inputs succeeds and meets `P` all along. -/
theorem alongM_of_reached (hstep : ∀ s a, J s → V s a → P s a ∧ ∃ t, step s a = some t ∧ J t) {s : S}
    {as : List A} (hs : J s) (hV : AlongReached step V s as) : AlongM step P s as := by
  induction as generalizing s with
  | nil => exact alongM_nil s
  | cons a as ih =>
      rcases alongReached_cons.1 hV with ⟨ha, has⟩
      rcases hstep s a hs ha with ⟨hP, t, ht, hJ⟩
      exact (alongM_cons ht).2 ⟨hP, ih hJ (has t ht)⟩

/-- Where a step from a state of the invariant, on an input that is as it has to be, succeeds, keeps the
invariant and does to what is seen of the state what `next` says, so does every run on such inputs. -/
theorem exists_foldlM_seen {B : Type*} {seen : S → B} {next : B → A → B}
    (hstep : ∀ s a, J s → V s a → ∃ t, step s a = some t ∧ J t ∧ seen t = next (seen s) a) {s : S}
    {as : List A} (hs : J s) (hV : AlongReached step V s as) :
    ∃ t, as.foldlM step s = some t ∧ J t ∧ seen t = as.foldl next (seen s) := by
  induction as generalizing s with
  | nil => exact ⟨s, rfl, hs, rfl⟩
  | cons a as ih =>
      rcases alongReached_cons.1 hV with ⟨ha, has⟩
      rcases hstep s a hs ha with ⟨t, ht, hJ, hseen⟩
      rw [List.foldlM_cons, ht, List.foldl_cons, ← hseen]
      exact ih hJ (has t ht)

/-- Where a step from a state of the invariant, on an input that is as it has to be, succeeds and keeps the
invariant, every run on such inputs ends in a state of the invariant. -/
theorem exists_foldlM_reached (hstep : ∀ s a, J s → V s a → ∃ t, step s a = some t ∧ J t) {s : S}
    {as : List A} (hs : J s) (hV : AlongReached step V s as) : ∃ t, as.foldlM step s = some t ∧ J t := by
  -- nothing is seen of the states
  let view : S → Unit := fun _ => ()
  let next : Unit → A → Unit := fun _ _ => ()
  have hview : ∀ s a, J s → V s a → ∃ t, step s a = some t ∧ J t ∧ view t = next (view s) a :=
    fun s a hs ha => (hstep s a hs ha).imp fun t ht => ⟨ht.1, ht.2, rfl⟩
  rcases exists_foldlM_seen hview hs hV with ⟨t, ht, hJ, -⟩
  exact ⟨t, ht, hJ⟩

end Fallible

end Trace
end CppPractice
