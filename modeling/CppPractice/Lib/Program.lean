import Mathlib.Data.Prod.Basic
import Mathlib.Tactic.TypeStar

/-!
# Program — imperative programs with exceptions, blocking and undefined behaviour

A program over a mutable state `σ` ends in one of four ways: it returns, it throws, it waits for
ever, or it leaves the language's semantics.  Whatever the program changed before an exception
stays changed, as in C++.

`Yields P p o Q` is the judgment used for such programs when the outcome is determined by the
precondition: from every state in `P` the run of `p` ends with exactly `o`, in a state of `Q`.
-/

namespace CppPractice
namespace Program

/-- Why a run ended without returning. -/
inductive Halt (ε : Type*)
  | throws (e : ε)
  | blocks
  | undefined
  deriving DecidableEq, Repr

/-- How a run ended. -/
inductive Outcome (ε α : Type*)
  | returns (a : α)
  | halts (h : Halt ε)
  deriving DecidableEq, Repr

/-- A program over the state `σ`; the state is kept whatever the outcome is. -/
def Prog (ε σ α : Type*) := σ → Outcome ε α × σ

universe u

variable {ε σ τ ρ : Type*} {α β : Type u}

namespace Prog

/-- Stop the run for the reason `h`. -/
def halt (h : Halt ε) : Prog ε σ α := fun s => (.halts h, s)

def throw (e : ε) : Prog ε σ α := halt (.throws e)

def get : Prog ε σ σ := fun s => (.returns s, s)

def modify (f : σ → σ) : Prog ε σ Unit := fun s => (.returns (), f s)

/-- Sequencing: the second program runs only when the first one returned. -/
def seq (p : Prog ε σ α) (f : α → Prog ε σ β) : Prog ε σ β := fun s =>
  match p s with
  | (.returns a, s') => f a s'
  | (.halts h, s') => (.halts h, s')

instance : Monad (Prog ε σ) where
  pure a := fun s => (.returns a, s)
  bind := seq

/-- Run `p` with a fresh local container `init` in place of the caller's; the caller's is untouched
and the final local one is returned beside the result. -/
def withLocal (init : τ) (p : Prog ε (σ × τ) α) : Prog ε (σ × ρ) (α × τ) := fun s =>
  match p (s.1, init) with
  | (.returns a, s') => (.returns (a, s'.2), (s'.1, s.2))
  -- an exception destroys the local container and keeps what happened to the rest
  | (.halts h, s') => (.halts h, (s'.1, s.2))

/-- Run `p`; where the run has no meaning, neither has the state it leaves, and the old one is kept. -/
def meaningful (p : Prog ε σ α) : Prog ε σ α := fun s =>
  match p s with
  | (.halts .undefined, _) => (.halts .undefined, s)
  | r => r

@[simp] theorem pure_apply (a : α) (s : σ) : (pure a : Prog ε σ α) s = (.returns a, s) := rfl

@[simp] theorem halt_apply (h : Halt ε) (s : σ) : (halt h : Prog ε σ α) s = (.halts h, s) := rfl

theorem bind_returns {p : Prog ε σ α} {f : α → Prog ε σ β} {s s' : σ} {a : α}
    (h : p s = (.returns a, s')) : (p >>= f) s = f a s' := by
  change seq p f s = _
  simp [seq, h]

theorem bind_halts {p : Prog ε σ α} {f : α → Prog ε σ β} {s s' : σ} {r : Halt ε}
    (h : p s = (.halts r, s')) : (p >>= f) s = (.halts r, s') := by
  change seq p f s = _
  simp [seq, h]

theorem get_bind {σ : Type u} (f : σ → Prog ε σ α) (s : σ) : (get >>= f) s = f s s := rfl

theorem withLocal_returns {p : Prog ε (σ × τ) α} {init : τ} {s : σ × ρ} {s' : σ × τ} {a : α}
    (h : p (s.1, init) = (.returns a, s')) :
    withLocal init p s = (.returns (a, s'.2), (s'.1, s.2)) := by
  simp [withLocal, h]

theorem withLocal_halts {p : Prog ε (σ × τ) α} {init : τ} {s : σ × ρ} {s' : σ × τ} {r : Halt ε}
    (h : p (s.1, init) = (.halts r, s')) :
    withLocal init p s = (.halts r, (s'.1, s.2)) := by
  simp [withLocal, h]

theorem meaningful_returns {p : Prog ε σ α} {s s' : σ} {a : α} (h : p s = (.returns a, s')) :
    meaningful p s = (.returns a, s') := by
  simp [meaningful, h]

theorem meaningful_undefined {p : Prog ε σ α} {s : σ} (h : (p s).1 = .halts .undefined) :
    meaningful p s = (.halts .undefined, s) := by
  rcases hp : p s with ⟨o, s'⟩
  obtain rfl : o = .halts .undefined := by rw [← h, hp]
  simp [meaningful, hp]

end Prog

/-! ## The judgment -/

/-- From every state in `P`, the run of `p` ends with the outcome `o` in a state of `Q`. -/
def Yields (P : σ → Prop) (p : Prog ε σ α) (o : Outcome ε α) (Q : σ → Prop) : Prop :=
  ∀ s, P s → (p s).1 = o ∧ Q (p s).2

namespace Yields

/-- The run of a program in the judgment, as an equation. -/
theorem run_eq {P Q : σ → Prop} {p : Prog ε σ α} {o : Outcome ε α} (h : Yields P p o Q) {s : σ}
    (hs : P s) : p s = (o, (p s).2) :=
  Prod.ext (h s hs).1 rfl

variable {P Q R : σ → Prop} {p : Prog ε σ α} {f : α → Prog ε σ β} {o : Outcome ε β}

theorem pure (a : α) : Yields P (Pure.pure a : Prog ε σ α) (.returns a) P := by
  intro s hs
  exact ⟨rfl, hs⟩

theorem halt (h : Halt ε) : Yields P (Prog.halt h : Prog ε σ α) (.halts h) P := by
  intro s hs
  exact ⟨rfl, hs⟩

theorem throw (e : ε) : Yields P (Prog.throw e : Prog ε σ α) (.halts (.throws e)) P :=
  halt _

theorem modify {g : σ → σ} (h : ∀ s, P s → Q (g s)) :
    Yields P (Prog.modify g : Prog ε σ Unit) (.returns ()) Q := by
  intro s hs
  exact ⟨rfl, h s hs⟩

theorem bind {a : α} (hp : Yields P p (.returns a) R) (hf : Yields R (f a) o Q) :
    Yields P (p >>= f) o Q := by
  intro s hs
  rw [Prog.bind_returns (hp.run_eq hs)]
  exact hf _ (hp s hs).2

theorem bind_halts {h : Halt ε} (hp : Yields P p (.halts h) Q) :
    Yields P (p >>= f) (.halts h) Q := by
  intro s hs
  rw [Prog.bind_halts (hp.run_eq hs)]
  exact ⟨rfl, (hp s hs).2⟩

/-- A program run on a fresh local container leaves the caller's container alone. -/
theorem withLocal {P Q : σ → Prop} {init final : τ} {q : Prog ε (σ × τ) α} {a : α}
    (h : Yields (fun s => P s.1 ∧ s.2 = init) q (.returns a) (fun s => Q s.1 ∧ s.2 = final))
    (out : ρ) :
    Yields (fun s => P s.1 ∧ s.2 = out) (Prog.withLocal init q) (.returns (a, final))
      (fun s => Q s.1 ∧ s.2 = out) := by
  intro s hs
  have hinit : P s.1 ∧ init = init := ⟨hs.1, rfl⟩
  rcases h (s.1, init) hinit with ⟨-, hQ, hfinal⟩
  rw [Prog.withLocal_returns (h.run_eq hinit), hfinal]
  exact ⟨rfl, hQ, hs.2⟩

theorem withLocal_halts {P Q : σ → Prop} {init final : τ} {q : Prog ε (σ × τ) α}
    {r : Halt ε}
    (h : Yields (fun s => P s.1 ∧ s.2 = init) q (.halts r) (fun s => Q s.1 ∧ s.2 = final))
    (out : ρ) :
    Yields (fun s => P s.1 ∧ s.2 = out) (Prog.withLocal init q) (.halts r)
      (fun s => Q s.1 ∧ s.2 = out) := by
  intro s hs
  have hinit : P s.1 ∧ init = init := ⟨hs.1, rfl⟩
  rcases h (s.1, init) hinit with ⟨-, hQ, -⟩
  rw [Prog.withLocal_halts (h.run_eq hinit)]
  exact ⟨rfl, hQ, hs.2⟩

end Yields

end Program
end CppPractice
