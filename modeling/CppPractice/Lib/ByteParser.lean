import Mathlib.Tactic.TypeStar

/-!
# ByteParser — parsers that read from a buffer where they like

A read outside the buffer is not an error of the parser, it has no meaning.  `Ensures x Q` says that the
parser `x` does not read outside and that what it returns, if it returns, is in `Q`.
-/

namespace CppPractice
namespace ByteParser

inductive Stop (ε : Type*)
  /-- The parser gives up. -/
  | fails (e : ε)
  /-- It reads outside the buffer. -/
  | outside
  deriving DecidableEq, Repr

end ByteParser

/-- A parser that has read, or stopped. -/
abbrev ByteParser (ε : Type*) (α : Type*) := Except (ByteParser.Stop ε) α

namespace ByteParser

universe u

variable {ε γ : Type*} {α β : Type u}

/-- `s[p]` -/
def read (s : List γ) (p : Nat) : ByteParser ε γ :=
  match s[p]? with
  | some b => .ok b
  | none => .error .outside

def fail (e : ε) : ByteParser ε α := .error (.fails e)

def Ensures (x : ByteParser ε α) (Q : α → Prop) : Prop :=
  match x with
  | .ok a => Q a
  | .error (.fails _) => True
  | .error .outside => False

theorem read_eq {s : List γ} {p : Nat} {b : γ} (h : s[p]? = some b) : (read s p : ByteParser ε γ) = .ok b := by
  rw [read, h]

theorem ok_bind (a : α) (f : α → ByteParser ε β) : ((.ok a : ByteParser ε α) >>= f) = f a := rfl

namespace Ensures

variable {x : ByteParser ε α} {f : α → ByteParser ε β} {P Q : α → Prop} {R : β → Prop}

theorem ne_outside (h : Ensures x Q) : x ≠ .error .outside := by
  rintro rfl
  exact h

theorem ok {a : α} (h : Q a) : Ensures (.ok a : ByteParser ε α) Q := h

theorem pure {a : α} (h : Q a) : Ensures (Pure.pure a : ByteParser ε α) Q := h

theorem fail (e : ε) : Ensures (ByteParser.fail e : ByteParser ε α) Q := trivial

theorem read {s : List γ} {p : Nat} (h : p < s.length) :
    Ensures (ByteParser.read s p : ByteParser ε γ) fun b => s[p]? = some b := by
  have hget := List.getElem?_eq_getElem h
  rw [ByteParser.read, hget]
  rfl

theorem bind (h : Ensures x P) (hf : ∀ a, P a → Ensures (f a) R) : Ensures (x >>= f) R := by
  cases x with
  | ok a => exact hf a h
  | error stop =>
      cases stop with
      | fails e => exact trivial
      | outside => exact h.elim

theorem mono (h : Ensures x P) (hPQ : ∀ a, P a → Q a) : Ensures x Q := by
  cases x with
  | ok a => exact hPQ a h
  | error stop =>
      cases stop with
      | fails e => exact trivial
      | outside => exact h.elim

theorem ite {c : Prop} [Decidable c] {y : ByteParser ε α} (hx : c → Ensures x Q) (hy : ¬c → Ensures y Q) :
    Ensures (if c then x else y) Q := by
  split
  case isTrue h => exact hx h
  case isFalse h => exact hy h

end Ensures

end ByteParser
end CppPractice
