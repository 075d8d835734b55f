import Mathlib.Data.List.TakeWhile
import Mathlib.Logic.Function.Basic

/-!
# CharHeap — C strings in a heap of arrays

A heap of arrays of characters, numbered as they are made, and the functions of `string.h` on it.  A read or
a write that is not inside of an array that is there fails, and so does a copy between strings that overlap,
which C leaves undefined.  What a new array contains is arbitrary.

`CString h p xs` says that `p` points to the string `xs`.  `push` and `drop` are the two changes of a heap
that are left when the functions have done their work: a new array with its contents, and one that is gone.
-/

namespace CppPractice

/-- The arrays, those below `brk` having been made; `none` for one that has been deleted. -/
@[ext]
structure CharHeap (α : Type) where
  block : Nat → Option (List α)
  brk : Nat
  raw : Nat → Nat → α

structure CharPtr where
  block : Nat
  offset : Nat

namespace CharHeap

variable {α : Type}

def put (x : Nat) (cs : List α) (h : CharHeap α) : CharHeap α :=
  { h with block := Function.update h.block x (some cs) }

/-- A new array that contains `cs`. -/
def push (cs : List α) (h : CharHeap α) : CharHeap α :=
  { h with block := Function.update h.block h.brk (some cs), brk := h.brk + 1 }

def drop (x : Nat) (h : CharHeap α) : CharHeap α :=
  { h with block := Function.update h.block x none }

/-- `new char[n]` -/
def newArray (n : Nat) (h : CharHeap α) : Nat × CharHeap α :=
  (h.brk, h.push ((List.range n).map (h.raw h.brk)))

/-- `delete[]` -/
def deleteArray (x : Nat) (h : CharHeap α) : Option (CharHeap α) :=
  if (h.block x).isSome then some (h.drop x) else none

/-- The characters from the pointer to the end of its array. -/
def behind (p : CharPtr) (h : CharHeap α) : Option (List α) :=
  match h.block p.block with
  | some cs => if p.offset ≤ cs.length then some (cs.drop p.offset) else none
  | none => none

/-- The characters `cs` from the pointer on. -/
def write (p : CharPtr) (cs : List α) (h : CharHeap α) : Option (CharHeap α) :=
  match h.block p.block with
  | some old =>
      if p.offset + cs.length ≤ old.length then
        some (h.put p.block (old.take p.offset ++ (cs ++ old.drop (p.offset + cs.length))))
      else
        none
  | none => none

section strings

variable [Zero α] [DecidableEq α]

/-- The string that starts at the pointer; none where the array has no NUL from there on. -/
def stringAt (p : CharPtr) (h : CharHeap α) : Option (List α) :=
  match h.behind p with
  | some cs => if 0 ∈ cs then some (cs.takeWhile (· ≠ 0)) else none
  | none => none

def strlen (p : CharPtr) (h : CharHeap α) : Option Nat := (h.stringAt p).map List.length

/-- The first `n` characters from the two pointers have a place in common. -/
def Overlap (p q : CharPtr) (n : Nat) : Prop :=
  p.block = q.block ∧ p.offset < q.offset + n ∧ q.offset < p.offset + n

instance (p q : CharPtr) (n : Nat) : Decidable (Overlap p q n) :=
  inferInstanceAs (Decidable (_ ∧ _ ∧ _))

def strcpy (dst src : CharPtr) (h : CharHeap α) : Option (CharHeap α) := do
  let xs ← h.stringAt src
  if Overlap dst src (xs.length + 1) then none else h.write dst (xs ++ [0])

def strcat (dst src : CharPtr) (h : CharHeap α) : Option (CharHeap α) := do
  let n ← h.strlen dst
  h.strcpy ⟨dst.block, dst.offset + n⟩ src

/-- `p` points to the string `xs`. -/
def CString (h : CharHeap α) (p : CharPtr) (xs : List α) : Prop := h.stringAt p = some xs

end strings

/-! ## Arrays -/

section arrays

variable {h : CharHeap α} {p : CharPtr} {cs old : List α} {x y : Nat}

/-- Nothing is where the arrays to come will be. -/
def Fresh (h : CharHeap α) : Prop := ∀ x, h.brk ≤ x → h.block x = none

theorem Fresh.lt_brk (hf : h.Fresh) (hx : h.block x = some cs) : x < h.brk := by
  apply Nat.lt_of_not_le
  intro hle
  rw [hf x hle] at hx
  cases hx

@[simp] theorem brk_push (cs : List α) (h : CharHeap α) : (h.push cs).brk = h.brk + 1 := rfl

@[simp] theorem brk_drop (x : Nat) (h : CharHeap α) : (h.drop x).brk = h.brk := rfl

@[simp] theorem block_push_self (cs : List α) (h : CharHeap α) : (h.push cs).block h.brk = some cs := by
  simp [CharHeap.push]

theorem block_push_of_ne (hx : x ≠ h.brk) (cs : List α) : (h.push cs).block x = h.block x := by
  simp [CharHeap.push, hx]

@[simp] theorem block_drop_self (x : Nat) (h : CharHeap α) : (h.drop x).block x = none := by
  simp [CharHeap.drop]

theorem block_drop_of_ne (hy : y ≠ x) : (h.drop x).block y = h.block y := by
  simp [CharHeap.drop, hy]

theorem Fresh.push (hf : h.Fresh) (cs : List α) : (h.push cs).Fresh := by
  intro x hx
  rw [block_push_of_ne (Nat.ne_of_gt hx)]
  exact hf x (Nat.le_of_succ_le hx)

theorem Fresh.drop (hf : h.Fresh) (x : Nat) : (h.drop x).Fresh := by
  intro y hy
  by_cases hyx : y = x
  · rw [hyx, block_drop_self]
  · rw [block_drop_of_ne hyx]
    exact hf y hy

theorem block_push (hf : h.Fresh) (hx : h.block x = some old) (cs : List α) :
    (h.push cs).block x = some old := by
  rw [block_push_of_ne (Nat.ne_of_lt (hf.lt_brk hx)), hx]

theorem deleteArray_eq (hx : h.block x = some cs) : h.deleteArray x = some (h.drop x) := by
  simp [deleteArray, hx]

/-- An array is deleted before another is made, or after. -/
theorem drop_push (hx : x ≠ h.brk) (cs : List α) : (h.push cs).drop x = (h.drop x).push cs := by
  simp [CharHeap.push, CharHeap.drop, Function.update_comm hx]

/-- A write to the array that was made last is as if it had been made with other contents. -/
theorem write_push (cs old : List α) (o : Nat) (h : CharHeap α) : (h.push old).write ⟨h.brk, o⟩ cs =
    if o + cs.length ≤ old.length then some (h.push (old.take o ++ (cs ++ old.drop (o + cs.length))))
    else none := by
  simp [CharHeap.write, CharHeap.put, CharHeap.push]

theorem behind_push (hf : h.Fresh) (hp : h.behind p = some cs) (new : List α) :
    (h.push new).behind p = some cs := by
  rw [behind] at hp ⊢
  split at hp
  case h_1 old hold => rwa [block_push hf hold]
  case h_2 => cases hp

theorem behind_drop (hne : p.block ≠ x) : (h.drop x).behind p = h.behind p := by
  rw [behind, behind, block_drop_of_ne hne]

theorem behind_dropped (hp : p.block = x) : (h.drop x).behind p = none := by
  simp [behind, CharHeap.drop, hp]

end arrays

/-! ## Strings -/

section strings

variable [Zero α] [DecidableEq α] {h : CharHeap α} {p q : CharPtr} {xs ys cs : List α} {x y : Nat}

theorem takeWhile_string (hxs : (0 : α) ∉ xs) (cs : List α) :
    (xs ++ 0 :: cs).takeWhile (· ≠ 0) = xs := by
  have hall : ∀ c ∈ xs, decide (c ≠ 0) = true := by
    intro c hc
    rw [decide_eq_true_eq]
    exact fun h => hxs (h ▸ hc)
  rw [List.takeWhile_append_of_pos hall, List.takeWhile_cons_of_neg (by simp), List.append_nil]

/-- A string that starts where the array does. -/
theorem cString_of_block (hx : h.block x = some (xs ++ 0 :: cs)) (hxs : 0 ∉ xs) :
    h.CString ⟨x, 0⟩ xs := by
  rw [CString, stringAt, behind, hx]
  simp only [Nat.zero_le, if_true, List.drop_zero]
  rw [if_pos (by simp), takeWhile_string hxs]

theorem CString.behind_eq (hp : h.CString p xs) :
    ∃ cs, h.behind p = some cs ∧ 0 ∈ cs ∧ cs.takeWhile (· ≠ 0) = xs := by
  rw [CString, stringAt] at hp
  split at hp
  case h_1 cs hcs =>
    split at hp
    case isTrue hzero => exact ⟨cs, hcs, hzero, Option.some.inj hp⟩
    case isFalse => cases hp
  case h_2 => cases hp

theorem cString_of_behind (hcs : h.behind p = some cs) (hzero : 0 ∈ cs) :
    h.CString p (cs.takeWhile (· ≠ 0)) := by
  rw [CString, stringAt, hcs]
  exact if_pos hzero

theorem CString.zero_notMem (hp : h.CString p xs) : 0 ∉ xs := by
  rcases hp.behind_eq with ⟨cs, -, -, rfl⟩
  intro hmem
  simpa using List.mem_takeWhile_imp hmem

theorem CString.push (hf : h.Fresh) (hp : h.CString p xs) (new : List α) : (h.push new).CString p xs := by
  rcases hp.behind_eq with ⟨cs, hcs, hzero, rfl⟩
  exact cString_of_behind (behind_push hf hcs new) hzero

theorem CString.drop (hp : h.CString p xs) (hne : p.block ≠ x) : (h.drop x).CString p xs := by
  rcases hp.behind_eq with ⟨cs, hcs, hzero, rfl⟩
  exact cString_of_behind ((behind_drop hne).trans hcs) hzero

theorem stringAt_dropped (hp : p.block = x) : (h.drop x).stringAt p = none := by
  rw [stringAt, behind_dropped hp]

theorem CString.strlen (hp : h.CString p xs) : h.strlen p = some xs.length := by
  rw [CharHeap.strlen, hp]
  rfl

/-- The block of a string is there. -/
theorem CString.block_lt (hf : h.Fresh) (hp : h.CString p xs) : p.block < h.brk := by
  rcases hp.behind_eq with ⟨cs, hcs, -⟩
  rw [behind] at hcs
  split at hcs
  case h_1 old hold => exact hf.lt_brk hold
  case h_2 => cases hcs

/-- A copy to the array that was made last, at a place in it. -/
theorem strcpy_push (hf : h.Fresh) (hp : h.CString p xs) (old : List α) (o : Nat) :
    (h.push old).strcpy ⟨h.brk, o⟩ p =
      if o + (xs.length + 1) ≤ old.length then
        some (h.push (old.take o ++ (xs ++ 0 :: old.drop (o + (xs.length + 1)))))
      else none := by
  -- the source is in an array that was made before
  have hapart : ¬ Overlap ⟨h.brk, o⟩ p (xs.length + 1) := by
    rintro ⟨hblock, -⟩
    exact Nat.ne_of_gt (hp.block_lt hf) hblock
  rw [strcpy, hp.push hf old]
  simp only [Option.bind_eq_bind, Option.bind_some, if_neg hapart, write_push, List.length_append,
    List.length_singleton, List.append_assoc, List.singleton_append]

/-- Where the array that was made last has a string, another is put behind that. -/
theorem strcat_push (hf : h.Fresh) (hxs : 0 ∉ xs) (hq : h.CString q ys) (cs : List α) :
    (h.push (xs ++ 0 :: cs)).strcat ⟨h.brk, 0⟩ q =
      if ys.length ≤ cs.length then some (h.push (xs ++ (ys ++ 0 :: cs.drop ys.length))) else none := by
  have hstring : (h.push (xs ++ 0 :: cs)).CString ⟨h.brk, 0⟩ xs :=
    cString_of_block (block_push_self _ h) hxs
  rw [strcat, hstring.strlen]
  simp only [Option.bind_eq_bind, Option.bind_some, Nat.zero_add]
  rw [strcpy_push hf hq]
  have hroom : xs.length + (ys.length + 1) ≤ (xs ++ 0 :: cs).length ↔ ys.length ≤ cs.length := by
    rw [List.length_append, List.length_cons]
    omega
  have hrest : (xs ++ 0 :: cs).drop (xs.length + (ys.length + 1)) = cs.drop ys.length := by
    rw [← List.drop_drop, List.drop_left, List.drop_succ_cons]
  simp only [hroom, hrest, List.take_left]

/-- A string cannot be put behind itself: the copy would begin at its own NUL. -/
theorem strcat_self (hp : h.CString p xs) : h.strcat p p = none := by
  have hoverlap : Overlap ⟨p.block, p.offset + xs.length⟩ p (xs.length + 1) :=
    ⟨rfl, Nat.lt_succ_self _, by dsimp only; omega⟩
  rw [strcat, hp.strlen]
  simp only [Option.bind_eq_bind, Option.bind_some]
  rw [strcpy, hp]
  exact if_pos hoverlap

end strings

end CharHeap
end CppPractice
