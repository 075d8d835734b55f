import CppPractice.Lib.CharHeap
import CppPractice.Lib.Trace
import Mathlib.Data.UInt

/-!
# IotekString — strings that own their characters

A `String` has an array of its own, which its operators replace by another: they allocate, copy and delete,
each in an order of its own, with an operand that may be the object itself or point into its array.  Objects
are numbered as they are made; what fails is a step that uses an array that is not there, goes behind the
end of one, or throws.
-/

namespace CppPractice
namespace Ioteck

open CharHeap Trace

/-- The `String` objects: `mData` tells the arrays of those that are there, and `top` is the next one. -/
structure Strings where
  heap : CharHeap UInt8
  mData : Nat → Option Nat
  top : Nat

/-- `int length = n; new char[length + 1]`, which throws for a size that is negative. -/
def newChars (n : Nat) (h : CharHeap UInt8) : Option (Nat × CharHeap UInt8) :=
  let length := BitVec.ofNat 32 n
  let size := (length + 1).toInt
  if 0 ≤ size then some (h.newArray size.toNat) else none

/-- A new array with the string at `p`, as the constructors and assignments make it. -/
def duplicate (p : CharPtr) (h : CharHeap UInt8) : Option (Nat × CharHeap UInt8) := do
  let length ← h.strlen p
  let (x, h) ← newChars length h
  let h ← h.strcpy ⟨x, 0⟩ p
  return (x, h)

/-- The same for an argument that may be `NULL`. -/
def fromCString (str : Option CharPtr) (h : CharHeap UInt8) : Option (Nat × CharHeap UInt8) :=
  match str with
  | none => do
      let (x, h) := h.newArray 1
      let h ← h.write ⟨x, 0⟩ [0]
      return (x, h)
  | some p => duplicate p h

/-- The string that an argument of `const char*` points to; `NULL` stands for the empty one. -/
def argumentAt (h : CharHeap UInt8) : Option CharPtr → Option (List UInt8)
  | none => some []
  | some p => h.stringAt p

namespace Strings

def place (a x : Nat) (h : CharHeap UInt8) (s : Strings) : Strings :=
  { s with heap := h, mData := Function.update s.mData a (some x) }

/-- An object at `top`. -/
def placeNew (x : Nat) (h : CharHeap UInt8) (s : Strings) : Strings :=
  { s.place s.top x h with top := s.top + 1 }

/-- `String(const char*)` -/
def construct (str : Option CharPtr) (s : Strings) : Option Strings := do
  let (x, h) ← fromCString str s.heap
  return s.placeNew x h

/-- `String(const String&)` -/
def copy (other : Nat) (s : Strings) : Option Strings := do
  let o ← s.mData other
  let (x, h) ← duplicate ⟨o, 0⟩ s.heap
  return s.placeNew x h

/-- `~String` -/
def destroy (a : Nat) (s : Strings) : Option Strings := do
  let x ← s.mData a
  let h ← s.heap.deleteArray x
  return { s with heap := h, mData := Function.update s.mData a none }

/-- `operator=(const String&)` -/
def assign (a other : Nat) (s : Strings) : Option Strings :=
  if a = other then some s
  else do
    let x ← s.mData a
    let h ← s.heap.deleteArray x
    let o ← s.mData other
    let (x, h) ← duplicate ⟨o, 0⟩ h
    return s.place a x h

/-- `operator=(const char*)`, which deletes its array before it looks at the argument. -/
def assignC (a : Nat) (other : Option CharPtr) (s : Strings) : Option Strings := do
  let x ← s.mData a
  let h ← s.heap.deleteArray x
  let (x, h) ← fromCString other h
  return s.place a x h

/-- `operator+=(const String&)` -/
def append (a other : Nat) (s : Strings) : Option Strings := do
  let tmp ← s.mData a
  let n ← s.heap.strlen ⟨tmp, 0⟩
  let o ← s.mData other
  let m ← s.heap.strlen ⟨o, 0⟩
  let (x, h) ← newChars (n + m) s.heap
  let s := s.place a x h
  let h ← s.heap.strcpy ⟨x, 0⟩ ⟨tmp, 0⟩
  -- `other.m_data` again, which is the new array if the object is its own operand
  let o ← s.mData other
  let h ← h.strcat ⟨x, 0⟩ ⟨o, 0⟩
  let h ← h.deleteArray tmp
  return { s with heap := h }

/-- `operator+(const String&)`: `result` is the object that is returned. -/
def plus (a other : Nat) (s : Strings) : Option Strings := do
  let result := s.top
  let s ← s.construct none
  let s ← s.append result a
  s.append result other

/-- `operator+=(const char*)` -/
def appendC (a : Nat) (other : Option CharPtr) (s : Strings) : Option Strings := do
  let tmp := s.top
  let s ← s.construct other
  let s ← s.append a tmp
  s.destroy tmp

/-- `operator+(const char*)` -/
def plusC (a : Nat) (other : Option CharPtr) (s : Strings) : Option Strings := do
  let result := s.top
  let s ← s.copy a
  s.appendC result other

inductive Op
  | construct (str : Option CharPtr)
  | copy (other : Nat)
  | destroy (a : Nat)
  | assign (a other : Nat)
  | assignC (a : Nat) (other : Option CharPtr)
  | append (a other : Nat)
  | appendC (a : Nat) (other : Option CharPtr)
  | plus (a other : Nat)
  | plusC (a : Nat) (other : Option CharPtr)

def step (s : Strings) : Op → Option Strings
  | .construct str => s.construct str
  | .copy other => s.copy other
  | .destroy a => s.destroy a
  | .assign a other => s.assign a other
  | .assignC a other => s.assignC a other
  | .append a other => s.append a other
  | .appendC a other => s.appendC a other
  | .plus a other => s.plus a other
  | .plusC a other => s.plusC a other

/-! ## What the operations are for -/

/-- The string of an object, if it is there. -/
def content (s : Strings) (a : Nat) : Option (List UInt8) := do
  let x ← s.mData a
  s.heap.stringAt ⟨x, 0⟩

def argument (s : Strings) (str : Option CharPtr) : Option (List UInt8) := argumentAt s.heap str

/-- The object that an operation makes or changes. -/
def target (s : Strings) : Op → Nat
  | .construct _ | .copy _ | .plus _ _ | .plusC _ _ => s.top
  | .destroy a | .assign a _ | .assignC a _ | .append a _ | .appendC a _ => a

/-- What that object is then. -/
def value (s : Strings) : Op → Option (List UInt8)
  | .construct str => s.argument str
  | .copy other => s.content other
  | .destroy _ => none
  | .assign _ other => s.content other
  | .assignC _ other => s.argument other
  | .append a other => do return (← s.content a) ++ (← s.content other)
  | .appendC a other => do return (← s.content a) ++ (← s.argument other)
  | .plus a other => do return (← s.content a) ++ (← s.content other)
  | .plusC a other => do return (← s.content a) ++ (← s.argument other)

/-- The operands are objects that are there, and pointers to strings that are. -/
def Valid (s : Strings) : Op → Prop
  | .construct str => (s.argument str).isSome
  | .copy a | .destroy a => (s.content a).isSome
  | .assign a other | .append a other | .plus a other => (s.content a).isSome ∧ (s.content other).isSome
  | .assignC a other | .appendC a other | .plusC a other =>
      (s.content a).isSome ∧ (s.argument other).isSome

instance (s : Strings) : (op : Op) → Decidable (s.Valid op)
  | .construct _ | .copy _ | .destroy _ => inferInstanceAs (Decidable (_ = true))
  | .assign _ _ | .append _ _ | .plus _ _ => inferInstanceAs (Decidable (_ = true ∧ _ = true))
  | .assignC _ _ | .appendC _ _ | .plusC _ _ => inferInstanceAs (Decidable (_ = true ∧ _ = true))

/-- An array that is no object's in `s` is in `t` as it was, and what the objects of `t` have was theirs or is
new. -/
structure Frame (s t : Strings) : Prop where
  brk : s.heap.brk ≤ t.heap.brk
  owned : ∀ a x, t.mData a = some x → s.mData a = some x ∨ s.heap.brk ≤ x
  block : ∀ x < s.heap.brk, (∀ a, s.mData a ≠ some x) → t.heap.block x = s.heap.block x

/-- The object `a` is `v` now, and the others are what they were; every array has the length of its string
and one more. -/
structure Does (s t : Strings) (a : Nat) (v : Option (List UInt8)) : Prop where
  content : t.content = Function.update s.content a v
  sized : ∀ a x, t.mData a = some x → ∃ xs, t.heap.block x = some (xs ++ [0]) ∧ 0 ∉ xs
  frame : Frame s t

/-- The operation does to the strings what it is for, without a use of an array that is not there or of a
place outside of one. -/
def Intended (s : Strings) (op : Op) : Prop := ∃ t, step s op = some t ∧ Does s t (s.target op) (s.value op)

/-- No object is appended to itself, or assigned a string in its own array; and the length of the result and
one more is an `int`. -/
def Fits (s : Strings) (op : Op) : Prop :=
  (∀ xs, s.value op = some xs → xs.length + 1 < 2 ^ 31) ∧
    match op with
    | .assignC a (some p) => s.mData a ≠ some p.block
    | .append a other => a ≠ other
    | _ => True

end Strings

/-! ## New arrays -/

section arrays

variable {h : CharHeap UInt8} {p : CharPtr} {xs : List UInt8} {n : Nat}

theorem newChars_eq (hn : n + 1 < 2 ^ 31) (h : CharHeap UInt8) :
    newChars n h = some (h.newArray (n + 1)) := by
  have hnat : (BitVec.ofNat 32 n + 1).toNat = n + 1 := by
    rw [BitVec.toNat_add, BitVec.toNat_ofNat]
    simp
    omega
  have hint : (BitVec.ofNat 32 n + 1).toInt = (n + 1 : Nat) := by
    rw [BitVec.toInt_eq_toNat_of_lt (by rw [hnat]; omega), hnat]
  rw [newChars, hint, if_pos (Int.natCast_nonneg _), Int.toNat_natCast]

/-- There is no array, or one which for a length that is no `int` is too short. -/
theorem newChars_cases (n : Nat) (h : CharHeap UInt8) :
    newChars n h = none ∨
      ∃ size, newChars n h = some (h.newArray size) ∧ (2 ^ 31 ≤ n + 1 → size ≤ n) := by
  by_cases hsize : 0 ≤ (BitVec.ofNat 32 n + 1).toInt
  · refine Or.inr ⟨(BitVec.ofNat 32 n + 1).toInt.toNat, if_pos hsize, fun hn => ?_⟩
    have hlt : (BitVec.ofNat 32 n + 1).toInt < 2 ^ 31 := BitVec.toInt_lt
    omega
  · exact Or.inl (if_neg hsize)

theorem duplicate_eq (hf : h.Fresh) (hp : h.CString p xs) (hxs : xs.length + 1 < 2 ^ 31) :
    duplicate p h = some (h.brk, h.push (xs ++ [0])) := by
  rw [duplicate, hp.strlen]
  simp only [Option.bind_eq_bind, Option.bind_some, newChars_eq hxs, newArray]
  rw [strcpy_push hf hp]
  simp [List.drop_eq_nil_of_le]

theorem duplicate_eq_none (hf : h.Fresh) (hp : h.CString p xs) (hxs : 2 ^ 31 ≤ xs.length + 1) :
    duplicate p h = none := by
  rw [duplicate, hp.strlen]
  simp only [Option.bind_eq_bind, Option.bind_some]
  rcases newChars_cases xs.length h with hnone | ⟨size, hnew, hshort⟩
  · rw [hnone]
    rfl
  · rw [hnew]
    simp only [newArray, Option.bind_some]
    have hsize := hshort hxs
    rw [strcpy_push hf hp, if_neg (by simp; omega)]
    rfl

theorem fromCString_eq {str : Option CharPtr} (hf : h.Fresh) (hstr : argumentAt h str = some xs)
    (hxs : xs.length + 1 < 2 ^ 31) : fromCString str h = some (h.brk, h.push (xs ++ [0])) := by
  cases str with
  | none =>
      cases hstr
      simp [fromCString, newArray, write_push]
  | some p => exact duplicate_eq hf hstr hxs

theorem fromCString_eq_none {str : Option CharPtr} (hf : h.Fresh) (hstr : argumentAt h str = some xs)
    (hxs : 2 ^ 31 ≤ xs.length + 1) : fromCString str h = none := by
  cases str with
  | none =>
      cases hstr
      exact absurd hxs (by decide)
  | some p => exact duplicate_eq_none hf hstr hxs

end arrays

namespace Strings

/-! ## The heap and the strings -/

/-- Every object has an array of the length of its string and one more, and no two have the same. -/
structure Sound (s : Strings) : Prop where
  fresh : s.heap.Fresh
  placed : ∀ a, s.top ≤ a → s.mData a = none
  apart : ∀ a b x, s.mData a = some x → s.mData b = some x → a = b
  owned : ∀ a x, s.mData a = some x →
    ∃ xs, s.heap.block x = some (xs ++ [0]) ∧ 0 ∉ xs ∧ xs.length + 1 < 2 ^ 31

section sound

variable {s t u : Strings} {a b x : Nat} {xs ys zs : List UInt8} {v w : Option (List UInt8)}

theorem Frame.refl (s : Strings) : Frame s s where
  brk := Nat.le_refl _
  owned _ _ h := Or.inl h
  block _ _ _ := rfl

theorem Frame.trans (hst : Frame s t) (htu : Frame t u) : Frame s u where
  brk := Nat.le_trans hst.brk htu.brk
  owned a x h := by
    rcases htu.owned a x h with h | h
    · exact hst.owned a x h
    · exact Or.inr (Nat.le_trans hst.brk h)
  block x hx hnot := by
    rw [htu.block x (Nat.lt_of_lt_of_le hx hst.brk) fun a ha => ?_, hst.block x hx hnot]
    rcases hst.owned a x ha with ha | hle
    · exact hnot a ha
    · exact Nat.not_lt.2 hle hx

theorem Sound.lt_brk (hs : s.Sound) (ha : s.mData a = some x) : x < s.heap.brk := by
  rcases hs.owned a x ha with ⟨xs, hx, -⟩
  exact hs.fresh.lt_brk hx

/-- What an object with a string is in the heap. -/
theorem Sound.of_content (hs : s.Sound) (ha : s.content a = some xs) :
    ∃ x, s.mData a = some x ∧ s.heap.block x = some (xs ++ [0]) ∧ 0 ∉ xs ∧ xs.length + 1 < 2 ^ 31 ∧
      s.heap.CString ⟨x, 0⟩ xs := by
  rcases Option.bind_eq_some_iff.1 ha with ⟨x, hx, hstring⟩
  rcases hs.owned a x hx with ⟨ys, hblock, hzero, hlen⟩
  have hys : s.heap.CString ⟨x, 0⟩ ys := cString_of_block hblock hzero
  have hsame : ys = xs := Option.some.inj (hys.symm.trans hstring)
  subst hsame
  exact ⟨x, hx, hblock, hzero, hlen, hys⟩

theorem Sound.content_short (hs : s.Sound) (ha : s.content a = some xs) : xs.length + 1 < 2 ^ 31 := by
  rcases hs.of_content ha with ⟨-, -, -, -, hlen, -⟩
  exact hlen

theorem content_of_block (hx : s.mData a = some x) (hblock : s.heap.block x = some (xs ++ [0]))
    (hzero : 0 ∉ xs) : s.content a = some xs := by
  have hstring : s.heap.CString ⟨x, 0⟩ xs := cString_of_block hblock hzero
  rw [content, hx]
  exact hstring

/-- The string of an object is that of its array. -/
theorem content_congr (hdata : t.mData a = s.mData a)
    (hblock : ∀ x, s.mData a = some x → t.heap.block x = s.heap.block x) : t.content a = s.content a := by
  rw [content, content, hdata]
  cases hx : s.mData a with
  | none => rfl
  | some x =>
      simp only [Option.bind_eq_bind, Option.bind_some, stringAt, behind]
      rw [hblock x hx]

/-- `Does`, from a state where everything is as it should be to another. -/
structure Becomes (s t : Strings) (a : Nat) (v : Option (List UInt8)) : Prop where
  sound : t.Sound
  content : t.content = Function.update s.content a v
  frame : Frame s t

theorem Becomes.does (h : Becomes s t a v) : Does s t a v where
  content := h.content
  sized a x hx := by
    rcases h.sound.owned a x hx with ⟨xs, hblock, hzero, -⟩
    exact ⟨xs, hblock, hzero⟩
  frame := h.frame

theorem Becomes.content_self (h : Becomes s t a v) : t.content a = v := by
  rw [h.content, Function.update_self]

theorem Becomes.content_of_ne (h : Becomes s t a v) (hb : b ≠ a) : t.content b = s.content b := by
  rw [h.content, Function.update_of_ne hb]

/-- One change of an object after another. -/
theorem Becomes.trans (hst : Becomes s t a v) (htu : Becomes t u a w) : Becomes s u a w where
  sound := htu.sound
  content := by rw [htu.content, hst.content, Function.update_idem]
  frame := hst.frame.trans htu.frame

/-- The object `a` is given the array `o`, which is a new one, or none; all arrays but its old one are kept. -/
theorem Sound.becomes (hs : s.Sound) {o : Option Nat} (hf : t.heap.Fresh) (hbrk : s.heap.brk ≤ t.heap.brk)
    (htop : ∀ b, t.top ≤ b → s.top ≤ b ∧ b ≠ a) (hdata : t.mData = Function.update s.mData a o)
    (hkept : ∀ y < s.heap.brk, s.mData a ≠ some y → t.heap.block y = s.heap.block y)
    (ho : o = none ∧ v = none ∨ ∃ x zs, o = some x ∧ v = some zs ∧ s.heap.brk ≤ x ∧
      t.heap.block x = some (zs ++ [0]) ∧ 0 ∉ zs ∧ zs.length + 1 < 2 ^ 31) : Becomes s t a v := by
  have hself : t.mData a = o := by rw [hdata, Function.update_self]
  have hother : ∀ b ≠ a, t.mData b = s.mData b := fun b hb => by rw [hdata, Function.update_of_ne hb]
  have hnew : ∀ x, o = some x → s.heap.brk ≤ x ∧ ∃ zs, v = some zs ∧ t.heap.block x = some (zs ++ [0]) ∧
      0 ∉ zs ∧ zs.length + 1 < 2 ^ 31 := by
    intro x hx
    rcases ho with ⟨hnone, -⟩ | ⟨y, zs, hy, hrest⟩
    · rw [hnone] at hx
      cases hx
    · rw [hy] at hx
      cases hx
      exact ⟨hrest.2.1, zs, hrest.1, hrest.2.2⟩
  have hblock : ∀ b ≠ a, ∀ x, s.mData b = some x → t.heap.block x = s.heap.block x := fun b hb x hx =>
    hkept x (hs.lt_brk hx) fun ha => hb (hs.apart b a x hx ha)
  refine ⟨⟨hf, fun b hb => ?_, fun b c x hbx hcx => ?_, fun b x hx => ?_⟩, funext fun b => ?_,
    ⟨hbrk, fun b x hx => ?_, fun y hy hnot => hkept y hy (hnot a)⟩⟩
  · rw [hother b (htop b hb).2]
    exact hs.placed b (htop b hb).1
  · -- an array that is new is not that of another object
    by_cases hb : b = a
    · by_cases hc : c = a
      · rw [hb, hc]
      · rw [hb, hself] at hbx
        rw [hother c hc] at hcx
        exact absurd (hs.lt_brk hcx) (Nat.not_lt.2 (hnew x hbx).1)
    · by_cases hc : c = a
      · rw [hc, hself] at hcx
        rw [hother b hb] at hbx
        exact absurd (hs.lt_brk hbx) (Nat.not_lt.2 (hnew x hcx).1)
      · rw [hother b hb] at hbx
        rw [hother c hc] at hcx
        exact hs.apart b c x hbx hcx
  · by_cases hb : b = a
    · rw [hb, hself] at hx
      rcases (hnew x hx).2 with ⟨zs, -, hzs⟩
      exact ⟨zs, hzs⟩
    · rw [hother b hb] at hx
      rw [hblock b hb x hx]
      exact hs.owned b x hx
  · by_cases hb : b = a
    · subst hb
      rw [Function.update_self]
      rcases ho with ⟨hnone, hv⟩ | ⟨x, zs, hx, hv, -, hx', hzero, -⟩
      · rw [content, hself, hnone, hv]
        rfl
      · rw [hv]
        exact content_of_block (hself.trans hx) hx' hzero
    · rw [Function.update_of_ne hb]
      exact content_congr (hother b hb) (hblock b hb)
  · by_cases hb : b = a
    · rw [hb, hself] at hx
      exact Or.inr (hnew x hx).1
    · rw [hother b hb] at hx
      exact Or.inl hx

/-- A new object. -/
theorem Sound.made (hs : s.Sound) (hzero : 0 ∉ zs) (hlen : zs.length + 1 < 2 ^ 31) :
    Becomes s (s.placeNew s.heap.brk (s.heap.push (zs ++ [0]))) s.top (some zs) := by
  refine hs.becomes (hs.fresh.push _) (Nat.le_succ _) (fun b hb => ⟨Nat.le_of_succ_le hb, ?_⟩) rfl
    (fun y hy _ => block_push_of_ne (Nat.ne_of_lt hy) _)
    (Or.inr ⟨_, zs, rfl, rfl, Nat.le_refl _, block_push_self _ _, hzero, hlen⟩)
  exact Nat.ne_of_gt hb

/-- An object that has another array than before. -/
theorem Sound.replaced (hs : s.Sound) (hx : s.mData a = some x) (hzero : 0 ∉ zs)
    (hlen : zs.length + 1 < 2 ^ 31) :
    Becomes s (s.place a s.heap.brk ((s.heap.push (zs ++ [0])).drop x)) a (some zs) := by
  have hlt := hs.lt_brk hx
  refine hs.becomes ((hs.fresh.push _).drop x) (Nat.le_succ _) (fun b hb => ⟨hb, ?_⟩) rfl
    (fun y hy hne => ?_) (Or.inr ⟨_, zs, rfl, rfl, Nat.le_refl _, ?_, hzero, hlen⟩)
  · rintro rfl
    rw [hs.placed b hb] at hx
    cases hx
  · have hyx : y ≠ x := by
      rintro rfl
      exact hne hx
    simp only [place]
    rw [block_drop_of_ne hyx, block_push_of_ne (Nat.ne_of_lt hy)]
  · simp only [place]
    rw [block_drop_of_ne (Nat.ne_of_gt hlt), block_push_self]

/-- An object that is gone, with its array. -/
theorem Sound.gone (hs : s.Sound) (hx : s.mData a = some x) :
    Becomes s { s with heap := s.heap.drop x, mData := Function.update s.mData a none } a none := by
  refine hs.becomes (hs.fresh.drop x) (Nat.le_refl _) (fun b hb => ⟨hb, ?_⟩) rfl (fun y hy hne => ?_)
    (Or.inl ⟨rfl, rfl⟩)
  · rintro rfl
    rw [hs.placed b hb] at hx
    cases hx
  · have hyx : y ≠ x := by
      rintro rfl
      exact hne hx
    exact block_drop_of_ne hyx

end sound

/-! ## The operations -/

section operations

variable {s : Strings} {a b x : Nat} {xs ys : List UInt8} {str : Option CharPtr}

theorem zero_notMem_argument {h : CharHeap UInt8} (hstr : argumentAt h str = some ys) : 0 ∉ ys := by
  cases str with
  | none =>
      cases hstr
      exact List.not_mem_nil
  | some p => exact CString.zero_notMem hstr

theorem argumentAt_push {h : CharHeap UInt8} (hf : h.Fresh) (hstr : argumentAt h str = some ys)
    (cs : List UInt8) : argumentAt (h.push cs) str = some ys := by
  cases str with
  | none => exact hstr
  | some p => exact CString.push hf hstr cs

theorem argumentAt_drop {h : CharHeap UInt8} (hstr : argumentAt h str = some ys)
    (hne : ∀ p, str = some p → p.block ≠ x) : argumentAt (h.drop x) str = some ys := by
  cases str with
  | none => exact hstr
  | some p => exact CString.drop hstr (hne p rfl)

theorem construct_eq (hs : s.Sound) (hstr : s.argument str = some ys) (hlen : ys.length + 1 < 2 ^ 31) :
    s.construct str = some (s.placeNew s.heap.brk (s.heap.push (ys ++ [0]))) := by
  rw [construct, fromCString_eq hs.fresh hstr hlen]
  rfl

theorem construct_eq_none (hs : s.Sound) (hstr : s.argument str = some ys)
    (hlen : 2 ^ 31 ≤ ys.length + 1) : s.construct str = none := by
  rw [construct, fromCString_eq_none hs.fresh hstr hlen]
  rfl

theorem copy_eq (hs : s.Sound) (ha : s.content a = some xs) :
    s.copy a = some (s.placeNew s.heap.brk (s.heap.push (xs ++ [0]))) := by
  rcases hs.of_content ha with ⟨x, hx, -, -, hlen, hstring⟩
  rw [copy, hx]
  simp only [Option.bind_eq_bind, Option.bind_some, duplicate_eq hs.fresh hstring hlen]
  rfl

theorem Sound.destroy (hs : s.Sound) (ha : s.content a = some xs) :
    ∃ t, s.destroy a = some t ∧ Becomes s t a none := by
  rcases hs.of_content ha with ⟨x, hx, hblock, -⟩
  refine ⟨_, ?_, hs.gone hx⟩
  rw [Strings.destroy, hx]
  simp only [Option.bind_eq_bind, Option.bind_some, deleteArray_eq hblock]
  rfl

/-- The array is deleted first; what is copied is somewhere else. -/
theorem Sound.assign (hs : s.Sound) (ha : s.content a = some xs) (hb : s.content b = some ys) :
    ∃ t, s.assign a b = some t ∧ Becomes s t a (some ys) := by
  by_cases hab : a = b
  · subst hab
    refine ⟨s, if_pos rfl, hs, ?_, Frame.refl s⟩
    rw [← hb, Function.update_eq_self]
  · rcases hs.of_content ha with ⟨x, hx, hblock, -⟩
    rcases hs.of_content hb with ⟨y, hy, -, hzero, hlen, hstring⟩
    have hyx : y ≠ x := by
      rintro rfl
      exact hab (hs.apart a b y hx hy)
    have hstring' : (s.heap.drop x).CString ⟨y, 0⟩ ys := hstring.drop hyx
    refine ⟨_, ?_, hs.replaced hx hzero hlen⟩
    rw [Strings.assign, if_neg hab, hx]
    simp only [Option.bind_eq_bind, Option.bind_some, deleteArray_eq hblock, hy,
      duplicate_eq (hs.fresh.drop x) hstring' hlen]
    rw [drop_push (Nat.ne_of_lt (hs.lt_brk hx))]
    rfl

theorem Sound.assignC (hs : s.Sound) (ha : s.content a = some xs) (hstr : s.argument str = some ys)
    (hlen : ys.length + 1 < 2 ^ 31) (hown : ∀ p, str = some p → s.mData a ≠ some p.block) :
    ∃ t, s.assignC a str = some t ∧ Becomes s t a (some ys) := by
  rcases hs.of_content ha with ⟨x, hx, hblock, -⟩
  have hstr' : argumentAt (s.heap.drop x) str = some ys :=
    argumentAt_drop hstr fun p hp h => hown p hp (hx.trans (congrArg some h.symm))
  refine ⟨_, ?_, hs.replaced hx (zero_notMem_argument hstr) hlen⟩
  rw [Strings.assignC, hx]
  simp only [Option.bind_eq_bind, Option.bind_some, deleteArray_eq hblock,
    fromCString_eq (hs.fresh.drop x) hstr' hlen]
  rw [drop_push (Nat.ne_of_lt (hs.lt_brk hx))]
  rfl

/-- The argument is a string that has been deleted, or is too long. -/
theorem assignC_eq_none (hs : s.Sound) (ha : s.content a = some xs) (hstr : s.argument str = some ys)
    (h : 2 ^ 31 ≤ ys.length + 1 ∨ ∃ p, str = some p ∧ s.mData a = some p.block) :
    s.assignC a str = none := by
  rcases hs.of_content ha with ⟨x, hx, hblock, -⟩
  have hnone : fromCString str (s.heap.drop x) = none := by
    by_cases hown : ∃ p, str = some p ∧ s.mData a = some p.block
    · -- `strlen` reads the array that was deleted
      rcases hown with ⟨p, rfl, hp⟩
      have hpx : p.block = x := Option.some.inj (hp.symm.trans hx)
      rw [fromCString, duplicate, strlen, stringAt_dropped hpx]
      rfl
    · have hstr' : argumentAt (s.heap.drop x) str = some ys :=
        argumentAt_drop hstr fun p hp h => hown ⟨p, hp, hx.trans (congrArg some h.symm)⟩
      exact fromCString_eq_none (hs.fresh.drop x) hstr' (h.resolve_right hown)
  rw [Strings.assignC, hx]
  simp only [Option.bind_eq_bind, Option.bind_some, deleteArray_eq hblock, hnone]
  rfl

theorem Sound.append (hs : s.Sound) (ha : s.content a = some xs) (hb : s.content b = some ys)
    (hab : a ≠ b) (hlen : (xs ++ ys).length + 1 < 2 ^ 31) :
    ∃ t, s.append a b = some t ∧ Becomes s t a (some (xs ++ ys)) := by
  rcases hs.of_content ha with ⟨x, hx, hblock, hzero, -, hstring⟩
  rcases hs.of_content hb with ⟨y, hy, -, hzero', -, hstring'⟩
  have hzeros : 0 ∉ xs ++ ys := fun h => (List.mem_append.1 h).elim hzero hzero'
  refine ⟨_, ?_, hs.replaced hx hzeros hlen⟩
  rw [List.length_append] at hlen
  have hy' : Function.update s.mData a (some s.heap.brk) b = some y := by
    rw [Function.update_of_ne (Ne.symm hab), hy]
  rw [Strings.append, hx]
  simp only [Option.bind_eq_bind, Option.bind_some, hstring.strlen, hy, hstring'.strlen,
    newChars_eq hlen, newArray, place]
  -- the old string leaves as many places as the other needs
  rw [strcpy_push hs.fresh hstring, if_pos (by simp)]
  simp only [Option.bind_some, hy', List.take_zero, List.nil_append]
  rw [strcat_push hs.fresh hzero hstring', if_pos (by simp)]
  simp only [Option.bind_some]
  rw [deleteArray_eq (block_push hs.fresh hblock _)]
  simp [List.drop_eq_nil_of_le]

/-- The object is its own operand, or the result is too long. -/
theorem append_eq_none (hs : s.Sound) (ha : s.content a = some xs) (hb : s.content b = some ys)
    (h : a = b ∨ 2 ^ 31 ≤ (xs ++ ys).length + 1) : s.append a b = none := by
  rcases hs.of_content ha with ⟨x, hx, -, hzero, -, hstring⟩
  rcases hs.of_content hb with ⟨y, hy, -, -, -, hstring'⟩
  rw [List.length_append] at h
  rw [Strings.append, hx]
  simp only [Option.bind_eq_bind, Option.bind_some, hstring.strlen, hy, hstring'.strlen, place]
  rcases newChars_cases (xs.length + ys.length) s.heap with hnone | ⟨size, hnew, hshort⟩
  · -- `new` throws
    rw [hnone]
    rfl
  · simp only [hnew, newArray, Option.bind_some]
    rw [strcpy_push hs.fresh hstring]
    split
    -- the array is too short for the old string alone
    case isFalse => rfl
    case isTrue hroom =>
      simp only [Option.bind_some, List.take_zero, List.nil_append]
      by_cases hab : a = b
      · -- `other.m_data` is the new array
        subst hab
        rw [Function.update_self]
        simp only [Option.bind_some]
        rw [strcat_self (cString_of_block (block_push_self _ _) hzero)]
        rfl
      · have hsize := hshort (h.resolve_left hab)
        rw [Function.update_of_ne (Ne.symm hab), hy]
        simp only [Option.bind_some]
        rw [strcat_push hs.fresh hzero hstring', if_neg]
        · rfl
        · simp only [List.length_map, List.length_range, List.length_drop] at hroom ⊢
          omega

/-! ### Operations that call others -/

theorem Sound.content_top (hs : s.Sound) : s.content s.top = none := by
  rw [content, hs.placed s.top (Nat.le_refl _)]
  rfl

theorem Sound.ne_top (hs : s.Sound) (ha : s.content a = some xs) : a ≠ s.top := by
  rintro rfl
  rw [hs.content_top] at ha
  cases ha

/-- `tmp` comes and goes. -/
theorem Sound.appendC (hs : s.Sound) (ha : s.content a = some xs) (hstr : s.argument str = some ys)
    (hlen : (xs ++ ys).length + 1 < 2 ^ 31) :
    ∃ t, s.appendC a str = some t ∧ Becomes s t a (some (xs ++ ys)) := by
  have hys : ys.length + 1 < 2 ^ 31 := by
    rw [List.length_append] at hlen
    omega
  have htop := hs.ne_top ha
  have hmade := hs.made (zero_notMem_argument hstr) hys
  rcases hmade.sound.append ((hmade.content_of_ne htop).trans ha) hmade.content_self htop hlen with
    ⟨t, happend, ht⟩
  have htmp : t.content s.top = some ys := (ht.content_of_ne htop.symm).trans hmade.content_self
  rcases ht.sound.destroy htmp with ⟨u, hdestroy, hu⟩
  refine ⟨u, ?_, hu.sound, funext fun b => ?_, (hmade.frame.trans ht.frame).trans hu.frame⟩
  · rw [Strings.appendC, construct_eq hs hstr hys]
    simp only [Option.bind_eq_bind, Option.bind_some, happend, hdestroy]
  · -- `tmp` was not there before and is not there now
    by_cases hb : b = s.top
    · rw [hb, hu.content_self, Function.update_of_ne htop.symm, hs.content_top]
    · rw [hu.content_of_ne hb, ht.content, hmade.content, Function.update_comm htop.symm,
        Function.update_of_ne hb]

theorem appendC_eq_none (hs : s.Sound) (ha : s.content a = some xs) (hstr : s.argument str = some ys)
    (hlen : 2 ^ 31 ≤ (xs ++ ys).length + 1) : s.appendC a str = none := by
  rw [Strings.appendC]
  by_cases hys : ys.length + 1 < 2 ^ 31
  · have htop := hs.ne_top ha
    have hmade := hs.made (zero_notMem_argument hstr) hys
    have hnone := append_eq_none hmade.sound ((hmade.content_of_ne htop).trans ha) hmade.content_self
      (Or.inr hlen)
    rw [construct_eq hs hstr hys]
    simp only [Option.bind_eq_bind, Option.bind_some, hnone]
    rfl
  · rw [construct_eq_none hs hstr (Nat.not_lt.1 hys)]
    rfl

/-- `result`, when the first operand has been appended. -/
theorem Sound.plus_first (hs : s.Sound) (ha : s.content a = some xs) :
    ∃ t, (do let t ← s.construct none; t.append s.top a) = some t ∧ Becomes s t s.top (some xs) := by
  have htop := hs.ne_top ha
  have hempty : s.argument none = some [] := rfl
  have hmade := hs.made (zero_notMem_argument hempty) (by decide)
  rcases hmade.sound.append hmade.content_self ((hmade.content_of_ne htop).trans ha) htop.symm
    (hs.content_short ha) with ⟨t, happend, ht⟩
  refine ⟨t, ?_, hmade.trans ht⟩
  rw [construct_eq hs hempty (by decide)]
  exact happend

theorem plus_eq (s : Strings) (a b : Nat) :
    s.plus a b = (do let t ← s.construct none; t.append s.top a) >>= fun t => t.append s.top b := by
  rw [plus]
  simp only [Option.bind_eq_bind, Option.bind_assoc]

theorem Sound.plus (hs : s.Sound) (ha : s.content a = some xs) (hb : s.content b = some ys)
    (hlen : (xs ++ ys).length + 1 < 2 ^ 31) :
    ∃ t, s.plus a b = some t ∧ Becomes s t s.top (some (xs ++ ys)) := by
  have htop := hs.ne_top hb
  rcases hs.plus_first ha with ⟨t, hfirst, ht⟩
  rcases ht.sound.append ht.content_self ((ht.content_of_ne htop).trans hb) htop.symm hlen with
    ⟨u, happend, hu⟩
  refine ⟨u, ?_, ht.trans hu⟩
  rw [plus_eq, hfirst]
  exact happend

theorem plus_eq_none (hs : s.Sound) (ha : s.content a = some xs) (hb : s.content b = some ys)
    (hlen : 2 ^ 31 ≤ (xs ++ ys).length + 1) : s.plus a b = none := by
  have htop := hs.ne_top hb
  rcases hs.plus_first ha with ⟨t, hfirst, ht⟩
  rw [plus_eq, hfirst]
  exact append_eq_none ht.sound ht.content_self ((ht.content_of_ne htop).trans hb) (Or.inr hlen)

/-- `result` is a copy, which leaves the argument where it is. -/
theorem Sound.plusC_first (hs : s.Sound) (ha : s.content a = some xs) (hstr : s.argument str = some ys) :
    ∃ t, s.copy a = some t ∧ Becomes s t s.top (some xs) ∧ t.argument str = some ys := by
  rcases hs.of_content ha with ⟨-, -, -, hzero, hlen, -⟩
  exact ⟨_, copy_eq hs ha, hs.made hzero hlen, argumentAt_push hs.fresh hstr _⟩

theorem Sound.plusC (hs : s.Sound) (ha : s.content a = some xs) (hstr : s.argument str = some ys)
    (hlen : (xs ++ ys).length + 1 < 2 ^ 31) :
    ∃ t, s.plusC a str = some t ∧ Becomes s t s.top (some (xs ++ ys)) := by
  rcases hs.plusC_first ha hstr with ⟨t, hcopy, ht, hstr'⟩
  rcases ht.sound.appendC ht.content_self hstr' hlen with ⟨u, happend, hu⟩
  refine ⟨u, ?_, ht.trans hu⟩
  rw [Strings.plusC, hcopy]
  exact happend

theorem plusC_eq_none (hs : s.Sound) (ha : s.content a = some xs) (hstr : s.argument str = some ys)
    (hlen : 2 ^ 31 ≤ (xs ++ ys).length + 1) : s.plusC a str = none := by
  rcases hs.plusC_first ha hstr with ⟨t, hcopy, ht, hstr'⟩
  rw [Strings.plusC, hcopy]
  exact appendC_eq_none ht.sound ht.content_self hstr' hlen

/-! ### Every operation -/

/-- The operands of a valid operation have strings. -/
theorem Valid.strings {v w : Option (List UInt8)} (h : v.isSome ∧ w.isSome) :
    ∃ xs ys, v = some xs ∧ w = some ys := by
  rcases Option.isSome_iff_exists.1 h.1 with ⟨xs, hxs⟩
  rcases Option.isSome_iff_exists.1 h.2 with ⟨ys, hys⟩
  exact ⟨xs, ys, hxs, hys⟩

/-- The value of a concatenation. -/
theorem value_concat {v w : Option (List UInt8)} (hv : v = some xs) (hw : w = some ys) :
    (do return (← v) ++ (← w)) = some (xs ++ ys) := by
  rw [hv, hw]
  rfl

theorem Sound.step (hs : s.Sound) {op : Op} (hvalid : s.Valid op) (hfits : s.Fits op) :
    ∃ t, step s op = some t ∧ Becomes s t (s.target op) (s.value op) := by
  rcases hfits with ⟨hlen, hown⟩
  cases op with
  | construct str =>
      rcases Option.isSome_iff_exists.1 hvalid with ⟨ys, hys⟩
      have hvalue : s.value (.construct str) = some ys := hys
      rw [hvalue]
      exact ⟨_, construct_eq hs hys (hlen ys hvalue), hs.made (zero_notMem_argument hys) (hlen ys hvalue)⟩
  | copy b =>
      rcases Option.isSome_iff_exists.1 hvalid with ⟨ys, hys⟩
      have hvalue : s.value (.copy b) = some ys := hys
      rcases hs.of_content hys with ⟨-, -, -, hzero, hsmall, -⟩
      rw [hvalue]
      exact ⟨_, copy_eq hs hys, hs.made hzero hsmall⟩
  | destroy a =>
      rcases Option.isSome_iff_exists.1 hvalid with ⟨xs, hxs⟩
      exact hs.destroy hxs
  | assign a b =>
      rcases Valid.strings hvalid with ⟨xs, ys, hxs, hys⟩
      have hvalue : s.value (.assign a b) = some ys := hys
      rw [hvalue]
      exact hs.assign hxs hys
  | assignC a str =>
      rcases Valid.strings hvalid with ⟨xs, ys, hxs, hys⟩
      have hvalue : s.value (.assignC a str) = some ys := hys
      rw [hvalue]
      refine hs.assignC hxs hys (hlen ys hvalue) fun p hp => ?_
      subst hp
      exact hown
  | append a b =>
      rcases Valid.strings hvalid with ⟨xs, ys, hxs, hys⟩
      have hvalue : s.value (.append a b) = some (xs ++ ys) := value_concat hxs hys
      rw [hvalue]
      exact hs.append hxs hys hown (hlen _ hvalue)
  | appendC a str =>
      rcases Valid.strings hvalid with ⟨xs, ys, hxs, hys⟩
      have hvalue : s.value (.appendC a str) = some (xs ++ ys) := value_concat hxs hys
      rw [hvalue]
      exact hs.appendC hxs hys (hlen _ hvalue)
  | plus a b =>
      rcases Valid.strings hvalid with ⟨xs, ys, hxs, hys⟩
      have hvalue : s.value (.plus a b) = some (xs ++ ys) := value_concat hxs hys
      rw [hvalue]
      exact hs.plus hxs hys (hlen _ hvalue)
  | plusC a str =>
      rcases Valid.strings hvalid with ⟨xs, ys, hxs, hys⟩
      have hvalue : s.value (.plusC a str) = some (xs ++ ys) := value_concat hxs hys
      rw [hvalue]
      exact hs.plusC hxs hys (hlen _ hvalue)

/-- A result is short enough if the operation would fail otherwise. -/
theorem short_of_step {op : Op} {t : Strings} (hstep : Strings.step s op = some t)
    (hlong : ∀ zs, s.value op = some zs → 2 ^ 31 ≤ zs.length + 1 → Strings.step s op = none) :
    ∀ zs, s.value op = some zs → zs.length + 1 < 2 ^ 31 := by
  intro zs hzs
  apply Nat.lt_of_not_le
  intro hle
  rw [hlong zs hzs hle] at hstep
  cases hstep

theorem value_eq {op : Op} (hvalue : s.value op = some xs) {P : List UInt8 → Prop} (hxs : P xs) :
    ∀ zs, s.value op = some zs → P zs := by
  intro zs hzs
  cases hvalue.symm.trans hzs
  exact hxs

/-- What does not fit fails. -/
theorem Sound.fits_of_step (hs : s.Sound) {op : Op} (hvalid : s.Valid op) {t : Strings}
    (hstep : Strings.step s op = some t) : s.Fits op := by
  cases op with
  | construct str => exact ⟨short_of_step hstep fun zs hzs => construct_eq_none hs hzs, trivial⟩
  | copy b => exact ⟨fun zs hzs => hs.content_short hzs, trivial⟩
  | destroy a => exact ⟨fun zs hzs => (nomatch hzs), trivial⟩
  | assign a b => exact ⟨fun zs hzs => hs.content_short hzs, trivial⟩
  | assignC a str =>
      rcases Valid.strings hvalid with ⟨xs, ys, hxs, hys⟩
      refine ⟨short_of_step hstep fun zs hzs hlong => ?_, ?_⟩
      · exact assignC_eq_none hs hxs hzs (Or.inl hlong)
      · cases str with
        | none => trivial
        | some p =>
            intro hown
            rw [Strings.step, assignC_eq_none hs hxs hys (Or.inr ⟨p, rfl, hown⟩)] at hstep
            cases hstep
  | append a b =>
      rcases Valid.strings hvalid with ⟨xs, ys, hxs, hys⟩
      have hvalue : s.value (.append a b) = some (xs ++ ys) := value_concat hxs hys
      refine ⟨short_of_step hstep (value_eq hvalue fun hlong => ?_), fun hab => ?_⟩
      · exact append_eq_none hs hxs hys (Or.inr hlong)
      · rw [Strings.step, append_eq_none hs hxs hys (Or.inl hab)] at hstep
        cases hstep
  | appendC a str =>
      rcases Valid.strings hvalid with ⟨xs, ys, hxs, hys⟩
      have hvalue : s.value (.appendC a str) = some (xs ++ ys) := value_concat hxs hys
      exact ⟨short_of_step hstep (value_eq hvalue (appendC_eq_none hs hxs hys)), trivial⟩
  | plus a b =>
      rcases Valid.strings hvalid with ⟨xs, ys, hxs, hys⟩
      have hvalue : s.value (.plus a b) = some (xs ++ ys) := value_concat hxs hys
      exact ⟨short_of_step hstep (value_eq hvalue (plus_eq_none hs hxs hys)), trivial⟩
  | plusC a str =>
      rcases Valid.strings hvalid with ⟨xs, ys, hxs, hys⟩
      have hvalue : s.value (.plusC a str) = some (xs ++ ys) := value_concat hxs hys
      exact ⟨short_of_step hstep (value_eq hvalue (plusC_eq_none hs hxs hys)), trivial⟩

/-- From every state in which the strings are as they should be, and for every sequence of operations: all
of them do what they are for if and only if no object is appended to itself or assigned a string in its own
array, and no result is too long for an `int`. -/
theorem operations_intended_iff (hs : s.Sound) {ops : List Op} (hvalid : AlongReached step Valid s ops) :
    AlongM step Intended s ops ↔ AlongM step Fits s ops := by
  apply alongM_iff_alongM_reached (J := Sound) _ _ hs hvalid <;> intro s op hs hop
  · intro hfits
    rcases hs.step hop hfits with ⟨t, ht, hbecomes⟩
    exact ⟨t, ht, hbecomes.sound⟩
  · constructor
    · rintro ⟨t, ht, -⟩
      exact hs.fits_of_step hop ht
    · intro hfits
      rcases hs.step hop hfits with ⟨t, ht, hbecomes⟩
      exact ⟨t, ht, hbecomes.does⟩

/-- A heap with one C string, which is no object's, and no objects. -/
def oneCString : Strings where
  heap := ⟨fun x => if x = 0 then some [104, 105, 0] else none, 1, fun _ _ => 7⟩
  mData _ := none
  top := 0

theorem oneCString_sound : oneCString.Sound where
  fresh _ hx := if_neg (Nat.ne_of_gt hx)
  placed _ _ := rfl
  apart _ _ _ h := nomatch h
  owned _ _ h := nomatch h

/-- Assignments and concatenations of an object and what it contains. -/
def ownOperands : List Op :=
  [.construct (some ⟨0, 0⟩), .assign 0 0, .appendC 0 (some ⟨1, 1⟩), .plus 0 0, .plusC 0 (some ⟨0, 2⟩),
    .append 2 0, .assignC 0 none, .destroy 2]

theorem operations_intended_ownOperands :
    AlongM step Intended oneCString ownOperands ↔ AlongM step Fits oneCString ownOperands :=
  operations_intended_iff oneCString_sound (by decide +kernel)

theorem not_along_intended {ops : List Op} (h : ops.foldlM step oneCString = none) :
    ¬ AlongM step Intended oneCString ops := by
  intro hops
  rcases hops.exists_foldlM fun _ _ hdoes => ⟨_, hdoes.choose_spec.1⟩ with ⟨t, ht⟩
  rw [h] at ht
  cases ht

/-- An object that is appended to itself, and one that is assigned a pointer to its own array. -/
theorem operations_not_intended :
    ¬ AlongM step Intended oneCString [.construct (some ⟨0, 0⟩), .append 0 0] ∧
      ¬ AlongM step Intended oneCString [.construct (some ⟨0, 0⟩), .assignC 0 (some ⟨1, 0⟩)] :=
  ⟨not_along_intended rfl, not_along_intended rfl⟩

end operations

end Strings

end Ioteck
end CppPractice
