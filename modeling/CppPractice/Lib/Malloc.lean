import Mathlib

/-!
# Malloc — regions of memory, handed out and taken back

A heap is the list of the regions in use.  Where a new region lies is the choice of whoever provides the
memory; a lawful source gives regions that are aligned and overlap none in use.
-/

namespace CppPractice

structure Region where
  addr : Nat
  size : Nat
  deriving DecidableEq, Repr

namespace Region

/-- No byte is in both. -/
def Apart (r s : Region) : Prop := r.addr + r.size ≤ s.addr ∨ s.addr + s.size ≤ r.addr

/-- All of `r` is in `s`. -/
def Within (r s : Region) : Prop := s.addr ≤ r.addr ∧ r.addr + r.size ≤ s.addr + s.size

variable {r r' s s' : Region}

theorem Apart.symm (h : r.Apart s) : s.Apart r := Or.symm h

theorem Apart.mono (h : r'.Apart s') (hr : r.Within r') (hs : s.Within s') : r.Apart s := by
  unfold Apart Within at *
  omega

theorem Within.refl (r : Region) : r.Within r := ⟨Nat.le_refl _, Nat.le_refl _⟩

end Region

namespace Malloc

abbrev Heap := List Region

/-- The regions have different addresses and share no byte. -/
def Distinct (r s : Region) : Prop := r.addr ≠ s.addr ∧ r.Apart s

theorem Distinct.symm {r s : Region} (h : Distinct r s) : Distinct s r := ⟨h.1.symm, h.2.symm⟩

def Heap.Sound (h : Heap) : Prop := h.Pairwise Distinct

theorem Heap.Sound.perm {h h' : Heap} (hs : h.Sound) (hp : h.Perm h') : h'.Sound :=
  (hp.pairwise_iff Distinct.symm).1 hs

/-- Where a region of an alignment and a size is put while others are in use, if there is room. -/
abbrev Source := Heap → Nat → Nat → Option Nat

structure Source.Lawful (os : Source) : Prop where
  pos : ∀ {h align size a}, os h align size = some a → 0 < a
  aligned : ∀ {h align size a}, os h align size = some a → align ∣ a
  limit : ∀ {h align size a}, os h align size = some a → a + size < 2 ^ 64
  fresh : ∀ {h align size a}, os h align size = some a → ∀ r ∈ h, Distinct ⟨a, size⟩ r

def obtain (os : Source) (align size : Nat) (h : Heap) : Option Region × Heap :=
  match os h align size with
  | none => (none, h)
  | some a => (some ⟨a, size⟩, ⟨a, size⟩ :: h)

/-- A region is given back by its address; `none` where no region begins there. -/
def free (a : Nat) (h : Heap) : Option Heap :=
  if ∃ r ∈ h, r.addr = a then some (h.eraseP fun r => r.addr = a) else none

theorem obtain_cases (os : Source) (align size : Nat) (h : Heap) :
    obtain os align size h = (none, h) ∨
      ∃ a, os h align size = some a ∧ obtain os align size h = (some ⟨a, size⟩, ⟨a, size⟩ :: h) := by
  rw [obtain]
  cases hos : os h align size with
  | none => exact .inl rfl
  | some a => exact .inr ⟨a, rfl, rfl⟩

theorem Source.Lawful.sound {os : Source} (hos : os.Lawful) {h : Heap} (hs : h.Sound) {align size a : Nat}
    (ha : os h align size = some a) : Heap.Sound (⟨a, size⟩ :: h) :=
  List.pairwise_cons.2 ⟨hos.fresh ha, hs⟩

/-- Giving back a region leaves the others. -/
theorem free_perm {h h' : Heap} {r : Region} (hs : h.Sound) (hp : h.Perm (r :: h')) :
    ∃ k, free r.addr h = some k ∧ k.Perm h' := by
  have hmem : r ∈ h := hp.mem_iff.2 List.mem_cons_self
  refine ⟨_, if_pos ⟨r, hmem, rfl⟩, ?_⟩
  rcases List.exists_of_eraseP (p := fun s : Region => decide (s.addr = r.addr)) hmem (by simp) with
    ⟨s, before, after, -, hs', hh, herase⟩
  -- No other region has the address.
  have hsr : s = r := by
    have hmem' : s ∈ r :: h' := hp.mem_iff.1 (by simp [hh])
    rcases List.mem_cons.1 hmem' with heq | hrest
    · exact heq
    · have haddr : s.addr = r.addr := of_decide_eq_true hs'
      exact absurd haddr.symm ((List.pairwise_cons.1 (hs.perm hp)).1 s hrest).1
  have hcons : (r :: (before ++ after)).Perm (r :: h') := by
    have hmiddle : (before ++ s :: after).Perm (s :: (before ++ after)) := List.perm_middle
    rw [← hh, hsr] at hmiddle
    exact hmiddle.symm.trans hp
  rw [herase]
  exact (List.perm_cons r).1 hcons

/-- Giving back several regions one after another. -/
def freeAll : List Nat → Heap → Option Heap
  | [], h => some h
  | a :: as, h => (free a h).bind (freeAll as)

theorem freeAll_perm {rs : List Region} {h h' : Heap} (hs : h.Sound) (hp : h.Perm (rs ++ h')) :
    ∃ k, freeAll (rs.map Region.addr) h = some k ∧ k.Perm h' := by
  induction rs generalizing h with
  | nil => exact ⟨h, rfl, hp⟩
  | cons r rs ih =>
      rcases free_perm hs hp with ⟨k, hk, hkp⟩
      have hks : Heap.Sound k := Heap.Sound.perm (List.Pairwise.tail (hs.perm hp)) hkp.symm
      rcases ih hks hkp with ⟨k', hk', hkp'⟩
      refine ⟨k', ?_, hkp'⟩
      rw [List.map_cons, freeAll, hk]
      exact hk'

/-! ## A lawful source -/

/-- An address above all regions. -/
def above (h : Heap) : Nat := h.foldr (fun r n => max (r.addr + r.size + 1) n) 1

theorem lt_above {h : Heap} {r : Region} (hr : r ∈ h) : r.addr + r.size < above h := by
  induction h with
  | nil => cases hr
  | cons s h ih =>
      change _ < max (s.addr + s.size + 1) (above h)
      rcases List.mem_cons.1 hr with rfl | hr
      · omega
      · have hlt := ih hr
        omega

/-- Every region is put above those in use. -/
def bump : Source := fun h align size =>
  let a := align * (above h / align + 1)
  if 0 < align ∧ a + size < 2 ^ 64 then some a else none

theorem bump_eq_some {h : Heap} {align size a : Nat} (ha : bump h align size = some a) :
    a = align * (above h / align + 1) ∧ 0 < align ∧ a + size < 2 ^ 64 := by
  rw [bump] at ha
  split_ifs at ha with hroom
  cases ha
  exact ⟨rfl, hroom⟩

theorem bump_lawful : bump.Lawful := by
  have hlt : ∀ {h : Heap} {align size a : Nat}, bump h align size = some a → above h < a := by
    intro h align size a ha
    rcases bump_eq_some ha with ⟨rfl, halign, -⟩
    exact Nat.lt_mul_div_succ (above h) halign
  refine ⟨fun ha => Nat.lt_of_le_of_lt (Nat.zero_le _) (hlt ha), fun ha => ?_, fun ha => ?_, ?_⟩
  · rw [(bump_eq_some ha).1]
    exact Nat.dvd_mul_right ..
  · exact (bump_eq_some ha).2.2
  · intro h align size a ha r hr
    have hbelow := lt_above hr
    have habove := hlt ha
    refine ⟨?_, .inr ?_⟩
    · dsimp only
      omega
    · dsimp only
      omega

end Malloc
end CppPractice
