import CppPractice.Lib.Segment
import CppPractice.Lib.Trace
import Mathlib.Data.List.Perm.Subperm
import Mathlib.Logic.Function.Iterate

/-!
# NgxList — lists made of parts

`ngx_list_t` and its wrapper `NgxList`.  A list is a chain of parts, the first of which lies in the list
object itself; a part has an array of `nalloc` slots, `nelts` of them in use.  `ngx_list_push` takes a
slot of the last part, or of a new part when the last one is full.

`Holds h l xs` says that the list at `l` is the sequence `xs`.
-/

namespace CppPractice
namespace Ngx

open Segment

/-- `ngx_list_part_t`; `elts` is the address of an array. -/
structure NgxListPart where
  elts : Nat
  nelts : Nat
  next : Nat
  deriving DecidableEq, Repr

/-- `ngx_list_t` without its first part, which has the list's own address. -/
structure NgxListT where
  last : Nat
  nalloc : Nat
  deriving DecidableEq, Repr

structure ListHeap (T : Type*) where
  list : Nat → NgxListT
  part : Nat → NgxListPart
  elts : Nat → Nat → T
  /-- Everything from this address on is still unused. -/
  brk : Nat

variable {T S : Type*}

namespace ListHeap

def next (h : ListHeap T) (p : Nat) : Nat := (h.part p).next

/-- `data[i] = x` in the array at `slot.1` -/
def write (slot : Nat × Nat) (x : T) (h : ListHeap T) : ListHeap T :=
  { h with elts := Function.update h.elts slot.1 (Function.update (h.elts slot.1) slot.2 x) }

end ListHeap

/-- `ngx_list_init(list, pool, n, size)` -/
def ngxListInit (n l : Nat) (h : ListHeap T) : ListHeap T :=
  { h with
    part := Function.update h.part l ⟨h.brk, 0, 0⟩
    list := Function.update h.list l ⟨l, n⟩
    brk := h.brk + 1 }

/-- `ngx_list_create(pool, n, size)` -/
def ngxListCreate (n : Nat) (h : ListHeap T) : Nat × ListHeap T :=
  (h.brk, ngxListInit n h.brk { h with brk := h.brk + 1 })

/-- A new part after the last one, where that is full. -/
def addPart (l : Nat) (h : ListHeap T) : ListHeap T :=
  let last := (h.list l).last
  let part := Function.update h.part h.brk ⟨h.brk + 1, 0, 0⟩
  { h with
    part := Function.update part last { part last with next := h.brk }
    list := Function.update h.list l { h.list l with last := h.brk }
    brk := h.brk + 2 }

/-- The next slot of the last part. -/
def takeSlot (l : Nat) (h : ListHeap T) : (Nat × Nat) × ListHeap T :=
  let last := (h.list l).last
  let p := h.part last
  ((p.elts, p.nelts), { h with part := Function.update h.part last { p with nelts := p.nelts + 1 } })

/-- `ngx_list_push(l)`, which returns the slot. -/
def ngxListPush (l : Nat) (h : ListHeap T) : (Nat × Nat) × ListHeap T :=
  if (h.part (h.list l).last).nelts = (h.list l).nalloc then
    takeSlot l (addPart l h)
  else
    takeSlot l h

/-! ## NgxListIterator -/

structure NgxListIterator where
  part : Nat
  data : Nat
  count : Nat
  deriving DecidableEq, Repr

namespace NgxListIterator

/-- `NgxListIterator(l)` -/
def ofList (h : ListHeap T) (l : Nat) : NgxListIterator := ⟨l, (h.part l).elts, 0⟩

/-- `NgxListIterator()` -/
def null : NgxListIterator := ⟨0, 0, 0⟩

/-- `!(!m_part || !m_data || !m_part->nelts)` -/
def valid (h : ListHeap T) (it : NgxListIterator) : Bool :=
  it.part != 0 && it.data != 0 && (h.part it.part).nelts != 0

/-- `m_data[m_count]` -/
def dereference (h : ListHeap T) (it : NgxListIterator) : T := h.elts it.data it.count

def increment (h : ListHeap T) (it : NgxListIterator) : NgxListIterator :=
  if it.part = 0 ∨ it.data = 0 then
    it
  else if (h.part it.part).nelts ≤ it.count + 1 then
    let part := (h.part it.part).next
    ⟨part, if part = 0 then 0 else (h.part part).elts, 0⟩
  else
    { it with count := it.count + 1 }

end NgxListIterator

open NgxListIterator

/-! ## NgxList -/

namespace NgxList

def prepare (l : Nat) (h : ListHeap T) : (Nat × Nat) × ListHeap T := ngxListPush l h

def push (x : T) (l : Nat) (h : ListHeap T) : ListHeap T :=
  let r := prepare l h
  r.2.write r.1 x

def clear (l : Nat) (h : ListHeap T) : ListHeap T :=
  { h with
    part := Function.update h.part l { h.part l with nelts := 0, next := 0 }
    list := Function.update h.list l { h.list l with last := l } }

/-- `reshape<T>(n)`, where 0 keeps the size of the parts. -/
def reinit (n l : Nat) (h : ListHeap T) : ListHeap T :=
  ngxListInit (if n = 0 then (h.list l).nalloc else n) l h

/-- A bound on the number of slots of the list. -/
def capacity (h : ListHeap T) (l : Nat) : Nat := h.brk * (h.list l).nalloc

/-- `for(; iter; ++iter) v(*iter);` where `v` may change the list too. -/
def visitLoop (heap : S → ListHeap T) (v : T → S → S) : Nat → NgxListIterator → S → Option S
  | 0, it, s => if it.valid (heap s) then none else some s
  | fuel + 1, it, s =>
      if it.valid (heap s) then
        let t := v (it.dereference (heap s)) s
        visitLoop heap v fuel (it.increment (heap t)) t
      else
        some s

def visit (heap : S → ListHeap T) (v : T → S → S) (l : Nat) (s : S) : Option S :=
  visitLoop heap v (capacity (heap s) l) (ofList (heap s) l) s

/-- `for(; iter; ++iter) if(p(*iter)) return iter;` and then `end()` -/
def findLoop (h : ListHeap T) (p : T → Bool) : Nat → NgxListIterator → Option NgxListIterator
  | 0, it => if it.valid h then none else some null
  | fuel + 1, it =>
      if it.valid h then
        if p (it.dereference h) then some it else findLoop h p fuel (it.increment h)
      else
        some null

def find (h : ListHeap T) (l : Nat) (p : T → Bool) : Option NgxListIterator :=
  findLoop h p (capacity h l) (ofList h l)

end NgxList

/-! ## The sequence a list holds -/

namespace ListHeap

variable (h : ListHeap T)

/-- The slots of a part that are in use. -/
def slots (p : Nat) : List T := (List.range (h.part p).nelts).map (h.elts (h.part p).elts)

def contents (parts : List Nat) : List T := parts.flatMap h.slots

@[simp] theorem contents_nil : h.contents [] = [] := rfl

@[simp] theorem contents_cons (p : Nat) (parts : List Nat) :
    h.contents (p :: parts) = h.slots p ++ h.contents parts := rfl

theorem contents_append (parts parts' : List Nat) :
    h.contents (parts ++ parts') = h.contents parts ++ h.contents parts' := by
  simp [contents]

@[simp] theorem length_slots (p : Nat) : (h.slots p).length = (h.part p).nelts := by
  simp [slots]

end ListHeap

open ListHeap

/-- The parts of the list at `l` are those of `front` and `last`. -/
structure Layout (h : ListHeap T) (l : Nat) (front : List Nat) (last : Nat) : Prop where
  chain : Chain h.next 0 l (front ++ [last])
  last_eq : (h.list l).last = last
  nalloc_pos : 0 < (h.list l).nalloc
  nelts_le : ∀ p ∈ front ++ [last], (h.part p).nelts ≤ (h.list l).nalloc
  front_used : ∀ p ∈ front, 0 < (h.part p).nelts
  elts_pos : ∀ p ∈ front ++ [last], 0 < (h.part p).elts
  elts_nodup : ((front ++ [last]).map fun p => (h.part p).elts).Nodup
  lt_brk : ∀ p ∈ front ++ [last], p < h.brk ∧ (h.part p).elts < h.brk

/-- The list at `l` is the sequence `xs`; a part without elements is its only part. -/
def Holds (h : ListHeap T) (l : Nat) (xs : List T) : Prop :=
  ∃ front last, Layout h l front last ∧ (front = [] ∨ 0 < (h.part last).nelts) ∧
    h.contents (front ++ [last]) = xs

section slots

variable {h h' : ListHeap T} {p : Nat} {parts : List Nat}

theorem slots_congr (hpart : h'.part p = h.part p)
    (helts : h'.elts (h.part p).elts = h.elts (h.part p).elts) : h'.slots p = h.slots p := by
  simp [slots, hpart, helts]

theorem contents_congr (hparts : ∀ p ∈ parts, h'.slots p = h.slots p) :
    h'.contents parts = h.contents parts := by
  induction parts with
  | nil => rfl
  | cons p parts ih =>
      have hhead : h'.slots p = h.slots p := hparts p List.mem_cons_self
      have htail : h'.contents parts = h.contents parts :=
        ih fun q hq => hparts q (List.mem_cons_of_mem p hq)
      simp [hhead, htail]

/-- Filling the slot after the last one in use appends to the slots of the part. -/
theorem slots_takeSlot {n : Nat} (x : T) (hpart : h'.part p = { h.part p with nelts := n + 1 })
    (hn : (h.part p).nelts = n)
    (helts : h'.elts (h.part p).elts = Function.update (h.elts (h.part p).elts) n x) :
    h'.slots p = h.slots p ++ [x] := by
  have hold : ∀ i ∈ List.range n, Function.update (h.elts (h.part p).elts) n x i =
      h.elts (h.part p).elts i := by
    intro i hi
    exact Function.update_of_ne (Nat.ne_of_lt (List.mem_range.1 hi)) _ _
  calc
    h'.slots p = (List.range (n + 1)).map (Function.update (h.elts (h.part p).elts) n x) := by
      simp [slots, hpart, helts]
    _ = (List.range n).map (h.elts (h.part p).elts) ++ [x] := by
      rw [List.range_succ, List.map_append, List.map_congr_left hold]
      simp
    _ = h.slots p ++ [x] := by simp [slots, hn]

end slots

namespace Layout

variable {h : ListHeap T} {l last : Nat} {front : List Nat}

theorem head_eq (hl : Layout h l front last) : ∃ rest, front ++ [last] = l :: rest := by
  cases front with
  | nil => exact ⟨[], by rw [(hl.chain.cons_inv).1]; rfl⟩
  | cons p front => exact ⟨front ++ [last], by rw [(hl.chain.cons_inv).1]; rfl⟩

theorem head_mem (hl : Layout h l front last) : l ∈ front ++ [last] := by
  rcases hl.head_eq with ⟨rest, hrest⟩
  rw [hrest]
  exact List.mem_cons_self

theorem pos (hl : Layout h l front last) {p : Nat} (hp : p ∈ front ++ [last]) : p ≠ 0 := by
  rintro rfl
  exact hl.chain.null_notMem hp

theorem last_notMem (hl : Layout h l front last) : last ∉ front := by
  have hnodup := hl.chain.nodup
  rw [List.nodup_append] at hnodup
  intro hmem
  exact hnodup.2.2 last hmem last (by simp) rfl

/-- The parts have their own arrays. -/
theorem elts_ne (hl : Layout h l front last) {p : Nat} (hp : p ∈ front) :
    (h.part p).elts ≠ (h.part last).elts := by
  have hnodup := hl.elts_nodup
  rw [List.map_append, List.nodup_append] at hnodup
  exact hnodup.2.2 _ (List.mem_map_of_mem hp) _ (by simp)

end Layout

/-! ## What the operations do to it -/

section operations

variable {h : ListHeap T} {l last : Nat} {front : List Nat} {xs : List T}

/-- A list whose only part has no elements is empty. -/
theorem Holds.of_empty (hl : l ≠ 0) (hnext : h.next l = 0) (hlast : (h.list l).last = l)
    (hnalloc : 0 < (h.list l).nalloc) (hnelts : (h.part l).nelts = 0) (helts : 0 < (h.part l).elts)
    (hlt : l < h.brk ∧ (h.part l).elts < h.brk) : Holds h l [] := by
  refine ⟨[], l, ⟨?_, hlast, hnalloc, ?_, ?_, ?_, ?_, ?_⟩, Or.inl rfl, ?_⟩
  · apply Chain.cons hl
    rw [hnext]
    exact Chain.nil h.next 0
  · simp [hnelts]
  · simp
  · simpa using helts
  · simp
  · simpa using hlt
  · simp [contents, slots, hnelts]

theorem ngxListInit_holds {n : Nat} (hn : 0 < n) (hl : l ≠ 0) (hlt : l < h.brk) :
    Holds (ngxListInit n l h) l [] := by
  apply Holds.of_empty hl
  · simp [ListHeap.next, ngxListInit]
  · simp [ngxListInit]
  · simpa [ngxListInit] using hn
  · simp [ngxListInit]
  · simpa [ngxListInit] using Nat.lt_of_le_of_lt (Nat.zero_le l) hlt
  · simpa [ngxListInit] using Nat.lt_succ_of_lt hlt

theorem NgxList.clear_holds (hl : Layout h l front last) : Holds (NgxList.clear l h) l [] := by
  apply Holds.of_empty (hl.pos hl.head_mem)
  · simp [ListHeap.next, NgxList.clear]
  · simp [NgxList.clear]
  · simpa [NgxList.clear] using hl.nalloc_pos
  · simp [NgxList.clear]
  · simpa [NgxList.clear] using hl.elts_pos l hl.head_mem
  · simpa [NgxList.clear] using hl.lt_brk l hl.head_mem

theorem NgxList.reinit_holds (n : Nat) (hl : Layout h l front last) :
    Holds (NgxList.reinit n l h) l [] := by
  apply ngxListInit_holds
  · by_cases hn : n = 0
    · simpa [hn] using hl.nalloc_pos
    · simpa [hn] using Nat.pos_of_ne_zero hn
  · exact hl.pos hl.head_mem
  · exact (hl.lt_brk l hl.head_mem).1

/-- A list keeps its layout where the links and the arrays stay, no part loses elements and none gets too
many. -/
theorem Layout.of_links {h' : ListHeap T} (hl : Layout h l front last) (hnext : h'.next = h.next)
    (hlist : h'.list = h.list) (hbrk : h'.brk = h.brk)
    (harray : ∀ p, (h'.part p).elts = (h.part p).elts)
    (hcount : ∀ p ∈ front ++ [last],
      (h.part p).nelts ≤ (h'.part p).nelts ∧ (h'.part p).nelts ≤ (h.list l).nalloc) :
    Layout h' l front last := by
  refine ⟨?_, ?_, ?_, ?_, ?_, ?_, ?_, ?_⟩
  · rw [hnext]
    exact hl.chain
  · rw [hlist]
    exact hl.last_eq
  · rw [hlist]
    exact hl.nalloc_pos
  · intro p hp
    rw [hlist]
    exact (hcount p hp).2
  · intro p hp
    exact Nat.lt_of_lt_of_le (hl.front_used p hp) (hcount p (List.mem_append_left _ hp)).1
  · intro p hp
    rw [harray]
    exact hl.elts_pos p hp
  · simpa [harray] using hl.elts_nodup
  · intro p hp
    rw [harray, hbrk]
    exact hl.lt_brk p hp

/-- The slot taken is filled. -/
def fillSlot (x : T) (l : Nat) (h : ListHeap T) : ListHeap T := (takeSlot l h).2.write (takeSlot l h).1 x

theorem Layout.part_fillSlot (hl : Layout h l front last) (x : T) : (fillSlot x l h).part =
    Function.update h.part last { h.part last with nelts := (h.part last).nelts + 1 } := by
  simp [fillSlot, takeSlot, write, hl.last_eq]

theorem Layout.elts_fillSlot (hl : Layout h l front last) (x : T) : (fillSlot x l h).elts =
    Function.update h.elts (h.part last).elts
      (Function.update (h.elts (h.part last).elts) (h.part last).nelts x) := by
  simp [fillSlot, takeSlot, write, hl.last_eq]

theorem Layout.fillSlot (hl : Layout h l front last) (hroom : (h.part last).nelts < (h.list l).nalloc)
    (x : T) : Layout (fillSlot x l h) l front last := by
  have hpart := hl.part_fillSlot x
  apply hl.of_links
  · funext p
    by_cases hp : p = last <;> simp [ListHeap.next, hpart, hp]
  · rfl
  · rfl
  · intro p
    by_cases hp : p = last <;> simp [hpart, hp]
  · intro p hp
    by_cases hplast : p = last
    · simpa [hpart, hplast] using Nat.succ_le_of_lt hroom
    · simpa [hpart, hplast] using hl.nelts_le p hp

/-- The sequence is longer by the element. -/
theorem Layout.store (hl : Layout h l front last) (hroom : (h.part last).nelts < (h.list l).nalloc)
    (x : T) : Holds (Ngx.fillSlot x l h) l (h.contents (front ++ [last]) ++ [x]) := by
  have hpart := hl.part_fillSlot x
  have helts := hl.elts_fillSlot x
  refine ⟨front, last, hl.fillSlot hroom x, Or.inr (by simp [hpart]), ?_⟩
  have hfront : ∀ p ∈ front, (Ngx.fillSlot x l h).part p = h.part p := by
    intro p hp
    have hne : p ≠ last := by
      rintro rfl
      exact hl.last_notMem hp
    simp [hpart, hne]
  have hkept : (Ngx.fillSlot x l h).contents front = h.contents front := by
    apply contents_congr
    intro p hp
    apply slots_congr (hfront p hp)
    simp [helts, hl.elts_ne hp]
  have hlast : (Ngx.fillSlot x l h).slots last = h.slots last ++ [x] :=
    slots_takeSlot x (by simp [hpart]) rfl (by simp [helts])
  simp [contents_append, hkept, hlast]

theorem Layout.part_addPart (hl : Layout h l front last) : (addPart l h).part =
    Function.update (Function.update h.part h.brk ⟨h.brk + 1, 0, 0⟩) last
      { h.part last with next := h.brk } := by
  have hne : last ≠ h.brk := Nat.ne_of_lt (hl.lt_brk last (by simp)).1
  simp [Ngx.addPart, hl.last_eq, hne]

theorem Layout.new_addPart (hl : Layout h l front last) :
    (addPart l h).part h.brk = ⟨h.brk + 1, 0, 0⟩ := by
  have hne : h.brk ≠ last := Nat.ne_of_gt (hl.lt_brk last (by simp)).1
  simp [hl.part_addPart, hne]

/-- Of an old part at most the link changes. -/
theorem Layout.old_addPart (hl : Layout h l front last) {p : Nat} (hp : p ∈ front ++ [last]) :
    ((addPart l h).part p).elts = (h.part p).elts ∧
    ((addPart l h).part p).nelts = (h.part p).nelts := by
  have hpb : p ≠ h.brk := Nat.ne_of_lt (hl.lt_brk p hp).1
  by_cases hplast : p = last
  · simp [hl.part_addPart, hplast]
  · simp [hl.part_addPart, hplast, hpb]

theorem Layout.chain_addPart (hl : Layout h l front last) :
    Chain (addPart l h).next 0 l (front ++ [last] ++ [h.brk]) := by
  have hlast : last < h.brk := (hl.lt_brk last (by simp)).1
  rw [List.append_assoc]
  apply hl.chain.cut
  · exact Nat.ne_of_gt (Nat.zero_lt_of_lt hlast)
  · intro p hp
    have hpb : p ≠ h.brk := Nat.ne_of_lt (hl.lt_brk p (by simp [hp])).1
    have hplast : p ≠ last := by
      rintro rfl
      exact hl.last_notMem hp
    simp [ListHeap.next, hl.part_addPart, hpb, hplast]
  · simp [ListHeap.next, hl.part_addPart]
  · simp [ListHeap.next, hl.new_addPart]

theorem Layout.nodup_addPart (hl : Layout h l front last) :
    ((front ++ [last] ++ [h.brk]).map fun p => ((addPart l h).part p).elts).Nodup := by
  have hsame : (front ++ [last]).map (fun p => ((Ngx.addPart l h).part p).elts) =
      (front ++ [last]).map fun p => (h.part p).elts :=
    List.map_congr_left fun p hp => (hl.old_addPart hp).1
  rw [List.map_append, hsame, List.nodup_append]
  refine ⟨hl.elts_nodup, by simp, ?_⟩
  intro a ha b hb
  rcases List.mem_map.1 ha with ⟨p, hp, rfl⟩
  have hlt : (h.part p).elts < h.brk := (hl.lt_brk p hp).2
  have hb' : b = h.brk + 1 := by simpa [hl.new_addPart] using hb
  exact Nat.ne_of_lt (hb' ▸ Nat.lt_succ_of_lt hlt)

theorem Layout.contents_addPart (hl : Layout h l front last) :
    (addPart l h).contents (front ++ [last] ++ [h.brk]) = h.contents (front ++ [last]) := by
  have hkept : (Ngx.addPart l h).contents (front ++ [last]) = h.contents (front ++ [last]) := by
    apply contents_congr
    intro p hp
    have helts : (Ngx.addPart l h).elts = h.elts := rfl
    simp [slots, hl.old_addPart hp, helts]
  have hempty : (Ngx.addPart l h).slots h.brk = [] := by simp [slots, hl.new_addPart]
  rw [contents_append, hkept]
  simp [hempty]

/-- A new part has no elements yet. -/
theorem Layout.addPart (hl : Layout h l front last)
    (hfull : (h.part last).nelts = (h.list l).nalloc) :
    Layout (addPart l h) l (front ++ [last]) h.brk := by
  have hlist : (Ngx.addPart l h).list = Function.update h.list l { h.list l with last := h.brk } :=
    rfl
  have hbrk : (Ngx.addPart l h).brk = h.brk + 2 := rfl
  refine ⟨hl.chain_addPart, ?_, ?_, ?_, ?_, ?_, hl.nodup_addPart, ?_⟩
  · simp [hlist]
  · simpa [hlist] using hl.nalloc_pos
  · intro p hp
    rcases List.mem_append.1 hp with hp | hp
    · rw [(hl.old_addPart hp).2]
      simpa [hlist] using hl.nelts_le p hp
    · rw [List.mem_singleton.1 hp, hl.new_addPart]
      exact Nat.zero_le _
  · intro p hp
    rw [(hl.old_addPart hp).2]
    rcases List.mem_append.1 hp with hp | hp
    · exact hl.front_used p hp
    · rw [List.mem_singleton.1 hp, hfull]
      exact hl.nalloc_pos
  · intro p hp
    rcases List.mem_append.1 hp with hp | hp
    · rw [(hl.old_addPart hp).1]
      exact hl.elts_pos p hp
    · rw [List.mem_singleton.1 hp, hl.new_addPart]
      exact Nat.succ_pos _
  · intro p hp
    rw [hbrk]
    rcases List.mem_append.1 hp with hp | hp
    · rw [(hl.old_addPart hp).1]
      have hlt := hl.lt_brk p hp
      omega
    · rw [List.mem_singleton.1 hp, hl.new_addPart]
      exact ⟨Nat.lt_add_of_pos_right Nat.two_pos, Nat.lt_succ_self _⟩

theorem NgxList.push_holds (x : T) (hxs : Holds h l xs) : Holds (NgxList.push x l h) l (xs ++ [x]) := by
  rcases hxs with ⟨front, last, hl, -, rfl⟩
  by_cases hfull : (h.part last).nelts = (h.list l).nalloc
  · -- the last part is full: the slot is the first of a new one
    have hroom : ((Ngx.addPart l h).part h.brk).nelts < ((Ngx.addPart l h).list l).nalloc := by
      rw [hl.new_addPart]
      exact (hl.addPart hfull).nalloc_pos
    have hstored := (hl.addPart hfull).store hroom x
    rw [hl.contents_addPart] at hstored
    simpa [NgxList.push, NgxList.prepare, ngxListPush, hl.last_eq, hfull, Ngx.fillSlot] using hstored
  · have hroom : (h.part last).nelts < (h.list l).nalloc :=
      Nat.lt_of_le_of_ne (hl.nelts_le last (by simp)) hfull
    simpa [NgxList.push, NgxList.prepare, ngxListPush, hl.last_eq, hfull, Ngx.fillSlot] using
      hl.store hroom x

end operations

/-! ## Iteration -/

/-- The elements from the iterator on are `ys`: it is in slot `i` of a part, with parts in use behind it,
or at the end. -/
inductive At (h : ListHeap T) : NgxListIterator → List T → Prop
  | null : At h null []
  | slot {p i : Nat} {rest : List Nat} {ys : List T} (hchain : Chain h.next 0 p (p :: rest))
      (hused : ∀ q ∈ p :: rest, 0 < (h.part q).nelts ∧ 0 < (h.part q).elts)
      (hi : i < (h.part p).nelts) (hys : (h.slots p).drop i ++ h.contents rest = ys) :
      At h ⟨p, (h.part p).elts, i⟩ ys

/-- The iterator at the first slot of a chain of parts in use, or at the end of an empty one. -/
theorem At.parts {h : ListHeap T} {p : Nat} {parts : List Nat} (hchain : Chain h.next 0 p parts)
    (hused : ∀ q ∈ parts, 0 < (h.part q).nelts ∧ 0 < (h.part q).elts) :
    At h ⟨p, if p = 0 then 0 else (h.part p).elts, 0⟩ (h.contents parts) := by
  cases parts with
  | nil =>
      have hp : p = 0 := hchain.eq_null_of_nil
      subst hp
      exact At.null
  | cons q rest =>
      rcases hchain.cons_inv with ⟨rfl, hne, -⟩
      simpa [hne] using At.slot (i := 0) hchain hused (hused p List.mem_cons_self).1 rfl

namespace At

variable {h : ListHeap T} {it : NgxListIterator} {y : T} {ys : List T}

theorem eq_null (hat : At h it []) : it = NgxListIterator.null := by
  cases hat with
  | null => rfl
  | @slot p i rest _ hchain hused hi hys =>
      have hlength := congrArg List.length hys
      simp only [List.length_append, List.length_drop, length_slots, List.length_nil] at hlength
      omega

/-- One step of an iterator: it is good, refers to the first element, and goes on to the rest. -/
theorem step (hat : At h it (y :: ys)) :
    it.valid h = true ∧ it.dereference h = y ∧ At h (it.increment h) ys := by
  cases hat with
  | @slot p i rest _ hchain hused hi hys =>
      have hpos := hused p List.mem_cons_self
      have hp : p ≠ 0 := hchain.cons_inv.2.1
      have hlt : i < (h.slots p).length := by simpa using hi
      have hdrop : (h.slots p).drop i = h.elts (h.part p).elts i :: (h.slots p).drop (i + 1) := by
        rw [List.drop_eq_getElem_cons hlt]
        simp [slots]
      rw [hdrop] at hys
      rcases List.cons.inj hys with ⟨hhead, hrest⟩
      refine ⟨?_, hhead, ?_⟩
      · simp [valid, hp, Nat.ne_of_gt hpos.1, Nat.ne_of_gt hpos.2]
      · by_cases hend : (h.part p).nelts ≤ i + 1
        · -- the part is done: on to the next part, or to the end
          have hdone : (h.slots p).drop (i + 1) = [] := List.drop_eq_nil_of_le (by simpa using hend)
          have hparts := At.parts hchain.cons_inv.2.2 fun q hq => hused q (List.mem_cons_of_mem p hq)
          have hcontents : h.contents rest = ys := by simpa [hdone] using hrest
          rw [hcontents] at hparts
          have hgo : increment h ⟨p, (h.part p).elts, i⟩ =
              ⟨h.next p, if h.next p = 0 then 0 else (h.part (h.next p)).elts, 0⟩ := by
            unfold increment
            rw [if_neg (by simp [hp, Nat.ne_of_gt hpos.2]), if_pos hend]
            rfl
          rw [hgo]
          exact hparts
        · have hin : At h ⟨p, (h.part p).elts, i + 1⟩ ys :=
            .slot hchain hused (Nat.not_le.1 hend) hrest
          simpa [increment, hp, Nat.ne_of_gt hpos.2, hend] using hin

end At

theorem not_valid_null (h : ListHeap T) : NgxListIterator.null.valid h = false := rfl

namespace Holds

variable {h : ListHeap T} {l : Nat} {xs : List T}

/-- `begin()` is at the first element, or not good when there is none. -/
theorem ofList_at (hxs : Holds h l xs) :
    At h (ofList h l) xs ∨ (xs = [] ∧ (ofList h l).valid h = false) := by
  rcases hxs with ⟨front, last, hl, hlast, rfl⟩
  have hne : l ≠ 0 := hl.pos hl.head_mem
  by_cases hempty : (h.part last).nelts = 0
  · -- the only part has no elements
    have hfront : front = [] := hlast.resolve_right (by simp [hempty])
    subst hfront
    have hll : l = last := hl.chain.cons_inv.1
    refine Or.inr ⟨?_, ?_⟩
    · simp [slots, hempty]
    · simp [ofList, valid, hll, hempty]
  · left
    have hused : ∀ q ∈ front ++ [last], 0 < (h.part q).nelts ∧ 0 < (h.part q).elts := by
      intro q hq
      refine ⟨?_, hl.elts_pos q hq⟩
      rcases List.mem_append.1 hq with hq | hq
      · exact hl.front_used q hq
      · rw [List.mem_singleton.1 hq]
        exact Nat.pos_of_ne_zero hempty
    simpa [ofList, hne] using At.parts hl.chain hused

theorem length_le (hxs : Holds h l xs) : xs.length ≤ NgxList.capacity h l := by
  rcases hxs with ⟨front, last, hl, -, rfl⟩
  have hparts : (front ++ [last]).length ≤ h.brk := by
    have hsub : front ++ [last] ⊆ List.range h.brk :=
      fun p hp => List.mem_range.2 (hl.lt_brk p hp).1
    simpa using (List.Nodup.subperm hl.chain.nodup hsub).length_le
  have hsum : ∀ parts : List Nat, (∀ p ∈ parts, (h.part p).nelts ≤ (h.list l).nalloc) →
      (h.contents parts).length ≤ parts.length * (h.list l).nalloc := by
    intro parts hle
    induction parts with
    | nil => simp
    | cons p parts ih =>
        have hhead := hle p List.mem_cons_self
        have htail := ih fun q hq => hle q (List.mem_cons_of_mem p hq)
        calc
          (h.contents (p :: parts)).length = (h.part p).nelts + (h.contents parts).length := by simp
          _ ≤ (h.list l).nalloc + parts.length * (h.list l).nalloc := Nat.add_le_add hhead htail
          _ = (p :: parts).length * (h.list l).nalloc := by
            rw [List.length_cons, Nat.succ_mul, Nat.add_comm]
  calc
    (h.contents (front ++ [last])).length ≤ (front ++ [last]).length * (h.list l).nalloc :=
      hsum _ hl.nelts_le
    _ ≤ h.brk * (h.list l).nalloc := Nat.mul_le_mul_right _ hparts

end Holds

namespace NgxList

section loops

variable {h : ListHeap T} {l : Nat} {xs ys : List T} {it : NgxListIterator} {fuel : Nat}

theorem visitLoop_at {heap : S → ListHeap T} {v : T → S → S} {s : S}
    (hv : ∀ x s, heap (v x s) = heap s) (hat : At (heap s) it ys) (hfuel : ys.length ≤ fuel) :
    visitLoop heap v fuel it s = some (ys.foldl (fun s x => v x s) s) := by
  induction ys generalizing it s fuel with
  | nil =>
      have hnull : it = NgxListIterator.null := hat.eq_null
      cases fuel with
      | zero => simp [visitLoop, hnull, not_valid_null]
      | succ fuel => simp [visitLoop, hnull, not_valid_null]
  | cons y ys ih =>
      rcases hat.step with ⟨hvalid, hderef, hrest⟩
      cases fuel with
      | zero => cases hfuel
      | succ fuel =>
          have hrest' : At (heap (v y s)) (it.increment (heap s)) ys := by
            rw [hv]
            exact hrest
          simpa [visitLoop, hvalid, hderef, hv] using ih hrest' (Nat.le_of_succ_le_succ hfuel)

/-- A visit that leaves the list alone calls the function once for each element, in order. -/
theorem visit_holds {heap : S → ListHeap T} {v : T → S → S} {s : S}
    (hv : ∀ x s, heap (v x s) = heap s) (hxs : Holds (heap s) l xs) :
    visit heap v l s = some (xs.foldl (fun s x => v x s) s) := by
  rcases hxs.ofList_at with hat | ⟨rfl, hinvalid⟩
  · exact visitLoop_at hv hat hxs.length_le
  · unfold visit
    cases capacity (heap s) l with
    | zero => simp [visitLoop, hinvalid]
    | succ fuel => simp [visitLoop, hinvalid]

/-- What `find` returns: the iterator of the first element with the property, or the end. -/
def foundAt (h : ListHeap T) (it : NgxListIterator) (p : T → Bool) (ys : List T) : NgxListIterator :=
  match ys.findIdx? p with
  | some k => (increment h)^[k] it
  | none => NgxListIterator.null

theorem findLoop_at (p : T → Bool) (hat : At h it ys) (hfuel : ys.length ≤ fuel) :
    findLoop h p fuel it = some (foundAt h it p ys) := by
  -- On what the iterator has before it.
  induction ys generalizing it fuel with
  | nil =>
      have hnull : it = NgxListIterator.null := hat.eq_null
      cases fuel with
      | zero => simp [findLoop, hnull, not_valid_null, foundAt]
      | succ fuel => simp [findLoop, hnull, not_valid_null, foundAt]
  | cons y ys ih =>
      rcases hat.step with ⟨hvalid, hderef, hrest⟩
      cases fuel with
      | zero => cases hfuel
      | succ fuel =>
          have htail := ih hrest (Nat.le_of_succ_le_succ hfuel)
          cases hp : p y with
          | true => simp [findLoop, hvalid, hderef, hp, foundAt, List.findIdx?_cons]
          | false =>
              cases hk : ys.findIdx? p with
              | none => simp [findLoop, hvalid, hderef, hp, htail, foundAt, List.findIdx?_cons, hk]
              | some k => simp [findLoop, hvalid, hderef, hp, htail, foundAt, List.findIdx?_cons, hk]

/-- After `k` steps an iterator is good and at the element with index `k`. -/
theorem at_iterate (hat : At h it ys) {k : Nat} (hk : k < ys.length) :
    ((increment h)^[k] it).valid h = true ∧
      ((increment h)^[k] it).dereference h = ys.get ⟨k, hk⟩ := by
  induction k generalizing it ys with
  | zero =>
      cases ys with
      | nil => cases hk
      | cons y ys => exact ⟨hat.step.1, hat.step.2.1⟩
  | succ k ih =>
      cases ys with
      | nil => cases hk
      | cons y ys => exact ih hat.step.2.2 (Nat.lt_of_succ_lt_succ hk)

theorem iterate_ofList (hxs : Holds h l xs) {k : Nat} (hk : k < xs.length) :
    (increment h)^[k] (ofList h l) ≠ NgxListIterator.null ∧
      ((increment h)^[k] (ofList h l)).dereference h = xs.get ⟨k, hk⟩ := by
  rcases hxs.ofList_at with hat | ⟨hnil, -⟩
  · rcases at_iterate hat hk with ⟨hvalid, hderef⟩
    refine ⟨?_, hderef⟩
    intro hnull
    rw [hnull] at hvalid
    cases hvalid
  · subst hnil
    cases hk

theorem find_holds (p : T → Bool) (hxs : Holds h l xs) :
    find h l p = some (foundAt h (ofList h l) p xs) := by
  rcases hxs.ofList_at with hat | ⟨rfl, hinvalid⟩
  · exact findLoop_at p hat hxs.length_le
  · unfold find
    cases capacity h l with
    | zero => simp [findLoop, hinvalid, foundAt]
    | succ fuel => simp [findLoop, hinvalid, foundAt]

end loops

end NgxList

/-! ## Changing an element in place -/

/-- The list whose elements are its own slots. -/
def ListHeap.places (h : ListHeap T) : ListHeap (Nat × Nat) := ⟨h.list, h.part, Prod.mk, h.brk⟩

section places

variable {h : ListHeap T} {l last : Nat} {front : List Nat} {xs : List T}

theorem contents_eq_map (h : ListHeap T) (parts : List Nat) :
    h.contents parts = (h.places.contents parts).map fun s => h.elts s.1 s.2 := by
  induction parts with
  | nil => rfl
  | cons p parts ih => simp [ih, slots, ListHeap.places]

theorem Layout.places (hl : Layout h l front last) : Layout h.places l front last :=
  ⟨hl.chain, hl.last_eq, hl.nalloc_pos, hl.nelts_le, hl.front_used, hl.elts_pos, hl.elts_nodup,
    hl.lt_brk⟩

/-- No slot is used twice. -/
theorem Layout.nodup_places (hl : Layout h l front last) :
    (h.places.contents (front ++ [last])).Nodup := by
  apply List.nodup_flatMap.2
  constructor
  · intro p _
    apply List.Nodup.map
    · intro i j hij
      exact (Prod.mk.inj hij).2
    · exact List.nodup_range
  · apply (List.pairwise_map.1 hl.elts_nodup).imp
    intro p q hne s hp hq
    simp only [slots, ListHeap.places, List.mem_map] at hp hq
    rcases hp with ⟨i, -, rfl⟩
    rcases hq with ⟨j, -, heq⟩
    exact hne (Prod.mk.inj heq).1.symm

/-- Writing where an iterator is changes that element only. -/
theorem Holds.set (hxs : Holds h l xs) {k : Nat} (hk : k < xs.length) (x : T) :
    Holds (h.write (((increment h)^[k] (ofList h l)).data, ((increment h)^[k] (ofList h l)).count) x)
      l (xs.set k x) := by
  rcases hxs with ⟨front, last, hl, hlast, rfl⟩
  obtain ⟨it, hit⟩ : ∃ it, it = (increment h)^[k] (ofList h l) := ⟨_, rfl⟩
  obtain ⟨places, hplaces⟩ : ∃ places, places = h.places.contents (front ++ [last]) := ⟨_, rfl⟩
  have hread : h.contents (front ++ [last]) = places.map fun s => h.elts s.1 s.2 := by
    rw [hplaces]
    exact contents_eq_map h _
  have hk' : k < places.length := by simpa [hread] using hk
  have hnodup : places.Nodup := by
    rw [hplaces]
    exact hl.nodup_places
  -- the iterator is at the `k`-th slot
  have hslot : (it.data, it.count) = places[k] := by
    have hholds : Holds h.places l places := ⟨front, last, hl.places, hlast, hplaces.symm⟩
    rw [hit]
    exact (NgxList.iterate_ofList hholds hk').2
  rw [← hit]
  refine ⟨front, last, ?_, hlast, ?_⟩
  · exact ⟨hl.chain, hl.last_eq, hl.nalloc_pos, hl.nelts_le, hl.front_used, hl.elts_pos,
      hl.elts_nodup, hl.lt_brk⟩
  · have hidx : @List.idxOf _ instBEqOfDecidableEq places[k] places = k :=
      @List.Nodup.idxOf_getElem _ instBEqOfDecidableEq inferInstance _ hnodup k hk'
    have hwrite : (fun s : Nat × Nat => (h.write (it.data, it.count) x).elts s.1 s.2) =
        Function.update (fun s => h.elts s.1 s.2) (it.data, it.count) x := by
      funext s
      by_cases hs : s = (it.data, it.count)
      · simp [hs, write]
      · by_cases hdata : s.1 = it.data
        · have hcount : s.2 ≠ it.count := fun hcount => hs (Prod.ext hdata hcount)
          simp [hs, write, hdata, hcount]
        · simp [hs, write, hdata]
    calc
      (h.write (it.data, it.count) x).contents (front ++ [last]) =
          places.map fun s => (h.write (it.data, it.count) x).elts s.1 s.2 := by
        rw [hplaces]
        exact contents_eq_map _ _
      _ = (places.map fun s => h.elts s.1 s.2).set k x := by
        rw [hwrite, hnodup.map_update, hslot, if_pos (List.getElem_mem hk'), hidx]
      _ = (h.contents (front ++ [last])).set k x := by rw [← hread]

end places

/-! ## Runs -/

inductive ListOp (T : Type*)
  | push (x : T)
  | clear
  | reinit (n : Nat)

/-- The operation on the list at `l`. -/
def ListOp.run (l : Nat) (h : ListHeap T) : ListOp T → ListHeap T
  | .push x => NgxList.push x l h
  | .clear => NgxList.clear l h
  | .reinit n => NgxList.reinit n l h

/-- The operation on a sequence. -/
def ListOp.apply (xs : List T) : ListOp T → List T
  | .push x => xs ++ [x]
  | .clear => []
  | .reinit _ => []

theorem ListOp.run_holds {h : ListHeap T} {l : Nat} {xs : List T} (hxs : Holds h l xs)
    (op : ListOp T) : Holds (op.run l h) l (op.apply xs) := by
  cases op with
  | push x => exact NgxList.push_holds x hxs
  | clear =>
      rcases hxs with ⟨front, last, hl, -, -⟩
      exact NgxList.clear_holds hl
  | reinit n =>
      rcases hxs with ⟨front, last, hl, -, -⟩
      exact NgxList.reinit_holds n hl

theorem ngxListCreate_holds {n : Nat} (hn : 0 < n) {h : ListHeap T} (hbrk : 0 < h.brk) :
    Holds (ngxListCreate n h).2 (ngxListCreate n h).1 [] :=
  ngxListInit_holds hn (Nat.ne_of_gt hbrk) (Nat.lt_succ_self _)

/-- After any operations on a new list, it holds what the same operations leave of the empty sequence. -/
theorem runs_hold {n : Nat} (hn : 0 < n) {h : ListHeap T} (hbrk : 0 < h.brk)
    (ops : List (ListOp T)) :
    Holds (Trace.run (ListOp.run (ngxListCreate n h).1) (ngxListCreate n h).2 ops)
      (ngxListCreate n h).1 (Trace.run ListOp.apply [] ops) := by
  have hkept : ∀ (ops : List (ListOp T)) (g : ListHeap T) (xs : List T),
      Holds g (ngxListCreate n h).1 xs →
        Holds (Trace.run (ListOp.run (ngxListCreate n h).1) g ops) (ngxListCreate n h).1
          (Trace.run ListOp.apply xs ops) := by
    intro ops
    induction ops with
    | nil => exact fun g xs hxs => hxs
    | cons op ops ih => exact fun g xs hxs => ih _ _ (ListOp.run_holds hxs op)
  exact hkept ops _ _ (ngxListCreate_holds hn hbrk)

/-- After any operations on a new list, `visit` calls its function on the elements of the sequence, each
once and in order, and `find` returns an iterator to the first that satisfies the predicate, or the
end. -/
theorem list_is_sequence {n : Nat} (hn : 0 < n) (h : ListHeap T) (hbrk : 0 < h.brk)
    (ops : List (ListOp T)) :
    let l := (ngxListCreate n h).1
    let g := Trace.run (ListOp.run l) (ngxListCreate n h).2 ops
    let xs := Trace.run ListOp.apply [] ops
    (∀ (R : Type) (f : R → T → R) (r : R),
      NgxList.visit Prod.fst (fun x s => (s.1, f s.2 x)) l (g, r) = some (g, xs.foldl f r)) ∧
    ∀ p : T → Bool,
      match xs.findIdx? p with
      | some k => NgxList.find g l p = some ((increment g)^[k] (ofList g l)) ∧
          some (((increment g)^[k] (ofList g l)).dereference g) = xs[k]?
      | none => NgxList.find g l p = some NgxListIterator.null := by
  intro l g xs
  have hxs : Holds g l xs := runs_hold hn hbrk ops
  constructor
  · intro R f r
    have hvisit : NgxList.visit Prod.fst (fun x s => (s.1, f s.2 x)) l (g, r) =
        some (xs.foldl (fun s x => (s.1, f s.2 x)) (g, r)) :=
      NgxList.visit_holds (fun _ _ => rfl) hxs
    rw [hvisit]
    have hfold : ∀ (ys : List T) (r : R),
        ys.foldl (fun s x => (s.1, f s.2 x)) (g, r) = (g, ys.foldl f r) := by
      intro ys
      induction ys with
      | nil => exact fun r => rfl
      | cons y ys ih => exact fun r => ih (f r y)
    rw [hfold]
  · intro p
    have hfind := NgxList.find_holds p hxs
    cases hk : xs.findIdx? p with
    | none => simpa [NgxList.foundAt, hk] using hfind
    | some k =>
        have hlt : k < xs.length := (List.findIdx?_eq_some_iff_findIdx_eq.1 hk).1
        refine ⟨by simpa [NgxList.foundAt, hk] using hfind, ?_⟩
        rw [(NgxList.iterate_ofList hxs hlt).2, List.getElem?_eq_getElem hlt]
        rfl

/-- Three numbers pushed on a list whose parts have room for two. -/
def threePushes : ListHeap Nat :=
  let h := ngxListCreate 2 ⟨fun _ => ⟨0, 0⟩, fun _ => ⟨0, 0, 0⟩, fun _ _ => 0, 1⟩
  Trace.run (ListOp.run h.1) h.2 [.push 5, .push 6, .push 7]

theorem list_is_sequence_threePushes :
    NgxList.visit Prod.fst (fun x s => (s.1, s.2 ++ [x])) 1 (threePushes, []) =
      some (threePushes, [5, 6, 7]) ∧
    NgxList.find threePushes 1 (fun x => x == 7) =
      some ((increment threePushes)^[2] (ofList threePushes 1)) := by
  have hsequence := list_is_sequence (n := 2) (by decide)
    (⟨fun _ => ⟨0, 0⟩, fun _ => ⟨0, 0, 0⟩, fun _ _ => 0, 1⟩ : ListHeap Nat) (by decide)
    [.push 5, .push 6, .push 7]
  exact ⟨hsequence.1 (List Nat) (fun r x => r ++ [x]) [], (hsequence.2 fun x => x == 7).1⟩

end Ngx
end CppPractice
