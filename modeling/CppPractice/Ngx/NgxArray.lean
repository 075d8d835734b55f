import CppPractice.Ngx.ListWalk

/-!
# NgxArray — arrays that grow, and merging

`ngx_array_t` and its wrapper `NgxArray`.  The elements of an array are in one block of its pool.
`ngx_array_push` enlarges the block where it is the last of the pool and there is space behind it, and
else moves the elements to a new block; the old one is given up.

A block is known by a number; `addr` says where it is, for the test of `ngx_array_push` only.  Steps that
read or write outside a block, or in one that was given up, give `none`.
-/

namespace CppPractice
namespace Ngx

/-- `ngx_array_t`; `size` is that of the element type. -/
structure NgxArrayT where
  elts : Nat
  nelts : Nat
  nalloc : Nat
  pool : Nat
  deriving DecidableEq, Repr

/-- `ngx_pool_data_t` of a pool, as addresses. -/
structure NgxPoolData where
  last : Nat
  fin : Nat
  deriving DecidableEq, Repr

/-- `addr` and `after` have, for the block that an `ngx_palloc` makes, what it returns and what the data
of the pool are then; they are arbitrary. -/
structure ArrayHeap (T : Type*) where
  array : Nat → NgxArrayT
  pool : Nat → NgxPoolData
  addr : Nat → Nat
  after : Nat → NgxPoolData
  /-- How many elements the block has space for. -/
  room : Nat → Nat
  givenUp : Nat → Bool
  elts : Nat → Nat → T
  /-- Blocks from this one on are still to be made. -/
  brk : Nat

variable {T : Type*}

namespace ArrayHeap

def read (ref : Nat × Nat) (h : ArrayHeap T) : Option T :=
  if ref.2 < h.room ref.1 ∧ h.givenUp ref.1 = false then some (h.elts ref.1 ref.2) else none

def write (ref : Nat × Nat) (x : T) (h : ArrayHeap T) : Option (ArrayHeap T) :=
  if ref.2 < h.room ref.1 ∧ h.givenUp ref.1 = false then
    some { h with elts := Function.update h.elts ref.1 (Function.update (h.elts ref.1) ref.2 x) }
  else none

end ArrayHeap

/-- The block is the last one in the pool, and there is space for another element. -/
def fitsInPlace (size a : Nat) (h : ArrayHeap T) : Bool :=
  let d := h.pool (h.array a).pool
  h.addr (h.array a).elts + size * (h.array a).nalloc = d.last ∧ d.last + size ≤ d.fin

def growInPlace (size a : Nat) (h : ArrayHeap T) : ArrayHeap T :=
  let d := h.pool (h.array a).pool
  let block := (h.array a).elts
  { h with
    pool := Function.update h.pool (h.array a).pool { d with last := d.last + size }
    array := Function.update h.array a { h.array a with nalloc := (h.array a).nalloc + 1 }
    room := Function.update h.room block (h.room block + 1) }

/-- `ngx_palloc(p, 2 * size)` and `ngx_memcpy(new, a->elts, size)`, where `size` is that of the block. -/
def moveToNew (a : Nat) (h : ArrayHeap T) : ArrayHeap T :=
  let arr := h.array a
  { h with
    pool := Function.update h.pool arr.pool (h.after h.brk)
    array := Function.update h.array a { arr with elts := h.brk, nalloc := arr.nalloc * 2 }
    room := Function.update h.room h.brk (arr.nalloc * 2)
    givenUp := Function.update (Function.update h.givenUp arr.elts true) h.brk false
    elts := Function.update h.elts h.brk
      fun i => if i < arr.nalloc then h.elts arr.elts i else h.elts h.brk i
    brk := h.brk + 1 }

/-- The part of `ngx_array_push` for a full array. -/
def makeRoom (size a : Nat) (h : ArrayHeap T) : ArrayHeap T :=
  if (h.array a).nelts = (h.array a).nalloc then
    if fitsInPlace size a h then growInPlace size a h else moveToNew a h
  else h

/-- `a->nelts++` -/
def countOne (a : Nat) (h : ArrayHeap T) : ArrayHeap T :=
  { h with array := Function.update h.array a { h.array a with nelts := (h.array a).nelts + 1 } }

/-- `ngx_array_push(a)`, which returns the slot. -/
def ngxArrayPush (size a : Nat) (h : ArrayHeap T) : (Nat × Nat) × ArrayHeap T :=
  let h := makeRoom size a h
  (((h.array a).elts, (h.array a).nelts), countOne a h)

namespace NgxArray

def prepare (size a : Nat) (h : ArrayHeap T) : (Nat × Nat) × ArrayHeap T := ngxArrayPush size a h

/-- `for(i = 0;i < size(); ++i) v(p[i]);` where `p` is the block at the start and `v` gets a reference. -/
def visitLoop (v : Nat × Nat → ArrayHeap T → Option (ArrayHeap T)) (a p : Nat) :
    Nat → Nat → ArrayHeap T → Option (ArrayHeap T)
  | 0, i, h => if i < (h.array a).nelts then none else some h
  | fuel + 1, i, h =>
      if i < (h.array a).nelts then do
        let h ← v (p, i) h
        visitLoop v a p fuel (i + 1) h
      else
        some h

def visit (v : Nat × Nat → ArrayHeap T → Option (ArrayHeap T)) (fuel a : Nat) (h : ArrayHeap T) :
    Option (ArrayHeap T) :=
  visitLoop v a (h.array a).elts fuel 0 h

/-- `prepare() = v`, which reads `v` when the slot is there. -/
def assign (size a : Nat) (v : Nat × Nat) (h : ArrayHeap T) : Option (ArrayHeap T) := do
  let r := prepare size a h
  let x ← r.2.read v
  r.2.write r.1 x

/-- `a.merge(b)` -/
def merge (size fuel a b : Nat) (h : ArrayHeap T) : Option (ArrayHeap T) :=
  visit (assign size a) fuel b h

end NgxArray

/-- The array at `a` is the sequence `xs`. -/
structure HoldsArray (h : ArrayHeap T) (a : Nat) (xs : List T) : Prop where
  room : h.room (h.array a).elts = (h.array a).nalloc
  kept : h.givenUp (h.array a).elts = false
  lt_brk : (h.array a).elts < h.brk
  nelts_le : (h.array a).nelts ≤ (h.array a).nalloc
  length_eq : xs.length = (h.array a).nelts
  get : ∀ (i : Nat) (hi : i < xs.length), h.elts (h.array a).elts i = xs[i]

/-- The merge ends; `a` has its elements and those of `b` after them, and another `b` keeps its own. -/
def NgxArray.Merges (size : Nat) (h : ArrayHeap T) (a b : Nat) (xs ys : List T) : Prop :=
  ∃ fuel h', NgxArray.merge size fuel a b h = some h' ∧ HoldsArray h' a (xs ++ ys) ∧
    (a ≠ b → HoldsArray h' b ys)

/-- The array has space, or gets some when it grows. -/
def Growable (size a : Nat) (h : ArrayHeap T) : Prop := (h.array a).nalloc ≠ 0 ∨ fitsInPlace size a h = true

namespace HoldsArray

variable {h h' : ArrayHeap T} {size a b : Nat} {x y : T} {xs ys : List T}

theorem read (hxs : HoldsArray h a xs) {i : Nat} (hi : i < xs.length) :
    h.read ((h.array a).elts, i) = some xs[i] := by
  have hroom : i < h.room (h.array a).elts := by
    rw [hxs.room]
    exact Nat.lt_of_lt_of_le (hxs.length_eq ▸ hi) hxs.nelts_le
  rw [ArrayHeap.read, if_pos ⟨hroom, hxs.kept⟩, hxs.get i hi]

/-- Writing the last element. -/
theorem write (hxs : HoldsArray h a (xs ++ [y])) (x : T) :
    ∃ h', h.write ((h.array a).elts, xs.length) x = some h' ∧ HoldsArray h' a (xs ++ [x]) ∧
      h'.array = h.array ∧ h'.room = h.room ∧ h'.givenUp = h.givenUp ∧ h'.brk = h.brk ∧
      ∀ c ≠ (h.array a).elts, h'.elts c = h.elts c := by
  have hlength : xs.length + 1 = (h.array a).nelts := by
    rw [← hxs.length_eq, List.length_append, List.length_singleton]
  have hroom : xs.length < h.room (h.array a).elts := by
    rw [hxs.room]
    exact Nat.lt_of_lt_of_le (hlength ▸ Nat.lt_succ_self _) hxs.nelts_le
  refine ⟨_, if_pos ⟨hroom, hxs.kept⟩, ⟨hxs.room, hxs.kept, hxs.lt_brk, hxs.nelts_le, ?_, ?_⟩, rfl, rfl,
    rfl, rfl, fun c hc => Function.update_of_ne hc _ _⟩
  · rw [List.length_append, List.length_singleton]
    exact hlength
  · intro i hi
    simp only [Function.update_self]
    by_cases hlast : i = xs.length
    · subst hlast
      simp
    · have hi' : i < xs.length := by
        rw [List.length_append, List.length_singleton] at hi
        exact Nat.lt_of_le_of_ne (Nat.le_of_lt_succ hi) hlast
      have hold := hxs.get i (by
        rw [List.length_append]
        exact Nat.lt_add_right _ hi')
      rw [List.getElem_append_left hi'] at hold
      rw [Function.update_of_ne hlast, List.getElem_append_left hi', hold]

theorem countOne (hxs : HoldsArray h a xs) (hroom : (h.array a).nelts < (h.array a).nalloc) :
    HoldsArray (countOne a h) a (xs ++ [h.elts (h.array a).elts (h.array a).nelts]) := by
  refine ⟨?_, ?_, ?_, ?_, ?_, ?_⟩
  · simpa [Ngx.countOne] using hxs.room
  · simpa [Ngx.countOne] using hxs.kept
  · simpa [Ngx.countOne] using hxs.lt_brk
  · simpa [Ngx.countOne] using Nat.succ_le_of_lt hroom
  · simp [Ngx.countOne, hxs.length_eq]
  · intro i hi
    simp only [Ngx.countOne, Function.update_self]
    by_cases hlast : i = xs.length
    · subst hlast
      simp [hxs.length_eq]
    · have hi' : i < xs.length := by
        rw [List.length_append, List.length_singleton] at hi
        exact Nat.lt_of_le_of_ne (Nat.le_of_lt_succ hi) hlast
      rw [List.getElem_append_left hi']
      exact hxs.get i hi'

theorem growInPlace (hxs : HoldsArray h a xs) (size : Nat) : HoldsArray (growInPlace size a h) a xs := by
  refine ⟨?_, ?_, ?_, ?_, ?_, ?_⟩
  · simp [Ngx.growInPlace, hxs.room]
  · simpa [Ngx.growInPlace] using hxs.kept
  · simpa [Ngx.growInPlace] using hxs.lt_brk
  · simpa [Ngx.growInPlace] using Nat.le_succ_of_le hxs.nelts_le
  · simpa [Ngx.growInPlace] using hxs.length_eq
  · simpa [Ngx.growInPlace] using hxs.get

theorem moveToNew (hxs : HoldsArray h a xs) : HoldsArray (moveToNew a h) a xs := by
  have hne : h.brk ≠ (h.array a).elts := Nat.ne_of_gt hxs.lt_brk
  refine ⟨?_, ?_, ?_, ?_, ?_, ?_⟩
  · simp [Ngx.moveToNew]
  · simp [Ngx.moveToNew]
  · simp [Ngx.moveToNew]
  · simpa [Ngx.moveToNew] using Nat.le_trans hxs.nelts_le (Nat.le_mul_of_pos_right _ Nat.two_pos)
  · simpa [Ngx.moveToNew] using hxs.length_eq
  · intro i hi
    have hlt : i < (h.array a).nalloc := Nat.lt_of_lt_of_le (hxs.length_eq ▸ hi) hxs.nelts_le
    simpa [Ngx.moveToNew, hlt] using hxs.get i hi

end HoldsArray

/-! ## What a push leaves alone -/

section push

variable {h h' h'' : ArrayHeap T} {size a b : Nat} {x y : T} {xs ys : List T}

def SameBlock (h h' : ArrayHeap T) (c : Nat) : Prop :=
  h'.room c = h.room c ∧ h'.givenUp c = h.givenUp c ∧ h'.elts c = h.elts c

/-- Other arrays, and the blocks that are neither new nor that of `a`. -/
structure OnlyArray (a : Nat) (h h' : ArrayHeap T) : Prop where
  array : ∀ d ≠ a, h'.array d = h.array d
  brk : h.brk ≤ h'.brk
  block : ∀ c < h.brk, c ≠ (h.array a).elts → SameBlock h h' c ∧ c ≠ (h'.array a).elts

theorem OnlyArray.trans (hs : OnlyArray a h h') (hs' : OnlyArray a h' h'') : OnlyArray a h h'' where
  array d hd := (hs'.array d hd).trans (hs.array d hd)
  brk := Nat.le_trans hs.brk hs'.brk
  block c hc hne := by
    rcases hs.block c hc hne with ⟨⟨hroom, hkept, helts⟩, hne'⟩
    rcases hs'.block c (Nat.lt_of_lt_of_le hc hs.brk) hne' with ⟨⟨hroom', hkept', helts'⟩, hne''⟩
    exact ⟨⟨hroom'.trans hroom, hkept'.trans hkept, helts'.trans helts⟩, hne''⟩

theorem OnlyArray.holds (hs : OnlyArray a h h') (hab : b ≠ a) (hne : (h.array b).elts ≠ (h.array a).elts)
    (hys : HoldsArray h b ys) : HoldsArray h' b ys ∧ (h'.array b).elts ≠ (h'.array a).elts := by
  have harray : h'.array b = h.array b := hs.array b hab
  rcases hs.block _ hys.lt_brk hne with ⟨⟨hroom, hkept, helts⟩, hne'⟩
  refine ⟨⟨?_, ?_, ?_, ?_, ?_, ?_⟩, ?_⟩
  · rw [harray, hroom, hys.room]
  · rw [harray, hkept, hys.kept]
  · rw [harray]
    exact Nat.lt_of_lt_of_le hys.lt_brk hs.brk
  · rw [harray]
    exact hys.nelts_le
  · rw [harray]
    exact hys.length_eq
  · rw [harray, helts]
    exact hys.get
  · rw [harray]
    exact hne'

theorem onlyArray_growInPlace (size a : Nat) (h : ArrayHeap T) : OnlyArray a h (growInPlace size a h) where
  array d hd := Function.update_of_ne hd _ _
  brk := Nat.le_refl _
  block c _ hne := ⟨⟨Function.update_of_ne hne _ _, rfl, rfl⟩, by simpa [growInPlace] using hne⟩

theorem onlyArray_moveToNew (a : Nat) (h : ArrayHeap T) : OnlyArray a h (moveToNew a h) where
  array d hd := Function.update_of_ne hd _ _
  brk := Nat.le_succ _
  block c hc hne := by
    have hnew : c ≠ h.brk := Nat.ne_of_lt hc
    refine ⟨⟨?_, ?_, ?_⟩, ?_⟩
    · simp [moveToNew, hnew]
    · simp [moveToNew, hnew, hne]
    · simp [moveToNew, hnew]
    · simpa [moveToNew] using hnew

theorem onlyArray_countOne (a : Nat) (h : ArrayHeap T) : OnlyArray a h (countOne a h) where
  array d hd := Function.update_of_ne hd _ _
  brk := Nat.le_refl _
  block c _ hne := ⟨⟨rfl, rfl, rfl⟩, by simpa [countOne] using hne⟩

theorem makeRoom_spec (hxs : HoldsArray h a xs) (hgrow : Growable size a h) :
    HoldsArray (makeRoom size a h) a xs ∧ OnlyArray a h (makeRoom size a h) ∧
      ((makeRoom size a h).array a).nelts < ((makeRoom size a h).array a).nalloc := by
  rw [makeRoom]
  by_cases hfull : (h.array a).nelts = (h.array a).nalloc
  · rw [if_pos hfull]
    by_cases hfits : fitsInPlace size a h = true
    · rw [if_pos hfits]
      refine ⟨hxs.growInPlace size, onlyArray_growInPlace size a h, ?_⟩
      simp [growInPlace, hfull]
    · rw [if_neg hfits]
      have hsome : (h.array a).nalloc ≠ 0 := hgrow.resolve_right hfits
      refine ⟨hxs.moveToNew, onlyArray_moveToNew a h, ?_⟩
      have hmore : (h.array a).nalloc < (h.array a).nalloc * 2 :=
        (Nat.lt_mul_iff_one_lt_right (Nat.pos_of_ne_zero hsome)).2 Nat.one_lt_two
      simpa [moveToNew, hfull] using hmore
  · rw [if_neg hfull]
    refine ⟨hxs, ⟨fun _ _ => rfl, Nat.le_refl _, fun _ _ hne => ⟨⟨rfl, rfl, rfl⟩, hne⟩⟩, ?_⟩
    exact Nat.lt_of_le_of_ne hxs.nelts_le hfull

theorem nelts_makeRoom (size a : Nat) (h : ArrayHeap T) :
    ((makeRoom size a h).array a).nelts = (h.array a).nelts := by
  rw [makeRoom]
  split
  · split
    · simp [growInPlace]
    · simp [moveToNew]
  · rfl

theorem nelts_prepare (size a : Nat) (h : ArrayHeap T) :
    ((NgxArray.prepare size a h).2.array a).nelts = (h.array a).nelts + 1 := by
  simp [NgxArray.prepare, ngxArrayPush, countOne, nelts_makeRoom]

/-- The array is longer by a slot, whose contents are arbitrary. -/
theorem prepare_spec (hxs : HoldsArray h a xs) (hgrow : Growable size a h) :
    ∃ y, HoldsArray (NgxArray.prepare size a h).2 a (xs ++ [y]) ∧
      OnlyArray a h (NgxArray.prepare size a h).2 ∧
      (NgxArray.prepare size a h).1 = (((NgxArray.prepare size a h).2.array a).elts, xs.length) := by
  rcases makeRoom_spec hxs hgrow with ⟨hholds, honly, hroom⟩
  refine ⟨_, hholds.countOne hroom, honly.trans (onlyArray_countOne a _), ?_⟩
  simp [NgxArray.prepare, ngxArrayPush, countOne, hholds.length_eq]

/-! ## Merging -/

theorem HoldsArray.growable (hxs : HoldsArray h a (xs ++ [y])) (size : Nat) : Growable size a h := by
  left
  have hlength := hxs.length_eq
  rw [List.length_append, List.length_singleton] at hlength
  exact Nat.ne_of_gt (Nat.lt_of_lt_of_le (hlength ▸ Nat.succ_pos _) hxs.nelts_le)

/-- A round of the merge appends an element of the other array. -/
theorem assign_spec (hxs : HoldsArray h a xs) (hgrow : Growable size a h) (hys : HoldsArray h b ys)
    (hba : b ≠ a) (hne : (h.array b).elts ≠ (h.array a).elts) {i : Nat} (hi : i < ys.length) :
    ∃ h', NgxArray.assign size a ((h.array b).elts, i) h = some h' ∧ HoldsArray h' a (xs ++ [ys[i]]) ∧
      OnlyArray a h h' := by
  rcases prepare_spec hxs hgrow with ⟨y, hlong, honly, hslot⟩
  rcases honly.holds hba hne hys with ⟨hys', hne'⟩
  have hread : (NgxArray.prepare size a h).2.read ((h.array b).elts, i) = some ys[i] := by
    rw [← honly.array b hba]
    exact hys'.read hi
  rcases hlong.write ys[i] with ⟨h', hwrite, hholds, harray, hroom, hkept, hbrk, helts⟩
  refine ⟨h', ?_, hholds, honly.trans ⟨fun d _ => by rw [harray], Nat.le_of_eq hbrk.symm, ?_⟩⟩
  · simp only [NgxArray.assign, hslot, hread, Option.bind_eq_bind, Option.bind_some]
    exact hwrite
  · intro c _ hc
    rw [harray]
    exact ⟨⟨by rw [hroom], by rw [hkept], helts c hc⟩, hc⟩

theorem arrayMergeLoop_apart (hba : b ≠ a) (hys : HoldsArray h b ys) (hxs : HoldsArray h a xs)
    (hgrow : Growable size a h) (hne : (h.array b).elts ≠ (h.array a).elts) {i fuel : Nat}
    (hfuel : ys.length ≤ i + fuel) :
    ∃ h', NgxArray.visitLoop (NgxArray.assign size a) b (h.array b).elts fuel i h = some h' ∧
      HoldsArray h' a (xs ++ ys.drop i) ∧ HoldsArray h' b ys := by
  induction fuel generalizing h xs i with
  | zero =>
      have hend : ys.length ≤ i := hfuel
      have hdone : ¬ i < (h.array b).nelts := by
        rw [← hys.length_eq]
        exact Nat.not_lt.2 hend
      refine ⟨h, ?_, ?_, hys⟩
      · rw [NgxArray.visitLoop, if_neg hdone]
      · rw [List.drop_eq_nil_of_le hend, List.append_nil]
        exact hxs
  | succ fuel ih =>
      rw [NgxArray.visitLoop, ← hys.length_eq]
      by_cases hi : i < ys.length
      · rcases assign_spec hxs hgrow hys hba hne hi with ⟨h₁, hassign, hxs₁, honly⟩
        rcases honly.holds hba hne hys with ⟨hys₁, hne₁⟩
        have hfuel₁ : ys.length ≤ i + 1 + fuel := by rwa [Nat.add_right_comm]
        rcases ih hys₁ hxs₁ (hxs₁.growable size) hne₁ hfuel₁ with ⟨h', hloop, ha, hb⟩
        refine ⟨h', ?_, ?_, hb⟩
        · rw [if_pos hi, hassign]
          rw [honly.array b hba] at hloop
          exact hloop
        · rw [List.drop_eq_getElem_cons hi]
          rw [List.append_assoc, List.singleton_append] at ha
          exact ha
      · refine ⟨h, if_neg hi, ?_, hys⟩
        rw [List.drop_eq_nil_of_le (Nat.not_lt.1 hi), List.append_nil]
        exact hxs

/-- Each round adds an element, so that the loop never comes to an end. -/
theorem selfArrayMergeLoop_eq_none {p i fuel : Nat} (hi : i < (h.array a).nelts) :
    NgxArray.visitLoop (NgxArray.assign size a) a p fuel i h = none := by
  induction fuel generalizing h i with
  | zero => rw [NgxArray.visitLoop, if_pos hi]
  | succ fuel ih =>
      rw [NgxArray.visitLoop, if_pos hi]
      cases hassign : NgxArray.assign size a (p, i) h with
      | none => rfl
      | some h' =>
          have hmore : (h'.array a).nelts = (h.array a).nelts + 1 := by
            rcases Option.bind_eq_some_iff.1 hassign with ⟨x, -, hwrite⟩
            rw [ArrayHeap.write, Option.ite_none_right_eq_some] at hwrite
            rw [← Option.some.inj hwrite.2, ← nelts_prepare size a h]
          exact ih (by rw [hmore]; exact Nat.succ_lt_succ hi)

/-- An array without any space gets none when its elements are moved. -/
theorem assign_eq_none (hxs : HoldsArray h a xs) (hgrow : ¬ Growable size a h) (v : Nat × Nat) :
    NgxArray.assign size a v h = none := by
  rw [Growable, not_or, not_not] at hgrow
  rcases hgrow with ⟨hnone, hfits⟩
  have hempty : (h.array a).nelts = 0 := Nat.le_zero.1 (hnone ▸ hxs.nelts_le)
  have hslot : (NgxArray.prepare size a h).1 = (h.brk, 0) := by
    simp [NgxArray.prepare, ngxArrayPush, makeRoom, moveToNew, hempty, hnone, hfits]
  have hroom : (NgxArray.prepare size a h).2.room h.brk = 0 := by
    simp [NgxArray.prepare, ngxArrayPush, makeRoom, moveToNew, countOne, hempty, hnone, hfits]
  have hwrite : ∀ x, (NgxArray.prepare size a h).2.write (h.brk, 0) x = none := by
    intro x
    rw [ArrayHeap.write, if_neg]
    rw [hroom]
    exact fun hlt => Nat.lt_irrefl 0 hlt.1
  simp only [NgxArray.assign, hslot, hwrite]
  cases (NgxArray.prepare size a h).2.read v <;> rfl

/-- Arrays merge as they should where the other one is empty, or is another one and the array can grow. -/
theorem arrayMerges_iff (hxs : HoldsArray h a xs) (hys : HoldsArray h b ys)
    (hapart : a ≠ b → (h.array a).elts ≠ (h.array b).elts) :
    NgxArray.Merges size h a b xs ys ↔ (h.array b).nelts = 0 ∨ a ≠ b ∧ Growable size a h := by
  by_cases hempty : (h.array b).nelts = 0
  · refine iff_of_true ⟨0, h, ?_, ?_, fun _ => hys⟩ (Or.inl hempty)
    · simp [NgxArray.merge, NgxArray.visit, NgxArray.visitLoop, hempty]
    · have hnil : ys = [] := List.length_eq_zero_iff.1 (hys.length_eq.trans hempty)
      rw [hnil, List.append_nil]
      exact hxs
  · have hpos : 0 < (h.array b).nelts := Nat.pos_of_ne_zero hempty
    rw [or_iff_right hempty]
    constructor
    · rintro ⟨fuel, h', hmerge, -⟩
      refine ⟨?_, ?_⟩
      · rintro rfl
        rw [NgxArray.merge, NgxArray.visit, selfArrayMergeLoop_eq_none hpos] at hmerge
        cases hmerge
      · by_contra hgrow
        rw [NgxArray.merge, NgxArray.visit] at hmerge
        cases fuel with
        | zero =>
            rw [NgxArray.visitLoop, if_pos hpos] at hmerge
            cases hmerge
        | succ fuel =>
            rw [NgxArray.visitLoop, if_pos hpos, assign_eq_none hxs hgrow] at hmerge
            cases hmerge
    · rintro ⟨hab, hgrow⟩
      rcases arrayMergeLoop_apart hab.symm hys hxs hgrow (hapart hab).symm (i := 0)
        (Nat.le_of_eq (Nat.zero_add ys.length).symm) with ⟨h', hloop, ha, hb⟩
      exact ⟨ys.length, h', hloop, ha, fun _ => hb⟩

end push

/-! ## Both containers -/

/-- Lists and arrays, each with another or with itself: a merge ends with the one sequence after the other
exactly where it is not a merge of a non-empty container with itself, nor one into an array that has no
space and cannot be enlarged where it is. -/
theorem merges_iff {h : ListHeap T} {a b : Nat} {xs ys : List T} (hxs : Holds h a xs) (hys : Holds h b ys)
    (hapart : a ≠ b → Apart h a b) {g : ArrayHeap T} {c d : Nat} {us vs : List T}
    (hus : HoldsArray g c us) (hvs : HoldsArray g d vs)
    (hapart' : c ≠ d → (g.array c).elts ≠ (g.array d).elts) (size : Nat) :
    (NgxList.Merges h a b xs ys ↔ a ≠ b ∨ (h.part a).nelts = 0) ∧
      (NgxArray.Merges size g c d us vs ↔ (g.array d).nelts = 0 ∨ c ≠ d ∧ Growable size c g) :=
  ⟨listMerges_iff hxs hys hapart, arrayMerges_iff hus hvs hapart'⟩

/-- An array with space for one number, and one that holds two. -/
def twoArrays : ArrayHeap Nat where
  array a := if a = 0 then ⟨0, 0, 1, 0⟩ else ⟨1, 2, 2, 0⟩
  pool _ := ⟨64, 1024⟩
  addr c := 16 * c
  after _ := ⟨64, 1024⟩
  room c := if c = 0 then 1 else 2
  givenUp _ := false
  elts _ i := 7 + i
  brk := 2

theorem twoArrays_first : HoldsArray twoArrays 0 [] :=
  ⟨rfl, rfl, by decide, by decide, rfl, fun i hi => absurd hi (Nat.not_lt_zero i)⟩

theorem twoArrays_second : HoldsArray twoArrays 1 [7, 8] := by
  refine ⟨rfl, rfl, by decide, by decide, rfl, fun i hi => ?_⟩
  match i, hi with
  | 0, _ => rfl
  | 1, _ => rfl

theorem threePushes_holds : Holds threePushes 1 [5, 6, 7] :=
  runs_hold (n := 2) (by decide) (by decide) [.push 5, .push 6, .push 7]

theorem merges_twoParts :
    (NgxList.Merges (ngxListCreate 1 threePushes).2 (ngxListCreate 1 threePushes).1 1 [] [5, 6, 7] ↔
        (ngxListCreate 1 threePushes).1 ≠ 1 ∨
          ((ngxListCreate 1 threePushes).2.part (ngxListCreate 1 threePushes).1).nelts = 0) ∧
      (NgxArray.Merges 8 twoArrays 0 1 [] [7, 8] ↔
        (twoArrays.array 1).nelts = 0 ∨ 0 ≠ 1 ∧ Growable 8 0 twoArrays) :=
  merges_iff (ngxListCreate_holds (by decide) (by decide)) (create_holds 1 threePushes_holds)
    (fun _ => apart_create 1 threePushes_holds) twoArrays_first twoArrays_second (fun _ => by decide) 8

/-- A list and an array that are merged with themselves. -/
theorem self_merge_endless :
    ¬ NgxList.Merges threePushes 1 1 [5, 6, 7] [5, 6, 7] ∧
      ¬ NgxArray.Merges 8 twoArrays 1 1 [7, 8] [7, 8] := by
  constructor
  · rw [listMerges_iff threePushes_holds threePushes_holds fun hne => absurd rfl hne]
    decide
  · rw [arrayMerges_iff twoArrays_second twoArrays_second fun hne => absurd rfl hne]
    rintro (hempty | hself)
    · exact absurd hempty (by decide)
    · exact hself.1 rfl

end Ngx
end CppPractice
