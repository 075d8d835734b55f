import CppPractice.Ngx.NgxList

/-!
# ListWalk — the ways of walking an NgxList

`visit` and `find` stop at an iterator that is not good.  The loop `for(auto& x : l)` stops at an iterator
that is equal to `end()`; the two differ where the first part has no element in use.

`merge` visits one list and pushes its elements on another, or on the same.
-/

namespace CppPractice
namespace Ngx

open Segment ListHeap NgxListIterator

variable {T : Type*}

/-! ## From begin() to end() -/

namespace NgxList

/-- `for(it = begin(); it != end(); ++it)`: the iterators that the body is run at. -/
def rangeLoop (h : ListHeap T) : Nat → NgxListIterator → Option (List NgxListIterator)
  | 0, it => if it = null then some [] else none
  | fuel + 1, it =>
      if it = null then some []
      else (rangeLoop h fuel (it.increment h)).map (it :: ·)

/-- One round more than `visit` needs. -/
def rangeFor (h : ListHeap T) (l : Nat) : Option (List NgxListIterator) :=
  rangeLoop h (capacity h l + 1) (ofList h l)

end NgxList

/-- The iterator is at a slot that is in use. -/
def InUse (h : ListHeap T) (it : NgxListIterator) : Prop :=
  it.data = (h.part it.part).elts ∧ it.count < (h.part it.part).nelts

/-- The loop from `begin()` to `end()` ends, has the elements that `visit` has, in the same order, and
reads slots in use only. -/
def WalksAgree (h : ListHeap T) (l : Nat) : Prop :=
  ∃ its, NgxList.rangeFor h l = some its ∧ (∀ it ∈ its, InUse h it) ∧
    NgxList.visit Prod.fst (fun x s => (s.1, s.2 ++ [x])) l (h, []) =
      some (h, its.map (dereference h))

section walks

variable {h : ListHeap T} {it : NgxListIterator} {l fuel : Nat} {y : T} {xs ys : List T}

theorem At.inUse (hat : At h it (y :: ys)) : InUse h it := by
  cases hat with
  | slot hchain hused hi hys => exact ⟨rfl, hi⟩

theorem At.ne_null (hat : At h it (y :: ys)) : it ≠ NgxListIterator.null := by
  rintro rfl
  exact Bool.false_ne_true ((not_valid_null h).symm.trans hat.step.1)

theorem rangeLoop_at (hat : At h it ys) (hfuel : ys.length ≤ fuel) :
    ∃ its, NgxList.rangeLoop h fuel it = some its ∧ (∀ it ∈ its, InUse h it) ∧
      its.map (dereference h) = ys := by
  induction ys generalizing it fuel with
  | nil =>
      refine ⟨[], ?_, by simp, rfl⟩
      rw [hat.eq_null]
      cases fuel <;> rfl
  | cons y ys ih =>
      rcases hat.step with ⟨-, hderef, hrest⟩
      cases fuel with
      | zero => cases hfuel
      | succ fuel =>
          rcases ih hrest (Nat.le_of_succ_le_succ hfuel) with ⟨its, hits, hused, hread⟩
          refine ⟨it :: its, ?_, ?_, ?_⟩
          · rw [NgxList.rangeLoop, if_neg hat.ne_null, hits]
            rfl
          · exact List.forall_mem_cons.2 ⟨hat.inUse, hused⟩
          · rw [List.map_cons, hread, hderef]

theorem mem_rangeLoop {its : List NgxListIterator} (hit : it ≠ NgxListIterator.null)
    (hits : NgxList.rangeLoop h fuel it = some its) : it ∈ its := by
  cases fuel with
  | zero =>
      rw [NgxList.rangeLoop, if_neg hit] at hits
      cases hits
  | succ fuel =>
      rw [NgxList.rangeLoop, if_neg hit] at hits
      rcases Option.map_eq_some_iff.1 hits with ⟨rest, -, rfl⟩
      exact List.mem_cons_self

theorem visit_elements (hxs : Holds h l xs) :
    NgxList.visit Prod.fst (fun x s => (s.1, s.2 ++ [x])) l (h, []) = some (h, xs) := by
  have hvisit : NgxList.visit Prod.fst (fun x s => (s.1, s.2 ++ [x])) l (h, []) =
      some (xs.foldl (fun s x => (s.1, s.2 ++ [x])) (h, [])) :=
    NgxList.visit_holds (fun _ _ => rfl) hxs
  have hfold : ∀ (ys zs : List T),
      ys.foldl (fun (s : ListHeap T × List T) x => (s.1, s.2 ++ [x])) (h, zs) = (h, zs ++ ys) := by
    intro ys
    induction ys with
    | nil => intro zs; simp
    | cons y ys ih => intro zs; simp [ih]
  rw [hvisit, hfold, List.nil_append]

theorem Holds.ne_zero (hxs : Holds h l xs) : l ≠ 0 := by
  rcases hxs with ⟨front, last, hl, -, -⟩
  exact hl.pos hl.head_mem

/-- The first part has elements where the list has. -/
theorem Holds.nelts_eq_zero_iff (hxs : Holds h l xs) : (h.part l).nelts = 0 ↔ xs = [] := by
  rcases hxs with ⟨front, last, hl, hlast, rfl⟩
  rcases hl.head_eq with ⟨rest, hrest⟩
  constructor
  · intro hempty
    cases front with
    | nil =>
        have hll : last = l := (List.cons.inj hrest).1
        simp [slots, hll, hempty]
    | cons p front =>
        have hpl : p = l := by
          rw [List.cons_append] at hrest
          exact (List.cons.inj hrest).1
        have hused := hl.front_used p List.mem_cons_self
        rw [hpl, hempty] at hused
        cases hused
  · intro hnil
    rw [hrest, contents_cons, List.append_eq_nil_iff] at hnil
    rw [← length_slots, hnil.1]
    rfl

theorem walksAgree_iff (hxs : Holds h l xs) : WalksAgree h l ↔ (h.part l).nelts ≠ 0 := by
  constructor
  · rintro ⟨its, hits, hused, -⟩ hempty
    -- `begin()` of an empty list is not `end()`, and its slot is not in use.
    have hbegin : ofList h l ≠ NgxListIterator.null := by
      intro hnull
      exact hxs.ne_zero (congrArg NgxListIterator.part hnull)
    have hfirst : 0 < (h.part l).nelts := (hused _ (mem_rangeLoop hbegin hits)).2
    rw [hempty] at hfirst
    cases hfirst
  · intro hne
    rcases hxs.ofList_at with hat | ⟨hnil, -⟩
    · rcases rangeLoop_at hat (Nat.le_succ_of_le hxs.length_le) with ⟨its, hits, hused, hread⟩
      refine ⟨its, hits, hused, ?_⟩
      rw [hread, visit_elements hxs]
    · exact absurd (hxs.nelts_eq_zero_iff.2 hnil) hne

end walks

/-- After any operations on a new list, the two walks agree exactly when the first part has an element. -/
theorem walks_agree_iff {n : Nat} (hn : 0 < n) (h : ListHeap T) (hbrk : 0 < h.brk)
    (ops : List (ListOp T)) :
    let l := (ngxListCreate n h).1
    let g := Trace.run (ListOp.run l) (ngxListCreate n h).2 ops
    WalksAgree g l ↔ (g.part l).nelts ≠ 0 :=
  walksAgree_iff (runs_hold hn hbrk ops)

def newHeap : ListHeap Nat := ⟨fun _ => ⟨0, 0⟩, fun _ => ⟨0, 0, 0⟩, fun _ _ => 0, 1⟩

theorem walks_agree_reused :
    let l := (ngxListCreate 1 newHeap).1
    let g := Trace.run (ListOp.run l) (ngxListCreate 1 newHeap).2 [.push 5, .push 6, .clear, .push 7]
    WalksAgree g l ↔ (g.part l).nelts ≠ 0 :=
  walks_agree_iff (by decide) newHeap (by decide) [.push 5, .push 6, .clear, .push 7]

/-- The loop over a new list has one element, which was never pushed. -/
theorem empty_walk_reads :
    ¬ WalksAgree (ngxListCreate 10 newHeap).2 (ngxListCreate 10 newHeap).1 ∧
      NgxList.rangeFor (ngxListCreate 10 newHeap).2 (ngxListCreate 10 newHeap).1 = some [⟨1, 2, 0⟩] := by
  refine ⟨?_, by decide⟩
  rw [walksAgree_iff (ngxListCreate_holds (by decide) (by decide))]
  decide

/-! ## Pushing while walking -/

/-- `a.merge(b)` -/
def NgxList.merge (fuel a b : Nat) (h : ListHeap T) : Option (ListHeap T) :=
  NgxList.visitLoop id (fun v h => NgxList.push v a h) fuel (ofList h b) h

/-- The two lists have no part and no array in common. -/
def Apart (h : ListHeap T) (a b : Nat) : Prop :=
  ∀ front last front' last', Layout h a front last → Layout h b front' last' →
    List.Disjoint (front ++ [last]) (front' ++ [last']) ∧
      List.Disjoint ((front ++ [last]).map fun p => (h.part p).elts)
        ((front' ++ [last']).map fun p => (h.part p).elts)

/-- The merge ends; `a` has its elements and those of `b` after them, and another `b` keeps its own. -/
def NgxList.Merges (h : ListHeap T) (a b : Nat) (xs ys : List T) : Prop :=
  ∃ fuel h', NgxList.merge fuel a b h = some h' ∧ Holds h' a (xs ++ ys) ∧ (a ≠ b → Holds h' b ys)

section push

variable {h : ListHeap T} {l last : Nat} {front : List Nat}

theorem Layout.push_eq (hl : Layout h l front last) (x : T) : NgxList.push x l h =
    Ngx.fillSlot x l (if (h.part last).nelts = (h.list l).nalloc then Ngx.addPart l h else h) := by
  rw [NgxList.push, NgxList.prepare, ngxListPush, hl.last_eq, Ngx.fillSlot]
  split <;> rfl

/-- Within a list every part but the last leads to another. -/
theorem Layout.next_mem (hl : Layout h l front last) {p : Nat} (hp : p ∈ front) :
    h.next p ∈ front ++ [last] := by
  rcases List.append_of_mem hp with ⟨before, after, rfl⟩
  have hpath := hl.chain.path
  rw [List.append_assoc, List.cons_append] at hpath
  rcases hpath.split with ⟨q, -, hrest⟩
  rcases hrest.cons_inv with ⟨rfl, hafter⟩
  cases after with
  | nil =>
      have hnext : h.next q = last := (hafter.cons_inv).1
      rw [hnext]
      exact List.mem_append_right _ (List.mem_singleton_self last)
  | cons r after =>
      have hnext : h.next q = r := (hafter.cons_inv).1
      rw [hnext]
      simp

theorem Layout.next_last (hl : Layout h l front last) : h.next last = 0 :=
  (Path.concat_iff.1 hl.chain.path).2

/-- What a push makes of the parts `parts` of the list at `l`: none of the parts it has then is without
elements, the old parts are there and have at least the elements they had, and the last one is new or has
one more. -/
structure Pushed (h h' : ListHeap T) (l : Nat) (parts front' : List Nat) (last' : Nat) : Prop where
  layout : Layout h' l front' last'
  used : ∀ p ∈ front' ++ [last'], 0 < (h'.part p).nelts
  old : ∀ p ∈ parts, p ∈ front' ++ [last'] ∧ (h'.part p).elts = (h.part p).elts ∧
    (h.part p).nelts ≤ (h'.part p).nelts
  more : last' ∉ parts ∨ (h.part last').nelts < (h'.part last').nelts

/-- The last part has room. -/
theorem Layout.pushed_fillSlot (hl : Layout h l front last) (hroom : (h.part last).nelts < (h.list l).nalloc)
    (x : T) : Pushed h (Ngx.fillSlot x l h) l (front ++ [last]) front last := by
  have hpart := hl.part_fillSlot x
  have hmore : ((Ngx.fillSlot x l h).part last).nelts = (h.part last).nelts + 1 := by
    rw [hpart, Function.update_self]
  have hold : ∀ p ≠ last, (Ngx.fillSlot x l h).part p = h.part p := fun p hp => by
    rw [hpart, Function.update_of_ne hp]
  refine ⟨hl.fillSlot hroom x, ?_, ?_, Or.inr ?_⟩
  · intro p hp
    by_cases hlast : p = last
    · rw [hlast, hmore]
      exact Nat.succ_pos _
    · rw [hold p hlast]
      exact hl.front_used p (by simpa [hlast] using hp)
  · intro p hp
    by_cases hlast : p = last
    · subst hlast
      refine ⟨hp, ?_, ?_⟩
      · rw [hpart, Function.update_self]
      · rw [hmore]
        exact Nat.le_succ _
    · rw [hold p hlast]
      exact ⟨hp, rfl, Nat.le_refl _⟩
  · rw [hmore]
    exact Nat.lt_succ_self _

/-- The last part is full, and another is put behind it. -/
theorem Layout.pushed_addPart (hl : Layout h l front last) (hfull : (h.part last).nelts = (h.list l).nalloc)
    (x : T) :
    Pushed h (Ngx.fillSlot x l (Ngx.addPart l h)) l (front ++ [last]) (front ++ [last]) h.brk := by
  have hlong := hl.addPart hfull
  have hroom : ((Ngx.addPart l h).part h.brk).nelts < ((Ngx.addPart l h).list l).nalloc := by
    rw [hl.new_addPart]
    exact hlong.nalloc_pos
  have hnew := hlong.pushed_fillSlot hroom x
  refine ⟨hnew.layout, hnew.used, fun p hp => ?_, Or.inl fun hmem => ?_⟩
  · rcases hnew.old p (List.mem_append_left _ hp) with ⟨hmem, helts, hnelts⟩
    rcases hl.old_addPart hp with ⟨helts', hnelts'⟩
    exact ⟨hmem, helts.trans helts', hnelts' ▸ hnelts⟩
  · exact Nat.lt_irrefl _ (hl.lt_brk _ hmem).1

theorem Layout.push (hl : Layout h l front last) (x : T) :
    ∃ front' last', Pushed h (NgxList.push x l h) l (front ++ [last]) front' last' := by
  rw [hl.push_eq x]
  split
  case isTrue hfull => exact ⟨_, _, hl.pushed_addPart hfull x⟩
  case isFalse hfull =>
    have hroom : (h.part last).nelts < (h.list l).nalloc :=
      Nat.lt_of_le_of_ne (hl.nelts_le last (by simp)) hfull
    exact ⟨_, _, hl.pushed_fillSlot hroom x⟩

/-- The list at `l` has its last part and the array of that outside of the parts of another. -/
structure Beside (h : ListHeap T) (l : Nat) (parts : List Nat) : Prop where
  last_notMem : (h.list l).last ∉ parts
  elts_ne : ∀ p ∈ parts, (h.part p).elts ≠ (h.part (h.list l).last).elts
  lt_brk : ∀ p ∈ parts, p < h.brk ∧ (h.part p).elts < h.brk

/-- The parts and their arrays are in `h'` what they are in `h`. -/
def SameParts (h h' : ListHeap T) (parts : List Nat) : Prop :=
  ∀ p ∈ parts, h'.part p = h.part p ∧ h'.elts (h.part p).elts = h.elts (h.part p).elts

theorem Beside.fillSlot (hl : Layout h l front last) {parts : List Nat} (hb : Beside h l parts) (x : T) :
    SameParts h (Ngx.fillSlot x l h) parts ∧ Beside (Ngx.fillSlot x l h) l parts := by
  have hpart := hl.part_fillSlot x
  have helts := hl.elts_fillSlot x
  have hlast : (h.list l).last = last := hl.last_eq
  have hlist : (Ngx.fillSlot x l h).list = h.list := rfl
  have hsame : ∀ p ∈ parts, (Ngx.fillSlot x l h).part p = h.part p := by
    intro p hp
    rw [hpart, Function.update_of_ne]
    rintro rfl
    exact hb.last_notMem (hlast.symm ▸ hp)
  refine ⟨fun p hp => ⟨hsame p hp, ?_⟩, ?_, ?_, ?_⟩
  · rw [helts, Function.update_of_ne]
    rw [← hlast]
    exact hb.elts_ne p hp
  · exact hb.last_notMem
  · intro p hp
    rw [hsame p hp, hlist, hlast, hpart, Function.update_self, ← hlast]
    exact hb.elts_ne p hp
  · intro p hp
    rw [hsame p hp]
    exact hb.lt_brk p hp

theorem Beside.addPart (hl : Layout h l front last) {parts : List Nat} (hb : Beside h l parts) :
    SameParts h (Ngx.addPart l h) parts ∧ Beside (Ngx.addPart l h) l parts := by
  have hlast : (h.list l).last = last := hl.last_eq
  have hnew : ((Ngx.addPart l h).list l).last = h.brk := by simp [Ngx.addPart]
  have hbrk : (Ngx.addPart l h).brk = h.brk + 2 := rfl
  have hsame : ∀ p ∈ parts, (Ngx.addPart l h).part p = h.part p := by
    intro p hp
    have hne : p ≠ last := by
      rintro rfl
      exact hb.last_notMem (hlast.symm ▸ hp)
    rw [hl.part_addPart, Function.update_of_ne hne,
      Function.update_of_ne (Nat.ne_of_lt (hb.lt_brk p hp).1)]
  refine ⟨fun p hp => ⟨hsame p hp, rfl⟩, ?_, ?_, ?_⟩
  · rw [hnew]
    exact fun hmem => Nat.lt_irrefl _ (hb.lt_brk _ hmem).1
  · intro p hp
    rw [hsame p hp, hnew, hl.new_addPart]
    exact Nat.ne_of_lt (Nat.lt_succ_of_lt (hb.lt_brk p hp).2)
  · intro p hp
    have hlt := hb.lt_brk p hp
    rw [hsame p hp, hbrk]
    exact ⟨Nat.lt_add_right 2 hlt.1, Nat.lt_add_right 2 hlt.2⟩

theorem SameParts.trans {h h' h'' : ListHeap T} {parts : List Nat} (hs : SameParts h h' parts)
    (hs' : SameParts h' h'' parts) : SameParts h h'' parts := by
  intro p hp
  have hpart : (h'.part p).elts = (h.part p).elts := by rw [(hs p hp).1]
  refine ⟨(hs' p hp).1.trans (hs p hp).1, ?_⟩
  rw [← (hs p hp).2, ← hpart]
  exact (hs' p hp).2

/-- A push leaves what is beside the list as it was. -/
theorem Beside.push (hl : Layout h l front last) {parts : List Nat} (hb : Beside h l parts) (x : T) :
    SameParts h (NgxList.push x l h) parts ∧ Beside (NgxList.push x l h) l parts := by
  rw [hl.push_eq x]
  by_cases hfull : (h.part last).nelts = (h.list l).nalloc
  · rw [if_pos hfull]
    rcases hb.addPart hl with ⟨hsame, hbeside⟩
    rcases hbeside.fillSlot (hl.addPart hfull) x with ⟨hsame', hbeside'⟩
    exact ⟨hsame.trans hsame', hbeside'⟩
  · rw [if_neg hfull]
    exact hb.fillSlot hl x

theorem push_list (x : T) {l d : Nat} (hd : d ≠ l) (h : ListHeap T) :
    (NgxList.push x l h).list d = h.list d ∧ h.brk ≤ (NgxList.push x l h).brk := by
  rw [NgxList.push, NgxList.prepare, ngxListPush]
  split
  · exact ⟨Function.update_of_ne hd _ _, Nat.le_add_right _ 2⟩
  · exact ⟨rfl, Nat.le_refl _⟩

/-- A list depends on its own parts. -/
theorem Layout.congr {h' : ListHeap T} (hl : Layout h l front last) (hlist : h'.list l = h.list l)
    (hsame : SameParts h h' (front ++ [last])) (hbrk : h.brk ≤ h'.brk) : Layout h' l front last := by
  have hpart : ∀ p ∈ front ++ [last], h'.part p = h.part p := fun p hp => (hsame p hp).1
  have helts : ((front ++ [last]).map fun p => (h'.part p).elts) =
      (front ++ [last]).map fun p => (h.part p).elts :=
    List.map_congr_left fun p hp => by rw [hpart p hp]
  refine ⟨?_, ?_, ?_, ?_, ?_, ?_, ?_, ?_⟩
  · refine hl.chain.congr fun p hp => ?_
    rw [ListHeap.next, ListHeap.next, hpart p hp]
  · rw [hlist, hl.last_eq]
  · rw [hlist]
    exact hl.nalloc_pos
  · intro p hp
    rw [hpart p hp, hlist]
    exact hl.nelts_le p hp
  · intro p hp
    rw [hpart p (List.mem_append_left _ hp)]
    exact hl.front_used p hp
  · intro p hp
    rw [hpart p hp]
    exact hl.elts_pos p hp
  · rw [helts]
    exact hl.elts_nodup
  · intro p hp
    have hlt := hl.lt_brk p hp
    rw [hpart p hp]
    exact ⟨Nat.lt_of_lt_of_le hlt.1 hbrk, Nat.lt_of_lt_of_le hlt.2 hbrk⟩

end push

/-! ## Merging another list -/

section create

variable {h : ListHeap T} {a : Nat} {xs : List T}

theorem Holds.congr {h' : ListHeap T} {front : List Nat} {last : Nat} (hl : Layout h a front last)
    (hxs : Holds h a xs) (hlist : h'.list a = h.list a) (hsame : SameParts h h' (front ++ [last]))
    (hbrk : h.brk ≤ h'.brk) : Holds h' a xs := by
  rcases hxs with ⟨front', last', hl', hlast, rfl⟩
  have hparts : front' ++ [last'] = front ++ [last] := hl'.chain.unique hl.chain
  rw [← hparts] at hsame
  refine ⟨front', last', hl'.congr hlist hsame hbrk, ?_, ?_⟩
  · rw [(hsame last' (by simp)).1]
    exact hlast
  · exact contents_congr fun p hp => slots_congr (hsame p hp).1 (hsame p hp).2

theorem Layout.sameParts_create {front : List Nat} {last : Nat} (hl : Layout h a front last) (n : Nat) :
    SameParts h (ngxListCreate n h).2 (front ++ [last]) := by
  intro p hp
  have hne : p ≠ h.brk := Nat.ne_of_lt (hl.lt_brk p hp).1
  exact ⟨Function.update_of_ne hne _ _, rfl⟩

theorem Layout.list_create {front : List Nat} {last : Nat} (hl : Layout h a front last) (n : Nat) :
    (ngxListCreate n h).2.list a = h.list a ∧ h.brk ≤ (ngxListCreate n h).2.brk := by
  have hne : a ≠ h.brk := Nat.ne_of_lt (hl.lt_brk a hl.head_mem).1
  exact ⟨Function.update_of_ne hne _ _, Nat.le_add_right _ 2⟩

theorem create_holds (n : Nat) (hxs : Holds h a xs) : Holds (ngxListCreate n h).2 a xs := by
  rcases id hxs with ⟨front, last, hl, -, -⟩
  exact hxs.congr hl (hl.list_create n).1 (hl.sameParts_create n) (hl.list_create n).2

/-- A new list is apart from those that are there. -/
theorem apart_create (n : Nat) (hxs : Holds h a xs) :
    Apart (ngxListCreate n h).2 (ngxListCreate n h).1 a := by
  rcases hxs with ⟨front, last, hl, -, -⟩
  intro front' last' front'' last'' hnew hold
  have hparts : front'' ++ [last''] = front ++ [last] :=
    hold.chain.unique (hl.congr (hl.list_create n).1 (hl.sameParts_create n) (hl.list_create n).2).chain
  have hzero : h.brk ≠ 0 := Nat.ne_of_gt (Nat.zero_lt_of_lt (hl.lt_brk a hl.head_mem).1)
  have hpart : (ngxListCreate n h).2.part h.brk = ⟨h.brk + 1, 0, 0⟩ := Function.update_self _ _ _
  have hempty : Chain (ngxListCreate n h).2.next 0 h.brk [h.brk] := by
    apply Chain.cons hzero
    rw [ListHeap.next, hpart]
    exact Chain.nil _ 0
  have hnewParts : front' ++ [last'] = [h.brk] := hnew.chain.unique hempty
  rw [hparts, hnewParts, List.map_singleton, hpart]
  constructor
  · rw [List.singleton_disjoint]
    exact fun hmem => Nat.lt_irrefl _ (hl.lt_brk _ hmem).1
  · rw [List.singleton_disjoint]
    intro hmem
    rcases List.mem_map.1 hmem with ⟨p, hp, helts⟩
    rw [(hl.sameParts_create n p hp).1] at helts
    exact Nat.lt_irrefl _ (calc
      h.brk < h.brk + 1 := Nat.lt_succ_self _
      _ = (h.part p).elts := helts.symm
      _ < h.brk := (hl.lt_brk p hp).2)

end create

section merge

variable {g h : ListHeap T} {a b last fuel : Nat} {front : List Nat} {it : NgxListIterator}
  {xs ys zs : List T}

/-- The iterator is in one of the parts, or past them. -/
def Within (h : ListHeap T) (parts : List Nat) (it : NgxListIterator) : Prop :=
  it = NgxListIterator.null ∨ it.part ∈ parts ∧ it.data = (h.part it.part).elts

theorem Layout.within_ofList (hl : Layout h b front last) : Within h (front ++ [last]) (ofList h b) :=
  Or.inr ⟨hl.head_mem, rfl⟩

theorem Layout.next_eq_zero_or_mem (hl : Layout h b front last) {p : Nat} (hp : p ∈ front ++ [last]) :
    h.next p = 0 ∨ h.next p ∈ front ++ [last] := by
  rcases List.mem_append.1 hp with hp | hp
  · exact Or.inr (hl.next_mem hp)
  · rw [List.mem_singleton.1 hp]
    exact Or.inl hl.next_last

theorem Layout.within_increment (hl : Layout h b front last) (hit : Within h (front ++ [last]) it) :
    Within h (front ++ [last]) (it.increment h) := by
  rcases hit with rfl | ⟨hmem, hdata⟩
  · exact Or.inl rfl
  · rw [increment]
    split
    · exact Or.inr ⟨hmem, hdata⟩
    · split
      · have hnext : (h.part it.part).next = h.next it.part := rfl
        rcases hl.next_eq_zero_or_mem hmem with hzero | hmem'
        · rw [hnext, hzero]
          exact Or.inl rfl
        · rw [hnext]
          exact Or.inr ⟨hmem', if_neg (hl.pos hmem')⟩
      · exact Or.inr ⟨hmem, hdata⟩

/-- Where the parts are the same, so is what an iterator in one of them does. -/
theorem Layout.iterator_congr (hl : Layout g b front last) (hsame : SameParts g h (front ++ [last]))
    (hit : Within g (front ++ [last]) it) :
    it.valid h = it.valid g ∧
      (it ≠ NgxListIterator.null → it.dereference h = it.dereference g) ∧
      it.increment h = it.increment g := by
  rcases hit with rfl | ⟨hmem, hdata⟩
  · exact ⟨rfl, fun hne => absurd rfl hne, rfl⟩
  · rcases hsame it.part hmem with ⟨hpart, helts⟩
    refine ⟨?_, fun _ => ?_, ?_⟩
    · rw [valid, valid, hpart]
    · rw [dereference, dereference, hdata, helts]
    · have hnext : (g.part it.part).next = g.next it.part := rfl
      rw [increment, increment, hpart, hnext]
      rcases hl.next_eq_zero_or_mem hmem with hzero | hmem'
      · simp [hzero]
      · simp [(hsame _ hmem').1]

theorem mergeLoop_apart (hl : Layout g b front last) (hab : b ≠ a) (hlist : h.list b = g.list b)
    (hbrk : g.brk ≤ h.brk) (hsame : SameParts g h (front ++ [last]))
    (hbeside : Beside h a (front ++ [last])) (hzs : Holds h a zs) (hat : At g it ys)
    (hit : Within g (front ++ [last]) it) (hfuel : ys.length ≤ fuel) :
    ∃ h', NgxList.visitLoop id (fun v h => NgxList.push v a h) fuel it h = some h' ∧
      Holds h' a (zs ++ ys) ∧ h'.list b = g.list b ∧ g.brk ≤ h'.brk ∧
      SameParts g h' (front ++ [last]) := by
  -- By what the iterator has before it in `b`, whose parts stay those of `g`.
  induction ys generalizing h it fuel zs with
  | nil =>
      refine ⟨h, ?_, by rwa [List.append_nil], hlist, hbrk, hsame⟩
      rw [hat.eq_null]
      cases fuel <;> simp [NgxList.visitLoop, not_valid_null]
  | cons y ys ih =>
      rcases hat.step with ⟨hvalid, hderef, hrest⟩
      rcases hl.iterator_congr hsame hit with ⟨hvalid', hderef', -⟩
      rw [hvalid] at hvalid'
      have hread : it.dereference h = y := (hderef' hat.ne_null).trans hderef
      cases fuel with
      | zero => cases hfuel
      | succ fuel =>
          rcases id hzs with ⟨front', last', hla, -, -⟩
          rcases hbeside.push hla y with ⟨hsame', hbeside'⟩
          rcases push_list y hab h with ⟨hlist', hbrk'⟩
          have hkept : SameParts g (NgxList.push y a h) (front ++ [last]) := hsame.trans hsame'
          rcases hl.iterator_congr hkept hit with ⟨-, -, hgo⟩
          rcases ih (hlist'.trans hlist) (Nat.le_trans hbrk hbrk') hkept hbeside'
            (NgxList.push_holds y hzs) hrest (hl.within_increment hit)
            (Nat.le_of_succ_le_succ hfuel) with ⟨h', hloop, hspec⟩
          refine ⟨h', ?_, ?_⟩
          · simp only [NgxList.visitLoop, id, hvalid', hread, hgo, if_true]
            exact hloop
          · rw [List.append_assoc, List.singleton_append] at hspec
            exact hspec

theorem Apart.beside {front' : List Nat} {last' : Nat} (hapart : Apart h a b)
    (hla : Layout h a front last) (hlb : Layout h b front' last') : Beside h a (front' ++ [last']) := by
  rcases hapart front last front' last' hla hlb with ⟨hparts, helts⟩
  have hlast : last ∈ front ++ [last] := List.mem_append_right _ (List.mem_singleton_self last)
  refine ⟨?_, ?_, hlb.lt_brk⟩
  · rw [hla.last_eq]
    exact hparts hlast
  · intro p hp heq
    rw [hla.last_eq] at heq
    exact helts (List.mem_map_of_mem hlast) (heq ▸ List.mem_map_of_mem hp)

theorem merges_apart (hxs : Holds h a xs) (hys : Holds h b ys) (hab : a ≠ b) (hapart : Apart h a b) :
    NgxList.Merges h a b xs ys := by
  rcases id hxs with ⟨front', last', hla, -, -⟩
  rcases hys with ⟨front, last, hl, hlast, rfl⟩
  have hys : Holds h b (h.contents (front ++ [last])) := ⟨front, last, hl, hlast, rfl⟩
  rcases hys.ofList_at with hat | ⟨hnil, hinvalid⟩
  · rcases mergeLoop_apart hl hab.symm rfl (Nat.le_refl _) (fun _ _ => ⟨rfl, rfl⟩)
      (hapart.beside hla hl) hxs hat hl.within_ofList (Nat.le_refl _) with
      ⟨h', hloop, ha, hlist, hbrk, hsame⟩
    exact ⟨_, h', hloop, ha, fun _ => hys.congr hl hlist hsame hbrk⟩
  · refine ⟨0, h, ?_, ?_, fun _ => hys⟩
    · simp [NgxList.merge, NgxList.visitLoop, hinvalid]
    · rw [hnil, List.append_nil]
      exact hxs

/-! ## Merging a list with itself -/

theorem Layout.valid (hl : Layout h a front last) (hit : it.part ∈ front ++ [last])
    (hused : InUse h it) : it.valid h = true := by
  have hpart : it.part ≠ 0 := hl.pos hit
  have hdata : it.data ≠ 0 := by
    rw [hused.1]
    exact Nat.ne_of_gt (hl.elts_pos _ hit)
  have hnelts : (h.part it.part).nelts ≠ 0 := Nat.ne_of_gt (Nat.zero_lt_of_lt hused.2)
  simp [NgxListIterator.valid, hpart, hdata, hnelts]

/-- After a push there is a next element for every iterator that was at one. -/
theorem Layout.increment_push (hl : Layout h a front last) (hit : it.part ∈ front ++ [last])
    (hused : InUse h it) (x : T) :
    ∃ front' last', Layout (NgxList.push x a h) a front' last' ∧
      (it.increment (NgxList.push x a h)).part ∈ front' ++ [last'] ∧
      InUse (NgxList.push x a h) (it.increment (NgxList.push x a h)) := by
  rcases hl.push x with ⟨front', last', ⟨hl', hpos, hold, hlast⟩⟩
  rcases hold _ hit with ⟨hmem, helts, hle⟩
  refine ⟨front', last', hl', ?_⟩
  have hdata : it.data = ((NgxList.push x a h).part it.part).elts := hused.1.trans helts.symm
  have hgood : ¬ (it.part = 0 ∨ it.data = 0) := by
    rw [hdata]
    exact not_or.2 ⟨hl'.pos hmem, Nat.ne_of_gt (hl'.elts_pos _ hmem)⟩
  rw [increment, if_neg hgood]
  by_cases hend : ((NgxList.push x a h).part it.part).nelts ≤ it.count + 1
  · -- The part is done, so that it is not the last: that one is new or has one more.
    have hne : it.part ≠ last' := by
      intro heq
      rcases hlast with hnew | hmore
      · exact hnew (heq ▸ hit)
      · rw [← heq] at hmore
        exact Nat.lt_irrefl _ (calc
          (h.part it.part).nelts < ((NgxList.push x a h).part it.part).nelts := hmore
          _ ≤ it.count + 1 := hend
          _ ≤ (h.part it.part).nelts := hused.2)
    have hnext : (NgxList.push x a h).next it.part ∈ front' ++ [last'] :=
      hl'.next_mem ((List.mem_append.1 hmem).resolve_right fun h => hne (List.mem_singleton.1 h))
    rw [if_pos hend]
    exact ⟨hnext, if_neg (hl'.pos hnext), hpos _ hnext⟩
  · rw [if_neg hend]
    exact ⟨hmem, hdata, Nat.not_le.1 hend⟩

/-- Each round pushes the element that it reads, so that the loop never comes to an end. -/
theorem selfMergeLoop_eq_none (hl : Layout h a front last) (hit : it.part ∈ front ++ [last])
    (hused : InUse h it) :
    NgxList.visitLoop id (fun v h => NgxList.push v a h) fuel it h = none := by
  have hvalid : it.valid h = true := hl.valid hit hused
  induction fuel generalizing h it front last with
  | zero => simp [NgxList.visitLoop, hvalid]
  | succ fuel ih =>
      rcases hl.increment_push hit hused (it.dereference h) with ⟨front', last', hl', hit', hused'⟩
      simpa [NgxList.visitLoop, hvalid] using ih hl' hit' hused' (hl'.valid hit' hused')

theorem selfMerge_eq_none (hxs : Holds h a xs) (hne : (h.part a).nelts ≠ 0) (fuel : Nat) :
    NgxList.merge fuel a a h = none := by
  rcases hxs with ⟨front, last, hl, -, -⟩
  exact selfMergeLoop_eq_none hl hl.head_mem ⟨rfl, Nat.pos_of_ne_zero hne⟩

/-- Lists merge as they should unless a list that is not empty is merged with itself. -/
theorem listMerges_iff (hxs : Holds h a xs) (hys : Holds h b ys) (hapart : a ≠ b → Apart h a b) :
    NgxList.Merges h a b xs ys ↔ a ≠ b ∨ (h.part a).nelts = 0 := by
  by_cases hab : a = b
  · subst hab
    constructor
    · rintro ⟨fuel, h', hmerge, -⟩
      by_contra hempty
      rw [selfMerge_eq_none hxs (fun h => hempty (Or.inr h))] at hmerge
      cases hmerge
    · intro hempty
      have hnelts : (h.part a).nelts = 0 := hempty.resolve_left (not_not.2 rfl)
      have hnil : xs = [] := hxs.nelts_eq_zero_iff.1 hnelts
      have hinvalid : (ofList h a).valid h = false := by
        simp [NgxListIterator.valid, ofList, hnelts]
      refine ⟨0, h, ?_, ?_, fun hne => absurd rfl hne⟩
      · simp [NgxList.merge, NgxList.visitLoop, hinvalid]
      · rw [hnil]
        exact hys
  · exact iff_of_true (merges_apart hxs hys hab (hapart hab)) (Or.inl hab)

end merge

end Ngx
end CppPractice
