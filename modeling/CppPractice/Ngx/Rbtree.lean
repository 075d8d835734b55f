import Mathlib.Algebra.Order.Group.Multiset
import Mathlib.Tactic.Abel

/-!
# Rbtree — nginx's red-black trees

The nodes are members of the elements, as those of `ngx_queue_t` are.  A tree is written with its elements
at their nodes; the way up that the parent pointers give is a `Path`, the nodes above a place from the
nearest on.

The two halves of each loop of `ngx_rbtree.c` are mirror images.  `Side` says which of them is meant, and
`make` builds a node from the child on a side and the child opposite.

An operation gives `none` where the code would follow a null pointer.  Trees whose shape is right
(`IsRbtree`) have no such place, and each operation is specified on them by the elements it leaves.
-/

namespace CppPractice
namespace Ngx

inductive Color
  | black
  | red
  deriving DecidableEq

/-- `null` is what the child pointers of a zeroed node read as. -/
inductive Rbtree (α : Type)
  | null
  | sentinel
  | node (color : Color) (left : Rbtree α) (value : α) (right : Rbtree α)

/-- What a node of the colour adds to the height. -/
def Color.blacks : Color → Nat
  | .black => 1
  | .red => 0

inductive Side
  | left
  | right
  deriving DecidableEq

def Side.other : Side → Side
  | .left => .right
  | .right => .left

namespace Rbtree

variable {α : Type}

/-! ## Trees seen from a side -/

/-- A node with a child on a side, and another opposite. -/
def make (s : Side) (c : Color) (child : Rbtree α) (a : α) (opposite : Rbtree α) : Rbtree α :=
  match s with
  | .left => .node c child a opposite
  | .right => .node c opposite a child

theorem make_other (s : Side) (c : Color) (l : Rbtree α) (a : α) (r : Rbtree α) :
    make s.other c l a r = make s c r a l := by
  cases s <;> rfl

/-- A node above a place: the side the place is on, and what else the node has. -/
structure Frame (α : Type) where
  side : Side
  color : Color
  value : α
  sibling : Rbtree α

abbrev Path (α : Type) := List (Frame α)

def Frame.around (f : Frame α) (t : Rbtree α) : Rbtree α := make f.side f.color t f.value f.sibling

/-- The whole tree, from a place in it. -/
def fill (t : Rbtree α) : Path α → Rbtree α
  | [] => t
  | f :: path => fill (f.around t) path

@[simp] theorem fill_nil (t : Rbtree α) : fill t [] = t := rfl

@[simp] theorem fill_cons (t : Rbtree α) (f : Frame α) (path : Path α) :
    fill t (f :: path) = fill (f.around t) path := rfl

/-- The child on a side, and the node around it. -/
def zoom (s : Side) : Rbtree α → Option (Rbtree α × Frame α)
  | .node c l a r =>
      match s with
      | .left => some (l, ⟨.left, c, a, r⟩)
      | .right => some (r, ⟨.right, c, a, l⟩)
  | _ => none

@[simp] theorem zoom_make (s : Side) (c : Color) (t : Rbtree α) (a : α) (w : Rbtree α) :
    (make s c t a w).zoom s = some (t, ⟨s, c, a, w⟩) := by
  cases s <;> rfl

/-- The elements of a tree. -/
def nodes : Rbtree α → Multiset α
  | .node _ l a r => a ::ₘ (l.nodes + r.nodes)
  | _ => 0

/-- `memzero` on an event, as the tree sees it: the node keeps its place below its parent and loses what
hung from it. -/
def zeroed [DecidableEq α] (a : α) : Rbtree α → Rbtree α
  | .node c l b r => if b = a then .node .black .null b .null else .node c (zeroed a l) b (zeroed a r)
  | t => t

theorem zeroed_eq_self [DecidableEq α] {a : α} {t : Rbtree α} (h : a ∉ t.nodes) : zeroed a t = t := by
  induction t with
  | null => rfl
  | sentinel => rfl
  | node c l b r ihl ihr =>
      simp only [nodes, Multiset.mem_cons, Multiset.mem_add, not_or] at h
      rw [zeroed, if_neg (Ne.symm h.1), ihl h.2.1, ihr h.2.2]

/-- A zeroed node is still its parent's child. -/
theorem mem_zeroed [DecidableEq α] {a : α} {t : Rbtree α} (h : a ∈ t.nodes) : a ∈ (zeroed a t).nodes := by
  induction t with
  | null => exact absurd h (Multiset.notMem_zero a)
  | sentinel => exact absurd h (Multiset.notMem_zero a)
  | node c l b r ihl ihr =>
      rw [zeroed]
      by_cases hb : b = a
      · rw [if_pos hb, nodes, hb]
        exact Multiset.mem_cons_self a _
      · rw [if_neg hb, nodes, Multiset.mem_cons, Multiset.mem_add]
        rw [nodes, Multiset.mem_cons, Multiset.mem_add] at h
        exact h.imp_right (Or.imp ihl ihr)

/-! ## Colours and rotations -/

/-- `ngx_rbt_is_red` -/
def color? : Rbtree α → Option Color
  | .null => none
  | .sentinel => some .black
  | .node c _ _ _ => some c

/-- `ngx_rbt_black` and `ngx_rbt_red` -/
def paint (c : Color) : Rbtree α → Option (Rbtree α)
  | .null => none
  | .sentinel => some .sentinel
  | .node _ l a r => some (.node c l a r)

@[simp] theorem color?_make (s : Side) (c : Color) (t : Rbtree α) (a : α) (w : Rbtree α) :
    (make s c t a w).color? = some c := by
  cases s <;> rfl

@[simp] theorem paint_make (d : Color) (s : Side) (c : Color) (t : Rbtree α) (a : α) (w : Rbtree α) :
    (make s c t a w).paint d = some (make s d t a w) := by
  cases s <;> rfl

def ngxRbtreeLeftRotate : Rbtree α → Option (Rbtree α)
  | .node _ _ _ (.node _ .null _ _) => none
  | .node c l a (.node d m b r) => some (.node d (.node c l a m) b r)
  | _ => none

def ngxRbtreeRightRotate : Rbtree α → Option (Rbtree α)
  | .node _ (.node _ _ _ .null) _ _ => none
  | .node c (.node d l a m) b r => some (.node d l a (.node c m b r))
  | _ => none

/-- The rotation that takes a node down on a side. -/
def rotate : Side → Rbtree α → Option (Rbtree α)
  | .left => ngxRbtreeLeftRotate
  | .right => ngxRbtreeRightRotate

theorem rotate_make {m : Rbtree α} (hm : m ≠ .null) (s : Side) (c d : Color) (l : Rbtree α)
    (a b : α) (r : Rbtree α) :
    rotate s (make s c l a (make s d m b r)) = some (make s d (make s c l a m) b r) := by
  cases s <;> cases m <;> first | exact absurd rfl hm | rfl

/-- The rotation the other way. -/
theorem rotate_other_make {m : Rbtree α} (hm : m ≠ .null) (s : Side) (c d : Color) (l : Rbtree α)
    (a b : α) (r : Rbtree α) :
    rotate s.other (make s c (make s d l a m) b r) = some (make s d l a (make s c m b r)) := by
  cases s <;> cases m <;> first | exact absurd rfl hm | rfl

/-! ## Insertion -/

section Insertion

variable (less : α → α → Bool)

/-- The place for a new node. -/
def ngxRbtreeInsertTimerValue (a : α) : Rbtree α → Path α → Option (Path α)
  | .null, _ => none
  | .sentinel, path => some path
  | .node c l b r, path =>
      if less a b then ngxRbtreeInsertTimerValue a l (⟨.left, c, b, r⟩ :: path)
      else ngxRbtreeInsertTimerValue a r (⟨.right, c, b, l⟩ :: path)

/-- The loop that re-balances the tree from a red node on. -/
def insertFixup : Rbtree α → Path α → Option (Rbtree α)
  | t, [] => t.paint .black
  | t, [parent] =>
      match parent.color with
      | .black => (fill t [parent]).paint .black
      -- The root has no parent.
      | .red => none
  | t, parent :: grand :: path =>
      match parent.color with
      | .black => (fill t (parent :: grand :: path)).paint .black
      | .red => do
          let temp := grand.sibling
          match ← temp.color? with
          | .red =>
              let below := make parent.side .black t parent.value parent.sibling
              insertFixup (make grand.side .red below grand.value (← temp.paint .black)) path
          | .black =>
              let below ←
                if parent.side = grand.side then pure (parent.around t)
                else rotate grand.side (parent.around t)
              let top := make grand.side .red (← below.paint .black) grand.value temp
              -- The parent is black now, which ends the loop.
              (fill (← rotate grand.side.other top) path).paint .black

def ngxRbtreeInsert [DecidableEq α] (a : α) (t : Rbtree α) : Option (Rbtree α) := do
  -- A node that is in the tree would have its only links overwritten.
  if a ∈ t.nodes then none
  else
    match t with
    | .sentinel => some (.node .black .sentinel a .sentinel)
    | t =>
        let path ← ngxRbtreeInsertTimerValue less a t []
        insertFixup (.node .red .sentinel a .sentinel) path

end Insertion

/-! ## Deletion -/

def ngxRbtreeMin : Rbtree α → Option α
  | .node _ .sentinel a _ => some a
  | .node _ l _ _ => ngxRbtreeMin l
  | _ => none

/-- The node at `ngxRbtreeMin`, which has no left child: its colour, its right child and the path to it. -/
def minPlace : Rbtree α → Path α → Option (Color × Rbtree α × Path α)
  | .node c .sentinel _ r, path => some (c, r, path)
  | .node c l a r, path => minPlace l (⟨.left, c, a, r⟩ :: path)
  | _, _ => none

/-- The tree at a node and the way up that its parent pointer gives. -/
def place [DecidableEq α] (a : α) : Rbtree α → Path α → Option (Rbtree α × Path α)
  | .node c l b r, path =>
      if b = a then some (.node c l b r, path)
      else
        (place a l (⟨.left, c, b, r⟩ :: path)).orElse fun _ =>
          place a r (⟨.right, c, b, l⟩ :: path)
  | _, _ => none

/-- What `temp` is after a turn of the loop. -/
inductive Fixed (α : Type)
  | parent (t : Rbtree α)
  | root (t : Rbtree α)

/-- The part of a turn that starts with a black sibling. -/
def deleteTurn (temp : Rbtree α) (parent : Frame α) : Option (Fixed α) := do
  let w := parent.sibling
  let (near, v) ← w.zoom parent.side
  match ← near.color?, ← v.sibling.color? with
  | .black, .black =>
      return .parent (make parent.side parent.color temp parent.value (← w.paint .red))
  | _, far =>
      let w ←
        match far with
        | .black =>
            let near ← near.paint .black
            rotate parent.side.other (make parent.side .red near v.value v.sibling)
        | .red => pure w
      let (near, v) ← w.zoom parent.side
      let w := make parent.side parent.color near v.value (← v.sibling.paint .black)
      return .root (← rotate parent.side (make parent.side .black temp parent.value w))

/-- The loop that re-balances the tree where it lacks a black node. -/
def deleteFixup : Rbtree α → Path α → Option (Rbtree α)
  | temp, [] => temp.paint .black
  | temp, parent :: path => do
      match ← temp.color? with
      | .red => return fill (← temp.paint .black) (parent :: path)
      | .black =>
          match ← parent.sibling.color? with
          | .black =>
              match ← deleteTurn temp parent with
              | .parent t => deleteFixup t path
              | .root t => (fill t path).paint .black
          | .red =>
              let w ← parent.sibling.paint .black
              let top ← rotate parent.side (make parent.side .red temp parent.value w)
              let (lower, grand) ← top.zoom parent.side
              let (temp, parent) ← lower.zoom parent.side
              match ← deleteTurn temp parent with
              -- The parent is red, which ends the loop.
              | .parent t => return fill (← t.paint .black) (grand :: path)
              | .root t => (fill t (grand :: path)).paint .black

/-- Takes a node out that has `temp` as its only child. -/
def unlink (color : Color) (temp : Rbtree α) (path : Path α) : Option (Rbtree α) :=
  match path, color with
  | [], _ => temp.paint .black
  | path, .red => some (fill temp path)
  | path, .black => deleteFixup temp path

def ngxRbtreeDelete [DecidableEq α] (a : α) (t : Rbtree α) : Option (Rbtree α) := do
  let (t, path) ← place a t []
  match t with
  | .node color left _ right =>
      match left, right with
      | .sentinel, _ => unlink color right path
      | _, .sentinel => unlink color left path
      | _, _ => do
          -- The successor takes the place and the colour of the node.
          let subst ← ngxRbtreeMin right
          let (vacated, temp, path) ← minPlace right (⟨.right, color, subst, left⟩ :: path)
          unlink vacated temp path
  | _ => none

/-! ## Balance -/

/-- A tree without two red nodes in a row, with the colour of its root and the number of black nodes on
each way down. -/
inductive Balanced : Rbtree α → Color → Nat → Prop
  | sentinel : Balanced .sentinel .black 0
  | black {l r : Rbtree α} {c d : Color} {n : Nat} (a : α) (hl : Balanced l c n)
      (hr : Balanced r d n) : Balanced (.node .black l a r) .black (n + 1)
  | red {l r : Rbtree α} {n : Nat} (a : α) (hl : Balanced l .black n) (hr : Balanced r .black n) :
      Balanced (.node .red l a r) .red n

/-- What the operations keep. -/
def IsRbtree (t : Rbtree α) : Prop := ∃ n, Balanced t .black n

namespace Balanced

variable {t w : Rbtree α} {c d : Color} {n : Nat}

theorem makeBlack (s : Side) (a : α) (ht : Balanced t c n) (hw : Balanced w d n) :
    Balanced (make s .black t a w) .black (n + 1) := by
  cases s
  · exact .black a ht hw
  · exact .black a hw ht

theorem makeRed (s : Side) (a : α) (ht : Balanced t .black n) (hw : Balanced w .black n) :
    Balanced (make s .red t a w) .red n := by
  cases s
  · exact .red a ht hw
  · exact .red a hw ht

theorem makeColor (s : Side) (c : Color) (a : α) (ht : Balanced t .black n)
    (hw : Balanced w .black n) : Balanced (make s c t a w) c (n + c.blacks) := by
  cases c
  · exact ht.makeBlack s a hw
  · exact ht.makeRed s a hw

theorem color? (h : Balanced t c n) : t.color? = some c := by
  cases h <;> rfl

theorem ne_null (h : Balanced t c n) : t ≠ .null := by
  rintro rfl
  cases h

theorem paint_black (h : Balanced t .black n) : t.paint .black = some t := by
  cases h <;> rfl

theorem exists_red (s : Side) (h : Balanced t .red n) :
    ∃ near a far, t = make s .red near a far ∧ Balanced near .black n ∧ Balanced far .black n := by
  cases h with
  | @red l r _ a hl hr =>
      cases s
      · exact ⟨l, a, r, rfl, hl, hr⟩
      · exact ⟨r, a, l, rfl, hr, hl⟩

theorem exists_black (s : Side) (h : Balanced t .black (n + 1)) :
    ∃ near a far c d, t = make s .black near a far ∧ Balanced near c n ∧ Balanced far d n := by
  cases h with
  | @black l r c d _ a hl hr =>
      cases s
      · exact ⟨l, a, r, c, d, rfl, hl, hr⟩
      · exact ⟨r, a, l, d, c, rfl, hr, hl⟩

/-- Painting the root black leaves a tree that is a black node higher if the root was red. -/
theorem exists_paint_black (h : Balanced t c n) :
    ∃ t', t.paint .black = some t' ∧ t'.nodes = t.nodes ∧
      Balanced t' .black (if c = .red then n + 1 else n) := by
  cases c with
  | black => exact ⟨t, h.paint_black, rfl, h⟩
  | red =>
      rcases h.exists_red .left with ⟨l, a, r, rfl, hl, hr⟩
      exact ⟨make .left .black l a r, rfl, rfl, makeBlack .left a hl hr⟩

end Balanced

/-- The place at the end of a path takes a tree of this colour and this height. -/
inductive Hole : Path α → Color → Nat → Prop
  | root (n : Nat) : Hole [] .black n
  | red {path : Path α} {w : Rbtree α} {n : Nat} (s : Side) (a : α) (hw : Balanced w .black n)
      (hpath : Hole path .red n) : Hole (⟨s, .red, a, w⟩ :: path) .black n
  | black {path : Path α} {w : Rbtree α} {d : Color} {n : Nat} (s : Side) (a : α) (c : Color)
      (hw : Balanced w d n) (hpath : Hole path .black (n + 1)) : Hole (⟨s, .black, a, w⟩ :: path) c n

/-- The elements of the nodes above a place and of what hangs from them. -/
def Path.nodes : Path α → Multiset α
  | [] => 0
  | f :: path => f.value ::ₘ (f.sibling.nodes + Path.nodes path)

theorem nodes_make (s : Side) (c : Color) (t : Rbtree α) (a : α) (w : Rbtree α) :
    (make s c t a w).nodes = a ::ₘ (t.nodes + w.nodes) := by
  cases s
  · rfl
  · exact congrArg (a ::ₘ ·) (add_comm w.nodes t.nodes)

theorem nodes_fill (t : Rbtree α) (path : Path α) : (fill t path).nodes = t.nodes + path.nodes := by
  induction path generalizing t with
  | nil => exact (add_zero t.nodes).symm
  | cons f path ih =>
      rw [fill_cons, ih, Frame.around, nodes_make, Path.nodes]
      simp only [← Multiset.singleton_add]
      abel

namespace Hole

variable {path : Path α} {t : Rbtree α} {c : Color} {n : Nat}

theorem fill (hpath : Hole path c n) (ht : Balanced t c n) : IsRbtree (fill t path) := by
  induction hpath generalizing t with
  | root n => exact ⟨n, ht⟩
  | red s a hw _ ih => exact ih (ht.makeRed s a hw)
  | black s a c hw _ ih => exact ih (ht.makeBlack s a hw)

/-- The node above a place and what is above that. -/
theorem exists_sibling {f : Frame α} (hpath : Hole (f :: path) .black n) :
    ∃ s c a w d, f = ⟨s, c, a, w⟩ ∧ Balanced w d n ∧ Hole path c (n + c.blacks) ∧
      (d = .red → c = .black) := by
  cases hpath with
  | @red _ w _ s a hw hpath => exact ⟨s, .red, a, w, .black, rfl, hw, hpath, nofun⟩
  | @black _ w d _ s a _ hw hpath => exact ⟨s, .black, a, w, d, rfl, hw, hpath, fun _ => rfl⟩

/-- Below a black node a tree of either colour fits. -/
theorem under_black {f : Frame α} (hpath : Hole (f :: path) c n) (hf : f.color = .black) (d : Color) :
    Hole (f :: path) d n := by
  cases hpath with
  | red s a hw hpath => cases hf
  | black s a c hw hpath => exact .black s a d hw hpath

/-- A black tree fits where a red one does. -/
theorem of_color (hpath : Hole path c n) : Hole path .black n := by
  cases hpath with
  | root n => exact .root n
  | red s a hw hpath => exact .red s a hw hpath
  | black s a c hw hpath => exact .black s a .black hw hpath

end Hole

/-- A tree and the way up from it that make a balanced tree together. -/
def Fits (t : Rbtree α) (path : Path α) : Prop := ∃ c n, Balanced t c n ∧ Hole path c n

theorem Balanced.children {s : Side} {c d : Color} {t w : Rbtree α} {a : α} {n : Nat}
    (h : Balanced (make s c t a w) d n) :
    ∃ ct cw m, Balanced t ct m ∧ Balanced w cw m ∧ d = c ∧ n = m + c.blacks ∧
      (c = .red → ct = .black ∧ cw = .black) := by
  cases s <;> cases h with
  | @black _ _ cl cr m _ hl hr => exact ⟨_, _, m, ‹_›, ‹_›, rfl, rfl, nofun⟩
  | red _ hl hr => exact ⟨_, _, _, ‹_›, ‹_›, rfl, rfl, fun _ => ⟨rfl, rfl⟩⟩

namespace Fits

variable {s : Side} {c : Color} {t w : Rbtree α} {a : α} {path : Path α}

theorem of_isRbtree (h : IsRbtree t) : Fits t [] := by
  rcases h with ⟨n, hn⟩
  exact ⟨.black, n, hn, .root n⟩

/-- One step down. -/
theorem child (h : Fits (make s c t a w) path) (b : α) : Fits t (⟨s, c, b, w⟩ :: path) := by
  rcases h with ⟨d, n, ht, hpath⟩
  rcases ht.children with ⟨ct, cw, m, hchild, hw, rfl, rfl, hred⟩
  cases d with
  | black => exact ⟨ct, m, hchild, .black s b ct hw hpath⟩
  | red =>
      rcases hred rfl with ⟨rfl, rfl⟩
      exact ⟨.black, m, hchild, .red s b hw hpath⟩

theorem ne_null (h : Fits t path) : t ≠ .null := by
  rcases h with ⟨c, n, ht, _⟩
  exact ht.ne_null

end Fits

/-- A step down moves a node and the other child from the tree to the path. -/
theorem nodes_child (s : Side) (c : Color) (t : Rbtree α) (a : α) (w : Rbtree α) (path : Path α) :
    t.nodes + Path.nodes (⟨s, c, a, w⟩ :: path) = (make s c t a w).nodes + path.nodes := by
  simp only [nodes_make, Path.nodes, ← Multiset.singleton_add]
  abel

/-- The operation ends, with a tree of these elements. -/
def Leads (o : Option (Rbtree α)) (m : Multiset α) : Prop :=
  ∃ t, o = some t ∧ IsRbtree t ∧ t.nodes = m

namespace Leads

variable {path : Path α} {t : Rbtree α} {c : Color} {n : Nat}

theorem fill (hpath : Hole path c n) (ht : Balanced t c n) :
    Leads (some (fill t path)) (t.nodes + path.nodes) :=
  ⟨_, rfl, hpath.fill ht, nodes_fill t path⟩

/-- The root of a balanced tree is black already. -/
theorem fill_paint (hpath : Hole path c n) (ht : Balanced t c n) :
    Leads ((Rbtree.fill t path).paint .black) (t.nodes + path.nodes) := by
  rcases hpath.fill ht with ⟨m, hm⟩
  rw [hm.paint_black]
  exact fill hpath ht

theorem paint (ht : Balanced t c n) : Leads (t.paint .black) t.nodes := by
  rcases ht.exists_paint_black with ⟨t', hpaint, hnodes, ht'⟩
  exact ⟨t', hpaint, ⟨_, ht'⟩, hnodes⟩

end Leads

/-! ## What insertion does -/

theorem insertFixup_leads {t : Rbtree α} {path : Path α} {n : Nat} (ht : Balanced t .red n)
    (hpath : Hole path .black n) : Leads (insertFixup t path) (t.nodes + path.nodes) := by
  -- Two nodes up at a time: above a red node there is a black one.
  induction t, path using insertFixup.induct generalizing n with
  | case1 t =>
      rw [insertFixup, Path.nodes, add_zero]
      exact .paint ht
  | case2 t parent hblack =>
      rw [insertFixup, hblack]
      exact .fill_paint (hpath.under_black hblack .red) ht
  | case3 t parent hred =>
      -- The root of a balanced tree is black.
      cases hpath with
      | red s a hw hroot => cases hroot
      | black => cases hred
  | case4 t parent grand path hblack =>
      rw [insertFixup, hblack]
      exact .fill_paint (hpath.under_black hblack .red) ht
  | case5 t parent grand path hred ih =>
      cases hpath with
      | black => cases hred
      | @red _ w _ s a hw hgrand =>
        cases hgrand with
        | @black _ u d _ g b _ hu hpath =>
            cases d with
            | red =>
                -- The colours move up, and the grandparent is the red node of the next turn.
                rcases hu.exists_paint_black with ⟨u', hpaint, hnodes, hu'⟩
                have hbelow : Balanced (make s .black t a w) .black (n + 1) := ht.makeBlack s a hw
                have hnext := ih u' (hbelow.makeRed g b hu') hpath
                rw [nodes_make, nodes_make, hnodes, ← nodes_make s .red, ← nodes_make g .black] at hnext
                simp only [insertFixup, hu.color?, hpaint, Option.bind_eq_bind, Option.bind_some]
                rw [nodes_child, nodes_child]
                exact hnext
            | black =>
                by_cases hside : s = g
                -- The node is an outer grandchild: one rotation.
                · subst hside
                  have hrotate := rotate_other_make hw.ne_null s .red .black t a b u
                  have htop := ht.makeBlack s a (hw.makeRed s b hu)
                  simp only [insertFixup, hu.color?, Frame.around, if_true, Option.bind_eq_bind,
                    Option.bind_some, Option.pure_def, paint_make, hrotate]
                  convert Leads.fill_paint hpath htop using 1
                  simp only [nodes_make, Path.nodes, ← Multiset.singleton_add]
                  abel
                -- It is an inner one: a rotation below makes it an outer one first.
                · obtain rfl : s = g.other := by cases s <;> cases g <;> simp_all [Side.other]
                  rcases ht.exists_red g with ⟨near, v, far, rfl, hnear, hfar⟩
                  have hlower := rotate_make hnear.ne_null g .red .red w a v far
                  have hrotate :=
                    rotate_other_make hfar.ne_null g .red .black (make g .red w a near) v b u
                  have htop := (hw.makeRed g a hnear).makeBlack g v (hfar.makeRed g b hu)
                  simp only [insertFixup, hu.color?, Frame.around, if_neg hside, Option.bind_eq_bind,
                    Option.bind_some, paint_make, make_other, hlower, hrotate]
                  convert Leads.fill_paint hpath htop using 1
                  simp only [nodes_make, Path.nodes, ← Multiset.singleton_add]
                  abel

theorem insertPlace_spec (less : α → α → Bool) (a : α) {t : Rbtree α} {path : Path α}
    (h : Fits t path) :
    ∃ path', ngxRbtreeInsertTimerValue less a t path = some path' ∧ Hole path' .black 0 ∧
      path'.nodes = t.nodes + path.nodes := by
  induction t generalizing path with
  | null => exact absurd rfl h.ne_null
  | sentinel =>
      -- Here a red node without black ones below it will fit.
      rcases h with ⟨c, n, ht, hpath⟩
      cases ht
      exact ⟨path, rfl, hpath, (zero_add path.nodes).symm⟩
  | node c l b r ihl ihr =>
      cases hless : less a b with
      | true =>
          rcases ihl (Fits.child (s := .left) h b) with ⟨path', hplace, hhole, hnodes⟩
          refine ⟨path', ?_, hhole, ?_⟩
          · rw [ngxRbtreeInsertTimerValue, if_pos hless, hplace]
          · rw [hnodes]
            exact nodes_child .left c l b r path
      | false =>
          rcases ihr (Fits.child (s := .right) h b) with ⟨path', hplace, hhole, hnodes⟩
          refine ⟨path', ?_, hhole, ?_⟩
          · rw [ngxRbtreeInsertTimerValue, if_neg (by simp [hless]), hplace]
          · rw [hnodes]
            exact nodes_child .right c r b l path

/-- Insertion puts one node in. -/
theorem ngxRbtreeInsert_leads [DecidableEq α] (less : α → α → Bool) {a : α} {t : Rbtree α}
    (h : IsRbtree t) (ha : a ∉ t.nodes) :
    Leads (ngxRbtreeInsert less a t) (a ::ₘ t.nodes) := by
  have hnew : Balanced (node .red .sentinel a .sentinel) .red 0 := .red a .sentinel .sentinel
  rcases insertPlace_spec less a (Fits.of_isRbtree h) with ⟨path, hplace, hhole, hnodes⟩
  have hfixup := insertFixup_leads hnew hhole
  have hall : (node .red .sentinel a .sentinel).nodes + path.nodes = a ::ₘ t.nodes := by
    rw [hnodes]
    simp only [nodes, Path.nodes, add_zero, Multiset.cons_add, zero_add]
  rw [hall] at hfixup
  unfold ngxRbtreeInsert
  rw [if_neg ha]
  cases t with
  | sentinel => exact ⟨_, rfl, ⟨1, .black a .sentinel .sentinel⟩, rfl⟩
  | null => exact absurd rfl (Fits.of_isRbtree h).ne_null
  | node c l b r =>
      simp only [hplace, Option.bind_eq_bind, Option.bind_some]
      exact hfixup

/-! ## What deletion does -/

/-- A tree that is a black node short, or is red and is not once it is painted. -/
def Short (t : Rbtree α) (n : Nat) : Prop :=
  Balanced t .black n ∨
    t.color? = some .red ∧
      ∃ t', t.paint .black = some t' ∧ t'.nodes = t.nodes ∧ Balanced t' .black (n + 1)

theorem Balanced.short {t : Rbtree α} {c : Color} {n : Nat} (h : Balanced t c n) : Short t n := by
  cases c with
  | black => exact .inl h
  | red => exact .inr ⟨h.color?, h.exists_paint_black⟩

/-- A parent whose other subtree was painted red. -/
theorem Balanced.short_parent {temp w : Rbtree α} {n : Nat} (htemp : Balanced temp .black n) (s : Side)
    (c : Color) (a : α) (hw : Balanced w .red n) : Short (make s c temp a w) (n + c.blacks) := by
  cases c with
  | black => exact .inl (htemp.makeBlack s a hw)
  | red =>
      refine .inr ⟨color?_make .., make s .black temp a w, paint_make .., ?_, htemp.makeBlack s a hw⟩
      rw [nodes_make, nodes_make]

/-- A turn makes the parent short, or is the last. -/
theorem deleteTurn_spec {temp w : Rbtree α} {n : Nat} (s : Side) (c : Color) (a : α)
    (htemp : Balanced temp .black n) (hw : Balanced w .black (n + 1)) :
    (∃ w', deleteTurn temp ⟨s, c, a, w⟩ = some (.parent (make s c temp a w')) ∧ Balanced w' .red n ∧
        w'.nodes = w.nodes) ∨
      ∃ top, deleteTurn temp ⟨s, c, a, w⟩ = some (.root top) ∧ Balanced top c (n + 1 + c.blacks) ∧
        top.nodes = (make s c temp a w).nodes := by
  rcases hw.exists_black s with ⟨near, b, far, cn, cf, rfl, hnear, hfar⟩
  cases cf with
  | black =>
      cases cn with
      -- Without a red child the sibling gives its own black node away.
      | black =>
          left
          refine ⟨make s .red near b far, ?_, hnear.makeRed s b hfar, ?_⟩
          · simp [deleteTurn, hnear.color?, hfar.color?]
          · simp only [nodes_make]
      -- The near child comes to stand above the sibling, which the second rotation takes down.
      | red =>
          right
          rcases hnear.exists_red s with ⟨m, v, o, rfl, hm, ho⟩
          have hlift := rotate_other_make ho.ne_null s .red .black m v b far
          have hrotate :=
            rotate_make hm.ne_null s .black c temp a v (make s .black o b far)
          refine ⟨make s c (make s .black temp a m) v (make s .black o b far), ?_, ?_, ?_⟩
          · simp [deleteTurn, hfar.color?, hlift, hrotate]
          · exact .makeColor s c v (htemp.makeBlack s a hm) (ho.makeBlack s b hfar)
          · simp only [nodes_make, ← Multiset.singleton_add]
            abel
  -- The far child pays for the black node that goes down with the parent.
  | red =>
      right
      rcases hfar.exists_paint_black with ⟨far', hpaint, hnodes, hfar'⟩
      have hrotate := rotate_make hnear.ne_null s .black c temp a b far'
      refine ⟨make s c (make s .black temp a near) b far', ?_, ?_, ?_⟩
      · simp [deleteTurn, hfar.color?, hnear.color?, hpaint, hrotate]
      · exact .makeColor s c b (htemp.makeBlack s a hnear) hfar'
      · simp only [nodes_make, hnodes, ← Multiset.singleton_add]
        abel

theorem deleteFixup_leads {temp : Rbtree α} {path : Path α} {n : Nat} (htemp : Short temp n)
    (hpath : Hole path .black (n + 1)) : Leads (deleteFixup temp path) (temp.nodes + path.nodes) := by
  -- One node up at a time; a red sibling is taken above the parent within the same turn.
  induction path generalizing temp n with
  | nil =>
      rw [deleteFixup, Path.nodes, add_zero]
      rcases htemp with hblack | ⟨_, t', hpaint, hnodes, ht'⟩
      · exact .paint hblack
      · exact ⟨t', hpaint, ⟨_, ht'⟩, hnodes⟩
  | cons parent path ih =>
      rcases htemp with hblack | ⟨hred, t', hpaint, hnodes, ht'⟩
      · rcases hpath.exists_sibling with ⟨s, c, a, w, d, rfl, hw, habove, hd⟩
        cases d with
        | black =>
            simp only [deleteFixup, hblack.color?, hw.color?, Option.bind_eq_bind, Option.bind_some]
            rcases deleteTurn_spec s c a hblack hw with
              ⟨w', hturn, hw', hnodes⟩ | ⟨top, hturn, htop, hnodes⟩
            · have hnext : Leads (deleteFixup (make s c temp a w') path) _ :=
                ih (hblack.short_parent s c a hw') (by simpa only [add_right_comm] using habove.of_color)
              rw [nodes_make, hnodes, ← nodes_make s c] at hnext
              simp only [hturn, Option.bind_some]
              rw [nodes_child]
              exact hnext
            · simp only [hturn, Option.bind_some]
              rw [nodes_child, ← hnodes]
              exact .fill_paint habove htop
        | red =>
            obtain rfl : c = .black := hd rfl
            rcases hw.exists_red s with ⟨near, b, far, rfl, hnear, hfar⟩
            have hrotate := rotate_make hnear.ne_null s .red .black temp a b far
            have hgrand : ∀ d, Hole (⟨s, .black, b, far⟩ :: path) d (n + 1) := fun d =>
              .black s b d hfar habove
            simp only [deleteFixup, hblack.color?, color?_make, paint_make, hrotate, zoom_make,
              Option.bind_eq_bind, Option.bind_some]
            rcases deleteTurn_spec s .red a hblack hnear with
              ⟨w', hturn, hw', hnodes⟩ | ⟨top, hturn, htop, hnodes⟩
            · have hlower := hblack.makeBlack s a hw'
              have hall : (make s .black temp a w').nodes + Path.nodes (⟨s, .black, b, far⟩ :: path) =
                  temp.nodes + Path.nodes (⟨s, .black, a, make s .red near b far⟩ :: path) := by
                simp only [nodes_make, Path.nodes, hnodes, ← Multiset.singleton_add]
                abel
              simp only [hturn, paint_make, Option.bind_some, Option.pure_def]
              rw [← hall]
              exact .fill (hgrand .black) hlower
            · have hall : top.nodes + Path.nodes (⟨s, .black, b, far⟩ :: path) =
                  temp.nodes + Path.nodes (⟨s, .black, a, make s .red near b far⟩ :: path) := by
                simp only [hnodes, nodes_make, Path.nodes, ← Multiset.singleton_add]
                abel
              simp only [hturn, Option.bind_some]
              rw [← hall]
              exact .fill_paint (hgrand .red) htop
      · simp only [deleteFixup, hred, hpaint, Option.bind_eq_bind, Option.bind_some]
        rw [← hnodes]
        exact .fill hpath ht'

theorem unlink_leads {s : Side} {c : Color} {temp : Rbtree α} {a : α} {path : Path α}
    (h : Fits (make s c .sentinel a temp) path) :
    Leads (unlink c temp path) (temp.nodes + path.nodes) := by
  rcases h with ⟨d, n, ht, hpath⟩
  rcases ht.children with ⟨_, cw, m, _, htemp, rfl, rfl, hred⟩
  cases path with
  | nil =>
      rw [unlink, Path.nodes, add_zero]
      exact .paint htemp
  | cons f path =>
      cases d with
      | black => exact deleteFixup_leads htemp.short hpath
      | red =>
          rcases hred rfl with ⟨_, rfl⟩
          exact .fill hpath.of_color htemp

theorem minPlace_spec {t : Rbtree α} {path : Path α} (h : Fits t path) (ht : t ≠ .sentinel) :
    ∃ a c r path', ngxRbtreeMin t = some a ∧ minPlace t path = some (c, r, path') ∧
      Fits (make .left c .sentinel a r) path' ∧
      a ::ₘ (r.nodes + path'.nodes) = t.nodes + path.nodes := by
  induction t generalizing path with
  | null => exact absurd rfl h.ne_null
  | sentinel => exact absurd rfl ht
  | node c l a r ihl _ =>
      have hl : Fits l (⟨.left, c, a, r⟩ :: path) := Fits.child (s := .left) h a
      cases l with
      | null => exact absurd rfl hl.ne_null
      | sentinel =>
          refine ⟨a, c, r, path, rfl, rfl, h, ?_⟩
          simp only [nodes, zero_add, Multiset.cons_add]
      | node cl ll al rl =>
          rcases ihl hl nofun with ⟨b, d, u, path', hmin, hplace, hfits, hnodes⟩
          refine ⟨b, d, u, path', hmin, hplace, hfits, ?_⟩
          rw [hnodes]
          exact nodes_child .left c _ a r path

theorem ngxRbtreeMin_spec {t : Rbtree α} (h : IsRbtree t) (ht : t ≠ .sentinel) :
    ∃ a, ngxRbtreeMin t = some a ∧ a ∈ t.nodes := by
  rcases minPlace_spec (Fits.of_isRbtree h) ht with ⟨a, c, r, path, hmin, _, _, hnodes⟩
  refine ⟨a, hmin, ?_⟩
  rw [Path.nodes, add_zero] at hnodes
  rw [← hnodes]
  exact Multiset.mem_cons_self a _

section

variable [DecidableEq α] {a : α} {t : Rbtree α} {path : Path α}

theorem place_eq_none (h : a ∉ t.nodes) : place a t path = none := by
  induction t generalizing path with
  | null => rfl
  | sentinel => rfl
  | node c l b r ihl ihr =>
      simp only [nodes, Multiset.mem_cons, Multiset.mem_add, not_or] at h
      rw [place, if_neg (Ne.symm h.1), ihl h.2.1, ihr h.2.2]
      rfl

theorem place_spec (h : Fits t path) (ha : a ∈ t.nodes) :
    ∃ c l r path', place a t path = some (.node c l a r, path') ∧ Fits (.node c l a r) path' ∧
      a ::ₘ (l.nodes + r.nodes + path'.nodes) = t.nodes + path.nodes := by
  induction t generalizing path with
  | null => exact absurd rfl h.ne_null
  | sentinel => exact absurd ha (Multiset.notMem_zero a)
  | node c l b r ihl ihr =>
      by_cases hb : b = a
      · subst hb
        refine ⟨c, l, r, path, if_pos rfl, h, ?_⟩
        rw [nodes, Multiset.cons_add]
      · by_cases hl : a ∈ l.nodes
        · rcases ihl (Fits.child (s := .left) h b) hl with ⟨d, l', r', path', hplace, hfits, hnodes⟩
          refine ⟨d, l', r', path', ?_, hfits, ?_⟩
          · rw [place, if_neg hb, hplace]
            rfl
          · rw [hnodes]
            exact nodes_child .left c l b r path
        · have hr : a ∈ r.nodes := by
            simpa [nodes, Ne.symm hb, hl] using ha
          rcases ihr (Fits.child (s := .right) h b) hr with ⟨d, l', r', path', hplace, hfits, hnodes⟩
          refine ⟨d, l', r', path', ?_, hfits, ?_⟩
          · rw [place, if_neg hb, place_eq_none hl, hplace]
            rfl
          · rw [hnodes]
            exact nodes_child .right c r b l path

/-- Deletion takes one node out. -/
theorem ngxRbtreeDelete_leads (h : IsRbtree t) (ha : a ∈ t.nodes) :
    Leads (ngxRbtreeDelete a t) (t.nodes.erase a) := by
  rcases place_spec (Fits.of_isRbtree h) ha with ⟨c, l, r, path, hplace, hfits, hnodes⟩
  have herase : t.nodes.erase a = l.nodes + r.nodes + path.nodes := by
    rw [Path.nodes, add_zero] at hnodes
    rw [← hnodes, Multiset.erase_cons_head]
  have hl : l ≠ .null := (Fits.child (s := .left) hfits a).ne_null
  have hr : r ≠ .null := (Fits.child (s := .right) hfits a).ne_null
  rw [herase, ngxRbtreeDelete, hplace]
  -- The cases of the source: a child is missing, or the successor is the node that goes.
  cases l with
  | null => exact absurd rfl hl
  | sentinel =>
      have hnodes : (sentinel : Rbtree α).nodes + r.nodes = r.nodes := zero_add r.nodes
      rw [hnodes]
      exact unlink_leads (s := .left) hfits
  | node cl ll b rl =>
      cases r with
      | null => exact absurd rfl hr
      | sentinel =>
          have hnodes : (node cl ll b rl).nodes + (sentinel : Rbtree α).nodes = (node cl ll b rl).nodes :=
            add_zero _
          rw [hnodes]
          exact unlink_leads (s := .right) hfits
      | node cr lr d rr =>
          -- The path to the successor has it above already, where the node was.
          rcases minPlace_spec (Fits.child (s := .right) hfits a) nofun with ⟨subst, _, _, _, hmin, _⟩
          rcases minPlace_spec (Fits.child (s := .right) hfits subst) nofun with
            ⟨_, e, u, path', hmin', hplace', hfits', hnodes'⟩
          obtain rfl := Option.some.inj (hmin.symm.trans hmin')
          have hrest : (node cl ll b rl).nodes + (node cr lr d rr).nodes + path.nodes =
              u.nodes + path'.nodes := by
            apply (Multiset.cons_inj_right subst).1
            rw [hnodes', Path.nodes]
            simp only [← Multiset.singleton_add]
            abel
          simp only [Option.bind_eq_bind, Option.bind_some, hmin, hplace', hrest]
          exact unlink_leads hfits'

end

end Rbtree
end Ngx
end CppPractice
