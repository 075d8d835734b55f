import CppPractice.Ngx.Rbtree
import Mathlib.Data.Nat.Log

/-!
# RbtreeOrder — the order of the elements of a red-black tree

`inorder` reads the elements of a tree from left to right.  Rotating and painting leave it as it is, so
that an insertion changes it at the new node only, and a deletion at the node that goes.  Whatever order
`less` respects, the elements are kept in it.

The shape bounds the way down: a tree of `n` elements is at most `2 * log2 (n + 1)` nodes high.
-/

namespace CppPractice
namespace Ngx
namespace Rbtree

variable {α : Type}

/-! ## Reading a tree from left to right -/

def inorder : Rbtree α → List α
  | .node _ l a r => l.inorder ++ a :: r.inorder
  | _ => []

theorem coe_inorder (t : Rbtree α) : (t.inorder : Multiset α) = t.nodes := by
  induction t with
  | null => rfl
  | sentinel => rfl
  | node c l a r ihl ihr =>
      rw [inorder, nodes, ← ihl, ← ihr, Multiset.coe_add, Multiset.cons_coe]
      exact Multiset.coe_eq_coe.2 List.perm_middle

theorem mem_inorder {t : Rbtree α} {a : α} : a ∈ t.inorder ↔ a ∈ t.nodes := by
  rw [← coe_inorder, Multiset.mem_coe]

/-- What a node above a place has to the left of it. -/
def Frame.before (f : Frame α) : List α :=
  match f.side with
  | .left => []
  | .right => f.sibling.inorder ++ [f.value]

def Frame.after (f : Frame α) : List α :=
  match f.side with
  | .left => f.value :: f.sibling.inorder
  | .right => []

/-- What is to the left of a place. -/
def Path.before : Path α → List α
  | [] => []
  | f :: path => Path.before path ++ f.before

def Path.after : Path α → List α
  | [] => []
  | f :: path => f.after ++ Path.after path

theorem inorder_around (f : Frame α) (t : Rbtree α) :
    (f.around t).inorder = f.before ++ (t.inorder ++ f.after) := by
  rcases f with ⟨s, c, a, w⟩
  cases s <;> simp [Frame.around, make, inorder, Frame.before, Frame.after]

theorem inorder_fill (t : Rbtree α) (path : Path α) :
    (fill t path).inorder = path.before ++ (t.inorder ++ path.after) := by
  induction path generalizing t with
  | nil => simp [Path.before, Path.after]
  | cons f path ih => simp [ih, inorder_around, Path.before, Path.after]

/-- A tree in the place of another with the same elements. -/
theorem inorder_fill_congr {t t' : Rbtree α} (h : t.inorder = t'.inorder) (path : Path α) :
    (fill t path).inorder = (fill t' path).inorder := by
  rw [inorder_fill, inorder_fill, h]

theorem inorder_make_congr {t t' w w' : Rbtree α} (ht : t.inorder = t'.inorder)
    (hw : w.inorder = w'.inorder) (s : Side) (c d : Color) (a : α) :
    (make s c t a w).inorder = (make s d t' a w').inorder := by
  cases s <;> simp [make, inorder, ht, hw]

/-! ## Painting and rotating -/

theorem inorder_paint {c : Color} {t t' : Rbtree α} (h : t.paint c = some t') : t'.inorder = t.inorder := by
  cases t with
  | null => cases h
  | sentinel =>
      cases h
      rfl
  | node d l a r =>
      cases h
      rfl

theorem inorder_rotate {s : Side} {t t' : Rbtree α} (h : rotate s t = some t') :
    t'.inorder = t.inorder := by
  cases s with
  | left =>
      rw [rotate] at h
      unfold ngxRbtreeLeftRotate at h
      split at h
      · cases h
      · cases h
        simp [inorder]
      · cases h
  | right =>
      rw [rotate] at h
      unfold ngxRbtreeRightRotate at h
      split at h
      · cases h
      · cases h
        simp [inorder]
      · cases h

theorem around_of_zoom {s : Side} {t u : Rbtree α} {f : Frame α} (h : t.zoom s = some (u, f)) :
    f.around u = t ∧ f.side = s := by
  cases t with
  | null => cases h
  | sentinel => cases h
  | node c l a r => cases s <;> cases h <;> exact ⟨rfl, rfl⟩

/-! ## Insertion -/

theorem inorder_insertFixup {t t' : Rbtree α} {path : Path α} (h : insertFixup t path = some t') :
    t'.inorder = (fill t path).inorder := by
  fun_induction insertFixup t path generalizing t' with
  | case1 t => exact inorder_paint h
  | case2 t parent hblack => exact inorder_paint h
  | case3 t parent hred => cases h
  | case4 t parent grand path hblack => exact inorder_paint h
  | case5 t parent grand path hred temp =>
      rename_i ih
      rcases Option.bind_eq_some_iff.1 h with ⟨color, -, h⟩
      cases color with
      | red =>
          rcases Option.bind_eq_some_iff.1 h with ⟨temp', htemp, h⟩
          rw [ih temp' h, fill_cons, fill_cons]
          apply inorder_fill_congr
          exact inorder_make_congr (inorder_make_congr rfl rfl ..) (inorder_paint htemp) ..
      | black =>
          -- the parent is turned first if it is on the other side
          obtain ⟨below, hbelow, h⟩ : ∃ below : Rbtree α, below.inorder = (parent.around t).inorder ∧
              (do
                let top := make grand.side .red (← below.paint .black) grand.value temp
                (fill (← rotate grand.side.other top) path).paint .black) = some t' := by
            dsimp only at h
            split at h
            · exact ⟨parent.around t, rfl, h⟩
            · rcases Option.bind_eq_some_iff.1 h with ⟨below, hbelow, h⟩
              exact ⟨below, inorder_rotate hbelow, h⟩
          rcases Option.bind_eq_some_iff.1 h with ⟨painted, hpainted, h⟩
          rcases Option.bind_eq_some_iff.1 h with ⟨top, htop, h⟩
          rw [inorder_paint h, fill_cons, fill_cons]
          apply inorder_fill_congr
          rw [inorder_rotate htop]
          exact inorder_make_congr ((inorder_paint hpainted).trans hbelow) rfl ..

section order

variable {less : α → α → Bool} {le : α → α → Prop} {a : α}

/-- The new node has its place behind what it is not less than and before what it is less than. -/
theorem insertPlace_order (htrans : ∀ b c d, le b c → le c d → le b d) {t : Rbtree α}
    {path path' : Path α} (h : ngxRbtreeInsertTimerValue less a t path = some path')
    (hless : ∀ b ∈ t.inorder, (less a b = true → le a b) ∧ (less a b = false → le b a))
    (hsorted : t.inorder.Pairwise le) (hbefore : ∀ b ∈ path.before, le b a)
    (hafter : ∀ b ∈ path.after, le a b) :
    path'.before ++ path'.after = (fill t path).inorder ∧ (∀ b ∈ path'.before, le b a) ∧
      ∀ b ∈ path'.after, le a b := by
  induction t generalizing path with
  | null => cases h
  | sentinel =>
      cases h
      exact ⟨by simp [inorder_fill, inorder], hbefore, hafter⟩
  | node c l b r ihl ihr =>
      rw [inorder] at hsorted hless
      rcases List.pairwise_append.1 hsorted with ⟨hl, hbr, hlb⟩
      rcases List.pairwise_cons.1 hbr with ⟨hb, hr⟩
      rw [ngxRbtreeInsertTimerValue] at h
      cases hcmp : less a b with
      | true =>
          have hab : le a b := (hless b (by simp)).1 hcmp
          rw [if_pos hcmp] at h
          apply ihl h (fun d hd => hless d (List.mem_append_left _ hd)) hl
          · simpa [Path.before, Frame.before] using hbefore
          · intro d hd
            simp only [Path.after, Frame.after, List.mem_append, List.mem_cons] at hd
            rcases hd with (rfl | hd) | hd
            · exact hab
            · exact htrans a b d hab (hb d hd)
            · exact hafter d hd
      | false =>
          have hba : le b a := (hless b (by simp)).2 hcmp
          rw [if_neg (by simp [hcmp])] at h
          apply ihr h (fun d hd => hless d (by simp [hd])) hr
          · intro d hd
            simp only [Path.before, Frame.before, List.mem_append, List.mem_singleton] at hd
            rcases hd with hd | hd | rfl
            · exact hbefore d hd
            · exact htrans d b a (hlb d hd b List.mem_cons_self) hba
            · exact hba
          · simpa [Path.after, Frame.after] using hafter

/-- Insertion puts the new element among the others, all of which stay in order. -/
theorem ngxRbtreeInsert_order [DecidableEq α] (htrans : ∀ b c d, le b c → le c d → le b d)
    {t t' : Rbtree α} (h : ngxRbtreeInsert less a t = some t')
    (hless : ∀ b ∈ t.inorder, (less a b = true → le a b) ∧ (less a b = false → le b a))
    (hsorted : t.inorder.Pairwise le) :
    ∃ before after, t.inorder = before ++ after ∧ t'.inorder = before ++ a :: after ∧
      t'.inorder.Pairwise le := by
  obtain ⟨before, after, hold, hnew, hbefore, hafter⟩ : ∃ before after, t.inorder = before ++ after ∧
      t'.inorder = before ++ a :: after ∧ (∀ b ∈ before, le b a) ∧ ∀ b ∈ after, le a b := by
    unfold ngxRbtreeInsert at h
    split at h
    · cases h
    split at h
    · cases h
      exact ⟨[], [], rfl, rfl, (by simp), (by simp)⟩
    · rcases Option.bind_eq_some_iff.1 h with ⟨path, hpath, h⟩
      rcases insertPlace_order htrans hpath hless hsorted (List.forall_mem_nil _)
          (List.forall_mem_nil _) with ⟨hlist, hbefore, hafter⟩
      refine ⟨path.before, path.after, hlist.symm, ?_, hbefore, hafter⟩
      rw [inorder_insertFixup h, inorder_fill]
      rfl
  refine ⟨before, after, hold, hnew, ?_⟩
  rw [hold] at hsorted
  rcases List.pairwise_append.1 hsorted with ⟨hl, hr, hlr⟩
  rw [hnew]
  refine List.pairwise_append.2 ⟨hl, List.pairwise_cons.2 ⟨hafter, hr⟩, ?_⟩
  intro b hb d hd
  rcases List.mem_cons.1 hd with rfl | hd
  · exact hbefore b hb
  · exact hlr b hb d hd

end order

/-! ## Deletion -/

theorem inorder_deleteTurn {temp : Rbtree α} {parent : Frame α} {fixed : Fixed α}
    (h : deleteTurn temp parent = some fixed) :
    (∃ t, fixed = .parent t ∧ t.inorder = (parent.around temp).inorder) ∨
      ∃ t, fixed = .root t ∧ t.inorder = (parent.around temp).inorder := by
  rcases Option.bind_eq_some_iff.1 h with ⟨⟨near, v⟩, hzoom, h⟩
  rcases Option.bind_eq_some_iff.1 h with ⟨nearColor, -, h⟩
  rcases Option.bind_eq_some_iff.1 h with ⟨farColor, -, h⟩
  dsimp only at h
  split at h
  · rcases Option.bind_eq_some_iff.1 h with ⟨w, hw, h⟩
    cases h
    exact .inl ⟨_, rfl, inorder_make_congr rfl (inorder_paint hw) ..⟩
  · -- the sibling is turned first if its far child is black
    obtain ⟨w, hw, h⟩ : ∃ w : Rbtree α, w.inorder = parent.sibling.inorder ∧
        (do
          let zoomed ← w.zoom parent.side
          let w := make parent.side parent.color zoomed.1 zoomed.2.value (← zoomed.2.sibling.paint .black)
          return Fixed.root (← rotate parent.side (make parent.side .black temp parent.value w))) =
            some fixed := by
      rcases around_of_zoom hzoom with ⟨hv, hside⟩
      split at h
      · rcases Option.bind_eq_some_iff.1 h with ⟨painted, hpainted, h⟩
        rcases Option.bind_eq_some_iff.1 h with ⟨w, hw, h⟩
        refine ⟨w, ?_, h⟩
        rw [inorder_rotate hw, ← hv, Frame.around, hside]
        exact inorder_make_congr (inorder_paint hpainted) rfl ..
      · exact ⟨parent.sibling, rfl, h⟩
    rcases Option.bind_eq_some_iff.1 h with ⟨⟨near', v'⟩, hzoom', h⟩
    rcases Option.bind_eq_some_iff.1 h with ⟨painted, hpainted, h⟩
    rcases Option.bind_eq_some_iff.1 h with ⟨top, htop, h⟩
    cases h
    rcases around_of_zoom hzoom' with ⟨hv, hside⟩
    refine .inr ⟨top, rfl, ?_⟩
    rw [inorder_rotate htop]
    apply inorder_make_congr rfl
    rw [← hw, ← hv, Frame.around, hside]
    exact inorder_make_congr rfl (inorder_paint hpainted) ..

theorem inorder_deleteFixup {temp t' : Rbtree α} {path : Path α} (h : deleteFixup temp path = some t') :
    t'.inorder = (fill temp path).inorder := by
  induction path generalizing temp with
  | nil => exact inorder_paint h
  | cons parent path ih =>
      rw [deleteFixup] at h
      rcases Option.bind_eq_some_iff.1 h with ⟨color, -, h⟩
      cases color with
      | red =>
          rcases Option.bind_eq_some_iff.1 h with ⟨painted, hpainted, h⟩
          cases h
          exact inorder_fill_congr (inorder_paint hpainted) _
      | black =>
          rcases Option.bind_eq_some_iff.1 h with ⟨siblingColor, -, h⟩
          cases siblingColor with
          | black =>
              rcases Option.bind_eq_some_iff.1 h with ⟨fixed, hfixed, h⟩
              rw [fill_cons]
              rcases inorder_deleteTurn hfixed with ⟨t, rfl, ht⟩ | ⟨t, rfl, ht⟩
              · rw [ih h]
                exact inorder_fill_congr ht path
              · rw [inorder_paint h]
                exact inorder_fill_congr ht path
          | red =>
              rcases Option.bind_eq_some_iff.1 h with ⟨w, hw, h⟩
              rcases Option.bind_eq_some_iff.1 h with ⟨top, htop, h⟩
              rcases Option.bind_eq_some_iff.1 h with ⟨⟨lower, grand⟩, hgrand, h⟩
              rcases Option.bind_eq_some_iff.1 h with ⟨⟨temp', parent'⟩, hparent, h⟩
              rcases Option.bind_eq_some_iff.1 h with ⟨fixed, hfixed, h⟩
              -- the sibling is above the parent now
              have hall : (grand.around (parent'.around temp')).inorder = (parent.around temp).inorder := by
                rw [(around_of_zoom hparent).1, (around_of_zoom hgrand).1, inorder_rotate htop]
                exact inorder_make_congr rfl (inorder_paint hw) ..
              have hfill : ∀ t : Rbtree α, t.inorder = (parent'.around temp').inorder →
                  (fill t (grand :: path)).inorder = (fill temp (parent :: path)).inorder := by
                intro t ht
                rw [fill_cons, fill_cons]
                apply inorder_fill_congr
                rw [← hall, inorder_around, inorder_around, ht]
              rcases inorder_deleteTurn hfixed with ⟨t, rfl, ht⟩ | ⟨t, rfl, ht⟩
              · rcases Option.bind_eq_some_iff.1 h with ⟨painted, hpainted, h⟩
                cases h
                exact hfill painted ((inorder_paint hpainted).trans ht)
              · rw [inorder_paint h]
                exact hfill t ht

theorem inorder_unlink {color : Color} {temp t' : Rbtree α} {path : Path α}
    (h : unlink color temp path = some t') : t'.inorder = (fill temp path).inorder := by
  cases path with
  | nil => exact inorder_paint h
  | cons f path =>
      cases color with
      | red =>
          cases h
          rfl
      | black => exact inorder_deleteFixup h

/-- The leftmost node has nothing to its left. -/
theorem inorder_minPlace {t r : Rbtree α} {c : Color} {path path' : Path α} {a : α}
    (hmin : ngxRbtreeMin t = some a) (h : minPlace t path = some (c, r, path')) :
    ∃ after, t.inorder = a :: after ∧ path'.before = path.before ∧
      r.inorder ++ path'.after = after ++ path.after := by
  induction t generalizing path with
  | null => cases h
  | sentinel => cases h
  | node d l b u ihl _ =>
      cases l with
      | null => cases hmin
      | sentinel =>
          cases hmin
          cases h
          exact ⟨_, rfl, rfl, rfl⟩
      | node e ll bl ul =>
          rcases ihl hmin h with ⟨after, hlist, hbefore, hafter⟩
          refine ⟨after ++ b :: u.inorder, ?_, ?_, ?_⟩
          · rw [inorder, hlist]
            rfl
          · simpa [Path.before, Frame.before] using hbefore
          · simpa [Path.after, Frame.after] using hafter

theorem ngxRbtreeMin_eq {t : Rbtree α} {a : α} (hmin : ngxRbtreeMin t = some a) :
    ∃ after, t.inorder = a :: after := by
  induction t with
  | null => cases hmin
  | sentinel => cases hmin
  | node d l b u ihl _ =>
      cases l with
      | null => cases hmin
      | sentinel =>
          cases hmin
          exact ⟨_, rfl⟩
      | node e ll bl ul =>
          rcases ihl hmin with ⟨after, hlist⟩
          refine ⟨after ++ b :: u.inorder, ?_⟩
          rw [inorder, hlist]
          rfl

section delete

variable [DecidableEq α] {a : α}

theorem fill_place {t t' : Rbtree α} {path path' : Path α} (h : place a t path = some (t', path')) :
    fill t' path' = fill t path ∧ ∃ c l r, t' = .node c l a r := by
  induction t generalizing path with
  | null => cases h
  | sentinel => cases h
  | node c l b r ihl ihr =>
      rw [place] at h
      split at h
      case isTrue hb =>
        cases h
        exact ⟨rfl, c, l, r, by rw [hb]⟩
      case isFalse =>
        rw [Option.orElse_eq_or] at h
        rcases Option.or_eq_some_iff.1 h with h | ⟨-, h⟩
        · exact ihl h
        · exact ihr h

/-- Deletion takes one element out; the others stay as they are. -/
theorem ngxRbtreeDelete_order {t t' : Rbtree α} (h : ngxRbtreeDelete a t = some t') :
    ∃ before after, t.inorder = before ++ a :: after ∧ t'.inorder = before ++ after := by
  rcases Option.bind_eq_some_iff.1 h with ⟨⟨u, path⟩, hplace, h⟩
  rcases fill_place hplace with ⟨hfill, c, l, r, rfl⟩
  have hold : t.inorder = (path.before ++ l.inorder) ++ a :: (r.inorder ++ path.after) := by
    rw [fill_nil] at hfill
    rw [← hfill, inorder_fill, inorder]
    simp
  refine ⟨path.before ++ l.inorder, r.inorder ++ path.after, hold, ?_⟩
  dsimp only at h
  split at h
  · rw [inorder_unlink h, inorder_fill]
    simp [inorder]
  · rw [inorder_unlink h, inorder_fill]
    simp [inorder]
  · rcases Option.bind_eq_some_iff.1 h with ⟨subst, hsubst, h⟩
    rcases Option.bind_eq_some_iff.1 h with ⟨⟨vacated, temp, path'⟩, hmin, h⟩
    rcases inorder_minPlace hsubst hmin with ⟨after, hr, hbefore, hafter⟩
    rw [inorder_unlink h, inorder_fill, hafter, hbefore, hr]
    simp [Path.before, Path.after, Frame.before, Frame.after]

end delete

/-! ## Height -/

def height : Rbtree α → Nat
  | .node _ l _ r => max l.height r.height + 1
  | _ => 0

/-- Two nodes in a row have a black one, and every way down has as many of these. -/
theorem Balanced.height_le {t : Rbtree α} {c : Color} {n : Nat} (h : Balanced t c n) :
    t.height ≤ 2 * n + (if c = .red then 1 else 0) ∧ 2 ^ n ≤ t.nodes.card + 1 := by
  induction h with
  | sentinel => exact ⟨Nat.le_refl 0, Nat.le_refl 1⟩
  | @black l r c d n a hl hr ihl ihr =>
      have hlh : l.height ≤ 2 * n + 1 := by
        have hle := ihl.1
        split at hle <;> omega
      have hrh : r.height ≤ 2 * n + 1 := by
        have hle := ihr.1
        split at hle <;> omega
      refine ⟨?_, ?_⟩
      · rw [height, if_neg (by simp)]
        omega
      · rw [nodes, Multiset.card_cons, Multiset.card_add, pow_succ]
        omega
  | @red l r n a hl hr ihl ihr =>
      have hlh : l.height ≤ 2 * n := by simpa using ihl.1
      have hrh : r.height ≤ 2 * n := by simpa using ihr.1
      refine ⟨?_, ?_⟩
      · rw [height, if_pos rfl]
        omega
      · rw [nodes, Multiset.card_cons, Multiset.card_add]
        omega

theorem IsRbtree.height_le {t : Rbtree α} (h : IsRbtree t) :
    t.height ≤ 2 * Nat.log 2 (t.nodes.card + 1) := by
  rcases h with ⟨n, hn⟩
  have hheight : t.height ≤ 2 * n := by simpa using hn.height_le.1
  have hlog : n ≤ Nat.log 2 (t.nodes.card + 1) :=
    Nat.le_log_of_pow_le Nat.one_lt_two hn.height_le.2
  omega

end Rbtree
end Ngx
end CppPractice
