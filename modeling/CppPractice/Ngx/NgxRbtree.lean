import CppPractice.Lib.Trace
import CppPractice.Ngx.RbtreeOrder
import Mathlib.Data.List.Lex
import Mathlib.Data.Prod.Lex

/-!
# NgxRbtree — trees of strings

`NgxStringTree` is an `NgxRbtree` of `ngx_str_node_t`, ordered by the hash, then the length and then the
bytes of the string.  `find` goes down the tree by the same comparisons.

The nodes belong to their user, who may write to them while they are in no tree.
-/

namespace CppPractice
namespace Ngx

open Rbtree

/-! ## The functions -/

/-- `ngx_str_node_t`, but for its links. -/
structure StrNode where
  key : Nat := 0
  str : List UInt8 := []
  deriving DecidableEq

/-- The difference of the first bytes that differ, of the `n` that there are to compare. -/
def ngxMemcmp : List UInt8 → List UInt8 → Nat → Int
  | a :: as, b :: bs, n + 1 => if a = b then ngxMemcmp as bs n else (a.toNat : Int) - b.toNat
  | _, _, _ => 0

/-- Whether `ngx_str_rbtree_insert_value` goes left at `t` with the node `n`. -/
def ngxStrRbtreeLess (n t : StrNode) : Bool :=
  if n.key ≠ t.key then decide (n.key < t.key)
  else if n.str.length ≠ t.str.length then decide (n.str.length < t.str.length)
  else decide (ngxMemcmp n.str t.str n.str.length < 0)

section lookup

variable {E : Type} (data : E → StrNode) (val : List UInt8) (hash : Nat)

/-- `none` inside is the null pointer. -/
def ngxStrRbtreeLookup : Rbtree E → Option (Option E)
  | .null => none
  | .sentinel => some none
  | .node _ left n right =>
      if hash ≠ (data n).key then
        if hash < (data n).key then ngxStrRbtreeLookup left else ngxStrRbtreeLookup right
      else if val.length ≠ (data n).str.length then
        if val.length < (data n).str.length then ngxStrRbtreeLookup left else ngxStrRbtreeLookup right
      else
        let rc := ngxMemcmp val (data n).str val.length
        if rc < 0 then ngxStrRbtreeLookup left
        else if 0 < rc then ngxStrRbtreeLookup right
        else some (some n)

end lookup

/-- A tree and the nodes that there are. -/
structure NgxStringTree (E : Type) where
  data : E → StrNode
  tree : Rbtree E

namespace NgxStringTree

variable {E : Type} [DecidableEq E]

def empty (s : NgxStringTree E) : Bool :=
  match s.tree with
  | .sentinel => true
  | _ => false

def min (s : NgxStringTree E) : Option E := ngxRbtreeMin s.tree

def add (v : E) (s : NgxStringTree E) : Option (NgxStringTree E) := do
  let tree ← ngxRbtreeInsert (fun a b => ngxStrRbtreeLess (s.data a) (s.data b)) v s.tree
  return { s with tree := tree }

/-- `ngx_rbtree_delete` zeroes the key of the node. -/
def del (v : E) (s : NgxStringTree E) : Option (NgxStringTree E) := do
  let tree ← ngxRbtreeDelete v s.tree
  return ⟨Function.update s.data v { s.data v with key := 0 }, tree⟩

def find (val : List UInt8) (hash : Nat) (s : NgxStringTree E) : Option (Option E) :=
  ngxStrRbtreeLookup s.data val hash s.tree

end NgxStringTree

/-! ## The order -/

/-- The nodes in order: by hash, then by length, then by bytes. -/
def StrNode.rank (n : StrNode) : Nat ×ₗ Nat ×ₗ List Nat :=
  toLex (n.key, toLex (n.str.length, n.str.map UInt8.toNat))

/-- On strings of one length the sign says which is first. -/
theorem ngxMemcmp_sign {a b : List UInt8} (h : a.length = b.length) :
    (ngxMemcmp a b a.length < 0 ↔ a.map UInt8.toNat < b.map UInt8.toNat) ∧
      (ngxMemcmp a b a.length = 0 ↔ a = b) := by
  induction a generalizing b with
  | nil =>
      cases b with
      | nil => simp [ngxMemcmp]
      | cons y b => cases h
  | cons x a ih =>
      cases b with
      | nil => cases h
      | cons y b =>
          rcases ih (Nat.succ.inj h) with ⟨hless, hequal⟩
          rw [List.length_cons, ngxMemcmp]
          by_cases hxy : x = y
          · subst hxy
            simp only [if_true, List.map_cons, List.cons_lt_cons_iff, lt_irrefl, true_and, false_or,
              List.cons.injEq]
            exact ⟨hless, hequal⟩
          · have hne : x.toNat ≠ y.toNat := fun heq => hxy (UInt8.toNat_inj.1 heq)
            rw [if_neg hxy]
            simp only [List.map_cons, List.cons_lt_cons_iff, List.cons.injEq, hxy, hne, false_and, iff_false,
              or_false]
            omega

/-- The comparison of the source as that of an order. -/
theorem ngxStrRbtreeLess_iff (n t : StrNode) : ngxStrRbtreeLess n t = true ↔ n.rank < t.rank := by
  rw [ngxStrRbtreeLess, StrNode.rank, StrNode.rank, Prod.Lex.toLex_lt_toLex, Prod.Lex.toLex_lt_toLex]
  split
  case isTrue hkey => simp [hkey]
  case isFalse hkey =>
    rw [not_not] at hkey
    split
    case isTrue hlength => simp [hkey, hlength]
    case isFalse hlength =>
      rw [not_not] at hlength
      rw [decide_eq_true_iff, (ngxMemcmp_sign hlength).1]
      simp [hkey, hlength]

section lookup

variable {E : Type} {data : E → StrNode} {val : List UInt8} {hash : Nat}

end lookup

/-! ## Every run -/

namespace NgxStringTree

/-- What is done with a tree: nodes are written, put in and taken out. -/
inductive Op (E : Type)
  | write (e : E) (v : StrNode)
  | add (e : E)
  | del (e : E)

variable {E : Type} [DecidableEq E]

def step (s : NgxStringTree E) : Op E → Option (NgxStringTree E)
  | .write e v => some { s with data := Function.update s.data e v }
  | .add e => s.add e
  | .del e => s.del e

/-- What a tree is for: the nodes in it, and what each node holds. -/
structure Contents (E : Type) where
  nodes : Multiset E
  data : E → StrNode

def contents (s : NgxStringTree E) : Contents E := ⟨s.tree.nodes, s.data⟩

def Contents.after (c : Contents E) : Op E → Contents E
  | .write e v => { c with data := Function.update c.data e v }
  | .add e => { c with nodes := e ::ₘ c.nodes }
  -- a node that is taken out loses its key
  | .del e => ⟨c.nodes.erase e, Function.update c.data e { c.data e with key := 0 }⟩

/-- A node is written and put in while it is not in the tree, and taken out while it is. -/
def Legal (s : NgxStringTree E) : Op E → Prop
  | .write e _ | .add e => e ∉ s.tree.nodes
  | .del e => e ∈ s.tree.nodes

structure Ordered (s : NgxStringTree E) : Prop where
  isRbtree : IsRbtree s.tree
  nodup : s.tree.nodes.Nodup
  sorted : s.tree.inorder.Pairwise fun a b => (s.data a).rank ≤ (s.data b).rank

namespace Ordered

variable {s : NgxStringTree E} {e : E}

/-- A node outside of the tree may be written. -/
theorem write (h : s.Ordered) (he : e ∉ s.tree.nodes) (v : StrNode) :
    Ordered { s with data := Function.update s.data e v } where
  isRbtree := h.isRbtree
  nodup := h.nodup
  sorted := by
    refine h.sorted.imp_of_mem ?_
    intro a b ha hb hle
    have hne : ∀ d ∈ s.tree.inorder, d ≠ e := by
      rintro d hd rfl
      exact he (mem_inorder.1 hd)
    simp only [Function.update_of_ne (hne a ha), Function.update_of_ne (hne b hb)]
    exact hle

theorem add (h : s.Ordered) (he : e ∉ s.tree.nodes) :
    ∃ t, s.add e = some t ∧ t.Ordered ∧ t.contents = s.contents.after (.add e) := by
  rcases ngxRbtreeInsert_leads (fun a b => ngxStrRbtreeLess (s.data a) (s.data b)) h.isRbtree he with
    ⟨tree, hinsert, htree, hnodes⟩
  have hless : ∀ b ∈ s.tree.inorder,
      (ngxStrRbtreeLess (s.data e) (s.data b) = true → (s.data e).rank ≤ (s.data b).rank) ∧
      (ngxStrRbtreeLess (s.data e) (s.data b) = false → (s.data b).rank ≤ (s.data e).rank) := by
    intro b _
    refine ⟨fun hlt => le_of_lt ((ngxStrRbtreeLess_iff _ _).1 hlt), fun hge => not_lt.1 fun hlt => ?_⟩
    rw [(ngxStrRbtreeLess_iff _ _).2 hlt] at hge
    cases hge
  rcases ngxRbtreeInsert_order (fun a b c (hab : (s.data a).rank ≤ (s.data b).rank) hbc => le_trans hab hbc)
    hinsert hless h.sorted with ⟨before, after, -, -, hsorted⟩
  refine ⟨{ s with tree := tree }, ?_, ⟨htree, ?_, hsorted⟩, congrArg (Contents.mk · s.data) hnodes⟩
  · rw [NgxStringTree.add, hinsert]
    rfl
  · rw [hnodes]
    exact Multiset.nodup_cons.2 ⟨he, h.nodup⟩

theorem del (h : s.Ordered) (he : e ∈ s.tree.nodes) :
    ∃ t, s.del e = some t ∧ t.Ordered ∧ t.contents = s.contents.after (.del e) := by
  rcases ngxRbtreeDelete_leads h.isRbtree he with ⟨tree, hdelete, htree, hnodes⟩
  rcases ngxRbtreeDelete_order hdelete with ⟨before, after, hold, hnew⟩
  have hsorted : tree.inorder.Pairwise fun a b => (s.data a).rank ≤ (s.data b).rank := by
    rw [hnew]
    have hall := h.sorted
    rw [hold] at hall
    exact hall.sublist ((List.sublist_cons_self e after).append_left before)
  have hout : e ∉ tree.nodes := by
    rw [hnodes]
    exact h.nodup.notMem_erase
  have hleft : Ordered { s with tree := tree } := by
    refine ⟨htree, ?_, hsorted⟩
    change tree.nodes.Nodup
    rw [hnodes]
    exact h.nodup.erase e
  refine ⟨_, ?_, hleft.write hout { s.data e with key := 0 }, congrArg (Contents.mk · _) hnodes⟩
  rw [NgxStringTree.del, hdelete]
  rfl

theorem step (h : s.Ordered) {op : Op E} (hop : s.Legal op) :
    ∃ t, s.step op = some t ∧ t.Ordered ∧ t.contents = s.contents.after op := by
  cases op with
  | write e v => exact ⟨_, rfl, h.write hop v, rfl⟩
  | add e => exact h.add hop
  | del e => exact h.del hop

end Ordered

instance (s : NgxStringTree E) (op : Op E) : Decidable (s.Legal op) :=
  match op with
  | .write e _ | .add e => inferInstanceAs (Decidable (e ∉ s.tree.nodes))
  | .del e => inferInstanceAs (Decidable (e ∈ s.tree.nodes))

end NgxStringTree

end Ngx
end CppPractice
