import Mathlib.Data.Finset.Card
import Mathlib.Data.Finset.Insert

/-!
# Holders — how many members of a finite set point to a value

`holders live p v` counts the members of `live` that `p` maps to `v`: the holders of a shared object, when
`live` are the pointers there are and `p` says where they point to.  A pointer that is made, destroyed or
redirected changes the counts of the two objects it is about and no other.
-/

namespace CppPractice

variable {K V : Type*} [DecidableEq K] [DecidableEq V]

def holders (live : Finset K) (p : K → V) (v : V) : Nat := (live.filter fun k => p k = v).card

section holders

variable {live : Finset K} {p : K → V} {k : K}

omit [DecidableEq K] in
theorem holders_le_card (v : V) : holders live p v ≤ live.card := Finset.card_filter_le _ _

omit [DecidableEq K] in
theorem holders_pos_of_mem (hk : k ∈ live) : 0 < holders live p (p k) :=
  Finset.card_pos.2 ⟨k, Finset.mem_filter.2 ⟨hk, rfl⟩⟩

omit [DecidableEq K] in
theorem holders_congr {q : K → V} (h : ∀ k ∈ live, q k = p k) (v : V) :
    holders live q v = holders live p v := by
  rw [holders, holders, Finset.filter_congr fun k hk => by rw [h k hk]]

theorem holders_insert (hk : k ∉ live) (v : V) :
    holders (insert k live) p v = holders live p v + if p k = v then 1 else 0 := by
  rw [holders, Finset.filter_insert]
  split
  · have hnew : k ∉ live.filter fun k => p k = v := fun h => hk (Finset.mem_filter.1 h).1
    rw [Finset.card_insert_of_notMem hnew, holders]
  · rw [holders, Nat.add_zero]

theorem holders_erase (hk : k ∈ live) (v : V) :
    (holders (live.erase k) p v + if p k = v then 1 else 0) = holders live p v := by
  rw [← holders_insert (Finset.notMem_erase k live), Finset.insert_erase hk]

theorem holders_insert_update (hk : k ∉ live) (w v : V) :
    holders (insert k live) (Function.update p k w) v = holders live p v + if w = v then 1 else 0 := by
  have hsame : ∀ j ∈ live, Function.update p k w j = p j := fun j hj =>
    Function.update_of_ne (fun h : j = k => hk (h ▸ hj)) w p
  rw [holders_insert hk, holders_congr hsame, Function.update_self]

/-- A pointer that is redirected leaves the one object and comes to the other. -/
theorem holders_update (hk : k ∈ live) (w v : V) :
    (holders live (Function.update p k w) v + if p k = v then 1 else 0) =
      holders live p v + if w = v then 1 else 0 := by
  have hinsert := holders_insert_update (p := p) (Finset.notMem_erase k live) w v
  rw [Finset.insert_erase hk] at hinsert
  rw [hinsert, ← holders_erase (p := p) hk v]
  omega

end holders

end CppPractice
