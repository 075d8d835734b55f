import CppPractice.Lib.Holders
import CppPractice.Lib.Trace
import Mathlib.Data.UInt

/-!
# SmartPtr — counted references

An object that derives from `RefCount` counts the `SmartPtr`s that hold it, in an `int`, and deletes itself
when its count comes to 0.  Objects are numbered as they are made, so that a deleted one is never taken for
another; the steps that touch an object that is not there any more are those that fail.
-/

namespace CppPractice
namespace Ioteck

open Trace

@[ext]
structure RefCount where
  crefs : BitVec 32 := 0
  deleted : Bool := false

namespace RefCount

def upcount (c : RefCount) : RefCount := { c with crefs := c.crefs + 1 }

/-- `delete this` runs no code of another object. -/
def downcount (c : RefCount) : RefCount :=
  let crefs := c.crefs - 1
  if crefs = 0 then ⟨crefs, true⟩ else { c with crefs := crefs }

end RefCount

/-- The objects, those below `brk` having been made, and the pointers, those of `live` being there. -/
@[ext]
structure SmartPtrs where
  object : Nat → RefCount
  brk : Nat
  live : Finset Nat
  p : Nat → Nat

namespace SmartPtrs

/-- The object has been made, and is not deleted. -/
def Alive (s : SmartPtrs) (o : Nat) : Prop := o < s.brk ∧ (s.object o).deleted = false

instance (s : SmartPtrs) (o : Nat) : Decidable (s.Alive o) := inferInstanceAs (Decidable (_ ∧ _))

def set (s : SmartPtrs) (o : Nat) (c : RefCount) : SmartPtrs :=
  { s with object := Function.update s.object o c }

@[simp] theorem set_p (s : SmartPtrs) (o : Nat) (c : RefCount) : (s.set o c).p = s.p := rfl

def upcount (o : Nat) (s : SmartPtrs) : Option SmartPtrs :=
  if s.Alive o then some (s.set o (s.object o).upcount) else none

def downcount (o : Nat) (s : SmartPtrs) : Option SmartPtrs :=
  if s.Alive o then some (s.set o (s.object o).downcount) else none

/-- `new Sample` -/
def newObject (s : SmartPtrs) : SmartPtrs := { s.set s.brk {} with brk := s.brk + 1 }

/-- `SmartPtr(T* p_)` -/
def construct (k o : Nat) (s : SmartPtrs) : Option SmartPtrs :=
  upcount o { s with live := insert k s.live, p := Function.update s.p k o }

/-- `SmartPtr(const SmartPtr<T> &p_)` -/
def copy (k j : Nat) (s : SmartPtrs) : Option SmartPtrs :=
  upcount (s.p j) { s with live := insert k s.live, p := Function.update s.p k (s.p j) }

/-- `~SmartPtr` -/
def destroy (k : Nat) (s : SmartPtrs) : Option SmartPtrs := do
  let s ← s.downcount (s.p k)
  return { s with live := s.live.erase k }

/-- `operator=(T* p_)` -/
def assignRaw (k o : Nat) (s : SmartPtrs) : Option SmartPtrs := do
  let s ← s.upcount o
  let s ← s.downcount (s.p k)
  return { s with p := Function.update s.p k o }

/-- `operator=(SmartPtr<T> &p_)`, which goes through `operator T*`. -/
def assign (k j : Nat) (s : SmartPtrs) : Option SmartPtrs := s.assignRaw k (s.p j)

inductive Op
  | newObject
  | construct (k o : Nat)
  | copy (k j : Nat)
  | assign (k j : Nat)
  | assignRaw (k o : Nat)
  | destroy (k : Nat)

def step (s : SmartPtrs) : Op → Option SmartPtrs
  | .newObject => some s.newObject
  | .construct k o => s.construct k o
  | .copy k j => s.copy k j
  | .assign k j => s.assign k j
  | .assignRaw k o => s.assignRaw k o
  | .destroy k => s.destroy k

/-- Raw pointers are to objects that are there, pointers that are used are there and new ones are not, and
there are fewer than 2^31. -/
def Legit (s : SmartPtrs) : Op → Prop
  | .newObject => True
  | .construct k o => k ∉ s.live ∧ s.Alive o ∧ s.live.card + 1 < 2 ^ 31
  | .copy k j => k ∉ s.live ∧ j ∈ s.live ∧ s.live.card + 1 < 2 ^ 31
  | .assign k j => k ∈ s.live ∧ j ∈ s.live
  | .assignRaw k o => k ∈ s.live ∧ s.Alive o
  | .destroy k => k ∈ s.live

instance (s : SmartPtrs) : (op : Op) → Decidable (s.Legit op)
  | .newObject => inferInstanceAs (Decidable True)
  | .construct _ _ => inferInstanceAs (Decidable (_ ∧ _ ∧ _))
  | .copy _ _ => inferInstanceAs (Decidable (_ ∧ _ ∧ _))
  | .assign _ _ => inferInstanceAs (Decidable (_ ∧ _))
  | .assignRaw _ _ => inferInstanceAs (Decidable (_ ∧ _))
  | .destroy _ => inferInstanceAs (Decidable (_ ∈ _))

/-- The number of pointers that hold an object. -/
def held (s : SmartPtrs) (o : Nat) : Nat := holders s.live s.p o

/-- A step to `t` leaves every count right, deletes exactly the objects that lose their last holder, and does
nothing more to those that were deleted before. -/
structure Tracks (s t : SmartPtrs) : Prop where
  crefs : ∀ o, (t.object o).crefs.toInt = t.held o
  deleted : ∀ o, (s.object o).deleted = false →
    ((t.object o).deleted = true ↔ 0 < s.held o ∧ t.held o = 0)
  gone : ∀ o, (s.object o).deleted = true → t.object o = s.object o

/-- The pointers that are there after a step. -/
def liveAfter (s : SmartPtrs) : Op → Finset Nat
  | .construct k _ | .copy k _ => insert k s.live
  | .destroy k => s.live.erase k
  | .newObject | .assign _ _ | .assignRaw _ _ => s.live

/-- What the pointers hold after a step. -/
def holdsAfter (s : SmartPtrs) : Op → Nat → Nat
  | .construct k o | .assignRaw k o => Function.update s.p k o
  | .copy k j | .assign k j => Function.update s.p k (s.p j)
  | .newObject | .destroy _ => s.p

/-- The step does not touch what is not there. -/
def Counts (s : SmartPtrs) (op : Op) : Prop :=
  ∃ t, step s op = some t ∧ t.live = s.liveAfter op ∧ t.p = s.holdsAfter op ∧ Tracks s t

/-! ## Counts as numbers -/

theorem toInt_ofNat_of_lt {n : Nat} (hn : n < 2 ^ 31) : (BitVec.ofNat 32 n).toInt = n := by
  have hnat : (BitVec.ofNat 32 n).toNat = n := by
    rw [BitVec.toNat_ofNat]
    exact Nat.mod_eq_of_lt (by omega)
  rw [BitVec.toInt_eq_toNat_of_lt (by rw [hnat]; omega), hnat]

theorem ofNat_eq_zero_iff {n : Nat} (hn : n < 2 ^ 31) : BitVec.ofNat 32 n = 0 ↔ n = 0 := by
  constructor
  · intro h
    have hint := toInt_ofNat_of_lt hn
    rw [h] at hint
    exact Int.ofNat_eq_zero.1 hint.symm
  · rintro rfl
    rfl

theorem ofNat_succ_sub_one (n : Nat) : BitVec.ofNat 32 (n + 1) - 1 = BitVec.ofNat 32 n := by
  rw [BitVec.ofNat_add]
  exact BitVec.add_sub_cancel _ _

theorem RefCount.upcount_eq (n : Nat) :
    RefCount.upcount ⟨BitVec.ofNat 32 n, false⟩ = ⟨BitVec.ofNat 32 (n + 1), false⟩ := by
  rw [RefCount.upcount, BitVec.ofNat_add]
  rfl

/-- The last reference is given back, or another. -/
theorem RefCount.downcount_eq {n : Nat} (hn : n < 2 ^ 31) :
    RefCount.downcount ⟨BitVec.ofNat 32 (n + 1), false⟩ = ⟨BitVec.ofNat 32 n, decide (n = 0)⟩ := by
  rw [RefCount.downcount]
  dsimp only
  rw [ofNat_succ_sub_one]
  split
  case isTrue hzero => simp [(ofNat_eq_zero_iff hn).1 hzero]
  case isFalse hzero =>
    have hne : n ≠ 0 := fun h => hzero ((ofNat_eq_zero_iff hn).2 h)
    simp [hne]

/-! ## What a step does -/

/-- The counts are those of the holders, and what is held is there. -/
structure Counted (s : SmartPtrs) : Prop where
  crefs : ∀ o, (s.object o).crefs = BitVec.ofNat 32 (s.held o)
  alive : ∀ o, 0 < s.held o → s.Alive o
  fresh : ∀ o, s.brk ≤ o → s.object o = {}
  few : s.live.card < 2 ^ 31

/-- The pointers are now those of `live`, and point where `p` says. -/
def moved (s : SmartPtrs) (live : Finset Nat) (p : Nat → Nat) : SmartPtrs where
  object o :=
    { crefs := BitVec.ofNat 32 (holders live p o)
      deleted := (s.object o).deleted || decide (0 < s.held o ∧ holders live p o = 0) }
  brk := s.brk
  live := live
  p := p

section step

variable {s : SmartPtrs} {live : Finset Nat} {p : Nat → Nat} {k j o : Nat}

theorem Counted.held_lt (hs : s.Counted) (o : Nat) : s.held o < 2 ^ 31 :=
  Nat.lt_of_le_of_lt (holders_le_card o) hs.few

theorem Counted.object_eq (hs : s.Counted) (ho : s.Alive o) :
    s.object o = ⟨BitVec.ofNat 32 (s.held o), false⟩ :=
  RefCount.ext (hs.crefs o) ho.2

theorem Alive.moved_object (ho : s.Alive o) : (s.moved live p).object o =
    ⟨BitVec.ofNat 32 (holders live p o), decide (0 < s.held o ∧ holders live p o = 0)⟩ := by
  simp [moved, ho.2]

/-- An object whose holders are as many as before stays as it is. -/
theorem Counted.moved_object (hs : s.Counted) (h : holders live p o = s.held o) :
    (s.moved live p).object o = s.object o := by
  apply RefCount.ext
  · rw [hs.crefs o, ← h]
    rfl
  · have hnone : ¬ (0 < s.held o ∧ s.held o = 0) := fun h => Nat.ne_of_gt h.1 h.2
    simp [moved, h, hnone]

/-- Where nothing is held that was not there, a change of the pointers is tracked. -/
theorem Counted.moved (hs : s.Counted) (hfew : live.card < 2 ^ 31)
    (hheld : ∀ o, 0 < holders live p o → s.Alive o) :
    (s.moved live p).Counted ∧ Tracks s (s.moved live p) := by
  -- What is not there had no holders and has none now.
  have hgone : ∀ o, ¬ s.Alive o → holders live p o = 0 ∧ s.held o = 0 := fun o ho =>
    ⟨Nat.eq_zero_of_not_pos fun h => ho (hheld o h), Nat.eq_zero_of_not_pos fun h => ho (hs.alive o h)⟩
  have hkept : ∀ o, ¬ s.Alive o → (s.moved live p).object o = s.object o := by
    intro o ho
    apply hs.moved_object
    rw [(hgone o ho).1, (hgone o ho).2]
  constructor
  · refine ⟨fun o => rfl, fun o ho => ?_, fun o ho => ?_, hfew⟩
    · have halive := hheld o ho
      refine ⟨halive.1, ?_⟩
      have hpos : holders live p o ≠ 0 := Nat.ne_of_gt ho
      rw [halive.moved_object]
      simp [hpos]
    · rw [hkept o fun h => Nat.not_lt.2 ho h.1]
      exact hs.fresh o ho
  · refine ⟨fun o => ?_, fun o ho => ?_, fun o ho => hkept o fun h => ?_⟩
    · exact toInt_ofNat_of_lt (Nat.lt_of_le_of_lt (holders_le_card o) hfew)
    · simp only [SmartPtrs.moved, ho, Bool.false_or, decide_eq_true_eq]
      exact Iff.rfl
    · rw [h.2] at ho
      cases ho

/-- One object has other holders than before. -/
theorem Counted.moved_eq_set (hs : s.Counted) (h : ∀ v ≠ o, holders live p v = s.held v) :
    s.moved live p = { s.set o ((s.moved live p).object o) with live := live, p := p } := by
  ext1
  · funext v
    by_cases hv : v = o
    · subst hv
      simp [set]
    · simp [set, hv, hs.moved_object (h v hv)]
  · rfl
  · rfl
  · rfl

theorem upcount_of_alive (ho : s.Alive o) : upcount o s = some (s.set o (s.object o).upcount) :=
  if_pos ho

theorem downcount_of_alive (ho : s.Alive o) : downcount o s = some (s.set o (s.object o).downcount) :=
  if_pos ho

/-- A new pointer to `o`. -/
theorem Counted.upcount (hs : s.Counted) (hk : k ∉ s.live) (ho : s.Alive o) :
    upcount o { s with live := insert k s.live, p := Function.update s.p k o } =
      some (s.moved (insert k s.live) (Function.update s.p k o)) := by
  have hcount := fun v => holders_insert_update (p := s.p) hk o v
  have hother : ∀ v ≠ o, holders (insert k s.live) (Function.update s.p k o) v = s.held v := fun v hv => by
    rw [hcount, if_neg (Ne.symm hv), Nat.add_zero, held]
  have hone : holders (insert k s.live) (Function.update s.p k o) o = s.held o + 1 := by
    rw [hcount, if_pos rfl, held]
  have hup := upcount_of_alive
    (s := { s with live := insert k s.live, p := Function.update s.p k o }) ho
  rw [hup, hs.moved_eq_set hother, ho.moved_object, hone]
  simp [set, hs.object_eq ho, RefCount.upcount_eq]

theorem Counted.destroy (hs : s.Counted) (hk : k ∈ s.live) :
    s.destroy k = some (s.moved (s.live.erase k) s.p) := by
  have hcount := fun v => holders_erase (p := s.p) hk v
  have hother : ∀ v ≠ s.p k, holders (s.live.erase k) s.p v = s.held v := fun v hv => by
    rw [held, ← hcount v, if_neg (Ne.symm hv), Nat.add_zero]
  have hone : s.held (s.p k) = holders (s.live.erase k) s.p (s.p k) + 1 := by
    rw [held, ← hcount (s.p k), if_pos rfl]
  have halive : s.Alive (s.p k) := hs.alive _ (holders_pos_of_mem hk)
  have hlt : holders (s.live.erase k) s.p (s.p k) < 2 ^ 31 :=
    Nat.lt_of_succ_lt (hone.symm.trans_lt (hs.held_lt (s.p k)))
  rw [SmartPtrs.destroy, downcount_of_alive halive, hs.moved_eq_set hother, halive.moved_object,
    hs.object_eq halive, hone, RefCount.downcount_eq hlt]
  simp [set]

theorem Counted.object_upcount (hs : s.Counted) {v : Nat} (hv : s.Alive v) :
    (s.set o (s.object o).upcount).object v =
      ⟨BitVec.ofNat 32 (s.held v + if o = v then 1 else 0), false⟩ := by
  by_cases ho : o = v
  · subst ho
    simp [set, hs.object_eq hv, RefCount.upcount_eq]
  · simp [set, hs.object_eq hv, ho, Ne.symm ho]

/-- The count of the new object goes up before that of the old one goes down, so that an object that is both
never loses its last reference. -/
theorem Counted.assignRaw (hs : s.Counted) (hk : k ∈ s.live) (ho : s.Alive o) :
    s.assignRaw k o = some (s.moved s.live (Function.update s.p k o)) := by
  have hcount := fun v => holders_update (p := s.p) hk o v
  have hpos : 0 < s.held (s.p k) := holders_pos_of_mem hk
  have halive : s.Alive (s.p k) := hs.alive _ hpos
  have hup := hs.object_upcount (o := o) halive
  have halive' : (s.set o (s.object o).upcount).Alive (s.p k) := ⟨halive.1, by rw [hup]⟩
  -- Whether or not `o` is the object that `k` held, that one has one holder too many when it comes down.
  have hone : (s.held (s.p k) + if o = s.p k then 1 else 0) =
      holders s.live (Function.update s.p k o) (s.p k) + 1 := by
    rw [held, ← hcount (s.p k), if_pos rfl]
  have hlt : holders s.live (Function.update s.p k o) (s.p k) < 2 ^ 31 :=
    Nat.lt_of_le_of_lt (holders_le_card _) hs.few
  rw [SmartPtrs.assignRaw, upcount_of_alive ho]
  simp only [Option.bind_eq_bind, Option.bind_some, set_p]
  rw [downcount_of_alive halive', hup, hone, RefCount.downcount_eq hlt]
  refine congrArg some (SmartPtrs.ext ?_ rfl rfl rfl)
  funext v
  by_cases hv : v = s.p k
  · rw [hv, halive.moved_object]
    simp [set, hpos]
  · have hother : holders s.live (Function.update s.p k o) v = s.held v + if o = v then 1 else 0 := by
      rw [held, ← hcount v, if_neg (Ne.symm hv), Nat.add_zero]
    by_cases hvo : v = o
    · -- `o`, where it is another object than before
      subst hvo
      have hmore : holders s.live (Function.update s.p k v) v = s.held v + 1 := by
        rw [hother, if_pos rfl]
      rw [ho.moved_object, hmore]
      simp [set, hv, hs.object_eq ho, RefCount.upcount_eq]
    · rw [hs.moved_object (by rw [hother, if_neg (Ne.symm hvo), Nat.add_zero])]
      simp [set, hv, hvo]

/-! ### Runs -/

theorem Counted.newObject (hs : s.Counted) : s.newObject.Counted ∧ Tracks s s.newObject := by
  have hsame : ∀ v, s.newObject.object v = s.object v := by
    intro v
    by_cases hv : v = s.brk
    · subst hv
      simp [SmartPtrs.newObject, set, hs.fresh]
    · simp [SmartPtrs.newObject, set, hv]
  constructor
  · refine ⟨fun v => ?_, fun v hv => ?_, fun v hv => ?_, hs.few⟩
    · rw [hsame]
      exact hs.crefs v
    · have halive := hs.alive v hv
      exact ⟨Nat.lt_succ_of_lt halive.1, by rw [hsame]; exact halive.2⟩
    · rw [hsame]
      exact hs.fresh v (Nat.le_of_succ_le hv)
  · refine ⟨fun v => ?_, fun v hv => ?_, fun v _ => hsame v⟩
    · rw [hsame, hs.crefs v]
      exact toInt_ofNat_of_lt (hs.held_lt v)
    · rw [hsame, hv]
      exact iff_of_false Bool.false_ne_true fun h => Nat.ne_of_gt h.1 h.2

/-- No step adds a holder but that of an object that is there. -/
theorem Counted.alive_of_le (hs : s.Counted) (ho : s.Alive o) {n v : Nat}
    (hn : n ≤ s.held v + if o = v then 1 else 0) (hpos : 0 < n) : s.Alive v := by
  by_cases hv : o = v
  · exact hv ▸ ho
  · rw [if_neg hv, Nat.add_zero] at hn
    exact hs.alive v (Nat.lt_of_lt_of_le hpos hn)

theorem Counted.step_insert (hs : s.Counted) (hk : k ∉ s.live) (ho : s.Alive o)
    (hfew : s.live.card + 1 < 2 ^ 31) :
    (s.moved (insert k s.live) (Function.update s.p k o)).Counted ∧
      Tracks s (s.moved (insert k s.live) (Function.update s.p k o)) := by
  refine hs.moved ?_ fun v hv => hs.alive_of_le ho (Nat.le_of_eq (holders_insert_update hk o v)) hv
  rw [Finset.card_insert_of_notMem hk]
  exact hfew

theorem Counted.step_update (hs : s.Counted) (hk : k ∈ s.live) (ho : s.Alive o) :
    (s.moved s.live (Function.update s.p k o)).Counted ∧
      Tracks s (s.moved s.live (Function.update s.p k o)) := by
  refine hs.moved hs.few fun v hv => hs.alive_of_le ho ?_ hv
  rw [held, ← holders_update hk o v]
  exact Nat.le_add_right _ _

theorem Counted.step_erase (hs : s.Counted) (hk : k ∈ s.live) :
    (s.moved (s.live.erase k) s.p).Counted ∧ Tracks s (s.moved (s.live.erase k) s.p) := by
  refine hs.moved ?_ fun v hv => hs.alive v (Nat.lt_of_lt_of_le hv ?_)
  · exact Nat.lt_of_le_of_lt (Finset.card_erase_le) hs.few
  · rw [held, ← holders_erase hk v]
    exact Nat.le_add_right _ _

/-- Every step succeeds, is tracked, and keeps the counts. -/
theorem Counted.step (hs : s.Counted) {op : Op} (hop : s.Legit op) :
    ∃ t, step s op = some t ∧ t.live = s.liveAfter op ∧ t.p = s.holdsAfter op ∧ t.Counted ∧
      Tracks s t := by
  cases op with
  | newObject => exact ⟨_, rfl, rfl, rfl, hs.newObject⟩
  | construct k o =>
      rcases hop with ⟨hk, ho, hfew⟩
      exact ⟨_, hs.upcount hk ho, rfl, rfl, hs.step_insert hk ho hfew⟩
  | copy k j =>
      rcases hop with ⟨hk, hj, hfew⟩
      have ho : s.Alive (s.p j) := hs.alive _ (holders_pos_of_mem hj)
      exact ⟨_, hs.upcount hk ho, rfl, rfl, hs.step_insert hk ho hfew⟩
  | assign k j =>
      rcases hop with ⟨hk, hj⟩
      have ho : s.Alive (s.p j) := hs.alive _ (holders_pos_of_mem hj)
      exact ⟨_, hs.assignRaw hk ho, rfl, rfl, hs.step_update hk ho⟩
  | assignRaw k o =>
      rcases hop with ⟨hk, ho⟩
      exact ⟨_, hs.assignRaw hk ho, rfl, rfl, hs.step_update hk ho⟩
  | destroy k => exact ⟨_, hs.destroy hop, rfl, rfl, hs.step_erase hop⟩

end step

/-- No objects and no pointers. -/
def start : SmartPtrs := ⟨fun _ => {}, 0, ∅, fun _ => 0⟩

theorem start_counted : start.Counted where
  crefs _ := rfl
  alive _ h := absurd h (Nat.lt_irrefl 0)
  fresh _ _ := rfl
  few := by decide

/-- In every run the counts are right, an object is deleted when it loses its last holder and only then, and
nothing is done to it afterwards. -/
theorem counts_all_along {ops : List Op} (hops : AlongReached step Legit start ops) :
    AlongM step Counts start ops := by
  refine alongM_of_reached (fun s op hs hop => ?_) start_counted hops
  rcases hs.step hop with ⟨t, ht, hlive, hp, hcounted, htracks⟩
  exact ⟨⟨t, ht, hlive, hp, htracks⟩, t, ht, hcounted⟩

/-- Two objects and three pointers, one of them a copy; the first object is deleted by an assignment, and the
second with the last pointer. -/
def twoObjects : List Op :=
  [.newObject, .construct 0 0, .copy 2 0, .newObject, .construct 1 1, .assign 1 1, .assign 0 1, .assign 2 0,
    .assignRaw 0 1, .destroy 1, .destroy 0, .destroy 2]

theorem counts_all_along_twoObjects : AlongM step Counts start twoObjects :=
  counts_all_along (by decide)

end SmartPtrs

end Ioteck
end CppPractice
