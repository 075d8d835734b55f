import CppPractice.Lib.Trace
import CppPractice.Ngx.Buf
import CppPractice.Ngx.NgxList

/-!
# Headers — lookup and removal of headers by name

`NgxHeaders` over an `NgxList` of `ngx_table_elt_t`.  `remove` sets the hash of a header to 0, which is
what the output header filter skips; `find` does not look at the hash.

`boost::iequals` is a parameter; what is relied on of it is `IgnoresCase`.
-/

namespace CppPractice
namespace Ngx

open NgxListIterator

/-- `ngx_table_elt_t` -/
structure NgxTableElt where
  hash : Nat
  key : NgxStr
  value : NgxStr
  deriving DecidableEq, Repr

/-- `ngx_null_string` -/
def ngxNullString : NgxStr := ⟨0, 0⟩

/-- `boost::iequals` on strings -/
abbrev Iequals := List UInt8 → List UInt8 → Bool

variable (iequals : Iequals) (mem : UInt64 → UInt8)

/-- The predicate of `find`; `if(!kv.hash) return false;` is commented out. -/
def named (key : List UInt8) (kv : NgxTableElt) : Bool := iequals (kv.key.bytes mem) key

namespace NgxHeaders

def find (key : List UInt8) (l : Nat) (h : ListHeap NgxTableElt) : Option NgxListIterator :=
  NgxList.find h l (named iequals mem key)

def has (key : List UInt8) (l : Nat) (h : ListHeap NgxTableElt) : Option Bool :=
  (find iequals mem key l h).map fun p => p != NgxListIterator.null

/-- `operator[]` -/
def get (key : List UInt8) (l : Nat) (h : ListHeap NgxTableElt) : Option NgxStr :=
  (find iequals mem key l h).map fun p =>
    if p = NgxListIterator.null then ngxNullString else (p.dereference h).value

def add (kv : NgxTableElt) (l : Nat) (h : ListHeap NgxTableElt) : ListHeap NgxTableElt :=
  let r := NgxList.prepare l h
  r.2.write r.1 (if kv.hash = 0 then { kv with hash := 1 } else kv)

def remove (key : List UInt8) (l : Nat) (h : ListHeap NgxTableElt) :
    Option (ListHeap NgxTableElt) :=
  (find iequals mem key l h).map fun p =>
    if p = NgxListIterator.null then
      h
    else
      h.write (p.data, p.count) { p.dereference h with hash := 0 }

end NgxHeaders

/-! ## Names up to case -/

/-- The upper case of an ASCII letter; other bytes have no case. -/
def toUpper (c : UInt8) : UInt8 := if 97 ≤ c ∧ c ≤ 122 then c - 32 else c

/-- The strings are the same up to ASCII case. -/
def sameName (a b : List UInt8) : Bool := a.map toUpper == b.map toUpper

/-- What `boost::iequals` does in the C locale: it compares character by character, without regard to
case. -/
def IgnoresCase (iequals : Iequals) : Prop := ∀ a b, iequals a b = sameName a b

/-- The header has this name. -/
def hasName (key : List UInt8) (kv : NgxTableElt) : Bool := sameName (kv.key.bytes mem) key

/-! ## The multimap of live headers -/

/-- The headers that have not been removed, with their names and values. -/
def liveHeaders (xs : List NgxTableElt) : List (NgxStr × NgxStr) :=
  (xs.filter fun kv => kv.hash ≠ 0).map fun kv => (kv.key, kv.value)

/-- The entry of a live header with this name. -/
def entryNamed (key : List UInt8) (e : NgxStr × NgxStr) : Bool := sameName (e.1.bytes mem) key

/-- Lookup and removal by `key` are those of the multimap of live headers, and what is found is live. -/
structure Behaves (h : ListHeap NgxTableElt) (l : Nat) (xs : List NgxTableElt) (key : List UInt8) :
    Prop where
  has : NgxHeaders.has iequals mem key l h = some ((liveHeaders xs).any (entryNamed mem key))
  get : NgxHeaders.get iequals mem key l h =
    some (((liveHeaders xs).find? (entryNamed mem key)).elim ngxNullString Prod.snd)
  remove : ∃ g ys, NgxHeaders.remove iequals mem key l h = some g ∧ Holds g l ys ∧
    liveHeaders ys = (liveHeaders xs).eraseP (entryNamed mem key)
  found : ∀ p, NgxHeaders.find iequals mem key l h = some p → p ≠ NgxListIterator.null →
    (p.dereference h).hash ≠ 0

/-- The first header with this name, if there is one, has not been removed. -/
def FirstLive (xs : List NgxTableElt) (key : List UInt8) : Prop :=
  ∀ kv, xs.find? (hasName mem key) = some kv → kv.hash ≠ 0

variable {iequals mem}
variable {h : ListHeap NgxTableElt} {l : Nat} {xs : List NgxTableElt} {key : List UInt8}

theorem liveHeaders_append (xs ys : List NgxTableElt) :
    liveHeaders (xs ++ ys) = liveHeaders xs ++ liveHeaders ys := by
  simp [liveHeaders]

theorem liveHeaders_cons_live {kv : NgxTableElt} (hlive : kv.hash ≠ 0) :
    liveHeaders (kv :: xs) = (kv.key, kv.value) :: liveHeaders xs := by
  simp [liveHeaders, hlive]

theorem liveHeaders_cons_dead {kv : NgxTableElt} (hdead : kv.hash = 0) :
    liveHeaders (kv :: xs) = liveHeaders xs := by
  simp [liveHeaders, hdead]

/-- The first element with a property splits the list. -/
theorem exists_split_of_findIdx? {T : Type*} {p : T → Bool} {xs : List T} {k : Nat}
    (hk : xs.findIdx? p = some k) :
    ∃ a x b, xs = a ++ x :: b ∧ a.length = k ∧ p x = true ∧ ∀ y ∈ a, p y = false := by
  induction xs generalizing k with
  | nil => cases hk
  | cons x xs ih =>
      cases hx : p x with
      | true =>
          have hk0 : 0 = k := by simpa [List.findIdx?_cons, hx] using hk
          exact ⟨[], x, xs, rfl, hk0, hx, fun y hy => absurd hy List.not_mem_nil⟩
      | false =>
          have hrest : ∃ j, xs.findIdx? p = some j ∧ j + 1 = k := by
            simpa [List.findIdx?_cons, hx] using hk
          rcases hrest with ⟨j, hj, rfl⟩
          rcases ih hj with ⟨a, z, b, rfl, hlength, hz, ha⟩
          refine ⟨x :: a, z, b, rfl, congrArg Nat.succ hlength, hz, ?_⟩
          intro y hy
          rcases List.mem_cons.1 hy with rfl | hy
          · exact hx
          · exact ha y hy

/-- Headers without this name have no entry with it. -/
theorem liveHeaders_none (hnone : ∀ kv ∈ xs, hasName mem key kv = false) :
    ∀ e ∈ liveHeaders xs, entryNamed mem key e = false := by
  intro e he
  rcases List.mem_map.1 he with ⟨kv, hkv, rfl⟩
  exact hnone kv (List.mem_of_mem_filter hkv)

section split

variable {a b : List NgxTableElt} {kv : NgxTableElt} (hkv : hasName mem key kv = true)
  (ha : ∀ y ∈ a, hasName mem key y = false) (hlive : kv.hash ≠ 0)

include hkv ha hlive

/-- Where the first header with a name is live, it is the first entry with this name. -/
theorem find_liveHeaders :
    (liveHeaders (a ++ kv :: b)).find? (entryNamed mem key) = some (kv.key, kv.value) := by
  have hentry : entryNamed mem key (kv.key, kv.value) = true := hkv
  have hnone : (liveHeaders a).find? (entryNamed mem key) = none := by
    apply List.find?_eq_none.2
    intro e he
    simp [liveHeaders_none ha e he]
  rw [liveHeaders_append, liveHeaders_cons_live hlive, List.find?_append, hnone]
  simp [hentry]

/-- Setting its hash to 0 removes that entry. -/
theorem liveHeaders_remove :
    liveHeaders (a ++ { kv with hash := 0 } :: b) =
      (liveHeaders (a ++ kv :: b)).eraseP (entryNamed mem key) := by
  have hentry : entryNamed mem key (kv.key, kv.value) = true := hkv
  have hnone : ∀ e ∈ liveHeaders a, ¬entryNamed mem key e = true := by
    intro e he
    simp [liveHeaders_none ha e he]
  rw [liveHeaders_append, liveHeaders_append, liveHeaders_cons_live hlive,
    liveHeaders_cons_dead rfl, List.eraseP_append_right _ hnone, List.eraseP_cons_of_pos hentry]

end split

/-! ## Lookup and removal -/

theorem named_eq (hcase : IgnoresCase iequals) : named iequals mem key = hasName mem key :=
  funext fun kv => hcase (kv.key.bytes mem) key

variable (mem) in
/-- What `find` returns in a list: the end, or the first header with the name. -/
theorem find_cases (hcase : IgnoresCase iequals) (hxs : Holds h l xs) (key : List UInt8) :
    (NgxHeaders.find iequals mem key l h = some NgxListIterator.null ∧
      ∀ kv ∈ xs, hasName mem key kv = false) ∨
    ∃ p a kv b, NgxHeaders.find iequals mem key l h = some p ∧ p ≠ NgxListIterator.null ∧
      xs = a ++ kv :: b ∧ hasName mem key kv = true ∧ (∀ y ∈ a, hasName mem key y = false) ∧
      p.dereference h = kv ∧
      ∀ x, Holds (h.write (p.data, p.count) x) l (a ++ x :: b) := by
  have hfind := NgxList.find_holds (hasName mem key) hxs
  cases hk : xs.findIdx? (hasName mem key) with
  | none =>
      refine Or.inl ⟨?_, fun kv hmem => by simpa using List.findIdx?_eq_none_iff.1 hk kv hmem⟩
      simpa [NgxHeaders.find, named_eq hcase, NgxList.foundAt, hk] using hfind
  | some k =>
      rcases exists_split_of_findIdx? hk with ⟨a, kv, b, rfl, rfl, hkv, ha⟩
      have hlt : a.length < (a ++ kv :: b).length := by simp
      rcases NgxList.iterate_ofList hxs hlt with ⟨hne, hderef⟩
      refine Or.inr ⟨_, a, kv, b, ?_, hne, rfl, hkv, ha, ?_, ?_⟩
      · simpa [NgxHeaders.find, named_eq hcase, NgxList.foundAt, hk] using hfind
      · simpa using hderef
      · intro x
        simpa using hxs.set hlt x

theorem remove_found {p : NgxListIterator} (hfind : NgxHeaders.find iequals mem key l h = some p)
    (hp : p ≠ NgxListIterator.null) :
    NgxHeaders.remove iequals mem key l h =
      some (h.write (p.data, p.count) { p.dereference h with hash := 0 }) := by
  simp [NgxHeaders.remove, hfind, hp]

/-- Lookup and removal by a name are right exactly where the first header with it is live. -/
theorem behaves_iff (hcase : IgnoresCase iequals) (hxs : Holds h l xs) (key : List UInt8) :
    Behaves iequals mem h l xs key ↔ FirstLive mem xs key := by
  rcases find_cases mem hcase hxs key with
    ⟨hfind, hnone⟩ | ⟨p, a, kv, b, hfind, hp, rfl, hkv, ha, hderef, hset⟩
  -- No header has the name: all four are right, and there is nothing to ask of the first one.
  · have hnot : ∀ e ∈ liveHeaders xs, entryNamed mem key e = false := liveHeaders_none hnone
    have hnot' : ∀ e ∈ liveHeaders xs, ¬entryNamed mem key e = true := by simpa using hnot
    refine iff_of_true ⟨?_, ?_, ⟨h, xs, ?_, hxs, ?_⟩, ?_⟩ ?_
    · simpa [NgxHeaders.has, hfind] using hnot
    · simp [NgxHeaders.get, hfind, List.find?_eq_none.2 hnot']
    · simp [NgxHeaders.remove, hfind]
    · exact (List.eraseP_of_forall_not hnot').symm
    · intro q hq hne
      rw [hfind] at hq
      exact absurd (Option.some.inj hq).symm hne
    · intro kv hkv
      have hmem := hnone kv (List.mem_of_find?_eq_some hkv)
      simp [List.find?_some hkv] at hmem
  · have hfirst : (a ++ kv :: b).find? (hasName mem key) = some kv := by
      have hnone : a.find? (hasName mem key) = none := by
        apply List.find?_eq_none.2
        intro y hy
        simp [ha y hy]
      rw [List.find?_append, hnone]
      simp [hkv]
    constructor
    -- `find` does not look at the hash, so that what it finds is the first header with the name.
    · intro hbehaves kv' hkv'
      have heq : kv = kv' := Option.some.inj (hfirst.symm.trans hkv')
      rw [← heq, ← hderef]
      exact hbehaves.found p hfind hp
    · intro hlive
      have hhash : kv.hash ≠ 0 := hlive kv hfirst
      have hentry := find_liveHeaders (b := b) hkv ha hhash
      refine ⟨?_, ?_, ⟨h.write (p.data, p.count) { kv with hash := 0 },
        a ++ { kv with hash := 0 } :: b, ?_, hset _, liveHeaders_remove hkv ha hhash⟩, ?_⟩
      · have hany : (liveHeaders (a ++ kv :: b)).any (entryNamed mem key) = true :=
          List.any_eq_true.2 ⟨_, List.mem_of_find?_eq_some hentry, List.find?_some hentry⟩
        simp [NgxHeaders.has, hfind, hp, hany]
      · simp [NgxHeaders.get, hfind, hp, hentry, hderef]
      · rw [remove_found hfind hp, hderef]
      · intro q hq _
        rw [hfind] at hq
        rw [← Option.some.inj hq, hderef]
        exact hhash

/-- A header that is added is live, after all others. -/
theorem add_holds (hxs : Holds h l xs) (kv : NgxTableElt) :
    ∃ added, Holds (NgxHeaders.add kv l h) l (xs ++ [added]) ∧
      liveHeaders (xs ++ [added]) = liveHeaders xs ++ [(kv.key, kv.value)] := by
  refine ⟨if kv.hash = 0 then { kv with hash := 1 } else kv, NgxList.push_holds _ hxs, ?_⟩
  rw [liveHeaders_append]
  by_cases hhash : kv.hash = 0
  · simp [hhash, liveHeaders]
  · simp [hhash, liveHeaders]

variable (mem) in
/-- Removal always leaves a list. -/
theorem remove_holds (hcase : IgnoresCase iequals) (hxs : Holds h l xs) (key : List UInt8) :
    ∃ g ys, NgxHeaders.remove iequals mem key l h = some g ∧ Holds g l ys := by
  rcases find_cases mem hcase hxs key with ⟨hfind, -⟩ | ⟨p, a, kv, b, hfind, hp, -, -, -, -, hset⟩
  · exact ⟨h, xs, by simp [NgxHeaders.remove, hfind], hxs⟩
  · exact ⟨_, _, remove_found hfind hp, hset { p.dereference h with hash := 0 }⟩

/-! ## Runs -/

inductive HeaderOp
  | add (kv : NgxTableElt)
  | remove (key : List UInt8)

/-- The operation on the headers in the list at `l`. -/
def HeaderOp.run (iequals : Iequals) (mem : UInt64 → UInt8) (l : Nat) (h : ListHeap NgxTableElt) :
    HeaderOp → Option (ListHeap NgxTableElt)
  | .add kv => some (NgxHeaders.add kv l h)
  | .remove key => NgxHeaders.remove iequals mem key l h

theorem headerOp_holds (hcase : IgnoresCase iequals) (mem : UInt64 → UInt8) {l : Nat}
    {h : ListHeap NgxTableElt} (hxs : ∃ xs, Holds h l xs) (op : HeaderOp) :
    ∃ h', HeaderOp.run iequals mem l h op = some h' ∧ ∃ xs, Holds h' l xs := by
  rcases hxs with ⟨xs, hxs⟩
  cases op with
  | add kv =>
      rcases add_holds hxs kv with ⟨added, hadded, -⟩
      exact ⟨_, rfl, _, hadded⟩
  | remove key =>
      rcases remove_holds mem hcase hxs key with ⟨h', ys, hremove, hys⟩
      exact ⟨h', hremove, ys, hys⟩

/-- After any additions and removals on a new list, lookup and removal by a name are those of a multimap
exactly where the first header with this name is live; adding a header is always right. -/
theorem headers_multimap_iff (hcase : IgnoresCase iequals) (mem : UInt64 → UInt8) {n : Nat} (hn : 0 < n)
    (h : ListHeap NgxTableElt) (hbrk : 0 < h.brk) (ops : List HeaderOp) :
    let l := (ngxListCreate n h).1
    ∃ g xs, ops.foldlM (HeaderOp.run iequals mem l) (ngxListCreate n h).2 = some g ∧ Holds g l xs ∧
      (∀ kv, ∃ added, Holds (NgxHeaders.add kv l g) l (xs ++ [added]) ∧
        liveHeaders (xs ++ [added]) = liveHeaders xs ++ [(kv.key, kv.value)]) ∧
      ∀ key, Behaves iequals mem g l xs key ↔ FirstLive mem xs key := by
  intro l
  have hstart : ∃ xs, Holds (ngxListCreate n h).2 l xs := ⟨[], ngxListCreate_holds hn hbrk⟩
  have hall : ∀ op ∈ ops, True := fun _ _ => trivial
  rcases Trace.exists_foldlM (fun g op hg _ => headerOp_holds hcase mem hg op) hstart hall with
    ⟨g, hg, xs, hxs⟩
  exact ⟨g, xs, hg, hxs, add_holds hxs, behaves_iff hcase hxs⟩

/-- Every byte is the last byte of its address. -/
def echoMemory (addr : UInt64) : UInt8 := addr.toUInt8

/-- A heap with no lists yet. -/
def emptyHeaders : ListHeap NgxTableElt :=
  ⟨fun _ => ⟨0, 0⟩, fun _ => ⟨0, 0, 0⟩, fun _ _ => ⟨0, ngxNullString, ngxNullString⟩, 1⟩

/-- Two headers with the name `a` in either case, and one that is removed. -/
def addsAndRemoval : List HeaderOp :=
  [.add ⟨1, ⟨97, 1⟩, ⟨98, 1⟩⟩, .add ⟨0, ⟨65, 1⟩, ⟨99, 1⟩⟩, .add ⟨1, ⟨98, 1⟩, ⟨97, 1⟩⟩, .remove [66]]

theorem headers_multimap_iff_removal :
    ∃ g xs, addsAndRemoval.foldlM (HeaderOp.run sameName echoMemory 1) (ngxListCreate 2 emptyHeaders).2 =
      some g ∧ Holds g 1 xs ∧ (Behaves sameName echoMemory g 1 xs [65] ↔ FirstLive echoMemory xs [65]) ∧
      (Behaves sameName echoMemory g 1 xs [98] ↔ FirstLive echoMemory xs [98]) := by
  have hcase : IgnoresCase sameName := fun _ _ => rfl
  rcases headers_multimap_iff hcase echoMemory (n := 2) (by decide) emptyHeaders (by decide) addsAndRemoval
    with ⟨g, xs, hg, hxs, -, hkey⟩
  exact ⟨g, xs, hg, hxs, hkey [65], hkey [98]⟩

/-- A header `a` is added and removed, and is still found. -/
theorem removed_header_found :
    ∃ g, [HeaderOp.add ⟨1, ⟨97, 1⟩, ⟨98, 1⟩⟩, HeaderOp.remove [97]].foldlM
        (HeaderOp.run sameName echoMemory 1) (ngxListCreate 4 emptyHeaders).2 = some g ∧
      NgxHeaders.has sameName echoMemory [97] 1 g = some true ∧
      ∀ xs, ¬Behaves sameName echoMemory g 1 xs [97] := by
  refine ⟨_, rfl, rfl, ?_⟩
  intro xs hbehaves
  exact hbehaves.found _ rfl (by decide) rfl

end Ngx
end CppPractice
