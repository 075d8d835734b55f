import Mathlib.Data.List.Nodup
import Mathlib.Logic.Function.Basic

/-!
# Segment — singly linked lists of pointers

`Path next a l b` says that following `next` from `a` visits the nodes of `l` and then arrives at `b`;
`Chain next null a l` that the list at `a` is null-terminated and consists of the nodes of `l`.

A `Slot` is where the next node goes while a list is built at its end.

`walk` is the loop that looks for the first node with a property, and `forEach` the loop that does
something at every node, which may change the links elsewhere.  Both take a bound on the rounds and
return nothing when the bound does not suffice; on a chain, one round for each node suffices.
`forEachExcept` is the second loop with a body that may throw.
-/

namespace CppPractice
namespace Segment

variable {P S : Type*}

inductive Path (next : P → P) : P → List P → P → Prop
  | nil (a : P) : Path next a [] a
  | cons {a b : P} {l : List P} (h : Path next (next a) l b) : Path next a (a :: l) b

namespace Path

variable {next next' : P → P} {a b c : P} {l m : List P}

theorem eq_of_nil (h : Path next a [] b) : a = b := by
  cases h
  rfl

theorem cons_inv {q : P} (h : Path next a (q :: l) b) : a = q ∧ Path next (next q) l b := by
  cases h with
  | cons h => exact ⟨rfl, h⟩

theorem append (h : Path next a l b) (h' : Path next b m c) : Path next a (l ++ m) c := by
  induction h with
  | nil => exact h'
  | cons _ ih => exact .cons (ih h')

theorem split (h : Path next a (l ++ m) c) : ∃ b, Path next a l b ∧ Path next b m c := by
  induction l generalizing a with
  | nil => exact ⟨a, .nil a, h⟩
  | cons q l ih =>
      rcases cons_inv h with ⟨rfl, htail⟩
      rcases ih htail with ⟨b, hl, hm⟩
      exact ⟨b, .cons hl, hm⟩

/-- The end of a path is what its last node points to. -/
theorem concat_iff {q : P} : Path next a (l ++ [q]) b ↔ Path next a l q ∧ next q = b := by
  constructor
  · intro h
    rcases split h with ⟨c, hl, hq⟩
    rcases cons_inv hq with ⟨rfl, hnil⟩
    exact ⟨hl, eq_of_nil hnil⟩
  · rintro ⟨hl, rfl⟩
    exact hl.append (.cons (.nil _))

/-- A path depends on the links of its own nodes only. -/
theorem congr (h : Path next a l b) (hsame : ∀ q ∈ l, next' q = next q) : Path next' a l b := by
  induction h with
  | nil a => exact .nil a
  | @cons a b l h ih =>
      have htail : ∀ q ∈ l, next' q = next q := fun q hq => hsame q (List.mem_cons_of_mem a hq)
      have hhead : next' a = next a := hsame a List.mem_cons_self
      exact .cons (hhead ▸ ih htail)

theorem update [DecidableEq P] (h : Path next a l b) {q : P} (hq : q ∉ l) (x : P) :
    Path (Function.update next q x) a l b := by
  apply h.congr
  intro r hr
  apply Function.update_of_ne
  rintro rfl
  exact hq hr

/-- Two paths from the same pointer to the same end, which neither passes before, are one. -/
theorem unique (h : Path next a l b) (h' : Path next a m b) (hb : b ∉ l) (hb' : b ∉ m) : l = m := by
  induction h generalizing m with
  | nil a =>
      cases h' with
      | nil => rfl
      | cons _ => exact absurd List.mem_cons_self hb'
  | @cons a b l htail ih =>
      cases h' with
      | nil => exact absurd List.mem_cons_self hb
      | @cons _ _ m htail' =>
          have hrest : l = m := by
            apply ih htail'
            · exact fun hmem => hb (List.mem_cons_of_mem a hmem)
            · exact fun hmem => hb' (List.mem_cons_of_mem a hmem)
          rw [hrest]

/-- A path that comes to an end only at its end never passes a node twice. -/
theorem nodup (h : Path next a l b) (hb : b ∉ l) : l.Nodup := by
  induction h with
  | nil => exact List.nodup_nil
  | @cons a b l htail ih =>
      have hbl : b ∉ l := fun hmem => hb (List.mem_cons_of_mem a hmem)
      refine List.nodup_cons.2 ⟨?_, ih hbl⟩
      intro ha
      -- coming back to `a` would go round for ever: the rest of `l` from there is `l` again
      rcases List.append_of_mem ha with ⟨before, after, rfl⟩
      rcases split htail with ⟨c, -, hrest⟩
      rcases cons_inv hrest with ⟨rfl, hafter⟩
      have hsame : before ++ c :: after = after := by
        apply htail.unique hafter hbl
        intro hmem
        exact hbl (by simp [hmem])
      have hlength := congrArg List.length hsame
      simp at hlength
      omega

end Path

/-! ## Null-terminated lists -/

/-- The list at `a` is null-terminated, and its nodes are those of `l`. -/
structure Chain (next : P → P) (null a : P) (l : List P) : Prop where
  path : Path next a l null
  null_notMem : null ∉ l

namespace Chain

variable {next next' : P → P} {null a : P} {l m : List P}

theorem nodup (h : Chain next null a l) : l.Nodup := h.path.nodup h.null_notMem

theorem nil (next : P → P) (null : P) : Chain next null null [] := ⟨.nil null, List.not_mem_nil⟩

theorem cons (hne : a ≠ null) (h : Chain next null (next a) l) : Chain next null a (a :: l) :=
  ⟨.cons h.path, by simp [hne.symm, h.null_notMem]⟩

theorem eq_null_of_nil (h : Chain next null a []) : a = null := h.path.eq_of_nil

theorem cons_inv {q : P} (h : Chain next null a (q :: l)) :
    a = q ∧ q ≠ null ∧ Chain next null (next q) l := by
  rcases h.path.cons_inv with ⟨rfl, htail⟩
  have hnull : null ≠ a ∧ null ∉ l := by simpa using h.null_notMem
  exact ⟨rfl, hnull.1.symm, htail, hnull.2⟩

theorem unique (h : Chain next null a l) (h' : Chain next null a m) : l = m :=
  h.path.unique h'.path h.null_notMem h'.null_notMem

theorem congr (h : Chain next null a l) (hsame : ∀ q ∈ l, next' q = next q) :
    Chain next' null a l :=
  ⟨h.path.congr hsame, h.null_notMem⟩

/-- The nodes after `q` are replaced by the node `n`. -/
theorem cut {q n : P} (h : Chain next null a (l ++ q :: m)) (hn : n ≠ null)
    (hbefore : ∀ r ∈ l, next' r = next r) (hq : next' q = n) (hend : next' n = null) :
    Chain next' null a (l ++ [q, n]) := by
  rcases h.path.split with ⟨b, hl, hrest⟩
  rcases hrest.cons_inv with ⟨rfl, -⟩
  constructor
  · have hlast : Path next' n [n] null := .cons (hend ▸ .nil _)
    exact (hl.congr hbefore).append (.cons (hq ▸ hlast))
  · have hnull := h.null_notMem
    simp only [List.mem_append, List.mem_cons, List.not_mem_nil, or_false, not_or] at hnull ⊢
    exact ⟨hnull.1, hnull.2.1, hn.symm⟩

end Chain

/-! ## A list under construction -/

/-- Where the next pointer of a list that is being built goes: into the caller's variable, or into the
last node. -/
inductive Slot (P : Type*)
  | head
  | behind (p : P)

namespace Slot

/-- The caller's variable once `x` is in the slot. -/
def fillHead (x : P) : Slot P → P → P
  | .head, _ => x
  | .behind _, a => a

/-- The links once `x` is in the slot. -/
def fillNext [DecidableEq P] (x : P) : Slot P → (P → P) → P → P
  | .head, next => next
  | .behind p, next => Function.update next p x

/-- The slot is the one behind the nodes of `l`; what it holds is not said. -/
inductive After (next : P → P) (a : P) : Slot P → List P → Prop
  | head : After next a .head []
  | behind {l : List P} {p : P} (h : Path next a l p) : After next a (.behind p) (l ++ [p])

namespace After

variable {next next' : P → P} {a null : P} {slot : Slot P} {l : List P}

/-- Whatever is put into the slot is where the list goes on. -/
theorem fill [DecidableEq P] (h : After next a slot l) (hnodup : l.Nodup) (x : P) :
    Path (slot.fillNext x next) (slot.fillHead x a) l x := by
  cases h with
  | head => exact .nil x
  | @behind l p h =>
      have hp : p ∉ l := by
        intro hmem
        have hdisjoint := (List.nodup_append.1 hnodup).2.2
        exact hdisjoint p hmem p (List.mem_singleton_self p) rfl
      have hpath : Path (Function.update next p x) a l p := h.update hp x
      have hend : Function.update next p x p = x := Function.update_self p x next
      exact Path.concat_iff.2 ⟨hpath, hend⟩

/-- The slot at the end of a list that is there. -/
theorem of_chain (h : Chain next null a l) :
    After next a (l.foldl (fun _ q => Slot.behind q) .head) l := by
  rcases List.eq_nil_or_concat l with rfl | ⟨l, q, rfl⟩
  · exact .head
  · rw [List.concat_eq_append] at h ⊢
    simpa using After.behind (Path.concat_iff.1 h.path).1

end After

end Slot

/-! ## Loops -/

section loops

variable [DecidableEq P] {next : P → P} {null a : P} {l : List P}

/-- `for(; p != null; p = next(p)) if(stop(p)) break;` in at most `fuel` rounds -/
def walk (next : P → P) (null : P) (stop : P → Bool) : Nat → P → Option P
  | 0, p => if p = null ∨ stop p = true then some p else none
  | fuel + 1, p =>
      if p = null ∨ stop p = true then some p else walk next null stop fuel (next p)

/-- `walk` finds the first node with the property, or null. -/
theorem walk_chain (stop : P → Bool) {fuel : Nat} (h : Chain next null a l) (hfuel : l.length ≤ fuel) :
    walk next null stop fuel a = some ((l.find? stop).getD null) := by
  induction l generalizing a fuel with
  | nil =>
      have ha : a = null := h.eq_null_of_nil
      cases fuel with
      | zero => simp [walk, ha]
      | succ fuel => simp [walk, ha]
  | cons q l ih =>
      rcases h.cons_inv with ⟨rfl, hne, htail⟩
      cases fuel with
      | zero => cases hfuel
      | succ fuel =>
          cases hstop : stop a with
          | true => simp [walk, hstop]
          | false => simpa [walk, hstop, hne] using ih htail (Nat.le_of_succ_le_succ hfuel)

/-- The nodes at `p`, if there are at most `fuel`. -/
def nodes (next : P → P) (null : P) : Nat → P → Option (List P)
  | 0, p => if p = null then some [] else none
  | fuel + 1, p =>
      if p = null then some [] else (nodes next null fuel (next p)).map (p :: ·)

theorem nodes_chain {fuel : Nat} (h : Chain next null a l) (hfuel : l.length ≤ fuel) :
    nodes next null fuel a = some l := by
  induction l generalizing a fuel with
  | nil =>
      have ha : a = null := h.eq_null_of_nil
      cases fuel with
      | zero => simp [nodes, ha]
      | succ fuel => simp [nodes, ha]
  | cons q l ih =>
      rcases h.cons_inv with ⟨rfl, hne, htail⟩
      cases fuel with
      | zero => cases hfuel
      | succ fuel => simp [nodes, hne, ih htail (Nat.le_of_succ_le_succ hfuel)]

/-- `for(p = head; p != null; p = next(p)) body(p);` in at most `fuel` rounds, where the body may change
the state the links are in -/
def forEach (next : S → P → P) (null : P) (body : P → S → S) : Nat → P → S → Option S
  | 0, p, s => if p = null then some s else none
  | fuel + 1, p, s =>
      if p = null then some s else
        let t := body p s
        forEach next null body fuel (next t p) t

/-- A loop whose body leaves the links still to come alone comes to the end: `I before after` holds of the
state when the nodes `before` are done and `after` is to come. -/
theorem forEach_rule {next : S → P → P} {body : P → S → S} {I : List P → List P → S → Prop} {s : S}
    {fuel : Nat}
    (hstep : ∀ before q after t, l = before ++ q :: after → I before (q :: after) t →
      I (before ++ [q]) after (body q t) ∧ ∀ r ∈ q :: after, next (body q t) r = next t r)
    (hs : I [] l s) (h : Chain (next s) null a l) (hfuel : l.length ≤ fuel) :
    ∃ t, forEach next null body fuel a s = some t ∧ I l [] t := by
  suffices hrest : ∀ after before, l = before ++ after → ∀ a s fuel, I before after s →
      Chain (next s) null a after → after.length ≤ fuel →
      ∃ t, forEach next null body fuel a s = some t ∧ I l [] t from
    hrest l [] rfl a s fuel hs h hfuel
  intro after
  -- On the nodes to come, whose links are still as they were when the loop began.
  induction after with
  | nil =>
      intro before hl a s fuel hI hchain hfuel
      have ha : a = null := hchain.eq_null_of_nil
      have hall : before = l := by simpa using hl.symm
      refine ⟨s, ?_, hall ▸ hI⟩
      cases fuel with
      | zero => simp [forEach, ha]
      | succ fuel => simp [forEach, ha]
  | cons q after ih =>
      intro before hl a s fuel hI hchain hfuel
      rcases hchain.cons_inv with ⟨rfl, hne, htail⟩
      cases fuel with
      | zero => cases hfuel
      | succ fuel =>
          rcases hstep before a after s hl hI with ⟨hI', hlinks⟩
          have htail' : Chain (next (body a s)) null (next (body a s) a) after := by
            rw [hlinks a List.mem_cons_self]
            exact htail.congr fun r hr => hlinks r (List.mem_cons_of_mem a hr)
          have hl' : l = (before ++ [a]) ++ after := by simp [hl]
          rcases ih (before ++ [a]) hl' _ _ fuel hI' htail' (Nat.le_of_succ_le_succ hfuel) with
            ⟨t, hrun, hend⟩
          exact ⟨t, by simpa [forEach, hne] using hrun, hend⟩

/-- A loop whose body leaves the links of the chain alone runs the body at each node in order. -/
theorem forEach_chain {next : S → P → P} {body : P → S → S} {I : S → Prop} {s : S} {fuel : Nat}
    (hkept : ∀ t, I t → ∀ q ∈ l, I (body q t) ∧ ∀ r ∈ l, next (body q t) r = next t r)
    (hs : I s) (h : Chain (next s) null a l) (hfuel : l.length ≤ fuel) :
    forEach next null body fuel a s = some (l.foldl (fun t q => body q t) s) := by
  rcases forEach_rule (I := fun before _ t => I t ∧ t = before.foldl (fun t q => body q t) s)
    (fun before q after t hl ht => by
      have hq : q ∈ l := by simp [hl]
      refine ⟨⟨(hkept t ht.1 q hq).1, by simp [← ht.2]⟩, fun r hr => (hkept t ht.1 q hq).2 r ?_⟩
      rw [hl]
      exact List.mem_append_right before hr)
    ⟨hs, rfl⟩ h hfuel with ⟨t, hrun, -, rfl⟩
  exact hrun

/-- A loop that leaves the links alone folds the list. -/
theorem forEach_const {next : P → P} {body : P → S → S} {s : S} {fuel : Nat}
    (h : Chain next null a l) (hfuel : l.length ≤ fuel) :
    forEach (fun _ => next) null body fuel a s = some (l.foldl (fun t q => body q t) s) :=
  forEach_chain (I := fun _ => True) (fun _ _ _ _ => ⟨trivial, fun _ _ => rfl⟩) trivial h hfuel

/-- The loop of `forEach` with a body that may throw, which ends the loop. -/
def forEachExcept {E : Type*} (next : S → P → P) (null : P) (body : P → S → Except E S) :
    Nat → P → S → Option (Except E S)
  | 0, p, s => if p = null then some (.ok s) else none
  | fuel + 1, p, s =>
      if p = null then some (.ok s) else
        match body p s with
        | .error e => some (.error e)
        | .ok t => forEachExcept next null body fuel (next t p) t

/-- A loop whose body leaves the links still to come alone comes to the end or throws: `I before after`
holds of the state when the nodes `before` are done and `after` is to come, and `J` of what is thrown. -/
theorem forEachExcept_rule {E : Type*} {next : S → P → P} {body : P → S → Except E S}
    {I : List P → List P → S → Prop} {J : E → Prop} {s : S} {fuel : Nat}
    (hstep : ∀ before q after t, l = before ++ q :: after → I before (q :: after) t →
      (∃ e, body q t = .error e ∧ J e) ∨
      ∃ u, body q t = .ok u ∧ I (before ++ [q]) after u ∧ ∀ r ∈ q :: after, next u r = next t r)
    (hs : I [] l s) (h : Chain (next s) null a l) (hfuel : l.length ≤ fuel) :
    (∃ e, forEachExcept next null body fuel a s = some (.error e) ∧ J e) ∨
      ∃ t, forEachExcept next null body fuel a s = some (.ok t) ∧ I l [] t := by
  suffices hrest : ∀ after before, l = before ++ after → ∀ a s fuel, I before after s →
      Chain (next s) null a after → after.length ≤ fuel →
      (∃ e, forEachExcept next null body fuel a s = some (.error e) ∧ J e) ∨
        ∃ t, forEachExcept next null body fuel a s = some (.ok t) ∧ I l [] t from
    hrest l [] rfl a s fuel hs h hfuel
  -- On the nodes to come; the body may have changed the links of those that are done.
  intro after
  induction after with
  | nil =>
      intro before hl a s fuel hI hchain hfuel
      have ha : a = null := hchain.eq_null_of_nil
      have hall : before = l := by simpa using hl.symm
      refine Or.inr ⟨s, ?_, hall ▸ hI⟩
      cases fuel with
      | zero => simp [forEachExcept, ha]
      | succ fuel => simp [forEachExcept, ha]
  | cons q after ih =>
      intro before hl a s fuel hI hchain hfuel
      rcases hchain.cons_inv with ⟨rfl, hne, htail⟩
      cases fuel with
      | zero => cases hfuel
      | succ fuel =>
          rcases hstep before a after s hl hI with ⟨e, hthrown, he⟩ | ⟨u, hdone, hI', hlinks⟩
          · exact Or.inl ⟨e, by simp [forEachExcept, hne, hthrown], he⟩
          · have htail' : Chain (next u) null (next u a) after := by
              rw [hlinks a List.mem_cons_self]
              exact htail.congr fun r hr => hlinks r (List.mem_cons_of_mem a hr)
            have hl' : l = (before ++ [a]) ++ after := by simp [hl]
            have hround : forEachExcept next null body (fuel + 1) a s =
                forEachExcept next null body fuel (next u a) u := by
              simp [forEachExcept, hne, hdone]
            rw [hround]
            exact ih (before ++ [a]) hl' _ _ fuel hI' htail' (Nat.le_of_succ_le_succ hfuel)

/-- A loop that throws nothing is the loop without exceptions, on what `f` says of the state. -/
theorem forEachExcept_ok {E T : Type*} {next : S → P → P} {body : P → S → Except E S}
    {next' : T → P → P} {body' : P → T → T} {f : S → T} {K : S → Prop}
    (hbody : ∀ q s t, K s → body q s = .ok t → K t ∧ f t = body' q (f s))
    (hnext : ∀ s, next s = next' (f s)) {s t : S} {fuel : Nat} (hs : K s)
    (h : forEachExcept next null body fuel a s = some (.ok t)) :
    K t ∧ forEach next' null body' fuel a (f s) = some (f t) := by
  induction fuel generalizing a s with
  | zero =>
      by_cases ha : a = null
      · obtain rfl : s = t := by simpa [forEachExcept, ha] using h
        exact ⟨hs, by simp [forEach, ha]⟩
      · simp [forEachExcept, ha] at h
  | succ fuel ih =>
      by_cases ha : a = null
      · obtain rfl : s = t := by simpa [forEachExcept, ha] using h
        exact ⟨hs, by simp [forEach, ha]⟩
      · rw [forEachExcept, if_neg ha] at h
        cases hround : body a s with
        | error e => simp [hround] at h
        | ok u =>
            rw [hround] at h
            rcases hbody a s u hs hround with ⟨hu, hfu⟩
            have hrest := ih hu h
            rw [hnext u, hfu] at hrest
            rw [forEach, if_neg ha]
            exact hrest

end loops

end Segment
end CppPractice
