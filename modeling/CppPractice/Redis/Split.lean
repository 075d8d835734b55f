import CppPractice.Redis.Bytes

/-!
# Split — splitting and joining

`split` with the positions of the source, `str` being there as a whole.  It ends for every delimiter that is
not empty, and joining what it appends gives `str` back.
-/

namespace CppPractice
namespace Redis

/-- `str.find(delim, pos)`; `none` stands for `npos`. -/
def findFrom (str delim : Bytes) (pos : Nat) : Option Nat :=
  if pos ≤ str.length then (find delim (str.drop pos)).map (pos + ·) else none

/-- `str.substr(pos, n)`, which throws where `pos` is behind the end. -/
def substr (str : Bytes) (pos n : Nat) : Option Bytes :=
  if pos ≤ str.length then some ((str.drop pos).take n) else none

/-- The loop of `split` from `posOld` on; `none` where it has not ended after `rounds`, or throws. -/
def splitRounds (str delim : Bytes) : Nat → Nat → List Bytes → Option (List Bytes)
  | 0, _, _ => none
  | rounds + 1, posOld, items =>
      match findFrom str delim posOld with
      | some posNew => do
          let item ← substr str posOld (posNew - posOld)
          splitRounds str delim rounds (posNew + delim.length) (items ++ [item])
      | none =>
          if posOld ≤ str.length then do
            let item ← substr str posOld (str.length - posOld)
            return items ++ [item]
          else
            some items

/-! ## The first occurrence -/

section occurrence

variable {delim str : Bytes}

theorem find_eq_some {pos : Nat} (h : find delim str = some pos) :
    delim <+: str.drop pos ∧ ∀ i < pos, ¬ delim <+: str.drop i := by
  induction str generalizing pos with
  | nil =>
      have hdelim : delim = [] ∧ 0 = pos := by simpa [find] using h
      rcases hdelim with ⟨rfl, rfl⟩
      exact ⟨List.nil_prefix, fun i hi => absurd hi (Nat.not_lt_zero i)⟩
  | cons b str ih =>
      rw [find] at h
      split at h
      case isTrue hhere =>
        cases h
        exact ⟨List.isPrefixOf_iff_prefix.1 hhere, fun i hi => absurd hi (Nat.not_lt_zero i)⟩
      case isFalse hhere =>
        rcases Option.map_eq_some_iff.1 h with ⟨pos, hpos, rfl⟩
        rcases ih hpos with ⟨hstarts, hfirst⟩
        refine ⟨hstarts, fun i hi => ?_⟩
        cases i with
        | zero => exact fun hdelim => hhere (List.isPrefixOf_iff_prefix.2 hdelim)
        | succ i => exact hfirst i (Nat.lt_of_succ_lt_succ hi)

theorem find_eq_none_iff (hne : delim ≠ []) :
    find delim str = none ↔ ¬ delim <:+: str := by
  induction str with
  | nil => simp [find, hne]
  | cons b str ih =>
      rw [find, List.infix_cons_iff]
      split
      case isTrue hhere => simp [List.isPrefixOf_iff_prefix.1 hhere]
      case isFalse hhere =>
        have hstarts : ¬ delim <+: b :: str := fun h => hhere (List.isPrefixOf_iff_prefix.2 h)
        simp [hstarts, ih]

/-- What is before the first occurrence has none in it. -/
theorem not_infix_take {pos : Nat} (hne : delim ≠ []) (h : find delim str = some pos) :
    ¬ delim <:+: str.take pos := by
  rintro ⟨before, after, hsplit⟩
  have hdrop : str = before ++ (delim ++ (after ++ str.drop pos)) := by
    rw [← List.append_assoc, ← List.append_assoc, hsplit, List.take_append_drop]
  -- An occurrence in there would be before the first one.
  have hlt : before.length < pos := by
    have hlength := congrArg List.length hsplit
    have hpos : 0 < delim.length := List.length_pos_iff.2 hne
    have htake : (str.take pos).length ≤ pos := List.length_take_le pos str
    rw [List.length_append, List.length_append] at hlength
    omega
  refine (find_eq_some h).2 before.length hlt ⟨after ++ str.drop pos, ?_⟩
  have hbehind := congrArg (List.drop before.length) hdrop
  rw [List.drop_left] at hbehind
  exact hbehind.symm

theorem take_find_drop {pos : Nat} (h : find delim str = some pos) :
    str.take pos ++ (delim ++ str.drop (pos + delim.length)) = str := by
  rcases (find_eq_some h).1 with ⟨rest, hrest⟩
  have hdrop : str.drop (pos + delim.length) = rest := by
    rw [← List.drop_drop, ← hrest, List.drop_left]
  rw [hdrop, hrest, List.take_append_drop]

end occurrence

/-! ## What `split` appends -/

section pieces

variable {delim : Bytes}

/-- The pieces of a text: none has the delimiter in it, and they join to the text. -/
structure Pieces (delim str : Bytes) (pieces : List Bytes) : Prop where
  ne_nil : pieces ≠ []
  free : ∀ piece ∈ pieces, ¬ delim <:+: piece
  join : delim.intercalate pieces = str

theorem Pieces.single {str : Bytes} (h : ¬ delim <:+: str) : Pieces delim str [str] where
  ne_nil := List.cons_ne_nil str []
  free := by simpa using h
  join := by simp [List.intercalate]

theorem Pieces.cons {piece rest : Bytes} {pieces : List Bytes} (hpiece : ¬ delim <:+: piece)
    (h : Pieces delim rest pieces) : Pieces delim (piece ++ (delim ++ rest)) (piece :: pieces) where
  ne_nil := List.cons_ne_nil piece pieces
  free := List.forall_mem_cons.2 ⟨hpiece, h.free⟩
  join := by
    rw [List.intercalate_cons_of_ne_nil h.ne_nil, h.join, List.append_assoc]

/-- The loop, with more rounds than there are characters, appends the pieces. -/
theorem splitLoop_appends (hne : delim ≠ []) (str : Bytes) :
    ∃ pieces, Pieces delim str pieces ∧ ∀ rounds items, str.length < rounds →
      splitLoop delim rounds str items = some (items ++ pieces) := by
  -- Every round leaves a shorter text, as the delimiter is not empty.
  induction hn : str.length using Nat.strong_induction_on generalizing str with
  | _ n ih =>
      subst hn
      cases hfind : find delim str with
      | none =>
          refine ⟨[str], .single ((find_eq_none_iff hne).1 hfind), fun rounds items hrounds => ?_⟩
          cases rounds with
          | zero => cases hrounds
          | succ rounds => rw [splitLoop, hfind]
      | some pos =>
          have hpos := find_lt hne hfind
          have hlength : 0 < delim.length := List.length_pos_iff.2 hne
          have hrest : (str.drop (pos + delim.length)).length < str.length := by
            rw [List.length_drop]
            omega
          rcases ih _ hrest (str.drop (pos + delim.length)) rfl with ⟨pieces, hpieces, hloop⟩
          refine ⟨str.take pos :: pieces, ?_, fun rounds items hrounds => ?_⟩
          · have hcons := hpieces.cons (not_infix_take hne hfind)
            rw [take_find_drop hfind] at hcons
            exact hcons
          · cases rounds with
            | zero => cases hrounds
            | succ rounds =>
                have hless : (str.drop (pos + delim.length)).length < rounds :=
                  Nat.lt_of_lt_of_le hrest (Nat.le_of_lt_succ hrounds)
                rw [splitLoop, hfind]
                dsimp only
                rw [hloop rounds _ hless, List.append_assoc, List.singleton_append]

/-- The positions are those of the text that is left. -/
theorem splitRounds_eq (hne : delim ≠ []) {str : Bytes} {rounds posOld : Nat} (items : List Bytes)
    (hpos : posOld ≤ str.length) :
    splitRounds str delim rounds posOld items = splitLoop delim rounds (str.drop posOld) items := by
  induction rounds generalizing posOld items with
  | zero => rfl
  | succ rounds ih =>
      have hsubstr : ∀ n, substr str posOld n = some ((str.drop posOld).take n) := fun n => if_pos hpos
      rw [splitRounds, splitLoop, findFrom, if_pos hpos]
      cases hfind : find delim (str.drop posOld) with
      | none =>
          -- the last piece reaches to the end, also when it is empty
          have hwhole : (str.drop posOld).take (str.length - posOld) = str.drop posOld :=
            List.take_of_length_le (by rw [List.length_drop])
          simp [hpos, hsubstr, hwhole]
      | some pos =>
          have hdrop : (str.drop posOld).drop (pos + delim.length) =
              str.drop (posOld + pos + delim.length) := by
            rw [List.drop_drop, Nat.add_assoc]
          -- the next piece begins in the text or at its end, so that `substr` does not throw
          have hnext : posOld + pos + delim.length ≤ str.length := by
            have hlength := (find_eq_some hfind).1.length_le
            rw [List.length_drop, List.length_drop] at hlength
            have hlt := find_lt hne hfind
            rw [List.length_drop] at hlt
            omega
          simp only [Option.map_some, hsubstr, Nat.add_sub_cancel_left, hdrop]
          exact ih _ hnext

end pieces

/-- `split` ends, keeps the old items, and appends pieces that join to the text. -/
theorem split_joins (str : Bytes) {delim : Bytes} (hne : delim ≠ []) (items : List Bytes) :
    ∃ pieces, (∀ rounds, str.length < rounds →
        splitRounds str delim rounds 0 items = some (items ++ pieces)) ∧ pieces ≠ [] ∧
      (∀ piece ∈ pieces, ¬ delim <:+: piece) ∧ delim.intercalate pieces = str := by
  rcases splitLoop_appends hne str with ⟨pieces, hpieces, hloop⟩
  refine ⟨pieces, fun rounds hrounds => ?_, hpieces.ne_nil, hpieces.free, hpieces.join⟩
  rw [splitRounds_eq hne items (Nat.zero_le _), List.drop_zero]
  exact hloop rounds items hrounds

/-- Two delimiters that overlap, and one at the end. -/
theorem split_joins_overlap :
    ∃ pieces, (∀ rounds, 6 < rounds →
        splitRounds [1, 7, 7, 7, 7, 7] [7, 7] rounds 0 [[5]] = some ([5] :: pieces)) ∧ pieces ≠ [] ∧
      (∀ piece ∈ pieces, ¬ ([7, 7] : Bytes) <:+: piece) ∧
      ([7, 7] : Bytes).intercalate pieces = [1, 7, 7, 7, 7, 7] :=
  split_joins [1, 7, 7, 7, 7, 7] (List.cons_ne_nil 7 [7]) [[5]]

/-- `split` of the client is the loop with the positions. -/
theorem split_eq_splitRounds (str : Bytes) {delim : Bytes} (hne : delim ≠ []) (items : List Bytes) :
    split str delim items = splitRounds str delim (str.length + 1) 0 items := by
  rw [splitRounds_eq hne items (Nat.zero_le _), List.drop_zero, split]

end Redis
end CppPractice
