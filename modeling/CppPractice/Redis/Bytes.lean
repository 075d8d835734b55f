import Mathlib.Data.List.DropRight
import Mathlib.Data.UInt

/-!
# Bytes — the strings of the client

`std::string` holds arbitrary bytes.  This module has the string helpers of `redis_utils.cpp`, the
conversion from a C string, and the two stream conversions the client relies on: `ostream << long`
(`intText`) and `istringstream >> long` (`streamLong`).
-/

namespace CppPractice
namespace Redis

abbrev Bytes := List UInt8

/-- The bytes of a literal of the source. -/
def text (s : String) : Bytes := s.toList.map fun c => c.toNat.toUInt8

def nul : UInt8 := 0
def cr : UInt8 := 13
def lf : UInt8 := 10
def space : UInt8 := 32

/-- `command::CRLF` -/
def crlf : Bytes := [cr, lf]

/-- `rtrim`: erase the trailing run of characters of `ws`. -/
def rtrim (str ws : Bytes) : Bytes := str.rdropWhile (· ∈ ws)

/-- `str.find(delim)` -/
def find (delim : Bytes) : Bytes → Option Nat
  | [] => if delim = [] then some 0 else none
  | b :: str => if delim.isPrefixOf (b :: str) then some 0 else (find delim str).map (· + 1)

/-- The loop of `split`; `str` is what follows `pos_old`.  The position never passes the end, so the
last branch of the source is not taken. -/
def splitLoop (delim : Bytes) : Nat → Bytes → List Bytes → Option (List Bytes)
  | 0, _, _ => none
  | fuel + 1, str, items =>
      match find delim str with
      | some pos => splitLoop delim fuel (str.drop (pos + delim.length)) (items ++ [str.take pos])
      -- `npos`: what is left is the last item, also when it is empty
      | none => some (items ++ [str])

/-- `split`, appending to `items`; `none` when the loop does not end. -/
def split (str delim : Bytes) (items : List Bytes) : Option (List Bytes) :=
  splitLoop delim (str.length + 1) str items

/-- `string(const char *)`: the characters before the first NUL. -/
def ofCString (buffer : Bytes) : Bytes := buffer.takeWhile (· ≠ nul)

/-! ## `ostream << long` -/

def charByte (c : Char) : UInt8 := c.toNat.toUInt8

def natText (n : Nat) : Bytes := (Nat.toDigits 10 n).map charByte

def minus : UInt8 := 45
def plus : UInt8 := 43

def intText (i : Int) : Bytes :=
  if i < 0 then minus :: natText i.natAbs else natText i.natAbs

/-! ## `istringstream >> long` -/

def longMax : Int := 9223372036854775807
def longMin : Int := -9223372036854775808

def isSpace (b : UInt8) : Bool := b = space || (9 ≤ b && b ≤ 13)

def isDigit (b : UInt8) : Bool := 48 ≤ b && b ≤ 57

def digitsValue (ds : Bytes) : Nat := ds.foldl (fun acc b => 10 * acc + (b.toNat - 48)) 0

/-- The value read from the longest run of digits, `none` when there is none or it does not fit. -/
def longOfDigits (negative : Bool) (ds : Bytes) : Option Int :=
  if ds = [] then
    none
  else
    let v : Int := if negative then -(digitsValue ds : Int) else digitsValue ds
    if longMin ≤ v ∧ v ≤ longMax then some v else none

/-- `istringstream >> long`: skips white space, takes an optional sign and the digits that follow,
and leaves whatever comes after them in the stream; `none` stands for `fail()`. -/
def streamLong (data : Bytes) : Option Int :=
  match data.dropWhile isSpace with
  | [] => none
  | b :: rest =>
      if b = minus then longOfDigits true (rest.takeWhile isDigit)
      else if b = plus then longOfDigits false (rest.takeWhile isDigit)
      else longOfDigits false ((b :: rest).takeWhile isDigit)

/-! ## `split` ends -/

theorem find_lt {delim : Bytes} (hne : delim ≠ []) :
    ∀ {str : Bytes} {pos : Nat}, find delim str = some pos → pos < str.length := by
  intro str
  induction str with
  | nil =>
      intro pos h
      simp [find, hne] at h
  | cons b str ih =>
      intro pos h
      unfold find at h
      split at h
      · cases h
        exact Nat.succ_pos _
      · rcases Option.map_eq_some_iff.1 h with ⟨pos', hpos', rfl⟩
        exact Nat.succ_lt_succ (ih hpos')

theorem splitLoop_isSome {delim : Bytes} (hne : delim ≠ []) :
    ∀ {fuel : Nat} {str : Bytes} (items : List Bytes), str.length < fuel →
      (splitLoop delim fuel str items).isSome = true := by
  intro fuel
  -- The delimiter is not empty, so every round shortens what is left to search.
  induction fuel with
  | zero =>
      intro str items hfuel
      exact absurd hfuel (Nat.not_lt_zero _)
  | succ fuel ih =>
      intro str items hfuel
      unfold splitLoop
      cases hfind : find delim str with
      | none => rfl
      | some pos =>
          have hpos := find_lt hne hfind
          have hlen : 0 < delim.length := List.length_pos_iff.2 hne
          exact ih _ (by rw [List.length_drop]; omega)

theorem split_isSome (str : Bytes) {delim : Bytes} (hne : delim ≠ []) (items : List Bytes) :
    (split str delim items).isSome = true :=
  splitLoop_isSome hne items (Nat.lt_succ_self _)

/-! ## Facts about `split` -/

section Split

variable {b : UInt8} {d : Bytes}

theorem find_eq_none {str : Bytes} (h : b ∉ str) : find (b :: d) str = none := by
  induction str with
  | nil => rfl
  | cons c str ih =>
      rw [List.mem_cons, not_or] at h
      simp [find, h.1, ih h.2]

theorem find_append {str : Bytes} (h : b ∉ str) (rest : Bytes) :
    find (b :: d) (str ++ (b :: d ++ rest)) = some str.length := by
  induction str with
  | nil => simp [find]
  | cons c str ih =>
      rw [List.mem_cons, not_or] at h
      simp only [List.cons_append] at ih ⊢
      simp [find, h.1, ih h.2]

/-- One round of the loop of `split`, on a text with the delimiter in it. -/
theorem splitLoop_piece {piece : Bytes} (h : b ∉ piece) (rest : Bytes) (fuel : Nat)
    (items : List Bytes) :
    splitLoop (b :: d) (fuel + 1) (piece ++ (b :: d ++ rest)) items =
      splitLoop (b :: d) fuel rest (items ++ [piece]) := by
  have hdrop : (piece ++ (b :: d ++ rest)).drop (piece.length + (b :: d).length) = rest := by
    rw [← List.append_assoc, ← List.length_append, List.drop_left]
  rw [splitLoop, find_append h]
  simp only [hdrop, List.take_left]

theorem splitLoop_last {last : Bytes} (h : b ∉ last) (fuel : Nat) (items : List Bytes) :
    splitLoop (b :: d) (fuel + 1) last items = some (items ++ [last]) := by
  rw [splitLoop, find_eq_none h]

/-- Pieces that are each followed by the delimiter come back, with what follows the last of them. -/
theorem splitLoop_pieces {last : Bytes} (hlast : b ∉ last) :
    ∀ {pieces : List Bytes} {fuel : Nat} (items : List Bytes), (∀ p ∈ pieces, b ∉ p) →
      pieces.length < fuel →
      splitLoop (b :: d) fuel (pieces.flatMap (· ++ b :: d) ++ last) items =
        some (items ++ (pieces ++ [last])) := by
  intro pieces
  induction pieces with
  | nil =>
      intro fuel items _ hfuel
      obtain ⟨fuel, rfl⟩ : ∃ m, fuel = m + 1 := ⟨fuel - 1, by omega⟩
      exact splitLoop_last hlast fuel items
  | cons p pieces ih =>
      intro fuel items hpieces hfuel
      obtain ⟨fuel, rfl⟩ : ∃ m, fuel = m + 1 := ⟨fuel - 1, by omega⟩
      have hshape : (p :: pieces).flatMap (· ++ b :: d) ++ last =
          p ++ (b :: d ++ (pieces.flatMap (· ++ b :: d) ++ last)) := by
        simp
      rw [hshape, splitLoop_piece (hpieces p (by simp))]
      rw [ih _ (fun q hq => hpieces q (by simp [hq])) (by simpa using hfuel)]
      simp

theorem split_pieces (pieces : List Bytes) (last : Bytes) (hpieces : ∀ p ∈ pieces, b ∉ p)
    (hlast : b ∉ last) :
    split (pieces.flatMap (· ++ b :: d) ++ last) (b :: d) [] = some (pieces ++ [last]) := by
  have hcount : pieces.length ≤ (pieces.flatMap (· ++ b :: d)).length := by
    clear hpieces
    induction pieces with
    | nil => simp
    | cons p pieces ih =>
        simp only [List.flatMap_cons, List.length_append, List.length_cons]
        omega
  have hfuel : pieces.length < (pieces.flatMap (· ++ b :: d) ++ last).length + 1 := by
    rw [List.length_append]
    omega
  have hsplit := splitLoop_pieces (d := d) hlast [] hpieces hfuel
  rwa [List.nil_append] at hsplit

/-- Split at one character a text has one item more than it has of that character. -/
theorem splitLoop_length :
    ∀ {fuel : Nat} {str : Bytes} {items parts : List Bytes},
      splitLoop [b] fuel str items = some parts →
        parts.length = items.length + str.count b + 1 := by
  intro fuel
  induction fuel with
  | zero =>
      intro str items parts h
      exact absurd h (by simp [splitLoop])
  | succ fuel ih =>
      intro str items parts h
      by_cases hmem : b ∈ str
      · rcases List.eq_append_cons_of_mem hmem with ⟨piece, rest, rfl, hpiece⟩
        have hround := splitLoop_piece (d := []) hpiece rest fuel items
        rw [List.cons_append, List.nil_append] at hround
        rw [hround] at h
        rw [ih h, List.count_append, List.count_eq_zero_of_not_mem hpiece, List.count_cons_self,
          List.length_append, List.length_singleton]
        omega
      · rw [splitLoop_last hmem] at h
        cases h
        simp [List.count_eq_zero_of_not_mem hmem]

theorem split_length {str : Bytes} {parts : List Bytes} (h : split str [b] [] = some parts) :
    parts.length = str.count b + 1 := by
  have hlength := splitLoop_length h
  simpa using hlength

end Split

/-! ## Facts about the decimal text -/

theorem charByte_toNat {c : Char} (h : c.toNat < 256) : (charByte c).toNat = c.toNat := by
  simp [charByte, Nat.mod_eq_of_lt h]

theorem isDigit_charByte {c : Char} (h : c.isDigit = true) : isDigit (charByte c) = true := by
  have hbounds : 48 ≤ c.toNat ∧ c.toNat ≤ 57 := by
    simpa [Char.isDigit, UInt32.le_iff_toNat_le] using h
  have hval := charByte_toNat (c := c) (by omega)
  simp [isDigit, UInt8.le_iff_toNat_le, hval, hbounds]

theorem natText_ne_nil (n : Nat) : natText n ≠ [] := by
  simp [natText, Nat.toDigits_ne_nil]

theorem isDigit_of_mem_natText {n : Nat} {b : UInt8} (h : b ∈ natText n) : isDigit b = true := by
  obtain ⟨c, hc, rfl⟩ := List.mem_map.1 h
  exact isDigit_charByte (Nat.isDigit_of_mem_toDigits (by decide) (by decide) hc)

/-- Reading the digits of `n` gives `n` back. -/
theorem digitsValue_natText (n : Nat) : digitsValue (natText n) = n := by
  -- The two folds take the same step on every digit, so the library's inverse applies.
  have hfold : digitsValue (natText n) = Nat.ofDigitChars 10 (Nat.toDigits 10 n) 0 := by
    have hdigits : ∀ c ∈ Nat.toDigits 10 n, c.isDigit = true := fun c hc =>
      Nat.isDigit_of_mem_toDigits (by decide) (by decide) hc
    rw [Nat.ofDigitChars_eq_foldl, digitsValue, natText, List.foldl_map]
    refine List.foldl_ext _ _ _ fun acc c hc => ?_
    have hbounds : 48 ≤ c.toNat ∧ c.toNat ≤ 57 := by
      simpa [Char.isDigit, UInt32.le_iff_toNat_le] using hdigits c hc
    rw [charByte_toNat (by omega)]
    rfl
  rw [hfold, Nat.ofDigitChars_toDigits (by decide) (by decide)]

theorem takeWhile_natText (n : Nat) : (natText n).takeWhile isDigit = natText n := by
  rw [List.takeWhile_eq_self_iff]
  exact fun b hb => isDigit_of_mem_natText hb

theorem longOfDigits_natText (negative : Bool) (n : Nat) :
    longOfDigits negative (natText n) =
      let v : Int := if negative then -(n : Int) else n
      if longMin ≤ v ∧ v ≤ longMax then some v else none := by
  simp only [longOfDigits, natText_ne_nil, if_false, digitsValue_natText]

theorem isDigit_spec {b : UInt8} (h : isDigit b = true) :
    isSpace b = false ∧ b ≠ minus ∧ b ≠ plus ∧ b ≠ cr ∧ b ≠ lf ∧ b ≠ nul := by
  have hbounds : 48 ≤ b.toNat ∧ b.toNat ≤ 57 := by
    simpa [isDigit, UInt8.le_iff_toNat_le] using h
  simp only [isSpace, minus, plus, cr, lf, nul, space, ne_eq, UInt8.le_iff_toNat_le,
    ← UInt8.toNat_inj, Bool.or_eq_false_iff, Bool.and_eq_false_iff, decide_eq_false_iff_not]
  refine ⟨⟨?_, ?_⟩, ?_⟩ <;> simp <;> omega

/-- `>>` undoes `<<` on every integer in the range of `long`, and fails on the others. -/
theorem streamLong_intText (i : Int) :
    streamLong (intText i) = if longMin ≤ i ∧ i ≤ longMax then some i else none := by
  unfold intText
  split
  · rename_i hneg
    have habs : -(i.natAbs : Int) = i := by omega
    have hspace : isSpace minus = false := by decide
    have hread : streamLong (minus :: natText i.natAbs) =
        longOfDigits true ((natText i.natAbs).takeWhile isDigit) := by
      simp [streamLong, hspace]
    rw [hread, takeWhile_natText, longOfDigits_natText]
    simp only [if_true, habs]
  · rename_i hpos
    have habs : (i.natAbs : Int) = i := by omega
    -- Without a sign the first character is a digit, which is no white space and no sign.
    obtain ⟨b, rest, hb⟩ := List.exists_cons_of_ne_nil (natText_ne_nil i.natAbs)
    have hdigit : isDigit b = true := isDigit_of_mem_natText (n := i.natAbs) (by simp [hb])
    obtain ⟨hspace, hminus, hplus, -⟩ := isDigit_spec hdigit
    have hread : streamLong (b :: rest) = longOfDigits false ((b :: rest).takeWhile isDigit) := by
      simp [streamLong, hspace, hminus, hplus]
    rw [hb, hread, ← hb, takeWhile_natText, longOfDigits_natText]
    simp only [Bool.false_eq_true, if_false, habs]

theorem mem_intText {i : Int} {b : UInt8} (h : b ∈ intText i) : isDigit b = true ∨ b = minus := by
  unfold intText at h
  split at h
  · rcases List.mem_cons.1 h with rfl | hb
    · exact Or.inr rfl
    · exact Or.inl (isDigit_of_mem_natText hb)
  · exact Or.inl (isDigit_of_mem_natText h)

end Redis
end CppPractice
