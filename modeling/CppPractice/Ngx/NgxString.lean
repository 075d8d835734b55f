import Mathlib

/-!
# NgxString — the bytes of texts, and how `ngx_sprintf` writes numbers

`ngx_sprintf` has no limit: it is called with buffers that are large enough.
-/

namespace CppPractice
namespace Ngx

/-- The bytes of a literal. -/
def u8 (s : String) : List UInt8 := s.toList.map Char.toUInt8

/-- The loop of `ngx_sprintf_num` that fills `temp` from its end, which has room for `fuel` digits. -/
def ngxDigits : Nat → Nat → List UInt8 → List UInt8
  | 0, _, p => p
  | fuel + 1, ui64, p =>
      let p := UInt8.ofNat (ui64 % 10 + 48) :: p
      if ui64 / 10 = 0 then p else ngxDigits fuel (ui64 / 10) p

/-- `NGX_INT64_LEN` -/
def ngxInt64Len : Nat := 20

/-- `ngx_sprintf_num` for decimal numbers. -/
def ngxSprintfNum (ui64 : Nat) (zero : Char) (width : Nat) : List UInt8 :=
  let p := ngxDigits ngxInt64Len ui64 []
  List.replicate (width - p.length) zero.toUInt8 ++ p

/-- `%d` -/
def ngxSprintfInt (i64 : Int) (zero : Char) (width : Nat) : List UInt8 :=
  if i64 < 0 then '-'.toUInt8 :: ngxSprintfNum i64.natAbs zero width else ngxSprintfNum i64.natAbs zero width

/-! ## Numbers of few digits -/

def digitByte (n : Nat) : UInt8 := UInt8.ofNat (n + 48)

theorem ngxDigits_of_lt {fuel n : Nat} {p : List UInt8} (h : n < 10) :
    ngxDigits (fuel + 1) n p = digitByte n :: p := by
  have hdiv : n / 10 = 0 := Nat.div_eq_of_lt h
  have hmod : n % 10 = n := Nat.mod_eq_of_lt h
  simp only [ngxDigits, hdiv, hmod, if_true, digitByte]

theorem ngxDigits_of_le {fuel n : Nat} {p : List UInt8} (h : 10 ≤ n) :
    ngxDigits (fuel + 1) n p = ngxDigits fuel (n / 10) (digitByte (n % 10) :: p) := by
  have hdiv : n / 10 ≠ 0 := by omega
  simp only [ngxDigits, hdiv, if_false, digitByte]

theorem ngxSprintfNum_two {n : Nat} (h : n < 100) :
    ngxSprintfNum n '0' 2 = [digitByte (n / 10), digitByte (n % 10)] := by
  have hlen : ngxInt64Len = 18 + 1 + 1 := rfl
  rw [ngxSprintfNum, hlen]
  by_cases hten : n < 10
  · have hdiv : n / 10 = 0 := Nat.div_eq_of_lt hten
    have hmod : n % 10 = n := Nat.mod_eq_of_lt hten
    rw [ngxDigits_of_lt hten, hdiv, hmod]
    rfl
  · rw [ngxDigits_of_le (by omega), ngxDigits_of_lt (by omega)]
    rfl

theorem ngxSprintfNum_four {n width : Nat} (zero : Char) (hwidth : width ≤ 4) (hle : 1000 ≤ n)
    (h : n < 10000) : ngxSprintfNum n zero width = [digitByte (n / 1000), digitByte (n / 100 % 10), digitByte (n / 10 % 10),
      digitByte (n % 10)] := by
  have hlen : ngxInt64Len = 16 + 1 + 1 + 1 + 1 := rfl
  rw [ngxSprintfNum, hlen]
  have htwo : n / 10 / 10 = n / 100 := Nat.div_div_eq_div_mul n 10 10
  have hthree : n / 100 / 10 = n / 1000 := Nat.div_div_eq_div_mul n 100 10
  rw [ngxDigits_of_le (by omega), ngxDigits_of_le (by omega), ngxDigits_of_le (by omega),
    ngxDigits_of_lt (by omega), htwo, hthree]
  dsimp only [List.length_cons, List.length_nil]
  rw [Nat.sub_eq_zero_of_le hwidth]
  rfl

theorem ngxSprintfInt_nat (n : Nat) (zero : Char) (width : Nat) :
    ngxSprintfInt n zero width = ngxSprintfNum n zero width := by
  rw [ngxSprintfInt, if_neg (by omega), Int.natAbs_natCast]

end Ngx
end CppPractice
