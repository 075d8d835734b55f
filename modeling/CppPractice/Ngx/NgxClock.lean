import CppPractice.Lib.Trace
import Mathlib.Data.UInt
import Mathlib.Logic.Function.Basic
import Mathlib.Tactic.FieldSimp
import Mathlib.Tactic.Ring

/-!
# NgxClock — elapsed time

nginx keeps the time in a ring of slots, so that it can be read while it is being written; a signal may take
a slot without making it the current one.  `NgxClock` reads the time twice and subtracts the one reading
from the other, the seconds, which are signed, and the milliseconds, which are not.
-/

namespace CppPractice
namespace Ngx

/-- `ngx_time_t`: `sec` is a `time_t` and `gmtoff` an `ngx_int_t`, which are signed, and `msec` an
`ngx_uint_t`. -/
structure NgxTime where
  sec : BitVec 64
  msec : BitVec 64
  gmtoff : BitVec 64

/-- What `ngx_gettimeofday` and `ngx_localtime` tell at a moment. -/
structure Moment where
  tvSec : BitVec 64
  tvUsec : BitVec 64
  gmtoff : BitVec 64

/-- The cached times.  `ngxTimeLock` is whether another holds the lock. -/
structure Times where
  cachedTime : Fin 64 → NgxTime
  slot : Fin 64
  ngxCachedTime : Fin 64
  ngxCurrentMsec : BitVec 64
  ngxTimeLock : Bool

namespace Times

def nextSlot (slot : Fin 64) : Fin 64 := if slot = 63 then 0 else slot + 1

def set (T : Times) (slot : Fin 64) (t : NgxTime) : Times :=
  { T with cachedTime := Function.update T.cachedTime slot t }

def ngxTimeUpdate (now : Moment) (T : Times) : Times :=
  if T.ngxTimeLock then T
  else
    let sec := now.tvSec
    let msec := now.tvUsec.sdiv 1000
    let T := { T with ngxCurrentMsec := sec * 1000 + msec }
    let tp := T.cachedTime T.slot
    if tp.sec = sec then T.set T.slot { tp with msec := msec }
    else
      let slot := nextSlot T.slot
      { T.set slot ⟨sec, msec, now.gmtoff⟩ with slot := slot, ngxCachedTime := slot }

/-- The update by a signal handler, which takes a slot for the texts only. -/
def ngxTimeSigsafeUpdate (now : Moment) (T : Times) : Times :=
  if T.ngxTimeLock then T
  else if (T.cachedTime T.slot).sec = now.tvSec then T
  else
    let slot := nextSlot T.slot
    { T.set slot { T.cachedTime slot with sec := 0 } with slot := slot }

def ngxTimeofday (T : Times) : NgxTime := T.cachedTime T.ngxCachedTime

end Times

structure NgxClock where
  mTime : NgxTime

namespace NgxClock

def now (m : Moment) (T : Times) : NgxTime × Times :=
  let T := T.ngxTimeUpdate m
  (T.ngxTimeofday, T)

def reset (m : Moment) (T : Times) : NgxClock × Times :=
  let r := now m T
  (⟨r.1⟩, r.2)

def delta (c : NgxClock) (m : Moment) (T : Times) : NgxTime × Times :=
  let r := now m T
  ({ r.1 with sec := r.1.sec - c.mTime.sec, msec := r.1.msec - c.mTime.msec }, r.2)

/-- The number of seconds, the division being exact. -/
def elapsed (c : NgxClock) (m : Moment) (T : Times) : Rat × Times :=
  let r := c.delta m T
  ((r.1.sec.toInt : Rat) + (r.1.msec.toNat : Rat) * 1 / 1000, r.2)

end NgxClock

/-! ## Readings -/

/-- The milliseconds are the part behind the seconds. -/
def NgxTime.Normal (t : NgxTime) : Prop := t.msec.toNat < 1000

instance (t : NgxTime) : Decidable t.Normal := inferInstanceAs (Decidable (_ < _))

def NgxTime.millis (t : NgxTime) : Int := 1000 * t.sec.toInt + t.msec.toNat

namespace Times

/-- What happens to the cached times: the lock is taken or given back by another. -/
inductive Input
  | update (now : Moment)
  | sigsafeUpdate (now : Moment)
  | lock (held : Bool)

def step (T : Times) : Input → Times
  | .update now => T.ngxTimeUpdate now
  | .sigsafeUpdate now => T.ngxTimeSigsafeUpdate now
  | .lock held => { T with ngxTimeLock := held }

/-- `gettimeofday` gives less than a second of microseconds. -/
def Input.Sane : Input → Prop
  | .update now => now.tvUsec.toNat < 1000000
  | _ => True

/-- All slots are in normal form, and the current one is the last that was taken, unless a signal took
that. -/
structure Sound (T : Times) : Prop where
  normal : ∀ i, (T.cachedTime i).Normal
  current : T.ngxCachedTime = T.slot ∨ (T.cachedTime T.slot).sec = 0

theorem normal_set {T : Times} (h : ∀ i, (T.cachedTime i).Normal) (slot : Fin 64) {t : NgxTime}
    (ht : t.Normal) : ∀ i, ((T.set slot t).cachedTime i).Normal := by
  intro i
  rw [set]
  by_cases hi : i = slot
  · subst hi
    simpa using ht
  · simpa [hi] using h i

theorem toNat_millis {usec : BitVec 64} (h : usec.toNat < 1000000) :
    (usec.sdiv 1000).toNat = usec.toNat / 1000 := by
  have hmsb : usec.msb = false := by
    rw [BitVec.msb_eq_false_iff_two_mul_lt]
    omega
  have hthousand : (1000 : BitVec 64).msb = false := by decide
  rw [BitVec.sdiv_eq, hmsb, hthousand]
  exact BitVec.toNat_udiv

theorem normal_millis {usec : BitVec 64} (h : usec.toNat < 1000000) (sec gmtoff : BitVec 64) :
    (NgxTime.mk sec (usec.sdiv 1000) gmtoff).Normal := by
  rw [NgxTime.Normal, toNat_millis h]
  exact Nat.div_lt_of_lt_mul h

theorem Sound.update {T : Times} (hT : T.Sound) {now : Moment} (hnow : now.tvUsec.toNat < 1000000) :
    (T.ngxTimeUpdate now).Sound := by
  rw [ngxTimeUpdate]
  split
  · exact hT
  · dsimp only
    split
    · refine ⟨normal_set hT.normal _ (normal_millis hnow _ _), ?_⟩
      simpa [set] using hT.current
    · exact ⟨normal_set hT.normal _ (normal_millis hnow _ _), Or.inl rfl⟩

theorem Sound.sigsafeUpdate {T : Times} (hT : T.Sound) (now : Moment) :
    (T.ngxTimeSigsafeUpdate now).Sound := by
  rw [ngxTimeSigsafeUpdate]
  split
  · exact hT
  · split
    · exact hT
    · exact ⟨normal_set hT.normal _ (hT.normal (nextSlot T.slot)), Or.inr (by simp [set])⟩

theorem Sound.run {T : Times} (hT : T.Sound) {inputs : List Input}
    (h : Trace.Along step (fun _ i => i.Sane) T inputs) : (Trace.run step T inputs).Sound := by
  refine Trace.run_of_along (fun T i hT hi => ?_) hT h
  cases i with
  | update now => exact hT.update hi
  | sigsafeUpdate now => exact hT.sigsafeUpdate now
  | lock held => exact ⟨hT.normal, hT.current⟩

/-- Unless the lock is held, a reading is that of the moment (but for the first second of the epoch, which is
how a signal marks a slot). -/
theorem now_spec {T : Times} (hT : T.Sound) {m : Moment} (hm : m.tvUsec.toNat < 1000000)
    (hlock : T.ngxTimeLock = false) (hsec : m.tvSec ≠ 0) :
    (NgxClock.now m T).1.sec = m.tvSec ∧ (NgxClock.now m T).1.msec.toNat = m.tvUsec.toNat / 1000 := by
  rw [NgxClock.now, ngxTimeUpdate, hlock, if_neg Bool.false_ne_true]
  dsimp only
  split
  case isTrue hsame =>
    -- the slot of the second is the current one, as no signal has marked it
    have hcurrent : T.ngxCachedTime = T.slot := by
      refine hT.current.resolve_right fun hzero => hsec ?_
      rw [← hsame, hzero]
    simp only [ngxTimeofday, set, hcurrent, Function.update_self]
    exact ⟨hsame, toNat_millis hm⟩
  case isFalse =>
    simp only [ngxTimeofday, set, Function.update_self, true_and]
    exact toNat_millis hm

end Times

/-! ## Differences -/

namespace NgxClock

/-- `t` is the time from `t₀` to `t₁`, in normal form, and `e` the same in seconds. -/
structure Exact (t₀ t₁ t : NgxTime) (e : Rat) : Prop where
  normal : t.Normal
  millis : t.millis = t₁.millis - t₀.millis
  seconds : e = ((t₁.millis - t₀.millis : Int) : Rat) / 1000

/-- The milliseconds are in normal form if and only if nothing has to be borrowed. -/
theorem toNat_msec_lt_iff {a b : BitVec 64} (ha : a.toNat < 1000) (hb : b.toNat < 1000) :
    (b - a).toNat < 1000 ↔ a.toNat ≤ b.toNat := by
  rw [BitVec.toNat_sub]
  omega

/-- The seconds are the difference if and only if it fits into a `time_t`. -/
theorem toInt_sec_eq_iff {a b : BitVec 64} (hle : a.toInt ≤ b.toInt) :
    (b - a).toInt = b.toInt - a.toInt ↔ b.toInt - a.toInt < 2 ^ 63 := by
  have ha := BitVec.le_toInt a
  have hb := BitVec.toInt_lt (x := b)
  constructor
  · intro h
    rw [← h]
    exact BitVec.toInt_lt
  · intro h
    rw [BitVec.toInt_sub]
    exact Int.bmod_eq_of_le (by omega) (by omega)

/-- Where the one reading is not after the other, their seconds are in this order. -/
theorem sec_le_of_millis_le {t₀ t₁ : NgxTime} (h₁ : t₁.Normal) (hle : t₀.millis ≤ t₁.millis) :
    t₀.sec.toInt ≤ t₁.sec.toInt := by
  simp only [NgxTime.Normal, NgxTime.millis] at h₁ hle
  omega

theorem normal_millis_iff {t₀ t₁ t : NgxTime} (hsec : t.sec = t₁.sec - t₀.sec)
    (hmsec : t.msec = t₁.msec - t₀.msec) (h₀ : t₀.Normal) (h₁ : t₁.Normal)
    (hle : t₀.millis ≤ t₁.millis) :
    t.Normal ∧ t.millis = t₁.millis - t₀.millis ↔
      t₀.msec.toNat ≤ t₁.msec.toNat ∧ t₁.sec.toInt - t₀.sec.toInt < 2 ^ 63 := by
  rw [NgxTime.Normal, hmsec, toNat_msec_lt_iff h₀ h₁]
  refine and_congr_right fun hmsecs => ?_
  have hdiff : t.msec.toNat = t₁.msec.toNat - t₀.msec.toNat := by
    rw [hmsec]
    exact BitVec.toNat_sub_of_le hmsecs
  rw [← toInt_sec_eq_iff (sec_le_of_millis_le h₁ hle), ← hsec, NgxTime.millis, NgxTime.millis,
    NgxTime.millis, hdiff]
  omega

/-- The seconds that `elapsed` returns are those of the difference. -/
theorem elapsed_eq (c : NgxClock) (m : Moment) (T : Times) :
    (c.elapsed m T).1 = ((c.delta m T).1.millis : Rat) / 1000 := by
  rw [elapsed, NgxTime.millis]
  push_cast
  field_simp

/-- The difference of two readings is the time between them if and only if the milliseconds of the second
are not less than those of the first, and the seconds between them fit into a `time_t`. -/
theorem delta_exact_iff {m₀ m₁ : Moment} {T₀ T₁ : Times} {t₀ t₁ : NgxTime} (hreset : (now m₀ T₀).1 = t₀)
    (hlater : (now m₁ T₁).1 = t₁) (h₀ : t₀.Normal) (h₁ : t₁.Normal) (hle : t₀.millis ≤ t₁.millis) :
    Exact t₀ t₁ ((reset m₀ T₀).1.delta m₁ T₁).1 ((reset m₀ T₀).1.elapsed m₁ T₁).1 ↔
      t₀.msec.toNat ≤ t₁.msec.toNat ∧ t₁.sec.toInt - t₀.sec.toInt < 2 ^ 63 := by
  have hsec : ((reset m₀ T₀).1.delta m₁ T₁).1.sec = t₁.sec - t₀.sec := by
    rw [← hreset, ← hlater]
    rfl
  have hmsec : ((reset m₀ T₀).1.delta m₁ T₁).1.msec = t₁.msec - t₀.msec := by
    rw [← hreset, ← hlater]
    rfl
  rw [← normal_millis_iff hsec hmsec h₀ h₁ hle]
  constructor
  · exact fun h => ⟨h.normal, h.millis⟩
  · rintro ⟨hnormal, hmillis⟩
    exact ⟨hnormal, hmillis, by rw [elapsed_eq, hmillis]⟩

/-- The cached times at the start. -/
def noTimes : Times := ⟨fun _ => ⟨0, 0, 0⟩, 0, 0, 0, false⟩

theorem delta_exact_twoSeconds :
    Exact ⟨1, 200, 0⟩ ⟨3, 250, 0⟩ ((reset ⟨1, 200000, 0⟩ noTimes).1.delta ⟨3, 250000, 0⟩ noTimes).1
      ((reset ⟨1, 200000, 0⟩ noTimes).1.elapsed ⟨3, 250000, 0⟩ noTimes).1 :=
  (@delta_exact_iff _ _ _ _ ⟨1, 200, 0⟩ ⟨3, 250, 0⟩ rfl rfl (by decide) (by decide) (by decide)).2
    (by decide)

/-- A fifth of a second that begins in one second and ends in the next. -/
theorem delta_not_borrowed :
    ¬ Exact ⟨1, 900, 0⟩ ⟨2, 100, 0⟩ ((reset ⟨1, 900000, 0⟩ noTimes).1.delta ⟨2, 100000, 0⟩ noTimes).1
        ((reset ⟨1, 900000, 0⟩ noTimes).1.elapsed ⟨2, 100000, 0⟩ noTimes).1 ∧
      ((reset ⟨1, 900000, 0⟩ noTimes).1.delta ⟨2, 100000, 0⟩ noTimes).1 =
        ⟨1, 0xfffffffffffffce0, 0⟩ := by
  refine ⟨fun h => ?_, rfl⟩
  exact absurd h.normal (by decide)

end NgxClock

end Ngx
end CppPractice
