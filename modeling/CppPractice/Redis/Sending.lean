import CppPractice.Redis.Command

/-!
# Sending — what `_send` makes of the results of `write`

`anetWrite` returns early when a `write` returns 0, and `_send` compares its result with -1 only; the
length of the message becomes an `int` on the way.  `stopOf` says what the results to come lead to
when a number of bytes is to be written, and `anetWriteLoop_run` what the loop has written by then.
-/

namespace CppPractice
namespace Redis

open Program

variable {σ : Type}

/-! ## `_send` -/

/-- `_send` returns with the message written after what was there, or throws a
`connection_error`. -/
def WholeOrFailed (msg : Bytes) (s : Socket × σ) : Prop :=
  ((send msg s).1 = .returns () ∧ (send msg s).2.1.tx.written = s.1.tx.written ++ msg) ∨
    ∃ m, (send msg s).1 = throwsRedis (.connection m)

/-- Before as many bytes as the size says are accepted a `write` fails, or the size is that of the
message and no `write` returns 0.  Where the size is a negative `int`, a `write` fails before any
returns 0 and before more bytes are accepted than `roomOf` says. -/
def SendCondition (msg : Bytes) (es : List WriteEvent) : Prop :=
  if toInt msg.length < 0 then
    ∃ m, stopBeyond (roomOf msg) es = some (.failed m)
  else
    (∃ m, stopOf (toInt msg.length).toNat es = .failed m) ∨
      SizeFitsInt msg ∧ stopOf (toInt msg.length).toNat es = .complete

theorem serverReacts_written (before msg : Bytes) (s : Socket × σ) :
    (serverReacts before msg s).1 = .returns () ∧
      (serverReacts before msg s).2.1.tx.written = s.1.tx.written := by
  refine ⟨rfl, ?_⟩
  by_cases h : s.1.tx.written = before ++ msg <;>
    simp [serverReacts, Prog.modify, h, Socket.serve]

theorem toInt_le {n : Nat} (h : 0 ≤ toInt n) : (toInt n).toNat ≤ n := by
  by_cases hlt : n < 2 ^ 31
  · rw [toInt_of_lt hlt]
    omega
  · have hrange := toInt_lt n
    omega

theorem send_error {msg strerror : Bytes} {s s' : Socket × σ}
    (h : anetWrite msg (toInt msg.length) (s.1.logged msg, s.2) = (.returns (.error strerror), s')) :
    send msg s = (throwsRedis (.connection strerror), s') := by
  have hlog : logSent msg s = (.returns (), (s.1.logged msg, s.2)) := rfl
  unfold send
  rw [Prog.bind_returns hlog, Prog.get_bind, Prog.bind_returns h]
  rfl

/-- What `_send` makes of the way in which the loop stopped. -/
def Stop.told : Stop → Outcome Exn Unit
  | .complete | .zero => .returns ()
  | .failed m => throwsRedis (.connection m)

theorem send_of_stop {msg : Bytes} {stop : Stop} {written : Int} {j : Nat} {es : List WriteEvent}
    {s : Socket × σ}
    (h : anetWriteLoop (toInt msg.length) (msg.length + 1) 0 msg (s.1.logged msg, s.2) =
      (.returns (stop.result (toInt msg.length) written), ((s.1.logged msg).wrote (msg.take j) es, s.2))) :
    (send msg s).2.1.tx.written = s.1.tx.written ++ msg.take j ∧
      (send msg s).1 = stop.told := by
  have hwrite := Prog.meaningful_returns h
  cases stop with
  | complete =>
      rw [send_ok hwrite]
      exact ⟨(serverReacts_written _ _ _).2, (serverReacts_written _ _ _).1⟩
  | zero =>
      rw [send_ok hwrite]
      exact ⟨(serverReacts_written _ _ _).2, (serverReacts_written _ _ _).1⟩
  | failed m =>
      rw [send_error hwrite]
      exact ⟨rfl, rfl⟩

/-- With a count that is not negative the outcome is what the results say. -/
theorem send_run {msg : Bytes} (h : 0 ≤ toInt msg.length) (s : Socket × σ) :
    ∃ j, (stopOf (toInt msg.length).toNat s.1.tx.events).Accepted (toInt msg.length).toNat j ∧
      (send msg s).2.1.tx.written = s.1.tx.written ++ msg.take j ∧
      (send msg s).1 = (stopOf (toInt msg.length).toNat s.1.tx.events).told := by
  have hle := toInt_le h
  rcases anetWriteLoop_run (toInt_lt msg.length) (msg.length + 1) (toInt msg.length).toNat 0 msg
    (s.1.logged msg, s.2) le_rfl (by omega) hle (by omega) with ⟨j, es, hj, -, hloop⟩
  exact ⟨j, hj, send_of_stop hloop⟩

theorem take_eq_self {msg : Bytes} {j : Nat} (h : msg.take j = msg) : msg.length ≤ j := by
  have hlength := congrArg List.length h
  rw [List.length_take] at hlength
  omega

/-- With a negative count the whole message never comes to be written, and only a `write` that fails in
time is reported. -/
theorem send_negative_iff {msg : Bytes} (hneg : toInt msg.length < 0) (s : Socket × σ) :
    WholeOrFailed msg s ↔ ∃ m, stopBeyond (roomOf msg) s.1.tx.events = some (.failed m) := by
  rcases msg_endsBeyond hneg (s.1.logged msg, s.2) with ⟨hroom, hends⟩
  have hevents : (s.1.logged msg).tx.events = s.1.tx.events := rfl
  rw [hevents] at hends
  unfold WholeOrFailed
  cases hstop : stopBeyond (roomOf msg) s.1.tx.events with
  | none =>
      rw [hstop] at hends
      rw [send_halts (Prog.meaningful_undefined hends)]
      simp [throwsRedis]
  | some stop =>
      rw [hstop] at hends
      rcases hends with ⟨j, es, hj, hloop⟩
      rcases send_of_stop hloop with ⟨hwritten, hresult⟩
      -- There is more of the message than the room there was.
      have hpart : msg.take j ≠ msg := by
        intro htake
        have hlength := take_eq_self htake
        omega
      rw [hresult, hwritten]
      cases stop <;> simp [hpart, Stop.told, throwsRedis]

/-- A message is written completely or reported as failed exactly when `SendCondition` holds of it
and of the results to come. -/
theorem send_whole_or_failed_iff (msg : Bytes) (s : Socket × σ) :
    WholeOrFailed msg s ↔ SendCondition msg s.1.tx.events := by
  unfold SendCondition
  split
  next hneg => exact send_negative_iff hneg s
  next hnonneg =>
    rw [not_lt] at hnonneg
    rcases send_run hnonneg s with ⟨j, hj, hwritten, hresult⟩
    have hle := toInt_le hnonneg
    unfold WholeOrFailed
    rw [hresult, hwritten]
    simp only [List.append_cancel_left_eq]
    cases hstop : stopOf (toInt msg.length).toNat s.1.tx.events with
    -- All of the count is written, which is the message when its size is an `int`.
    | complete =>
        rw [hstop] at hj
        cases hj
        have hfits : msg.take (toInt msg.length).toNat = msg ↔ SizeFitsInt msg := by
          constructor
          · intro htake
            have hlength := take_eq_self htake
            have hrange := toInt_lt msg.length
            exact ⟨by omega⟩
          · intro hfits
            rw [toInt_of_lt hfits.lt]
            simp
        simp [hfits, Stop.told, throwsRedis]
    | zero =>
        rw [hstop] at hj
        have hpart : msg.take j ≠ msg := by
          intro htake
          have hlength := take_eq_self htake
          simp only [Stop.Accepted] at hj
          omega
        simp [hpart, Stop.told, throwsRedis]
    | failed m => simp [Stop.told, throwsRedis]

/-- A socket whose first `write` is going to return 0. -/
def refusing : Socket :=
  { rx := { incoming := [], avail := 0, events := [] }
    tx := { written := [], events := [.zero], sent := [], commandsIn := fun _ => 1, answers := [] } }

/-- Nothing of the message is written, and `_send` returns all the same. -/
theorem short_write_not_reported : ¬ WholeOrFailed (text "PING" ++ crlf) (refusing, ()) := by
  have hsize : toInt (text "PING" ++ crlf).length = 6 := toInt_of_lt (by decide)
  rcases send_run (by rw [hsize]; decide : 0 ≤ toInt (text "PING" ++ crlf).length) (refusing, ()) with
    ⟨j, hj, hwritten, hresult⟩
  rw [hsize] at hj hresult
  have hstop : stopOf (6 : Int).toNat refusing.tx.events = .zero := by decide
  rw [hstop] at hj hresult
  rintro (⟨-, hwhole⟩ | ⟨m, hm⟩)
  · rw [hwritten] at hwhole
    have hlength := take_eq_self (List.append_cancel_left hwhole)
    exact absurd (hj : j < 6) (not_lt.2 hlength)
  · rw [hresult] at hm
    simp [Stop.told, throwsRedis] at hm

end Redis
end CppPractice
