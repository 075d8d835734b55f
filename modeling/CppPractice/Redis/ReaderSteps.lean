import CppPractice.Lib.Trace
import CppPractice.Redis.Reply

/-!
# ReaderSteps — `_read_n` and `_read_line` from one `recv` to the next

The two readers once more, as state machines that are resumed with what a `recv` returned, so that a
statement can be about every call of `recv` and about every sequence of results.  The last section
shows that the functions of `Reader` run through these states.

* `ReadN.State.asking` and `ReadLine.State.peeking`, `.taking` are the places in the source where
  `recv` is called, with the local variables there.
* `Fits` says which results such a call can have, `Safe` what the two functions should make of them.
-/

namespace CppPractice
namespace Redis

open Program Trace

/-! ## Results -/

def RecvResult.data : RecvResult → Bytes
  | .received data => data
  | _ => []

/-- The bytes that the calls handed out, one call after another. -/
def bytesOf (rs : List RecvResult) : Bytes := rs.flatMap RecvResult.data

theorem bytesOf_concat (rs : List RecvResult) (r : RecvResult) :
    bytesOf (rs ++ [r]) = bytesOf rs ++ r.data := by
  simp [bytesOf]

/-- A `recv` of up to `len` bytes can return this: some bytes, an interruption, an end or a
failure. -/
def RecvResult.Answers (len : Nat) : RecvResult → Prop
  | .received data => data ≠ [] ∧ data.length ≤ len
  | .interrupted | .closed | .failed => True
  | .waits => False

def connectionClosed {α : Type} : Outcome Exn α :=
  throwsRedis (.connection (text "connection was closed"))

def ConnectionError {α : Type} (o : Outcome Exn α) : Prop := ∃ msg, o = throwsRedis (.connection msg)

/-- An interrupted call is made again, and an end or a failure of the connection is reported. -/
def Reports {S : Type} (halted : Outcome Exn Bytes → S) (resume : S → RecvResult → S) (st : S)
    (r : RecvResult) : Prop :=
  (r = .interrupted → resume st r = st) ∧
    (r = .closed ∨ r = .failed → ∃ o, ConnectionError o ∧ resume st r = halted o)

/-! ## `_read_n` -/

namespace ReadN

/-- Before a `recv(_socket, bp, n - (bp - buffer), 0)`, or at the end.  `buffer` is what has been
stored before `bp`, and `bytesRead` the distance of `bp` from the start. -/
inductive State
  | asking (bytesRead : Int) (buffer : Bytes)
  | halted (o : Outcome Exn Bytes)

/-- `while (bytes_read != n)` -/
def loop (n bytesRead : Int) (buffer : Bytes) : State :=
  if bytesRead = n then .halted (.returns (ofCString buffer)) else .asking bytesRead buffer

def start (n : Int) : State :=
  if longMax < n + 1 then .halted (.halts .undefined)
  else if n + 1 < 0 then .halted (.halts (.throws .badArrayNewLength))
  else if n < 0 then .halted (.halts .undefined)
  else loop n 0 []

def resume (n : Int) : State → RecvResult → State
  | .asking bytesRead buffer, .received data =>
      if bytesRead < 0 then .halted (.halts .undefined)
      else loop n (bytesRead + data.length) (buffer ++ data)
  | .asking bytesRead buffer, .interrupted | .asking bytesRead buffer, .waits =>
      .asking bytesRead buffer
  | .asking _ _, .closed => .halted connectionClosed
  -- `bytes_read += -1; bp += -1;`
  | .asking bytesRead buffer, .failed => loop n (bytesRead - 1) buffer.dropLast
  | .halted o, _ => .halted o

/-- The length asked for, a `size_t`. -/
def asks (n bytesRead : Int) : Nat := (n - bytesRead).toNat

def Fits (n : Int) : State → RecvResult → Prop
  | .asking bytesRead _, r => r.Answers (asks n bytesRead)
  | .halted _, _ => False

/-- The results make up a run of `_read_n(n)`, or the first part of one. -/
def Results (n : Int) (rs : List RecvResult) : Prop := Along (resume n) (Fits n) (start n) rs

/-- What `_read_n(n)` should make of the results. -/
structure Safe (n : Int) (rs : List RecvResult) : Prop where
  inside : ∀ before after, rs = before ++ after → ∀ bytesRead buffer,
    run (resume n) (start n) before = .asking bytesRead buffer →
      0 ≤ bytesRead ∧ bytesRead ≤ n ∧ bytesRead + asks n bytesRead ≤ n
  reports : Along (resume n) (Reports .halted (resume n)) (start n) rs
  result : ∀ o, run (resume n) (start n) rs = .halted o →
    (ConnectionError o ∧ (.closed ∈ rs ∨ .failed ∈ rs)) ∨
      o = .returns ((bytesOf rs).take n.toNat) ∧ n ≤ (bytesOf rs).length

/-- `n + 1` fits, no `recv` fails, and once all the bytes are there, none of them is a NUL. -/
def SafeCondition (n : Int) (rs : List RecvResult) : Prop :=
  n < longMax ∧ .failed ∉ rs ∧ (n ≤ (bytesOf rs).length → nul ∉ bytesOf rs)

theorem start_of_lt {n : Nat} (h : (n : Int) < longMax) : start n = loop n 0 [] := by
  have h0 : ¬ longMax < (n : Int) + 1 := by omega
  have h1 : ¬ (n : Int) + 1 < 0 := by omega
  have h2 : ¬ (n : Int) < 0 := by omega
  simp only [start, h0, h1, h2, if_false]

/-- As long as no `recv` fails, the buffer holds what has been handed out. -/
def Reading (n : Int) (seen : List RecvResult) : State → Prop
  | .asking bytesRead buffer =>
      buffer = bytesOf seen ∧ bytesRead = buffer.length ∧ bytesRead < n
  | .halted o =>
      (o = connectionClosed ∧ .closed ∈ seen ∧ (bytesOf seen).length < n) ∨
        (bytesOf seen).length = n ∧ o = .returns (ofCString (bytesOf seen))

theorem reading_loop {n : Int} (seen : List RecvResult) (h : (bytesOf seen).length ≤ n) :
    Reading n seen (loop n (bytesOf seen).length (bytesOf seen)) := by
  unfold loop
  split_ifs with hdone
  · exact Or.inr ⟨hdone, rfl⟩
  · exact ⟨rfl, rfl, lt_of_le_of_ne h hdone⟩

theorem reading_start {n : Nat} (h : (n : Int) < longMax) : Reading n [] (start n) := by
  rw [start_of_lt h]
  exact reading_loop [] (by simp [bytesOf])

theorem reading_resume {n : Int} {seen : List RecvResult} {st : State} {r : RecvResult}
    (h : Reading n seen st) (hfits : Fits n st r) (hfail : r ≠ .failed) :
    Reading n (seen ++ [r]) (resume n st r) := by
  cases st with
  | halted o => exact hfits.elim
  | asking bytesRead buffer =>
      rcases h with ⟨rfl, rfl, hlt⟩
      cases r with
      | received data =>
          have hneg : ¬ ((bytesOf seen).length : Int) < 0 := by omega
          have hlen : data.length ≤ asks n (bytesOf seen).length := hfits.2
          have hroom := reading_loop (n := n) (seen ++ [.received data])
            (by rw [bytesOf_concat, List.length_append]; unfold asks at hlen
                simp only [RecvResult.data]; push_cast; omega)
          rw [bytesOf_concat, List.length_append] at hroom
          simpa only [resume, hneg, if_false, RecvResult.data, Nat.cast_add] using hroom
      | interrupted =>
          have hsame : bytesOf (seen ++ [.interrupted]) = bytesOf seen := by
            simp [bytesOf_concat, RecvResult.data]
          exact ⟨hsame.symm, rfl, hlt⟩
      | closed =>
          have hsame : bytesOf (seen ++ [.closed]) = bytesOf seen := by
            simp [bytesOf_concat, RecvResult.data]
          exact Or.inl ⟨rfl, by simp, hsame ▸ hlt⟩
      | failed => exact absurd rfl hfail
      | waits => exact hfits.elim

theorem Results.reading {n : Nat} {rs : List RecvResult} (h : Results n rs)
    (hlt : (n : Int) < longMax) (hfail : .failed ∉ rs) :
    ∀ before after, rs = before ++ after → Reading n before (run (resume n) (start n) before) := by
  have hgood : Along (resume n) (fun st r => Fits n st r ∧ r ≠ .failed) (start n) rs := by
    intro before r after hrs
    refine ⟨h before r after hrs, fun hr => hfail ?_⟩
    simp [hrs, hr]
  refine history_of_along ?_ (reading_start hlt) hgood
  intro seen st r hst hr
  exact reading_resume hst hr.1 hr.2

/-- After a failure another `recv` is made, for one byte more. -/
theorem not_reports_failed {n bytesRead : Int} {buffer : Bytes} (h : bytesRead ≤ n) :
    ¬ Reports .halted (resume n) (.asking bytesRead buffer) .failed := by
  rintro ⟨-, hfail⟩
  rcases hfail (Or.inr rfl) with ⟨o, -, ho⟩
  have hgo : bytesRead - 1 ≠ n := by omega
  simp [resume, loop, hgo] at ho

theorem safe_of_condition {n : Nat} {rs : List RecvResult} (h : Results n rs)
    (hcond : SafeCondition n rs) : Safe n rs := by
  rcases hcond with ⟨hlt, hfail, hnul⟩
  have hreading := h.reading hlt hfail
  refine ⟨?_, ?_, ?_⟩
  · intro before after hrs bytesRead buffer hst
    have hread := hreading before after hrs
    rw [hst] at hread
    rcases hread with ⟨-, hbytes, hless⟩
    unfold asks
    omega
  · intro before r after hrs
    have hfits := h before r after hrs
    cases hst : run (resume n) (start n) before with
    | halted o =>
        rw [hst] at hfits
        exact hfits.elim
    | asking bytesRead buffer =>
        refine ⟨?_, ?_⟩
        · rintro rfl
          rfl
        · rintro (rfl | rfl)
          · exact ⟨connectionClosed, ⟨_, rfl⟩, rfl⟩
          · exact absurd (by simp [hrs]) hfail
  · intro o ho
    have hread := hreading rs [] (by simp)
    rw [ho] at hread
    rcases hread with ⟨rfl, hclosed, -⟩ | ⟨hlength, rfl⟩
    · exact Or.inl ⟨⟨_, rfl⟩, Or.inl hclosed⟩
    · refine Or.inr ⟨?_, by omega⟩
      have hself : ofCString (bytesOf rs) = bytesOf rs := ofCString_eq_self_iff.2 (hnul (by omega))
      rw [hself, List.take_of_length_le (by omega)]

theorem condition_of_safe {n : Nat} {rs : List RecvResult} (h : Results n rs)
    (hsafe : Safe n rs) : SafeCondition n rs := by
  have hlt : (n : Int) < longMax := by
    by_contra hge
    have hover : longMax < (n : Int) + 1 := by omega
    have hstart : start (n : Int) = .halted (.halts .undefined) := by simp only [start, hover, if_true]
    -- No call is made, and the run is over before the first result.
    have hnil : rs = [] := by
      cases rs with
      | nil => rfl
      | cons r rs =>
          have hfits := (along_cons.1 h).1
          rw [hstart] at hfits
          exact hfits.elim
    subst hnil
    rcases hsafe.result _ hstart with ⟨⟨msg, hmsg⟩, -⟩ | ⟨hreturns, -⟩
    · simp [throwsRedis] at hmsg
    · simp at hreturns
  have hfail : .failed ∉ rs := by
    intro hmem
    rcases List.append_of_mem hmem with ⟨before, after, hrs⟩
    have hfits := h before .failed after hrs
    have hreports := hsafe.reports before .failed after hrs
    cases hst : run (resume n) (start n) before with
    | halted o =>
        rw [hst] at hfits
        exact hfits.elim
    | asking bytesRead buffer =>
        have hinside := (hsafe.inside before (.failed :: after) hrs bytesRead buffer hst).2.1
        rw [hst] at hreports
        exact not_reports_failed hinside hreports
  refine ⟨hlt, hfail, fun hall => ?_⟩
  have hread := h.reading hlt hfail rs [] (by simp)
  cases hst : run (resume n) (start n) rs with
  | asking bytesRead buffer =>
      rw [hst] at hread
      rcases hread with ⟨rfl, rfl, hless⟩
      exact absurd hless (by omega)
  | halted o =>
      rw [hst] at hread
      rcases hread with ⟨rfl, -, hless⟩ | ⟨hlength, rfl⟩
      · exact absurd hless (by omega)
      · rcases hsafe.result _ hst with ⟨⟨msg, hmsg⟩, -⟩ | ⟨hreturns, -⟩
        · simp [throwsRedis] at hmsg
        · rw [List.take_of_length_le (by omega)] at hreturns
          exact ofCString_eq_self_iff.1 (by simpa using hreturns)

theorem safe_iff {n : Nat} {rs : List RecvResult} (h : Results n rs) :
    Safe n rs ↔ SafeCondition n rs :=
  ⟨condition_of_safe h, safe_of_condition h⟩

end ReadN

/-! ## `_read_line` -/

namespace ReadLine

/-- Before the `recv` with `MSG_PEEK`, before the one that takes `toRead` of the bytes peeked at, or at
the end.  `oss` is what has been written to the string stream. -/
inductive State
  | peeking (oss : Bytes)
  | taking (oss : Bytes) (toRead : Nat) (foundDelimiter : Bool)
  | halted (o : Outcome Exn Bytes)

def bufferSize : Nat := 64

/-- `while (total_bytes_read < max_size && !found_delimiter)`, with a `total_bytes_read` of 0. -/
def loop (maxSize : Int) (oss : Bytes) (foundDelimiter : Bool) : State :=
  if 0 < maxSize ∧ foundDelimiter = false then .peeking oss
  else .halted (.returns (rtrim oss crlf))

def start (maxSize : Int) : State := loop maxSize [] false

/-- The bytes of a chunk that belong to the line, with its end. -/
def toRead (data : Bytes) : Nat :=
  match data.findIdx? (· = lf) with
  | some i => i + 1
  | none => data.length

def resume (maxSize : Int) : State → RecvResult → State
  | .peeking oss, .received data =>
      .taking (oss ++ data.take (toRead data)) (toRead data) (data.findIdx? (· = lf)).isSome
  | .peeking oss, .interrupted | .peeking oss, .waits => .peeking oss
  | .peeking _, .closed => .halted connectionClosed
  -- `memchr` is given the length -1
  | .peeking _, .failed => .halted (.halts .undefined)
  | .taking oss k found, .interrupted | .taking oss k found, .waits => .taking oss k found
  -- whatever else the second `recv` returns is not looked at
  | .taking oss _ found, .received _ | .taking oss _ found, .closed
  | .taking oss _ found, .failed => loop maxSize oss found
  | .halted o, _ => .halted o

def Fits : State → RecvResult → Prop
  | .peeking _, r => r.Answers bufferSize
  | .taking _ k _, r => r.Answers k
  | .halted _, _ => False

def Results (maxSize : Int) (rs : List RecvResult) : Prop :=
  Along (resume maxSize) Fits (start maxSize) rs

/-- What `_read_line(maxSize)` should make of the results. -/
structure Safe (maxSize : Int) (rs : List RecvResult) : Prop where
  inside : ∀ before after, rs = before ++ after → ∀ oss k found,
    run (resume maxSize) (start maxSize) before = .taking oss k found → k ≤ bufferSize
  reports : Along (resume maxSize) (Reports .halted (resume maxSize)) (start maxSize) rs
  result : ∀ o, run (resume maxSize) (start maxSize) rs = .halted o →
    (ConnectionError o ∧ (.closed ∈ rs ∨ .failed ∈ rs)) ∨ ∃ line, o = .returns line

/-- No `recv` fails, and none that takes bytes peeked at returns 0. -/
def SafeCondition (maxSize : Int) (rs : List RecvResult) : Prop :=
  .failed ∉ rs ∧ Along (resume maxSize) (fun st r => ∀ oss k found, st = .taking oss k found →
    r ≠ .closed) (start maxSize) rs

theorem toRead_le (data : Bytes) : toRead data ≤ data.length := by
  unfold toRead
  split
  · rename_i i hi
    exact (List.findIdx?_eq_some_iff_findIdx_eq.1 hi).1
  · exact le_rfl

/-- The second call asks for no more than the buffer holds, and a run that has ended without a failure
has returned a line or reported the end of the connection. -/
def Reading (seen : List RecvResult) : State → Prop
  | .peeking _ => True
  | .taking _ k _ => k ≤ bufferSize
  | .halted o => (o = connectionClosed ∧ .closed ∈ seen) ∨ ∃ line, o = .returns line

theorem reading_loop (maxSize : Int) (seen : List RecvResult) (oss : Bytes) (found : Bool) :
    Reading seen (loop maxSize oss found) := by
  unfold loop
  split_ifs
  · trivial
  · exact Or.inr ⟨_, rfl⟩

theorem reading_resume {maxSize : Int} {seen : List RecvResult} {st : State} {r : RecvResult}
    (h : Reading seen st) (hfits : Fits st r) (hfail : r ≠ .failed) :
    Reading (seen ++ [r]) (resume maxSize st r) := by
  cases st with
  | halted o => exact hfits.elim
  | peeking oss =>
      cases r with
      | received data => exact le_trans (toRead_le data) hfits.2
      | interrupted => trivial
      | closed => exact Or.inl ⟨rfl, by simp⟩
      | failed => exact absurd rfl hfail
      | waits => exact hfits.elim
  | taking oss k found =>
      cases r with
      | received data => exact reading_loop _ _ _ _
      | interrupted => exact h
      | closed => exact reading_loop _ _ _ _
      | failed => exact absurd rfl hfail
      | waits => exact hfits.elim

theorem Results.reading {maxSize : Int} {rs : List RecvResult} (h : Results maxSize rs)
    (hfail : .failed ∉ rs) :
    ∀ before after, rs = before ++ after →
      Reading before (run (resume maxSize) (start maxSize) before) := by
  have hgood : Along (resume maxSize) (fun st r => Fits st r ∧ r ≠ .failed) (start maxSize) rs := by
    intro before r after hrs
    refine ⟨h before r after hrs, fun hr => hfail ?_⟩
    simp [hrs, hr]
  refine history_of_along ?_ (reading_loop maxSize [] [] false) hgood
  intro seen st r hst hr
  exact reading_resume hst hr.1 hr.2

/-- The loop goes on or returns; it reports nothing. -/
theorem loop_ne_error {maxSize : Int} {oss : Bytes} {found : Bool} {o : Outcome Exn Bytes}
    (ho : ConnectionError o) : loop maxSize oss found ≠ .halted o := by
  rcases ho with ⟨msg, rfl⟩
  unfold loop
  split_ifs <;> simp [throwsRedis]

theorem reports_iff {maxSize : Int} {st : State} {r : RecvResult} (hfits : Fits st r) :
    Reports .halted (resume maxSize) st r ↔
      r ≠ .failed ∧ ∀ oss k found, st = .taking oss k found → r ≠ .closed := by
  cases st with
  | halted o => exact hfits.elim
  | peeking oss =>
      cases r with
      | failed =>
          refine iff_of_false ?_ (by simp)
          rintro ⟨-, h⟩
          rcases h (Or.inr rfl) with ⟨o, ⟨msg, rfl⟩, ho⟩
          simp [resume, throwsRedis] at ho
      | closed =>
          refine iff_of_true ⟨by simp, fun _ => ⟨connectionClosed, ⟨_, rfl⟩, rfl⟩⟩ ⟨by simp, by simp⟩
      | received data => simp [Reports]
      | interrupted => simp [Reports, resume]
      | waits => exact hfits.elim
  | taking oss k found =>
      cases r with
      | failed =>
          refine iff_of_false ?_ (by simp)
          rintro ⟨-, h⟩
          rcases h (Or.inr rfl) with ⟨o, ho, hloop⟩
          exact loop_ne_error ho hloop
      | closed =>
          refine iff_of_false ?_ (fun h => h.2 oss k found rfl rfl)
          rintro ⟨-, h⟩
          rcases h (Or.inl rfl) with ⟨o, ho, hloop⟩
          exact loop_ne_error ho hloop
      | received data => simp [Reports]
      | interrupted => simp [Reports, resume]
      | waits => exact hfits.elim

theorem safe_iff {maxSize : Int} {rs : List RecvResult} (h : Results maxSize rs) :
    Safe maxSize rs ↔ SafeCondition maxSize rs := by
  constructor
  · intro hsafe
    refine ⟨?_, ?_⟩
    · intro hmem
      rcases List.append_of_mem hmem with ⟨before, after, hrs⟩
      exact ((reports_iff (h before _ after hrs)).1 (hsafe.reports before _ after hrs)).1 rfl
    · intro before r after hrs
      exact ((reports_iff (h before r after hrs)).1 (hsafe.reports before r after hrs)).2
  · rintro ⟨hfail, hclosed⟩
    have hreading := h.reading hfail
    refine ⟨?_, ?_, ?_⟩
    · intro before after hrs oss k found hst
      have hread := hreading before after hrs
      rwa [hst] at hread
    · intro before r after hrs
      refine (reports_iff (h before r after hrs)).2 ⟨?_, hclosed before r after hrs⟩
      rintro rfl
      exact hfail (by simp [hrs])
    · intro o ho
      have hread := hreading rs [] (by simp)
      rw [ho] at hread
      rcases hread with ⟨rfl, hmem⟩ | hline
      · exact Or.inl ⟨⟨_, rfl⟩, Or.inl hmem⟩
      · exact Or.inr hline

end ReadLine

/-- For all results of `recv`, `_read_n` and `_read_line` keep to their buffers, retry interrupted
calls only, report the first end or failure, and `_read_n` otherwise returns exactly the first `n`
bytes, exactly when the results meet the two conditions. -/
theorem recv_errors_reported_iff (rs : List RecvResult) :
    (∀ n : Nat, ReadN.Results n rs → (ReadN.Safe n rs ↔ ReadN.SafeCondition n rs)) ∧
    ∀ maxSize : Int, ReadLine.Results maxSize rs →
      (ReadLine.Safe maxSize rs ↔ ReadLine.SafeCondition maxSize rs) :=
  ⟨fun _ h => ReadN.safe_iff h, fun _ h => ReadLine.safe_iff h⟩

theorem recv_errors_reported_iff_twoChunks :
    ReadN.Safe (3 : Nat) [.received (text "ab"), .interrupted, .received (text "c")] ↔
      ReadN.SafeCondition (3 : Nat) [.received (text "ab"), .interrupted, .received (text "c")] := by
  refine (recv_errors_reported_iff _).1 3 ?_
  refine along_cons.2 ⟨⟨by decide, by decide⟩, along_cons.2 ⟨trivial, along_cons.2 ⟨?_, along_nil _⟩⟩⟩
  exact ⟨by decide, by decide⟩

/-- A `recv` that fails moves `bp` one byte back, and the next one stores in front of the buffer. -/
theorem failed_recv_not_reported :
    ReadN.Results (2 : Nat) [.failed] ∧ ¬ ReadN.Safe (2 : Nat) [.failed] := by
  have hresults : ReadN.Results (2 : Nat) [.failed] := along_cons.2 ⟨trivial, along_nil _⟩
  refine ⟨hresults, ?_⟩
  rw [ReadN.safe_iff hresults]
  rintro ⟨-, hfail, -⟩
  exact hfail (by simp)

/-! ## The functions run through these states -/

def Rx.size (rx : Rx) : Nat := rx.events.length + rx.incoming.length

/-- What a `recv`, made again while it is interrupted, returns from any socket: nothing yet, or a
result that fits; taking bytes or failing uses up some of what is to come. -/
structure Rx.Answered (rx : Rx) (len : Nat) (peek : Bool) (r : RecvResult × Rx) : Prop where
  sound : r.2.avail ≤ r.2.incoming.length
  answers : r.1 = .waits ∨ r.1 ≠ .interrupted ∧ r.1.Answers len
  size_le : r.2.size ≤ rx.size
  size_lt : r.1 ≠ .waits → (peek = false ∨ r.1.data = []) → r.2.size < rx.size

theorem Rx.deliver_answered (rx : Rx) (h : rx.avail ≤ rx.incoming.length) (len : Nat)
    (peek : Bool) : rx.Answered len peek (rx.deliver len peek) := by
  unfold Rx.deliver
  by_cases hk : min len rx.avail = 0
  · simp only [hk, if_true]
    exact ⟨h, Or.inl rfl, le_rfl, fun hne => absurd rfl hne⟩
  · have hlength : (rx.incoming.take (min len rx.avail)).length = min len rx.avail := by
      rw [List.length_take]
      omega
    have hne : rx.incoming.take (min len rx.avail) ≠ [] := by
      rw [← List.length_pos_iff]
      omega
    simp only [hk, if_false]
    refine ⟨?_, Or.inr ⟨by simp, hne, by omega⟩, ?_, fun _ hused => ?_⟩
    · cases peek with
      | true => exact h
      | false =>
          simp only [Bool.false_eq_true, if_false, List.length_drop]
          omega
    · cases peek <;> simp [Rx.size]
    · rcases hused with rfl | hdata
      · simp only [Rx.size, Bool.false_eq_true, if_false, List.length_drop]
        omega
      · exact absurd hdata hne

/-- An event that is a result by itself is used up. -/
theorem Rx.used_answered {incoming : Bytes} {avail len : Nat} {e : RecvEvent} {es : List RecvEvent}
    {peek : Bool} (h : avail ≤ incoming.length) (r : RecvResult) (hnot : r ≠ .interrupted)
    (hr : r.Answers len) :
    Rx.Answered ⟨incoming, avail, e :: es⟩ len peek (r, ⟨incoming, avail, es⟩) := by
  have hsize : Rx.size ⟨incoming, avail, es⟩ < Rx.size ⟨incoming, avail, e :: es⟩ := by
    simp [Rx.size]
  exact ⟨h, Or.inr ⟨hnot, hr⟩, hsize.le, fun _ _ => hsize⟩

theorem Rx.recvRetry_answered (len : Nat) (peek : Bool) :
    ∀ {fuel : Nat} (rx : Rx), rx.avail ≤ rx.incoming.length → rx.events.length < fuel →
      rx.Answered len peek (Rx.recvRetry len peek fuel rx) := by
  intro fuel
  -- Every interruption uses up an event, so that the fuel lasts as long as they come.
  induction fuel with
  | zero =>
      intro rx _ hfuel
      exact absurd hfuel (Nat.not_lt_zero _)
  | succ fuel ih =>
      intro rx h hfuel
      rcases rx with ⟨incoming, avail, events⟩
      -- A call that delivers may be given another moment of arrival, and no more events.
      have hdeliver : ∀ avail' es, avail' ≤ incoming.length → es.length ≤ events.length →
          Rx.recv ⟨incoming, avail, events⟩ len peek = Rx.deliver ⟨incoming, avail', es⟩ len peek →
          Rx.Answered ⟨incoming, avail, events⟩ len peek
            (Rx.recvRetry len peek (fuel + 1) ⟨incoming, avail, events⟩) := by
        intro avail' es havail hes hrecv
        rw [Rx.recvRetry_of_deliver hrecv]
        rcases Rx.deliver_answered ⟨incoming, avail', es⟩ havail len peek with
          ⟨hsound, hanswers, hle, hlt⟩
        simp only [Rx.size] at hle hlt ⊢
        refine ⟨hsound, hanswers, ?_, fun hne hused => ?_⟩
        · simp only [Rx.size]
          omega
        · have hless := hlt hne hused
          simp only [Rx.size]
          omega
      cases events with
      | nil => exact hdeliver incoming.length [] le_rfl le_rfl rfl
      | cons e es =>
          cases e with
          | arrives n =>
              exact hdeliver (min incoming.length (max 1 (avail + n))) es (Nat.min_le_left _ _)
                (Nat.le_succ _) rfl
          | interrupted =>
              rcases ih ⟨incoming, avail, es⟩ h (by simpa using hfuel) with
                ⟨hsound, hanswers, hle, hlt⟩
              refine ⟨hsound, hanswers, hle.trans ?_, fun hne hused => (hlt hne hused).trans ?_⟩ <;>
                simp [Rx.size]
          | closed => exact Rx.used_answered h .closed (by simp) trivial
          | failed => exact Rx.used_answered h .failed (by simp) trivial

section Functions

variable {σ : Type}

theorem recvRetry_answered (len : Nat) (peek : Bool) (s : Socket × σ)
    (h : s.1.rx.avail ≤ s.1.rx.incoming.length) :
    ∃ r s', recvRetry len peek s = (.returns r, s') ∧ s.1.rx.Answered len peek (r, s'.1.rx) :=
  ⟨_, _, rfl, Rx.recvRetry_answered len peek s.1.rx h (Nat.lt_succ_self _)⟩

/-- The run of the function ends where the machine stands: with its outcome, or waiting. -/
def ReadN.Ends : ReadN.State → Outcome Exn Bytes → Prop
  | .asking _ _, o => o = .halts .blocks
  | .halted o', o => o = o'

def ReadLine.Ends : ReadLine.State → Outcome Exn Bytes → Prop
  | .peeking _, o | .taking _ _ _, o => o = .halts .blocks
  | .halted o', o => o = o'

theorem readNLoop_steps (n : Int) :
    ∀ {fuel : Nat} (bytesRead : Int) (buffer : Bytes) (s : Socket × σ),
      s.1.rx.avail ≤ s.1.rx.incoming.length → s.1.rx.size < fuel →
        ∃ rs, Along (ReadN.resume n) (ReadN.Fits n) (ReadN.loop n bytesRead buffer) rs ∧
          ReadN.Ends (run (ReadN.resume n) (ReadN.loop n bytesRead buffer) rs)
            (readNLoop n fuel bytesRead buffer s).1 := by
  intro fuel
  -- A round that goes on takes bytes or uses up a failure, and either makes the socket smaller.
  induction fuel with
  | zero =>
      intro _ _ s _ hfuel
      exact absurd hfuel (Nat.not_lt_zero _)
  | succ fuel ih =>
      intro bytesRead buffer s hsound hfuel
      by_cases hdone : bytesRead = n
      · refine ⟨[], along_nil _, ?_⟩
        simp [readNLoop, ReadN.loop, hdone, ReadN.Ends]
      · have hloop : ReadN.loop n bytesRead buffer = .asking bytesRead buffer := if_neg hdone
        rw [hloop]
        simp only [readNLoop, hdone, if_false]
        rcases recvRetry_answered (n - bytesRead).toNat false s hsound with ⟨r, s', hrun, hanswered⟩
        rw [Prog.bind_returns hrun]
        rcases hanswered with ⟨hsound', hanswers, -, hlt⟩
        cases r with
        | waits => exact ⟨[], along_nil _, rfl⟩
        | interrupted => exact ⟨[], along_nil _, rfl⟩
        | closed => exact ⟨[.closed], along_cons.2 ⟨trivial, along_nil _⟩, rfl⟩
        -- The -1 is added to the bytes read, and takes a byte off the buffer.
        | failed =>
            have hsize : s'.1.rx.size < s.1.rx.size := hlt (by simp) (Or.inl rfl)
            rcases ih (bytesRead - 1) buffer.dropLast s' hsound' (by omega) with ⟨rs, hrs, hends⟩
            exact ⟨.failed :: rs, along_cons.2 ⟨trivial, hrs⟩, hends⟩
        | received data =>
            have hdata : RecvResult.Answers (n - bytesRead).toNat (.received data) := by
              simpa using hanswers
            by_cases hneg : bytesRead < 0
            · refine ⟨[.received data], along_cons.2 ⟨hdata, along_nil _⟩, ?_⟩
              simp [ReadN.resume, ReadN.Ends, hneg]
            · have hsize : s'.1.rx.size < s.1.rx.size := hlt (by simp) (Or.inl rfl)
              rcases ih (bytesRead + data.length) (buffer ++ data) s' hsound' (by omega) with
                ⟨rs, hrs, hends⟩
              have hstep : ReadN.resume n (.asking bytesRead buffer) (.received data) =
                  ReadN.loop n (bytesRead + data.length) (buffer ++ data) := if_neg hneg
              refine ⟨.received data :: rs, along_cons.2 ⟨hdata, hstep.symm ▸ hrs⟩, ?_⟩
              simp only [hneg, if_false, run_cons, hstep]
              exact hends

/-- Every run of `_read_n` on a socket is a run of the machine. -/
theorem readN_steps (n : Int) (s : Socket × σ) (h : s.1.rx.avail ≤ s.1.rx.incoming.length) :
    ∃ rs, ReadN.Results n rs ∧
      ReadN.Ends (run (ReadN.resume n) (ReadN.start n) rs) (readN n s).1 := by
  unfold ReadN.Results ReadN.start readN
  split_ifs
  · exact ⟨[], along_nil _, rfl⟩
  · exact ⟨[], along_nil _, rfl⟩
  · exact ⟨[], along_nil _, rfl⟩
  · rw [Prog.get_bind]
    exact readNLoop_steps n 0 [] s h (Nat.lt_succ_self _)

/-- The outcome of `_read_line`, from that of its loop. -/
def trimmed : Outcome Exn Bytes → Outcome Exn Bytes
  | .returns line => .returns (rtrim line crlf)
  | .halts h => .halts h

/-- One round of the loop, by what its two calls returned. -/
theorem readLineLoop_round {maxSize : Int} (hmax : 0 < maxSize) {fuel : Nat} {oss data : Bytes}
    {r : RecvResult} {s s' s'' : Socket × σ}
    (hpeek : recvRetry 64 true s = (.returns (.received data), s'))
    (htake : recvRetry (ReadLine.toRead data) false s' = (.returns r, s'')) :
    readLineLoop maxSize (fuel + 1) oss s =
      if r = .waits then (.halts .blocks, s'')
      else if (data.findIdx? (· = lf)).isSome then
        (.returns (oss ++ data.take (ReadLine.toRead data)), s'')
      else readLineLoop maxSize fuel (oss ++ data.take (ReadLine.toRead data)) s'' := by
  simp only [readLineLoop, hmax, not_true_eq_false, if_false]
  rw [Prog.bind_returns hpeek]
  change (recvRetry (ReadLine.toRead data) false >>= _) s' = _
  rw [Prog.bind_returns htake]
  cases hfound : (data.findIdx? (· = lf)).isSome <;> cases r <;> rfl

/-- Without bytes to look at, a round of the loop ends with its first call. -/
theorem readLineLoop_stops {maxSize : Int} (hmax : 0 < maxSize) {fuel : Nat} {oss : Bytes}
    {r : RecvResult} {s s' : Socket × σ} (hpeek : recvRetry 64 true s = (.returns r, s'))
    (hnone : ∀ data, r ≠ .received data) :
    (readLineLoop maxSize (fuel + 1) oss s).1 =
      match r with
      | .closed => connectionClosed
      | .failed => .halts .undefined
      | _ => .halts .blocks := by
  simp only [readLineLoop, hmax, not_true_eq_false, if_false]
  rw [Prog.bind_returns hpeek]
  cases r with
  | received data => exact absurd rfl (hnone data)
  | interrupted => rfl
  | closed => rfl
  | failed => rfl
  | waits => rfl

theorem readLineLoop_stops_steps {maxSize : Int} (hmax : 0 < maxSize) {fuel : Nat} {oss : Bytes}
    {r : RecvResult} {s s' : Socket × σ} (hpeek : recvRetry 64 true s = (.returns r, s'))
    (hnone : ∀ data, r ≠ .received data) :
    ∃ rs, Along (ReadLine.resume maxSize) ReadLine.Fits (.peeking oss) rs ∧
      ReadLine.Ends (run (ReadLine.resume maxSize) (.peeking oss) rs)
        (trimmed (readLineLoop maxSize (fuel + 1) oss s).1) := by
  rw [readLineLoop_stops hmax hpeek hnone]
  cases r with
  | received data => exact absurd rfl (hnone data)
  | interrupted => exact ⟨[], along_nil _, rfl⟩
  | closed => exact ⟨[.closed], along_cons.2 ⟨trivial, along_nil _⟩, rfl⟩
  | failed => exact ⟨[.failed], along_cons.2 ⟨trivial, along_nil _⟩, rfl⟩
  | waits => exact ⟨[], along_nil _, rfl⟩

/-- The second call ends the round, whatever it gives. -/
theorem ReadLine.resume_taking (maxSize : Int) {r : RecvResult} (hwaits : r ≠ .waits)
    (hnot : r ≠ .interrupted) (oss : Bytes) (k : Nat) (found : Bool) :
    ReadLine.resume maxSize (.taking oss k found) r = ReadLine.loop maxSize oss found := by
  cases r <;> first | rfl | exact absurd rfl hwaits | exact absurd rfl hnot

theorem readLineLoop_steps (maxSize : Int) :
    ∀ {fuel : Nat} (oss : Bytes) (s : Socket × σ), s.1.rx.avail ≤ s.1.rx.incoming.length →
      s.1.rx.size < fuel →
        ∃ rs, Along (ReadLine.resume maxSize) ReadLine.Fits (ReadLine.loop maxSize oss false) rs ∧
          ReadLine.Ends (run (ReadLine.resume maxSize) (ReadLine.loop maxSize oss false) rs)
            (trimmed (readLineLoop maxSize fuel oss s).1) := by
  intro fuel
  -- A peek leaves the socket as large as it is; the call after it makes it smaller.
  induction fuel with
  | zero =>
      intro _ s _ hfuel
      exact absurd hfuel (Nat.not_lt_zero _)
  | succ fuel ih =>
      intro oss s hsound hfuel
      by_cases hmax : 0 < maxSize
      · have hloop : ReadLine.loop maxSize oss false = .peeking oss := by
          simp [ReadLine.loop, hmax]
        rw [hloop]
        rcases recvRetry_answered 64 true s hsound with ⟨r, s', hrun, hsound', hanswers, hle, -⟩
        cases r with
        | waits => exact readLineLoop_stops_steps hmax hrun (by simp)
        | interrupted => exact readLineLoop_stops_steps hmax hrun (by simp)
        | closed => exact readLineLoop_stops_steps hmax hrun (by simp)
        | failed => exact readLineLoop_stops_steps hmax hrun (by simp)
        | received data =>
            have hdata : RecvResult.Answers 64 (.received data) := by simpa using hanswers
            rcases recvRetry_answered (ReadLine.toRead data) false s' hsound' with
              ⟨r, s'', hrun', hsound'', hanswers', -, hlt⟩
            rw [readLineLoop_round hmax hrun hrun']
            by_cases hwaits : r = .waits
            · refine ⟨[.received data], along_cons.2 ⟨hdata, along_nil _⟩, ?_⟩
              simp only [hwaits, if_true]
              rfl
            · rcases hanswers'.resolve_left hwaits with ⟨hnot, hr⟩
              have hstep : ReadLine.resume maxSize (ReadLine.resume maxSize (.peeking oss)
                  (.received data)) r = ReadLine.loop maxSize
                    (oss ++ data.take (ReadLine.toRead data)) (data.findIdx? (· = lf)).isSome :=
                ReadLine.resume_taking maxSize hwaits hnot _ _ _
              simp only [hwaits, if_false]
              cases hfound : (data.findIdx? (· = lf)).isSome with
              | true =>
                  refine ⟨[.received data, r], along_cons.2 ⟨hdata, along_cons.2 ⟨hr, along_nil _⟩⟩, ?_⟩
                  rw [run_cons, run_cons, run_nil, hstep, hfound]
                  simp [ReadLine.loop, ReadLine.Ends, trimmed]
              | false =>
                  have hsize : s''.1.rx.size < s'.1.rx.size := hlt hwaits (Or.inl rfl)
                  have hle' : s'.1.rx.size ≤ s.1.rx.size := hle
                  rcases ih (oss ++ data.take (ReadLine.toRead data)) s'' hsound'' (by omega) with
                    ⟨rs, hrs, hends⟩
                  rw [hfound] at hstep
                  refine ⟨.received data :: r :: rs,
                    along_cons.2 ⟨hdata, along_cons.2 ⟨hr, hstep.symm ▸ hrs⟩⟩, ?_⟩
                  rw [run_cons, run_cons, hstep]
                  exact hends
      · refine ⟨[], along_nil _, ?_⟩
        simp [readLineLoop, ReadLine.loop, hmax, ReadLine.Ends, trimmed]

theorem readLine_outcome (maxSize : Int) (s : Socket × σ) :
    (readLine maxSize s).1 = trimmed (readLineLoop maxSize (readFuel s.1.rx) [] s).1 := by
  unfold readLine
  rw [Prog.get_bind]
  rcases hloop : readLineLoop maxSize (readFuel s.1.rx) [] s with ⟨o, s'⟩
  cases o with
  | returns line =>
      rw [Prog.bind_returns hloop]
      rfl
  | halts h =>
      rw [Prog.bind_halts hloop]
      rfl

/-- Every run of `_read_line` on a socket is a run of the machine. -/
theorem readLine_steps (maxSize : Int) (s : Socket × σ)
    (h : s.1.rx.avail ≤ s.1.rx.incoming.length) :
    ∃ rs, ReadLine.Results maxSize rs ∧
      ReadLine.Ends (run (ReadLine.resume maxSize) (ReadLine.start maxSize) rs)
        (readLine maxSize s).1 := by
  rw [readLine_outcome]
  exact readLineLoop_steps maxSize [] s h (Nat.lt_succ_self _)

end Functions

end Redis
end CppPractice
