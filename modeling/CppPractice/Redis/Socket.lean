import Mathlib.Data.Int.ModEq
import CppPractice.Lib.Program
import CppPractice.Redis.Bytes

/-!
# Socket — the connection's file descriptor

The socket of a `redis::connection` as the client sees it: a byte stream in each direction, and for
either direction the results the kernel is going to give.

* `Rx` is the receiving half.  `incoming` holds the bytes the server has sent that the client has
  not taken yet, the first `avail` of them already in the kernel's buffer; each `recv` consumes one
  `RecvEvent`, and when the list is used up every byte is there and nothing fails any more.
* `Tx` is the sending half, with the bytes accepted by `write`, the messages handed to `_send`, and
  the server's side of the conversation: how many commands it makes of a message, and the answers it
  is going to give to the next commands.

`recvRetry` is the `do … while (errno == EINTR)` around each `recv` of the source, `anetWrite` the
function of `anet.c`.
-/

namespace CppPractice
namespace Redis

open Program

/-! ## `int` -/

/-- The conversion of a `size_t` to `int`. -/
@[irreducible] def toInt (n : Nat) : Int := Int.bmod n (2 ^ 32)

theorem toInt_of_lt {n : Nat} (h : n < 2 ^ 31) : toInt n = n := by
  unfold toInt
  exact Int.bmod_eq_of_le_mul_two (by omega) (by omega)

theorem toInt_lt (n : Nat) : toInt n < 2 ^ 31 := by
  have h := Int.bmod_lt (x := n) (m := 2 ^ 32) (by decide)
  unfold toInt
  omega

/-- The conversion of an `int` to `size_t`. -/
def sizeT (n : Int) : Nat := (n % 2 ^ 64).toNat

/-! ## Exceptions -/

/-- The subclasses of `redis_error`, with their message. -/
inductive RedisError
  | connection (msg : Bytes)
  | protocol (msg : Bytes)
  | key (msg : Bytes)
  | value (msg : Bytes)
  deriving DecidableEq, Repr

/-- Everything the client code may throw; the last two come from the standard library. -/
inductive Exn
  | redis (e : RedisError)
  | outOfRange
  | badArrayNewLength
  deriving DecidableEq, Repr

/-! ## The receiving half -/

inductive RecvEvent
  | arrives (n : Nat)
  | interrupted
  | closed
  | failed
  deriving DecidableEq, Repr

/-- The event is one of a working connection: bytes, or a signal. -/
def RecvEvent.Delivers : RecvEvent → Prop
  | .arrives _ | .interrupted => True
  | .closed | .failed => False

inductive RecvResult
  | received (data : Bytes)
  | interrupted
  | closed
  | failed
  | waits
  deriving DecidableEq, Repr

structure Rx where
  incoming : Bytes
  avail : Nat
  events : List RecvEvent
  deriving DecidableEq, Repr

/-- Give up to `len` of the bytes that have arrived; `MSG_PEEK` leaves them in the socket. -/
def Rx.deliver (rx : Rx) (len : Nat) (peek : Bool) : RecvResult × Rx :=
  let k := min len rx.avail
  if k = 0 then
    (.waits, rx)
  else
    (.received (rx.incoming.take k),
      if peek then rx else { rx with incoming := rx.incoming.drop k, avail := rx.avail - k })

/-- `recv(_socket, buffer, len, peek ? MSG_PEEK : 0)` on the blocking socket. -/
def Rx.recv (rx : Rx) (len : Nat) (peek : Bool) : RecvResult × Rx :=
  match rx.events with
  | [] => Rx.deliver { rx with avail := rx.incoming.length } len peek
  -- the call sleeps until at least one byte is there
  | .arrives n :: es =>
      Rx.deliver { rx with events := es, avail := min rx.incoming.length (max 1 (rx.avail + n)) }
        len peek
  | .interrupted :: es => (.interrupted, { rx with events := es })
  | .closed :: es => (.closed, { rx with events := es })
  | .failed :: es => (.failed, { rx with events := es })

/-- `do n = recv(…); while (n < 0 && errno == EINTR);` -/
def Rx.recvRetry (len : Nat) (peek : Bool) : Nat → Rx → RecvResult × Rx
  | 0, rx => (.waits, rx)
  | fuel + 1, rx =>
      match rx.recv len peek with
      | (.interrupted, rx') => Rx.recvRetry len peek fuel rx'
      | r => r

/-! ## The sending half -/

inductive WriteEvent
  | accepts (n : Nat)
  | zero
  | failed (strerror : Bytes)
  deriving DecidableEq, Repr

def WriteEvent.Accepts : WriteEvent → Prop
  | .accepts _ => True
  | .zero | .failed _ => False

inductive WriteResult
  | wrote (n : Nat)
  | failed (strerror : Bytes)
  deriving DecidableEq, Repr

structure Tx where
  written : Bytes
  events : List WriteEvent
  sent : List Bytes
  commandsIn : Bytes → Nat
  answers : List Bytes

/-- However much is offered to `write`, it takes less than `2 ^ 31` bytes at once. -/
def writeMax : Nat := 2 ^ 31 - 1

/-- The kernel takes `k` of the bytes at `buf`, if there are so many. -/
def Tx.takes (tx : Tx) (buf : Bytes) (k : Nat) (es : List WriteEvent) : Option (WriteResult × Tx) :=
  if k ≤ buf.length then some (.wrote k, { tx with events := es, written := tx.written ++ buf.take k })
  else none

/-- `write(fd, buf, len)`: the kernel takes a prefix of what is offered.  Where `len` goes past the bytes
at `buf` and the kernel takes more than these, it reads outside the message. -/
def Tx.write (tx : Tx) (buf : Bytes) (len : Nat) : Option (WriteResult × Tx) :=
  match tx.events with
  | [] => tx.takes buf (min len writeMax) []
  -- a partial write takes at least one byte
  | .accepts n :: es => tx.takes buf (min (min len writeMax) (max 1 n)) es
  | .zero :: es => some (.wrote 0, { tx with events := es })
  | .failed m :: es => some (.failed m, { tx with events := es })

/-! ## The socket and the programs over it -/

structure Socket where
  rx : Rx
  tx : Tx

/-- A member function of `connection`, with the caller's containers it may change. -/
abbrev Conn (σ α : Type) := Prog Exn (Socket × σ) α

section Programs

variable {σ : Type}

def redisError {α : Type} (e : RedisError) : Conn σ α := Prog.throw (.redis e)

def recvRetry (len : Nat) (peek : Bool) : Conn σ RecvResult := fun s =>
  let r := Rx.recvRetry len peek (s.1.rx.events.length + 1) s.1.rx
  (.returns r.1, ({ s.1 with rx := r.2 }, s.2))

def write (buf : Bytes) (len : Nat) : Conn σ WriteResult := fun s =>
  match s.1.tx.write buf len with
  | some r => (.returns r.1, ({ s.1 with tx := r.2 }, s.2))
  | none => (.halts .undefined, s)

/-- The loop of `anetWrite`; `buf` is what the advancing pointer still points at. -/
def anetWriteLoop (count : Int) : Nat → Int → Bytes → Conn σ (Except Bytes Int)
  | 0, _, _ => Prog.halt .undefined
  | fuel + 1, totlen, buf =>
      if totlen = count then
        pure (.ok totlen)
      -- `count-totlen` is no `int`; where `totlen` itself is none this comes first
      else if count - totlen < -2 ^ 31 then
        Prog.halt .undefined
      else do
        match ← write buf (sizeT (count - totlen)) with
        -- `if (nwritten == 0) return totlen;`, which `_send` takes for success
        | .wrote 0 => pure (.ok totlen)
        | .wrote n => anetWriteLoop count fuel (totlen + n) (buf.drop n)
        | .failed strerror => pure (.error strerror)

/-- `anetWrite(fd, buf, count)`; the error result stands for `-1` with its `errno`. -/
def anetWrite (buf : Bytes) (count : Int) : Conn σ (Except Bytes Int) :=
  (anetWriteLoop count (buf.length + 1) 0 buf).meaningful

/-- The server gets the message and answers each command it finds in it. -/
def Socket.serve (s : Socket) (msg : Bytes) : Socket :=
  let n := s.tx.commandsIn msg
  { rx := { s.rx with incoming := s.rx.incoming ++ (s.tx.answers.take n).flatten }
    tx := { s.tx with answers := s.tx.answers.drop n } }

/-- The server reacts once all the bytes of `msg` have been written after the bytes `before`. -/
def serverReacts (before msg : Bytes) : Conn σ Unit :=
  Prog.modify fun s => if s.1.tx.written = before ++ msg then (s.1.serve msg, s.2) else s

/-- Keeps track of the messages handed to `_send`. -/
def logSent (msg : Bytes) : Conn σ Unit :=
  Prog.modify fun s => ({ s.1 with tx := { s.1.tx with sent := s.1.tx.sent ++ [msg] } }, s.2)

/-- `connection::_send` -/
def send (msg : Bytes) : Conn σ Unit := do
  logSent msg
  let before := (← Prog.get).1.tx.written
  match ← anetWrite msg (toInt msg.length) with
  | .error strerror => redisError (.connection strerror)
  | .ok _ => serverReacts before msg

end Programs

/-! ## Working connections -/

/-- Nothing but bytes and signals is coming. -/
structure Rx.Healthy (rx : Rx) : Prop where
  delivers : ∀ e ∈ rx.events, e.Delivers
  avail_le : rx.avail ≤ rx.incoming.length

/-- Every `write` is going to take at least one byte. -/
def Tx.Healthy (tx : Tx) : Prop := ∀ e ∈ tx.events, e.Accepts

/-- `r` hands out the first `k` bytes of `rx`: at least one, at most `len`, and no fewer than had
already arrived. -/
structure Rx.Delivery (rx : Rx) (len : Nat) (peek : Bool) (r : RecvResult × Rx) (k : Nat) :
    Prop where
  pos : 0 < k
  le_len : k ≤ len
  le_incoming : k ≤ rx.incoming.length
  arrived : min len rx.avail ≤ k
  result : r.1 = .received (rx.incoming.take k)
  healthy : r.2.Healthy
  incoming : r.2.incoming = if peek then rx.incoming else rx.incoming.drop k
  peeked : peek = true → k ≤ r.2.avail

theorem Rx.deliver_spec (rx : Rx) (h : rx.Healthy) {len : Nat} (hlen : 0 < len)
    (havail : 0 < rx.avail) (peek : Bool) :
    ∃ k, rx.Delivery len peek (rx.deliver len peek) k := by
  have hle := h.avail_le
  -- Bytes have arrived, so the call does not wait.
  have hk : min len rx.avail ≠ 0 := by omega
  refine ⟨min len rx.avail, by omega, by omega, by omega, le_rfl, ?_, ?_, ?_, ?_⟩
  · simp [Rx.deliver, hk]
  · cases peek with
    | true => simpa [Rx.deliver, hk] using h
    | false =>
        simp only [Rx.deliver, hk, if_false]
        refine ⟨h.delivers, ?_⟩
        simp only [List.length_drop, Bool.false_eq_true, if_false]
        omega
  · cases peek <;> simp [Rx.deliver, hk]
  · intro hpeek
    simp [Rx.deliver, hk, hpeek]

/-- A `recv` that delivers is not retried. -/
theorem Rx.recvRetry_of_deliver {rx rx' : Rx} {len : Nat} {peek : Bool} {fuel : Nat}
    (h : rx.recv len peek = rx'.deliver len peek) :
    Rx.recvRetry len peek (fuel + 1) rx = rx'.deliver len peek := by
  have hne : (rx'.deliver len peek).1 ≠ .interrupted := by
    unfold Rx.deliver
    by_cases hk : min len rx'.avail = 0 <;> simp [hk]
  rw [← h] at hne ⊢
  rcases hrecv : rx.recv len peek with ⟨r, rx''⟩
  rw [hrecv] at hne
  cases r with
  | interrupted => exact absurd rfl hne
  | received data => simp [Rx.recvRetry, hrecv]
  | closed => simp [Rx.recvRetry, hrecv]
  | failed => simp [Rx.recvRetry, hrecv]
  | waits => simp [Rx.recvRetry, hrecv]

/-- On a working connection with bytes under way `recv`, retried on `EINTR`, returns some. -/
theorem Rx.recvRetry_spec {len : Nat} (hlen : 0 < len) (peek : Bool) :
    ∀ {fuel : Nat} (rx : Rx), rx.Healthy → rx.incoming ≠ [] → rx.events.length < fuel →
      ∃ k, rx.Delivery len peek (Rx.recvRetry len peek fuel rx) k := by
  intro fuel
  -- Each retry uses up one event, so there is fuel for all the signals that may come first.
  induction fuel with
  | zero =>
      intro rx _ _ hfuel
      exact absurd hfuel (Nat.not_lt_zero _)
  | succ fuel ih =>
      intro rx h hne hfuel
      rcases rx with ⟨incoming, avail, events⟩
      have hlength : 0 < incoming.length := List.length_pos_iff.2 hne
      have havail : avail ≤ incoming.length := h.avail_le
      -- Both ways of delivering differ only in how many bytes have arrived by then.
      have key : ∀ avail' es, (∀ e ∈ es, e.Delivers) → 0 < avail' → avail ≤ avail' →
          avail' ≤ incoming.length →
          Rx.recv ⟨incoming, avail, events⟩ len peek =
            Rx.deliver ⟨incoming, avail', es⟩ len peek →
          ∃ k, Rx.Delivery ⟨incoming, avail, events⟩ len peek
            (Rx.recvRetry len peek (fuel + 1) ⟨incoming, avail, events⟩) k := by
        intro avail' es hes hpos hle hle' hrecv
        rw [Rx.recvRetry_of_deliver hrecv]
        rcases Rx.deliver_spec ⟨incoming, avail', es⟩ ⟨hes, hle'⟩ hlen hpos peek with
          ⟨k, hk⟩
        exact ⟨k, { hk with arrived := le_trans (min_le_min_left len hle) hk.arrived }⟩
      cases events with
      | nil => exact key incoming.length [] (by simp) hlength havail le_rfl rfl
      | cons e es =>
          have htail : ∀ e ∈ es, e.Delivers := fun e he => h.delivers e (List.mem_cons_of_mem _ he)
          cases e with
          | arrives n =>
              exact key (min incoming.length (max 1 (avail + n))) es htail (by omega) (by omega)
                (Nat.min_le_left _ _) rfl
          | interrupted =>
              -- A signal takes nothing from the stream, and the loop goes round again.
              rcases ih ⟨incoming, avail, es⟩ ⟨htail, havail⟩ hne
                (by simpa using hfuel) with ⟨k, hk⟩
              exact ⟨k, { hk with }⟩
          | closed => exact (h.delivers .closed (by simp)).elim
          | failed => exact (h.delivers .failed (by simp)).elim

/-- With nothing under way `recv` waits. -/
theorem Rx.recvRetry_waits (len : Nat) (peek : Bool) :
    ∀ {fuel : Nat} {rx : Rx}, rx.Healthy → rx.incoming = [] → rx.events.length < fuel →
      (Rx.recvRetry len peek fuel rx).1 = .waits ∧
        (Rx.recvRetry len peek fuel rx).2.Healthy ∧
        (Rx.recvRetry len peek fuel rx).2.incoming = [] := by
  intro fuel
  induction fuel with
  | zero =>
      intro rx _ _ hfuel
      exact absurd hfuel (Nat.not_lt_zero _)
  | succ fuel ih =>
      intro rx h hnil hfuel
      rcases rx with ⟨incoming, avail, events⟩
      simp only at hnil
      subst hnil
      cases events with
      | nil => simpa [Rx.recvRetry, Rx.recv, Rx.deliver] using Rx.Healthy.mk (by simp) (by simp)
      | cons e es =>
          have htail : ∀ e ∈ es, e.Delivers := fun e he => h.delivers e (List.mem_cons_of_mem _ he)
          cases e with
          | arrives n =>
              simpa [Rx.recvRetry, Rx.recv, Rx.deliver] using Rx.Healthy.mk htail (by simp)
          | interrupted => exact ih ⟨htail, h.avail_le⟩ rfl (by simpa using hfuel)
          | closed => exact (h.delivers .closed (by simp)).elim
          | failed => exact (h.delivers .failed (by simp)).elim

end Redis
end CppPractice
