import Mathlib.Data.Finset.Insert
import CppPractice.Redis.Reader

/-!
# Decode — the reply decoders

The `_recv_*` members of `redis::connection`, with their error texts.  Every one of them takes its
lines from `readLine` and its counted data from `readN`.

`double` values are only ever read from a stream and written to one, so they are an arbitrary type
with these two conversions.
-/

namespace CppPractice
namespace Redis

open Program

/-- A type standing for `double`, with `ostream << double` and `istringstream >> double`. -/
class DoubleFormat (δ : Type) where
  put : δ → Bytes
  get : Bytes → Option δ

structure KeyValue where
  key : Bytes
  val : Bytes
  deriving DecidableEq, Repr

def statusReplyOk : Bytes := text "OK"
def prefixStatusReplyError : Bytes := text "-ERR "

def prefixStatusReplyValue : UInt8 := 43
def prefixSingleBulkReply : UInt8 := 36
def prefixMultiBulkReply : UInt8 := 42
def prefixIntReply : UInt8 := 58

/-- `connection::missing_value` -/
def missingValue : Bytes := text "**nonexistent-key**"

variable {σ : Type}

def protocolError {α : Type} (msg : String) : Conn σ α := redisError (.protocol (text msg))

/-- `value_from_string<T>`, for the stream conversion of `T`. -/
def valueFromString {α : Type} (stream : Bytes → Option α) (data : Bytes) : Conn σ α :=
  match stream data with
  | some value => pure value
  | none => redisError (.value (text "invalid number"))

/-! ## Single lines -/

def recvSingleLineReply : Conn σ Bytes := do
  let line ← readLine
  if line = [] then
    protocolError "empty single line reply"
  else if prefixStatusReplyError.isPrefixOf line then
    let errorMsg := line.drop prefixStatusReplyError.length
    redisError (.protocol (if errorMsg = [] then text "unknown error" else errorMsg))
  else if line.headD nul ≠ prefixStatusReplyValue then
    protocolError "unexpected prefix for status reply"
  else
    pure (line.drop 1)

def recvOkReply : Conn σ Unit := do
  let status ← recvSingleLineReply
  if status ≠ statusReplyOk then
    protocolError "expected OK response"
  else
    pure ()

def recvIntReply : Conn σ Int := do
  let line ← readLine
  if line = [] then
    protocolError "invalid integer reply; empty"
  else if line.headD nul ≠ prefixIntReply then
    protocolError "unexpected prefix for integer reply"
  else
    valueFromString streamLong (line.drop 1)

def recvIntOkReply : Conn σ Unit := do
  let n ← recvIntReply
  if n ≠ 1 then
    protocolError "expecting int reply of 1"
  else
    pure ()

def recvBoolReply : Conn σ Bool := do
  let n ← recvIntReply
  pure (decide (n = 1))

/-- `_recv_double_reply`: the line with the length is only checked for its first character. -/
def recvDoubleReply {δ : Type} [DoubleFormat δ] : Conn σ δ := do
  let line ← readLine
  if line = [] then
    protocolError "invalid double reply; empty"
  else if line.headD nul ≠ prefixSingleBulkReply then
    protocolError "unexpected prefix for double reply"
  else
    let line ← readLine
    if line = [] then
      protocolError "invalid double reply; empty"
    else
      valueFromString DoubleFormat.get line

/-! ## Bulks -/

/-- `_recv_bulk_reply(char prefix)`: the number of a length line. -/
def recvBulkReplyLength (prefixChar : UInt8) : Conn σ Int := do
  let line ← readLine
  -- `line[0]` of an empty string is its terminating NUL
  if line.headD nul ≠ prefixChar then
    protocolError "unexpected prefix for bulk reply"
  else if line = [] then
    -- `line.substr(1)`, for a prefix of NUL
    Prog.throw .outOfRange
  else
    valueFromString streamLong (line.drop 1)

/-- `_recv_bulk_reply()` -/
def recvBulkReply : Conn σ Bytes := do
  let length ← recvBulkReplyLength prefixSingleBulkReply
  if length = -1 then
    pure missingValue
  else if longMax < length + 2 then
    -- `long real_length = length + 2` overflows
    Prog.halt .undefined
  else
    let data ← readN (length + 2)
    if data = [] then
      protocolError "invalid bulk reply data; empty"
    else if (data.length : Int) ≠ length + 2 then
      protocolError "invalid bulk reply data; data of unexpected length"
    else
      pure (data.take (data.length - 2))

/-- `n` rounds of the loop of `_recv_multi_bulk_reply`; `add` is the container's insertion. -/
def recvElements (add : Bytes → σ → σ) : Nat → Conn σ Unit
  | 0 => pure ()
  | n + 1 => do
      let element ← recvBulkReply
      Prog.modify fun s => (s.1, add element s.2)
      recvElements add n

/-- The body of both overloads of `_recv_multi_bulk_reply`. -/
def recvMultiBulkReplyInto (add : Bytes → σ → σ) : Conn σ Int := do
  let length ← recvBulkReplyLength prefixMultiBulkReply
  if length = -1 then
    redisError (.key (text "no such key"))
  else
    recvElements add length.toNat
    pure length

def pushBack (element : Bytes) (out : List Bytes) : List Bytes := out ++ [element]

/-- `_recv_multi_bulk_reply(string_vector &)` -/
def recvMultiBulkReply : Conn (List Bytes) Int := recvMultiBulkReplyInto pushBack

/-- `_recv_multi_bulk_reply(string_set &)` -/
def recvMultiBulkReplySet : Conn (Finset Bytes) Int := recvMultiBulkReplyInto insert

def recvKvReply : Conn σ KeyValue := do
  let (_, out) ← Prog.withLocal [] recvMultiBulkReply
  match out with
  | key :: val :: _ => pure { key := key, val := val }
  | _ => protocolError "unexpected response for key_value"

end Redis
end CppPractice
