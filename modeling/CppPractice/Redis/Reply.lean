import CppPractice.Redis.Decode

/-!
# Reply — the server's replies, and what each decoder makes of them

`Reply.encode` is the wire form of the replies the client knows.  The lemmas below give, for each
decoder and each reply of its kind, the exact outcome of the run and the exact rest of the stream;
they hold for every schedule of arrivals, since they are `Decodes` judgments.
-/

namespace CppPractice
namespace Redis

open Program

/-! ## Replies -/

/-- A bulk, or the null bulk. -/
abbrev Bulk := Option Bytes

inductive Reply
  | status (line : Bytes)
  | error (msg : Bytes)
  | integer (i : Int)
  | bulk (b : Bulk)
  | multiBulk (bs : Option (List Bulk))
  deriving DecidableEq, Repr

/-- A line with a number in it. -/
def numberLine (prefixChar : UInt8) (i : Int) : Bytes := prefixChar :: intText i ++ crlf

def Bulk.encode : Bulk → Bytes
  | some v => numberLine prefixSingleBulkReply v.length ++ v ++ crlf
  | none => numberLine prefixSingleBulkReply (-1)

def encodeBulks (bs : List Bulk) : Bytes := bs.flatMap Bulk.encode

def Reply.encode : Reply → Bytes
  | .status line => prefixStatusReplyValue :: line ++ crlf
  | .error msg => prefixStatusReplyError ++ msg ++ crlf
  | .integer i => numberLine prefixIntReply i
  | .bulk b => b.encode
  | .multiBulk none => numberLine prefixMultiBulkReply (-1)
  | .multiBulk (some bs) => numberLine prefixMultiBulkReply bs.length ++ encodeBulks bs

/-- The text can stand in a line. -/
def OneLine (t : Bytes) : Prop := cr ∉ t ∧ lf ∉ t

instance (t : Bytes) : Decidable (OneLine t) := inferInstanceAs (Decidable (cr ∉ t ∧ lf ∉ t))

/-- Written with the characters of a decimal number. -/
def DecimalText (t : Bytes) : Prop := t ≠ [] ∧ ∀ b ∈ t, isDigit b = true ∨ b ∈ text "+-.eE"

/-- What a decoder is for. -/
inductive Kind
  | status
  | integer
  | bulk
  | multiBulk
  | double
  deriving DecidableEq, Repr

/-- A well-formed reply of the kind, or an error line in its place. -/
def Reply.IsFor : Reply → Kind → Prop
  | .error msg, _ => OneLine msg
  | .status line, .status => OneLine line
  | .integer _, .integer => True
  | .bulk _, .bulk => True
  | .multiBulk _, .multiBulk => True
  | .bulk (some v), .double => DecimalText v
  | .bulk none, .double => True
  | _, _ => False

/-! ## Lines -/

theorem oneLine_intText (i : Int) : OneLine (intText i) := by
  have hne : ∀ b ∈ intText i, b ≠ cr ∧ b ≠ lf := by
    intro b hb
    rcases mem_intText hb with hdigit | rfl
    · exact ⟨(isDigit_spec hdigit).2.2.2.1, (isDigit_spec hdigit).2.2.2.2.1⟩
    · decide
  exact ⟨fun h => (hne _ h).1 rfl, fun h => (hne _ h).2 rfl⟩

theorem DecimalText.oneLine {t : Bytes} (h : DecimalText t) : OneLine t := by
  have hother : OneLine (text "+-.eE") := by decide
  have hne : ∀ b ∈ t, b ≠ cr ∧ b ≠ lf := by
    intro b hb
    rcases h.2 b hb with hdigit | hmem
    · exact ⟨(isDigit_spec hdigit).2.2.2.1, (isDigit_spec hdigit).2.2.2.2.1⟩
    · exact ⟨fun hcr => hother.1 (hcr ▸ hmem), fun hlf => hother.2 (hlf ▸ hmem)⟩
  exact ⟨fun h => (hne _ h).1 rfl, fun h => (hne _ h).2 rfl⟩

theorem OneLine.cons {b : UInt8} {t : Bytes} (h : OneLine t) (hcr : b ≠ cr) (hlf : b ≠ lf) :
    OneLine (b :: t) := by
  refine ⟨?_, ?_⟩
  · simpa using ⟨hcr.symm, h.1⟩
  · simpa using ⟨hlf.symm, h.2⟩

theorem oneLine_append {t u : Bytes} : OneLine (t ++ u) ↔ OneLine t ∧ OneLine u := by
  simp only [OneLine, List.mem_append, not_or]
  tauto

theorem rtrim_line {t : Bytes} (h : OneLine t) : rtrim (t ++ [cr]) crlf = t := by
  have hdrop : rtrim (t ++ [cr]) crlf = rtrim t crlf := by simp [rtrim, crlf]
  rw [hdrop, rtrim, List.rdropWhile_eq_self_iff]
  intro hne hlast
  have hmem := List.getLast_mem hne
  rcases List.mem_cons.1 (of_decide_eq_true hlast) with hcr | hlf
  · exact h.1 (hcr ▸ hmem)
  · exact h.2 (List.mem_singleton.1 hlf ▸ hmem)

variable {σ : Type}

theorem readLine_line {t : Bytes} (h : OneLine t) (rest : Bytes) (out : σ) :
    Decodes (readLine : Conn σ Bytes) (t ++ crlf ++ rest) out (.returns t) rest out := by
  have hlf : lf ∉ t ++ [cr] := by simpa using ⟨h.2, by decide⟩
  have hline := readLine_spec hlf rest out
  rw [rtrim_line h] at hline
  simpa [crlf] using hline

/-! ## Outcomes -/

def OrderlyHalt : Halt Exn → Prop
  | .throws (.redis _) => True
  | _ => False

/-- The run returned, or threw a `redis_error`. -/
def Orderly {α : Type} : Outcome Exn α → Prop
  | .returns _ => True
  | .halts h => OrderlyHalt h

def throwsRedis {α : Type} (e : RedisError) : Outcome Exn α := .halts (.throws (.redis e))

theorem decodes_redisError {α : Type} (e : RedisError) (bs : Bytes) (out : σ) :
    Decodes (redisError e : Conn σ α) bs out (throwsRedis e) bs out :=
  Decodes.throw _

theorem decodes_protocolError {α : Type} (msg : String) (bs : Bytes) (out : σ) :
    Decodes (protocolError msg : Conn σ α) bs out (throwsRedis (.protocol (text msg))) bs out :=
  Decodes.throw _

/-- The outcome of reading the number `i` of a line. -/
def numberOutcome (i : Int) : Outcome Exn Int :=
  if longMin ≤ i ∧ i ≤ longMax then .returns i
  else throwsRedis (.value (text "invalid number"))

theorem valueFromString_intText (i : Int) (bs : Bytes) (out : σ) :
    Decodes (valueFromString streamLong (intText i) : Conn σ Int) bs out (numberOutcome i) bs
      out := by
  unfold valueFromString numberOutcome
  rw [streamLong_intText]
  by_cases h : longMin ≤ i ∧ i ≤ longMax
  · simpa only [if_pos h] using Decodes.pure i
  · simpa only [if_neg h] using decodes_redisError _ bs out

theorem numberOutcome_nat {n : Nat} (h : (n : Int) ≤ longMax) :
    numberOutcome n = .returns (n : Int) := by
  have hmin : longMin ≤ (n : Int) := by
    unfold longMin
    omega
  simp [numberOutcome, hmin, h]

theorem numberOutcome_large {n : Nat} (h : longMax < (n : Int)) :
    numberOutcome n = throwsRedis (.value (text "invalid number")) := by
  simp [numberOutcome, not_le.2 h]

theorem numberOutcome_null : numberOutcome (-1) = .returns (-1) := by
  decide

/-! ## Single lines -/

theorem readLine_error {msg : Bytes} (h : OneLine msg) (rest : Bytes) (out : σ) :
    Decodes (readLine : Conn σ Bytes) ((Reply.error msg).encode ++ rest) out
      (.returns (prefixStatusReplyError ++ msg)) rest out :=
  readLine_line (oneLine_append.2 ⟨by decide, h⟩) rest out

theorem recvSingleLineReply_status {line : Bytes} (h : OneLine line) (rest : Bytes) (out : σ) :
    Decodes (recvSingleLineReply : Conn σ Bytes) ((Reply.status line).encode ++ rest) out
      (.returns line) rest out := by
  refine (readLine_line (h.cons (by decide) (by decide)) rest out).bind ?_
  -- `+` and `-` differ, so no status line is taken for an error.
  have herr : prefixStatusReplyError.isPrefixOf (prefixStatusReplyValue :: line) = false := rfl
  simpa [herr] using Decodes.pure line

theorem recvSingleLineReply_error {msg : Bytes} (h : OneLine msg) (rest : Bytes) (out : σ) :
    Decodes (recvSingleLineReply : Conn σ Bytes) ((Reply.error msg).encode ++ rest) out
      (throwsRedis (.protocol (if msg = [] then text "unknown error" else msg))) rest out := by
  refine (readLine_error h rest out).bind ?_
  have herr : prefixStatusReplyError.isPrefixOf (prefixStatusReplyError ++ msg) = true := by
    simp
  have hne : prefixStatusReplyError ++ msg ≠ [] := by simp [prefixStatusReplyError, text]
  simpa [hne, herr] using decodes_redisError _ rest out

theorem recvIntReply_integer (i : Int) (rest : Bytes) (out : σ) :
    Decodes (recvIntReply : Conn σ Int) ((Reply.integer i).encode ++ rest) out (numberOutcome i)
      rest out := by
  refine (readLine_line ((oneLine_intText i).cons (by decide) (by decide)) rest out).bind ?_
  simpa using valueFromString_intText i rest out

theorem recvIntReply_error {msg : Bytes} (h : OneLine msg) (rest : Bytes) (out : σ) :
    Decodes (recvIntReply : Conn σ Int) ((Reply.error msg).encode ++ rest) out
      (throwsRedis (.protocol (text "unexpected prefix for integer reply"))) rest out := by
  refine (readLine_error h rest out).bind ?_
  exact decodes_redisError _ rest out

theorem recvBulkReplyLength_number {c : UInt8} (hcr : c ≠ cr) (hlf : c ≠ lf) (i : Int)
    (rest : Bytes) (out : σ) :
    Decodes (recvBulkReplyLength c : Conn σ Int) (numberLine c i ++ rest) out (numberOutcome i)
      rest out := by
  refine (readLine_line ((oneLine_intText i).cons hcr hlf) rest out).bind ?_
  simpa using valueFromString_intText i rest out

theorem recvBulkReplyLength_error {c : UInt8} (hc : c ≠ minus) {msg : Bytes} (h : OneLine msg)
    (rest : Bytes) (out : σ) :
    Decodes (recvBulkReplyLength c : Conn σ Int) ((Reply.error msg).encode ++ rest) out
      (throwsRedis (.protocol (text "unexpected prefix for bulk reply"))) rest out := by
  refine (readLine_error h rest out).bind ?_
  -- The line begins with `-`, the prefix of neither kind of bulk.
  have hhead : (prefixStatusReplyError ++ msg).headD nul = minus := rfl
  simp only [hhead, ne_eq, hc.symm, not_false_eq_true, if_true]
  exact decodes_redisError _ rest out

/-! ## Bulks -/

/-- The outcome of reading the bulk `v`: a NUL cuts the C string short. -/
def bulkOutcome (v : Bytes) : Outcome Exn Bytes :=
  if nul ∉ v then .returns v
  else if v.head? = some nul then
    throwsRedis (.protocol (text "invalid bulk reply data; empty"))
  else
    throwsRedis (.protocol (text "invalid bulk reply data; data of unexpected length"))

theorem orderly_bulkOutcome (v : Bytes) : Orderly (bulkOutcome v) := by
  unfold bulkOutcome
  split
  · trivial
  · split <;> trivial

theorem ofCString_eq_self_iff {bs : Bytes} : ofCString bs = bs ↔ nul ∉ bs := by
  rw [ofCString, List.takeWhile_eq_self_iff]
  simp only [ne_eq, decide_not, Bool.not_eq_eq_eq_not, Bool.not_true, decide_eq_false_iff_not]
  exact ⟨fun h hmem => h nul hmem rfl, fun h b hb hnul => h (hnul ▸ hb)⟩

theorem ofCString_eq_nil_iff {v t : Bytes} (ht : t ≠ []) (htnul : nul ∉ t) :
    ofCString (v ++ t) = [] ↔ v.head? = some nul := by
  rw [ofCString, List.takeWhile_eq_nil_iff]
  cases v with
  | nil =>
      rcases List.exists_cons_of_ne_nil ht with ⟨b, u, rfl⟩
      have hb : b ≠ nul := fun h => htnul (by simp [h])
      simp [hb]
  | cons b v => simp

theorem recvBulkReply_null (rest : Bytes) (out : σ) :
    Decodes (recvBulkReply : Conn σ Bytes) (Bulk.encode none ++ rest) out (.returns missingValue)
      rest out := by
  have hnumber := recvBulkReplyLength_number (c := prefixSingleBulkReply) (by decide) (by decide)
    (-1) rest out
  rw [numberOutcome_null] at hnumber
  exact hnumber.bind (Decodes.pure _)

theorem recvBulkReply_error {msg : Bytes} (h : OneLine msg) (rest : Bytes) (out : σ) :
    Decodes (recvBulkReply : Conn σ Bytes) ((Reply.error msg).encode ++ rest) out
      (throwsRedis (.protocol (text "unexpected prefix for bulk reply"))) rest out :=
  (recvBulkReplyLength_error (by decide) h rest out).bind_halts

theorem Bulk.encode_some_append (v rest : Bytes) :
    Bulk.encode (some v) ++ rest =
      numberLine prefixSingleBulkReply v.length ++ (v ++ crlf ++ rest) := by
  simp [Bulk.encode]

/-- The length line of the bulk `v`, when it is in the range of `long`. -/
theorem recvBulkReplyLength_bulk {v : Bytes} (h : (v.length : Int) ≤ longMax) (rest : Bytes)
    (out : σ) :
    Decodes (recvBulkReplyLength prefixSingleBulkReply : Conn σ Int)
      (Bulk.encode (some v) ++ rest) out (.returns v.length) (v ++ crlf ++ rest) out := by
  have hnumber := recvBulkReplyLength_number (c := prefixSingleBulkReply) (by decide) (by decide)
    v.length (v ++ crlf ++ rest) out
  rw [numberOutcome_nat h] at hnumber
  rw [Bulk.encode_some_append]
  exact hnumber

theorem recvBulkReply_some {v : Bytes} (hfits : (v.length : Int) + 2 < longMax) (rest : Bytes)
    (out : σ) :
    Decodes (recvBulkReply : Conn σ Bytes) (Bulk.encode (some v) ++ rest) out (bulkOutcome v)
      rest out := by
  refine (recvBulkReplyLength_bulk (by omega) rest out).bind ?_
  have hnull : (v.length : Int) ≠ -1 := by omega
  have hover : ¬ longMax < (v.length : Int) + 2 := by omega
  have hlen : ((v ++ crlf).length : Int) = v.length + 2 := by simp [crlf]
  simp only [hnull, hover, if_false]
  -- All `length + 2` bytes are taken before anything is checked, so the framing is kept.
  refine (readN_spec hlen.symm hfits rest out).bind ?_
  have hcrlf : nul ∉ crlf := by decide
  have hnil := ofCString_eq_nil_iff (v := v) (t := crlf) (by decide) hcrlf
  by_cases hv : nul ∈ v
  · -- The C string is shorter than the data, so one of the two checks fails.
    have hne : ofCString (v ++ crlf) ≠ v ++ crlf := by
      rw [ne_eq, ofCString_eq_self_iff]
      simp [hv]
    have hshort : ((ofCString (v ++ crlf)).length : Int) ≠ v.length + 2 := by
      rw [← hlen]
      intro hlen'
      exact hne ((List.takeWhile_prefix _).eq_of_length (by exact_mod_cast hlen'))
    by_cases hhead : v.head? = some nul
    · simpa [bulkOutcome, hv, hhead, hnil.2 hhead] using decodes_protocolError _ rest out
    · have hcons : ofCString (v ++ crlf) ≠ [] := fun h => hhead (hnil.1 h)
      simpa [bulkOutcome, hv, hhead, hcons, hshort] using decodes_protocolError _ rest out
  · have hself : ofCString (v ++ crlf) = v ++ crlf := by
      rw [ofCString_eq_self_iff]
      simp [hv, hcrlf]
    have hcons : v ++ crlf ≠ [] := by simp [crlf]
    have hret : (v ++ crlf).take ((v ++ crlf).length - 2) = v := by simp [crlf]
    rw [hself]
    simp only [hcons, hlen, if_false, ne_eq, not_true_eq_false, hret, bulkOutcome, hv,
      not_false_eq_true, if_true]
    exact Decodes.pure v

/-- A length above `LONG_MAX` is refused, and the data stays unread. -/
theorem recvBulkReply_large {v : Bytes} (h : longMax < (v.length : Int)) (rest : Bytes) (out : σ) :
    Decodes (recvBulkReply : Conn σ Bytes) (Bulk.encode (some v) ++ rest) out
      (throwsRedis (.value (text "invalid number"))) (v ++ crlf ++ rest) out := by
  have hnumber := recvBulkReplyLength_number (c := prefixSingleBulkReply) (by decide) (by decide)
    v.length (v ++ crlf ++ rest) out
  rw [numberOutcome_large h] at hnumber
  rw [Bulk.encode_some_append]
  exact hnumber.bind_halts

/-- A length of `LONG_MAX - 2` or more overflows when 2 is added to it, or when the array takes one
byte more than that. -/
theorem recvBulkReply_overflow {v : Bytes} (hle : (v.length : Int) ≤ longMax)
    (h : longMax ≤ (v.length : Int) + 2) (rest : Bytes) (out : σ) :
    Decodes (recvBulkReply : Conn σ Bytes) (Bulk.encode (some v) ++ rest) out (.halts .undefined)
      (v ++ crlf ++ rest) out := by
  refine (recvBulkReplyLength_bulk hle rest out).bind ?_
  have hnull : (v.length : Int) ≠ -1 := by omega
  simp only [hnull, if_false]
  by_cases hsum : longMax < (v.length : Int) + 2
  · simp only [hsum, if_true]
    exact Decodes.halt _
  · have harray : longMax < (v.length : Int) + 2 + 1 := by omega
    simp only [hsum, if_false]
    refine Decodes.bind_halts ?_
    simp only [readN, harray, if_true]
    exact Decodes.halt _

end Redis
end CppPractice
