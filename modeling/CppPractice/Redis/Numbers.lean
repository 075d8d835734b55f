import CppPractice.Redis.Framing

/-!
# Numbers — header lines and the lengths in them

What the client makes of a line that should hold a number, and of the number itself when it is the
length of a bulk or the count of a multi-bulk.

* `Numeral t i` is the grammar of the protocol: an optionally signed decimal integer of the range of
  `long`.  `istringstream >>` reads more than that, since it skips white space and leaves what comes
  after the digits in the stream; `Bare` is what keeps the two apart.
* `recvBulkBody` is the part of `_recv_bulk_reply()` after its header, over any `_read_n`.
-/

namespace CppPractice
namespace Redis

open Program

/-! ## The grammar -/

def Digits (ds : Bytes) : Prop := ds ≠ [] ∧ ∀ b ∈ ds, isDigit b = true

def InLong (i : Int) : Prop := longMin ≤ i ∧ i ≤ longMax

/-- The text of an optionally signed decimal integer in the range of `long`. -/
inductive Numeral : Bytes → Int → Prop
  | unsigned {ds : Bytes} : Digits ds → InLong (digitsValue ds) → Numeral ds (digitsValue ds)
  | plus {ds : Bytes} : Digits ds → InLong (digitsValue ds) → Numeral (plus :: ds) (digitsValue ds)
  | minus {ds : Bytes} :
      Digits ds → InLong (-(digitsValue ds)) → Numeral (minus :: ds) (-(digitsValue ds))

/-- The text does not begin with a digit. -/
def StopsDigits (t : Bytes) : Prop := ∀ b u, t = b :: u → isDigit b = false

/-- When `t` is a numeral between white space and other text, it is the numeral alone. -/
def Bare (t : Bytes) : Prop :=
  ∀ ws num tail i, t = ws ++ num ++ tail → (∀ b ∈ ws, isSpace b = true) → Numeral num i →
    StopsDigits tail → ws = [] ∧ tail = []

theorem longOfDigits_eq_some_iff {negative : Bool} {ds : Bytes} {i : Int} :
    longOfDigits negative ds = some i ↔
      ds ≠ [] ∧ i = (if negative then -(digitsValue ds : Int) else digitsValue ds) ∧ InLong i := by
  unfold longOfDigits InLong
  by_cases hnil : ds = []
  · simp [hnil]
  · simp only [hnil, if_false, ne_eq, not_false_eq_true, true_and]
    generalize (if negative = true then -(digitsValue ds : Int) else digitsValue ds) = v
    by_cases hrange : longMin ≤ v ∧ v ≤ longMax
    · rw [if_pos hrange, Option.some_inj]
      exact ⟨fun h => ⟨h.symm, h ▸ hrange⟩, fun h => h.1.symm⟩
    · rw [if_neg hrange]
      refine iff_of_false (by simp) ?_
      rintro ⟨rfl, h⟩
      exact hrange h

theorem takeWhile_digits {ds tail : Bytes} (hds : Digits ds) (htail : StopsDigits tail) :
    (ds ++ tail).takeWhile isDigit = ds := by
  rw [List.takeWhile_append_of_pos hds.2]
  cases tail with
  | nil => simp
  | cons b u => simp [htail b u rfl]

theorem stopsDigits_dropWhile (t : Bytes) : StopsDigits (t.dropWhile isDigit) := by
  intro b u h
  have hhead := List.head_dropWhile_not isDigit (l := t) (by simp [h])
  simpa [h] using hhead

/-- A numeral does not begin with white space. -/
theorem Numeral.head {t : Bytes} {i : Int} (h : Numeral t i) :
    ∃ b u, t = b :: u ∧ isSpace b = false := by
  cases h with
  | unsigned hds _ =>
      rcases List.exists_cons_of_ne_nil hds.1 with ⟨b, u, rfl⟩
      exact ⟨b, u, rfl, (isDigit_spec (hds.2 b (by simp))).1⟩
  | plus _ _ => exact ⟨_, _, rfl, by decide⟩
  | minus _ _ => exact ⟨_, _, rfl, by decide⟩

/-- What `>>` reads once the white space is skipped. -/
theorem streamLong_numeral {num tail : Bytes} {i : Int} (h : Numeral num i)
    (htail : StopsDigits tail) {ws : Bytes} (hws : ∀ b ∈ ws, isSpace b = true) :
    streamLong (ws ++ num ++ tail) = some i := by
  rcases h.head with ⟨b, u, hnum, hspace⟩
  have hskip : (ws ++ num ++ tail).dropWhile isSpace = num ++ tail := by
    rw [List.append_assoc, List.dropWhile_append_of_pos hws, hnum]
    simp [hspace]
  unfold streamLong
  rw [hskip]
  cases h with
  | unsigned hds hrange =>
      have hfirst : isDigit b = true := hds.2 b (by simp [hnum])
      rcases isDigit_spec hfirst with ⟨-, hminus, hplus, -⟩
      have hread := takeWhile_digits hds htail
      rw [hnum] at hread ⊢
      simp only [List.cons_append, hminus, hplus, if_false]
      rw [← List.cons_append, hread, longOfDigits_eq_some_iff]
      exact ⟨by simp, by simp, hnum ▸ hrange⟩
  | plus hds hrange =>
      have hne : plus ≠ minus := by decide
      simp only [List.cons_append, hne, if_false, if_true]
      rw [takeWhile_digits hds htail, longOfDigits_eq_some_iff]
      exact ⟨hds.1, rfl, hrange⟩
  | minus hds hrange =>
      simp only [List.cons_append, if_true]
      rw [takeWhile_digits hds htail, longOfDigits_eq_some_iff]
      exact ⟨hds.1, rfl, hrange⟩

/-- Whatever `>>` accepts is a numeral, with white space before it and other text after it. -/
theorem numeral_of_streamLong {t : Bytes} {i : Int} (h : streamLong t = some i) :
    ∃ ws num tail, t = ws ++ num ++ tail ∧ (∀ b ∈ ws, isSpace b = true) ∧ Numeral num i ∧
      StopsDigits tail := by
  have hskipped : ∀ b ∈ t.takeWhile isSpace, isSpace b = true := fun b hb =>
    List.mem_takeWhile_imp hb
  -- A numeral with the sign `sign` in front of the digits that are read.
  have key : ∀ (sign rest : Bytes) (negative : Bool), t.dropWhile isSpace = sign ++ rest →
      longOfDigits negative (rest.takeWhile isDigit) = some i →
      (∀ ds, Digits ds → i = (if negative then -(digitsValue ds : Int) else digitsValue ds) →
        InLong i → Numeral (sign ++ ds) i) →
      ∃ ws num tail, t = ws ++ num ++ tail ∧ (∀ b ∈ ws, isSpace b = true) ∧ Numeral num i ∧
        StopsDigits tail := by
    intro sign rest negative hdrop hlong hnumeral
    rcases longOfDigits_eq_some_iff.1 hlong with ⟨hne, hi, hrange⟩
    refine ⟨t.takeWhile isSpace, sign ++ rest.takeWhile isDigit, rest.dropWhile isDigit, ?_,
      hskipped, ?_, stopsDigits_dropWhile rest⟩
    · rw [List.append_assoc, List.append_assoc, List.takeWhile_append_dropWhile, ← hdrop,
        List.takeWhile_append_dropWhile]
    · exact hnumeral _ ⟨hne, fun b hb => List.mem_takeWhile_imp hb⟩ hi hrange
  unfold streamLong at h
  split at h
  · cases h
  · rename_i b rest hdrop
    split_ifs at h with hminus hplus
    · refine key [minus] rest true (by rw [hdrop, hminus]; rfl) h ?_
      rintro ds hds rfl hrange
      exact Numeral.minus hds hrange
    · refine key [plus] rest false (by rw [hdrop, hplus]; rfl) h ?_
      rintro ds hds rfl hrange
      exact Numeral.plus hds hrange
    · refine key [] (b :: rest) false hdrop h ?_
      rintro ds hds rfl hrange
      exact Numeral.unsigned hds hrange

/-- Only digits come after the first character of a numeral. -/
theorem Numeral.digits_after {t : Bytes} {i : Int} (h : Numeral t i) {b : UInt8} {u : Bytes}
    (ht : t = b :: u) : ∀ c ∈ u, isDigit c = true := by
  cases h with
  | unsigned hds _ =>
      intro c hc
      exact hds.2 c (by simp [ht, hc])
  | plus hds _ =>
      rcases List.cons.inj ht with ⟨-, rfl⟩
      exact hds.2
  | minus hds _ =>
      rcases List.cons.inj ht with ⟨-, rfl⟩
      exact hds.2

theorem Numeral.bare {t : Bytes} {i : Int} (h : Numeral t i) : Bare t := by
  rintro ws num tail j rfl hws hnum htail
  have hws' : ws = [] := by
    cases ws with
    | nil => rfl
    | cons w ws =>
        rcases h.head with ⟨b, u, hb, hspace⟩
        rcases List.cons.inj hb with ⟨rfl, -⟩
        rw [hws w (by simp)] at hspace
        cases hspace
  subst hws'
  refine ⟨rfl, ?_⟩
  -- What comes after the inner numeral is not at the front, so it would be a digit.
  cases tail with
  | nil => rfl
  | cons c tail =>
      rcases hnum.head with ⟨b, u, rfl, -⟩
      have hdigit := h.digits_after (b := b) (u := u ++ c :: tail) (by simp) c (by simp)
      rw [htail c tail rfl] at hdigit
      cases hdigit

/-- On bare text `>>` accepts exactly the numerals. -/
theorem streamLong_eq_some_iff_of_bare {t : Bytes} (h : Bare t) {i : Int} :
    streamLong t = some i ↔ Numeral t i := by
  constructor
  · intro hread
    rcases numeral_of_streamLong hread with ⟨ws, num, tail, rfl, hws, hnum, htail⟩
    rcases h ws num tail i rfl hws hnum htail with ⟨rfl, rfl⟩
    simpa using hnum
  · intro hnum
    have hread : streamLong ([] ++ t ++ []) = some i :=
      streamLong_numeral hnum (by intro b u hb; cases hb) (by simp)
    simpa using hread

/-! ## Number lines -/

variable {σ : Type}

/-- The line is the prefix and a numeral, and nothing else. -/
def NumberLine (c : UInt8) (line : Bytes) (i : Int) : Prop := ∃ t, line = c :: t ∧ Numeral t i

/-- The outcome is right for the line: the number of a number line, and otherwise a
`redis_error`. -/
structure ParsesExactly (c : UInt8) (line : Bytes) (o : Outcome Exn Int) : Prop where
  returns_iff : ∀ i, o = .returns i ↔ NumberLine c line i
  refuses : (∀ i, ¬ NumberLine c line i) → ∃ e, o = throwsRedis e

/-- What `value_from_string<long>` makes of a text. -/
def longOutcome (t : Bytes) : Outcome Exn Int :=
  match streamLong t with
  | some i => .returns i
  | none => throwsRedis (.value (text "invalid number"))

def intReplyOutcome (line : Bytes) : Outcome Exn Int :=
  if line = [] then throwsRedis (.protocol (text "invalid integer reply; empty"))
  else if line.headD nul ≠ prefixIntReply then
    throwsRedis (.protocol (text "unexpected prefix for integer reply"))
  else longOutcome (line.drop 1)

def bulkLengthOutcome (c : UInt8) (line : Bytes) : Outcome Exn Int :=
  if line.headD nul ≠ c then
    throwsRedis (.protocol (text "unexpected prefix for bulk reply"))
  else if line = [] then .halts (.throws .outOfRange)
  else longOutcome (line.drop 1)

theorem valueFromString_long (t bs : Bytes) (out : σ) :
    Decodes (valueFromString streamLong t : Conn σ Int) bs out (longOutcome t) bs out := by
  unfold valueFromString longOutcome
  cases streamLong t with
  | some i => exact Decodes.pure i
  | none => exact decodes_redisError _ bs out

theorem recvIntReply_line {line : Bytes} (hlf : lf ∉ line) (rest : Bytes) (out : σ) :
    Decodes (recvIntReply : Conn σ Int) (line ++ lf :: rest) out
      (intReplyOutcome (rtrim line crlf)) rest out := by
  refine (readLine_spec hlf rest out).bind ?_
  unfold intReplyOutcome
  split_ifs with hnil hprefix
  · exact decodes_protocolError _ rest out
  · exact decodes_protocolError _ rest out
  · exact valueFromString_long _ rest out

theorem recvBulkReplyLength_line (c : UInt8) {line : Bytes} (hlf : lf ∉ line) (rest : Bytes)
    (out : σ) :
    Decodes (recvBulkReplyLength c : Conn σ Int) (line ++ lf :: rest) out
      (bulkLengthOutcome c (rtrim line crlf)) rest out := by
  refine (readLine_spec hlf rest out).bind ?_
  unfold bulkLengthOutcome
  split_ifs with hprefix hnil
  · exact decodes_protocolError _ rest out
  · exact Decodes.throw _
  · exact valueFromString_long _ rest out

/-- A line with another first character is no number line. -/
theorem not_numberLine {c : UInt8} {line : Bytes} (h : ∀ t, line ≠ c :: t) (i : Int) :
    ¬ NumberLine c line i := by
  rintro ⟨t, ht, -⟩
  exact h t ht

theorem parsesExactly_throws {c : UInt8} {line : Bytes} (h : ∀ t, line ≠ c :: t) (e : RedisError) :
    ParsesExactly c line (throwsRedis e) where
  returns_iff i := iff_of_false (by simp [throwsRedis]) (not_numberLine h i)
  refuses _ := ⟨e, rfl⟩

theorem numberLine_cons {c : UInt8} {t : Bytes} {i : Int} :
    NumberLine c (c :: t) i ↔ Numeral t i := by
  constructor
  · rintro ⟨u, hu, hnum⟩
    rcases List.cons.inj hu with ⟨-, rfl⟩
    exact hnum
  · intro h
    exact ⟨t, rfl, h⟩

/-- After the prefix, `>>` reads what the grammar says exactly when the text is bare. -/
theorem parsesExactly_longOutcome_iff {c : UInt8} {t : Bytes} :
    ParsesExactly c (c :: t) (longOutcome t) ↔ Bare t := by
  have hreturns : ∀ i, longOutcome t = .returns i ↔ streamLong t = some i := by
    intro i
    unfold longOutcome
    cases streamLong t <;> simp [throwsRedis]
  constructor
  · rintro ⟨hiff, -⟩ ws num tail i rfl hws hnum htail
    -- The numeral in the middle is read, so the whole text has to be a numeral of that value.
    have hwhole : Numeral (ws ++ num ++ tail) i :=
      numberLine_cons.1 ((hiff i).1 ((hreturns i).2 (streamLong_numeral hnum htail hws)))
    exact hwhole.bare ws num tail i rfl hws hnum htail
  · intro h
    refine ⟨fun i => ?_, fun hnone => ?_⟩
    · rw [hreturns, streamLong_eq_some_iff_of_bare h, numberLine_cons]
    · have hread : streamLong t = none := by
        rw [Option.eq_none_iff_forall_ne_some]
        intro i hi
        exact hnone i (numberLine_cons.2 ((streamLong_eq_some_iff_of_bare h).1 hi))
      exact ⟨.value (text "invalid number"), by simp only [longOutcome, hread]⟩

theorem intReply_parsesExactly_iff {line : Bytes} :
    ParsesExactly prefixIntReply line (intReplyOutcome line) ↔
      ∀ t, line = prefixIntReply :: t → Bare t := by
  unfold intReplyOutcome
  cases line with
  | nil => exact iff_of_true (parsesExactly_throws (by simp) _) (by simp)
  | cons b t =>
      by_cases hb : b = prefixIntReply
      · subst hb
        simp [parsesExactly_longOutcome_iff]
      · have hne : ∀ u, b :: t ≠ prefixIntReply :: u := by simp [hb]
        simp only [reduceCtorEq, if_false, List.headD_cons, ne_eq, hb, not_false_eq_true, if_true]
        exact iff_of_true (parsesExactly_throws hne _) fun u hu => absurd hu (hne u)

theorem bulkLength_parsesExactly_iff {c : UInt8} {line : Bytes} :
    ParsesExactly c line (bulkLengthOutcome c line) ↔
      (∀ t, line = c :: t → Bare t) ∧ (c = nul → line ≠ []) := by
  unfold bulkLengthOutcome
  cases line with
  | nil =>
      by_cases hc : nul = c
      · -- `substr` throws, and the empty line is no number line.
        have hthrows : ¬ ParsesExactly c [] (.halts (.throws .outOfRange)) := by
          rintro ⟨-, hrefuses⟩
          rcases hrefuses (not_numberLine (by simp)) with ⟨e, he⟩
          simp [throwsRedis] at he
        simp [hc, hthrows]
      · have hc' : c ≠ nul := fun h => hc h.symm
        simp [hc, hc', parsesExactly_throws]
  | cons b t =>
      by_cases hb : b = c
      · subst hb
        simp [parsesExactly_longOutcome_iff]
      · have hne : ∀ u, b :: t ≠ c :: u := by simp [hb]
        simp only [List.headD_cons, ne_eq, hb, not_false_eq_true, if_true]
        exact iff_of_true (parsesExactly_throws hne _)
          ⟨fun u hu => absurd hu (hne u), fun _ => by simp⟩

/-- The two readers of number lines accept what the grammar says and refuse the rest with a
`redis_error` exactly when what follows the prefix is no numeral with white space before it or other
text after it, and the prefix is not the NUL that stands behind an empty line. -/
theorem number_lines_exact_iff {line : Bytes} (hlf : lf ∉ line) (rest : Bytes) (s : Socket × σ)
    (hhealthy : s.1.rx.Healthy) (hin : s.1.rx.incoming = line ++ lf :: rest) :
    (ParsesExactly prefixIntReply (rtrim line crlf) (recvIntReply s).1 ↔
      ∀ t, rtrim line crlf = prefixIntReply :: t → Bare t) ∧
    ∀ c, ParsesExactly c (rtrim line crlf) (recvBulkReplyLength c s).1 ↔
      (∀ t, rtrim line crlf = c :: t → Bare t) ∧ (c = nul → rtrim line crlf ≠ []) := by
  have hs : At (line ++ lf :: rest) s.1.tx s.1 ∧ s.2 = s.2 := ⟨⟨hin, hhealthy, rfl⟩, rfl⟩
  refine ⟨?_, fun c => ?_⟩
  · rw [(recvIntReply_line hlf rest s.2 s.1.tx s hs).1]
    exact intReply_parsesExactly_iff
  · rw [(recvBulkReplyLength_line c hlf rest s.2 s.1.tx s hs).1]
    exact bulkLength_parsesExactly_iff

theorem number_lines_exact_iff_seven :
    ParsesExactly prefixIntReply (rtrim (text ":7" ++ [cr]) crlf)
        (recvIntReply (plainSocket (text ":7" ++ [cr] ++ lf :: []), ())).1 ↔
      ∀ t, rtrim (text ":7" ++ [cr]) crlf = prefixIntReply :: t → Bare t :=
  (number_lines_exact_iff (by decide) [] (plainSocket (text ":7" ++ [cr] ++ lf :: []), ())
    (plainSocket_healthy _) rfl).1

/-- `": 7x"` is taken for the number 7. -/
theorem malformed_number_accepted :
    ¬ ParsesExactly prefixIntReply (rtrim (text ": 7x" ++ [cr]) crlf)
      (recvIntReply (plainSocket (text ": 7x" ++ [cr] ++ lf :: []), ())).1 := by
  have hrun : (recvIntReply (plainSocket (text ": 7x" ++ [cr] ++ lf :: []), ())).1 =
      .returns 7 := by decide
  rw [hrun]
  rintro ⟨hiff, -⟩
  rcases (hiff 7).1 rfl with ⟨t, ht, hnum⟩
  have ht' : t = text " 7x" := by
    have hline : rtrim (text ": 7x" ++ [cr]) crlf = prefixIntReply :: text " 7x" := by decide
    rw [hline] at ht
    exact (List.cons.inj ht).2.symm
  rcases hnum.head with ⟨b, u, hb, hspace⟩
  rw [ht'] at hb
  rcases List.cons.inj hb with ⟨rfl, -⟩
  exact absurd hspace (by decide)

/-! ## Lengths -/

/-- The part of `_recv_bulk_reply()` after the header, with `read` for `_read_n`. -/
def recvBulkBody (read : Int → Conn σ Bytes) (length : Int) : Conn σ Bytes :=
  if length = -1 then
    pure missingValue
  else if longMax < length + 2 then
    Prog.halt .undefined
  else do
    let data ← read (length + 2)
    if data = [] then
      protocolError "invalid bulk reply data; empty"
    else if (data.length : Int) ≠ length + 2 then
      protocolError "invalid bulk reply data; data of unexpected length"
    else
      pure (data.take (data.length - 2))

theorem recvBulkReply_eq : (recvBulkReply : Conn σ Bytes) =
    recvBulkReplyLength prefixSingleBulkReply >>= recvBulkBody readN := rfl

/-- What the header with the number `length` and the bytes `bs` after it should lead to.  An error
that is the same for every `_read_n` comes before the call of it, so before anything is allocated or
read. -/
structure LengthSafe (σ : Type) (length : Int) (bs : Bytes) : Prop where
  null : length = -1 → ∀ out : σ, Decodes recvBulkReply
    (numberLine prefixSingleBulkReply length ++ bs) out (.returns missingValue) bs out
  refuses : length < -1 ∨ longMax - 2 < length →
    ∃ e, ∀ read : Int → Conn σ Bytes, recvBulkBody read length = redisError e
  reads : 0 ≤ length → length ≤ longMax - 2 → ∀ out : σ, ∃ o, Decodes recvBulkReply
    (numberLine prefixSingleBulkReply length ++ bs) out o (bs.drop (length.toNat + 2)) out ∧
      (length.toNat + 2 ≤ bs.length → Orderly o) ∧ (bs.length < length.toNat + 2 → o = .halts .blocks) ∧
      ((∃ v, o = .returns v) → (bs.drop length.toNat).take 2 = crlf)

/-- The lengths for which the code does that: the null reply, and those that leave room for the two
bytes of CRLF and the byte behind the array; of these, when the data is there, it has to end with
CRLF or to contain a NUL, which is refused for another reason. -/
def LengthCondition (length : Int) (bs : Bytes) : Prop :=
  length = -1 ∨ 0 ≤ length ∧ length + 2 < longMax ∧
    (length.toNat + 2 ≤ bs.length →
      (bs.drop length.toNat).take 2 = crlf ∨ nul ∈ bs.take (length.toNat + 2))

theorem Decodes.unique {α : Type} {p : Conn σ α} {bs left left' : Bytes} {out out' out'' : σ}
    {o o' : Outcome Exn α} (h : Decodes p bs out o left out') (h' : Decodes p bs out o' left' out'') :
    o = o' := by
  have hs : At bs (plainSocket bs).tx (plainSocket bs) ∧ out = out := ⟨plainSocket_at bs, rfl⟩
  exact (h _ (plainSocket bs, out) hs).1.symm.trans (h' _ (plainSocket bs, out) hs).1

theorem recvBulkReplyLength_inLong {c : UInt8} (hcr : c ≠ cr) (hlf : c ≠ lf) {i : Int}
    (hi : InLong i) (rest : Bytes) (out : σ) :
    Decodes (recvBulkReplyLength c : Conn σ Int) (numberLine c i ++ rest) out (.returns i) rest
      out := by
  have hnumber := recvBulkReplyLength_number hcr hlf i rest out
  have hreturns : numberOutcome i = .returns i := if_pos hi
  rwa [hreturns] at hnumber

theorem recvBulkReply_body {length : Int} (hlength : InLong length) {bs left : Bytes}
    {out out' : σ} {o : Outcome Exn Bytes}
    (h : Decodes (recvBulkBody readN length) bs out o left out') :
    Decodes recvBulkReply (numberLine prefixSingleBulkReply length ++ bs) out o left out' := by
  rw [recvBulkReply_eq]
  exact (recvBulkReplyLength_inLong (by decide) (by decide) hlength bs out).bind h

/-- The outcome when the string `data` was made of the payload. -/
def payloadOutcome (length : Int) (data : Bytes) : Outcome Exn Bytes :=
  if data = [] then throwsRedis (.protocol (text "invalid bulk reply data; empty"))
  else if (data.length : Int) ≠ length + 2 then
    throwsRedis (.protocol (text "invalid bulk reply data; data of unexpected length"))
  else .returns (data.take (data.length - 2))

theorem orderly_payloadOutcome (length : Int) (data : Bytes) :
    Orderly (payloadOutcome length data) := by
  unfold payloadOutcome
  split_ifs <;> trivial

/-- The string is as long as the payload exactly when no NUL cuts it short. -/
theorem payloadOutcome_returns_iff {length : Int} (h0 : 0 ≤ length) {payload : Bytes}
    (hlength : (payload.length : Int) = length + 2) :
    (∃ v, payloadOutcome length (ofCString payload) = .returns v) ↔ nul ∉ payload := by
  rw [← ofCString_eq_self_iff]
  constructor
  · rintro ⟨v, hv⟩
    unfold payloadOutcome at hv
    split_ifs at hv with hnil hshort
    · cases hv
    · cases hv
    · refine (List.takeWhile_prefix _).eq_of_length ?_
      have hsame : ((ofCString payload).length : Int) = length + 2 := not_ne_iff.1 hshort
      exact_mod_cast hsame.trans hlength.symm
  · intro hself
    have hne : payload ≠ [] := by
      rintro rfl
      simp only [List.length_nil, Int.ofNat_zero] at hlength
      omega
    exact ⟨payload.take (payload.length - 2),
      by simp only [payloadOutcome, hself, hne, hlength, if_false, ne_eq, not_true_eq_false]⟩

section Body

variable {length : Int}

theorem recvBulkBody_of_nonneg (h0 : 0 ≤ length) (hmax : length ≤ longMax - 2)
    (read : Int → Conn σ Bytes) : recvBulkBody read length = (do
      let data ← read (length + 2)
      if data = [] then
        protocolError "invalid bulk reply data; empty"
      else if (data.length : Int) ≠ length + 2 then
        protocolError "invalid bulk reply data; data of unexpected length"
      else
        pure (data.take (data.length - 2))) := by
  have hnull : length ≠ -1 := by omega
  have hover : ¬ longMax < length + 2 := by omega
  simp only [recvBulkBody, hnull, hover, if_false]

theorem recvBulkBody_payload (h0 : 0 ≤ length) (hmax : length + 2 < longMax) {payload : Bytes}
    (hlength : (payload.length : Int) = length + 2) (rest : Bytes) (out : σ) :
    Decodes (recvBulkBody readN length) (payload ++ rest) out
      (payloadOutcome length (ofCString payload)) rest out := by
  rw [recvBulkBody_of_nonneg h0 (by omega)]
  refine (readN_spec hlength.symm hmax rest out).bind ?_
  unfold payloadOutcome
  split_ifs
  · exact decodes_protocolError _ rest out
  · exact decodes_protocolError _ rest out
  · exact Decodes.pure _

theorem recvBulkBody_short (h0 : 0 ≤ length) (hmax : length + 2 < longMax) {bs : Bytes}
    (hshort : (bs.length : Int) < length + 2) (out : σ) :
    Decodes (recvBulkBody readN length) bs out (.halts .blocks) [] out := by
  rw [recvBulkBody_of_nonneg h0 (by omega)]
  exact (readN_waits hshort hmax out).bind_halts

/-- With `LONG_MAX - 2` the size of the array overflows. -/
theorem recvBulkBody_overflow (h : length + 2 = longMax) (bs : Bytes) (out : σ) :
    Decodes (recvBulkBody readN length) bs out (.halts .undefined) bs out := by
  have hmax : longMax = 9223372036854775807 := rfl
  rw [recvBulkBody_of_nonneg (by omega) (by omega)]
  refine Decodes.bind_halts ?_
  have harray : longMax < length + 2 + 1 := by omega
  simp only [readN, harray, if_true]
  exact Decodes.halt _

/-- A length that should be refused is not: its sum overflows, or `_read_n` is called with it. -/
theorem recvBulkBody_not_refused [Inhabited σ] (h : length < -1 ∨ longMax - 2 < length)
    (e : RedisError) : ∃ read : Int → Conn σ Bytes, recvBulkBody read length ≠ redisError e := by
  have hmax : longMax = 9223372036854775807 := rfl
  have hnull : length ≠ -1 := by omega
  refine ⟨fun _ => Prog.halt .blocks, fun heq => ?_⟩
  have hrun := congrFun heq (plainSocket [], default)
  by_cases hover : longMax < length + 2
  · simp only [recvBulkBody, hnull, hover, if_false, if_true] at hrun
    simp [redisError, Prog.throw] at hrun
  · simp only [recvBulkBody, hnull, hover, if_false] at hrun
    rw [Prog.bind_halts (Prog.halt_apply _ _)] at hrun
    simp [redisError, Prog.throw] at hrun

end Body

/-- A length within the bounds makes the decoder take exactly the data and its CRLF; it returns
without looking at what the CRLF really is. -/
theorem recvBulkReply_takes {length : Int} (h0 : 0 ≤ length) (hmax : length + 2 < longMax)
    (bs : Bytes) (out : σ) :
    ∃ o, Decodes recvBulkReply (numberLine prefixSingleBulkReply length ++ bs) out o
        (bs.drop (length.toNat + 2)) out ∧
      (length.toNat + 2 ≤ bs.length → Orderly o) ∧
      (bs.length < length.toNat + 2 → o = .halts .blocks) ∧
      ((∃ v, o = .returns v) ↔
        length.toNat + 2 ≤ bs.length ∧ nul ∉ bs.take (length.toNat + 2)) := by
  have hlong : InLong length := ⟨by unfold longMin; omega, by omega⟩
  rcases Nat.lt_or_ge bs.length (length.toNat + 2) with hshort | henough
  · have hfew : (bs.length : Int) < length + 2 := by omega
    have hrun := recvBulkReply_body hlong (recvBulkBody_short h0 hmax hfew out)
    have hleft : bs.drop (length.toNat + 2) = [] := List.drop_eq_nil_of_le (by omega)
    rw [hleft]
    refine ⟨_, hrun, fun h => absurd h (by omega), fun _ => rfl, ?_⟩
    exact iff_of_false (by simp) fun h => absurd h.1 (by omega)
  · have hlength : ((bs.take (length.toNat + 2)).length : Int) = length + 2 := by
      rw [List.length_take_of_le henough]
      omega
    have hrun := recvBulkReply_body hlong
      (recvBulkBody_payload h0 hmax hlength (bs.drop (length.toNat + 2)) out)
    rw [List.take_append_drop] at hrun
    refine ⟨_, hrun, fun _ => orderly_payloadOutcome _ _, fun h => absurd h (by omega), ?_⟩
    rw [payloadOutcome_returns_iff h0 hlength]
    exact ⟨fun h => ⟨henough, h⟩, fun h => h.2⟩

theorem lengthSafe_iff [Inhabited σ] {length : Int} (hlong : InLong length) (bs : Bytes) :
    LengthSafe σ length bs ↔ LengthCondition length bs := by
  have hmax : longMax = 9223372036854775807 := rfl
  constructor
  · intro h
    by_cases hnull : length = -1
    · exact Or.inl hnull
    · have hin : ¬ (length < -1 ∨ longMax - 2 < length) := by
        intro hout
        rcases h.refuses hout with ⟨e, he⟩
        obtain ⟨read, hread⟩ : ∃ read : Int → Conn σ Bytes, recvBulkBody read length ≠ redisError e :=
          recvBulkBody_not_refused hout e
        exact hread (he read)
      have h0 : 0 ≤ length := by omega
      rcases h.reads h0 (by omega) (default : σ) with ⟨o, hrun, horderly, hblocks, hcrlf⟩
      -- `LONG_MAX - 2` leads out of the language, whatever is there to be read.
      have hlt : length + 2 < longMax := by
        refine lt_of_le_of_ne (by omega) fun hover => ?_
        have ho := hrun.unique (recvBulkReply_body hlong (recvBulkBody_overflow hover bs default))
        rcases Nat.lt_or_ge bs.length (length.toNat + 2) with hshort | henough
        · simp [hblocks hshort] at ho
        · exact (ho ▸ horderly henough : Orderly (.halts .undefined : Outcome Exn Bytes))
      rcases recvBulkReply_takes h0 hlt bs (default : σ) with ⟨o', hrun', -, -, hreturns⟩
      cases hrun.unique hrun'
      refine Or.inr ⟨h0, hlt, fun henough => ?_⟩
      by_cases hnul : nul ∈ bs.take (length.toNat + 2)
      · exact Or.inr hnul
      · exact Or.inl (hcrlf (hreturns.2 ⟨henough, hnul⟩))
  · rintro (rfl | ⟨h0, hlt, hdata⟩)
    · refine ⟨fun _ out => ?_, fun h => absurd h (by omega), fun h => absurd h (by omega)⟩
      exact recvBulkReply_body hlong (Decodes.pure _)
    · refine ⟨fun h => absurd h (by omega), fun h => absurd h (by omega), fun _ _ out => ?_⟩
      rcases recvBulkReply_takes h0 hlt bs out with ⟨o, hrun, horderly, hblocks, hreturns⟩
      refine ⟨o, hrun, horderly, hblocks, fun hret => ?_⟩
      rcases hreturns.1 hret with ⟨henough, hnul⟩
      exact (hdata henough).resolve_right hnul

/-- What the count `length` of a multi-bulk header should lead to. -/
structure CountSafe (add : Bytes → σ → σ) (length : Int) (bs : Bytes) : Prop where
  null : length = -1 → ∃ msg, ∀ out, Decodes (recvMultiBulkReplyInto add)
    (numberLine prefixMultiBulkReply length ++ bs) out (throwsRedis (.key msg)) bs out
  refuses : length < -1 → ∃ e, ∀ out, Decodes (recvMultiBulkReplyInto add)
    (numberLine prefixMultiBulkReply length ++ bs) out (throwsRedis e) bs out

/-- A negative count other than -1 makes no round of the loop, and is returned. -/
theorem recvMultiBulk_negative (add : Bytes → σ → σ) {length : Int} (hlong : InLong length)
    (h : length < -1) (bs : Bytes) (out : σ) :
    Decodes (recvMultiBulkReplyInto add) (numberLine prefixMultiBulkReply length ++ bs) out
      (.returns length) bs out := by
  refine (recvBulkReplyLength_inLong (by decide) (by decide) hlong bs out).bind ?_
  have hnull : length ≠ -1 := by omega
  have hzero : length.toNat = 0 := by omega
  simp only [hnull, if_false, hzero, recvElements]
  exact (Decodes.pure ()).bind (Decodes.pure length)

theorem countSafe_iff [Inhabited σ] (add : Bytes → σ → σ) {length : Int} (hlong : InLong length)
    (bs : Bytes) : CountSafe add length bs ↔ -1 ≤ length := by
  constructor
  · intro h
    by_contra hneg
    rcases h.refuses (by omega) with ⟨e, he⟩
    have ho := (he default).unique (recvMultiBulk_negative add hlong (by omega) bs default)
    simp [throwsRedis] at ho
  · intro h
    refine ⟨?_, fun hneg => absurd hneg (by omega)⟩
    rintro rfl
    exact ⟨text "no such key", fun out => recvMultiBulk_null add bs out⟩

/-- Every number of the range of `long` in a header of a bulk leads to what it should exactly when
it meets `LengthCondition`, and in a header of a multi-bulk exactly when it is not below -1. -/
theorem header_lengths_safe_iff [Inhabited σ] {length : Int} (hlong : InLong length) (bs : Bytes) :
    (LengthSafe σ length bs ↔ LengthCondition length bs) ∧
      ∀ add : Bytes → σ → σ, CountSafe add length bs ↔ -1 ≤ length :=
  ⟨lengthSafe_iff hlong bs, fun add => countSafe_iff add hlong bs⟩

theorem header_lengths_safe_iff_one :
    LengthSafe Unit 1 (text "x" ++ crlf) ↔ LengthCondition 1 (text "x" ++ crlf) :=
  (header_lengths_safe_iff ⟨by decide, by decide⟩ (text "x" ++ crlf)).1

/-- The header `$-3` is not refused: `_read_n` is called with -1. -/
theorem negative_length_not_refused : ¬ LengthSafe Unit (-3) [] := by
  rw [lengthSafe_iff ⟨by decide, by decide⟩]
  rintro (h | ⟨h, -⟩)
  · exact absurd h (by decide)
  · exact absurd h (by decide)

end Redis
end CppPractice
