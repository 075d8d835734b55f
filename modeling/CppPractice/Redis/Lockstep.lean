import CppPractice.Redis.Operations

/-!
# Lockstep — as many replies read as commands sent

The connection carries no request ids, so a member that sends a command and does not read the reply,
or reads one it has not asked for, shifts the answers of every later call.  `Exchange` counts both
for one call, and `InLockstep` says of a sequence of calls on one connection that each is answered by
the reply to its own command.
-/

namespace CppPractice
namespace Redis

open Program

variable {σ α β : Type}

/-! ## The decoders of the members -/

/-- A program that waits for a reply of the kind and takes it exactly. -/
structure Receives (k : Kind) (p : Conn σ α) : Prop where
  waits : Waits p
  settles : ∀ r : Reply, r.IsFor k → r.Framed k → Settles p r.encode

theorem ReadsKind.receives {k : Kind} {p : Conn σ α} (h : ReadsKind k p) : Receives k p :=
  ⟨h.waits, fun r hr hframed => (h.frames r hr hframed).settles⟩

theorem Receives.bind {k : Kind} {p : Conn σ α} {f : α → Conn σ β} (h : Receives k p)
    (hf : ∀ a, Settles (f a) []) : Receives k (p >>= f) :=
  ⟨h.waits.bind, fun r hr hframed => (h.settles r hr hframed).bind hf⟩

theorem settles_pure (a : α) : Settles (pure a : Conn σ α) [] := (frames_pure a).settles

theorem settles_redisError (e : RedisError) : Settles (redisError e : Conn σ α) [] :=
  (frames_redisError e).settles

theorem recvOkReply_receives : Receives .status (recvOkReply : Conn σ Unit) := by
  refine recvSingleLineReply_reads.receives.bind fun status => ?_
  split
  · exact settles_redisError _
  · exact settles_pure ()

theorem recvDatatype_receives : Receives .status (recvDatatype : Conn σ Datatype) :=
  recvSingleLineReply_reads.receives.bind fun _ => settles_pure _

theorem recvIntOkReply_receives : Receives .integer (recvIntOkReply : Conn σ Unit) := by
  refine recvIntReply_reads.receives.bind fun n => ?_
  split
  · exact settles_redisError _
  · exact settles_pure ()

theorem recvBoolReply_receives : Receives .integer (recvBoolReply : Conn σ Bool) :=
  recvIntReply_reads.receives.bind fun _ => settles_pure _

theorem recvIntReplyEqOne_receives : Receives .integer (recvIntReplyEqOne : Conn σ Bool) :=
  recvIntReply_reads.receives.bind fun _ => settles_pure _

theorem recvMultiBulkReply_receives : Receives .multiBulk recvMultiBulkReply :=
  (recvMultiBulkReplyInto_reads pushBack).receives

theorem recvMultiBulkReplySet_receives : Receives .multiBulk recvMultiBulkReplySet :=
  (recvMultiBulkReplyInto_reads insert).receives

theorem recvMultiBulkReplyVoid_receives : Receives .multiBulk recvMultiBulkReplyVoid :=
  recvMultiBulkReply_receives.bind fun _ => settles_pure ()

theorem recvKvReplyVal_receives : Receives .multiBulk (recvKvReplyVal : Conn σ Bytes) :=
  recvKvReply_reads.receives.bind fun _ => settles_pure _

theorem recvFieldsAndValues_receives : Receives .multiBulk recvFieldsAndValues := by
  refine (recvMultiBulkReplyInto_reads pushBack).withLocal.receives.bind ?_
  rintro ⟨_, all⟩
  exact (frames_modifyOut (pushPairs all)).settles

theorem infoLine_settles (sectionName line : Bytes) : Settles (infoLine sectionName line) [] := by
  have hthrow : Settles (Prog.throw .outOfRange : Conn StringMap Unit) [] := fun out =>
    ⟨.halts (.throws .outOfRange), out, trivial, fun _ => Decodes.throw _⟩
  unfold infoLine
  split
  · split
    · exact settles_pure ()
    · split
      · exact hthrow
      · split
        · exact settles_redisError _
        · exact settles_pure ()
  · split
    · exact settles_pure ()
    · split
      · rename_i key value _
        exact (frames_modifyOut fun out : StringMap => Function.update out key (some value)).settles
      · exact settles_redisError _
      · rename_i hnone
        -- `split` on a delimiter that is not empty comes to an end.
        have hsome : (split line (text ":") []).isSome = true := split_isSome line (by decide) []
        rw [hnone] at hsome
        exact absurd hsome (by decide)

theorem infoLines_settles (sectionName : Bytes) :
    ∀ lines : List Bytes, Settles (infoLines sectionName lines) [] := by
  intro lines
  induction lines with
  | nil => exact settles_pure ()
  | cons line lines ih => exact (infoLine_settles sectionName line).bind fun _ => ih

theorem recvInfo_receives (sectionName : Bytes) : Receives .bulk (recvInfo sectionName) := by
  refine recvBulkReply_reads.receives.bind fun response => ?_
  split
  · exact settles_redisError _
  · split
    · rename_i hnone
      have hsome : (split response crlf []).isSome = true := split_isSome response (by decide) []
      rw [hnone] at hsome
      exact absurd hsome (by decide)
    · exact settles_redisError _
    · exact infoLines_settles sectionName _

/-! ## The shape of the members -/

/-- The text a member hands to `_send`. -/
def Body.wire? : Body σ α → Option Bytes
  | .request cmd _ => some cmd.wire
  | .sendOnly cmd _ => some cmd.wire
  | .recvOnly _ => none
  | .returns _ => none

/-- The members whose sending or reading half is missing, with the arguments for which it is. -/
inductive Slip (δ : Type) [DoubleFormat δ] : {σ α : Type} → Body σ α → Prop
  | mset {keys values : List Bytes} (h : keys.length = values.length) :
      Slip δ (Connection.mset keys values)
  | msetnx {keys values : List Bytes} (h : keys.length = values.length) :
      Slip δ (Connection.msetnx keys values)
  | zrangeWithscores (key : Bytes) (start stop : Int) (withscores : Bool) :
      Slip δ (Connection.zrangeWithscores key start stop withscores :
        Body (List (KeyScore δ)) Unit)
  | zrangebyscoreOpt (key : Bytes) (min max : δ) (opt : ZsetOpt) :
      Slip δ (Connection.zrangebyscoreOpt key min max opt : Body (List (KeyScore δ)) Unit)

/-- The call is none of the slips, and its text has a length that is an `int`. -/
def KeepsLockstep (δ : Type) [DoubleFormat δ] (b : Body σ α) : Prop :=
  ¬ Slip δ b ∧ ∀ wire, b.wire? = some wire → SizeFitsInt wire

section Shape

variable {δ : Type} [DoubleFormat δ]

/-- What the members do, and which of them are slips. -/
inductive Shape (δ : Type) [DoubleFormat δ] : {σ α : Type} → Body σ α → Kind → Prop
  | request {σ α : Type} {cmd : Command} {recv : Conn σ α} {k : Kind} (h : Receives k recv) :
      Shape δ (.request cmd recv) k
  | returns {σ α : Type} (a : α) (k : Kind) : Shape δ (.returns a : Body σ α) k
  | slip {σ α : Type} {b : Body σ α} {k : Kind} (h : Slip δ b) : Shape δ b k

theorem Operation.shape {b : Body σ α} {k : Kind} (h : Operation δ b k) : Shape δ b k := by
  -- One group for each decoder; the members with a condition or a slip come last.
  cases h with
  | set | setex | ltrim | lset | rename | persist | save | bgsave | select | flushdb | flushall
  | auth | watchKeys | watch | unwatch | multi | exec | discard | configSet | configSetLong =>
      exact .request recvOkReply_receives
  | setnx | «exists» | renamenx => exact .request recvIntReplyEqOne_receives
  | hset | hsetnx | hexists | sismember | zadd => exact .request recvBoolReply_receives
  | hdel | sadd | srem | smove | zrem | del | expire | expireat | move =>
      exact .request recvIntOkReply_receives
  | setrange | incr | incrby | decr | decrby | append | strlen | hincrby | hlen | rpush | lpush
  | rpushx | lpushx | llen | lrem | sdiffstore | sinterstore | sunionstore | scard | zcard | zcount
  | zincrby | zremrangebyrank | zremrangebyscore | ttl | dbsize | lastsave =>
      exact .request recvIntReply_reads.receives
  | get | getset | getrange | hget | lindex | lpop | rpop | rpoplpush | brpoplpush | spop
  | srandmember | debugObject | configGet => exact .request recvBulkReply_reads.receives
  | mget | hmget | hkeys | hvals | zrange | zrangebyscore | zrangebyscoreLimit | zrevrange
  | zrevrangebyscore => exact .request recvMultiBulkReplyVoid_receives
  | lrange | keys | sort | sortLimit | sortBy => exact .request recvMultiBulkReply_receives
  | sdiff | sinter | sunion | smembers => exact .request recvMultiBulkReplySet_receives
  | blpop | brpop => exact .request recvKvReplyVal_receives
  | blpopKeys | brpopKeys => exact .request recvKvReply_reads.receives
  | hgetall => exact .request recvFieldsAndValues_receives
  | infoSection sectionName => exact .request (recvInfo_receives sectionName)
  | info => exact .request (recvInfo_receives [])
  | type => exact .request recvDatatype_receives
  | randomkey => exact .request recvSingleLineReply_reads.receives
  | zscore => exact .request recvDoubleReply_reads.receives
  | zrevrangeWithscores | zrevrangebyscoreWithscores => exact .returns () _
  | zrangeWithscores key start stop withscores =>
      exact .slip (.zrangeWithscores key start stop withscores)
  | zrangebyscoreOpt key min max opt => exact .slip (.zrangebyscoreOpt key min max opt)
  | hmset key fields values =>
      unfold Connection.hmset
      split
      · exact .returns () _
      · exact .request recvOkReply_receives
  | mset keys values =>
      by_cases hlen : keys.length = values.length
      · exact .slip (.mset hlen)
      · rw [Connection.mset, if_pos hlen]
        exact .returns () _
  | msetnx keys values =>
      by_cases hlen : keys.length = values.length
      · exact .slip (.msetnx hlen)
      · rw [Connection.msetnx, if_pos hlen]
        exact .returns false _

theorem Operation.nonempty {b : Body σ α} {k : Kind} (h : Operation δ b k) : Nonempty σ := by
  cases h <;> infer_instance

end Shape

/-! ## One call -/

/-- Nothing is unread, and neither half of the connection is going to fail. -/
structure Socket.Idle (s : Socket) : Prop where
  incoming : s.rx.incoming = []
  rx : s.rx.Healthy
  tx : s.tx.Healthy

/-- From `s` to `s'` the messages `msgs` have gone out, and `more` answers are to come. -/
structure Socket.Advanced (s s' : Socket) (msgs more : List Bytes) : Prop where
  idle : s'.Idle
  sent : s'.tx.sent = s.tx.sent ++ msgs
  answers : s'.tx.answers = more
  commandsIn : s'.tx.commandsIn = s.tx.commandsIn

/-- On an idle connection to a server that answers each message with a framed reply of the kind, the
call ends, having handed `m` messages to `_send` and taken `n` of the `m` replies. -/
def Exchange (b : Body σ α) (k : Kind) (m n : Nat) : Prop :=
  ∀ (s : Socket) (out : σ) (rs : List Reply), s.Idle → (∀ msg, s.tx.commandsIn msg = 1) →
    (∀ r ∈ rs, r.IsFor k ∧ r.Framed k) → s.tx.answers = rs.map Reply.encode → m ≤ rs.length →
      Ends (b.run (s, out)).1 ∧
      (b.run (s, out)).2.1.tx.sent.length = s.tx.sent.length + m ∧
      (b.run (s, out)).2.1.tx.answers = (rs.drop m).map Reply.encode ∧
      (b.run (s, out)).2.1.rx.incoming = ((rs.take m).drop n).flatMap Reply.encode

theorem Socket.Idle.at_nil {s : Socket} (h : s.Idle) : At [] s.tx s := ⟨h.incoming, h.rx, rfl⟩

/-- After `_send` the answer to the message is under way. -/
theorem send_answered {msg a : Bytes} {more : List Bytes} (hlen : SizeFitsInt msg) {s : Socket}
    (h : s.Idle) (hone : s.tx.commandsIn msg = 1) (hanswers : s.tx.answers = a :: more) (out : σ) :
    ∃ s', send msg (s, out) = (.returns (), (s', out)) ∧ At a s'.tx s' ∧ s'.tx.Healthy ∧
      s'.tx.sent = s.tx.sent ++ [msg] ∧ s'.tx.answers = more ∧
      s'.tx.commandsIn = s.tx.commandsIn := by
  rcases send_spec (s := (s, out)) hlen h.tx with ⟨es, hes, hsend⟩
  refine ⟨_, hsend, ⟨?_, ⟨h.rx.delivers, ?_⟩, rfl⟩, hes, rfl, ?_, rfl⟩
  · simp [Socket.serve, Socket.wrote, Socket.logged, hone, hanswers, h.incoming]
  · have havail := h.rx.avail_le
    rw [h.incoming, List.length_nil] at havail
    exact le_trans havail (Nat.zero_le _)
  · simp [Socket.serve, Socket.wrote, Socket.logged, hone, hanswers]

/-- A request on an idle connection: the outcome depends on the reply alone. -/
theorem request_run {k : Kind} {cmd : Command} {recv : Conn σ α} (hrecv : Receives k recv)
    (hlen : SizeFitsInt cmd.wire) {r : Reply} (hr : r.IsFor k) (hframed : r.Framed k)
    (out : σ) :
    ∃ o out', Ends o ∧ ∀ (s : Socket) (more : List Bytes), s.Idle →
      s.tx.commandsIn cmd.wire = 1 → s.tx.answers = r.encode :: more →
        ∃ s', (Body.request cmd recv).run (s, out) = (o, (s', out')) ∧
          s.Advanced s' [cmd.wire] more := by
  -- The reply alone fixes the outcome, before any connection is looked at.
  rcases hrecv.settles r hr hframed out with ⟨o, out', ho, hdec⟩
  refine ⟨o, out', ho, fun s more hidle hone hanswers => ?_⟩
  rcases send_answered hlen hidle hone hanswers out with
    ⟨s₁, hsend, hat, htx, hsent, hmore, hcommands⟩
  rw [← List.append_nil r.encode] at hat
  rcases hdec [] s₁.tx (s₁, out) ⟨hat, rfl⟩ with ⟨hrun, ⟨hin, hrx, htx'⟩, hout⟩
  refine ⟨(recv (s₁, out)).2.1, ?_, ⟨hin, hrx, ?_⟩, ?_, ?_, ?_⟩
  · have hseq : (Body.request cmd recv).run (s, out) = recv (s₁, out) := Prog.bind_returns hsend
    rw [hseq]
    exact Prod.ext hrun (Prod.ext rfl hout)
  · rw [htx']
    exact htx
  · rw [htx', hsent]
  · rw [htx', hmore]
  · rw [htx', hcommands]

theorem returns_run {s : Socket} (h : s.Idle) (a : α) (out : σ) :
    (Body.returns a : Body σ α).run (s, out) = (.returns a, (s, out)) ∧
      s.Advanced s [] s.tx.answers :=
  ⟨rfl, h, (List.append_nil _).symm, rfl, rfl⟩

theorem Slip.half {δ : Type} [DoubleFormat δ] {b : Body σ α} (h : Slip δ b) :
    (∃ cmd a, b = .sendOnly cmd a) ∨ ∃ recv k, b = .recvOnly recv ∧ Receives k recv := by
  cases h with
  | mset h =>
      right
      exact ⟨recvOkReply, .status, if_neg (not_not.2 h), recvOkReply_receives⟩
  | msetnx h =>
      right
      exact ⟨recvBoolReply, .integer, if_neg (not_not.2 h), recvBoolReply_receives⟩
  | zrangeWithscores key start stop withscores => exact Or.inl ⟨_, (), rfl⟩
  | zrangebyscoreOpt key min max opt => exact Or.inl ⟨_, (), rfl⟩

/-! ### Calls that are not exchanges -/

/-- A fresh connection to a server that is going to answer with `rs`. -/
def answering (rs : List Reply) : Socket :=
  { plainSocket [] with tx := { (plainSocket []).tx with answers := rs.map Reply.encode } }

theorem answering_idle (rs : List Reply) : (answering rs).Idle :=
  ⟨rfl, plainSocket_healthy [], by simp [answering, plainSocket, Tx.Healthy]⟩

theorem error_isFor (k : Kind) : (Reply.error []).IsFor k ∧ (Reply.error []).Framed k := by
  refine ⟨?_, trivial⟩
  cases k <;> exact ⟨by simp, by simp⟩

/-- What an exchange says of a server with enough error replies. -/
theorem Exchange.with_errors {b : Body σ α} {k : Kind} {n : Nat} (h : Exchange b k n n) (out : σ) :
    Ends (b.run (answering (List.replicate (n + 1) (.error [])), out)).1 ∧
      (b.run (answering (List.replicate (n + 1) (.error [])), out)).2.1.tx.sent.length = n ∧
      (b.run (answering (List.replicate (n + 1) (.error [])), out)).2.1.tx.answers.length = 1 ∧
      (b.run (answering (List.replicate (n + 1) (.error [])), out)).2.1.rx.incoming = [] := by
  rcases h (answering (List.replicate (n + 1) (.error []))) out _ (answering_idle _)
    (fun _ => rfl) (fun r hr => (List.eq_of_mem_replicate hr) ▸ error_isFor k) rfl
    (by rw [List.length_replicate]; omega) with ⟨hends, hsent, hanswers, hin⟩
  refine ⟨hends, ?_, ?_, ?_⟩
  · rw [hsent]
    exact Nat.zero_add n
  · rw [hanswers, List.length_map, List.length_drop, List.length_replicate]
    omega
  · have hnone : ((List.replicate (n + 1) (Reply.error [])).take n).drop n = [] :=
      List.drop_eq_nil_of_le (by rw [List.length_take]; omega)
    rw [hin, hnone, List.flatMap_nil]

theorem recvOnly_not_exchange [Nonempty σ] {recv : Conn σ α} (h : Waits recv) (k : Kind) (n : Nat) :
    ¬ Exchange (.recvOnly recv) k n n := by
  intro hex
  rcases ‹Nonempty σ› with ⟨out⟩
  rcases hex.with_errors out with ⟨hends, -, -, -⟩
  -- No command has gone out, so no answer comes.
  have hblocks := (h out _ (answering (List.replicate (n + 1) (.error [])), out)
    ⟨(answering_idle _).at_nil, rfl⟩).1
  change Ends (recv _).1 at hends
  rw [hblocks] at hends
  exact hends

/-- With a text that is too long the call does not end, or the server has given no answer. -/
theorem long_not_ends {cmd : Command} (hlen : ¬ SizeFitsInt cmd.wire) {s : Socket × σ}
    (hidle : s.1.Idle) {f : Conn σ α} (hends : Ends ((send cmd.wire >>= fun _ => f) s).1) :
    ∃ s' : Socket, s'.tx.answers = s.1.tx.answers ∧ s'.tx.sent = s.1.tx.sent ++ [cmd.wire] ∧
      At [] s'.tx s' ∧ (send cmd.wire >>= fun _ => f) s = f (s', s.2) := by
  rcases send_truncated hlen hidle.tx with ⟨s', hsend⟩ | ⟨k, es, hsend⟩
  · rw [Prog.bind_halts hsend] at hends
    exact hends.elim
  · refine ⟨(s.1.logged cmd.wire).wrote (cmd.wire.take k) es, rfl, rfl, ?_, ?_⟩
    · exact ⟨hidle.incoming, hidle.rx, rfl⟩
    · exact Prog.bind_returns hsend

theorem request_not_exchange [Nonempty σ] {cmd : Command} {recv : Conn σ α} (h : Waits recv)
    (hlen : ¬ SizeFitsInt cmd.wire) (k : Kind) (n : Nat) :
    ¬ Exchange (.request cmd recv) k n n := by
  intro hex
  rcases ‹Nonempty σ› with ⟨out⟩
  rcases hex.with_errors out with ⟨hends, -, -, -⟩
  rcases long_not_ends hlen (answering_idle _) hends with ⟨s', -, -, hat, hrun⟩
  -- The server has got a part of the text, and the member waits for an answer to it.
  have hblocks := (h out s'.tx (s', out) ⟨hat, rfl⟩).1
  change Ends ((send cmd.wire >>= fun _ => recv) _).1 at hends
  rw [hrun, hblocks] at hends
  exact hends

theorem sendOnly_not_exchange [Nonempty σ] (cmd : Command) (a : α) (k : Kind) (n : Nat) :
    ¬ Exchange (.sendOnly cmd a : Body σ α) k n n := by
  intro hex
  rcases ‹Nonempty σ› with ⟨out⟩
  rcases hex.with_errors out with ⟨hends, hsent, hanswers, hin⟩
  by_cases hlen : SizeFitsInt cmd.wire
  · have hanswers' : (answering (List.replicate (n + 1) (.error []))).tx.answers =
        (Reply.error []).encode :: (List.replicate n (.error [])).map Reply.encode := rfl
    rcases send_answered hlen (answering_idle _) rfl hanswers' out with ⟨s', hsend, hat, -⟩
    have hrun : (Body.sendOnly cmd a : Body σ α).run
        (answering (List.replicate (n + 1) (.error [])), out) = (.returns a, (s', out)) :=
      Prog.bind_returns hsend
    -- The answer is there and nobody has read it.
    rw [hrun] at hin
    rw [hat.incoming] at hin
    exact absurd hin (by decide)
  · rcases long_not_ends hlen (answering_idle _) hends with ⟨s', hmore, hlog, -, hrun⟩
    have hrun' : (Body.sendOnly cmd a : Body σ α).run
        (answering (List.replicate (n + 1) (.error [])), out) = (.returns a, (s', out)) := hrun
    rw [hrun'] at hsent hanswers
    rw [hlog] at hsent
    rw [hmore] at hanswers
    -- One message is on record and no answer has been given, against `n` of each.
    simp [answering, plainSocket] at hsent hanswers
    omega

/-! ### Calls that are -/

theorem request_exchange {k : Kind} {cmd : Command} {recv : Conn σ α} (hrecv : Receives k recv)
    (hlen : SizeFitsInt cmd.wire) : Exchange (.request cmd recv) k 1 1 := by
  intro s out rs hidle hone hrs hanswers hpos
  cases rs with
  | nil => exact absurd hpos (by simp)
  | cons r rs =>
      rcases hrs r (by simp) with ⟨hr, hframed⟩
      rcases request_run hrecv hlen hr hframed out with ⟨o, out', ho, hrun⟩
      rcases hrun s (rs.map Reply.encode) hidle (hone _) hanswers with ⟨s', heq, hadv⟩
      rw [heq]
      exact ⟨ho, by simp [hadv.sent], by simp [hadv.answers], by simp [hadv.idle.incoming]⟩

theorem returns_exchange (a : α) (k : Kind) : Exchange (.returns a : Body σ α) k 0 0 := by
  intro s out rs hidle _ _ hanswers _
  exact ⟨trivial, rfl, hanswers, hidle.incoming⟩

theorem exchange_iff {δ : Type} [DoubleFormat δ] {b : Body σ α} {k : Kind}
    (h : Operation δ b k) : (∃ n, Exchange b k n n) ↔ KeepsLockstep δ b := by
  have hne := h.nonempty
  constructor
  · rintro ⟨n, hex⟩
    refine ⟨?_, ?_⟩
    -- A slip has only one of the two halves, and an exchange needs both.
    · intro hslip
      rcases hslip.half with ⟨cmd, a, rfl⟩ | ⟨recv, k', rfl, hrecv⟩
      · exact sendOnly_not_exchange cmd a k n hex
      · exact recvOnly_not_exchange hrecv.waits k n hex
    · intro wire hwire
      by_contra hlen
      cases h.shape with
      | request hrecv =>
          cases hwire
          exact request_not_exchange hrecv.waits hlen k n hex
      | returns a => exact absurd hwire (by simp [Body.wire?])
      | slip hslip =>
          rcases hslip.half with ⟨cmd, a, rfl⟩ | ⟨recv, k', rfl, hrecv⟩
          · exact sendOnly_not_exchange cmd a k n hex
          · exact recvOnly_not_exchange hrecv.waits k n hex
  · rintro ⟨hslip, hlen⟩
    cases h.shape with
    | request hrecv => exact ⟨1, request_exchange hrecv (hlen _ rfl)⟩
    | returns a => exact ⟨0, returns_exchange a k⟩
    | slip h => exact (hslip h).elim

/-! ## Sequences of calls -/

/-- A call of a member, with the caller's containers and the server's reply to its command. -/
structure Call (δ : Type) [DoubleFormat δ] where
  σ : Type
  α : Type
  body : Body σ α
  kind : Kind
  operation : Operation δ body kind
  out : σ
  reply : Reply

section Calls

variable {δ : Type} [DoubleFormat δ]

/-- The answers the call makes the server give. -/
def Call.answers (c : Call δ) : List Bytes :=
  if c.body.wire?.isSome then [c.reply.encode] else []

/-- What the call alone gives, on a fresh connection where its own reply is the only one. -/
def Call.alone (c : Call δ) : Outcome Exn c.α × c.σ :=
  let r := c.body.run (answering [c.reply], c.out)
  (r.1, r.2.2)

/-- The call ends with nothing unread, and what it gives comes from its own reply. -/
def Call.Answered (c : Call δ) (s : Socket) : Prop :=
  Ends (c.body.run (s, c.out)).1 ∧ (c.body.run (s, c.out)).2.1.rx.incoming = [] ∧
    ((c.body.run (s, c.out)).1, (c.body.run (s, c.out)).2.2) = c.alone

/-- The calls made one after the other, each starting on the socket the one before has left. -/
def InLockstep : Socket → List (Call δ) → Prop
  | _, [] => True
  | s, c :: cs => c.Answered s ∧ InLockstep (c.body.run (s, c.out)).2.1 cs

/-- No slip, a text the server takes as one command, and a reply that can be read exactly. -/
structure Call.Proper (c : Call δ) (commandsIn : Bytes → Nat) : Prop where
  keeps : KeepsLockstep δ c.body
  one : ∀ wire, c.body.wire? = some wire → commandsIn wire = 1
  isFor : c.reply.IsFor c.kind
  framed : c.reply.Framed c.kind

theorem Call.step (c : Call δ) {s : Socket} (hidle : s.Idle) (h : c.Proper s.tx.commandsIn)
    {more : List Bytes} (hanswers : s.tx.answers = c.answers ++ more) :
    c.Answered s ∧ ∃ msgs, s.Advanced (c.body.run (s, c.out)).2.1 msgs more := by
  rcases c with ⟨σ, α, body, kind, hop, out, reply⟩
  rcases h with ⟨⟨hslip, hlen⟩, hone, hr, hframed⟩
  cases hop.shape with
  | slip h => exact (hslip h).elim
  | returns a =>
      rcases returns_run hidle a out with ⟨hrun, hadv⟩
      refine ⟨⟨trivial, hadv.idle.incoming, rfl⟩, [], ?_⟩
      rw [show more = s.tx.answers from hanswers.symm]
      exact hadv
  | request hrecv =>
      rename_i cmd recv
      rcases request_run hrecv (hlen _ rfl) hr hframed out with ⟨o, out', ho, hrun⟩
      rcases hrun s more hidle (hone _ rfl) hanswers with ⟨s', heq, hadv⟩
      -- The same reply on a fresh connection gives the same outcome and the same containers.
      rcases hrun (answering [reply]) [] (answering_idle _) rfl rfl with ⟨s'', halone, -⟩
      refine ⟨⟨?_, ?_, ?_⟩, [cmd.wire], ?_⟩
      · simpa only [heq] using ho
      · simpa only [heq] using hadv.idle.incoming
      · simp only [Call.alone, heq, halone]
      · simpa only [heq] using hadv

theorem inLockstep_of_proper :
    ∀ {cs : List (Call δ)} {s : Socket}, s.Idle → s.tx.answers = cs.flatMap Call.answers →
      (∀ c ∈ cs, c.Proper s.tx.commandsIn) → InLockstep s cs := by
  intro cs
  -- Over the calls: each finds the connection idle, and leaves it so with the later answers to come.
  induction cs with
  | nil =>
      intro s _ _ _
      trivial
  | cons c cs ih =>
      intro s hidle hanswers hproper
      rcases c.step hidle (hproper c (by simp)) (hanswers.trans (List.flatMap_cons ..)) with
        ⟨hanswered, msgs, hadv⟩
      refine ⟨hanswered, ih hadv.idle hadv.answers fun d hd => ?_⟩
      rw [hadv.commandsIn]
      exact hproper d (by simp [hd])

end Calls

/-- A member reads as many replies as it sends commands exactly when it is no slip and its text is
not too long; and a sequence of such calls stays in step with the server, as long as the server
takes each text as one command and its replies can be read exactly. -/
theorem lockstep_iff {δ : Type} [DoubleFormat δ] :
    (∀ {σ α : Type} {b : Body σ α} {k : Kind}, Operation δ b k →
      ((∃ n, Exchange b k n n) ↔ KeepsLockstep δ b)) ∧
    (∀ (s : Socket) (cs : List (Call δ)), s.Idle → s.tx.answers = cs.flatMap Call.answers →
      (∀ c ∈ cs, c.Proper s.tx.commandsIn) → InLockstep s cs) :=
  ⟨fun h => exchange_iff h, fun _ _ hidle hanswers hproper =>
    inLockstep_of_proper hidle hanswers hproper⟩

theorem request_not_slip {δ : Type} [DoubleFormat δ] {cmd : Command} {recv : Conn σ α} :
    ¬ Slip δ (.request cmd recv) := by
  intro h
  rcases h.half with ⟨cmd', a, hbody⟩ | ⟨recv', k, hbody, -⟩
  · exact absurd hbody (by simp)
  · exact absurd hbody (by simp)

/-- `get` and `incr`, with the replies of the server. -/
def getAndIncr : List (Call Int) :=
  [{ σ := Unit, α := Bytes, body := Connection.get (text "k"), kind := .bulk,
     operation := .get (text "k"), out := (), reply := .bulk (some (text "v")) },
    { σ := Unit, α := Int, body := Connection.incr (text "n"), kind := .integer,
      operation := .incr (text "n"), out := (), reply := .integer 7 }]

theorem lockstep_iff_get :
    (∃ n, Exchange (Connection.get (text "k")) .bulk n n) ∧
      InLockstep (answering [.bulk (some (text "v")), .integer 7]) getAndIncr := by
  have hget : KeepsLockstep Int (Connection.get (text "k")) :=
    ⟨request_not_slip, fun wire hwire => by cases hwire; exact ⟨by decide⟩⟩
  have hincr : KeepsLockstep Int (Connection.incr (text "n")) :=
    ⟨request_not_slip, fun wire hwire => by cases hwire; exact ⟨by decide⟩⟩
  refine ⟨(lockstep_iff (δ := Int)).1 (.get (text "k")) |>.2 hget, ?_⟩
  refine lockstep_iff.2 _ _ (answering_idle _) rfl ?_
  simp only [getAndIncr, List.forall_mem_cons]
  refine ⟨⟨hget, fun _ _ => rfl, trivial, fun v hv => ?_⟩,
    ⟨hincr, fun _ _ => rfl, trivial, ?_⟩, by simp⟩
  · cases hv
    decide
  · simp [Reply.Framed]

/-- `mset` waits for a reply it has not asked for, and `zrange` with scores leaves its own unread. -/
theorem mset_not_exchange :
    (¬ ∃ n, Exchange (Connection.mset [text "k"] [text "v"]) .status n n) ∧
      ¬ ∃ n, Exchange (Connection.zrangeWithscores (text "z") 0 (-1) true :
        Body (List (KeyScore Int)) Unit) .multiBulk n n := by
  refine ⟨?_, ?_⟩
  · rintro ⟨n, hex⟩
    exact recvOnly_not_exchange recvOkReply_receives.waits .status n hex
  · rintro ⟨n, hex⟩
    exact sendOnly_not_exchange _ () .multiBulk n hex

end Redis
end CppPractice
