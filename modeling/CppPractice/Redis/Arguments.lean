import CppPractice.Redis.Sending
import CppPractice.Redis.Containers

/-!
# Arguments — what a call writes, and what of its arguments can be told from that

A call writes one command at most, before it reads anything, so the bytes it writes are the text of
that command.  `Method f kept` lists the public members as functions of their arguments, each with
the part of the arguments that it puts on the line: for most of them all, for a `double` the text
it is printed as, and for the members that drop an argument or send nothing what is left.
-/

namespace CppPractice
namespace Redis

open Program

/-! ## Reading does not write -/

section Frame

variable {σ τ α β : Type}

theorem KeepsTx.pure (a : α) : KeepsTx (Pure.pure a : Conn σ α) := fun _ => rfl

theorem KeepsTx.halt (h : Halt Exn) : KeepsTx (Prog.halt h : Conn σ α) := fun _ => rfl

theorem KeepsTx.redisError (e : RedisError) : KeepsTx (Redis.redisError e : Conn σ α) :=
  fun _ => rfl

theorem KeepsTx.modifyOut (g : σ → σ) : KeepsTx (Prog.modify fun s => (s.1, g s.2) : Conn σ Unit) :=
  fun _ => rfl

theorem KeepsTx.withLocal {init : τ} {p : Conn τ α} (h : KeepsTx p) :
    KeepsTx (Prog.withLocal init p : Conn σ (α × τ)) := by
  intro s
  have hp := h (s.1, init)
  rcases hrun : p (s.1, init) with ⟨o, s'⟩
  rw [hrun] at hp
  cases o with
  | returns a =>
      rw [Prog.withLocal_returns hrun]
      exact hp
  | halts r =>
      rw [Prog.withLocal_halts hrun]
      exact hp

theorem keepsTx_recvSingleLineReply : KeepsTx (recvSingleLineReply : Conn σ Bytes) := by
  refine reads_readLine.keepsTx.bind fun line => ?_
  split
  · exact KeepsTx.redisError _
  · split
    · exact KeepsTx.redisError _
    · split
      · exact KeepsTx.redisError _
      · exact KeepsTx.pure _

theorem keepsTx_recvOkReply : KeepsTx (recvOkReply : Conn σ Unit) := by
  refine keepsTx_recvSingleLineReply.bind fun status => ?_
  split
  · exact KeepsTx.redisError _
  · exact KeepsTx.pure _

theorem keepsTx_recvIntReply : KeepsTx (recvIntReply : Conn σ Int) := by
  refine reads_readLine.keepsTx.bind fun line => ?_
  split
  · exact KeepsTx.redisError _
  · split
    · exact KeepsTx.redisError _
    · exact (reads_valueFromString _ _).keepsTx

theorem keepsTx_recvIntOkReply : KeepsTx (recvIntOkReply : Conn σ Unit) := by
  refine keepsTx_recvIntReply.bind fun n => ?_
  split
  · exact KeepsTx.redisError _
  · exact KeepsTx.pure _

theorem keepsTx_recvBoolReply : KeepsTx (recvBoolReply : Conn σ Bool) :=
  keepsTx_recvIntReply.bind fun _ => KeepsTx.pure _

theorem keepsTx_recvIntReplyEqOne : KeepsTx (recvIntReplyEqOne : Conn σ Bool) :=
  keepsTx_recvIntReply.bind fun _ => KeepsTx.pure _

theorem keepsTx_recvDoubleReply {δ : Type} [DoubleFormat δ] :
    KeepsTx (recvDoubleReply : Conn σ δ) := by
  refine reads_readLine.keepsTx.bind fun line => ?_
  split
  · exact KeepsTx.redisError _
  · split
    · exact KeepsTx.redisError _
    · refine reads_readLine.keepsTx.bind fun line => ?_
      split
      · exact KeepsTx.redisError _
      · exact (reads_valueFromString _ _).keepsTx

theorem keepsTx_recvElements (add : Bytes → σ → σ) :
    ∀ n : Nat, KeepsTx (recvElements add n : Conn σ Unit) := by
  intro n
  induction n with
  | zero => exact KeepsTx.pure ()
  | succ n ih =>
      exact reads_recvBulkReply.keepsTx.bind fun element =>
        (KeepsTx.modifyOut (add element)).bind fun _ => ih

theorem keepsTx_recvMultiBulk (add : Bytes → σ → σ) :
    KeepsTx (recvMultiBulkReplyInto add : Conn σ Int) := by
  refine (reads_recvBulkReplyLength _).keepsTx.bind fun length => ?_
  split
  · exact KeepsTx.redisError _
  · exact (keepsTx_recvElements add _).bind fun _ => KeepsTx.pure _

theorem keepsTx_recvMultiBulkReplyVoid : KeepsTx recvMultiBulkReplyVoid :=
  (keepsTx_recvMultiBulk pushBack).bind fun _ => KeepsTx.pure ()

theorem keepsTx_recvKvReply : KeepsTx (recvKvReply : Conn σ KeyValue) := by
  refine (KeepsTx.withLocal (keepsTx_recvMultiBulk pushBack)).bind ?_
  rintro ⟨_, out⟩
  match out with
  | [] => exact KeepsTx.redisError _
  | [_] => exact KeepsTx.redisError _
  | _ :: _ :: _ => exact KeepsTx.pure _

theorem keepsTx_recvKvReplyVal : KeepsTx (recvKvReplyVal : Conn σ Bytes) :=
  keepsTx_recvKvReply.bind fun _ => KeepsTx.pure _

theorem keepsTx_recvFieldsAndValues : KeepsTx recvFieldsAndValues := by
  refine (KeepsTx.withLocal (keepsTx_recvMultiBulk pushBack)).bind ?_
  rintro ⟨_, all⟩
  exact KeepsTx.modifyOut (pushPairs all)

theorem keepsTx_recvDatatype : KeepsTx (recvDatatype : Conn σ Datatype) :=
  keepsTx_recvSingleLineReply.bind fun _ => KeepsTx.pure _

theorem keepsTx_infoLine (sectionName line : Bytes) : KeepsTx (infoLine sectionName line) := by
  unfold infoLine
  split
  · split
    · exact KeepsTx.pure ()
    · split
      · exact KeepsTx.halt _
      · split
        · exact KeepsTx.redisError _
        · exact KeepsTx.pure ()
  · split
    · exact KeepsTx.pure ()
    · split
      · rename_i key value _
        exact KeepsTx.modifyOut fun out : StringMap => Function.update out key (some value)
      · exact KeepsTx.redisError _
      · exact KeepsTx.halt _

theorem keepsTx_infoLines (sectionName : Bytes) :
    ∀ lines : List Bytes, KeepsTx (infoLines sectionName lines) := by
  intro lines
  induction lines with
  | nil => exact KeepsTx.pure ()
  | cons line lines ih => exact (keepsTx_infoLine sectionName line).bind fun _ => ih

theorem keepsTx_recvInfo (sectionName : Bytes) : KeepsTx (recvInfo sectionName) := by
  refine reads_recvBulkReply.keepsTx.bind fun response => ?_
  split
  · exact KeepsTx.redisError _
  · split
    · exact KeepsTx.halt _
    · exact KeepsTx.redisError _
    · exact keepsTx_infoLines sectionName _

end Frame

/-! ## What a call writes -/

section Writing

variable {σ α : Type}

/-- The bytes that the call adds to what has been written. -/
def Body.writes (b : Body σ α) (s : Socket) (out : σ) : Bytes :=
  (b.run (s, out)).2.1.tx.written.drop s.tx.written.length

/-- The part of a message that `_send` writes: all of it, when its size is an `int`. -/
def written (msg : Bytes) : Bytes := msg.take (toInt msg.length).toNat

def Body.bytes (b : Body σ α) : Bytes := (b.wire?.map written).getD []

/-- The text of the call has a size that is an `int`. -/
def Body.Fits (b : Body σ α) : Prop := ∀ wire, b.wire? = some wire → SizeFitsInt wire

/-- The reading half of a member does not write. -/
def Body.Quiet : Body σ α → Prop
  | .request _ recv => KeepsTx recv
  | .sendOnly _ _ => True
  | .recvOnly recv => KeepsTx recv
  | .returns _ => True

theorem written_of_fits {msg : Bytes} (h : SizeFitsInt msg) : written msg = msg := by
  rw [written, toInt_of_lt h.lt]
  simp

theorem send_written (msg : Bytes) {s : Socket × σ} (h : s.1.tx.Healthy) :
    (send msg s).2.1.tx.written = s.1.tx.written ++ written msg := by
  rcases lt_or_ge (toInt msg.length) 0 with hneg | hnonneg
  -- A count below zero sends `write` past the message, and the run has no meaning.
  · have hwrite := anetWrite_negative (s := (s.1.logged msg, s.2)) hneg h
    have hnone : (toInt msg.length).toNat = 0 := by omega
    rw [send_halts hwrite, written, hnone, List.take_zero, List.append_nil]
    rfl
  · rcases anetWrite_spec (s := (s.1.logged msg, s.2)) (toInt_lt _) (Int.toNat_of_nonneg hnonneg).symm
      (toInt_le hnonneg) h with ⟨es, -, hwrite⟩
    rw [send_ok hwrite, (serverReacts_written _ _ _).2]
    rfl

theorem send_bind_written (msg : Bytes) {p : Conn σ α} (hp : KeepsTx p) {s : Socket × σ}
    (h : s.1.tx.Healthy) :
    ((send msg >>= fun _ => p) s).2.1.tx.written = s.1.tx.written ++ written msg := by
  have hwritten := send_written msg h
  rcases hrun : send msg s with ⟨o, s'⟩
  rw [hrun] at hwritten
  cases o with
  | returns u =>
      rw [Prog.bind_returns hrun, hp s']
      exact hwritten
  | halts r =>
      rw [Prog.bind_halts hrun]
      exact hwritten

theorem request_writes (cmd : Command) {recv : Conn σ α} (hrecv : KeepsTx recv) {s : Socket}
    (h : s.tx.Healthy) (out : σ) : (Body.request cmd recv).writes s out = written cmd.wire := by
  have hrun : (Body.request cmd recv).run (s, out) = (send cmd.wire >>= fun _ => recv) (s, out) :=
    rfl
  rw [Body.writes, hrun, send_bind_written cmd.wire hrecv h, List.drop_left]

theorem sendOnly_writes (cmd : Command) (a : α) {s : Socket} (h : s.tx.Healthy) (out : σ) :
    (Body.sendOnly cmd a).writes s out = written cmd.wire := by
  have hpure : KeepsTx (pure a : Conn σ α) := fun _ => rfl
  have hrun : (Body.sendOnly cmd a).run (s, out) = (send cmd.wire >>= fun _ => pure a) (s, out) :=
    rfl
  rw [Body.writes, hrun, send_bind_written cmd.wire hpure h, List.drop_left]

theorem Body.bytes_of_wire {b : Body σ α} {wire : Bytes} (h : b.wire? = some wire) :
    b.bytes = written wire := by
  rw [Body.bytes, h, Option.map_some, Option.getD_some]

/-- On a working connection a call writes its text. -/
theorem Body.writes_eq {b : Body σ α} (hquiet : b.Quiet) {s : Socket} (h : s.tx.Healthy) (out : σ) :
    b.writes s out = b.bytes := by
  cases b with
  | request cmd recv => rw [request_writes cmd hquiet h, Body.bytes_of_wire rfl]
  | sendOnly cmd a => rw [sendOnly_writes cmd a h, Body.bytes_of_wire rfl]
  | recvOnly recv =>
      have htx : ((Body.recvOnly recv).run (s, out)).2.1.tx = s.tx := hquiet (s, out)
      rw [Body.writes, htx, List.drop_length]
      rfl
  | returns a => exact List.drop_length

theorem wire_ne_nil (cmd : Command) : cmd.wire ≠ [] := by
  simp [Command.wire, Command.operatorString, crlf]

theorem Body.wire_ne_nil {b : Body σ α} {wire : Bytes} (h : b.wire? = some wire) : wire ≠ [] := by
  cases b with
  | request cmd recv =>
      cases h
      exact Redis.wire_ne_nil cmd
  | sendOnly cmd a =>
      cases h
      exact Redis.wire_ne_nil cmd
  | recvOnly recv => cases h
  | returns a => cases h

/-- Texts that fit are written as they are. -/
theorem Body.bytes_eq_iff {b b' : Body σ α} (h : b.Fits) (h' : b'.Fits) :
    b.bytes = b'.bytes ↔ b.wire? = b'.wire? := by
  unfold Body.bytes
  -- A call without a text writes nothing, which no text is.
  cases hwire : b.wire? with
  | none =>
      cases hwire' : b'.wire? with
      | none => simp
      | some wire' =>
          have hne := Body.wire_ne_nil hwire'
          simp [written_of_fits (h' _ hwire'), hne.symm]
  | some wire =>
      cases hwire' : b'.wire? with
      | none =>
          have hne := Body.wire_ne_nil hwire
          simp [written_of_fits (h _ hwire), hne]
      | some wire' => simp [written_of_fits (h _ hwire), written_of_fits (h' _ hwire')]

end Writing

/-! ## Arguments -/

/-- A string argument: not empty, without blanks and line ends. -/
def Word (t : Bytes) : Prop := t ≠ [] ∧ space ∉ t ∧ OneLine t

instance (t : Bytes) : Decidable (Word t) :=
  inferInstanceAs (Decidable (t ≠ [] ∧ space ∉ t ∧ OneLine t))

/-- Vectors of keys and values, of one length. -/
structure KeyValues where
  keys : List Bytes
  values : List Bytes
  same : keys.length = values.length

/-- Which arguments a call may have. -/
class Argument (A : Type) where
  Proper : A → Prop

export Argument (Proper)

instance : Argument Bytes := ⟨Word⟩

instance : Argument (List Bytes) := ⟨fun v => ∀ t ∈ v, Word t⟩

instance : Argument KeyValues := ⟨fun a => (∀ t ∈ a.keys, Word t) ∧ ∀ t ∈ a.values, Word t⟩

instance : Argument Unit := ⟨fun _ => True⟩

instance : Argument Int := ⟨fun _ => True⟩

instance : Argument UInt32 := ⟨fun _ => True⟩

instance : Argument Bool := ⟨fun _ => True⟩

instance : Argument SortOrder := ⟨fun _ => True⟩

instance : Argument ZsetOpt := ⟨fun _ => True⟩

instance (priority := low) {δ : Type} [DoubleFormat δ] : Argument δ := ⟨fun _ => True⟩

instance {A B : Type} [Argument A] [Argument B] : Argument (A × B) :=
  ⟨fun a => Proper a.1 ∧ Proper a.2⟩

/-- What `zrangebyscore` puts on the line of its options. -/
def ZsetOpt.shown (opt : ZsetOpt) : Bool × Option (Int × Int) :=
  (opt.withscores, if opt.limit then some (opt.limitOffset, opt.limitCount) else none)

section Methods

variable (δ : Type) [DoubleFormat δ]

/-- The public members as functions of their arguments, and what each keeps of them. -/
inductive Method :
    {A B σ α : Type} → [Argument A] → (A → Body σ α) → (A → B) → Prop
  | set : Method (fun a : Bytes × Bytes => Connection.set a.1 a.2) id
  | setnx : Method (fun a : Bytes × Bytes => Connection.setnx a.1 a.2) id
  | setex : Method (fun a : Bytes × Int × Bytes => Connection.setex a.1 a.2.1 a.2.2) id
  | setrange : Method (fun a : Bytes × Int × Bytes => Connection.setrange a.1 a.2.1 a.2.2) id
  | mset : Method (fun a : KeyValues => Connection.mset a.keys a.values) (fun _ => ())
  | msetnx : Method (fun a : KeyValues => Connection.msetnx a.keys a.values) (fun _ => ())
  | get : Method Connection.get id
  | getset : Method (fun a : Bytes × Bytes => Connection.getset a.1 a.2) id
  | getrange : Method (fun a : Bytes × Int × Int => Connection.getrange a.1 a.2.1 a.2.2) id
  | mget : Method Connection.mget id
  | incr : Method Connection.incr id
  | incrby : Method (fun a : Bytes × Int => Connection.incrby a.1 a.2) id
  | decr : Method Connection.decr id
  | decrby : Method (fun a : Bytes × Int => Connection.decrby a.1 a.2) id
  | append : Method (fun a : Bytes × Bytes => Connection.append a.1 a.2) id
  | strlen : Method Connection.strlen id
  | hset : Method (fun a : Bytes × Bytes × Bytes => Connection.hset a.1 a.2.1 a.2.2) id
  | hsetnx : Method (fun a : Bytes × Bytes × Bytes => Connection.hsetnx a.1 a.2.1 a.2.2) id
  | hmset : Method (fun a : Bytes × KeyValues => Connection.hmset a.1 a.2.keys a.2.values) id
  | hget : Method (fun a : Bytes × Bytes => Connection.hget a.1 a.2) id
  | hmget : Method (fun a : Bytes × List Bytes => Connection.hmget a.1 a.2) id
  | hincrby : Method (fun a : Bytes × Bytes × Int => Connection.hincrby a.1 a.2.1 a.2.2) id
  | hexists : Method (fun a : Bytes × Bytes => Connection.hexists a.1 a.2) id
  | hlen : Method Connection.hlen id
  | hdel : Method (fun a : Bytes × Bytes => Connection.hdel a.1 a.2) id
  | hkeys : Method Connection.hkeys id
  | hvals : Method Connection.hvals id
  | hgetall : Method Connection.hgetall id
  | rpush : Method (fun a : Bytes × Bytes => Connection.rpush a.1 a.2) id
  | lpush : Method (fun a : Bytes × Bytes => Connection.lpush a.1 a.2) id
  | rpushx : Method (fun a : Bytes × Bytes => Connection.rpushx a.1 a.2) id
  | lpushx : Method (fun a : Bytes × Bytes => Connection.lpushx a.1 a.2) id
  | llen : Method Connection.llen id
  | lrange : Method (fun a : Bytes × Int × Int => Connection.lrange a.1 a.2.1 a.2.2) id
  | ltrim : Method (fun a : Bytes × Int × Int => Connection.ltrim a.1 a.2.1 a.2.2) id
  | lindex : Method (fun a : Bytes × Int => Connection.lindex a.1 a.2) id
  | lset : Method (fun a : Bytes × Int × Bytes => Connection.lset a.1 a.2.1 a.2.2) id
  | lrem : Method (fun a : Bytes × Int × Bytes => Connection.lrem a.1 a.2.1 a.2.2) id
  | lpop : Method Connection.lpop id
  | blpop : Method (fun a : Bytes × Int => Connection.blpop a.1 a.2) id
  | blpopKeys : Method (fun a : List Bytes × Int => Connection.blpopKeys a.1 a.2) id
  | rpop : Method Connection.rpop id
  | brpop : Method (fun a : Bytes × Int => Connection.brpop a.1 a.2) id
  | brpopKeys : Method (fun a : List Bytes × Int => Connection.brpopKeys a.1 a.2) id
  | rpoplpush : Method (fun a : Bytes × Bytes => Connection.rpoplpush a.1 a.2) id
  | brpoplpush : Method (fun a : Bytes × Bytes × Int => Connection.brpoplpush a.1 a.2.1 a.2.2) id
  | sadd : Method (fun a : Bytes × Bytes => Connection.sadd a.1 a.2) id
  | srem : Method (fun a : Bytes × Bytes => Connection.srem a.1 a.2) id
  | spop : Method Connection.spop id
  | sdiff : Method Connection.sdiff id
  | sdiffstore : Method (fun a : Bytes × List Bytes => Connection.sdiffstore a.1 a.2) id
  | sinter : Method Connection.sinter id
  | sinterstore : Method (fun a : Bytes × List Bytes => Connection.sinterstore a.1 a.2) id
  | sunion : Method Connection.sunion id
  | sunionstore : Method (fun a : Bytes × List Bytes => Connection.sunionstore a.1 a.2) id
  | smove : Method (fun a : Bytes × Bytes × Bytes => Connection.smove a.1 a.2.1 a.2.2) id
  | scard : Method Connection.scard id
  | sismember : Method (fun a : Bytes × Bytes => Connection.sismember a.1 a.2) id
  | smembers : Method Connection.smembers id
  | srandmember : Method Connection.srandmember id
  | zadd :
      Method (fun a : Bytes × δ × Bytes => Connection.zadd a.1 a.2.1 a.2.2)
        (fun a => (a.1, DoubleFormat.put a.2.1, a.2.2))
  | zcard : Method Connection.zcard id
  | zcount :
      Method (fun a : Bytes × δ × δ => Connection.zcount a.1 a.2.1 a.2.2)
        (fun a => (a.1, DoubleFormat.put a.2.1, DoubleFormat.put a.2.2))
  | zincrby :
      Method (fun a : Bytes × δ × Bytes => Connection.zincrby a.1 a.2.1 a.2.2)
        (fun a => (a.1, DoubleFormat.put a.2.1, a.2.2))
  | zrange : Method (fun a : Bytes × Int × Int => Connection.zrange a.1 a.2.1 a.2.2) id
  | zrangeWithscores :
      Method (fun a : Bytes × Int × Int × Bool =>
          (Connection.zrangeWithscores a.1 a.2.1 a.2.2.1 a.2.2.2 : Body (List (KeyScore δ)) Unit))
        id
  | zrangebyscore :
      Method (fun a : Bytes × δ × δ => Connection.zrangebyscore a.1 a.2.1 a.2.2)
        (fun a => (a.1, DoubleFormat.put a.2.1, DoubleFormat.put a.2.2))
  | zrangebyscoreLimit :
      Method (fun a : Bytes × δ × δ × Int × Int =>
          Connection.zrangebyscoreLimit a.1 a.2.1 a.2.2.1 a.2.2.2.1 a.2.2.2.2)
        (fun a => (a.1, DoubleFormat.put a.2.1, DoubleFormat.put a.2.2.1, a.2.2.2))
  | zrangebyscoreOpt :
      Method (fun a : Bytes × δ × δ × ZsetOpt =>
          (Connection.zrangebyscoreOpt a.1 a.2.1 a.2.2.1 a.2.2.2 : Body (List (KeyScore δ)) Unit))
        (fun a => (a.1, DoubleFormat.put a.2.1, DoubleFormat.put a.2.2.1, a.2.2.2.shown))
  | zrem : Method (fun a : Bytes × Bytes => Connection.zrem a.1 a.2) id
  | zremrangebyrank :
      Method (fun a : Bytes × Int × Int => Connection.zremrangebyrank a.1 a.2.1 a.2.2) id
  | zremrangebyscore :
      Method (fun a : Bytes × δ × δ => Connection.zremrangebyscore a.1 a.2.1 a.2.2)
        (fun a => (a.1, DoubleFormat.put a.2.1, DoubleFormat.put a.2.2))
  | zrevrange : Method (fun a : Bytes × Int × Int => Connection.zrevrange a.1 a.2.1 a.2.2) Prod.snd
  | zrevrangeWithscores :
      Method (fun a : Bytes × Int × Int × Bool =>
          (Connection.zrevrangeWithscores a.1 a.2.1 a.2.2.1 a.2.2.2 : Body (List (KeyScore δ)) Unit))
        (fun _ => ())
  | zrevrangebyscore :
      Method (fun a : Bytes × Int × Int => Connection.zrevrangebyscore a.1 a.2.1 a.2.2) id
  | zrevrangebyscoreWithscores :
      Method (fun a : Bytes × Int × Int × Bool =>
          (Connection.zrevrangebyscoreWithscores a.1 a.2.1 a.2.2.1 a.2.2.2 :
            Body (List (KeyScore δ)) Unit))
        (fun _ => ())
  | zscore : Method (fun a : Bytes × Bytes => (Connection.zscore a.1 a.2 : Body Unit δ)) id
  | type : Method Connection.type id
  | keys : Method Connection.keys id
  | «exists» : Method Connection.«exists» id
  | del : Method Connection.del id
  | randomkey : Method (fun _ : Unit => Connection.randomkey) id
  | rename : Method (fun a : Bytes × Bytes => Connection.rename a.1 a.2) id
  | renamenx : Method (fun a : Bytes × Bytes => Connection.renamenx a.1 a.2) id
  | debugObject : Method Connection.debugObject id
  | expire : Method (fun a : Bytes × UInt32 => Connection.expire a.1 a.2) id
  | expireat : Method (fun a : Bytes × Int => Connection.expireat a.1 a.2) id
  | ttl : Method Connection.ttl id
  | persist : Method Connection.persist id
  | move : Method (fun a : Bytes × Int => Connection.move a.1 a.2) id
  | save : Method (fun _ : Unit => Connection.save) id
  | bgsave : Method (fun _ : Unit => Connection.bgsave) id
  | select : Method Connection.select id
  | flushdb : Method (fun _ : Unit => Connection.flushdb) id
  | flushall : Method (fun _ : Unit => Connection.flushall) id
  | dbsize : Method (fun _ : Unit => Connection.dbsize) id
  | lastsave : Method (fun _ : Unit => Connection.lastsave) id
  | infoSection : Method Connection.infoSection id
  | info : Method (fun _ : Unit => Connection.info) id
  | auth : Method Connection.auth id
  | watchKeys : Method Connection.watchKeys id
  | watch : Method Connection.watch id
  | unwatch : Method (fun _ : Unit => Connection.unwatch) id
  | multi : Method (fun _ : Unit => Connection.multi) id
  | exec : Method (fun _ : Unit => Connection.exec) id
  | discard : Method (fun _ : Unit => Connection.discard) id
  | configGet : Method Connection.configGet id
  | configSet : Method (fun a : Bytes × Bytes => Connection.configSet a.1 a.2) id
  | configSetLong : Method (fun a : Bytes × Int => Connection.configSetLong a.1 a.2) id
  | sortLimit :
      Method (fun a : Bytes × Int × Int × SortOrder × Bool =>
          Connection.sortLimit a.1 a.2.1 a.2.2.1 a.2.2.2.1 a.2.2.2.2)
        id
  | sort : Method (fun a : Bytes × SortOrder × Bool => Connection.sort a.1 a.2.1 a.2.2) id
  | sortBy :
      Method (fun a : Bytes × Bytes × Int × Int × List Bytes × SortOrder × Bool =>
          Connection.sortBy a.1 a.2.1 a.2.2.1 a.2.2.2.1 a.2.2.2.2.1 a.2.2.2.2.2.1 a.2.2.2.2.2.2)
        id

end Methods

/-! ## What can be told from the line -/

theorem space_notMem_intText (i : Int) : space ∉ intText i := by
  intro h
  rcases mem_intText h with hdigit | hminus
  · exact absurd (isDigit_spec hdigit).1 (by decide)
  · exact absurd hminus (by decide)

theorem natText_inj {m n : Nat} : natText m = natText n ↔ m = n := by
  constructor
  · intro h
    rw [← digitsValue_natText m, h, digitsValue_natText]
  · rintro rfl
    rfl

/-- The text of a number that is not negative does not begin with a minus. -/
theorem natText_ne_minus (n : Nat) (t : Bytes) : natText n ≠ minus :: t := by
  intro h
  have hdigit : isDigit minus = true := isDigit_of_mem_natText (n := n) (by rw [h]; simp)
  exact absurd hdigit (by decide)

theorem intText_inj {i j : Int} : intText i = intText j ↔ i = j := by
  unfold intText
  by_cases hi : i < 0
  · by_cases hj : j < 0
    · simp only [hi, hj, if_true, List.cons_inj_right, natText_inj]
      omega
    · simp only [hi, hj, if_true, if_false]
      refine iff_of_false (fun h => natText_ne_minus _ _ h.symm) ?_
      omega
  · by_cases hj : j < 0
    · simp only [hi, hj, if_true, if_false]
      refine iff_of_false (natText_ne_minus _ _) ?_
      omega
    · simp only [hi, hj, if_false, natText_inj]
      omega

section Lines

variable {δ : Type} [DoubleFormat δ]

@[simp] theorem buffer_command (name : Bytes) : (command name).buffer = name := rfl

@[simp] theorem buffer_string (c : Command) (t : Bytes) : (c <<< t).buffer = c.buffer ++ spaced [t] := by
  simp [spaced]
  rfl

@[simp] theorem buffer_integer (c : Command) (i : Int) :
    (c <<< i).buffer = c.buffer ++ spaced [intText i] := by
  simp [spaced]
  rfl

theorem buffer_double (c : Command) (d : δ) :
    (c <<< d).buffer = c.buffer ++ spaced [DoubleFormat.put d] := by
  simp [spaced]
  rfl

@[simp] theorem buffer_strings (c : Command) (v : List Bytes) :
    (c <<< v).buffer = c.buffer ++ spaced v := by
  have h := buffer_insertVector c v
  rwa [show v.map Streamable.put = v from List.map_id v] at h

theorem spaced_append (ts us : List Bytes) : spaced (ts ++ us) = spaced ts ++ spaced us := by
  simp [spaced]

/-- The pairs of two vectors, one text after the other. -/
def pairTexts (kvs : List (Bytes × Bytes)) : List Bytes := kvs.flatMap fun kv => [kv.1, kv.2]

theorem buffer_insertPairs (cmd : Command) (keys values : List Bytes) :
    (insertPairs cmd keys values).buffer = cmd.buffer ++ spaced (pairTexts (keys.zip values)) := by
  unfold insertPairs
  generalize keys.zip values = kvs
  induction kvs generalizing cmd with
  | nil => simp [pairTexts, spaced]
  | cons kv kvs ih =>
      rw [List.foldl_cons, ih, buffer_string, buffer_string, List.append_assoc, List.append_assoc,
        ← spaced_append, ← spaced_append]
      rfl

/-- The patterns of `sort`, each behind a `GET`. -/
def patternTexts (patterns : List Bytes) : List Bytes := patterns.flatMap fun p => [text "GET", p]

theorem buffer_insertPatterns (cmd : Command) (patterns : List Bytes) :
    (patterns.foldl (fun m pattern => m <<< text "GET" <<< pattern) cmd).buffer =
      cmd.buffer ++ spaced (patternTexts patterns) := by
  induction patterns generalizing cmd with
  | nil => simp [patternTexts, spaced]
  | cons p patterns ih =>
      rw [List.foldl_cons, ih, buffer_string, buffer_string, List.append_assoc, List.append_assoc,
        ← spaced_append, ← spaced_append]
      rfl

theorem pairTexts_inj {kvs kvs' : List (Bytes × Bytes)} :
    pairTexts kvs = pairTexts kvs' ↔ kvs = kvs' := by
  constructor
  · intro h
    induction kvs generalizing kvs' with
    | nil =>
        cases kvs' with
        | nil => rfl
        | cons kv' kvs' => simp [pairTexts] at h
    | cons kv kvs ih =>
        cases kvs' with
        | nil => simp [pairTexts] at h
        | cons kv' kvs' =>
            simp only [pairTexts, List.flatMap_cons, List.cons_append, List.nil_append,
              List.cons.injEq] at h
            rw [Prod.ext h.1 h.2.1, ih h.2.2]
  · rintro rfl
    rfl

theorem patternTexts_inj {patterns patterns' : List Bytes} :
    patternTexts patterns = patternTexts patterns' ↔ patterns = patterns' := by
  constructor
  · intro h
    induction patterns generalizing patterns' with
    | nil =>
        cases patterns' with
        | nil => rfl
        | cons p' patterns' => simp [patternTexts] at h
    | cons p patterns ih =>
        cases patterns' with
        | nil => simp [patternTexts] at h
        | cons p' patterns' =>
            simp only [patternTexts, List.flatMap_cons, List.cons_append, List.nil_append,
              List.cons.injEq, true_and] at h
            rw [h.1, ih h.2]
  · rintro rfl
    rfl

end Lines

/-! ## The members, by the shape of their line -/

section Shapes

variable {A B C D σ α : Type} [Argument A] [Argument B]

/-- The texts of a proper argument have no blanks in them, and tell what is kept of it. -/
structure Shows (texts : A → List Bytes) (kept : A → C) : Prop where
  spaceless : ∀ a, Proper a → ∀ t ∈ texts a, space ∉ t
  same_iff : ∀ a a', texts a = texts a' ↔ kept a = kept a'

theorem shows_word : Shows (fun a : Bytes => [a]) id := by
  refine ⟨?_, fun a a' => by simp⟩
  intro a ha t ht
  rw [List.mem_singleton.1 ht]
  exact ha.2.1

theorem shows_integer : Shows (fun i : Int => [intText i]) id := by
  refine ⟨?_, fun a a' => by simp [intText_inj]⟩
  intro i _ t ht
  rw [List.mem_singleton.1 ht]
  exact space_notMem_intText i

theorem shows_unsigned : Shows (fun n : UInt32 => [intText n.toNat]) id := by
  refine ⟨?_, fun a a' => by simp [intText_inj, UInt32.toNat_inj]⟩
  intro n _ t ht
  rw [List.mem_singleton.1 ht]
  exact space_notMem_intText _

theorem shows_words : Shows (fun v : List Bytes => v) id :=
  ⟨fun _ hv t ht => (hv t ht).2.1, fun _ _ => Iff.rfl⟩

theorem shows_double {δ : Type} [DoubleFormat δ] (hput : ∀ d : δ, space ∉ DoubleFormat.put d) :
    Shows (fun d : δ => [DoubleFormat.put d]) DoubleFormat.put := by
  refine ⟨?_, fun a a' => by simp⟩
  intro d _ t ht
  rw [List.mem_singleton.1 ht]
  exact hput d

/-- One text, and then the texts of the other arguments. -/
theorem Shows.then {first : A → Bytes} {texts : B → List Bytes} {kept : A → C} {kept' : B → D}
    (h : Shows (fun a => [first a]) kept) (h' : Shows texts kept') :
    Shows (fun p : A × B => first p.1 :: texts p.2) fun p => (kept p.1, kept' p.2) := by
  refine ⟨?_, ?_⟩
  · rintro p ⟨hp, hp'⟩ t ht
    rcases List.mem_cons.1 ht with rfl | ht
    · exact h.spaceless p.1 hp _ (List.mem_singleton_self _)
    · exact h'.spaceless p.2 hp' t ht
  · intro p p'
    have hfirst := h.same_iff p.1 p'.1
    rw [List.cons.injEq, and_iff_left rfl] at hfirst
    rw [List.cons.injEq, Prod.mk.injEq, hfirst, h'.same_iff]

/-- Any texts, and then a number of texts that is always the same. -/
theorem Shows.append {texts : A → List Bytes} {texts' : B → List Bytes} {kept : A → C}
    {kept' : B → D} (h : Shows texts kept) (h' : Shows texts' kept')
    (hlen : ∀ b b', (texts' b).length = (texts' b').length) :
    Shows (fun p : A × B => texts p.1 ++ texts' p.2) fun p => (kept p.1, kept' p.2) := by
  refine ⟨?_, ?_⟩
  · rintro p ⟨hp, hp'⟩ t ht
    rcases List.mem_append.1 ht with ht | ht
    · exact h.spaceless p.1 hp t ht
    · exact h'.spaceless p.2 hp' t ht
  · intro p p'
    rw [Prod.mk.injEq, ← h.same_iff, ← h'.same_iff]
    constructor
    -- The last texts are as many in both, so that the two parts can be told from each other.
    · intro heq
      exact List.append_inj' heq (hlen _ _)
    · rintro ⟨htexts, hlast⟩
      rw [htexts, hlast]

/-- A fixed text says nothing. -/
theorem Shows.fixed {texts : A → List Bytes} {kept : A → C} (h : Shows texts kept) {t : Bytes}
    (ht : space ∉ t) : Shows (fun a => t :: texts a) kept := by
  refine ⟨?_, fun a a' => by rw [List.cons.injEq, and_iff_right rfl, h.same_iff]⟩
  intro a ha u hu
  rcases List.mem_cons.1 hu with rfl | hu
  · exact ht
  · exact h.spaceless a ha u hu

/-- An argument that puts nothing on the line is not told. -/
theorem Shows.drop {texts : B → List Bytes} {kept : B → C} (h : Shows texts kept) :
    Shows (fun p : A × B => texts p.2) fun p => kept p.2 :=
  ⟨fun p hp => h.spaceless p.2 hp.2, fun p p' => h.same_iff p.2 p'.2⟩

theorem shows_flag {t : Bytes} (ht : space ∉ t) :
    Shows (fun b : Bool => if b then [t] else []) id := by
  refine ⟨?_, ?_⟩
  · intro b _ u hu
    cases b with
    | true => rwa [List.mem_singleton.1 hu]
    | false => exact absurd hu (by simp)
  · intro b b'
    cases b <;> cases b' <;> simp

theorem shows_order :
    Shows (fun order : SortOrder =>
      [if order = .ascending then text "ASC" else text "DESC"]) id := by
  refine ⟨?_, ?_⟩
  · intro order _ t ht
    rw [List.mem_singleton.1 ht]
    cases order <;> decide
  · intro order order'
    cases order <;> cases order' <;> decide

theorem shows_alpha :
    Shows (fun lexicographically : Bool =>
      [if lexicographically then text "ALPHA" else text ""]) id := by
  refine ⟨?_, ?_⟩
  · intro b _ t ht
    rw [List.mem_singleton.1 ht]
    cases b <;> decide
  · intro b b'
    cases b <;> cases b' <;> decide

theorem shows_pairs :
    Shows (fun kv : KeyValues => pairTexts (kv.keys.zip kv.values)) id := by
  refine ⟨?_, ?_⟩
  · rintro kv ⟨hkeys, hvalues⟩ t ht
    rcases List.mem_flatMap.1 ht with ⟨p, hp, ht⟩
    rcases List.mem_cons.1 ht with rfl | ht
    · exact (hkeys _ (List.of_mem_zip hp).1).2.1
    · rw [List.mem_singleton.1 ht]
      exact (hvalues _ (List.of_mem_zip hp).2).2.1
  · rintro ⟨keys, values, same⟩ ⟨keys', values', same'⟩
    rw [pairTexts_inj]
    constructor
    · intro h
      have hkeys := congrArg (List.map Prod.fst) h
      have hvalues := congrArg (List.map Prod.snd) h
      -- The vectors have one length, so that `zip` keeps all of both.
      rw [List.map_fst_zip same.le, List.map_fst_zip same'.le] at hkeys
      rw [List.map_snd_zip same.ge, List.map_snd_zip same'.ge] at hvalues
      subst hkeys hvalues
      rfl
    · intro h
      cases h
      rfl

theorem shows_patterns : Shows patternTexts id := by
  refine ⟨?_, fun _ _ => patternTexts_inj⟩
  intro patterns hpatterns t ht
  rcases List.mem_flatMap.1 ht with ⟨p, hp, ht⟩
  rcases List.mem_cons.1 ht with rfl | ht
  · decide
  · rw [List.mem_singleton.1 ht]
    exact (hpatterns p hp).2.1

/-- The options of `zrangebyscore` on the line. -/
def optionTexts (opt : ZsetOpt) : List Bytes :=
  (if opt.withscores then [text "WITHSCORES"] else []) ++
    if opt.limit then [text "LIMIT", intText opt.limitOffset, intText opt.limitCount] else []

theorem shows_options : Shows optionTexts ZsetOpt.shown := by
  refine ⟨?_, ?_⟩
  · rintro ⟨withscores, limit, offset, count⟩ - t ht
    have hscores : space ∉ text "WITHSCORES" := by decide
    have hlimit : space ∉ text "LIMIT" := by decide
    have htexts : t = text "WITHSCORES" ∨ t = text "LIMIT" ∨ t = intText offset ∨
        t = intText count := by
      cases withscores <;> cases limit <;> simp [optionTexts] at ht <;> tauto
    rcases htexts with rfl | rfl | rfl | rfl
    · exact hscores
    · exact hlimit
    · exact space_notMem_intText _
    · exact space_notMem_intText _
  · rintro ⟨withscores, limit, offset, count⟩ ⟨withscores', limit', offset', count'⟩
    -- The number of texts tells which options are there.
    cases withscores <;> cases limit <;> cases withscores' <;> cases limit' <;>
      simp [optionTexts, ZsetOpt.shown, intText_inj]

/-- Two calls with proper arguments have the same text exactly when the same is kept of them. -/
def Tells (f : A → Body σ α) (kept : A → C) : Prop :=
  ∀ a a', Proper a → Proper a' → ((f a).wire? = (f a').wire? ↔ kept a = kept a')

theorem tells_of_wire (name : Bytes) {f : A → Body σ α} {texts : A → List Bytes} {kept : A → C}
    (h : Shows texts kept) (hwire : ∀ a, (f a).wire? = some (name ++ spaced (texts a) ++ crlf)) :
    Tells f kept := by
  intro a a' ha ha'
  rw [hwire, hwire, Option.some_inj, List.append_left_inj, List.append_right_inj, ← h.same_iff]
  refine ⟨spaced_inj (h.spaceless a ha) (h.spaceless a' ha'), fun heq => ?_⟩
  rw [heq]

theorem tells_request (name : Bytes) {cmd : A → Command} {recv : A → Conn σ α}
    {texts : A → List Bytes} {kept : A → C} (h : Shows texts kept)
    (hbuffer : ∀ a, (cmd a).buffer = name ++ spaced (texts a)) :
    Tells (fun a => .request (cmd a) (recv a)) kept :=
  tells_of_wire name h fun a => by rw [Body.wire?, Command.wire, Command.operatorString, hbuffer]

variable {name : Bytes} {recv : Conn σ α}

theorem tells_none : Tells (fun _ : Unit => .request (command name) recv) id :=
  fun _ _ _ _ => iff_of_true rfl rfl

theorem tells_word {recv : Bytes → Conn σ α} :
    Tells (fun a : Bytes => .request (command name <<< a) (recv a)) id :=
  tells_request name shows_word fun a => by simp

theorem tells_integer : Tells (fun a : Int => .request (command name <<< a) recv) id :=
  tells_request name shows_integer fun a => by simp

theorem tells_words : Tells (fun a : List Bytes => .request (command name <<< a) recv) id :=
  tells_request name shows_words fun a => by simp

theorem tells_word_word :
    Tells (fun a : Bytes × Bytes => .request (command name <<< a.1 <<< a.2) recv) id :=
  tells_request name (shows_word.then shows_word) fun a => by simp [spaced]

theorem tells_word_integer :
    Tells (fun a : Bytes × Int => .request (command name <<< a.1 <<< a.2) recv) id :=
  tells_request name (shows_word.then shows_integer) fun a => by simp [spaced]

theorem tells_word_words :
    Tells (fun a : Bytes × List Bytes => .request (command name <<< a.1 <<< a.2) recv) id :=
  tells_request name (shows_word.then shows_words) fun a => by simp [spaced]

theorem tells_words_integer :
    Tells (fun a : List Bytes × Int => .request (command name <<< a.1 <<< a.2) recv) id :=
  tells_request name (shows_words.append shows_integer fun _ _ => rfl) fun a => by simp [spaced]

theorem tells_word_word_word :
    Tells (fun a : Bytes × Bytes × Bytes =>
      .request (command name <<< a.1 <<< a.2.1 <<< a.2.2) recv) id :=
  tells_request name (shows_word.then (shows_word.then shows_word)) fun a => by simp [spaced]

theorem tells_word_word_integer :
    Tells (fun a : Bytes × Bytes × Int =>
      .request (command name <<< a.1 <<< a.2.1 <<< a.2.2) recv) id :=
  tells_request name (shows_word.then (shows_word.then shows_integer)) fun a => by simp [spaced]

theorem tells_word_integer_word :
    Tells (fun a : Bytes × Int × Bytes =>
      .request (command name <<< a.1 <<< a.2.1 <<< a.2.2) recv) id :=
  tells_request name (shows_word.then (shows_integer.then shows_word)) fun a => by simp [spaced]

theorem tells_word_integer_integer :
    Tells (fun a : Bytes × Int × Int =>
      .request (command name <<< a.1 <<< a.2.1 <<< a.2.2) recv) id :=
  tells_request name (shows_word.then (shows_integer.then shows_integer)) fun a => by simp [spaced]

section Doubles

variable {δ : Type} [DoubleFormat δ] (hput : ∀ d : δ, space ∉ DoubleFormat.put d)

include hput

theorem tells_word_double_word :
    Tells (fun a : Bytes × δ × Bytes =>
      .request (command name <<< a.1 <<< a.2.1 <<< a.2.2) recv)
      fun a => (a.1, DoubleFormat.put a.2.1, a.2.2) :=
  tells_request name (shows_word.then ((shows_double hput).then shows_word))
    fun a => by simp [spaced, buffer_double]

theorem tells_word_double_double :
    Tells (fun a : Bytes × δ × δ => .request (command name <<< a.1 <<< a.2.1 <<< a.2.2) recv)
      fun a => (a.1, DoubleFormat.put a.2.1, DoubleFormat.put a.2.2) :=
  tells_request name (shows_word.then ((shows_double hput).then (shows_double hput)))
    fun a => by simp [spaced, buffer_double]

end Doubles

end Shapes

/-! ### Members with a line of their own -/

section Special

variable {σ α : Type}

theorem tells_hmset :
    Tells (fun a : Bytes × KeyValues => Connection.hmset a.1 a.2.keys a.2.values) id := by
  refine tells_of_wire (text "HMSET") (shows_word.then shows_pairs) fun a => ?_
  have hsame : ¬ a.2.keys.length ≠ a.2.values.length := not_not.2 a.2.same
  rw [Connection.hmset, if_neg hsame, Body.wire?, Command.wire, Command.operatorString,
    buffer_insertPairs]
  simp [spaced]

theorem tells_expire : Tells (fun a : Bytes × UInt32 => Connection.expire a.1 a.2) id :=
  tells_request (text "EXPIRE") (shows_word.then shows_unsigned) fun a => by simp [spaced]

theorem tells_zrevrange :
    Tells (fun a : Bytes × Int × Int => Connection.zrevrange a.1 a.2.1 a.2.2) Prod.snd :=
  tells_request (text "ZREVRANGE") (shows_integer.then shows_integer).drop
    fun a => by simp [spaced]

theorem tells_sortLimit :
    Tells (fun a : Bytes × Int × Int × SortOrder × Bool =>
      Connection.sortLimit a.1 a.2.1 a.2.2.1 a.2.2.2.1 a.2.2.2.2) id := by
  have hlimit : space ∉ text "LIMIT" := by decide
  refine tells_request (text "SORT") (shows_word.then ((shows_integer.then (shows_integer.then
    (shows_order.then shows_alpha))).fixed hlimit)) fun a => ?_
  simp [Connection.insertOrder, spaced]

theorem tells_sort :
    Tells (fun a : Bytes × SortOrder × Bool => Connection.sort a.1 a.2.1 a.2.2) id :=
  tells_request (text "SORT") (shows_word.then (shows_order.then shows_alpha))
    fun a => by simp [Connection.insertOrder, spaced]

theorem tells_sortBy :
    Tells (fun a : Bytes × Bytes × Int × Int × List Bytes × SortOrder × Bool =>
      Connection.sortBy a.1 a.2.1 a.2.2.1 a.2.2.2.1 a.2.2.2.2.1 a.2.2.2.2.2.1 a.2.2.2.2.2.2) id := by
  have hby : space ∉ text "BY" := by decide
  have hlimit : space ∉ text "LIMIT" := by decide
  refine tells_request (text "SORT") (shows_word.then ((shows_word.then ((shows_integer.then
    (shows_integer.then (shows_patterns.append (shows_order.then shows_alpha)
      fun _ _ => rfl))).fixed hlimit)).fixed hby)) fun a => ?_
  simp [Connection.insertOrder, buffer_insertPatterns, spaced]

theorem tells_zrangeWithscores {δ : Type} :
    Tells (fun a : Bytes × Int × Int × Bool =>
      (Connection.zrangeWithscores a.1 a.2.1 a.2.2.1 a.2.2.2 : Body (List (KeyScore δ)) Unit)) id := by
  have hscores : space ∉ text "WITHSCORES" := by decide
  refine tells_of_wire (text "ZRANGE") (shows_word.then (shows_integer.then (shows_integer.then
    (shows_flag hscores)))) fun a => ?_
  rcases a with ⟨key, start, stop, withscores⟩
  rw [Connection.zrangeWithscores, Body.wire?, Command.wire, Command.operatorString]
  cases withscores <;> simp [spaced]

section Doubles

variable {δ : Type} [DoubleFormat δ] (hput : ∀ d : δ, space ∉ DoubleFormat.put d)

include hput

theorem tells_zrangebyscoreLimit :
    Tells (fun a : Bytes × δ × δ × Int × Int =>
      Connection.zrangebyscoreLimit a.1 a.2.1 a.2.2.1 a.2.2.2.1 a.2.2.2.2)
      fun a => (a.1, DoubleFormat.put a.2.1, DoubleFormat.put a.2.2.1, a.2.2.2) := by
  have hlimit : space ∉ text "LIMIT" := by decide
  refine tells_request (text "ZRANGEBYSCORE") (shows_word.then ((shows_double hput).then
    ((shows_double hput).then ((shows_integer.then shows_integer).fixed hlimit)))) fun a => ?_
  have hdouble : ∀ (c : Command) (d : δ),
      (c <<< d).buffer = c.buffer ++ spaced [DoubleFormat.put d] := buffer_double
  simp [spaced, hdouble]

theorem tells_zrangebyscoreOpt :
    Tells (fun a : Bytes × δ × δ × ZsetOpt =>
      (Connection.zrangebyscoreOpt a.1 a.2.1 a.2.2.1 a.2.2.2 : Body (List (KeyScore δ)) Unit))
      fun a => (a.1, DoubleFormat.put a.2.1, DoubleFormat.put a.2.2.1, a.2.2.2.shown) := by
  refine tells_of_wire (text "ZRANGEBYSCORE") (shows_word.then ((shows_double hput).then
    ((shows_double hput).then shows_options))) fun a => ?_
  rcases a with ⟨key, min, max, withscores, limit, offset, count⟩
  rw [Connection.zrangebyscoreOpt, Body.wire?, Command.wire, Command.operatorString]
  have hdouble : ∀ (c : Command) (d : δ),
      (c <<< d).buffer = c.buffer ++ spaced [DoubleFormat.put d] := buffer_double
  cases withscores <;> cases limit <;> simp [spaced, hdouble, optionTexts]

end Doubles

theorem tells_nothing {A : Type} [Argument A] {f : A → Body σ α} (h : ∀ a, (f a).wire? = none) :
    Tells f fun _ => () :=
  fun a a' _ _ => iff_of_true ((h a).trans (h a').symm) rfl

theorem mset_wire (a : KeyValues) : (Connection.mset a.keys a.values).wire? = none := by
  rw [Connection.mset, if_neg (not_not.2 a.same)]
  rfl

theorem msetnx_wire (a : KeyValues) : (Connection.msetnx a.keys a.values).wire? = none := by
  rw [Connection.msetnx, if_neg (not_not.2 a.same)]
  rfl

end Special

/-! ## All members -/

section Members

variable {δ : Type} [DoubleFormat δ] {A B σ α : Type} [Argument A] {f : A → Body σ α} {kept : A → B}

theorem Method.tells (hput : ∀ d : δ, space ∉ DoubleFormat.put d) (h : Method δ f kept) :
    Tells f kept := by
  cases h with
  | randomkey | save | bgsave | flushdb | flushall | dbsize | lastsave | unwatch | multi | exec
  | discard => exact tells_none
  | get | incr | decr | strlen | hlen | hkeys | hvals | hgetall | llen | lpop | rpop | spop | scard
  | smembers | srandmember | zcard | type | keys | «exists» | del | debugObject | ttl | persist
  | infoSection | auth | watch | configGet => exact tells_word
  | info => exact fun _ _ _ _ => iff_of_true rfl rfl
  | select => exact tells_integer
  | mget | sdiff | sinter | sunion | watchKeys => exact tells_words
  | set | setnx | getset | append | hget | hexists | hdel | rpush | lpush | rpushx | lpushx
  | rpoplpush | sadd | srem | sismember | zrem | zscore | rename | renamenx | configSet =>
      exact tells_word_word
  | incrby | decrby | lindex | blpop | brpop | expireat | move | configSetLong =>
      exact tells_word_integer
  | hmget | sdiffstore | sinterstore | sunionstore => exact tells_word_words
  | blpopKeys | brpopKeys => exact tells_words_integer
  | hset | hsetnx | smove => exact tells_word_word_word
  | hincrby | brpoplpush => exact tells_word_word_integer
  | setex | setrange | lset | lrem => exact tells_word_integer_word
  | getrange | lrange | ltrim | zrange | zremrangebyrank | zrevrangebyscore =>
      exact tells_word_integer_integer
  | zadd | zincrby => exact tells_word_double_word hput
  | zcount | zrangebyscore | zremrangebyscore => exact tells_word_double_double hput
  | zrangebyscoreLimit => exact tells_zrangebyscoreLimit hput
  | zrangebyscoreOpt => exact tells_zrangebyscoreOpt hput
  | zrangeWithscores => exact tells_zrangeWithscores
  | zrevrange => exact tells_zrevrange
  | hmset => exact tells_hmset
  | expire => exact tells_expire
  | sort => exact tells_sort
  | sortLimit => exact tells_sortLimit
  | sortBy => exact tells_sortBy
  | mset => exact tells_nothing mset_wire
  | msetnx => exact tells_nothing msetnx_wire
  | zrevrangeWithscores | zrevrangebyscoreWithscores => exact tells_nothing fun _ => rfl

theorem Method.quiet (h : Method δ f kept) (a : A) : (f a).Quiet := by
  cases h with
  | set | setex | ltrim | lset | rename | persist | save | bgsave | select | flushdb | flushall
  | auth | watchKeys | watch | unwatch | multi | exec | discard | configSet | configSetLong =>
      exact keepsTx_recvOkReply
  | setnx | «exists» | renamenx => exact keepsTx_recvIntReplyEqOne
  | hset | hsetnx | hexists | sismember | zadd => exact keepsTx_recvBoolReply
  | hdel | sadd | srem | smove | zrem | del | expire | expireat | move =>
      exact keepsTx_recvIntOkReply
  | setrange | incr | incrby | decr | decrby | append | strlen | hincrby | hlen | rpush | lpush
  | rpushx | lpushx | llen | lrem | sdiffstore | sinterstore | sunionstore | scard | zcard | zcount
  | zincrby | zremrangebyrank | zremrangebyscore | ttl | dbsize | lastsave =>
      exact keepsTx_recvIntReply
  | get | getset | getrange | hget | lindex | lpop | rpop | rpoplpush | brpoplpush | spop
  | srandmember | debugObject | configGet => exact reads_recvBulkReply.keepsTx
  | mget | hmget | hkeys | hvals | zrange | zrangebyscore | zrangebyscoreLimit | zrevrange
  | zrevrangebyscore => exact keepsTx_recvMultiBulkReplyVoid
  | lrange | keys | sort | sortLimit | sortBy => exact keepsTx_recvMultiBulk pushBack
  | sdiff | sinter | sunion | smembers => exact keepsTx_recvMultiBulk insert
  | blpop | brpop => exact keepsTx_recvKvReplyVal
  | blpopKeys | brpopKeys => exact keepsTx_recvKvReply
  | hgetall => exact keepsTx_recvFieldsAndValues
  | infoSection => exact keepsTx_recvInfo a
  | info => exact keepsTx_recvInfo []
  | type => exact keepsTx_recvDatatype
  | randomkey => exact keepsTx_recvSingleLineReply
  | zscore => exact keepsTx_recvDoubleReply
  | zrangeWithscores | zrangebyscoreOpt | zrevrangeWithscores | zrevrangebyscoreWithscores =>
      trivial
  | hmset =>
      change (Connection.hmset a.1 a.2.keys a.2.values).Quiet
      rw [Connection.hmset, if_neg (not_not.2 a.2.same)]
      exact keepsTx_recvOkReply
  | mset =>
      change (Connection.mset a.keys a.values).Quiet
      rw [Connection.mset, if_neg (not_not.2 a.same)]
      exact keepsTx_recvOkReply
  | msetnx =>
      change (Connection.msetnx a.keys a.values).Quiet
      rw [Connection.msetnx, if_neg (not_not.2 a.same)]
      exact keepsTx_recvBoolReply

/-- The two calls write different bytes, whatever the states of their working connections. -/
def WritesDiffer (b b' : Body σ α) : Prop :=
  ∀ (s s' : Socket) (out out' : σ), s.tx.Healthy → s'.tx.Healthy → b.writes s out ≠ b'.writes s' out'

/-- What the member keeps of the arguments differs; of texts too long for an `int`, what is written
of them. -/
def Told (f : A → Body σ α) (kept : A → B) (a a' : A) : Prop :=
  ((f a).Fits ∧ (f a').Fits) ∧ kept a ≠ kept a' ∨
    ¬ ((f a).Fits ∧ (f a').Fits) ∧ (f a).bytes ≠ (f a').bytes

theorem writesDiffer_iff [Nonempty σ] {b b' : Body σ α} (h : b.Quiet) (h' : b'.Quiet) :
    WritesDiffer b b' ↔ b.bytes ≠ b'.bytes := by
  have hidle : (plainSocket []).tx.Healthy := by simp [plainSocket, Tx.Healthy]
  constructor
  · intro hdiffer
    -- One working connection is enough, since what a call writes does not depend on it.
    rcases ‹Nonempty σ› with ⟨out⟩
    have hwrites := hdiffer (plainSocket []) (plainSocket []) out out hidle hidle
    rwa [Body.writes_eq h hidle, Body.writes_eq h' hidle] at hwrites
  · intro hne s s' out out' hs hs'
    rwa [Body.writes_eq h hs, Body.writes_eq h' hs']

theorem Method.nonempty (h : Method δ f kept) : Nonempty σ := by
  cases h <;> infer_instance

/-- Two calls of a member with proper arguments write different bytes exactly when what the member
puts on the line of them differs. -/
theorem arguments_told_iff (hput : ∀ d : δ, space ∉ DoubleFormat.put d) (h : Method δ f kept)
    {a a' : A} (ha : Proper a) (ha' : Proper a') :
    WritesDiffer (f a) (f a') ↔ Told f kept a a' := by
  have hne := h.nonempty
  rw [writesDiffer_iff (h.quiet a) (h.quiet a'), Told]
  by_cases hfits : (f a).Fits ∧ (f a').Fits
  · rw [ne_eq, Body.bytes_eq_iff hfits.1 hfits.2, h.tells hput a a' ha ha']
    simp [hfits]
  · simp [hfits]

end Members

theorem arguments_told_iff_get :
    WritesDiffer (Connection.get (text "a")) (Connection.get (text "b")) ↔
      Told Connection.get id (text "a") (text "b") :=
  arguments_told_iff (fun i : Int => space_notMem_intText i) .get (by decide : Word (text "a"))
    (by decide : Word (text "b"))

/-- `zrevrange` writes the same for two keys, and `mset` nothing at all. -/
theorem argument_dropped :
    (text "a" ≠ text "b" ∧ ¬ WritesDiffer (Connection.zrevrange (text "a") 0 (-1))
      (Connection.zrevrange (text "b") 0 (-1))) ∧
    ¬ WritesDiffer (Connection.mset [text "a"] [text "1"]) (Connection.mset [text "b"] [text "1"]) := by
  have hidle : (plainSocket []).tx.Healthy := by simp [plainSocket, Tx.Healthy]
  refine ⟨⟨by decide, fun h => ?_⟩, fun h => ?_⟩
  · exact h (plainSocket []) (plainSocket []) [] [] hidle hidle rfl
  · exact h (plainSocket []) (plainSocket []) () () hidle hidle rfl

end Redis
end CppPractice
