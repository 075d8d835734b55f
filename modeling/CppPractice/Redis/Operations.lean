import CppPractice.Redis.Command

/-!
# Operations — the public members of `redis::connection`

Every member builds at most one command and reads at most one reply.  `Body` says which of the two
it does; the members themselves are given under their names, with the command and the decoder that
the source has, its slips included.

Only the wire text of a number matters here, so `int`, `long` and `time_t` arguments are integers.
-/

namespace CppPractice
namespace Redis

open Program

/-- What a member does with the socket. -/
inductive Body (σ α : Type)
  /-- `_send(cmd); return recv();` -/
  | request (cmd : Command) (recv : Conn σ α)
  | sendOnly (cmd : Command) (result : α)
  | recvOnly (recv : Conn σ α)
  | returns (result : α)

def Body.run {σ α : Type} : Body σ α → Conn σ α
  | .request cmd recv => do
      send cmd.wire
      recv
  | .sendOnly cmd result => do
      send cmd.wire
      pure result
  | .recvOnly recv => recv
  | .returns result => pure result

structure KeyScore (δ : Type) where
  key : Bytes
  score : δ
  deriving DecidableEq, Repr

/-- `zset_opt` -/
structure ZsetOpt where
  withscores : Bool
  limit : Bool
  limitOffset : Int
  limitCount : Int
  deriving DecidableEq, Repr

inductive Datatype
  | none
  | string
  | list
  | set
  | zset
  | hash
  deriving DecidableEq, Repr

inductive SortOrder
  | ascending
  | descending
  deriving DecidableEq, Repr

abbrev StringMap := Bytes → Option Bytes

/-- `for (i = 0; i < keys.size(); ++i) cmd << keys[i] << values[i];` for vectors of one length. -/
def insertPairs (cmd : Command) (keys values : List Bytes) : Command :=
  (keys.zip values).foldl (fun cmd kv => cmd <<< kv.1 <<< kv.2) cmd

section Receivers

variable {σ : Type}

/-- `return _recv_int_reply() == 1;` -/
def recvIntReplyEqOne : Conn σ Bool := do
  let n ← recvIntReply
  pure (decide (n = 1))

/-- `return _recv_kv_reply().val;` -/
def recvKvReplyVal : Conn σ Bytes := do
  let kv ← recvKvReply
  pure kv.val

/-- `_recv_multi_bulk_reply(out);` with the count dropped -/
def recvMultiBulkReplyVoid : Conn (List Bytes) Unit := do
  let _ ← recvMultiBulkReply
  pure ()

/-- The loop of `hgetall` over the pairs of `all`. -/
def pushPairs : List Bytes → List Bytes × List Bytes → List Bytes × List Bytes
  | field :: value :: all, out => pushPairs all (pushBack field out.1, pushBack value out.2)
  | _, out => out

def recvFieldsAndValues : Conn (List Bytes × List Bytes) Unit := do
  let (_, all) ← Prog.withLocal [] recvMultiBulkReply
  Prog.modify fun s => (s.1, pushPairs all s.2)

def datatypeOf (response : Bytes) : Datatype :=
  if response = text "none" then .none
  else if response = text "string" then .string
  else if response = text "list" then .list
  else if response = text "set" then .set
  else if response = text "zset" then .zset
  else if response = text "hash" then .hash
  else .none

def recvDatatype : Conn σ Datatype := do
  let response ← recvSingleLineReply
  pure (datatypeOf response)

/-! ### `info` -/

def hash : UInt8 := 35

/-- The body of the loop of `info`; `sectionName` is its argument `section`. -/
def infoLine (sectionName line : Bytes) : Conn StringMap Unit :=
  if line.head? = some hash then
    if sectionName = [] then
      pure ()
    else if line.length < 2 then
      -- `line.substr(2, …)`
      Prog.throw .outOfRange
    else if (line.drop 2).take sectionName.length ≠ sectionName then
      protocolError "unexpected section name for info"
    else
      pure ()
  else if line = [] then
    pure ()
  else
    match split line (text ":") [] with
    | some [key, value] => Prog.modify fun s => (s.1, Function.update s.2 key (some value))
    | some _ => redisError (.protocol (line ++ text "unexpected line format for info"))
    | none => Prog.halt .blocks

def infoLines (sectionName : Bytes) : List Bytes → Conn StringMap Unit
  | [] => pure ()
  | line :: lines => do
      infoLine sectionName line
      infoLines sectionName lines

def recvInfo (sectionName : Bytes) : Conn StringMap Unit := do
  let response ← recvBulkReply
  if response = [] then
    protocolError "empty"
  else
    match split response crlf [] with
    | none => Prog.halt .blocks
    | some [] => protocolError "empty line for info"
    | some lines => infoLines sectionName lines

end Receivers

namespace Connection

/-! ## Strings -/

def set (key value : Bytes) : Body Unit Unit :=
  .request (command (text "SET") <<< key <<< value) recvOkReply

def setnx (key value : Bytes) : Body Unit Bool :=
  .request (command (text "SETNX") <<< key <<< value) recvIntReplyEqOne

def setex (key : Bytes) (expireSec : Int) (value : Bytes) : Body Unit Unit :=
  .request (command (text "SETEX") <<< key <<< expireSec <<< value) recvOkReply

def setrange (key : Bytes) (pos : Int) (value : Bytes) : Body Unit Int :=
  .request (command (text "SETRANGE") <<< key <<< pos <<< value) recvIntReply

/-- The command is filled and not sent. -/
def mset (keys values : List Bytes) : Body Unit Unit :=
  if keys.length ≠ values.length then .returns () else .recvOnly recvOkReply

/-- The command is filled and not sent. -/
def msetnx (keys values : List Bytes) : Body Unit Bool :=
  if keys.length ≠ values.length then .returns false else .recvOnly recvBoolReply

def get (key : Bytes) : Body Unit Bytes :=
  .request (command (text "GET") <<< key) recvBulkReply

def getset (key value : Bytes) : Body Unit Bytes :=
  .request (command (text "GETSET") <<< key <<< value) recvBulkReply

def getrange (key : Bytes) (posStart posEnd : Int) : Body Unit Bytes :=
  .request (command (text "GETRANGE") <<< key <<< posStart <<< posEnd) recvBulkReply

def mget (keys : List Bytes) : Body (List Bytes) Unit :=
  .request (command (text "MGET") <<< keys) recvMultiBulkReplyVoid

def incr (key : Bytes) : Body Unit Int :=
  .request (command (text "INCR") <<< key) recvIntReply

def incrby (key : Bytes) (by_ : Int) : Body Unit Int :=
  .request (command (text "INCRBY") <<< key <<< by_) recvIntReply

def decr (key : Bytes) : Body Unit Int :=
  .request (command (text "DECR") <<< key) recvIntReply

def decrby (key : Bytes) (by_ : Int) : Body Unit Int :=
  .request (command (text "DECRBY") <<< key <<< by_) recvIntReply

def append (key value : Bytes) : Body Unit Int :=
  .request (command (text "APPEND") <<< key <<< value) recvIntReply

def strlen (key : Bytes) : Body Unit Int :=
  .request (command (text "STRLEN") <<< key) recvIntReply

/-! ## Hashes -/

def hset (key field value : Bytes) : Body Unit Bool :=
  .request (command (text "HSET") <<< key <<< field <<< value) recvBoolReply

def hsetnx (key field value : Bytes) : Body Unit Bool :=
  .request (command (text "HSETNX") <<< key <<< field <<< value) recvBoolReply

def hmset (key : Bytes) (fields values : List Bytes) : Body Unit Unit :=
  if fields.length ≠ values.length then
    .returns ()
  else
    .request (insertPairs (command (text "HMSET") <<< key) fields values) recvOkReply

def hget (key field : Bytes) : Body Unit Bytes :=
  .request (command (text "HGET") <<< key <<< field) recvBulkReply

def hmget (key : Bytes) (fields : List Bytes) : Body (List Bytes) Unit :=
  .request (command (text "HMGET") <<< key <<< fields) recvMultiBulkReplyVoid

def hincrby (key field : Bytes) (by_ : Int) : Body Unit Int :=
  .request (command (text "HINCRBY") <<< key <<< field <<< by_) recvIntReply

def hexists (key field : Bytes) : Body Unit Bool :=
  .request (command (text "HEXISTS") <<< key <<< field) recvBoolReply

def hlen (key : Bytes) : Body Unit Int :=
  .request (command (text "HLEN") <<< key) recvIntReply

def hdel (key field : Bytes) : Body Unit Unit :=
  .request (command (text "HDEL") <<< key <<< field) recvIntOkReply

/-- The name sent is not that of a command. -/
def hkeys (key : Bytes) : Body (List Bytes) Unit :=
  .request (command (text "HfieldS") <<< key) recvMultiBulkReplyVoid

def hvals (key : Bytes) : Body (List Bytes) Unit :=
  .request (command (text "HVALS") <<< key) recvMultiBulkReplyVoid

def hgetall (key : Bytes) : Body (List Bytes × List Bytes) Unit :=
  .request (command (text "HGETALL") <<< key) recvFieldsAndValues

/-! ## Lists -/

def rpush (key value : Bytes) : Body Unit Int :=
  .request (command (text "RPUSH") <<< key <<< value) recvIntReply

def lpush (key value : Bytes) : Body Unit Int :=
  .request (command (text "LPUSH") <<< key <<< value) recvIntReply

def rpushx (key value : Bytes) : Body Unit Int :=
  .request (command (text "RPUSHX") <<< key <<< value) recvIntReply

def lpushx (key value : Bytes) : Body Unit Int :=
  .request (command (text "LPUSHX") <<< key <<< value) recvIntReply

def llen (key : Bytes) : Body Unit Int :=
  .request (command (text "LLEN") <<< key) recvIntReply

def lrange (key : Bytes) (start stop : Int) : Body (List Bytes) Int :=
  .request (command (text "LRANGE") <<< key <<< start <<< stop) recvMultiBulkReply

def ltrim (key : Bytes) (start stop : Int) : Body Unit Unit :=
  .request (command (text "LTRIM") <<< key <<< start <<< stop) recvOkReply

def lindex (key : Bytes) (index : Int) : Body Unit Bytes :=
  .request (command (text "LINDEX") <<< key <<< index) recvBulkReply

def lset (key : Bytes) (index : Int) (value : Bytes) : Body Unit Unit :=
  .request (command (text "LSET") <<< key <<< index <<< value) recvOkReply

def lrem (key : Bytes) (count : Int) (value : Bytes) : Body Unit Int :=
  .request (command (text "LREM") <<< key <<< count <<< value) recvIntReply

def lpop (key : Bytes) : Body Unit Bytes :=
  .request (command (text "LPOP") <<< key) recvBulkReply

def blpop (key : Bytes) (timeout : Int) : Body Unit Bytes :=
  .request (command (text "BLPOP") <<< key <<< timeout) recvKvReplyVal

def blpopKeys (keys : List Bytes) (timeout : Int) : Body Unit KeyValue :=
  .request (command (text "BLPOP") <<< keys <<< timeout) recvKvReply

def rpop (key : Bytes) : Body Unit Bytes :=
  .request (command (text "RPOP") <<< key) recvBulkReply

def brpop (key : Bytes) (timeout : Int) : Body Unit Bytes :=
  .request (command (text "BRPOP") <<< key <<< timeout) recvKvReplyVal

def brpopKeys (keys : List Bytes) (timeout : Int) : Body Unit KeyValue :=
  .request (command (text "BRPOP") <<< keys <<< timeout) recvKvReply

def rpoplpush (listPop listPush : Bytes) : Body Unit Bytes :=
  .request (command (text "RPOPLPUSH") <<< listPop <<< listPush) recvBulkReply

def brpoplpush (listPop listPush : Bytes) (timeout : Int) : Body Unit Bytes :=
  .request (command (text "BRPOPLPUSH") <<< listPop <<< listPush <<< timeout) recvBulkReply

/-! ## Sets -/

def sadd (key member : Bytes) : Body Unit Unit :=
  .request (command (text "SADD") <<< key <<< member) recvIntOkReply

def srem (key member : Bytes) : Body Unit Unit :=
  .request (command (text "SREM") <<< key <<< member) recvIntOkReply

def spop (key : Bytes) : Body Unit Bytes :=
  .request (command (text "SPOP") <<< key) recvBulkReply

def sdiff (keys : List Bytes) : Body (Finset Bytes) Int :=
  .request (command (text "SDIFF") <<< keys) recvMultiBulkReplySet

def sdiffstore (keyDst : Bytes) (keys : List Bytes) : Body Unit Int :=
  .request (command (text "SDIFFSTORE") <<< keyDst <<< keys) recvIntReply

def sinter (keys : List Bytes) : Body (Finset Bytes) Int :=
  .request (command (text "SINTER") <<< keys) recvMultiBulkReplySet

def sinterstore (keyDst : Bytes) (keys : List Bytes) : Body Unit Int :=
  .request (command (text "SINTERSTORE") <<< keyDst <<< keys) recvIntReply

def sunion (keys : List Bytes) : Body (Finset Bytes) Int :=
  .request (command (text "SUNION") <<< keys) recvMultiBulkReplySet

def sunionstore (keyDst : Bytes) (keys : List Bytes) : Body Unit Int :=
  .request (command (text "SUNIONSTORE") <<< keyDst <<< keys) recvIntReply

def smove (keySrc keyDst member : Bytes) : Body Unit Unit :=
  .request (command (text "SMOVE") <<< keySrc <<< keyDst <<< member) recvIntOkReply

def scard (key : Bytes) : Body Unit Int :=
  .request (command (text "SCARD") <<< key) recvIntReply

def sismember (key member : Bytes) : Body Unit Bool :=
  .request (command (text "SISMEMBER") <<< key <<< member) recvBoolReply

def smembers (key : Bytes) : Body (Finset Bytes) Int :=
  .request (command (text "SMEMBERS") <<< key) recvMultiBulkReplySet

def srandmember (key : Bytes) : Body Unit Bytes :=
  .request (command (text "SRANDMEMBER") <<< key) recvBulkReply

/-! ## Sorted sets -/

section SortedSets

variable {δ : Type} [DoubleFormat δ]

def zadd (key : Bytes) (score : δ) (member : Bytes) : Body Unit Bool :=
  .request (command (text "ZADD") <<< key <<< score <<< member) recvBoolReply

def zcard (key : Bytes) : Body Unit Int :=
  .request (command (text "ZCARD") <<< key) recvIntReply

def zcount (key : Bytes) (min max : δ) : Body Unit Int :=
  .request (command (text "ZCOUNT") <<< key <<< min <<< max) recvIntReply

def zincrby (key : Bytes) (increment : δ) (member : Bytes) : Body Unit Int :=
  .request (command (text "ZINCRBY") <<< key <<< increment <<< member) recvIntReply

def zrange (key : Bytes) (start stop : Int) : Body (List Bytes) Unit :=
  .request (command (text "ZRANGE") <<< key <<< start <<< stop) recvMultiBulkReplyVoid

/-- The reading of the reply is commented out. -/
def zrangeWithscores (key : Bytes) (start stop : Int) (withscores : Bool) :
    Body (List (KeyScore δ)) Unit :=
  let cmd := command (text "ZRANGE") <<< key <<< start <<< stop
  .sendOnly (if withscores then cmd <<< text "WITHSCORES" else cmd) ()

def zrangebyscore (key : Bytes) (min max : δ) : Body (List Bytes) Unit :=
  .request (command (text "ZRANGEBYSCORE") <<< key <<< min <<< max) recvMultiBulkReplyVoid

def zrangebyscoreLimit (key : Bytes) (min max : δ) (offset count : Int) :
    Body (List Bytes) Unit :=
  .request (command (text "ZRANGEBYSCORE") <<< key <<< min <<< max <<< text "LIMIT" <<< offset <<<
    count) recvMultiBulkReplyVoid

/-- The reply is not read. -/
def zrangebyscoreOpt (key : Bytes) (min max : δ) (opt : ZsetOpt) :
    Body (List (KeyScore δ)) Unit :=
  let cmd := command (text "ZRANGEBYSCORE") <<< key <<< min <<< max
  let cmd := if opt.withscores then cmd <<< text "WITHSCORES" else cmd
  let cmd := if opt.limit then cmd <<< text "LIMIT" <<< opt.limitOffset <<< opt.limitCount else cmd
  .sendOnly cmd ()

def zrem (key member : Bytes) : Body Unit Unit :=
  .request (command (text "ZREM") <<< key <<< member) recvIntOkReply

def zremrangebyrank (key : Bytes) (start stop : Int) : Body Unit Int :=
  .request (command (text "ZREMRANGEBYRANK") <<< key <<< start <<< stop) recvIntReply

def zremrangebyscore (key : Bytes) (min max : δ) : Body Unit Int :=
  .request (command (text "ZREMRANGEBYSCORE") <<< key <<< min <<< max) recvIntReply

/-- The key is not sent. -/
def zrevrange (_key : Bytes) (start stop : Int) : Body (List Bytes) Unit :=
  .request (command (text "ZREVRANGE") <<< start <<< stop) recvMultiBulkReplyVoid

/-- The command is filled and not sent. -/
def zrevrangeWithscores (_key : Bytes) (_start _stop : Int) (_withscores : Bool) :
    Body (List (KeyScore δ)) Unit :=
  .returns ()

def zrevrangebyscore (key : Bytes) (start stop : Int) : Body (List Bytes) Unit :=
  .request (command (text "ZREVRANGEBYSCORE") <<< key <<< start <<< stop) recvMultiBulkReplyVoid

def zrevrangebyscoreWithscores (_key : Bytes) (_start _stop : Int) (_withscores : Bool) :
    Body (List (KeyScore δ)) Unit :=
  .returns ()

def zscore (key member : Bytes) : Body Unit δ :=
  .request (command (text "ZSCORE") <<< key <<< member) recvDoubleReply

end SortedSets

/-! ## Keys -/

def type (key : Bytes) : Body Unit Datatype :=
  .request (command (text "TYPE") <<< key) recvDatatype

def keys (pattern : Bytes) : Body (List Bytes) Int :=
  .request (command (text "KEYS") <<< pattern) recvMultiBulkReply

def «exists» (key : Bytes) : Body Unit Bool :=
  .request (command (text "EXISTS") <<< key) recvIntReplyEqOne

def del (key : Bytes) : Body Unit Unit :=
  .request (command (text "DEL") <<< key) recvIntOkReply

def randomkey : Body Unit Bytes :=
  .request (command (text "RANDOMKEY")) recvSingleLineReply

def rename (oldName newName : Bytes) : Body Unit Unit :=
  .request (command (text "RENAME") <<< oldName <<< newName) recvOkReply

def renamenx (oldName newName : Bytes) : Body Unit Bool :=
  .request (command (text "RENAMENX") <<< oldName <<< newName) recvIntReplyEqOne

def debugObject (key : Bytes) : Body Unit Bytes :=
  .request (command (text "DEBUG OBJECT") <<< key) recvBulkReply

def expire (key : Bytes) (secs : UInt32) : Body Unit Unit :=
  .request (command (text "EXPIRE") <<< key <<< (secs.toNat : Int)) recvIntOkReply

def expireat (key : Bytes) (timestamp : Int) : Body Unit Unit :=
  .request (command (text "EXPIREAT") <<< key <<< timestamp) recvIntOkReply

def ttl (key : Bytes) : Body Unit Int :=
  .request (command (text "TTL") <<< key) recvIntReply

def persist (key : Bytes) : Body Unit Unit :=
  .request (command (text "PERSIST") <<< key) recvOkReply

def move (key : Bytes) (dbindex : Int) : Body Unit Unit :=
  .request (command (text "MOVE") <<< key <<< dbindex) recvIntOkReply

/-! ## Databases -/

def save : Body Unit Unit := .request (command (text "SAVE")) recvOkReply

def bgsave : Body Unit Unit := .request (command (text "BGSAVE")) recvOkReply

def select (dbindex : Int) : Body Unit Unit :=
  .request (command (text "SELECT") <<< dbindex) recvOkReply

def flushdb : Body Unit Unit := .request (command (text "FLUSHDB")) recvOkReply

def flushall : Body Unit Unit := .request (command (text "FLUSHALL")) recvOkReply

def dbsize : Body Unit Int := .request (command (text "DBSIZE")) recvIntReply

def lastsave : Body Unit Int := .request (command (text "LASTSAVE")) recvIntReply

/-! ## The server -/

def infoSection (sectionName : Bytes) : Body StringMap Unit :=
  .request (command (text "INFO") <<< sectionName) (recvInfo sectionName)

def info : Body StringMap Unit := infoSection []

def auth (pass : Bytes) : Body Unit Unit :=
  .request (command (text "AUTH") <<< pass) recvOkReply

def watchKeys (keys : List Bytes) : Body Unit Unit :=
  .request (command (text "WATCH") <<< keys) recvOkReply

def watch (key : Bytes) : Body Unit Unit :=
  .request (command (text "WATCH") <<< key) recvOkReply

def unwatch : Body Unit Unit := .request (command (text "UNWATCH")) recvOkReply

def multi : Body Unit Unit := .request (command (text "MULTI")) recvOkReply

def exec : Body Unit Unit := .request (command (text "EXEC")) recvOkReply

def discard : Body Unit Unit := .request (command (text "DISCARD")) recvOkReply

/-! ## The configuration -/

def configGet (parameter : Bytes) : Body Unit Bytes :=
  .request (command (text "CONFIG GET") <<< parameter) recvBulkReply

def configSet (parameter value : Bytes) : Body Unit Unit :=
  .request (command (text "CONFIG SET") <<< parameter <<< value) recvOkReply

def configSetLong (parameter : Bytes) (value : Int) : Body Unit Unit :=
  .request (command (text "CONFIG SET") <<< parameter <<< value) recvOkReply

/-! ## Sorting -/

/-- `<< (order == sort_order_ascending ? "ASC" : "DESC") << (lexicographically ? "ALPHA" : "")` -/
def insertOrder (cmd : Command) (order : SortOrder) (lexicographically : Bool) : Command :=
  cmd <<< (if order = .ascending then text "ASC" else text "DESC") <<<
    (if lexicographically then text "ALPHA" else text "")

def sortLimit (key : Bytes) (limitStart limitEnd : Int) (order : SortOrder)
    (lexicographically : Bool) : Body (List Bytes) Int :=
  .request (insertOrder (command (text "SORT") <<< key <<< text "LIMIT" <<< limitStart <<< limitEnd)
    order lexicographically) recvMultiBulkReply

def sort (key : Bytes) (order : SortOrder) (lexicographically : Bool) : Body (List Bytes) Int :=
  .request (insertOrder (command (text "SORT") <<< key) order lexicographically) recvMultiBulkReply

def sortBy (key byPattern : Bytes) (limitStart limitEnd : Int) (getPatterns : List Bytes)
    (order : SortOrder) (lexicographically : Bool) : Body (List Bytes) Int :=
  let m := command (text "SORT") <<< key <<< text "BY" <<< byPattern <<< text "LIMIT" <<<
    limitStart <<< limitEnd
  let m := getPatterns.foldl (fun m pattern => m <<< text "GET" <<< pattern) m
  .request (insertOrder m order lexicographically) recvMultiBulkReply

end Connection

/-! ## The members together -/

section Members

variable (δ : Type) [DoubleFormat δ]

/-- The public members of `connection`, with their arguments and the kind of reply each decodes;
`SHUTDOWN`, which the server does not answer, is left out. -/
inductive Operation : {σ α : Type} → Body σ α → Kind → Prop
  | set (key value : Bytes) : Operation (Connection.set key value) .status
  | setnx (key value : Bytes) : Operation (Connection.setnx key value) .integer
  | setex (key : Bytes) (expireSec : Int) (value : Bytes) :
      Operation (Connection.setex key expireSec value) .status
  | setrange (key : Bytes) (pos : Int) (value : Bytes) :
      Operation (Connection.setrange key pos value) .integer
  | mset (keys values : List Bytes) : Operation (Connection.mset keys values) .status
  | msetnx (keys values : List Bytes) : Operation (Connection.msetnx keys values) .integer
  | get (key : Bytes) : Operation (Connection.get key) .bulk
  | getset (key value : Bytes) : Operation (Connection.getset key value) .bulk
  | getrange (key : Bytes) (posStart posEnd : Int) :
      Operation (Connection.getrange key posStart posEnd) .bulk
  | mget (keys : List Bytes) : Operation (Connection.mget keys) .multiBulk
  | incr (key : Bytes) : Operation (Connection.incr key) .integer
  | incrby (key : Bytes) (by_ : Int) : Operation (Connection.incrby key by_) .integer
  | decr (key : Bytes) : Operation (Connection.decr key) .integer
  | decrby (key : Bytes) (by_ : Int) : Operation (Connection.decrby key by_) .integer
  | append (key value : Bytes) : Operation (Connection.append key value) .integer
  | strlen (key : Bytes) : Operation (Connection.strlen key) .integer
  | hset (key field value : Bytes) : Operation (Connection.hset key field value) .integer
  | hsetnx (key field value : Bytes) : Operation (Connection.hsetnx key field value) .integer
  | hmset (key : Bytes) (fields values : List Bytes) :
      Operation (Connection.hmset key fields values) .status
  | hget (key field : Bytes) : Operation (Connection.hget key field) .bulk
  | hmget (key : Bytes) (fields : List Bytes) : Operation (Connection.hmget key fields) .multiBulk
  | hincrby (key field : Bytes) (by_ : Int) : Operation (Connection.hincrby key field by_) .integer
  | hexists (key field : Bytes) : Operation (Connection.hexists key field) .integer
  | hlen (key : Bytes) : Operation (Connection.hlen key) .integer
  | hdel (key field : Bytes) : Operation (Connection.hdel key field) .integer
  | hkeys (key : Bytes) : Operation (Connection.hkeys key) .multiBulk
  | hvals (key : Bytes) : Operation (Connection.hvals key) .multiBulk
  | hgetall (key : Bytes) : Operation (Connection.hgetall key) .multiBulk
  | rpush (key value : Bytes) : Operation (Connection.rpush key value) .integer
  | lpush (key value : Bytes) : Operation (Connection.lpush key value) .integer
  | rpushx (key value : Bytes) : Operation (Connection.rpushx key value) .integer
  | lpushx (key value : Bytes) : Operation (Connection.lpushx key value) .integer
  | llen (key : Bytes) : Operation (Connection.llen key) .integer
  | lrange (key : Bytes) (start stop : Int) :
      Operation (Connection.lrange key start stop) .multiBulk
  | ltrim (key : Bytes) (start stop : Int) : Operation (Connection.ltrim key start stop) .status
  | lindex (key : Bytes) (index : Int) : Operation (Connection.lindex key index) .bulk
  | lset (key : Bytes) (index : Int) (value : Bytes) :
      Operation (Connection.lset key index value) .status
  | lrem (key : Bytes) (count : Int) (value : Bytes) :
      Operation (Connection.lrem key count value) .integer
  | lpop (key : Bytes) : Operation (Connection.lpop key) .bulk
  | blpop (key : Bytes) (timeout : Int) : Operation (Connection.blpop key timeout) .multiBulk
  | blpopKeys (keys : List Bytes) (timeout : Int) :
      Operation (Connection.blpopKeys keys timeout) .multiBulk
  | rpop (key : Bytes) : Operation (Connection.rpop key) .bulk
  | brpop (key : Bytes) (timeout : Int) : Operation (Connection.brpop key timeout) .multiBulk
  | brpopKeys (keys : List Bytes) (timeout : Int) :
      Operation (Connection.brpopKeys keys timeout) .multiBulk
  | rpoplpush (listPop listPush : Bytes) : Operation (Connection.rpoplpush listPop listPush) .bulk
  | brpoplpush (listPop listPush : Bytes) (timeout : Int) :
      Operation (Connection.brpoplpush listPop listPush timeout) .bulk
  | sadd (key member : Bytes) : Operation (Connection.sadd key member) .integer
  | srem (key member : Bytes) : Operation (Connection.srem key member) .integer
  | spop (key : Bytes) : Operation (Connection.spop key) .bulk
  | sdiff (keys : List Bytes) : Operation (Connection.sdiff keys) .multiBulk
  | sdiffstore (keyDst : Bytes) (keys : List Bytes) :
      Operation (Connection.sdiffstore keyDst keys) .integer
  | sinter (keys : List Bytes) : Operation (Connection.sinter keys) .multiBulk
  | sinterstore (keyDst : Bytes) (keys : List Bytes) :
      Operation (Connection.sinterstore keyDst keys) .integer
  | sunion (keys : List Bytes) : Operation (Connection.sunion keys) .multiBulk
  | sunionstore (keyDst : Bytes) (keys : List Bytes) :
      Operation (Connection.sunionstore keyDst keys) .integer
  | smove (keySrc keyDst member : Bytes) :
      Operation (Connection.smove keySrc keyDst member) .integer
  | scard (key : Bytes) : Operation (Connection.scard key) .integer
  | sismember (key member : Bytes) : Operation (Connection.sismember key member) .integer
  | smembers (key : Bytes) : Operation (Connection.smembers key) .multiBulk
  | srandmember (key : Bytes) : Operation (Connection.srandmember key) .bulk
  | zadd (key : Bytes) (score : δ) (member : Bytes) :
      Operation (Connection.zadd key score member) .integer
  | zcard (key : Bytes) : Operation (Connection.zcard key) .integer
  | zcount (key : Bytes) (min max : δ) : Operation (Connection.zcount key min max) .integer
  | zincrby (key : Bytes) (increment : δ) (member : Bytes) :
      Operation (Connection.zincrby key increment member) .integer
  | zrange (key : Bytes) (start stop : Int) :
      Operation (Connection.zrange key start stop) .multiBulk
  | zrangeWithscores (key : Bytes) (start stop : Int) (withscores : Bool) :
      Operation (Connection.zrangeWithscores key start stop withscores : Body (List (KeyScore δ))
        Unit) .multiBulk
  | zrangebyscore (key : Bytes) (min max : δ) :
      Operation (Connection.zrangebyscore key min max) .multiBulk
  | zrangebyscoreLimit (key : Bytes) (min max : δ) (offset count : Int) :
      Operation (Connection.zrangebyscoreLimit key min max offset count) .multiBulk
  | zrangebyscoreOpt (key : Bytes) (min max : δ) (opt : ZsetOpt) :
      Operation (Connection.zrangebyscoreOpt key min max opt : Body (List (KeyScore δ)) Unit)
        .multiBulk
  | zrem (key member : Bytes) : Operation (Connection.zrem key member) .integer
  | zremrangebyrank (key : Bytes) (start stop : Int) :
      Operation (Connection.zremrangebyrank key start stop) .integer
  | zremrangebyscore (key : Bytes) (min max : δ) :
      Operation (Connection.zremrangebyscore key min max) .integer
  | zrevrange (key : Bytes) (start stop : Int) :
      Operation (Connection.zrevrange key start stop) .multiBulk
  | zrevrangeWithscores (key : Bytes) (start stop : Int) (withscores : Bool) :
      Operation (Connection.zrevrangeWithscores key start stop withscores : Body (List (KeyScore
        δ)) Unit) .multiBulk
  | zrevrangebyscore (key : Bytes) (start stop : Int) :
      Operation (Connection.zrevrangebyscore key start stop) .multiBulk
  | zrevrangebyscoreWithscores (key : Bytes) (start stop : Int) (withscores : Bool) :
      Operation (Connection.zrevrangebyscoreWithscores key start stop withscores : Body (List
        (KeyScore δ)) Unit) .multiBulk
  | zscore (key member : Bytes) : Operation (Connection.zscore key member : Body Unit δ) .double
  | type (key : Bytes) : Operation (Connection.type key) .status
  | keys (pattern : Bytes) : Operation (Connection.keys pattern) .multiBulk
  | «exists» (key : Bytes) : Operation (Connection.«exists» key) .integer
  | del (key : Bytes) : Operation (Connection.del key) .integer
  | randomkey : Operation Connection.randomkey .status
  | rename (oldName newName : Bytes) : Operation (Connection.rename oldName newName) .status
  | renamenx (oldName newName : Bytes) : Operation (Connection.renamenx oldName newName) .integer
  | debugObject (key : Bytes) : Operation (Connection.debugObject key) .bulk
  | expire (key : Bytes) (secs : UInt32) : Operation (Connection.expire key secs) .integer
  | expireat (key : Bytes) (timestamp : Int) :
      Operation (Connection.expireat key timestamp) .integer
  | ttl (key : Bytes) : Operation (Connection.ttl key) .integer
  | persist (key : Bytes) : Operation (Connection.persist key) .status
  | move (key : Bytes) (dbindex : Int) : Operation (Connection.move key dbindex) .integer
  | save : Operation Connection.save .status
  | bgsave : Operation Connection.bgsave .status
  | select (dbindex : Int) : Operation (Connection.select dbindex) .status
  | flushdb : Operation Connection.flushdb .status
  | flushall : Operation Connection.flushall .status
  | dbsize : Operation Connection.dbsize .integer
  | lastsave : Operation Connection.lastsave .integer
  | infoSection (sectionName : Bytes) : Operation (Connection.infoSection sectionName) .bulk
  | info : Operation Connection.info .bulk
  | auth (pass : Bytes) : Operation (Connection.auth pass) .status
  | watchKeys (keys : List Bytes) : Operation (Connection.watchKeys keys) .status
  | watch (key : Bytes) : Operation (Connection.watch key) .status
  | unwatch : Operation Connection.unwatch .status
  | multi : Operation Connection.multi .status
  | exec : Operation Connection.exec .status
  | discard : Operation Connection.discard .status
  | configGet (parameter : Bytes) : Operation (Connection.configGet parameter) .bulk
  | configSet (parameter value : Bytes) : Operation (Connection.configSet parameter value) .status
  | configSetLong (parameter : Bytes) (value : Int) :
      Operation (Connection.configSetLong parameter value) .status
  | sortLimit (key : Bytes) (limitStart limitEnd : Int) (order : SortOrder)
      (lexicographically : Bool) :
      Operation (Connection.sortLimit key limitStart limitEnd order lexicographically) .multiBulk
  | sort (key : Bytes) (order : SortOrder) (lexicographically : Bool) :
      Operation (Connection.sort key order lexicographically) .multiBulk
  | sortBy (key byPattern : Bytes) (limitStart limitEnd : Int) (getPatterns : List Bytes)
      (order : SortOrder) (lexicographically : Bool) :
      Operation (Connection.sortBy key byPattern limitStart limitEnd getPatterns order
        lexicographically) .multiBulk

end Members

end Redis
end CppPractice
