import CppPractice.Redis.Info

/-!
# Containers — what a call leaves in the caller's containers

The decoders of several elements put each one into the caller's container as soon as it has come, so
what came before an exception stays there.

A program that only reads (`Reads`) does not touch the container and goes as it goes without one,
whatever the socket does.  All single replies are read by such programs, so what a member with a
container leaves in it depends on the socket alone: on `received`, the elements of a multi-bulk, or
on `infoReceived`, the entries of `info`.
-/

namespace CppPractice
namespace Redis

open Program

variable {σ α β : Type}

/-! ## Programs that only read -/

/-- `p` is made of `recv`s, choices and exceptions, and `q` is the same program without containers. -/
inductive Reads : {α : Type} → Conn σ α → Conn Unit α → Prop
  | pure {α : Type} (a : α) : Reads (Pure.pure a) (Pure.pure a)
  | halt {α : Type} (h : Halt Exn) : Reads (Prog.halt h : Conn σ α) (Prog.halt h)
  | recv (len : Nat) (peek : Bool) : Reads (recvRetry len peek) (recvRetry len peek)
  | bind {α β : Type} {p : Conn σ α} {q : Conn Unit α} {f : α → Conn σ β} {g : α → Conn Unit β}
      (h : Reads p q) (hf : ∀ a, Reads (f a) (g a)) : Reads (p >>= f) (q >>= g)
  | look {α : Type} {f : Socket × σ → Conn σ α} {g : Socket × Unit → Conn Unit α}
      (h : ∀ s out, Reads (f (s, out)) (g (s, ()))) : Reads (Prog.get >>= f) (Prog.get >>= g)

/-- `p` leaves the container alone, and goes as `q` does without one. -/
def Leaves (p : Conn σ α) (q : Conn Unit α) : Prop :=
  ∀ (s : Socket) (out : σ), p (s, out) = ((q (s, ())).1, ((q (s, ())).2.1, out))

/-- The program leaves the sending half of the socket alone. -/
def KeepsTx (p : Conn σ α) : Prop := ∀ s, (p s).2.1.tx = s.1.tx

theorem Leaves.bind {p : Conn σ α} {q : Conn Unit α} {f : α → Conn σ β} {g : α → Conn Unit β}
    (h : Leaves p q) (hf : ∀ a, Leaves (f a) (g a)) : Leaves (p >>= f) (q >>= g) := by
  intro s out
  -- Both halt, or both go on from one socket with one result.
  rcases hq : q (s, ()) with ⟨o, s', u⟩
  have hp := h s out
  rw [hq] at hp
  cases o with
  | returns a =>
      rw [Prog.bind_returns hp, Prog.bind_returns hq]
      exact hf a s' out
  | halts r => rw [Prog.bind_halts hp, Prog.bind_halts hq]

theorem KeepsTx.bind {p : Conn σ α} {f : α → Conn σ β} (h : KeepsTx p) (hf : ∀ a, KeepsTx (f a)) :
    KeepsTx (p >>= f) := by
  intro s
  have hp := h s
  rcases hrun : p s with ⟨o, s'⟩
  rw [hrun] at hp
  cases o with
  | returns a =>
      rw [Prog.bind_returns hrun, hf a s']
      exact hp
  | halts r =>
      rw [Prog.bind_halts hrun]
      exact hp

theorem Reads.leaves {p : Conn σ α} {q : Conn Unit α} (h : Reads p q) : Leaves p q := by
  induction h with
  | pure a => exact fun _ _ => rfl
  | halt h => exact fun _ _ => rfl
  | recv len peek => exact fun _ _ => rfl
  | bind _ _ ih ihf => exact ih.bind ihf
  | look _ ih =>
      intro s out
      rw [Prog.get_bind, Prog.get_bind]
      exact ih s out s out

theorem Reads.keepsTx {p : Conn σ α} {q : Conn Unit α} (h : Reads p q) : KeepsTx p := by
  induction h with
  | pure a => exact fun _ => rfl
  | halt h => exact fun _ => rfl
  | recv len peek => exact fun _ => rfl
  | bind _ _ ih ihf => exact ih.bind ihf
  | look _ ih =>
      intro s
      rw [Prog.get_bind]
      exact ih s.1 s.2 s

theorem reads_readLineLoop (maxSize : Int) :
    ∀ (fuel : Nat) (oss : Bytes),
      Reads (readLineLoop maxSize fuel oss : Conn σ Bytes) (readLineLoop maxSize fuel oss) := by
  intro fuel
  induction fuel with
  | zero => exact fun _ => Reads.halt .blocks
  | succ fuel ih =>
      intro oss
      unfold readLineLoop
      split
      · exact Reads.pure oss
      · refine (Reads.recv 64 true).bind fun r => ?_
        cases r with
        | waits | interrupted => exact Reads.halt _
        | closed => exact Reads.halt _
        | failed => exact Reads.halt _
        | received data =>
            refine (Reads.recv _ false).bind fun r => ?_
            by_cases heol : (data.findIdx? (· = lf)).isSome
            · cases r <;> simp only [heol, if_true] <;>
                first | exact Reads.halt _ | exact Reads.pure _
            · cases r <;> simp only [heol] <;> first | exact Reads.halt _ | exact ih _

theorem reads_readLine : Reads (readLine : Conn σ Bytes) readLine := by
  unfold readLine
  exact Reads.look fun s _ =>
    (reads_readLineLoop 2048 (readFuel s.rx) []).bind fun line => Reads.pure (rtrim line crlf)

theorem reads_readNLoop (n : Int) :
    ∀ (fuel : Nat) (bp : Int) (buffer : Bytes),
      Reads (readNLoop n fuel bp buffer : Conn σ Bytes) (readNLoop n fuel bp buffer) := by
  intro fuel
  induction fuel with
  | zero => exact fun _ _ => Reads.halt .blocks
  | succ fuel ih =>
      intro bp buffer
      unfold readNLoop
      split
      · exact Reads.pure _
      · refine (Reads.recv _ false).bind fun r => ?_
        cases r with
        | waits | interrupted => exact Reads.halt _
        | closed => exact Reads.halt _
        | failed => exact ih _ _
        | received data =>
            simp only
            split
            · exact Reads.halt _
            · exact ih _ _

theorem reads_readN (n : Int) : Reads (readN n : Conn σ Bytes) (readN n) := by
  unfold readN
  split
  · exact Reads.halt _
  · split
    · exact Reads.halt _
    · split
      · exact Reads.halt _
      · exact Reads.look fun s _ => reads_readNLoop n (readFuel s.rx) 0 []

theorem reads_valueFromString (stream : Bytes → Option α) (data : Bytes) :
    Reads (valueFromString stream data : Conn σ α) (valueFromString stream data) := by
  unfold valueFromString
  split
  · exact Reads.pure _
  · exact Reads.halt _

theorem reads_recvBulkReplyLength (c : UInt8) :
    Reads (recvBulkReplyLength c : Conn σ Int) (recvBulkReplyLength c) := by
  refine reads_readLine.bind fun line => ?_
  split
  · exact Reads.halt _
  · split
    · exact Reads.halt _
    · exact reads_valueFromString _ _

theorem reads_recvBulkReply : Reads (recvBulkReply : Conn σ Bytes) recvBulkReply := by
  refine (reads_recvBulkReplyLength _).bind fun length => ?_
  split
  · exact Reads.pure _
  · split
    · exact Reads.halt _
    · refine (reads_readN _).bind fun data => ?_
      split
      · exact Reads.halt _
      · split
        · exact Reads.halt _
        · exact Reads.pure _

/-! ## Sending leaves the container alone -/

theorem Leaves.pure (a : α) : Leaves (Pure.pure a : Conn σ α) (Pure.pure a) := fun _ _ => rfl

theorem Leaves.halt (h : Halt Exn) : Leaves (Prog.halt h : Conn σ α) (Prog.halt h) :=
  fun _ _ => rfl

theorem Leaves.get_bind {f : Socket × σ → Conn σ α} {g : Socket × Unit → Conn Unit α}
    (h : ∀ s out, Leaves (f (s, out)) (g (s, ()))) : Leaves (Prog.get >>= f) (Prog.get >>= g) := by
  intro s out
  rw [Prog.get_bind, Prog.get_bind]
  exact h s out s out

theorem Leaves.meaningful {p : Conn σ α} {q : Conn Unit α} (h : Leaves p q) :
    Leaves p.meaningful q.meaningful := by
  intro s out
  have hrun := h s out
  rcases hq : q (s, ()) with ⟨o, s'⟩
  rw [hq] at hrun
  rcases o with a | (e | - | -)
  all_goals simp [Prog.meaningful, hrun, hq]

theorem leaves_write (buf : Bytes) (len : Nat) :
    Leaves (write buf len : Conn σ WriteResult) (write buf len) := by
  intro s out
  unfold write
  cases s.tx.write buf len <;> rfl

theorem leaves_anetWriteLoop (count : Int) :
    ∀ (fuel : Nat) (totlen : Int) (buf : Bytes),
      Leaves (anetWriteLoop count fuel totlen buf : Conn σ (Except Bytes Int))
        (anetWriteLoop count fuel totlen buf) := by
  intro fuel
  induction fuel with
  | zero => exact fun _ _ => Leaves.halt .undefined
  | succ fuel ih =>
      intro totlen buf
      unfold anetWriteLoop
      split
      · exact Leaves.pure _
      · split
        · exact Leaves.halt _
        · refine (leaves_write _ _).bind fun r => ?_
          cases r with
          | wrote n =>
              cases n with
              | zero => exact Leaves.pure _
              | succ n => exact ih _ _
          | failed strerror => exact Leaves.pure _

theorem leaves_anetWrite (msg : Bytes) (count : Int) :
    Leaves (anetWrite msg count : Conn σ (Except Bytes Int)) (anetWrite msg count) :=
  (leaves_anetWriteLoop count (msg.length + 1) 0 msg).meaningful

theorem leaves_serverReacts (before msg : Bytes) :
    Leaves (serverReacts before msg : Conn σ Unit) (serverReacts before msg) := by
  intro s out
  by_cases h : s.tx.written = before ++ msg <;> simp [serverReacts, Prog.modify, h]

theorem leaves_send (msg : Bytes) : Leaves (send msg : Conn σ Unit) (send msg) := by
  have hlog : Leaves (logSent msg : Conn σ Unit) (logSent msg) := fun _ _ => rfl
  unfold send
  refine hlog.bind fun _ => Leaves.get_bind fun s out => (leaves_anetWrite msg _).bind fun r => ?_
  cases r with
  | error strerror => exact Leaves.halt _
  | ok n => exact leaves_serverReacts _ msg

/-! ## What has been received -/

/-- Up to `n` bulks are read one after the other: those that come, how the reading ends, and the
socket it leaves. -/
def elements : Nat → Socket → List Bytes × Outcome Exn Unit × Socket
  | 0, s => ([], .returns (), s)
  | n + 1, s =>
      match recvBulkReply (s, ()) with
      | (.returns element, s') =>
          (element :: (elements n s'.1).1, (elements n s'.1).2)
      | (.halts h, s') => ([], .halts h, s'.1)

/-- The elements of a multi-bulk that come before it ends or cannot be read further. -/
def received (s : Socket) : List Bytes :=
  match recvBulkReplyLength prefixMultiBulkReply (s, ()) with
  | (.returns length, s') => if length = -1 then [] else (elements length.toNat s'.1).1
  | (.halts _, _) => []

/-- What `info` gets to assign before its text ends or a line is refused. -/
def infoReceived (sectionName : Bytes) (s : Socket) : List (Bytes × Bytes) :=
  match recvBulkReply (s, ()) with
  | (.returns response, _) => textAssigned sectionName response
  | (.halts _, _) => []

theorem recvElements_run (add : Bytes → σ → σ) :
    ∀ (n : Nat) (s : Socket) (out : σ),
      recvElements add n (s, out) = ((elements n s).2.1,
        ((elements n s).2.2, (elements n s).1.foldl (fun out e => add e out) out)) := by
  intro n
  -- Round by round: an element that has come is in the container before the next one is read.
  induction n with
  | zero => exact fun _ _ => rfl
  | succ n ih =>
      intro s out
      have hread := reads_recvBulkReply.leaves s out
      rcases hq : recvBulkReply (s, ()) with ⟨o, s', u⟩
      rw [hq] at hread
      unfold recvElements elements
      cases o with
      | returns element =>
          have hadd : (Prog.modify fun s => (s.1, add element s.2) : Conn σ Unit) (s', out) =
              (.returns (), (s', add element out)) := rfl
          rw [Prog.bind_returns hread, Prog.bind_returns hadd, ih]
          simp only [hq, List.foldl_cons]
      | halts h =>
          rw [Prog.bind_halts hread]
          simp only [hq, List.foldl_nil]

theorem recvMultiBulk_out (add : Bytes → σ → σ) (s : Socket) (out : σ) :
    (recvMultiBulkReplyInto add (s, out)).2.2 =
      (received s).foldl (fun out e => add e out) out := by
  have hlength := (reads_recvBulkReplyLength prefixMultiBulkReply).leaves s out
  rcases hq : recvBulkReplyLength prefixMultiBulkReply (s, ()) with ⟨o, s', u⟩
  rw [hq] at hlength
  unfold recvMultiBulkReplyInto received
  cases o with
  | halts h =>
      rw [Prog.bind_halts hlength]
      simp only [hq, List.foldl_nil]
  | returns length =>
      rw [Prog.bind_returns hlength]
      simp only [hq]
      by_cases hnull : length = -1
      -- A null multi-bulk has no elements, and any other negative length none that are read.
      · simp only [hnull, if_true]
        rfl
      · simp only [hnull, if_false]
        have hrun := recvElements_run add length.toNat s' out
        rcases helements : elements length.toNat s' with ⟨es, o, s''⟩
        rw [helements] at hrun
        cases o with
        | returns u => rw [Prog.bind_returns hrun]; rfl
        | halts h => rw [Prog.bind_halts hrun]

theorem foldl_pushBack (es out : List Bytes) :
    es.foldl (fun out e => pushBack e out) out = out ++ es := by
  induction es generalizing out with
  | nil => simp
  | cons e es ih => rw [List.foldl_cons, ih, pushBack, List.append_assoc, List.singleton_append]

theorem foldl_insert (es : List Bytes) (out : Finset Bytes) :
    es.foldl (fun out e => insert e out) out = out ∪ es.toFinset := by
  induction es generalizing out with
  | nil => simp
  | cons e es ih =>
      rw [List.foldl_cons, ih, List.toFinset_cons, Finset.union_insert, Finset.insert_union]

theorem recvMultiBulkReply_out (s : Socket) (out : List Bytes) :
    (recvMultiBulkReply (s, out)).2.2 = out ++ received s := by
  rw [recvMultiBulkReply, recvMultiBulk_out, foldl_pushBack]

theorem recvMultiBulkReplySet_out (s : Socket) (out : Finset Bytes) :
    (recvMultiBulkReplySet (s, out)).2.2 = out ∪ (received s).toFinset := by
  rw [recvMultiBulkReplySet, recvMultiBulk_out]
  exact foldl_insert _ _

theorem recvInfo_out (sectionName : Bytes) (s : Socket) (out : StringMap) :
    (recvInfo sectionName (s, out)).2.2 = assignAll out (infoReceived sectionName s) := by
  have hread := reads_recvBulkReply.leaves s out
  rcases hq : recvBulkReply (s, ()) with ⟨o, s', u⟩
  rw [hq] at hread
  rw [recvInfo_eq, infoReceived]
  simp only [hq]
  cases o with
  | returns response => rw [Prog.bind_returns hread, infoResponse_run]
  | halts h =>
      rw [Prog.bind_halts hread]
      rfl

/-! ## The members -/

/-- The socket after a call that returned. -/
def returned : Outcome Exn Unit × Socket × Unit → Option Socket
  | (.returns _, s) => some s.1
  | (.halts _, _) => none

/-- The socket on which the reply to a command is read, when the command could be sent. -/
def Command.sentOn (cmd : Command) (s : Socket) : Option Socket := returned (send cmd.wire (s, ()))

theorem request_out {cmd : Command} {recv : Conn σ α} {fill : Socket → σ → σ}
    (h : ∀ s out, (recv (s, out)).2.2 = fill s out) (s : Socket) (out : σ) :
    ((Body.request cmd recv).run (s, out)).2.2 =
      (cmd.sentOn s).elim out fun s' => fill s' out := by
  have hsend := leaves_send cmd.wire s out
  rcases hq : send cmd.wire (s, ()) with ⟨o, s', u⟩
  rw [hq] at hsend
  have hrun : (Body.request cmd recv).run (s, out) = (send cmd.wire >>= fun _ => recv) (s, out) :=
    rfl
  rw [hrun, Command.sentOn, hq]
  cases o with
  | returns u' =>
      rw [Prog.bind_returns hsend, h]
      rfl
  -- Nothing is read for a command that could not be sent.
  | halts r =>
      rw [Prog.bind_halts hsend]
      rfl

/-- The elements of the reply to a command. -/
def Command.received (cmd : Command) (s : Socket) : List Bytes :=
  (cmd.sentOn s).elim [] Redis.received

/-- The members that fill a container of the caller's, with what they leave in it. -/
inductive Fills : {σ α : Type} → Body σ α → (Socket → σ → σ) → Prop
  | vector (cmd : Command) :
      Fills (.request cmd recvMultiBulkReply) fun s out => out ++ cmd.received s
  | vectorVoid (cmd : Command) :
      Fills (.request cmd recvMultiBulkReplyVoid) fun s out => out ++ cmd.received s
  | set (cmd : Command) :
      Fills (.request cmd recvMultiBulkReplySet) fun s out => out ∪ (cmd.received s).toFinset
  | info (sectionName : Bytes) :
      Fills (Connection.infoSection sectionName) fun s out =>
        assignAll out (((command (text "INFO") <<< sectionName).sentOn s).elim []
          (infoReceived sectionName))

/-- When the member throws, the caller's container is what it was. -/
def Untouched (b : Body σ α) : Prop :=
  ∀ (s : Socket) (out : σ) (e : Exn), (b.run (s, out)).1 = .halts (.throws e) →
    (b.run (s, out)).2.2 = out

theorem recvMultiBulkReplyVoid_out (s : Socket) (out : List Bytes) :
    (recvMultiBulkReplyVoid (s, out)).2.2 = out ++ received s := by
  rw [← recvMultiBulkReply_out]
  rcases hq : recvMultiBulkReply (s, out) with ⟨o, s'⟩
  cases o with
  | returns n =>
      rw [recvMultiBulkReplyVoid, Prog.bind_returns hq]
      rfl
  | halts r => rw [recvMultiBulkReplyVoid, Prog.bind_halts hq]

theorem Fills.out {b : Body σ α} {fill : Socket → σ → σ} (h : Fills b fill) (s : Socket) (out : σ) :
    (b.run (s, out)).2.2 = fill s out := by
  cases h with
  | vector cmd =>
      change _ = out ++ (cmd.sentOn s).elim [] Redis.received
      rw [request_out recvMultiBulkReply_out]
      cases cmd.sentOn s with
      | none => exact (List.append_nil out).symm
      | some s' => rfl
  | vectorVoid cmd =>
      change _ = out ++ (cmd.sentOn s).elim [] Redis.received
      rw [request_out recvMultiBulkReplyVoid_out]
      cases cmd.sentOn s with
      | none => exact (List.append_nil out).symm
      | some s' => rfl
  | set cmd =>
      change _ = out ∪ ((cmd.sentOn s).elim [] Redis.received).toFinset
      rw [request_out recvMultiBulkReplySet_out]
      cases cmd.sentOn s with
      | none => exact (Finset.union_empty out).symm
      | some s' => rfl
  | info sectionName =>
      change _ = assignAll out (((command (text "INFO") <<< sectionName).sentOn s).elim []
        (infoReceived sectionName))
      rw [Connection.infoSection, request_out (recvInfo_out sectionName)]
      cases (command (text "INFO") <<< sectionName).sentOn s with
      | none => rfl
      | some s' => rfl

theorem withLocal_out {τ : Type} (init : τ) (p : Conn τ α) (s : Socket) (out : σ) :
    (Prog.withLocal init p (s, out) : Outcome Exn (α × τ) × Socket × σ).2.2 = out := by
  rcases hp : p (s, init) with ⟨o, s'⟩
  cases o with
  | returns a => rw [Prog.withLocal_returns hp]
  | halts h => rw [Prog.withLocal_halts hp]

/-- `hgetall` reads into a vector of its own first. -/
theorem recvFieldsAndValues_throws {s : Socket} {out : List Bytes × List Bytes} {e : Exn}
    (h : (recvFieldsAndValues (s, out)).1 = .halts (.throws e)) :
    (recvFieldsAndValues (s, out)).2.2 = out := by
  have hout := withLocal_out ([] : List Bytes) recvMultiBulkReply s out
  rcases hq : (Prog.withLocal [] recvMultiBulkReply : Conn (List Bytes × List Bytes) _) (s, out) with
    ⟨o, s'⟩
  rw [hq] at hout
  cases o with
  -- Once the vector is there nothing throws any more.
  | returns r =>
      rw [recvFieldsAndValues, Prog.bind_returns hq] at h
      cases h
  | halts r =>
      rw [recvFieldsAndValues, Prog.bind_halts hq]
      exact hout

theorem request_untouched {cmd : Command} (recv : Conn σ α)
    (h : ∀ s out e, (recv (s, out)).1 = .halts (.throws e) → (recv (s, out)).2.2 = out) :
    Untouched (.request cmd recv) := by
  intro s out e hthrows
  have hsend := leaves_send cmd.wire s out
  rcases hq : send cmd.wire (s, ()) with ⟨o, s', u⟩
  rw [hq] at hsend
  have hrun : (Body.request cmd recv).run (s, out) = (send cmd.wire >>= fun _ => recv) (s, out) :=
    rfl
  rw [hrun] at hthrows ⊢
  cases o with
  | returns u' =>
      rw [Prog.bind_returns hsend] at hthrows ⊢
      exact h s' out e hthrows
  | halts r => rw [Prog.bind_halts hsend]

theorem sendOnly_untouched (cmd : Command) (a : α) : Untouched (.sendOnly cmd a : Body σ α) :=
  request_untouched (pure a) fun _ _ _ _ => rfl

theorem untouched_unit (b : Body Unit α) : Untouched b := fun _ _ _ _ => rfl

/-- Every member leaves the caller's container alone when it throws, or fills it as `Fills` says. -/
theorem Operation.untouched_or_fills {δ : Type} [DoubleFormat δ] {b : Body σ α} {k : Kind}
    (h : Operation δ b k) : Untouched b ∨ ∃ fill, Fills b fill := by
  cases h with
  | mget | hmget | hkeys | hvals | zrange | zrangebyscore | zrangebyscoreLimit | zrevrange
  | zrevrangebyscore => exact Or.inr ⟨_, .vectorVoid _⟩
  | lrange | keys | sort | sortLimit | sortBy => exact Or.inr ⟨_, .vector _⟩
  | sdiff | sinter | sunion | smembers => exact Or.inr ⟨_, .set _⟩
  | infoSection sectionName => exact Or.inr ⟨_, .info sectionName⟩
  | info => exact Or.inr ⟨_, .info []⟩
  | hgetall key => exact Or.inl (request_untouched _ fun _ _ _ h => recvFieldsAndValues_throws h)
  | zrangeWithscores | zrangebyscoreOpt => exact Or.inl (sendOnly_untouched _ ())
  | zrevrangeWithscores | zrevrangebyscoreWithscores => exact Or.inl fun _ _ _ _ => rfl
  | _ => exact Or.inl (untouched_unit _)

/-- Whatever comes over the socket and however the call ends, the container holds what it held before
and what has been received: appended in order to a vector, inserted into a set, assigned in order in
the map of `info`.  The members that are not listed in `Fills` leave it alone when they throw. -/
theorem failed_reads_keep_received {δ : Type} [DoubleFormat δ] :
    (∀ (s : Socket) (out : List Bytes), (recvMultiBulkReply (s, out)).2.2 = out ++ received s) ∧
    (∀ (s : Socket) (out : Finset Bytes),
      (recvMultiBulkReplySet (s, out)).2.2 = out ∪ (received s).toFinset) ∧
    (∀ (sectionName : Bytes) (s : Socket) (out : StringMap),
      (recvInfo sectionName (s, out)).2.2 = assignAll out (infoReceived sectionName s)) ∧
    (∀ {σ α : Type} {b : Body σ α} {k : Kind}, Operation δ b k →
      Untouched b ∨ ∃ fill, Fills b fill ∧ ∀ s out, (b.run (s, out)).2.2 = fill s out) := by
  refine ⟨recvMultiBulkReply_out, recvMultiBulkReplySet_out, recvInfo_out, ?_⟩
  intro σ α b k h
  rcases h.untouched_or_fills with huntouched | ⟨fill, hfill⟩
  · exact Or.inl huntouched
  · exact Or.inr ⟨fill, hfill, hfill.out⟩

theorem failed_reads_keep_received_mget :
    Untouched (Connection.mget [text "k"]) ∨ ∃ fill, Fills (Connection.mget [text "k"]) fill ∧
      ∀ s out, ((Connection.mget [text "k"]).run (s, out)).2.2 = fill s out :=
  (failed_reads_keep_received (δ := Int)).2.2.2 (.mget [text "k"])

/-- Of two elements the first comes, and then an error line. -/
def halfReply : Bytes :=
  numberLine prefixMultiBulkReply 2 ++
    (Bulk.encode (some (text "a")) ++ ((Reply.error []).encode ++ []))

theorem halfReply_run :
    (recvMultiBulkReply (plainSocket halfReply, [])).1 =
        throwsRedis (.protocol (text "unexpected prefix for bulk reply")) ∧
      (recvMultiBulkReply (plainSocket halfReply, [])).2.2 = [text "a"] := by
  have hlength := recvBulkReplyLength_number (c := prefixMultiBulkReply) (by decide) (by decide) 2
    (Bulk.encode (some (text "a")) ++ ((Reply.error []).encode ++ [])) ([] : List Bytes)
  have hcount : numberOutcome 2 = .returns 2 := by decide
  rw [hcount] at hlength
  have hfirst := recvBulkReply_some (v := text "a") (by decide) ((Reply.error []).encode ++ [])
    ([] : List Bytes)
  have hvalue : bulkOutcome (text "a") = .returns (text "a") := by decide
  rw [hvalue] at hfirst
  have hsecond : Decodes recvBulkReply ((Reply.error []).encode ++ []) (pushBack (text "a") [])
      (throwsRedis (.protocol (text "unexpected prefix for bulk reply"))) []
      (pushBack (text "a") []) :=
    recvBulkReply_error (by decide) [] (pushBack (text "a") [])
  have helements : Decodes (recvElements pushBack 2)
      (Bulk.encode (some (text "a")) ++ ((Reply.error []).encode ++ [])) []
      (throwsRedis (.protocol (text "unexpected prefix for bulk reply"))) []
      (pushBack (text "a") []) :=
    hfirst.bind ((Decodes.modifyOut (pushBack (text "a"))).bind hsecond.bind_halts)
  have hrun : Decodes recvMultiBulkReply halfReply []
      (throwsRedis (.protocol (text "unexpected prefix for bulk reply"))) []
      (pushBack (text "a") []) :=
    hlength.bind helements.bind_halts
  rcases hrun _ (plainSocket halfReply, []) ⟨plainSocket_at _, rfl⟩ with ⟨hthrows, -, hout⟩
  exact ⟨hthrows, hout⟩

/-- A vector keeps the element that came before the error, and the map of `info` the entry before
the line that is refused. -/
theorem failed_read_touches_container :
    (∃ e, (recvMultiBulkReply (plainSocket halfReply, [])).1 = .halts (.throws e)) ∧
      (recvMultiBulkReply (plainSocket halfReply, [])).2.2 ≠ [] ∧
      ¬ Untouched (Connection.infoSection []) := by
  refine ⟨⟨_, halfReply_run.1⟩, ?_, fun h => ?_⟩
  · rw [halfReply_run.2]
    decide
  · have htext := recvInfo_text [] (t := text "a:1" ++ crlf ++ text "b") (by decide) (by decide) []
      fun _ => none
    rw [List.append_nil] at htext
    have hfits : SizeFitsInt (infoWire []) := ⟨by decide⟩
    rcases request_decodes hfits (answering_answering _ _) htext with ⟨hthrows, hout⟩
    have hfail : textFailure [] (text "a:1" ++ crlf ++ text "b") =
        some (.redis (.protocol (text "bunexpected line format for info"))) := by decide
    have hassigned : textAssigned [] (text "a:1" ++ crlf ++ text "b") = [(text "a", text "1")] := by
      decide
    rw [hfail] at hthrows
    rw [hassigned] at hout
    have hsame := h _ _ _ hthrows
    change ((Connection.infoSection []).run _).2.2 = _ at hout
    rw [hout] at hsame
    have hvalue := congrFun hsame (text "a")
    rw [assignAll, List.foldl_cons, List.foldl_nil, Function.update_self] at hvalue
    exact absurd hvalue (by simp)

end Redis
end CppPractice
