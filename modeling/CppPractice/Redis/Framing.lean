import CppPractice.Redis.Reply

/-!
# Framing — one reply per decoder call

Which replies a decoder takes from the stream exactly, and that it takes no others exactly.

`Frames p bs` says that `p` reads exactly `bs`: its outcome, and what it leaves in the caller's
containers, depend on `bs` alone, and whatever follows stays unread.  `Misframes p bs` says that it
stops short, or never comes to an orderly end.
-/

namespace CppPractice
namespace Redis

open Program

variable {σ α β : Type}

/-! ## Reading exactly some bytes -/

def ThrowingHalt : Halt Exn → Prop
  | .throws _ => True
  | _ => False

/-- The run came to its end: it returned, or threw whatever it was. -/
def Ends : Outcome Exn α → Prop
  | .returns _ => True
  | .halts h => ThrowingHalt h

theorem Orderly.ends {o : Outcome Exn α} (h : Orderly o) : Ends o := by
  cases o with
  | returns a => trivial
  | halts r =>
      cases r with
      | throws e => trivial
      | blocks => exact h.elim
      | undefined => exact h.elim

def Frames (p : Conn σ α) (bs : Bytes) : Prop :=
  ∀ out, ∃ o out', Orderly o ∧ ∀ rest, Decodes p (bs ++ rest) out o rest out'

/-- Like `Frames`, for programs that may also end with an exception of the standard library. -/
def Settles (p : Conn σ α) (bs : Bytes) : Prop :=
  ∀ out, ∃ o out', Ends o ∧ ∀ rest, Decodes p (bs ++ rest) out o rest out'

def Misframes (p : Conn σ α) (bs : Bytes) : Prop :=
  ∀ out, ∃ o left out', Decodes p bs out o left out' ∧ (left ≠ [] ∨ ¬ Ends o)

theorem Frames.settles {p : Conn σ α} {bs : Bytes} (h : Frames p bs) : Settles p bs := by
  intro out
  rcases h out with ⟨o, out', ho, hdec⟩
  exact ⟨o, out', ho.ends, hdec⟩

/-- On every working connection the run ends in order and leaves exactly what follows `bs`. -/
def ConsumesExactly (p : Conn σ α) (bs : Bytes) : Prop :=
  ∀ (rest : Bytes) (s : Socket × σ), s.1.rx.Healthy → s.1.rx.incoming = bs ++ rest →
    Orderly (p s).1 ∧ (p s).2.1.rx.incoming = rest

theorem Frames.consumesExactly {p : Conn σ α} {bs : Bytes} (h : Frames p bs) :
    ConsumesExactly p bs := by
  intro rest s hhealthy hin
  rcases h s.2 with ⟨o, out', ho, hdec⟩
  rcases hdec rest s.1.tx s ⟨⟨hin, hhealthy, rfl⟩, rfl⟩ with ⟨hrun, hat, -⟩
  exact ⟨hrun ▸ ho, hat.incoming⟩

/-- A socket holding `bs`, with nothing special about it. -/
def plainSocket (bs : Bytes) : Socket :=
  { rx := { incoming := bs, avail := 0, events := [] }
    tx := { written := [], events := [], sent := [], commandsIn := fun _ => 1, answers := [] } }

theorem plainSocket_healthy (bs : Bytes) : (plainSocket bs).rx.Healthy :=
  ⟨by simp [plainSocket], by simp [plainSocket]⟩

theorem plainSocket_at (bs : Bytes) : At bs (plainSocket bs).tx (plainSocket bs) :=
  ⟨rfl, plainSocket_healthy bs, rfl⟩

theorem Misframes.not_consumesExactly [Inhabited σ] {p : Conn σ α} {bs : Bytes}
    (h : Misframes p bs) : ¬ ConsumesExactly p bs := by
  intro hexact
  rcases h default with ⟨o, left, out', hdec, hbad⟩
  -- One connection is enough: the plain one that holds the bytes and nothing after them.
  rcases hdec _ (plainSocket bs, default) ⟨plainSocket_at _, rfl⟩ with ⟨hrun, hat, -⟩
  rcases hexact [] (plainSocket bs, default) (plainSocket_healthy _) (List.append_nil bs).symm with
    ⟨horderly, hleft⟩
  rcases hbad with hne | hne
  · exact hne (hat.incoming.symm.trans hleft)
  · exact hne (hrun ▸ horderly.ends)

theorem frames_of_decodes {p : Conn σ α} {bs : Bytes} {o : Outcome Exn α} (ho : Orderly o)
    (h : ∀ (rest : Bytes) (out : σ), Decodes p (bs ++ rest) out o rest out) : Frames p bs :=
  fun out => ⟨o, out, ho, fun rest => h rest out⟩

theorem frames_pure (a : α) : Frames (pure a : Conn σ α) [] :=
  frames_of_decodes (o := .returns a) trivial fun _ _ => Decodes.pure a

theorem frames_redisError (e : RedisError) : Frames (redisError e : Conn σ α) [] :=
  frames_of_decodes (o := throwsRedis e) trivial fun rest out => decodes_redisError e rest out

theorem frames_modifyOut (g : σ → σ) : Frames (Prog.modify fun s => (s.1, g s.2)) [] :=
  fun out => ⟨.returns (), g out, trivial, fun _ => Decodes.modifyOut g⟩

theorem frames_valueFromString (stream : Bytes → Option α) (data : Bytes) :
    Frames (valueFromString stream data : Conn σ α) [] := by
  unfold valueFromString
  cases stream data with
  | some value => exact frames_pure value
  | none => exact frames_redisError _

/-- A program that takes `bs`, followed by one that reads nothing more; `E` is what is asked of the
outcome, which is the second program's unless the first one halts. -/
theorem Decodes.exists_bind {p : Conn σ α} {f : α → Conn σ β} {bs : Bytes} {out out' : σ}
    {o : Outcome Exn α} {E : Outcome Exn β → Prop}
    (hdec : ∀ rest, Decodes p (bs ++ rest) out o rest out')
    (hreturns : ∀ a, o = .returns a →
      ∃ o' out'', E o' ∧ ∀ rest, Decodes (f a) rest out' o' rest out'')
    (hhalts : ∀ r, o = .halts r → E (.halts r)) :
    ∃ o' out'', E o' ∧ ∀ rest, Decodes (p >>= f) (bs ++ rest) out o' rest out'' := by
  cases o with
  | returns a =>
      rcases hreturns a rfl with ⟨o', out'', ho', hdec'⟩
      exact ⟨o', out'', ho', fun rest => (hdec rest).bind (hdec' rest)⟩
  | halts r => exact ⟨.halts r, out', hhalts r rfl, fun rest => (hdec rest).bind_halts⟩

/-- A continuation that reads nothing more and stays in order keeps the framing. -/
theorem Frames.bind {p : Conn σ α} {f : α → Conn σ β} {bs : Bytes} (h : Frames p bs)
    (hf : ∀ a, Frames (f a) []) : Frames (p >>= f) bs := by
  intro out
  rcases h out with ⟨o, out', ho, hdec⟩
  refine Decodes.exists_bind hdec (fun a _ => hf a out') ?_
  rintro r rfl
  exact ho

theorem Settles.bind {p : Conn σ α} {f : α → Conn σ β} {bs : Bytes} (h : Settles p bs)
    (hf : ∀ a, Settles (f a) []) : Settles (p >>= f) bs := by
  intro out
  rcases h out with ⟨o, out', ho, hdec⟩
  refine Decodes.exists_bind hdec (fun a _ => hf a out') ?_
  rintro r rfl
  exact ho

theorem Misframes.bind {p : Conn σ α} {f : α → Conn σ β} {bs : Bytes} (h : Misframes p bs)
    (hf : ∀ a, Settles (f a) []) : Misframes (p >>= f) bs := by
  intro out
  rcases h out with ⟨o, left, out', hdec, hbad⟩
  cases o with
  | returns a =>
      -- The continuation reads nothing, so what was left unread stays so.
      rcases hf a out' with ⟨o', out'', -, hdec'⟩
      have hleft : left ≠ [] := by
        rcases hbad with hne | hne
        · exact hne
        · exact (hne trivial).elim
      exact ⟨o', left, out'', hdec.bind (hdec' left), Or.inl hleft⟩
  | halts r => exact ⟨.halts r, left, out', hdec.bind_halts, hbad⟩

variable {τ : Type}

theorem Frames.withLocal {init : τ} {q : Conn τ α} {bs : Bytes} (h : Frames q bs) :
    Frames (Prog.withLocal init q : Conn σ (α × τ)) bs := by
  intro out
  rcases h init with ⟨o, final, ho, hdec⟩
  cases o with
  | returns a => exact ⟨.returns (a, final), out, trivial, fun rest => (hdec rest).withLocal⟩
  | halts r => exact ⟨.halts r, out, ho, fun rest => (hdec rest).withLocal_halts⟩

theorem Misframes.withLocal {init : τ} {q : Conn τ α} {bs : Bytes} (h : Misframes q bs) :
    Misframes (Prog.withLocal init q : Conn σ (α × τ)) bs := by
  intro out
  rcases h init with ⟨o, left, final, hdec, hbad⟩
  cases o with
  | returns a =>
      refine ⟨.returns (a, final), left, out, hdec.withLocal, hbad.imp_right fun hne => ?_⟩
      exact (hne trivial).elim
  | halts r => exact ⟨.halts r, left, out, hdec.withLocal_halts, hbad⟩

/-! ## Lists of bulks -/

/-- The length of the bulk and of the CRLF after it can be held by a `long`. -/
def Bulk.Fits (b : Bulk) : Prop := ∀ v, b = some v → (v.length : Int) + 2 < longMax

def Bulk.NulFree (b : Bulk) : Prop := ∀ v, b = some v → nul ∉ v

/-- What reading the bulk gives. -/
def Bulk.outcome : Bulk → Outcome Exn Bytes
  | some v => bulkOutcome v
  | none => .returns missingValue

theorem Bulk.encode_ne_nil (b : Bulk) : b.encode ≠ [] := by
  cases b <;> simp [Bulk.encode, numberLine]

theorem encodeBulks_ne_nil {bs : List Bulk} (h : bs ≠ []) : encodeBulks bs ≠ [] := by
  rcases List.exists_cons_of_ne_nil h with ⟨b, bs, rfl⟩
  simp [encodeBulks, Bulk.encode_ne_nil]

theorem recvBulkReply_fits {b : Bulk} (h : b.Fits) (rest : Bytes) (out : σ) :
    Decodes (recvBulkReply : Conn σ Bytes) (b.encode ++ rest) out b.outcome rest out := by
  cases b with
  | none => exact recvBulkReply_null rest out
  | some v => exact recvBulkReply_some (h v rfl) rest out

theorem orderly_outcome (b : Bulk) : Orderly b.outcome := by
  cases b with
  | none => trivial
  | some v => exact orderly_bulkOutcome v

theorem recvBulkReply_frames {b : Bulk} (h : b.Fits) :
    Frames (recvBulkReply : Conn σ Bytes) b.encode :=
  frames_of_decodes (orderly_outcome b) fun rest out => recvBulkReply_fits h rest out

/-- A bulk that does not fit is left unread, whatever follows it. -/
theorem recvBulkReply_not_fits {b : Bulk} (h : ¬ b.Fits) (rest : Bytes) (out : σ) :
    ∃ r left, Decodes (recvBulkReply : Conn σ Bytes) (b.encode ++ rest) out (.halts r) left out ∧
      left ≠ [] := by
  cases b with
  | none => exact (h (by simp [Bulk.Fits])).elim
  | some v =>
      have hover : longMax ≤ (v.length : Int) + 2 := by
        by_contra hle
        refine h fun w hw => ?_
        cases hw
        exact not_le.1 hle
      have hne : v ++ crlf ++ rest ≠ [] := by simp [crlf]
      -- The length may be no `long` at all, or overflow when the two bytes of CRLF are added.
      by_cases hle : (v.length : Int) ≤ longMax
      · exact ⟨_, _, recvBulkReply_overflow hle hover rest out, hne⟩
      · exact ⟨_, _, recvBulkReply_large (not_le.1 hle) rest out, hne⟩

/-- What can be read of a list of bulks: a NUL is harmless in the last one only. -/
def BulksFramed : List Bulk → Prop
  | [] => True
  | b :: bs => b.Fits ∧ (bs = [] ∨ b.NulFree) ∧ BulksFramed bs

theorem outcome_of_nulFree {b : Bulk} (h : b.NulFree) : ∃ v, b.outcome = .returns v := by
  cases b with
  | none => exact ⟨_, rfl⟩
  | some v => exact ⟨v, by simp [Bulk.outcome, bulkOutcome, h v rfl]⟩

theorem outcome_of_not_nulFree {b : Bulk} (h : ¬ b.NulFree) : ∃ r, b.outcome = .halts r := by
  cases b with
  | none => exact (h (by simp [Bulk.NulFree])).elim
  | some v =>
      have hv : nul ∈ v := by
        by_contra hnot
        refine h fun w hw => ?_
        cases hw
        exact hnot
      simp only [Bulk.outcome, bulkOutcome, hv, not_true_eq_false, if_false]
      by_cases hhead : v.head? = some nul
      · exact ⟨_, if_pos hhead⟩
      · exact ⟨_, if_neg hhead⟩

theorem recvElements_frames (add : Bytes → σ → σ) :
    ∀ {bs : List Bulk}, BulksFramed bs →
      Frames (recvElements add bs.length : Conn σ Unit) (encodeBulks bs) := by
  intro bs
  -- Over the elements; what the others read does not depend on the container filled so far.
  induction bs with
  | nil =>
      intro _
      exact frames_pure ()
  | cons b bs ih =>
      intro h out
      rcases h with ⟨hfits, hnul, hbs⟩
      have hhead : ∀ rest, Decodes (recvBulkReply : Conn σ Bytes)
          (encodeBulks (b :: bs) ++ rest) out b.outcome (encodeBulks bs ++ rest) out := by
        intro rest
        simpa [encodeBulks] using recvBulkReply_fits hfits (encodeBulks bs ++ rest) out
      cases ho : b.outcome with
      | returns v =>
          rcases ih hbs (add v out) with ⟨o, out', ho', hdec⟩
          refine ⟨o, out', ho', fun rest => ?_⟩
          rw [ho] at hhead
          exact (hhead rest).bind ((Decodes.modifyOut (add v)).bind (hdec rest))
      | halts r =>
          -- Only the last bulk may end the loop.
          have hlast : bs = [] := by
            rcases hnul with hnil | hnul
            · exact hnil
            · rcases outcome_of_nulFree hnul with ⟨v, hv⟩
              rw [hv] at ho
              exact absurd ho (by simp)
          subst hlast
          have horderly := orderly_outcome b
          rw [ho] at hhead horderly
          exact ⟨.halts r, out, horderly, fun rest => (hhead rest).bind_halts⟩

theorem recvElements_misframes (add : Bytes → σ → σ) :
    ∀ {bs : List Bulk}, ¬ BulksFramed bs →
      Misframes (recvElements add bs.length : Conn σ Unit) (encodeBulks bs) := by
  intro bs
  -- On the bulks: the first that is not read as it was sent leaves its rest, or its successors.
  induction bs with
  | nil =>
      intro h
      exact (h trivial).elim
  | cons b bs ih =>
      intro h out
      by_cases hfits : b.Fits
      · have hhead : Decodes (recvBulkReply : Conn σ Bytes) (encodeBulks (b :: bs)) out b.outcome
            (encodeBulks bs) out := by
          simpa [encodeBulks] using recvBulkReply_fits hfits (encodeBulks bs) out
        cases ho : b.outcome with
        | returns v =>
            -- This bulk was read, so what is wrong is further on.
            rw [ho] at hhead
            have hnul : b.NulFree := by
              by_contra hnot
              rcases outcome_of_not_nulFree hnot with ⟨r, hr⟩
              rw [hr] at ho
              exact absurd ho (by simp)
            rcases ih (fun hbs => h ⟨hfits, Or.inr hnul, hbs⟩) (add v out) with
              ⟨o, left, out', hdec, hbad⟩
            exact ⟨o, left, out', hhead.bind ((Decodes.modifyOut (add v)).bind hdec), hbad⟩
        | halts r =>
            -- The exception leaves the elements that follow in the stream.
            rw [ho] at hhead
            have hmore : bs ≠ [] := by
              rintro rfl
              exact h ⟨hfits, Or.inl rfl, trivial⟩
            exact ⟨.halts r, _, out, hhead.bind_halts, Or.inl (encodeBulks_ne_nil hmore)⟩
      · rcases recvBulkReply_not_fits hfits (encodeBulks bs) out with ⟨r, left, hdec, hne⟩
        refine ⟨.halts r, left, out, ?_, Or.inl hne⟩
        rw [encodeBulks, List.flatMap_cons]
        exact hdec.bind_halts

/-- `BulksFramed`, bulk by bulk. -/
theorem bulksFramed_iff {bs : List Bulk} :
    BulksFramed bs ↔ (∀ b ∈ bs, b.Fits) ∧ ∀ b ∈ bs.dropLast, b.NulFree := by
  induction bs with
  | nil => simp [BulksFramed]
  | cons b bs ih =>
      cases bs with
      | nil => simp [BulksFramed]
      | cons b' bs' =>
          rw [BulksFramed, ih, List.dropLast_cons_cons]
          simp only [reduceCtorEq, false_or, List.forall_mem_cons]
          tauto

/-! ## Replies of a kind -/

/-- The condition under which the decoders for the kind take the reply from the stream exactly. -/
def Reply.Framed : Reply → Kind → Prop
  | .bulk b, .bulk => b.Fits
  | .multiBulk (some bs), .multiBulk =>
      (bs.length : Int) ≤ longMax ∧ (∀ b ∈ bs, b.Fits) ∧ ∀ b ∈ bs.dropLast, b.NulFree
  | .bulk none, .double => False
  | _, _ => True

/-- With nothing sent to it the program waits. -/
def Waits (p : Conn σ α) : Prop := ∀ out, Decodes p [] out (.halts .blocks) [] out

theorem Waits.bind {p : Conn σ α} {f : α → Conn σ β} (h : Waits p) : Waits (p >>= f) :=
  fun out => (h out).bind_halts

theorem Waits.withLocal {init : τ} {q : Conn τ α} (h : Waits q) :
    Waits (Prog.withLocal init q : Conn σ (α × τ)) :=
  fun _ => (h init).withLocal_halts

theorem waits_readLine : Waits (readLine : Conn σ Bytes) := fun out => readLine_waits (by simp) out

/-- `p` is a decoder for the kind: of its replies it takes the framed ones exactly, and no others. -/
structure ReadsKind (k : Kind) (p : Conn σ α) : Prop where
  waits : Waits p
  frames : ∀ r : Reply, r.IsFor k → r.Framed k → Frames p r.encode
  misframes : ∀ r : Reply, r.IsFor k → ¬ r.Framed k → Misframes p r.encode

theorem ReadsKind.bind {k : Kind} {p : Conn σ α} {f : α → Conn σ β} (h : ReadsKind k p)
    (hf : ∀ a, Frames (f a) []) : ReadsKind k (p >>= f) :=
  ⟨h.waits.bind, fun r hr hframed => (h.frames r hr hframed).bind hf,
    fun r hr hframed => (h.misframes r hr hframed).bind fun a => (hf a).settles⟩

theorem ReadsKind.withLocal {k : Kind} {init : τ} {q : Conn τ α} (h : ReadsKind k q) :
    ReadsKind k (Prog.withLocal init q : Conn σ (α × τ)) :=
  ⟨h.waits.withLocal, fun r hr hframed => (h.frames r hr hframed).withLocal,
    fun r hr hframed => (h.misframes r hr hframed).withLocal⟩

theorem ReadsKind.consumesExactly_iff [Inhabited σ] {k : Kind} {p : Conn σ α} (h : ReadsKind k p)
    {r : Reply} (hr : r.IsFor k) : ConsumesExactly p r.encode ↔ r.Framed k := by
  constructor
  · intro hexact
    by_contra hframed
    exact (h.misframes r hr hframed).not_consumesExactly hexact
  · intro hframed
    exact (h.frames r hr hframed).consumesExactly

theorem orderly_numberOutcome (i : Int) : Orderly (numberOutcome i) := by
  unfold numberOutcome
  split <;> trivial

/-! ### The replies of each kind -/

theorem Reply.IsFor.status_cases {r : Reply} (h : r.IsFor .status) :
    (∃ line, r = .status line ∧ OneLine line) ∨ ∃ msg, r = .error msg ∧ OneLine msg := by
  cases r with
  | status line => exact Or.inl ⟨line, rfl, h⟩
  | error msg => exact Or.inr ⟨msg, rfl, h⟩
  | integer i => exact h.elim
  | bulk b => cases b <;> exact h.elim
  | multiBulk bs => exact h.elim

theorem Reply.IsFor.integer_cases {r : Reply} (h : r.IsFor .integer) :
    (∃ i, r = .integer i) ∨ ∃ msg, r = .error msg ∧ OneLine msg := by
  cases r with
  | integer i => exact Or.inl ⟨i, rfl⟩
  | error msg => exact Or.inr ⟨msg, rfl, h⟩
  | status line => exact h.elim
  | bulk b => cases b <;> exact h.elim
  | multiBulk bs => exact h.elim

theorem Reply.IsFor.bulk_cases {r : Reply} (h : r.IsFor .bulk) :
    (∃ b, r = .bulk b) ∨ ∃ msg, r = .error msg ∧ OneLine msg := by
  cases r with
  | bulk b => exact Or.inl ⟨b, rfl⟩
  | error msg => exact Or.inr ⟨msg, rfl, h⟩
  | status line => exact h.elim
  | integer i => exact h.elim
  | multiBulk bs => exact h.elim

theorem Reply.IsFor.multiBulk_cases {r : Reply} (h : r.IsFor .multiBulk) :
    r = .multiBulk none ∨ (∃ bs, r = .multiBulk (some bs)) ∨
      ∃ msg, r = .error msg ∧ OneLine msg := by
  cases r with
  | multiBulk bs =>
      cases bs with
      | none => exact Or.inl rfl
      | some bs => exact Or.inr (Or.inl ⟨bs, rfl⟩)
  | error msg => exact Or.inr (Or.inr ⟨msg, rfl, h⟩)
  | status line => exact h.elim
  | integer i => exact h.elim
  | bulk b => cases b <;> exact h.elim

theorem Reply.IsFor.double_cases {r : Reply} (h : r.IsFor .double) :
    r = .bulk none ∨ (∃ v, r = .bulk (some v) ∧ DecimalText v) ∨
      ∃ msg, r = .error msg ∧ OneLine msg := by
  cases r with
  | bulk b =>
      cases b with
      | none => exact Or.inl rfl
      | some v => exact Or.inr (Or.inl ⟨v, rfl, h⟩)
  | error msg => exact Or.inr (Or.inr ⟨msg, rfl, h⟩)
  | status line => exact h.elim
  | integer i => exact h.elim
  | multiBulk bs => exact h.elim

/-! ### Lines and bulks -/

theorem recvSingleLineReply_reads : ReadsKind .status (recvSingleLineReply : Conn σ Bytes) := by
  constructor
  · exact waits_readLine.bind
  · intro r hr _
    rcases hr.status_cases with ⟨line, rfl, hline⟩ | ⟨msg, rfl, hmsg⟩
    · exact frames_of_decodes (o := .returns line) trivial (recvSingleLineReply_status hline)
    · exact frames_of_decodes (o := throwsRedis _) trivial (recvSingleLineReply_error hmsg)
  · intro r hr hframed
    rcases hr.status_cases with ⟨line, rfl, -⟩ | ⟨msg, rfl, -⟩
    · exact (hframed trivial).elim
    · exact (hframed trivial).elim

theorem recvIntReply_reads : ReadsKind .integer (recvIntReply : Conn σ Int) := by
  constructor
  · exact waits_readLine.bind
  · intro r hr _
    rcases hr.integer_cases with ⟨i, rfl⟩ | ⟨msg, rfl, hmsg⟩
    · exact frames_of_decodes (orderly_numberOutcome i) (recvIntReply_integer i)
    · exact frames_of_decodes (o := throwsRedis _) trivial (recvIntReply_error hmsg)
  · intro r hr hframed
    rcases hr.integer_cases with ⟨i, rfl⟩ | ⟨msg, rfl, -⟩
    · exact (hframed trivial).elim
    · exact (hframed trivial).elim

theorem waits_recvBulkReplyLength (c : UInt8) : Waits (recvBulkReplyLength c : Conn σ Int) :=
  waits_readLine.bind

theorem recvBulkReply_reads : ReadsKind .bulk (recvBulkReply : Conn σ Bytes) := by
  constructor
  · exact (waits_recvBulkReplyLength _).bind
  · intro r hr hframed
    rcases hr.bulk_cases with ⟨b, rfl⟩ | ⟨msg, rfl, hmsg⟩
    · exact recvBulkReply_frames hframed
    · exact frames_of_decodes (o := throwsRedis _) trivial (recvBulkReply_error hmsg)
  · intro r hr hframed
    rcases hr.bulk_cases with ⟨b, rfl⟩ | ⟨msg, rfl, -⟩
    · intro out
      rcases recvBulkReply_not_fits hframed [] out with ⟨h, left, hdec, hne⟩
      rw [List.append_nil] at hdec
      exact ⟨.halts h, left, out, hdec, Or.inl hne⟩
    · exact (hframed trivial).elim

/-! ### Multi-bulks -/

theorem recvMultiBulk_null (add : Bytes → σ → σ) (rest : Bytes) (out : σ) :
    Decodes (recvMultiBulkReplyInto add) ((Reply.multiBulk none).encode ++ rest) out
      (throwsRedis (.key (text "no such key"))) rest out := by
  have hnumber := recvBulkReplyLength_number (c := prefixMultiBulkReply) (by decide) (by decide)
    (-1) rest out
  rw [numberOutcome_null] at hnumber
  exact hnumber.bind (decodes_redisError _ rest out)

theorem Reply.encode_multiBulk_append (bs : List Bulk) (rest : Bytes) :
    (Reply.multiBulk (some bs)).encode ++ rest =
      numberLine prefixMultiBulkReply bs.length ++ (encodeBulks bs ++ rest) := by
  simp [Reply.encode]

/-- The outcome of the whole reply, from that of its elements. -/
def countOutcome (n : Int) : Outcome Exn Unit → Outcome Exn Int
  | .returns _ => .returns n
  | .halts r => .halts r

theorem orderly_countOutcome {n : Int} {o : Outcome Exn Unit} :
    Orderly (countOutcome n o) ↔ Orderly o := by
  cases o <;> exact Iff.rfl

theorem ends_countOutcome {n : Int} {o : Outcome Exn Unit} :
    Ends (countOutcome n o) ↔ Ends o := by
  cases o <;> exact Iff.rfl

theorem recvMultiBulk_some {add : Bytes → σ → σ} {bs : List Bulk}
    (hlen : (bs.length : Int) ≤ longMax) {rest left : Bytes} {out out' : σ} {o : Outcome Exn Unit}
    (h : Decodes (recvElements add bs.length) (encodeBulks bs ++ rest) out o left out') :
    Decodes (recvMultiBulkReplyInto add) ((Reply.multiBulk (some bs)).encode ++ rest) out
      (countOutcome bs.length o) left out' := by
  have hnumber := recvBulkReplyLength_number (c := prefixMultiBulkReply) (by decide) (by decide)
    bs.length (encodeBulks bs ++ rest) out
  rw [numberOutcome_nat hlen] at hnumber
  rw [Reply.encode_multiBulk_append]
  refine hnumber.bind ?_
  have hnull : (bs.length : Int) ≠ -1 := by omega
  simp only [hnull, if_false, Int.toNat_natCast]
  cases o with
  | returns _ => exact h.bind (Decodes.pure _)
  | halts r => exact h.bind_halts

theorem recvMultiBulkReplyInto_reads (add : Bytes → σ → σ) :
    ReadsKind .multiBulk (recvMultiBulkReplyInto add) := by
  constructor
  · exact (waits_recvBulkReplyLength _).bind
  · intro r hr hframed
    rcases hr.multiBulk_cases with rfl | ⟨bs, rfl⟩ | ⟨msg, rfl, hmsg⟩
    · exact frames_of_decodes (o := throwsRedis _) trivial (recvMultiBulk_null add)
    · intro out
      rcases recvElements_frames add (bulksFramed_iff.2 hframed.2) out with ⟨o, out', ho, hdec⟩
      exact ⟨_, out', orderly_countOutcome.2 ho, fun rest =>
        recvMultiBulk_some hframed.1 (hdec rest)⟩
    · exact frames_of_decodes (o := throwsRedis _) trivial fun rest out =>
        (recvBulkReplyLength_error (by decide) hmsg rest out).bind_halts
  · intro r hr hframed
    rcases hr.multiBulk_cases with rfl | ⟨bs, rfl⟩ | ⟨msg, rfl, -⟩
    · exact (hframed trivial).elim
    · intro out
      by_cases hlen : (bs.length : Int) ≤ longMax
      · have hbulks : ¬ BulksFramed bs := fun h => hframed ⟨hlen, bulksFramed_iff.1 h⟩
        rcases recvElements_misframes add hbulks out with ⟨o, left, out', hdec, hbad⟩
        rw [← List.append_nil (encodeBulks bs)] at hdec
        have hmulti := recvMultiBulk_some hlen hdec
        rw [List.append_nil] at hmulti
        exact ⟨_, left, out', hmulti, hbad.imp_right (mt ends_countOutcome.1)⟩
      · -- The count is refused, and the elements stay unread.
        have hnumber := recvBulkReplyLength_number (c := prefixMultiBulkReply) (by decide)
          (by decide) bs.length (encodeBulks bs) out
        rw [numberOutcome_large (not_le.1 hlen)] at hnumber
        have hne : bs ≠ [] := by
          rintro rfl
          exact hlen (by decide)
        exact ⟨_, _, out, hnumber.bind_halts, Or.inl (encodeBulks_ne_nil hne)⟩
    · exact (hframed trivial).elim

theorem recvKvReply_reads : ReadsKind .multiBulk (recvKvReply : Conn σ KeyValue) := by
  refine (recvMultiBulkReplyInto_reads pushBack).withLocal.bind ?_
  rintro ⟨_, out⟩
  -- The whole reply has been read by the time its size is looked at.
  match out with
  | [] => exact frames_redisError _
  | [_] => exact frames_redisError _
  | key :: val :: _ => exact frames_pure _

/-! ### Doubles -/

section Double

variable {δ : Type} [DoubleFormat δ]

theorem recvDoubleReply_some {v : Bytes} (h : DecimalText v) :
    Frames (recvDoubleReply : Conn σ δ) (Bulk.encode (some v)) := by
  intro out
  rcases frames_valueFromString (σ := σ) (DoubleFormat.get (δ := δ)) v out with ⟨o, out', ho, hval⟩
  refine ⟨o, out', ho, fun rest => ?_⟩
  -- The number is read as a line of its own, and the length is not compared with it.
  rw [Bulk.encode_some_append]
  refine (readLine_line ((oneLine_intText v.length).cons (by decide) (by decide)) _ out).bind ?_
  refine (readLine_line h.oneLine rest out).bind ?_
  simp only [h.1, if_false]
  exact hval rest

/-- After the length line of a null bulk `_recv_double_reply` waits for a second line. -/
theorem recvDoubleReply_null (out : σ) :
    Decodes (recvDoubleReply : Conn σ δ) (Bulk.encode none) out (.halts .blocks) [] out := by
  have hline := readLine_line ((oneLine_intText (-1)).cons (b := prefixSingleBulkReply) (by decide)
    (by decide)) [] out
  rw [List.append_nil] at hline
  exact hline.bind (readLine_waits (by simp) out).bind_halts

theorem recvDoubleReply_error {msg : Bytes} (h : OneLine msg) (rest : Bytes) (out : σ) :
    Decodes (recvDoubleReply : Conn σ δ) ((Reply.error msg).encode ++ rest) out
      (throwsRedis (.protocol (text "unexpected prefix for double reply"))) rest out := by
  refine (readLine_error h rest out).bind ?_
  exact decodes_redisError _ rest out

theorem recvDoubleReply_reads : ReadsKind .double (recvDoubleReply : Conn σ δ) := by
  constructor
  · exact waits_readLine.bind
  · intro r hr hframed
    rcases hr.double_cases with rfl | ⟨v, rfl, hv⟩ | ⟨msg, rfl, hmsg⟩
    · exact hframed.elim
    · exact recvDoubleReply_some hv
    · exact frames_of_decodes (o := throwsRedis _) trivial (recvDoubleReply_error hmsg)
  · intro r hr hframed
    rcases hr.double_cases with rfl | ⟨v, rfl, -⟩ | ⟨msg, rfl, -⟩
    · exact fun out => ⟨_, _, out, recvDoubleReply_null out, Or.inr fun h => h.elim⟩
    · exact (hframed trivial).elim
    · exact (hframed trivial).elim

end Double

/-! ## The decoders together -/

/-- The reply decoders that read from the socket themselves. -/
inductive Decoder
  | singleLine
  | int
  | bulk
  | multiBulk
  | multiBulkSet
  | kv
  | double
  deriving DecidableEq, Repr

def Decoder.kind : Decoder → Kind
  | .singleLine => .status
  | .int => .integer
  | .bulk => .bulk
  | .multiBulk | .multiBulkSet | .kv => .multiBulk
  | .double => .double

/-- The decoder leaves unread exactly what follows the bytes, and ends in order. -/
def Decoder.Consumes (δ : Type) [DoubleFormat δ] (bs : Bytes) : Decoder → Prop
  | .singleLine => ConsumesExactly (recvSingleLineReply : Conn Unit Bytes) bs
  | .int => ConsumesExactly (recvIntReply : Conn Unit Int) bs
  | .bulk => ConsumesExactly (recvBulkReply : Conn Unit Bytes) bs
  | .multiBulk => ConsumesExactly recvMultiBulkReply bs
  | .multiBulkSet => ConsumesExactly recvMultiBulkReplySet bs
  | .kv => ConsumesExactly (recvKvReply : Conn Unit KeyValue) bs
  | .double => ConsumesExactly (recvDoubleReply : Conn Unit δ) bs

/-- Whole numbers are written to a stream, and read from one, as `double` as they are as `long`. -/
instance wholeDoubles : DoubleFormat Int := { put := intText, get := streamLong }

/-- A decoder consumes exactly the replies of its kind that are framed. -/
theorem decoder_consumes_iff {δ : Type} [DoubleFormat δ] (d : Decoder) {r : Reply}
    (h : r.IsFor d.kind) : d.Consumes δ r.encode ↔ r.Framed d.kind := by
  cases d with
  | singleLine => exact recvSingleLineReply_reads.consumesExactly_iff h
  | int => exact recvIntReply_reads.consumesExactly_iff h
  | bulk => exact recvBulkReply_reads.consumesExactly_iff h
  | multiBulk => exact (recvMultiBulkReplyInto_reads pushBack).consumesExactly_iff h
  | multiBulkSet => exact (recvMultiBulkReplyInto_reads insert).consumesExactly_iff h
  | kv => exact recvKvReply_reads.consumesExactly_iff h
  | double => exact recvDoubleReply_reads.consumesExactly_iff h

theorem decoder_consumes_iff_two_keys :
    Decoder.Consumes Int (Reply.multiBulk (some [some (text "a"), none])).encode .multiBulk ↔
      (Reply.multiBulk (some [some (text "a"), none])).Framed .multiBulk :=
  decoder_consumes_iff (r := .multiBulk (some [some (text "a"), none])) .multiBulk trivial

/-- Of a multi-bulk with a NUL in its first element the second one stays unread, and a null bulk
in place of a double makes the decoder wait for a second reply. -/
theorem decoder_not_consumes :
    (Reply.IsFor (.multiBulk (some [some [nul], some (text "x")])) Decoder.multiBulk.kind ∧
      ¬ Decoder.multiBulk.Consumes Int
        (Reply.multiBulk (some [some [nul], some (text "x")])).encode) ∧
    (Reply.IsFor (.bulk none) Decoder.double.kind ∧
      ¬ Decoder.double.Consumes Int (Reply.bulk none).encode) := by
  refine ⟨⟨trivial, ?_⟩, trivial, ?_⟩
  · have hr : Reply.IsFor (.multiBulk (some [some [nul], some (text "x")])) .multiBulk := trivial
    refine ((recvMultiBulkReplyInto_reads pushBack).misframes _ hr ?_).not_consumesExactly
    intro hframed
    exact hframed.2.2 (some [nul]) (by simp) [nul] rfl (by simp)
  · exact (recvDoubleReply_reads.misframes (.bulk none) trivial id).not_consumesExactly

end Redis
end CppPractice
