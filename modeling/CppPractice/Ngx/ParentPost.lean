import CppPractice.Ngx.Subrequest

/-!
# ParentPost — how the parent of a subrequest ends

`NgxSubRequestHandler::parent_post` finalizes the parent with what `T::parent_post` returns; what that
throws is caught, and nothing is done about it.

`parentPostExcept` is `NdgSubrequestCallback::parent_post` with everything that may fail in it: the header
list, the pool, and `ngx_http_send_header`, which is called until `header_sent` is set.  Where nothing fails
it is `parentPost`.
-/

namespace CppPractice
namespace Ngx

open Segment Heap

/-! ## Sends that may throw -/

/-- Which allocations of a response succeed, and what `ngx_http_send_header` returns. -/
structure Answers where
  /-- `ngx_list_push` for the `i`-th header -/
  pushed : Nat → Bool
  /-- `ngx_alloc_chain_link` for the `i`-th send -/
  linked : Nat → Bool
  /-- what `ngx_http_send_header` returns to the `i`-th send, and `header_sent` after it -/
  header : Nat → Int × Bool
  /-- the buffer of the text -/
  buffered : Bool
  /-- the buffer of `ngx_http_send_special` -/
  special : Bool

/-- A response up to now. -/
structure Attempt where
  request : ResponseRequest
  sending : Sending
  /-- `header_sent` -/
  headerSent : Bool
  /-- how many buffers have been sent -/
  sends : Nat

/-- `rc == NGX_ERROR || rc > NGX_OK` -/
def headerFails (rc : Int) : Bool := rc == -1 || decide (0 < rc)

namespace NgxResponse

/-- `send(ngx_buf_t* buf)`, or the code of the exception and what there is then -/
def sendExcept (a : Answers) (f : Filters) (what : Option Nat) (buf : Nat) (s : Attempt) :
    Except (Int × Attempt) Attempt :=
  if a.linked s.sends then
    let done := { s with
      sending := send s.request f what buf s.sending
      sends := s.sends + 1 }
    if s.headerSent then
      .ok done
    else
      let answer := a.header s.sends
      if headerFails answer.1 then
        let h := f.header what (sendBuf buf s.sending.heap).2
        .error (answer.1, { s with sending := { s.sending with heap := h }, headerSent := answer.2 })
      else
        .ok { done with headerSent := answer.2 }
  else
    .error (-1, s)

/-- `send(ngx_str_t* str)` -/
def sendStrExcept (a : Answers) (f : Filters) (str : NgxStr) (s : Attempt) :
    Except (Int × Attempt) Attempt :=
  if a.buffered then
    let buf := NgxPool.buffer s.sending.heap
    let h := buf.2.updateBuf buf.1 (NgxBuf.range str)
    sendExcept a f none buf.1 { s with sending := { s.sending with heap := h } }
  else
    .error (-1, s)

/-- `eof()`, which returns `NGX_ERROR` without a buffer; nothing looks at that. -/
def eof (a : Answers) (s : Attempt) : Attempt :=
  if a.special then
    let eof := ngxHttpSendSpecial s.request.whole true false s.sending.heap
    { s with sending := ⟨eof.2, s.sending.outs ++ [eof]⟩ }
  else
    s

end NgxResponse

namespace NdgSubrequestCallback

/-- `h.list().visit(..)`, from the `i`-th header on -/
def addHeaders (a : Answers) : Nat → List NgxTableElt → Attempt → Except (Int × Attempt) Attempt
  | _, [], s => .ok s
  | i, kv :: kvs, s =>
      if a.pushed i then
        let headers := s.request.headers ++ [addedHeader kv]
        addHeaders a (i + 1) kvs { s with request := { s.request with headers := headers } }
      else
        .error (-1, s)

/-- The body of `for(auto& ch : chain)`. -/
def sendLinkExcept (a : Answers) (f : Filters) (ch : Nat) (s : Attempt) :
    Except (Int × Attempt) Attempt :=
  if NgxBuf.special (s.sending.heap.data ch) then
    .ok s
  else
    let h :=
      if NgxBuf.last (s.sending.heap.data ch) then
        s.sending.heap.updateBuf (s.sending.heap.link ch).buf (NgxBuf.finish false)
      else
        s.sending.heap
    NgxResponse.sendExcept a f (some ch) (h.link ch).buf
      { s with sending := { s.sending with heap := h } }

/-- `parent_post(r)`: the code that is returned or thrown, with the response.  `sent` is `header_sent`. -/
def parentPostExcept (a : Answers) (f : Filters) (text : UInt64) (subHeaders : List NgxTableElt)
    (ctx : NdgDataHookCtx) (r : ResponseRequest) (sent : Bool) (h : Heap) :
    Option (Except (Int × Attempt) (Int × Attempt)) :=
  if ctx.status ≠ 200 then
    some (.ok (500, ⟨r, ⟨h, []⟩, sent, 0⟩))
  else if ctx.headers = 0 then
    none
  else do
    let msg : NgxStr := ⟨text, 10⟩
    let size ← NgxChain.size ctx.body h
    let len := msg.len + size
    let r := { r with contentLengthN := toOffT len.toNat }
    match addHeaders a 0 subHeaders ⟨r, ⟨h, []⟩, sent, 0⟩ with
    | .error e => some (.error e)
    | .ok s =>
        let posted ← forEachExcept (fun s : Attempt => s.sending.heap.next) 0 (sendLinkExcept a f) h.brk
          ctx.body s
        return (posted.bind (NgxResponse.sendStrExcept a f msg)).map fun s => (0, NgxResponse.eof a s)

end NdgSubrequestCallback

/-- `NgxSubRequestHandler<T, NGX_HTTP_CONTENT_PHASE>::parent_post`: the codes that
`ngx_http_finalize_request` is called with, by what `T::parent_post` returns or throws.  `catch(...)` only
returns. -/
def NgxSubRequestHandler.parentPost {E R : Type} : Except E (Int × R) → List Int
  | .ok posted => [posted.1]
  | .error _ => []

/-! ## Without exceptions -/

section plain

variable {a : Answers} {f : Filters} {s t : Attempt}

theorem NgxResponse.sending_sendExcept {what : Option Nat} {buf : Nat}
    (h : NgxResponse.sendExcept a f what buf s = .ok t) :
    t.sending = NgxResponse.send s.request f what buf s.sending ∧ t.request = s.request := by
  simp only [NgxResponse.sendExcept] at h
  split at h
  · split at h
    · cases h
      exact ⟨rfl, rfl⟩
    · split at h
      · cases h
      · cases h
        exact ⟨rfl, rfl⟩
  · cases h

theorem NdgSubrequestCallback.sending_sendLinkExcept {ch : Nat}
    (h : NdgSubrequestCallback.sendLinkExcept a f ch s = .ok t) :
    t.sending = NdgSubrequestCallback.sendLink s.request f ch s.sending ∧ t.request = s.request := by
  simp only [NdgSubrequestCallback.sendLinkExcept, NdgSubrequestCallback.sendLink] at h ⊢
  split at h
  case isTrue hspecial =>
    cases h
    exact ⟨(if_pos hspecial).symm, rfl⟩
  case isFalse hspecial =>
    rw [if_neg hspecial]
    exact NgxResponse.sending_sendExcept h

theorem NdgSubrequestCallback.addHeaders_ok {i : Nat} {kvs : List NgxTableElt}
    (h : NdgSubrequestCallback.addHeaders a i kvs s = .ok t) :
    t = { s with request := { s.request with
      headers := s.request.headers ++ kvs.map addedHeader } } := by
  induction kvs generalizing i s with
  | nil =>
      cases h
      simp
  | cons kv kvs ih =>
      rw [NdgSubrequestCallback.addHeaders] at h
      split at h
      · rw [ih h]
        simp
      · cases h

theorem NdgSubrequestCallback.sending_loop {fuel ch : Nat}
    (h : forEachExcept (fun s : Attempt => s.sending.heap.next) 0
      (NdgSubrequestCallback.sendLinkExcept a f) fuel ch s = some (.ok t)) :
    t.request = s.request ∧ forEach (fun s => s.heap.next) 0
      (NdgSubrequestCallback.sendLink s.request f) fuel ch s.sending = some t.sending := by
  refine forEachExcept_ok (f := Attempt.sending) (K := fun u => u.request = s.request) ?_
    (fun _ => rfl) rfl h
  intro q u v hu hv
  rcases NdgSubrequestCallback.sending_sendLinkExcept hv with ⟨hsending, hrequest⟩
  exact ⟨hrequest.trans hu, hu ▸ hsending⟩

theorem NgxResponse.sending_sendStrExcept {str : NgxStr}
    (h : NgxResponse.sendStrExcept a f str s = .ok t) :
    t.sending = NgxResponse.send s.request f none s.sending.heap.brk
        { s.sending with heap :=
          (NgxPool.buffer s.sending.heap).2.updateBuf s.sending.heap.brk (NgxBuf.range str) } ∧
      t.request = s.request := by
  rw [NgxResponse.sendStrExcept] at h
  split at h
  · exact NgxResponse.sending_sendExcept h
  · cases h

/-- Where nothing fails, the response is that of `parentPost`. -/
theorem NdgSubrequestCallback.parentPost_of_ok {text : UInt64} {subHeaders : List NgxTableElt}
    {ctx : NdgDataHookCtx} {r : ResponseRequest} {sent : Bool} {h : Heap} {rc : Int}
    (hspecial : a.special = true)
    (hrun : NdgSubrequestCallback.parentPostExcept a f text subHeaders ctx r sent h =
      some (.ok (rc, t))) :
    NdgSubrequestCallback.parentPost f text subHeaders ctx r h = some (rc, t.request, t.sending) := by
  by_cases hstatus : ctx.status = 200
  case neg =>
    simp only [NdgSubrequestCallback.parentPostExcept, NdgSubrequestCallback.parentPost, ne_eq,
      hstatus, not_false_eq_true, if_true] at hrun ⊢
    cases hrun
    rfl
  by_cases hheaders : ctx.headers = 0
  · simp [NdgSubrequestCallback.parentPostExcept, hstatus, hheaders] at hrun
  cases hsize : NgxChain.size ctx.body h with
  | none => simp [NdgSubrequestCallback.parentPostExcept, hstatus, hheaders, hsize] at hrun
  | some size =>
      simp only [NdgSubrequestCallback.parentPostExcept, NdgSubrequestCallback.parentPost, ne_eq,
        hstatus, hheaders, hsize, not_true_eq_false, if_false, Option.bind_eq_bind,
        Option.bind_some] at hrun ⊢
      obtain ⟨len, hlen⟩ : ∃ len, len = toOffT (((10 : UInt64) + size).toNat : Int) := ⟨_, rfl⟩
      rw [← hlen] at hrun ⊢
      split at hrun
      case h_1 => cases hrun
      case h_2 s hadded =>
        rcases Option.bind_eq_some_iff.1 hrun with ⟨posted, hloop, hposted⟩
        obtain rfl := NdgSubrequestCallback.addHeaders_ok hadded
        cases posted with
        | error e => cases hposted
        | ok u =>
            rcases NdgSubrequestCallback.sending_loop hloop with ⟨hu, hloop'⟩
            cases hstr : NgxResponse.sendStrExcept a f ⟨text, 10⟩ u with
            | error e => simp [Except.bind, hstr, Except.map] at hposted
            | ok v =>
                rcases NgxResponse.sending_sendStrExcept hstr with ⟨hsending, hv⟩
                have hend : (0, NgxResponse.eof a v) = (rc, t) := by
                  simpa [Except.bind, hstr, Except.map] using hposted
                cases hend
                rw [hloop', Option.bind_some, NgxResponse.eof, if_pos hspecial, hsending, hv, hu]
                rfl

end plain

/-! ## What is asked of the answers -/

namespace Answers

variable (a : Answers) (sent : Bool)

/-- `header_sent` at the `i`-th send. -/
def headerSent : Nat → Bool
  | 0 => sent
  | i + 1 => headerSent i || (a.header i).2

/-- The `i`-th send throws nothing: it gets its link, and the header has been sent or goes out. -/
def Passes (i : Nat) : Prop :=
  a.linked i = true ∧ (a.headerSent sent i = true ∨ headerFails (a.header i).1 = false)

instance (i : Nat) : Decidable (a.Passes sent i) := by
  unfold Passes
  infer_instance

end Answers

/-- How many buffers of the body are sent: all but the special ones. -/
def bodySends (h : Heap) (l : List Nat) : Nat := l.countP fun q => !NgxBuf.special (h.data q)

/-- Nothing fails: the headers are added, and the body and the text are sent. -/
def Unhindered (a : Answers) (sent : Bool) (subHeaders : List NgxTableElt) (h : Heap) (l : List Nat) :
    Prop :=
  (∀ i < subHeaders.length, a.pushed i = true) ∧ (∀ i ≤ bodySends h l, a.Passes sent i) ∧
    a.buffered = true

/-- The output filters have been given chains of one buffer for which `P` holds. -/
def AllSent (P : Buf → Prop) (outs : List (Nat × Heap)) : Prop :=
  ∀ out ∈ outs, ∃ b, out.2.chain out.1 = some [b] ∧ P b

theorem AllSent.snoc {P : Buf → Prop} {outs : List (Nat × Heap)} (houts : AllSent P outs) {n : Nat}
    {g : Heap} (howns : g.Owns n [n]) (hdata : P (g.data n)) : AllSent P (outs ++ [(n, g)]) := by
  intro out hout
  rcases List.mem_append.1 hout with hout | hout
  · exact houts out hout
  · obtain rfl := List.mem_singleton.1 hout
    exact ⟨g.data n, howns.chain_eq, hdata⟩

theorem AllSent.mono {P Q : Buf → Prop} {outs : List (Nat × Heap)} (houts : AllSent P outs)
    (hPQ : ∀ b, P b → Q b) : AllSent Q outs := by
  intro out hout
  rcases houts out hout with ⟨b, hchain, hb⟩
  exact ⟨b, hchain, hPQ b hb⟩

section sends

variable {a : Answers} {f : Filters} {sent : Bool} {s : Attempt}

/-- A send throws before anything has been given to the body filters, or is that of `send`. -/
theorem NgxResponse.sendExcept_spec (what : Option Nat) (buf : Nat)
    (hsent : s.headerSent = a.headerSent sent s.sends) :
    (∃ e, NgxResponse.sendExcept a f what buf s = .error e ∧ ¬a.Passes sent s.sends ∧
        e.2.request = s.request ∧ e.2.sending.outs = s.sending.outs) ∨
      (a.Passes sent s.sends ∧ NgxResponse.sendExcept a f what buf s = .ok
        ⟨s.request, NgxResponse.send s.request f what buf s.sending, a.headerSent sent (s.sends + 1),
          s.sends + 1⟩) := by
  cases hlinked : a.linked s.sends with
  | false =>
      refine Or.inl ⟨(-1, s), ?_, ?_, rfl, rfl⟩
      · simp [NgxResponse.sendExcept, hlinked]
      · rintro ⟨hlink, -⟩
        rw [hlinked] at hlink
        cases hlink
  | true =>
      cases hheader : s.headerSent with
      | true =>
          rw [hheader] at hsent
          refine Or.inr ⟨⟨hlinked, Or.inl hsent.symm⟩, ?_⟩
          simp [NgxResponse.sendExcept, hlinked, hheader, Answers.headerSent, ← hsent]
      | false =>
          rw [hheader] at hsent
          cases hfails : headerFails (a.header s.sends).1 with
          | true =>
              have hthrown : NgxResponse.sendExcept a f what buf s = .error ((a.header s.sends).1,
                  { s with
                    sending := ⟨f.header what (NgxResponse.sendBuf buf s.sending.heap).2, s.sending.outs⟩
                    headerSent := (a.header s.sends).2 }) := by
                simp [NgxResponse.sendExcept, hlinked, hheader, hfails]
              refine Or.inl ⟨_, hthrown, ?_, rfl, rfl⟩
              rintro ⟨-, hpasses | hpasses⟩
              · rw [← hsent] at hpasses
                cases hpasses
              · rw [hfails] at hpasses
                cases hpasses
          | false =>
              refine Or.inr ⟨⟨hlinked, Or.inr hfails⟩, ?_⟩
              simp [NgxResponse.sendExcept, hlinked, hheader, hfails, Answers.headerSent, ← hsent]

end sends

/-! ## The loop over the body -/

/-- The buffer is as it was in `h₀`, or has been sent without the flags of an end. -/
def Unflagged (h₀ h : Heap) (b : Nat) : Prop :=
  h.buf b = h₀.buf b ∨
    (NgxBuf.special (h₀.buf b) = false ∧ h.buf b = NgxBuf.finish false (h₀.buf b))

/-- Taking flags away makes no buffer special. -/
theorem special_finish {b : Buf} (h : NgxBuf.special b = false) :
    NgxBuf.special (NgxBuf.finish false b) = false := by
  revert h
  simp only [NgxBuf.special, ngxBufSpecial, NgxBuf.finish, ngxBufInMemory]
  cases b.flush <;> cases b.sync <;> simp

namespace Unflagged

variable {h₀ h h' : Heap} {b : Nat}

theorem special_eq (hb : Unflagged h₀ h b) :
    NgxBuf.special (h.buf b) = NgxBuf.special (h₀.buf b) := by
  rcases hb with heq | ⟨hspecial, heq⟩
  · rw [heq]
  · rw [heq, hspecial, special_finish hspecial]

theorem trans_item (hb : Unflagged h₀ h b) (hitem : h'.item b = h.item b) : Unflagged h₀ h' b := by
  have hbuf : h'.buf b = h.buf b := congrArg (fun i => i.2.1) hitem
  rw [Unflagged, hbuf]
  exact hb

theorem finish (hb : Unflagged h₀ h b) {c : Nat} (hc : NgxBuf.special (h.buf c) = false) :
    Unflagged h₀ (h.updateBuf c (NgxBuf.finish false)) b := by
  by_cases hbc : b = c
  · subst hbc
    have hupdated : (h.updateBuf b (NgxBuf.finish false)).buf b = NgxBuf.finish false (h.buf b) := by
      simp [updateBuf]
    refine Or.inr ⟨hb.special_eq ▸ hc, ?_⟩
    rcases hb with heq | ⟨-, heq⟩
    · rw [hupdated, heq]
    · rw [hupdated, heq]
      rfl
  · have hupdated : (h.updateBuf c (NgxBuf.finish false)).buf b = h.buf b := by
      simp [updateBuf, hbc]
    rw [Unflagged, hupdated]
    exact hb

end Unflagged

/-- A buffer that is sent for one of the body. -/
def OfBody (h₀ : Heap) (l : List Nat) (b : Buf) : Prop :=
  ∃ q ∈ l, NgxBuf.special (h₀.data q) = false ∧
    (b = h₀.data q ∨ b = NgxBuf.finish false (h₀.data q))

section loop

variable {a : Answers} {f : Filters} {sent : Bool} {r : ResponseRequest} {msg : NgxStr} {h₀ : Heap}
  {l before after : List Nat} {q : Nat} {s : Attempt}

/-- The loop has come to `after`, and nothing has failed yet. -/
structure Going (a : Answers) (sent : Bool) (r : ResponseRequest) (h₀ : Heap)
    (l before after : List Nat) (s : Attempt) : Prop where
  ready : s.sending.heap.Ready l
  link : ∀ p ∈ l, s.sending.heap.link p = h₀.link p
  brk : h₀.brk ≤ s.sending.heap.brk
  unflagged : ∀ p ∈ after, Unflagged h₀ s.sending.heap (h₀.link p).buf
  request : s.request = r
  headerSent : s.headerSent = a.headerSent sent s.sends
  sends : s.sends = bodySends h₀ before
  passes : ∀ i < s.sends, a.Passes sent i
  outs : AllSent (OfBody h₀ l) s.sending.outs

/-- A send of the body has thrown. -/
structure Stopped (a : Answers) (sent : Bool) (r : ResponseRequest) (h₀ : Heap) (l : List Nat)
    (e : Int × Attempt) : Prop where
  fails : ∃ i < bodySends h₀ l, ¬a.Passes sent i
  request : e.2.request = r
  outs : AllSent (OfBody h₀ l) e.2.sending.outs

theorem bodySends_special (hq : NgxBuf.special (h₀.data q) = true) :
    bodySends h₀ (before ++ [q]) = bodySends h₀ before := by
  simp [bodySends, hq]

theorem bodySends_sent (hq : NgxBuf.special (h₀.data q) = false) :
    bodySends h₀ (before ++ [q]) = bodySends h₀ before + 1 := by
  simp [bodySends, hq]

theorem bodySends_lt (hl : l = before ++ q :: after) (hq : NgxBuf.special (h₀.data q) = false) :
    bodySends h₀ before < bodySends h₀ l := by
  have hsplit : bodySends h₀ l = bodySends h₀ before + (bodySends h₀ after + 1) := by
    simp [bodySends, hl, hq]
  rw [hsplit]
  exact Nat.lt_add_of_pos_right (Nat.succ_pos _)

theorem Going.special_eq (hs : Going a sent r h₀ l before (q :: after) s) (hq : q ∈ l) :
    NgxBuf.special (s.sending.heap.data q) = NgxBuf.special (h₀.data q) := by
  simpa [data, hs.link q hq] using (hs.unflagged q List.mem_cons_self).special_eq

/-- A special buffer is skipped. -/
theorem Going.skip (hs : Going a sent r h₀ l before (q :: after) s)
    (hspecial : NgxBuf.special (h₀.data q) = true) : Going a sent r h₀ l (before ++ [q]) after s :=
  { hs with
    unflagged := fun p hp => hs.unflagged p (List.mem_cons_of_mem q hp)
    sends := hs.sends.trans (bodySends_special hspecial).symm }

/-- The flags of an end are taken away from a buffer that is to be sent. -/
theorem Going.unflag (hs : Going a sent r h₀ l before (q :: after) s) (hq : q ∈ l)
    (hspecial : NgxBuf.special (h₀.data q) = false) :
    Going a sent r h₀ l before (q :: after)
      { s with sending := { s.sending with heap := Ngx.unflag q s.sending.heap } } := by
  have hspecial' : NgxBuf.special (s.sending.heap.data q) = false := (hs.special_eq hq).trans hspecial
  cases hlast : NgxBuf.last (s.sending.heap.data q) with
  | true =>
      rw [Ngx.unflag, if_pos hlast]
      exact { hs with
        ready := hs.ready.congr rfl (Nat.le_refl _) fun _ _ _ => rfl
        unflagged := fun p hp => (hs.unflagged p hp).finish hspecial' }
  | false =>
      rw [Ngx.unflag, hlast, if_neg Bool.false_ne_true]
      exact hs

/-- One round of the loop. -/
theorem Going.sendLink (hf : f.Spare msg l) (hlt : ∀ p ∈ l, (h₀.link p).buf < h₀.brk)
    (hl : l = before ++ q :: after) (hs : Going a sent r h₀ l before (q :: after) s) :
    (∃ e, NdgSubrequestCallback.sendLinkExcept a f q s = .error e ∧ Stopped a sent r h₀ l e) ∨
      ∃ t, NdgSubrequestCallback.sendLinkExcept a f q s = .ok t ∧
        Going a sent r h₀ l (before ++ [q]) after t := by
  have hq : q ∈ l := by simp [hl]
  cases hspecial : NgxBuf.special (h₀.data q) with
  | true => exact Or.inr ⟨s, if_pos ((hs.special_eq hq).trans hspecial), hs.skip hspecial⟩
  | false =>
      obtain ⟨h, hh⟩ : ∃ h, h = Ngx.unflag q s.sending.heap := ⟨_, rfl⟩
      have hu := hs.unflag hq hspecial
      rw [← hh] at hu
      have hround : NdgSubrequestCallback.sendLinkExcept a f q s = NgxResponse.sendExcept a f (some q)
          (h.link q).buf { s with sending := { s.sending with heap := h } } := by
        rw [NdgSubrequestCallback.sendLinkExcept, hs.special_eq hq, hspecial,
          if_neg Bool.false_ne_true, hh]
        rfl
      rw [hround]
      -- Either the send throws, and the link's send is the first that fails, or it is the plain one.
      rcases NgxResponse.sendExcept_spec _ _ hu.headerSent with
        ⟨e, hthrown, hfails, hrequest, houts⟩ | ⟨hpasses, hdone⟩
      · refine Or.inl ⟨e, hthrown, ⟨_, ?_, hfails⟩, hrequest.trans hu.request, houts ▸ hu.outs⟩
        rw [hu.sends]
        exact bodySends_lt hl hspecial
      · have hbuf : (h.link q).buf < h.brk := by
          rw [hu.link q hq]
          exact Nat.lt_of_lt_of_le (hlt q hq) hu.brk
        rcases NgxResponse.send_spec (s := { s.sending with heap := h }) r hf hl hu.ready hbuf with
          ⟨t, n, g, hsend, hkept, -, houts, howns, hdata, -⟩
        have hafter : after ⊆ l := fun p hp => by simp [hl, hp]
        rcases hkept.of_link hafter hu.link with ⟨hlinks, hitems⟩
        refine Or.inr ⟨_, hdone, ?_⟩
        rw [hu.request, hsend]
        refine ⟨hkept.ready, hlinks, Nat.le_trans hu.brk hkept.brk, ?_, rfl, rfl, ?_, ?_, ?_⟩
        · intro p hp
          exact (hu.unflagged p (List.mem_cons_of_mem q hp)).trans_item (hitems p hp)
        · rw [bodySends_sent hspecial, ← hu.sends]
        · intro i hi
          rcases Nat.lt_succ_iff_lt_or_eq.1 hi with hi | rfl
          · exact hu.passes i hi
          · exact hpasses
        · have hofBody : OfBody h₀ l (g.data n) := by
            refine ⟨q, hq, hspecial, ?_⟩
            rw [hdata, data, hu.link q hq]
            exact (hu.unflagged q List.mem_cons_self).imp id And.right
          rw [houts]
          cases r.headerOnly with
          | true => exact hu.outs
          | false => exact hu.outs.snoc howns hofBody

/-- The whole loop. -/
theorem going_loop (hf : f.Spare msg l) {p : Nat} (howns : h₀.Owns p l)
    (hs : Going a sent r h₀ l [] l s) (hheap : s.sending.heap = h₀) :
    (∃ e, forEachExcept (fun s : Attempt => s.sending.heap.next) 0
        (NdgSubrequestCallback.sendLinkExcept a f) h₀.brk p s = some (.error e) ∧
        Stopped a sent r h₀ l e) ∨
      ∃ t, forEachExcept (fun s : Attempt => s.sending.heap.next) 0
        (NdgSubrequestCallback.sendLinkExcept a f) h₀.brk p s = some (.ok t) ∧
        Going a sent r h₀ l l [] t := by
  apply forEachExcept_rule (I := Going a sent r h₀ l) _ hs (hheap ▸ howns.chain)
    (length_le_brk howns.chain howns.ready)
  intro before q after t hl ht
  rcases ht.sendLink hf howns.buf_lt hl with hthrown | ⟨u, hdone, hu⟩
  · exact Or.inl hthrown
  · refine Or.inr ⟨u, hdone, hu, ?_⟩
    intro x hx
    have hxl : x ∈ l := by
      rw [hl]
      exact List.mem_append_right before hx
    exact congrArg Link.next ((hu.link x hxl).trans (ht.link x hxl).symm)

end loop

/-! ## The whole response -/

/-- What is sent: buffers of the body, the text, and the end. -/
def OfResponse (whole : Bool) (msg : NgxStr) (h₀ : Heap) (l : List Nat) (b : Buf) : Prop :=
  OfBody h₀ l b ∨ b = NgxBuf.range msg Buf.zero ∨ b = specialBuf whole true false

/-- The response when `parent_post` is left, one way or the other. -/
def attempt : Except (Int × Attempt) (Int × Attempt) → Attempt
  | .ok posted => posted.2
  | .error e => e.2

section response

variable {a : Answers} {f : Filters} {sent : Bool} {r : ResponseRequest} {msg : NgxStr} {h₀ : Heap}
  {l : List Nat} {s : Attempt}

/-- The headers are added if the list takes each of them. -/
theorem addHeaders_spec (kvs : List NgxTableElt) (i : Nat) (s : Attempt) :
    (∃ e, NdgSubrequestCallback.addHeaders a i kvs s = .error e ∧
        (¬∀ j < kvs.length, a.pushed (i + j) = true) ∧ e.2.sending = s.sending) ∨
      ((∀ j < kvs.length, a.pushed (i + j) = true) ∧
        ∃ t, NdgSubrequestCallback.addHeaders a i kvs s = .ok t) := by
  induction kvs generalizing i s with
  | nil => exact Or.inr ⟨fun j hj => absurd hj (Nat.not_lt_zero j), s, rfl⟩
  | cons kv kvs ih =>
      cases hpushed : a.pushed i with
      | false =>
          refine Or.inl ⟨(-1, s), ?_, ?_, rfl⟩
          · simp [NdgSubrequestCallback.addHeaders, hpushed]
          · intro hall
            have hfirst : a.pushed i = true := hall 0 (Nat.succ_pos _)
            rw [hpushed] at hfirst
            cases hfirst
      | true =>
          simp only [NdgSubrequestCallback.addHeaders, hpushed, if_true]
          have hshift : (∀ j < (kv :: kvs).length, a.pushed (i + j) = true) ↔
              ∀ j < kvs.length, a.pushed (i + 1 + j) = true := by
            constructor
            · intro hall j hj
              rw [Nat.add_assoc, Nat.add_comm 1 j]
              exact hall (j + 1) (Nat.succ_lt_succ hj)
            · intro hall j hj
              cases j with
              | zero => exact hpushed
              | succ j =>
                  rw [Nat.add_comm j 1, ← Nat.add_assoc]
                  exact hall j (Nat.lt_of_succ_lt_succ hj)
          rw [hshift]
          exact ih (i + 1) _

/-- After the body the text is sent. -/
theorem Going.sendStr (hf : f.Spare msg l) (hs : Going a sent r h₀ l l [] s) :
    (∃ e, NgxResponse.sendStrExcept a f msg s = .error e ∧
        ¬(a.buffered = true ∧ a.Passes sent (bodySends h₀ l)) ∧
        AllSent (OfBody h₀ l) e.2.sending.outs) ∨
      (a.buffered = true ∧ a.Passes sent (bodySends h₀ l) ∧
        ∃ t, NgxResponse.sendStrExcept a f msg s = .ok t ∧ t.request = r ∧
          t.sending.heap.Ready [] ∧ AllSent (OfResponse r.whole msg h₀ l) t.sending.outs) := by
  cases hbuffered : a.buffered with
  | false =>
      refine Or.inl ⟨(-1, s), ?_, fun h => Bool.false_ne_true h.1, hs.outs⟩
      simp [NgxResponse.sendStrExcept, hbuffered]
  | true =>
      simp only [NgxResponse.sendStrExcept, hbuffered, if_true]
      rw [← hs.sends]
      obtain ⟨h, hh⟩ : ∃ h, h = (NgxPool.buffer s.sending.heap).2.updateBuf
          (NgxPool.buffer s.sending.heap).1 (NgxBuf.range msg) := ⟨_, rfl⟩
      rw [← hh]
      rcases NgxResponse.sendExcept_spec (f := f) (s := { s with sending := { s.sending with heap := h } })
          none (NgxPool.buffer s.sending.heap).1 hs.headerSent with
        ⟨e, hthrown, hfails, -, houts⟩ | ⟨hpasses, hdone⟩
      · exact Or.inl ⟨e, hthrown, fun h => hfails h.2, houts ▸ hs.outs⟩
      · rcases NgxResponse.sendText_spec (s := s.sending) r hf (hs.ready.mono (List.nil_subset l)) with
          ⟨t, n, g, hsend, hready, houts, howns, hdata, -⟩
        have hbody : AllSent (OfResponse r.whole msg h₀ l) s.sending.outs :=
          hs.outs.mono fun _ => Or.inl
        have hall : AllSent (OfResponse r.whole msg h₀ l) t.outs := by
          rw [houts]
          cases r.headerOnly with
          | true => exact hbody
          | false => exact hbody.snoc howns (Or.inr (Or.inl hdata))
        refine Or.inr ⟨trivial, hpasses, _, hdone, hs.request, ?_⟩
        rw [hs.request]
        subst hh hsend
        exact ⟨hready, hall⟩

/-- The end is sent if there is a buffer for it. -/
theorem allSent_eof (hready : s.sending.heap.Ready [])
    (houts : AllSent (OfResponse s.request.whole msg h₀ l) s.sending.outs) :
    AllSent (OfResponse s.request.whole msg h₀ l) (NgxResponse.eof a s).sending.outs := by
  rw [NgxResponse.eof]
  cases a.special with
  | false => exact houts
  | true =>
      rcases sendSpecial_spec s.request.whole true false hready with
        ⟨n, g, hsend, -, howns, -, hdata, -⟩
      simp only [if_true, hsend]
      exact houts.snoc howns (Or.inr (Or.inr hdata))

/-- Once the headers have been added, the body, the text and the end are sent if no send fails. -/
theorem Going.respond (hf : f.Spare msg l) {p : Nat} (howns : h₀.Owns p l)
    (hs : Going a sent s.request h₀ l [] l s) (hheap : s.sending.heap = h₀) :
    ∃ looped posted, forEachExcept (fun s : Attempt => s.sending.heap.next) 0
        (NdgSubrequestCallback.sendLinkExcept a f) h₀.brk p s = some looped ∧
      (looped.bind (NgxResponse.sendStrExcept a f msg)).map (fun s => (0, NgxResponse.eof a s)) = posted ∧
      ((∃ x, posted = .ok x) ↔ (∀ i ≤ bodySends h₀ l, a.Passes sent i) ∧ a.buffered = true) ∧
      AllSent (OfResponse s.request.whole msg h₀ l) (attempt posted).sending.outs := by
  rcases going_loop hf howns hs hheap with ⟨e, hloop, he⟩ | ⟨t, hloop, ht⟩
  · refine ⟨_, .error e, hloop, rfl, ⟨?_, ?_⟩, he.outs.mono fun _ => Or.inl⟩
    · rintro ⟨x, hx⟩
      cases hx
    · rintro ⟨hpasses, -⟩
      rcases he.fails with ⟨i, hi, hfails⟩
      exact absurd (hpasses i (Nat.le_of_lt hi)) hfails
  rcases ht.sendStr hf with ⟨e, hthrown, hfails, houts⟩ | ⟨hbuffered, hlast, u, hdone, hu, hready, houts⟩
  · refine ⟨_, .error e, hloop, ?_, ⟨?_, ?_⟩, houts.mono fun _ => Or.inl⟩
    · simp only [Except.bind, hthrown, Except.map]
    · rintro ⟨x, hx⟩
      cases hx
    · rintro ⟨hpasses, hbuffered⟩
      exact absurd ⟨hbuffered, hpasses _ (Nat.le_refl _)⟩ hfails
  · rw [← hu] at houts
    refine ⟨_, .ok (0, NgxResponse.eof a u), hloop, ?_, ⟨fun _ => ⟨?_, hbuffered⟩, fun _ => ⟨_, rfl⟩⟩, ?_⟩
    · simp only [Except.bind, hdone, Except.map]
    · intro i hi
      rcases Nat.lt_or_eq_of_le hi with hi | rfl
      · exact ht.passes i (ht.sends ▸ hi)
      · exact hlast
    · rw [← hu]
      exact allSent_eof hready houts

/-- What `parent_post` does with a subrequest that has ended well: it returns if and only if nothing fails,
and up to where it is left it has sent buffers of the body, the text and the end. -/
theorem parentPostExcept_spec (a : Answers) (f : Filters) (text : UInt64)
    (subHeaders : List NgxTableElt) {ctx : NdgDataHookCtx} (r : ResponseRequest) (sent : Bool)
    (hstatus : ctx.status = 200) (hheaders : ctx.headers ≠ 0) {h : Heap} (howns : h.Owns ctx.body l)
    (hf : f.Spare ⟨text, 10⟩ l) :
    ∃ posted, NdgSubrequestCallback.parentPostExcept a f text subHeaders ctx r sent h = some posted ∧
      ((∃ x, posted = .ok x) ↔ Unhindered a sent subHeaders h l) ∧
      AllSent (OfResponse r.whole ⟨text, 10⟩ h l) (attempt posted).sending.outs := by
  have hsize := NgxChain.size_eq howns.chain (length_le_brk howns.chain howns.ready)
  simp only [NdgSubrequestCallback.parentPostExcept, ne_eq, hstatus, hheaders, hsize,
    not_true_eq_false, if_false, Option.bind_eq_bind, Option.bind_some]
  obtain ⟨len, hlen⟩ : ∃ len, len = toOffT
      ((10 : UInt64) + l.foldl (fun len q => len + NgxBuf.size (h.data q)) 0).toNat := ⟨_, rfl⟩
  obtain ⟨r', hr'⟩ : ∃ r' : ResponseRequest, r' = { r with contentLengthN := len } := ⟨_, rfl⟩
  rw [← hlen, ← hr']
  rcases addHeaders_spec (a := a) subHeaders 0 ⟨r', ⟨h, []⟩, sent, 0⟩ with
    ⟨e, hthrown, hnot, hsending⟩ | ⟨hpushed, s, hadded⟩
  · refine ⟨.error e, by rw [hthrown], ⟨?_, ?_⟩, ?_⟩
    · rintro ⟨x, hx⟩
      cases hx
    · rintro ⟨hpushed, -⟩
      exact absurd (by simpa using hpushed) hnot
    · simp [attempt, hsending, AllSent]
  have hpushed' : ∀ i < subHeaders.length, a.pushed i = true := by simpa using hpushed
  have hs := NdgSubrequestCallback.addHeaders_ok hadded
  have hstart : Going a sent s.request h l [] l s := by
    rw [hs]
    exact ⟨howns.ready, fun _ _ => rfl, Nat.le_refl _, fun _ _ => Or.inl rfl, rfl, rfl, rfl,
      fun i hi => absurd hi (Nat.not_lt_zero i), fun _ hout => absurd hout List.not_mem_nil⟩
  have hheap : s.sending.heap = h := by rw [hs]
  have hwhole : s.request.whole = r.whole := by rw [hs, hr']
  rcases hstart.respond hf howns hheap with ⟨looped, posted, hloop, hposted, hok, houts⟩
  refine ⟨posted, ?_, hok.trans ⟨fun h => ⟨hpushed', h⟩, fun h => h.2⟩, hwhole ▸ houts⟩
  simp only [hadded, hloop, Option.bind_some, hposted]
  rfl

end response

/-! ## Finalization -/

/-- `ngx_http_finalize_request` is called once, and with the code that was returned if one was. -/
def FinalizedOnce {E R : Type} (posted : Except E (Int × R)) : Prop :=
  ∃ rc, NgxSubRequestHandler.parentPost posted = [rc] ∧ ∀ x, posted = .ok x → rc = x.1

/-- An exception is the only way not to finalize. -/
theorem finalizedOnce_iff_ok {E R : Type} (posted : Except E (Int × R)) :
    FinalizedOnce posted ↔ ∃ x, posted = .ok x := by
  cases posted with
  | ok x =>
      refine ⟨fun _ => ⟨x, rfl⟩, fun _ => ⟨x.1, rfl, ?_⟩⟩
      intro y hy
      cases hy
      rfl
  | error e =>
      constructor
      · rintro ⟨rc, hcalls, -⟩
        cases hcalls
      · rintro ⟨x, hx⟩
        cases hx

/-- The parent is finalized exactly once if and only if `T::parent_post` returns; that of
`NdgSubrequestCallback` returns if and only if the subrequest failed or nothing fails in the response. -/
theorem parent_finalized_iff {E R : Type} (outcome : Except E (Int × R)) (a : Answers) (f : Filters)
    (text : UInt64) (subHeaders : List NgxTableElt) (ctx : NdgDataHookCtx) (r : ResponseRequest)
    (sent : Bool) (h : Heap) (l : List Nat) (hheaders : ctx.status = 200 → ctx.headers ≠ 0)
    (howns : h.Owns ctx.body l) (hf : f.Spare ⟨text, 10⟩ l) :
    (FinalizedOnce outcome ↔ ∃ x, outcome = .ok x) ∧
      ∃ posted, NdgSubrequestCallback.parentPostExcept a f text subHeaders ctx r sent h =
          some posted ∧
        (FinalizedOnce posted ↔ ctx.status ≠ 200 ∨ Unhindered a sent subHeaders h l) := by
  refine ⟨finalizedOnce_iff_ok outcome, ?_⟩
  by_cases hstatus : ctx.status = 200
  · rcases parentPostExcept_spec a f text subHeaders r sent hstatus (hheaders hstatus) howns hf with
      ⟨posted, hrun, hok, -⟩
    refine ⟨posted, hrun, ?_⟩
    rw [finalizedOnce_iff_ok, hok]
    exact ⟨Or.inr, fun h => h.resolve_left fun hne => hne hstatus⟩
  · refine ⟨_, if_pos hstatus, ?_⟩
    rw [finalizedOnce_iff_ok]
    exact ⟨fun _ => Or.inl hstatus, fun _ => ⟨_, rfl⟩⟩

/-- Nothing fails, and the first call of `ngx_http_send_header` sets `header_sent`. -/
def willing : Answers := ⟨fun _ => true, fun _ => true, fun _ => (0, true), true, true⟩

theorem parent_finalized_willing :
    (FinalizedOnce (.ok (0, ()) : Except Unit (Int × Unit)) ↔
        ∃ x, (.ok (0, ()) : Except Unit (Int × Unit)) = .ok x) ∧
      ∃ posted, NdgSubrequestCallback.parentPostExcept willing idle 100 [⟨0, ⟨100, 3⟩, ⟨103, 3⟩⟩]
          endedCtx ⟨-1, [], false, true⟩ false (oneLinkHeap threeBytes) = some posted ∧
        FinalizedOnce posted := by
  rcases parent_finalized_iff (.ok (0, ()) : Except Unit (Int × Unit)) willing idle 100
    [⟨0, ⟨100, 3⟩, ⟨103, 3⟩⟩] endedCtx ⟨-1, [], false, true⟩ false (oneLinkHeap threeBytes) [1]
    (fun _ => by decide) (owns_oneLinkHeap _) (spare_idle _ _) with ⟨hreturns, posted, hrun, hiff⟩
  refine ⟨hreturns, posted, hrun, hiff.2 (Or.inr ⟨fun _ _ => rfl, ?_, rfl⟩)⟩
  intro i _
  exact ⟨rfl, Or.inr rfl⟩

/-- Where the header does not go out, or no link can be had for the text once the body has been sent, the
parent is never finalized. -/
theorem thrown_never_finalized :
    (∃ posted, NdgSubrequestCallback.parentPostExcept { willing with header := fun _ => (-1, false) }
        idle 100 [] endedCtx ⟨-1, [], false, true⟩ false (oneLinkHeap threeBytes) = some posted ∧
        ¬FinalizedOnce posted) ∧
      ∃ posted, NdgSubrequestCallback.parentPostExcept { willing with linked := fun i => i == 0 }
        idle 100 [] endedCtx ⟨-1, [], false, true⟩ false (oneLinkHeap threeBytes) = some posted ∧
        ¬FinalizedOnce posted := by
  have hnever : ∀ a : Answers, (∃ i ≤ 1, ¬a.Passes false i) → ∃ posted,
      NdgSubrequestCallback.parentPostExcept a idle 100 [] endedCtx ⟨-1, [], false, true⟩ false
        (oneLinkHeap threeBytes) = some posted ∧ ¬FinalizedOnce posted := by
    rintro a ⟨i, hi, hfails⟩
    have hheaders : endedCtx.headers ≠ 0 := by decide
    rcases parentPostExcept_spec a idle 100 [] ⟨-1, [], false, true⟩ false rfl hheaders
      (owns_oneLinkHeap threeBytes) (spare_idle _ _) with ⟨posted, hrun, hok, -⟩
    refine ⟨posted, hrun, ?_⟩
    rw [finalizedOnce_iff_ok, hok]
    exact fun hunhindered => hfails (hunhindered.2.1 i hi)
  exact ⟨hnever _ ⟨0, Nat.zero_le 1, by decide⟩, hnever _ ⟨1, Nat.le_refl 1, by decide⟩⟩

end Ngx
end CppPractice
