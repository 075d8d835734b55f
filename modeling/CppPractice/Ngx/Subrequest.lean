import CppPractice.Ngx.DataHook
import CppPractice.Ngx.FooterResponse
import CppPractice.Ngx.NgxChain

/-!
# Subrequest — the parent sends what its subrequest said

`NdgSubrequestCallback::parent_post` runs when a subrequest has ended.  It declares the length of the
body that the data hook has kept, sends its buffers one by one without their flags of an end, then a text
of its own, and ends the response.

The filters that get what is sent may do what they like to the heap, except to the links of the body and
to the buffers that are still to be sent.
-/

namespace CppPractice
namespace Ngx

open Segment Heap

/-! ## parent_post -/

/-- What a response reads and writes of its request. -/
structure ResponseRequest where
  contentLengthN : Int
  headers : List NgxTableElt
  /-- `header_only`, once the header has been sent -/
  headerOnly : Bool
  /-- `r == r->main && !r->post_action` -/
  whole : Bool

/-- What the filters do to the heap for each of the buffers that are sent: that of a link of the body, or
that of the text. -/
structure Filters where
  header : Option Nat → Heap → Heap
  body : Option Nat → Heap → Heap

/-- The heap, and the chains that `ngx_http_output_filter` has been given, each with the heap of then. -/
structure Sending where
  heap : Heap
  outs : List (Nat × Heap)

/-- `NgxResponse::send(ngx_buf_t* buf)` -/
def NgxResponse.send (r : ResponseRequest) (f : Filters) (what : Option Nat) (buf : Nat)
    (s : Sending) : Sending :=
  let ch := NgxResponse.sendBuf buf s.heap
  let h := f.header what ch.2
  if r.headerOnly then { s with heap := h } else ⟨f.body what h, s.outs ++ [(ch.1, h)]⟩

/-- What `NgxHeaders::add` writes. -/
def addedHeader (kv : NgxTableElt) : NgxTableElt :=
  if kv.hash = 0 then { kv with hash := 1 } else kv

namespace NdgSubrequestCallback

/-- `sub_post(r, data, rc)`, on the context of the parent -/
def subPost (rc : Int) (pr : NdgDataHookCtx) : NdgDataHookCtx := pr.state rc

/-- The body of `for(auto& ch : chain)`. -/
def sendLink (r : ResponseRequest) (f : Filters) (ch : Nat) (s : Sending) : Sending :=
  if NgxBuf.special (s.heap.data ch) then
    s
  else
    let h :=
      if NgxBuf.last (s.heap.data ch) then
        s.heap.updateBuf (s.heap.link ch).buf (NgxBuf.finish false)
      else
        s.heap
    NgxResponse.send r f (some ch) (h.link ch).buf { s with heap := h }

/-- `parent_post(r)`: what it returns, the request and what has been sent.  `subHeaders` is the list of
headers of the subrequest, which `headers` in the context points to, and `text` the address of
`"subrequest"`. -/
def parentPost (f : Filters) (text : UInt64) (subHeaders : List NgxTableElt) (ctx : NdgDataHookCtx)
    (r : ResponseRequest) (h : Heap) : Option (Int × ResponseRequest × Sending) :=
  if ctx.status ≠ 200 then
    some (500, r, ⟨h, []⟩)
  else if ctx.headers = 0 then
    none
  else do
    let msg : NgxStr := ⟨text, 10⟩
    let size ← NgxChain.size ctx.body h
    let len := msg.len + size
    let r := { r with
      contentLengthN := toOffT len.toNat
      headers := r.headers ++ subHeaders.map addedHeader }
    let s ← forEach (fun s => s.heap.next) 0 (sendLink r f) h.brk ctx.body ⟨h, []⟩
    let buf := NgxPool.buffer s.heap
    let s := NgxResponse.send r f none buf.1
      { s with heap := buf.2.updateBuf buf.1 (NgxBuf.range msg) }
    let eof := ngxHttpSendSpecial r.whole true false s.heap
    return (0, r, ⟨eof.2, s.outs ++ [eof]⟩)

end NdgSubrequestCallback

/-! ## What is left alone -/

theorem Heap.Kept.mono {l l' m m' : List Nat} {h h' : Heap} (hkept : h.Kept l m h') (hl : l' ⊆ l)
    (hm : m' ⊆ m) : h.Kept l' m' h' where
  ready := hkept.ready.mono hl
  link := fun q hq => hkept.link q (hl hq)
  item := fun q hq => hkept.item q (hm hq)
  brk := hkept.brk

theorem Heap.Kept.trans {l m m' : List Nat} {h h' h'' : Heap} (hkept : h.Kept l m h')
    (hkept' : h'.Kept l m' h'') (hm : m' ⊆ m) (hl : m' ⊆ l) : h.Kept l m' h'' where
  ready := hkept'.ready
  link := fun q hq => (hkept'.link q hq).trans (hkept.link q hq)
  item := by
    intro q hq
    rw [← hkept.item q (hm hq), ← hkept.link q (hl hq)]
    exact hkept'.item q hq
  brk := Nat.le_trans hkept.brk hkept'.brk

/-- What was kept of links that are as in `h₀` is so, by the links of `h₀`. -/
theorem Heap.Kept.of_link {l m : List Nat} {h₀ h h' : Heap} (hkept : h.Kept l m h') (hm : m ⊆ l)
    (hlink : ∀ p ∈ l, h.link p = h₀.link p) :
    (∀ p ∈ l, h'.link p = h₀.link p) ∧
      ∀ p ∈ m, h'.item (h₀.link p).buf = h.item (h₀.link p).buf := by
  refine ⟨fun p hp => (hkept.link p hp).trans (hlink p hp), fun p hp => ?_⟩
  rw [← hlink p (hm hp)]
  exact hkept.item p hp

/-- Filters that leave alone the links of the body, the buffers that are still to be sent and the link
that is being sent, until the chain has been passed on; and the text, always. -/
structure Filters.Spare (f : Filters) (msg : NgxStr) (l : List Nat) : Prop where
  header : ∀ before q after, l = before ++ q :: after → ∀ (n : Nat) (h : Heap), h.Ready (n :: l) →
    h.Kept (n :: l) (q :: after) (f.header (some q) h)
  body : ∀ before q after, l = before ++ q :: after → ∀ h : Heap, h.Ready l →
    h.Kept l after (f.body (some q) h)
  headerLast : ∀ (n : Nat) (h : Heap), h.Ready [n] → h.Kept [n] [n] (f.header none h)
  bodyLast : ∀ h : Heap, h.Ready [] → (f.body none h).Ready []
  text : ∀ (what : Option Nat) (h : Heap), msg.bytes (f.header what h).mem = msg.bytes h.mem ∧
    msg.bytes (f.body what h).mem = msg.bytes h.mem

/-- A special buffer has no bytes. -/
theorem bytes_of_special (mem : UInt64 → UInt8) {b : Buf} (h : NgxBuf.special b = true) :
    b.bytes mem = [] := by
  have hnot : ngxBufInMemory b = false := by
    simp only [NgxBuf.special, ngxBufSpecial, Bool.and_eq_true, Bool.not_eq_true'] at h
    exact h.1.2
  simp [Buf.bytes, hnot]

/-- The buffer is as it was in `h₀`, or has lost the flags of an end. -/
structure Still (h₀ h : Heap) (b : Nat) : Prop where
  flags : h.buf b = h₀.buf b ∨
    (ngxBufInMemory (h₀.buf b) = true ∧ h.buf b = NgxBuf.finish false (h₀.buf b))
  bytes : (h.buf b).bytes h.mem = (h₀.buf b).bytes h₀.mem

namespace Still

variable {h₀ h h' : Heap} {b : Nat}

theorem refl (h : Heap) (b : Nat) : Still h h b := ⟨Or.inl rfl, rfl⟩

theorem special_eq (hb : Still h₀ h b) :
    NgxBuf.special (h.buf b) = NgxBuf.special (h₀.buf b) := by
  rcases hb.flags with heq | ⟨hmemory, heq⟩
  · rw [heq]
  · have hmemory' : ngxBufInMemory (NgxBuf.finish false (h₀.buf b)) = true := hmemory
    simp [heq, NgxBuf.special, ngxBufSpecial, hmemory, hmemory']

theorem trans_item (hb : Still h₀ h b) (hitem : h'.item b = h.item b) : Still h₀ h' b := by
  have hparts : h'.buf b = h.buf b ∧ (h'.buf b).bytes h'.mem = (h.buf b).bytes h.mem := by
    simpa [Heap.item] using hitem
  refine ⟨?_, hparts.2.trans hb.bytes⟩
  rw [hparts.1]
  exact hb.flags

/-- The flags of an end are taken away from any buffer in memory. -/
theorem finish (hb : Still h₀ h b) {c : Nat} (hmemory : ngxBufInMemory (h.buf c) = true) :
    Still h₀ (h.updateBuf c (NgxBuf.finish false)) b := by
  by_cases hbc : b = c
  · subst hbc
    have hupdated : (h.updateBuf b (NgxBuf.finish false)).buf b = NgxBuf.finish false (h.buf b) := by
      simp [updateBuf]
    refine ⟨Or.inr ?_, ?_⟩
    · rcases hb.flags with heq | ⟨hmemory₀, heq⟩
      · exact ⟨heq ▸ hmemory, by rw [hupdated, heq]⟩
      · exact ⟨hmemory₀, by rw [hupdated, heq]; rfl⟩
    · rw [hupdated, bytes_finish]
      exact hb.bytes
  · have hupdated : (h.updateBuf c (NgxBuf.finish false)).buf b = h.buf b := by
      simp [updateBuf, hbc]
    refine ⟨?_, ?_⟩
    · rw [hupdated]
      exact hb.flags
    · rw [hupdated]
      exact hb.bytes

end Still

/-! ## The loop over the body -/

/-- The output filters have been given these chains: their bytes are `sent`, and no buffer ends anything. -/
def Sent (outs : List (Nat × Heap)) (sent : List UInt8) : Prop :=
  ∃ calls : List BodyCall, outs = calls.map (fun c => (c.head, c.heap)) ∧
    bytesOf (contents calls) = sent ∧ ∀ b ∈ bufsOf (contents calls), NgxBuf.last b = false

theorem Sent.snoc {outs : List (Nat × Heap)} {sent : List UInt8} (hsent : Sent outs sent)
    {n : Nat} {h : Heap} (howns : h.Owns n [n]) (hlast : NgxBuf.last (h.data n) = false) :
    Sent (outs ++ [(n, h)]) (sent ++ (h.data n).bytes h.mem) := by
  rcases hsent with ⟨calls, rfl, rfl, hcalls⟩
  refine ⟨calls ++ [⟨n, h, [n], howns⟩], by simp, ?_, ?_⟩
  · simp [bytesOf, contents, BodyCall.content]
  · intro b hb
    simp only [contents, bufsOf, List.map_append, List.flatMap_append, List.mem_append] at hb
    rcases hb with hb | hb
    · exact hcalls b hb
    · have hdata : b = h.data n := by simpa [BodyCall.content] using hb
      rw [hdata, hlast]

section loop

variable {r : ResponseRequest} {f : Filters} {msg : NgxStr} {h₀ : Heap}
  {l before after : List Nat} {q : Nat} {s : Sending}

/-- The loop has come to `after`: the links are as they were, and so are the buffers still to come. -/
structure Posting (r : ResponseRequest) (msg : NgxStr) (h₀ : Heap) (l before after : List Nat)
    (s : Sending) : Prop where
  ready : s.heap.Ready l
  link : ∀ p ∈ l, s.heap.link p = h₀.link p
  brk : h₀.brk ≤ s.heap.brk
  still : ∀ p ∈ after, Still h₀ s.heap (h₀.link p).buf
  text : msg.bytes s.heap.mem = msg.bytes h₀.mem
  sent : Sent s.outs (if r.headerOnly then [] else bodyBytes h₀ before)

/-- A heap in which the buffer of the link `ch` ends nothing. -/
def unflag (ch : Nat) (h : Heap) : Heap :=
  if NgxBuf.last (h.data ch) then h.updateBuf (h.link ch).buf (NgxBuf.finish false) else h

/-- A special buffer is skipped. -/
theorem sendLink_special (h : NgxBuf.special (s.heap.data q) = true) :
    NdgSubrequestCallback.sendLink r f q s = s :=
  if_pos h

/-- Any other buffer is sent without the flags of an end. -/
theorem sendLink_unflag (h : NgxBuf.special (s.heap.data q) = false) :
    NdgSubrequestCallback.sendLink r f q s = NgxResponse.send r f (some q)
      ((unflag q s.heap).link q).buf { s with heap := unflag q s.heap } :=
  if_neg (h ▸ Bool.false_ne_true)

theorem NgxResponse.send_eq {what : Option Nat} {buf n : Nat} {g : Heap}
    (h : NgxResponse.sendBuf buf s.heap = (n, g)) :
    NgxResponse.send r f what buf s =
      if r.headerOnly then { s with heap := f.header what g }
      else ⟨f.body what (f.header what g), s.outs ++ [(n, f.header what g)]⟩ := by
  simp only [NgxResponse.send, h]

/-- A round that sends nothing goes on with the next link. -/
theorem Posting.skip (hs : Posting r msg h₀ l before (q :: after) s)
    (hnone : r.headerOnly = true ∨ (h₀.data q).bytes h₀.mem = []) :
    Posting r msg h₀ l (before ++ [q]) after s := by
  refine ⟨hs.ready, hs.link, hs.brk, ?_, hs.text, ?_⟩
  · exact fun p hp => hs.still p (List.mem_cons_of_mem q hp)
  · have hsent := hs.sent
    rcases hnone with honly | hbytes
    · rw [honly] at hsent ⊢
      exact hsent
    · have hsame : bodyBytes h₀ (before ++ [q]) = bodyBytes h₀ before := by
        simp [bodyBytes, hbytes]
      rw [hsame]
      exact hsent

/-- Without its flags of an end, the buffer is still what it was in the body. -/
theorem Posting.unflag (hs : Posting r msg h₀ l before (q :: after) s) (hq : q ∈ l)
    (hmemory : ngxBufInMemory (h₀.data q) = true) :
    Posting r msg h₀ l before (q :: after) { s with heap := unflag q s.heap } ∧
    NgxBuf.last ((Ngx.unflag q s.heap).data q) = false := by
  have hlinkq : s.heap.link q = h₀.link q := hs.link q hq
  have hmemory' : ngxBufInMemory (s.heap.data q) = true := by
    rw [data, hlinkq]
    rcases (hs.still q List.mem_cons_self).flags with heq | ⟨hm, heq⟩
    · rw [heq]
      exact hmemory
    · rw [heq]
      exact hm
  cases hlast : NgxBuf.last (s.heap.data q) with
  | true =>
      rw [Ngx.unflag, if_pos hlast]
      refine ⟨⟨?_, hs.link, hs.brk, ?_, hs.text, hs.sent⟩, ?_⟩
      · exact hs.ready.congr rfl (Nat.le_refl _) fun _ _ _ => rfl
      · exact fun p hp => (hs.still p hp).finish hmemory'
      · simp [data, updateBuf]
  | false =>
      rw [Ngx.unflag, hlast, if_neg Bool.false_ne_true]
      exact ⟨hs, hlast⟩

/-- A buffer of the body is sent: what the output filters are given, and what is left alone. -/
theorem NgxResponse.send_spec (r : ResponseRequest) (hf : f.Spare msg l) (hl : l = before ++ q :: after)
    (hready : s.heap.Ready l) (hbuf : (s.heap.link q).buf < s.heap.brk) :
    ∃ t n g, NgxResponse.send r f (some q) (s.heap.link q).buf s = t ∧ s.heap.Kept l after t.heap ∧
      msg.bytes t.heap.mem = msg.bytes s.heap.mem ∧
      t.outs = (if r.headerOnly then s.outs else s.outs ++ [(n, g)]) ∧ g.Owns n [n] ∧
      g.data n = s.heap.data q ∧ (g.data n).bytes g.mem = (s.heap.data q).bytes s.heap.mem := by
  rcases sendBuf_spec hready hbuf with
    ⟨n, g, hsend, hnot, howns, hgready, hgbuf, hgmem, hgbufs, hgbrk, hglink⟩
  -- The link is made on the stack, and its buffer is that of the body: only the flags of it are new.
  have hmade : s.heap.Kept l (q :: after) g := by
    refine ⟨hgready.mono (List.subset_cons_self n l), ?_, ?_, hgbrk⟩
    · intro p hp
      have hne : p ≠ n := fun heq => hnot (heq ▸ hp)
      exact hglink p hne
    · intro p _
      simp [Heap.item, hgbufs, hgmem]
  have hafter : q :: after ⊆ l := hl ▸ List.subset_append_right before (q :: after)
  have hheader := hf.header before q after hl n g hgready
  have hkept : s.heap.Kept l (q :: after) (f.header (some q) g) :=
    hmade.trans (hheader.mono (List.subset_cons_self n l) (List.Subset.refl _))
      (List.Subset.refl _) hafter
  have hdata : (f.header (some q) g).data n = (f.header (some q) g).buf (s.heap.link q).buf := by
    rw [data, hheader.link n List.mem_cons_self, hgbuf]
  have hitem := hkept.item q List.mem_cons_self
  have htext : msg.bytes (f.header (some q) g).mem = msg.bytes s.heap.mem := by
    calc
      msg.bytes (f.header (some q) g).mem = msg.bytes g.mem := (hf.text (some q) g).1
      _ = msg.bytes s.heap.mem := by rw [hgmem]
  -- Without a body the output filters are not called, and nothing is given to them.
  refine ⟨_, n, f.header (some q) g, NgxResponse.send_eq hsend, ?_, ?_, ?_, ?_, ?_, ?_⟩
  · cases r.headerOnly with
    | true => exact hkept.mono (List.Subset.refl l) (List.subset_cons_self q after)
    | false =>
        exact hkept.trans (hf.body before q after hl _ hkept.ready) (List.subset_cons_self q after)
          (List.subset_of_cons_subset hafter)
  · cases r.headerOnly with
    | true => exact htext
    | false => exact ((hf.text (some q) _).2).trans htext
  · cases r.headerOnly <;> rfl
  · exact (hheader.mono (by simp) (List.nil_subset _)).owns howns
  · rw [hdata]
    exact congrArg (fun i => i.2.1) hitem
  · rw [hdata]
    exact congrArg (fun i => i.2.2) hitem

/-- One round of the loop. -/
theorem Posting.sendLink (hf : f.Spare msg l) (hlt : ∀ p ∈ l, (h₀.link p).buf < h₀.brk)
    (hmemory : ∀ p ∈ l, MemoryOrSpecial (h₀.data p)) (hl : l = before ++ q :: after)
    (hs : Posting r msg h₀ l before (q :: after) s) :
    Posting r msg h₀ l (before ++ [q]) after (NdgSubrequestCallback.sendLink r f q s) := by
  have hq : q ∈ l := by simp [hl]
  have hspecial : NgxBuf.special (s.heap.data q) = NgxBuf.special (h₀.data q) := by
    simpa [data, hs.link q hq] using (hs.still q List.mem_cons_self).special_eq
  cases hsp : NgxBuf.special (h₀.data q) with
  | true =>
      rw [sendLink_special (hspecial.trans hsp)]
      exact hs.skip (Or.inr (bytes_of_special h₀.mem hsp))
  | false =>
      have hinMemory : ngxBufInMemory (h₀.data q) = true := by
        rcases hmemory q hq with hm | hm
        · exact hm
        · rw [show NgxBuf.special (h₀.data q) = true from hm.1] at hsp
          cases hsp
      rcases hs.unflag hq hinMemory with ⟨hunflag, hnolast⟩
      have hbuf : ((Ngx.unflag q s.heap).link q).buf < (Ngx.unflag q s.heap).brk := by
        rw [hunflag.link q hq]
        exact Nat.lt_of_lt_of_le (hlt q hq) hunflag.brk
      rcases NgxResponse.send_spec r hf hl hunflag.ready hbuf with
        ⟨t, n, g, hsend, hkept, htext, houts, howns, hdata, hbytes⟩
      rw [sendLink_unflag (hspecial.trans hsp), hsend]
      have hafter : after ⊆ l := fun p hp => by simp [hl, hp]
      rcases hkept.of_link hafter hunflag.link with ⟨hlinks, hitems⟩
      refine ⟨hkept.ready, hlinks, Nat.le_trans hunflag.brk hkept.brk, ?_, htext.trans hunflag.text, ?_⟩
      · intro p hp
        exact (hunflag.still p (List.mem_cons_of_mem q hp)).trans_item (hitems p hp)
      · rw [houts]
        have hsent := hunflag.sent
        cases honly : r.headerOnly with
        | true =>
            rw [honly] at hsent
            exact hsent
        | false =>
            rw [honly] at hsent
            have hsame : (g.data n).bytes g.mem = (h₀.data q).bytes h₀.mem := by
              rw [hbytes, data, hunflag.link q hq]
              exact (hunflag.still q List.mem_cons_self).bytes
            have happend : bodyBytes h₀ (before ++ [q]) =
                bodyBytes h₀ before ++ (h₀.data q).bytes h₀.mem := by
              simp [bodyBytes]
            rw [if_neg Bool.false_ne_true, happend, ← hsame]
            exact hsent.snoc howns (hdata ▸ hnolast)

/-- The whole loop sends the bytes of the body. -/
theorem posting_loop (hf : f.Spare msg l) {p : Nat} (howns : h₀.Owns p l)
    (hmemory : ∀ q ∈ l, MemoryOrSpecial (h₀.data q)) :
    ∃ s, forEach (fun s => s.heap.next) 0 (NdgSubrequestCallback.sendLink r f) h₀.brk p ⟨h₀, []⟩ =
        some s ∧ Posting r msg h₀ l l [] s := by
  have hstart : Posting r msg h₀ l [] l ⟨h₀, []⟩ := by
    refine ⟨howns.ready, fun _ _ => rfl, Nat.le_refl _, fun q _ => Still.refl h₀ _, rfl, [], rfl, ?_, ?_⟩
    · cases r.headerOnly <;> rfl
    · intro b hb
      cases hb
  apply forEach_rule (I := Posting r msg h₀ l) _ hstart howns.chain
    (length_le_brk howns.chain howns.ready)
  intro before q after t hl ht
  have ht' := ht.sendLink hf howns.buf_lt hmemory hl
  refine ⟨ht', ?_⟩
  intro x hx
  have hxl : x ∈ l := by
    rw [hl]
    exact List.mem_append_right before hx
  exact congrArg Link.next ((ht'.link x hxl).trans (ht.link x hxl).symm)

end loop

/-! ## The length -/

/-- An `off_t` made of a `size_t` is that of the number. -/
theorem toOffT_mod (n : Nat) : toOffT ((n % 2 ^ 64 : Nat) : Int) = toOffT n := by
  unfold toOffT
  rw [Int.natCast_emod]
  exact Int.emod_bmod _ _

/-! ## The whole response -/

section response

variable {r : ResponseRequest} {f : Filters} {msg : NgxStr} {h₀ : Heap} {l : List Nat} {s : Sending}

/-- The text is sent: what the output filters are given. -/
theorem NgxResponse.sendText_spec (r : ResponseRequest) (hf : f.Spare msg l) (hready : s.heap.Ready []) :
    ∃ t n g, NgxResponse.send r f none s.heap.brk
        { s with heap := (NgxPool.buffer s.heap).2.updateBuf s.heap.brk (NgxBuf.range msg) } = t ∧
      t.heap.Ready [] ∧ t.outs = (if r.headerOnly then s.outs else s.outs ++ [(n, g)]) ∧
      g.Owns n [n] ∧ g.data n = NgxBuf.range msg Buf.zero ∧
      (g.data n).bytes g.mem = msg.bytes s.heap.mem := by
  obtain ⟨h, hh⟩ : ∃ h, h = (NgxPool.buffer s.heap).2.updateBuf s.heap.brk (NgxBuf.range msg) :=
    ⟨_, rfl⟩
  have hready' : h.Ready [] := by
    rw [hh]
    exact hready.congr rfl (Nat.le_succ _) fun _ _ _ => rfl
  have hbuf : h.buf s.heap.brk = NgxBuf.range msg Buf.zero := by simp [hh, updateBuf, NgxPool.buffer]
  have hmem : h.mem = s.heap.mem := by rw [hh]; rfl
  have hbrk : s.heap.brk < h.brk := by rw [hh]; exact Nat.lt_succ_self _
  rcases sendBuf_spec hready' hbrk with
    ⟨n, g, hsend, -, howns, hgready, hgbuf, hgmem, hgbufs, -, -⟩
  have hheader := hf.headerLast n g hgready
  have hheaderReady := hheader.ready.mono (List.nil_subset [n])
  have hitem : (f.header none g).item s.heap.brk = g.item s.heap.brk := by
    rw [← hgbuf]
    exact hheader.item n List.mem_cons_self
  have hdata : (f.header none g).data n = (f.header none g).buf s.heap.brk := by
    rw [data, hheader.link n List.mem_cons_self, hgbuf]
  rw [← hh]
  refine ⟨_, n, f.header none g, NgxResponse.send_eq (s := { s with heap := h }) hsend, ?_, ?_,
    hheader.owns howns, ?_, ?_⟩
  · cases r.headerOnly with
    | true => exact hheaderReady
    | false => exact hf.bodyLast _ hheaderReady
  · cases r.headerOnly <;> rfl
  · calc
      (f.header none g).data n = g.buf s.heap.brk := hdata.trans (congrArg (fun i => i.2.1) hitem)
      _ = NgxBuf.range msg Buf.zero := by rw [hgbufs, hbuf]
  · calc
      ((f.header none g).data n).bytes (f.header none g).mem =
          (g.buf s.heap.brk).bytes g.mem := by
        rw [hdata]
        exact congrArg (fun i => i.2.2) hitem
      _ = msg.bytes s.heap.mem := by rw [hgbufs, hbuf, bytes_range, hgmem, hmem]

/-- After the body the text is sent. -/
theorem Posting.sendText (hf : f.Spare msg l) (hs : Posting r msg h₀ l l [] s) :
    ∃ t, NgxResponse.send r f none s.heap.brk
        { s with heap := (NgxPool.buffer s.heap).2.updateBuf s.heap.brk (NgxBuf.range msg) } = t ∧
      t.heap.Ready [] ∧
      Sent t.outs (if r.headerOnly then [] else bodyBytes h₀ l ++ msg.bytes h₀.mem) := by
  rcases NgxResponse.sendText_spec r hf (hs.ready.mono (List.nil_subset l)) with
    ⟨t, n, g, hsend, hready, houts, howns, hdata, hbytes⟩
  refine ⟨t, hsend, hready, ?_⟩
  have hsent := hs.sent
  rw [houts]
  cases honly : r.headerOnly with
  | true =>
      rw [honly] at hsent
      exact hsent
  | false =>
      rw [honly] at hsent
      have hlast : NgxBuf.last (g.data n) = false := by
        rw [hdata]
        rfl
      have hsnoc := hsent.snoc howns hlast
      rw [hbytes, hs.text] at hsnoc
      exact hsnoc

/-- What is sent after buffers that end nothing, ends the response. -/
theorem Sent.eof (whole : Bool) {outs : List (Nat × Heap)} {sent : List UInt8}
    (hsent : Sent outs sent) {h : Heap} (hready : h.Ready []) :
    ∃ calls : List BodyCall,
      outs ++ [ngxHttpSendSpecial whole true false h] = calls.map (fun c => (c.head, c.heap)) ∧
      bytesOf (contents calls) = sent ∧ EndsOnce (bufsOf (contents calls)) ∧
      countLastBuf (bufsOf (contents calls)) = if whole then 1 else 0 := by
  rcases hsent with ⟨calls, rfl, rfl, hcalls⟩
  obtain ⟨c, hc⟩ : ∃ c, c = BodyCall.ofSend whole .eof h hready := ⟨_, rfl⟩
  have hcontent : c.content = (h.mem, [specialBuf whole true false]) := by
    rw [hc, content_ofSend]
    rfl
  have hbufs : bufsOf (contents (calls ++ [c])) =
      bufsOf (contents calls) ++ [specialBuf whole true false] := by
    simp [bufsOf, contents, hcontent]
  have hnobytes : (specialBuf whole true false).bytes h.mem = [] :=
    bytes_of_size_zero h.mem (size_specialBuf whole true false)
  have hnone : countLastBuf (bufsOf (contents calls)) = 0 := by
    apply List.countP_eq_zero.2
    intro b hb
    simp [lastBuf_of_not_last (hcalls b hb)]
  have hlast : NgxBuf.last (specialBuf whole true false) = true := by
    cases whole <;> rfl
  refine ⟨calls ++ [c], ?_, ?_, ?_, ?_⟩
  · have hcall : (c.head, c.heap) = ngxHttpSendSpecial whole true false h := by
      rw [hc]
      rfl
    simp [hcall]
  · simp [bytesOf, contents, hcontent, hnobytes]
  · rw [hbufs]
    exact ⟨_, _, rfl, hlast, hcalls⟩
  · rw [hbufs, countLastBuf_append, hnone]
    cases whole <;> rfl

/-- The parent declares the bytes of the body and of its text, sends them, and ends the response. -/
theorem parentPost_spec (f : Filters) (text : UInt64) (subHeaders : List NgxTableElt)
    {ctx : NdgDataHookCtx} (r : ResponseRequest) (hstatus : ctx.status = 200)
    (hheaders : ctx.headers ≠ 0) {h : Heap} (howns : h.Owns ctx.body l)
    (hmemory : ∀ q ∈ l, MemoryOrSpecial (h.data q)) (hf : f.Spare ⟨text, 10⟩ l) :
    ∃ r' s calls, NdgSubrequestCallback.parentPost f text subHeaders ctx r h = some (0, r', s) ∧
      s.outs = calls.map (fun c : BodyCall => (c.head, c.heap)) ∧
      r'.contentLengthN = toOffT (bodyBytes h l ++ NgxStr.bytes h.mem ⟨text, 10⟩).length ∧
      bytesOf (contents calls) =
        (if r.headerOnly then [] else bodyBytes h l ++ NgxStr.bytes h.mem ⟨text, 10⟩) ∧
      EndsOnce (bufsOf (contents calls)) ∧
      countLastBuf (bufsOf (contents calls)) = if r.whole then 1 else 0 := by
  obtain ⟨r', hr'⟩ : ∃ r' : ResponseRequest, r' = { r with
      contentLengthN := toOffT (bodyBytes h l ++ NgxStr.bytes h.mem ⟨text, 10⟩).length
      headers := r.headers ++ subHeaders.map addedHeader } := ⟨_, rfl⟩
  rcases NgxChain.size_spec howns hmemory with ⟨len, hlen, hlenNat⟩
  rcases posting_loop (r := r') hf howns hmemory with ⟨s, hloop, hs⟩
  rcases hs.sendText hf with ⟨t, ht, htready, htsent⟩
  rcases htsent.eof r.whole htready with ⟨calls, hcalls, hbytes, hends, hcount⟩
  have hdeclared : toOffT (((10 : UInt64) + len).toNat : Int) =
      toOffT (bodyBytes h l ++ NgxStr.bytes h.mem ⟨text, 10⟩).length := by
    have hmod : ((10 : UInt64) + len).toNat =
        (bodyBytes h l ++ NgxStr.bytes h.mem ⟨text, 10⟩).length % 2 ^ 64 := by
      have hten : (10 : UInt64).toNat = 10 := rfl
      simp only [UInt64.toNat_add, hlenNat, hten, List.length_append, NgxStr.bytes, length_readBytes]
      omega
    rw [hmod, toOffT_mod]
  have honly : r'.headerOnly = r.headerOnly := by rw [hr']
  obtain ⟨eof, heof⟩ : ∃ eof, eof = ngxHttpSendSpecial r.whole true false t.heap := ⟨_, rfl⟩
  rw [← heof] at hcalls
  refine ⟨r', ⟨eof.2, t.outs ++ [eof]⟩, calls, ?_, hcalls, by rw [hr'], ?_, hends, hcount⟩
  · have hbuf : (NgxPool.buffer s.heap).1 = s.heap.brk := rfl
    simp only [NdgSubrequestCallback.parentPost, hstatus, hheaders, hlen, hdeclared, ne_eq,
      not_true_eq_false, if_false, Option.bind_eq_bind, Option.bind_some, ← hr', hloop, hbuf, ht,
      ← heof]
    rfl
  · rw [hbytes, honly]

end response

/-! ## What is sent, as a whole -/

/-- The bytes of `"subrequest"`. -/
def subrequestText : List UInt8 := [115, 117, 98, 114, 101, 113, 117, 101, 115, 116]

/-- The calls of the body filter keep all buffers of a hooked subrequest, in order; and for any body in
memory the parent declares the length of what it sends, sends the body and the text unless the response is
header-only, and ends the response once, as a whole if it is the main request. -/
theorem subrequest_forwarded :
    (∀ (pr sub pr₁ sub₁ : NdgDataHookCtx) (headersOut : Nat) (h : Heap) (calls : List HookCall),
      NdgDataHookHandler.headerFilter (some pr.hooking) sub headersOut = some (pr₁, sub₁) →
      h.Ready [] → NdgDataHookHandler.Undisturbed (some sub₁) calls pr₁ h →
      ∃ pr₂ h₂ l, NdgDataHookHandler.bodyFilters (some sub₁) calls pr₁ h = some (pr₂, h₂) ∧
        h₂.Owns pr₂.body l ∧ h₂.items l = calls.flatMap HookCall.items ∧
        pr₂ = { pr₁ with body := pr₂.body }) ∧
    ∀ (f : Filters) (text : UInt64) (subHeaders : List NgxTableElt) (ctx : NdgDataHookCtx)
      (r : ResponseRequest) (h : Heap) (l : List Nat),
      ctx.status = 200 → ctx.headers ≠ 0 → h.Owns ctx.body l →
      (∀ q ∈ l, MemoryOrSpecial (h.data q)) → f.Spare ⟨text, 10⟩ l →
      NgxStr.bytes h.mem ⟨text, 10⟩ = subrequestText →
      ∃ r' s calls, NdgSubrequestCallback.parentPost f text subHeaders ctx r h = some (0, r', s) ∧
        s.outs = calls.map (fun c : BodyCall => (c.head, c.heap)) ∧
        r'.contentLengthN = toOffT (bodyBytes h l ++ subrequestText).length ∧
        bytesOf (contents calls) = (if r.headerOnly then [] else bodyBytes h l ++ subrequestText) ∧
        EndsOnce (bufsOf (contents calls)) ∧
        countLastBuf (bufsOf (contents calls)) = if r.whole then 1 else 0 := by
  constructor
  · intro pr sub pr₁ sub₁ headersOut h calls hhooked hready hcalls
    have hparts : { pr.hooking with headers := headersOut } = pr₁ ∧
        { sub with doHook := true } = sub₁ := by
      simpa [NdgDataHookHandler.headerFilter, NdgDataHookCtx.hooking] using hhooked
    rcases hparts with ⟨rfl, rfl⟩
    have hempty : h.Owns 0 [] := ⟨Chain.nil _ _, hready, fun _ hq => absurd hq List.not_mem_nil⟩
    have hhook : ({ sub with doHook := true } : NdgDataHookCtx).doHook = true := rfl
    rcases NdgDataHookHandler.bodyFilters_spec hhook hempty hcalls with
      ⟨pr₂, h₂, l, hrun, howns, hitems, hpr⟩
    exact ⟨pr₂, h₂, l, hrun, howns, by simpa [Heap.items] using hitems, hpr⟩
  · intro f text subHeaders ctx r h l hstatus hheaders howns hmemory hf htext
    have hpost := parentPost_spec f text subHeaders r hstatus hheaders howns hmemory hf
    rw [htext] at hpost
    exact hpost

/-- Calls of the body filter with the same chains have the same contents. -/
theorem contents_unique {calls calls' : List BodyCall}
    (hsame : calls.map (fun c => (c.head, c.heap)) = calls'.map fun c => (c.head, c.heap)) :
    contents calls = contents calls' := by
  have hcontents : ∀ calls : List BodyCall, contents calls =
      (calls.map fun c => (c.head, c.heap)).map fun out => (out.2.mem, (out.2.chain out.1).getD []) := by
    intro calls
    simp only [contents, List.map_map]
    apply List.map_congr_left
    intro c _
    simp [BodyCall.content, c.owns.chain_eq]
  rw [hcontents, hcontents, hsame]

/-! ## Instances -/

/-- The text at address 100, and nothing allocated. -/
def textHeap : Heap := { emptyHeap with mem := fun addr => subrequestText.getD (addr.toNat - 100) 0 }

/-- The text, and a chain of one link with the buffer `b`. -/
def oneLinkHeap (b : Buf) : Heap := { textHeap with link := fun _ => ⟨1, 0⟩, buf := fun _ => b, brk := 2 }

theorem ready_oneLinkHeap (b : Buf) : (oneLinkHeap b).Ready [1] where
  brk_pos := Nat.two_pos
  frees := ⟨[], Chain.nil _ 0, fun _ hq => absurd hq List.not_mem_nil⟩
  used_lt := fun _ hq => List.mem_singleton.1 hq ▸ Nat.one_lt_two

theorem owns_oneLinkHeap (b : Buf) : (oneLinkHeap b).Owns 1 [1] where
  chain := Chain.cons Nat.one_ne_zero (Chain.nil _ 0)
  ready := ready_oneLinkHeap b
  buf_lt := fun _ _ => Nat.one_lt_two

/-- Filters that leave the heap as it is. -/
def idle : Filters := ⟨fun _ h => h, fun _ h => h⟩

theorem spare_idle (msg : NgxStr) (l : List Nat) : idle.Spare msg l := by
  have hkept : ∀ (l m : List Nat) (h : Heap), h.Ready l → h.Kept l m h := fun _ _ _ hready =>
    ⟨hready, fun _ _ => rfl, fun _ _ => rfl, Nat.le_refl _⟩
  refine ⟨?_, ?_, ?_, fun _ hready => hready, fun _ _ => ⟨rfl, rfl⟩⟩
  · intro before q after _ n h hready
    exact hkept _ _ h hready
  · intro before q after _ h hready
    exact hkept _ _ h hready
  · intro n h hready
    exact hkept _ _ h hready

/-- A buffer with the bytes `req`. -/
def threeBytes : Buf := NgxBuf.range ⟨103, 3⟩ Buf.zero

/-- The heap with a link and a buffer `b` in the unused part, both at `n`. -/
def withLink (n : Nat) (b : Buf) (h : Heap) : Heap :=
  { h with link := Function.update h.link n ⟨n, 0⟩, buf := Function.update h.buf n b, brk := n + 1 }

/-- A call that passes this link. -/
def linkCall (n : Nat) (b : Buf) : HookCall where
  meanwhile := withLink n b
  inp := n
  links := [n]
  items := [(n, b, b.bytes textHeap.mem)]

theorem linkCall_passes {n : Nat} (b : Buf) {h : Heap} {p : Nat} {l : List Nat} (howns : h.Owns p l)
    (hbrk : h.brk = n) (hmem : h.mem = textHeap.mem) : (linkCall n b).Passes l h := by
  subst hbrk
  have hlink : ∀ q, q < h.brk → (withLink h.brk b h).link q = h.link q := fun q hq =>
    Function.update_of_ne (Nat.ne_of_lt hq) _ _
  have hbuf : ∀ q, q < h.brk → (withLink h.brk b h).buf q = h.buf q := fun q hq =>
    Function.update_of_ne (Nat.ne_of_lt hq) _ _
  have hnew : (withLink h.brk b h).link h.brk = ⟨h.brk, 0⟩ := Function.update_self _ _ _
  have hbrkBuf : (withLink h.brk b h).buf h.brk = b := Function.update_self _ _ _
  have hready : (withLink h.brk b h).Ready (h.brk :: l) :=
    howns.ready.fresh rfl (Nat.le_refl _) (Nat.lt_succ_self _) fun q hq => congrArg Link.next (hlink q hq)
  refine ⟨⟨hready.mono (List.subset_cons_self _ _), ?_, ?_, Nat.le_succ _⟩, ?_, ?_, ?_, ?_, ?_⟩
  · exact fun q hq => hlink q (howns.ready.used_lt q hq)
  · intro q hq
    simp only [linkCall, item, hbuf _ (howns.buf_lt q hq)]
    rfl
  · refine Chain.cons (Nat.ne_of_gt howns.ready.brk_pos) ?_
    change Chain (withLink h.brk b h).next 0 ((withLink h.brk b h).link h.brk).next []
    rw [hnew]
    exact Chain.nil _ 0
  · exact hready.mono (by simp [linkCall])
  · intro q hq hmem
    rw [List.mem_singleton.1 hmem] at hq
    exact Nat.lt_irrefl _ (howns.ready.used_lt _ hq)
  · intro q hq
    rw [List.mem_singleton.1 hq]
    change ((withLink h.brk b h).link h.brk).buf < h.brk + 1
    rw [hnew]
    exact Nat.lt_succ_self _
  · have hmem' : (withLink h.brk b h).mem = textHeap.mem := hmem
    simp [linkCall, items, item, hnew, hbrkBuf, hmem']

/-- The bytes `req`, and then `est`; a link is copied in between. -/
def twoCalls : List HookCall :=
  [linkCall 1 threeBytes, linkCall 3 (NgxBuf.range ⟨107, 3⟩ Buf.zero)]

theorem undisturbed_twoCalls : NdgDataHookHandler.Undisturbed (some ⟨false, 0, 0, 0, true⟩) twoCalls
    ⟨true, 0, 7, 0, false⟩ textHeap := by
  refine ⟨fun l howns => linkCall_passes _ howns rfl rfl, fun pr' h' hrun => ⟨?_, fun _ _ _ => trivial⟩⟩
  have hheap : (h'.brk, h'.mem) = (3, textHeap.mem) := by
    have hcopied : (NdgDataHookHandler.bodyFilter (some ⟨false, 0, 0, 0, true⟩) ⟨true, 0, 7, 0, false⟩ 1
        (withLink 1 threeBytes textHeap)).map (fun
          | .kept _ h => (h.brk, h.mem)
          | .next => (0, h'.mem)) = some (3, textHeap.mem) := rfl
    have hrun' : NdgDataHookHandler.bodyFilter (some ⟨false, 0, 0, 0, true⟩) ⟨true, 0, 7, 0, false⟩ 1
        (withLink 1 threeBytes textHeap) = some (.kept pr' h') := hrun
    rw [hrun'] at hcopied
    exact Option.some.inj hcopied
  intro l howns
  exact linkCall_passes _ howns (congrArg Prod.fst hheap) (congrArg Prod.snd hheap)

/-- The context of a parent whose subrequest has ended well, with the body at 1. -/
def endedCtx : NdgDataHookCtx := NdgSubrequestCallback.subPost 0 ⟨true, 0, 1, 1, false⟩

theorem subrequest_forwarded_threeBytes :
    (∃ pr₂ h₂ l, NdgDataHookHandler.bodyFilters (some ⟨false, 0, 0, 0, true⟩) twoCalls
        ⟨true, 0, 7, 0, false⟩ textHeap = some (pr₂, h₂) ∧ h₂.Owns pr₂.body l ∧
        h₂.items l = twoCalls.flatMap HookCall.items) ∧
      ∃ r' s calls, NdgSubrequestCallback.parentPost idle 100 [] endedCtx ⟨-1, [], false, true⟩
          (oneLinkHeap threeBytes) = some (0, r', s) ∧
        s.outs = calls.map (fun c : BodyCall => (c.head, c.heap)) ∧ r'.contentLengthN = 13 ∧
        bytesOf (contents calls) = [114, 101, 113] ++ subrequestText ∧
        EndsOnce (bufsOf (contents calls)) ∧ countLastBuf (bufsOf (contents calls)) = 1 := by
  have hbody : bodyBytes (oneLinkHeap threeBytes) [1] = [114, 101, 113] := by decide
  constructor
  · have hready : textHeap.Ready [] := ready_emptyHeap.congr rfl (Nat.le_refl _) fun _ _ _ => rfl
    rcases subrequest_forwarded.1 ⟨false, 0, 0, 0, false⟩ ⟨false, 0, 0, 0, false⟩ _ _ 7 textHeap
      twoCalls rfl hready undisturbed_twoCalls with ⟨pr₂, h₂, l, hrun, howns, hitems, -⟩
    exact ⟨pr₂, h₂, l, hrun, howns, hitems⟩
  · rcases subrequest_forwarded.2 idle 100 [] endedCtx ⟨-1, [], false, true⟩ (oneLinkHeap threeBytes) [1]
      rfl (by decide) (owns_oneLinkHeap _) (by decide) (spare_idle _ _) (by decide) with
      ⟨r', s, calls, hrun, houts, hlength, hbytes, hends, hcount⟩
    rw [hbody] at hlength hbytes
    exact ⟨r', s, calls, hrun, houts, hlength, hbytes, hends, hcount⟩

/-- The parent sends exactly the body and the text, of the length it declares, and the last buffer sent
and no other has `last_buf`. -/
def SendsWhole (f : Filters) (text : UInt64) (ctx : NdgDataHookCtx) (r : ResponseRequest) (h : Heap)
    (l : List Nat) : Prop :=
  ∃ r' s calls, NdgSubrequestCallback.parentPost f text [] ctx r h = some (0, r', s) ∧
    s.outs = calls.map (fun c : BodyCall => (c.head, c.heap)) ∧
    r'.contentLengthN = (bytesOf (contents calls)).length ∧
    bytesOf (contents calls) = bodyBytes h l ++ subrequestText ∧
    ∃ body b, bufsOf (contents calls) = body ++ [b] ∧ b.lastBuf = true ∧ ∀ x ∈ body, x.lastBuf = false

/-- A parent that is a subrequest itself sends no `last_buf`, a header-only response no bytes, and what a
special buffer says of a file is declared and not sent. -/
theorem subrequest_not_whole :
    ¬SendsWhole idle 100 endedCtx ⟨-1, [], false, false⟩ (oneLinkHeap threeBytes) [1] ∧
      ¬SendsWhole idle 100 endedCtx ⟨-1, [], true, true⟩ (oneLinkHeap threeBytes) [1] ∧
      ¬SendsWhole idle 100 endedCtx ⟨-1, [], false, true⟩
        (oneLinkHeap { specialBuf true false true with fileLast := 5 }) [1] := by
  have hspec : ∀ r : ResponseRequest, ∃ r' s calls,
      NdgSubrequestCallback.parentPost idle 100 [] endedCtx r (oneLinkHeap threeBytes) =
        some (0, r', s) ∧ s.outs = calls.map (fun c : BodyCall => (c.head, c.heap)) ∧
      (r.headerOnly = true → bytesOf (contents calls) = []) ∧
      countLastBuf (bufsOf (contents calls)) = if r.whole then 1 else 0 := by
    intro r
    have hstatus : endedCtx.status = 200 := rfl
    have hheaders : endedCtx.headers ≠ 0 := by decide
    have hmemory : ∀ q ∈ [1], MemoryOrSpecial ((oneLinkHeap threeBytes).data q) := by decide
    rcases parentPost_spec idle 100 [] r hstatus hheaders (owns_oneLinkHeap threeBytes) hmemory
      (spare_idle _ _) with ⟨r', s, calls, hrun, houts, -, hbytes, -, hcount⟩
    refine ⟨r', s, calls, hrun, houts, fun honly => ?_, hcount⟩
    rw [hbytes, honly]
    rfl
  refine ⟨?_, ?_, ?_⟩
  · rintro ⟨r', s, calls, hrun, houts, -, -, body, b, hbufs, hb, -⟩
    rcases hspec ⟨-1, [], false, false⟩ with ⟨r'', s', calls', hrun', houts', -, hcount⟩
    rw [hrun] at hrun'
    cases hrun'
    rw [← contents_unique (houts.symm.trans houts'), hbufs, countLastBuf_append] at hcount
    simp [countLastBuf, hb] at hcount
  · rintro ⟨r', s, calls, hrun, houts, -, hbytes, -⟩
    rcases hspec ⟨-1, [], true, true⟩ with ⟨r'', s', calls', hrun', houts', hnone, -⟩
    rw [hrun] at hrun'
    cases hrun'
    rw [contents_unique (houts.symm.trans houts'), hnone rfl] at hbytes
    simp [subrequestText] at hbytes
  · rintro ⟨r', s, calls, hrun, -, hlength, hbytes, -⟩
    have hdeclared : (NdgSubrequestCallback.parentPost idle 100 [] endedCtx ⟨-1, [], false, true⟩
        (oneLinkHeap { specialBuf true false true with fileLast := 5 })).map
          (fun x => x.2.1.contentLengthN) = some 15 := by decide +kernel
    rw [hrun] at hdeclared
    have h15 : r'.contentLengthN = 15 := Option.some.inj hdeclared
    have hbody : bodyBytes (oneLinkHeap { specialBuf true false true with fileLast := 5 }) [1] = [] := by
      decide
    rw [h15, hbytes, hbody] at hlength
    exact absurd hlength (by decide)

end Ngx
end CppPractice
