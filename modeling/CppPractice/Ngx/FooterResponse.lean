import CppPractice.Ngx.Footer

/-!
# FooterResponse — the footer over a whole response

One response is any number of calls of the body filter after the header filter has run.  `filtered` is
what the filter makes of the contents of all the calls: the framing, the number of footers and the end
of the response are read off it.
-/

namespace CppPractice
namespace Ngx

open Heap

/-! ## The calls for one response -/

/-- A call of `body_filter`: the chain it is given, in the heap as it is then. -/
structure BodyCall where
  head : Nat
  heap : Heap
  links : List Nat
  owns : heap.Owns head links

/-- What a filter gets in a call: the buffers, and the memory they point into. -/
abbrev Content := (UInt64 → UInt8) × List Buf

def BodyCall.content (c : BodyCall) : Content := (c.heap.mem, c.links.map c.heap.data)

/-- What the next filter gets in each of the calls for one response. -/
def passed (cf : NdgFooterConf) : Nat → List BodyCall → Option (List Content)
  | _, [] => some []
  | flag, c :: calls => do
      let r ← NdgFooterHandler.doBodyFilter cf flag c.head c.heap
      let bufs ← r.2.chain c.head
      let rest ← passed cf r.1 calls
      return (r.2.mem, bufs) :: rest

/-- What the filter makes of a response. -/
def filtered (cf : NdgFooterConf) : Nat → List Content → List Content
  | _, [] => []
  | flag, c :: cs =>
      if Applies cf flag c.2 then
        (c.1, addFooter (footerBuf cf) c.2) :: filtered cf 2 cs
      else
        c :: filtered cf flag cs

/-- The filter on the heap does what `filtered` says. -/
theorem passed_eq (cf : NdgFooterConf) (flag : Nat) (calls : List BodyCall) :
    passed cf flag calls = some (filtered cf flag (calls.map BodyCall.content)) := by
  induction calls generalizing flag with
  | nil => rfl
  | cons c calls ih =>
      rcases doBodyFilter_spec cf flag c.owns with ⟨g, m, hrun, hmem, howns, hmap⟩
      simp only [passed, hrun, howns.chain_eq, Option.bind_eq_bind, Option.bind_some, ih, hmem, hmap]
      by_cases happlies : Applies cf flag (c.links.map c.heap.data)
      · simp [filtered, BodyCall.content, happlies]
      · simp [filtered, BodyCall.content, happlies]

def bufsOf (cs : List Content) : List Buf := cs.flatMap Prod.snd

def bytesOf (cs : List Content) : List UInt8 := cs.flatMap fun c => c.2.flatMap (Buf.bytes c.1)

def totalSize (bs : List Buf) : Nat := (bs.map fun b => (NgxBuf.size b).toNat).sum

@[simp] theorem bufsOf_nil : bufsOf [] = [] := rfl

@[simp] theorem bufsOf_cons (c : Content) (cs : List Content) :
    bufsOf (c :: cs) = c.2 ++ bufsOf cs := rfl

@[simp] theorem bytesOf_nil : bytesOf [] = [] := rfl

@[simp] theorem bytesOf_cons (c : Content) (cs : List Content) :
    bytesOf (c :: cs) = c.2.flatMap (Buf.bytes c.1) ++ bytesOf cs := rfl

@[simp] theorem totalSize_append (bs bs' : List Buf) :
    totalSize (bs ++ bs') = totalSize bs + totalSize bs' := by
  simp [totalSize]

theorem bytesOf_eq_nil {cs : List Content} (h : bufsOf cs = []) : bytesOf cs = [] := by
  induction cs with
  | nil => rfl
  | cons c cs ih =>
      rcases List.append_eq_nil_iff.1 h with ⟨hc, hcs⟩
      simp [hc, ih hcs]

/-- The last buffer ends the response, and no other one does. -/
def EndsOnce (bs : List Buf) : Prop :=
  ∃ body b, bs = body ++ [b] ∧ NgxBuf.last b = true ∧ ∀ x ∈ body, NgxBuf.last x = false

theorem filtered_done (cf : NdgFooterConf) {flag : Nat} (hflag : flag ≠ 1) (cs : List Content) :
    filtered cf flag cs = cs := by
  induction cs with
  | nil => rfl
  | cons c cs ih => simp [filtered, Applies, hflag, ih]

theorem filtered_empty (cf : NdgFooterConf) (hempty : NgxString.empty cf.footer = true) (flag : Nat)
    (cs : List Content) : filtered cf flag cs = cs := by
  induction cs generalizing flag with
  | nil => rfl
  | cons c cs ih => simp [filtered, Applies, hempty, ih]

/-- A filter that finds no end changes nothing. -/
theorem filtered_endless (cf : NdgFooterConf) (flag : Nat) {cs : List Content}
    (hnone : ∀ b ∈ bufsOf cs, NgxBuf.last b = false) : filtered cf flag cs = cs := by
  induction cs with
  | nil => rfl
  | cons c cs ih =>
      have hhead : ¬Applies cf flag c.2 := not_applies fun b hb => hnone b (by simp [hb])
      have htail := ih fun b hb => hnone b (by simp [hb])
      simp [filtered, hhead, htail]

section ends

variable {bs bs' : List Buf}

/-- The end is in the first part, with nothing after it, or in the second. -/
theorem EndsOnce.split (h : EndsOnce (bs ++ bs')) :
    (EndsOnce bs ∧ bs' = []) ∨ ((∀ b ∈ bs, NgxBuf.last b = false) ∧ EndsOnce bs') := by
  rcases h with ⟨body, b, hbody, hb, hnot⟩
  rcases List.eq_nil_or_concat bs' with rfl | ⟨init, z, rfl⟩
  · exact Or.inl ⟨⟨body, b, by simpa using hbody, hb, hnot⟩, rfl⟩
  · have heq : (bs ++ init) ++ [z] = body ++ [b] := by simpa using hbody
    rcases List.append_inj' heq rfl with ⟨rfl, hz⟩
    cases hz
    refine Or.inr ⟨fun x hx => hnot x (by simp [hx]), init, b, by simp, hb, ?_⟩
    exact fun x hx => hnot x (by simp [hx])

theorem EndsOnce.any_last (h : EndsOnce bs) : bs.any NgxBuf.last = true := by
  rcases h with ⟨body, b, rfl, hb, -⟩
  simp [hb]

theorem EndsOnce.append_left (h : EndsOnce bs') (hbs : ∀ b ∈ bs, NgxBuf.last b = false) :
    EndsOnce (bs ++ bs') := by
  rcases h with ⟨body, b, rfl, hb, hnot⟩
  refine ⟨bs ++ body, b, by simp, hb, ?_⟩
  intro x hx
  rcases List.mem_append.1 hx with hx | hx
  · exact hbs x hx
  · exact hnot x hx

/-- A chain that ends once gets the footer after its bytes, and ends once. -/
theorem addFooter_endsOnce (cf : NdgFooterConf) (h : EndsOnce bs) :
    EndsOnce (addFooter (footerBuf cf) bs) ∧
      totalSize (addFooter (footerBuf cf) bs) = totalSize bs + cf.footer.len.toNat ∧
      ∀ mem, (addFooter (footerBuf cf) bs).flatMap (Buf.bytes mem) =
        bs.flatMap (Buf.bytes mem) ++ cf.footer.bytes mem := by
  rcases h with ⟨body, b, rfl, hb, hnot⟩
  rw [addFooter_append _ hnot b [] hb]
  by_cases hsize : NgxBuf.size b = 0
  · rw [if_pos hsize]
    refine ⟨⟨body, footerBuf cf, rfl, last_footerBuf cf, hnot⟩, ?_, fun mem => ?_⟩
    · simp [totalSize, hsize]
    · simp [bytes_of_size_zero mem hsize]
  · rw [if_neg hsize]
    refine ⟨⟨body ++ [NgxBuf.finish false b], footerBuf cf, by simp, last_footerBuf cf, ?_⟩, ?_,
      fun mem => ?_⟩
    · intro x hx
      rcases List.mem_append.1 hx with hx | hx
      · exact hnot x hx
      · rw [List.mem_singleton.1 hx, last_finish]
    · simp [totalSize, Nat.add_assoc]
    · simp

end ends

/-- A response that ends once gets the footer once, after its bytes, and ends once. -/
theorem filtered_endsOnce (cf : NdgFooterConf) (hfooter : NgxString.empty cf.footer = false)
    {cs : List Content} (hends : EndsOnce (bufsOf cs)) :
    EndsOnce (bufsOf (filtered cf 1 cs)) ∧
      totalSize (bufsOf (filtered cf 1 cs)) = totalSize (bufsOf cs) + cf.footer.len.toNat ∧
      ∀ text, (∀ c ∈ cs, cf.footer.bytes c.1 = text) →
        bytesOf (filtered cf 1 cs) = bytesOf cs ++ text := by
  -- Over the calls of the filter; the one with the end of the response is the only one it changes.
  induction cs with
  | nil =>
      rcases hends with ⟨body, b, hnil, -⟩
      simp at hnil
  | cons c cs ih =>
      have hsplit : EndsOnce (c.2 ++ bufsOf cs) := hends
      rcases hsplit.split with ⟨hc, hnil⟩ | ⟨hc, hcs⟩
      · -- the response ends in this call; nothing comes after it
        rcases addFooter_endsOnce cf hc with ⟨honce, hsize, hbytes⟩
        have happlies : Applies cf 1 c.2 := ⟨hfooter, rfl, hc.any_last⟩
        have hfiltered : filtered cf 1 (c :: cs) = (c.1, addFooter (footerBuf cf) c.2) :: cs := by
          simp [filtered, happlies, filtered_done cf (show 2 ≠ 1 by decide)]
        rw [hfiltered]
        refine ⟨?_, ?_, fun text htext => ?_⟩
        · simpa [hnil] using honce
        · simpa [hnil] using hsize
        · have htext' : cf.footer.bytes c.1 = text := htext c List.mem_cons_self
          simpa [bytesOf_eq_nil hnil, htext'] using hbytes c.1
      · -- nothing of the end yet
        have hnot : ¬Applies cf 1 c.2 := not_applies hc
        rcases ih hcs with ⟨honce, hsize, hbytes⟩
        have hfiltered : filtered cf 1 (c :: cs) = c :: filtered cf 1 cs := by
          simp [filtered, hnot]
        rw [hfiltered]
        refine ⟨?_, ?_, fun text htext => ?_⟩
        · simpa using honce.append_left hc
        · simpa [Nat.add_assoc] using hsize
        · simpa using hbytes text fun d hd => htext d (List.mem_cons_of_mem c hd)

/-! ## The end of the response -/

/-- How many buffers end the whole response. -/
def countLastBuf (bs : List Buf) : Nat := bs.countP Buf.lastBuf

/-- The first buffer of the chain that is flagged as an end, and what comes after it. -/
def splitEnd : List Buf → Option (Buf × List Buf)
  | [] => none
  | b :: bs => if NgxBuf.last b then some (b, bs) else splitEnd bs

/-- The end that the footer takes the place of is the end of the whole response: an empty buffer with
`last_buf`, or one with size such that it and what comes after it in its chain have `last_buf` once. -/
def EndsWhole (cs : List (List Buf)) : Prop :=
  match cs.findSome? splitEnd with
  | none => True
  | some (b, bs) =>
      if NgxBuf.size b = 0 then b.lastBuf = true else countLastBuf (b :: bs) = 1

instance (cs : List (List Buf)) : Decidable (EndsWhole cs) := by
  unfold EndsWhole
  split
  · infer_instance
  · infer_instance

@[simp] theorem countLastBuf_append (bs bs' : List Buf) :
    countLastBuf (bs ++ bs') = countLastBuf bs + countLastBuf bs' := by
  simp [countLastBuf]

theorem splitEnd_eq_none {bs : List Buf} (h : bs.any NgxBuf.last = false) : splitEnd bs = none := by
  induction bs with
  | nil => rfl
  | cons b bs ih =>
      have hparts : NgxBuf.last b = false ∧ bs.any NgxBuf.last = false := by simpa using h
      simp [splitEnd, hparts.1, ih hparts.2]

theorem exists_splitEnd {bs : List Buf} (h : bs.any NgxBuf.last = true) :
    ∃ as b bs', bs = as ++ b :: bs' ∧ NgxBuf.last b = true ∧ (∀ a ∈ as, NgxBuf.last a = false) ∧
      splitEnd bs = some (b, bs') := by
  induction bs with
  | nil => cases h
  | cons x bs ih =>
      cases hx : NgxBuf.last x with
      | true => exact ⟨[], x, bs, rfl, hx, by simp, by simp [splitEnd, hx]⟩
      | false =>
          rcases ih (by simpa [hx] using h) with ⟨as, b, bs', rfl, hb, has, hsplit⟩
          refine ⟨x :: as, b, bs', rfl, hb, ?_, by simp [splitEnd, hx, hsplit]⟩
          intro a ha
          rcases List.mem_cons.1 ha with rfl | ha
          · exact hx
          · exact has a ha

/-- A buffer without flags does not end the whole response. -/
theorem lastBuf_of_not_last {b : Buf} (h : NgxBuf.last b = false) : b.lastBuf = false := by
  have hboth : b.lastBuf = false ∧ b.lastInChain = false := by simpa [NgxBuf.last] using h
  exact hboth.1

/-- The ends are as many as before exactly where the footer takes the place of one. -/
theorem countLastBuf_filtered (cf : NdgFooterConf) (hfooter : NgxString.empty cf.footer = false)
    (cs : List Content) :
    countLastBuf (bufsOf (filtered cf 1 cs)) = countLastBuf (bufsOf cs) ↔
      EndsWhole (cs.map Prod.snd) := by
  -- Over the calls up to the first with a last buffer, where the footer goes in.
  induction cs with
  | nil => simp [filtered, EndsWhole]
  | cons c cs ih =>
      cases hany : c.2.any NgxBuf.last with
      | false =>
          have hnot : ¬Applies cf 1 c.2 := by
            rintro ⟨-, -, h⟩
            rw [hany] at h
            cases h
          have hwhole : EndsWhole ((c :: cs).map Prod.snd) ↔ EndsWhole (cs.map Prod.snd) := by
            simp [EndsWhole, splitEnd_eq_none hany]
          rw [hwhole, ← ih]
          simp [filtered, hnot]
      | true =>
          have happlies : Applies cf 1 c.2 := ⟨hfooter, rfl, hany⟩
          have hfiltered : filtered cf 1 (c :: cs) = (c.1, addFooter (footerBuf cf) c.2) :: cs := by
            simp [filtered, happlies, filtered_done cf (show 2 ≠ 1 by decide)]
          rcases exists_splitEnd hany with ⟨as, b, bs, hc, hb, has, hsplit⟩
          have hwhole : EndsWhole ((c :: cs).map Prod.snd) ↔
              if NgxBuf.size b = 0 then b.lastBuf = true else countLastBuf (b :: bs) = 1 := by
            simp [EndsWhole, hsplit]
          have hfoot : (footerBuf cf).lastBuf = true := rfl
          rw [hfiltered, hwhole, bufsOf_cons, bufsOf_cons, hc, addFooter_append _ has b bs hb]
          by_cases hsize : NgxBuf.size b = 0
          -- An empty last buffer makes way for the footer, and any other stays and loses its flags.
          · simp only [hsize, if_true]
            cases hbl : b.lastBuf with
            | true => simp [countLastBuf, hfoot, hbl]
            | false => simp [countLastBuf, hfoot, hbl]
          · have hfin : (NgxBuf.finish false b).lastBuf = false := rfl
            simp only [hsize, if_false]
            simp [countLastBuf, hfoot, hfin, List.countP_cons]
            omega

/-! ## The two filters on one response -/

section response

variable (cf : NdgFooterConf) {r : FooterRequest}

/-- The contents of the chains a filter is given. -/
def contents (calls : List BodyCall) : List Content := calls.map BodyCall.content

/-- The header filter of a request it has not seen yet sets the flag. -/
theorem doHeaderFilter_flag (hr : r.flag = 0) : (NdgFooterHandler.doHeaderFilter cf r).flag = 1 := by
  unfold NdgFooterHandler.doHeaderFilter
  rw [if_neg (by simp [hr])]
  dsimp only
  split
  · rfl
  · split
    · rfl
    · rfl

/-- The length it declares: that of the body, and where there is a body that of the footer too. -/
theorem doHeaderFilter_length (hr : r.flag = 0) :
    (NdgFooterHandler.doHeaderFilter cf r).contentLengthN =
      if NgxString.empty cf.footer = false ∧ 0 < r.contentLengthN then
        toOffT (r.contentLengthN + cf.footer.len.toNat)
      else
        r.contentLengthN := by
  unfold NdgFooterHandler.doHeaderFilter
  rw [if_neg (by simp [hr])]
  cases hempty : NgxString.empty cf.footer with
  | true => simp
  | false =>
      by_cases hpos : 0 < r.contentLengthN
      · simp [hpos]
      · simp [hpos]

/-- A footer that is not empty has a length. -/
theorem footer_len_pos (hfooter : NgxString.empty cf.footer = false) : 0 < cf.footer.len.toNat := by
  have hparts : cf.footer.data ≠ 0 ∧ cf.footer.len ≠ 0 := by simpa [NgxString.empty] using hfooter
  apply Nat.pos_of_ne_zero
  intro hzero
  apply hparts.2
  exact UInt64.toNat_inj.1 hzero

/-- Of a body that ends once and has the declared length, the two filters agree on the length exactly where
there is no footer, or there is a body and the sum is an `off_t`. -/
theorem declared_length_iff (hr : r.flag = 0) {n : Nat} (hn : r.contentLengthN = n) {cs : List Content}
    (hends : EndsOnce (bufsOf cs)) (htotal : totalSize (bufsOf cs) = n) :
    (NdgFooterHandler.doHeaderFilter cf r).contentLengthN =
        totalSize (bufsOf (filtered cf (NdgFooterHandler.doHeaderFilter cf r).flag cs)) ↔
      NgxString.empty cf.footer = true ∨ (0 < n ∧ n + cf.footer.len.toNat < 2 ^ 63) := by
  rw [doHeaderFilter_flag cf hr, doHeaderFilter_length cf hr, hn]
  cases hempty : NgxString.empty cf.footer with
  | true =>
      have hsame := filtered_empty cf hempty 1 cs
      have hsize : totalSize (bufsOf (filtered cf 1 cs)) = n := by rw [hsame, htotal]
      simp at hsize ⊢
      omega
  | false =>
      have hsize := (filtered_endsOnce cf hempty hends).2.1
      rw [htotal] at hsize
      have hpos := footer_len_pos cf hempty
      have hcast := toOffT_eq_iff (n + cf.footer.len.toNat)
      change (_ = ((totalSize (bufsOf (filtered cf 1 cs)) : Nat) : Int)) ↔ _
      rw [hsize]
      by_cases hbody : 0 < n
      · simpa [hbody] using hcast
      · have hn0 : n = 0 := by omega
        simp [hn0]
        omega

/-- For a main request with a body of the declared length, the length that the header filter leaves is
that of what the body filter passes on exactly where there is no footer, or there is a body and the sum
is an `off_t`. -/
theorem footer_length_iff (hr : r.flag = 0) {n : Nat} (hn : r.contentLengthN = n)
    {calls : List BodyCall} (hends : EndsOnce (bufsOf (contents calls)))
    (htotal : totalSize (bufsOf (contents calls)) = n) :
    ∃ outs, passed cf (NdgFooterHandler.doHeaderFilter cf r).flag calls = some outs ∧
      ((NdgFooterHandler.doHeaderFilter cf r).contentLengthN = totalSize (bufsOf outs) ↔
        NgxString.empty cf.footer = true ∨ (0 < n ∧ n + cf.footer.len.toNat < 2 ^ 63)) := by
  exact ⟨_, passed_eq cf _ calls, declared_length_iff cf hr hn hends htotal⟩

/-- The calls of one response, which ends once, while the footer's text stays in memory. -/
def Response (text : List UInt8) (calls : List BodyCall) : Prop :=
  EndsOnce (bufsOf (contents calls)) ∧ ∀ c ∈ calls, cf.footer.bytes c.heap.mem = text

/-- However a body is spread over calls and chains, what is passed on is its bytes and then the footer
once, with one end, at the end; so two ways of spreading it give the same bytes. -/
theorem footer_once (hfooter : NgxString.empty cf.footer = false) (hr : r.flag = 0)
    {text : List UInt8} {calls : List BodyCall} (hcalls : Response cf text calls) :
    ∃ outs, passed cf (NdgFooterHandler.doHeaderFilter cf r).flag calls = some outs ∧
      bytesOf outs = bytesOf (contents calls) ++ text ∧ EndsOnce (bufsOf outs) ∧
      ∀ calls', Response cf text calls' → bytesOf (contents calls') = bytesOf (contents calls) →
        ∃ outs', passed cf (NdgFooterHandler.doHeaderFilter cf r).flag calls' = some outs' ∧
          bytesOf outs' = bytesOf outs := by
  have hpassed : ∀ calls, Response cf text calls →
      ∃ outs, passed cf (NdgFooterHandler.doHeaderFilter cf r).flag calls = some outs ∧
        bytesOf outs = bytesOf (contents calls) ++ text ∧ EndsOnce (bufsOf outs) := by
    rintro calls ⟨hends, htext⟩
    rcases filtered_endsOnce cf hfooter hends with ⟨honce, -, hbytes⟩
    refine ⟨_, passed_eq cf _ calls, ?_⟩
    rw [doHeaderFilter_flag cf hr]
    refine ⟨hbytes text ?_, honce⟩
    intro c hc
    rcases List.mem_map.1 hc with ⟨call, hcall, rfl⟩
    exact htext call hcall
  rcases hpassed calls hcalls with ⟨outs, hrun, hbytes, honce⟩
  refine ⟨outs, hrun, hbytes, honce, ?_⟩
  intro calls' hcalls' hsame
  rcases hpassed calls' hcalls' with ⟨outs', hrun', hbytes', -⟩
  refine ⟨outs', hrun', ?_⟩
  calc
    bytesOf outs' = bytesOf (contents calls') ++ text := hbytes'
    _ = bytesOf (contents calls) ++ text := by rw [hsame]
    _ = bytesOf outs := hbytes.symm

/-- For any request and any calls, as many ends of the whole response are passed on as came in exactly
where there is no footer, or the end that the footer takes the place of is such an end. -/
theorem footer_ends_iff (hr : r.flag = 0) (calls : List BodyCall) :
    ∃ outs, passed cf (NdgFooterHandler.doHeaderFilter cf r).flag calls = some outs ∧
      (countLastBuf (bufsOf outs) = countLastBuf (bufsOf (contents calls)) ↔
        NgxString.empty cf.footer = true ∨ EndsWhole ((contents calls).map Prod.snd)) := by
  refine ⟨_, passed_eq cf _ calls, ?_⟩
  rw [doHeaderFilter_flag cf hr]
  cases hempty : NgxString.empty cf.footer with
  | true => simp [filtered_empty cf hempty, contents]
  | false => simpa [contents] using countLastBuf_filtered cf hempty (contents calls)

end response

/-! ## The echo handler's response -/

/-- The call of the body filter that a send makes. -/
def BodyCall.ofSend (whole : Bool) (op : Send) (h : Heap) (hready : h.Ready []) : BodyCall where
  head := (op.chain whole h).1
  heap := (op.chain whole h).2
  links := [(op.chain whole h).1]
  owns := by
    rcases op.chain_spec whole hready with ⟨n, g, hchain, -, howns, -⟩
    rw [hchain]
    exact howns

@[simp] theorem content_ofSend (whole : Bool) (op : Send) (h : Heap) (hready : h.Ready []) :
    (BodyCall.ofSend whole op h hready).content = (h.mem, [op.buf whole]) := by
  rcases op.chain_spec whole hready with ⟨n, g, hchain, -, -, -, hdata, hmem, -⟩
  simp [BodyCall.content, BodyCall.ofSend, hchain, hdata, hmem]

/-- The calls of the body filter that a handler's sends make, each on the heap of its time. -/
def sendCalls (whole : Bool) (ops : List Send) (heaps : List { h : Heap // h.Ready [] }) :
    List BodyCall :=
  List.zipWith (fun op h => BodyCall.ofSend whole op h.1 h.2) ops heaps

theorem bufsOf_sendCalls (whole : Bool) {ops : List Send} {heaps : List { h : Heap // h.Ready [] }}
    (hlength : heaps.length = ops.length) :
    bufsOf (contents (sendCalls whole ops heaps)) = ops.map (Send.buf whole) := by
  induction ops generalizing heaps with
  | nil => simp [sendCalls, contents]
  | cons op ops ih =>
      cases heaps with
      | nil => cases hlength
      | cons h heaps =>
          have htail := ih (Nat.succ.inj hlength)
          simpa [sendCalls, contents] using htail

/-- The echo handler sends what it declares, and ends once. -/
theorem process_frames {msg args : NgxStr} {comma : UInt64} {n : Int} {ops : List Send}
    (hprocess : NdgEchoHandler.process true msg args comma = some (n, ops))
    (hfits : msg.len.toNat + (args.len.toNat + 1) < 2 ^ 63) :
    (totalSize (ops.map (Send.buf true)) : Int) = n ∧ EndsOnce (ops.map (Send.buf true)) ∧
      totalSize (ops.map (Send.buf true)) ≤ msg.len.toNat + (args.len.toNat + 1) := by
  have hplain : ∀ s : NgxStr, NgxBuf.last (NgxBuf.range s Buf.zero) = false := fun _ => rfl
  have hflush : NgxBuf.last (specialBuf true false true) = false := rfl
  have hone : (1 : UInt64).toNat = 1 := rfl
  cases hargs : NgxString.empty args with
  | true =>
      have hparts : toOffT msg.len.toNat = n ∧ [Send.str msg, .flush, .eof] = ops := by
        simpa [NdgEchoHandler.process, hargs] using hprocess
      rcases hparts with ⟨rfl, rfl⟩
      have hsize : totalSize ([Send.str msg, .flush, .eof].map (Send.buf true)) = msg.len.toNat := by
        simp [totalSize, Send.buf]
      refine ⟨?_, ⟨[Send.buf true (.str msg), Send.buf true .flush], Send.buf true .eof, rfl, rfl, ?_⟩,
        ?_⟩
      · rw [(toOffT_eq_iff msg.len.toNat).2 (by omega), hsize]
      · simp [Send.buf, hplain, hflush]
      · omega
  | false =>
      have hparts : toOffT (msg.len + (args.len + 1)).toNat = n ∧
          [Send.str args, .str ⟨comma, 1⟩, .str msg, .flush, .eof] = ops := by
        simpa [NdgEchoHandler.process, hargs] using hprocess
      rcases hparts with ⟨rfl, rfl⟩
      have hsum : (msg.len + (args.len + 1)).toNat = msg.len.toNat + (args.len.toNat + 1) := by
        rw [UInt64.toNat_add, UInt64.toNat_add, hone]
        omega
      have hsize : totalSize ([Send.str args, .str ⟨comma, 1⟩, .str msg, .flush, .eof].map
          (Send.buf true)) = msg.len.toNat + (args.len.toNat + 1) := by
        simp [totalSize, Send.buf]
        omega
      refine ⟨?_, ⟨[Send.buf true (.str args), Send.buf true (.str ⟨comma, 1⟩),
        Send.buf true (.str msg), Send.buf true .flush], Send.buf true .eof, rfl, rfl, ?_⟩, ?_⟩
      · rw [hsum, (toOffT_eq_iff _).2 hfits, hsize]
      · simp [Send.buf, hplain, hflush]
      · omega

/-- The echo handler's response is framed exactly where there is no footer, or it says something. -/
theorem echo_length_iff (cf : NdgFooterConf) {r : FooterRequest} (hr : r.flag = 0)
    {msg args : NgxStr} {comma : UInt64} {ops : List Send}
    (hprocess : NdgEchoHandler.process true msg args comma = some (r.contentLengthN, ops))
    (hfits : msg.len.toNat + (args.len.toNat + 1) + cf.footer.len.toNat < 2 ^ 63)
    {heaps : List { h : Heap // h.Ready [] }} (hlength : heaps.length = ops.length) :
    ∃ outs, passed cf (NdgFooterHandler.doHeaderFilter cf r).flag (sendCalls true ops heaps) =
        some outs ∧
      ((NdgFooterHandler.doHeaderFilter cf r).contentLengthN = totalSize (bufsOf outs) ↔
        NgxString.empty cf.footer = true ∨ 0 < r.contentLengthN) := by
  rcases process_frames hprocess (by omega) with ⟨htotal, hends, hbound⟩
  have hbufs := bufsOf_sendCalls true hlength
  have hiff := declared_length_iff cf hr htotal.symm (hbufs.symm ▸ hends)
    (congrArg totalSize hbufs)
  refine ⟨_, passed_eq cf _ _, hiff.trans ?_⟩
  rw [← htotal]
  constructor
  · rintro (hempty | ⟨hpos, -⟩)
    · exact Or.inl hempty
    · exact Or.inr (by omega)
  · rintro (hempty | hpos)
    · exact Or.inl hempty
    · exact Or.inr ⟨by omega, by omega⟩

/-! ## Instances -/

/-- Nothing allocated yet. -/
def emptyHeap : Heap where
  link _ := ⟨0, 0⟩
  buf _ := Buf.zero
  mem addr := addr.toUInt8
  poolChain := 0
  brk := 1

theorem ready_emptyHeap : emptyHeap.Ready [] where
  brk_pos := Nat.one_pos
  frees := ⟨[], Segment.Chain.nil _ 0, fun _ hq => absurd hq List.not_mem_nil⟩
  used_lt := fun _ hq => absurd hq List.not_mem_nil

/-- A footer of three bytes. -/
def shortFooter : NdgFooterConf := ⟨[], ⟨65, 3⟩⟩

/-- A request that the filters have not seen. -/
def freshRequest (n : Int) : FooterRequest := ⟨0, [], n⟩

/-- What the echo handler sends of a text of `len` bytes, without arguments. -/
def echoCalls (len : UInt64) : List BodyCall :=
  sendCalls true [.str ⟨70, len⟩, .flush, .eof] (List.replicate 3 ⟨emptyHeap, ready_emptyHeap⟩)

theorem contents_echoCalls (len : UInt64) :
    contents (echoCalls len) = [.str ⟨70, len⟩, .flush, .eof].map fun op : Send =>
      (emptyHeap.mem, [op.buf true]) := by
  simp [echoCalls, sendCalls, contents, List.replicate]

theorem endsOnce_echoCalls (len : UInt64) : EndsOnce (bufsOf (contents (echoCalls len))) := by
  rw [contents_echoCalls]
  exact ⟨[Send.buf true (.str ⟨70, len⟩), Send.buf true .flush], Send.buf true .eof, rfl, rfl,
    by simp [Send.buf, NgxBuf.last, NgxBuf.range, specialBuf, Buf.zero]⟩

theorem totalSize_echoCalls (len : UInt64) :
    totalSize (bufsOf (contents (echoCalls len))) = len.toNat := by
  rw [contents_echoCalls]
  simp [totalSize, Send.buf]

theorem footer_length_iff_echo :
    ∃ outs, passed shortFooter (NdgFooterHandler.doHeaderFilter shortFooter (freshRequest 2)).flag
        (echoCalls 2) = some outs ∧
      (NdgFooterHandler.doHeaderFilter shortFooter (freshRequest 2)).contentLengthN =
        totalSize (bufsOf outs) := by
  rcases footer_length_iff shortFooter (r := freshRequest 2) rfl (n := 2) rfl
    (endsOnce_echoCalls 2) (totalSize_echoCalls 2) with ⟨outs, hrun, hiff⟩
  exact ⟨outs, hrun, hiff.2 (Or.inr (by decide))⟩

/-- An empty response declares no bytes, and the footer is passed on after it. -/
theorem footer_length_not_kept :
    ¬∀ (cf : NdgFooterConf) (r : FooterRequest) (n : Nat) (calls : List BodyCall),
      r.flag = 0 → r.contentLengthN = n → EndsOnce (bufsOf (contents calls)) →
      totalSize (bufsOf (contents calls)) = n →
      ∃ outs, passed cf (NdgFooterHandler.doHeaderFilter cf r).flag calls = some outs ∧
        (NdgFooterHandler.doHeaderFilter cf r).contentLengthN = totalSize (bufsOf outs) := by
  intro h
  rcases h shortFooter (freshRequest 0) 0 (echoCalls 0) rfl rfl (endsOnce_echoCalls 0)
    (totalSize_echoCalls 0) with ⟨outs, hrun, hsize⟩
  rw [passed_eq] at hrun
  cases hrun
  change (0 : Int) = totalSize (bufsOf (filtered shortFooter 1 (contents (echoCalls 0)))) at hsize
  rw [contents_echoCalls] at hsize
  exact absurd hsize (by decide)

theorem footer_once_echo :
    ∃ outs, passed shortFooter (NdgFooterHandler.doHeaderFilter shortFooter (freshRequest 2)).flag
        (echoCalls 2) = some outs ∧
      bytesOf outs = bytesOf (contents (echoCalls 2)) ++ [65, 66, 67] ∧ EndsOnce (bufsOf outs) := by
  have htext : ∀ c ∈ echoCalls 2, shortFooter.footer.bytes c.heap.mem = [65, 66, 67] := by
    intro c hc
    have hmem : (contents (echoCalls 2)).map Prod.fst = List.replicate 3 emptyHeap.mem := by
      rw [contents_echoCalls]
      rfl
    have hin : c.heap.mem ∈ (contents (echoCalls 2)).map Prod.fst :=
      List.mem_map.2 ⟨c.content, List.mem_map.2 ⟨c, hc, rfl⟩, rfl⟩
    rw [hmem] at hin
    rw [List.eq_of_mem_replicate hin]
    decide
  rcases footer_once shortFooter (by decide) (r := freshRequest 2) rfl
    ⟨endsOnce_echoCalls 2, htext⟩ with ⟨outs, hrun, hbytes, honce, -⟩
  exact ⟨outs, hrun, hbytes, honce⟩

theorem footer_ends_iff_echo :
    ∃ outs, passed shortFooter (NdgFooterHandler.doHeaderFilter shortFooter (freshRequest 2)).flag
        (echoCalls 2) = some outs ∧
      countLastBuf (bufsOf outs) = countLastBuf (bufsOf (contents (echoCalls 2))) := by
  rcases footer_ends_iff shortFooter (r := freshRequest 2) rfl (echoCalls 2) with
    ⟨outs, hrun, hiff⟩
  refine ⟨outs, hrun, hiff.2 (Or.inr ?_)⟩
  rw [contents_echoCalls]
  decide

/-- A subrequest ends with a buffer that does not end the whole response, and with the footer it does. -/
theorem footer_ends_main :
    ¬∀ (cf : NdgFooterConf) (r : FooterRequest) (calls : List BodyCall), r.flag = 0 →
      ∃ outs, passed cf (NdgFooterHandler.doHeaderFilter cf r).flag calls = some outs ∧
        countLastBuf (bufsOf outs) = countLastBuf (bufsOf (contents calls)) := by
  intro h
  rcases h shortFooter (freshRequest 0) [BodyCall.ofSend false .eof emptyHeap ready_emptyHeap] rfl with
    ⟨outs, hrun, hcount⟩
  rw [passed_eq] at hrun
  cases hrun
  change countLastBuf (bufsOf (filtered shortFooter 1
    [(BodyCall.ofSend false .eof emptyHeap ready_emptyHeap).content])) = countLastBuf (bufsOf
    [(BodyCall.ofSend false .eof emptyHeap ready_emptyHeap).content]) at hcount
  rw [content_ofSend] at hcount
  exact absurd hcount (by decide)

end Ngx
end CppPractice
