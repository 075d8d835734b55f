import CppPractice.Ngx.ParentPost

/-!
# ZeroSize — buffers without a byte

`ngx_http_write_filter` gives up a response when it meets a buffer of size 0 that is not special.  The
footer and the parent of a subrequest send none, if they are given none; the echo handler sends its message
without a look at it.
-/

namespace CppPractice
namespace Ngx

open Heap

/-- `ngx_buf_size(cl->buf) == 0 && !ngx_buf_special(cl->buf)` -/
def zeroSize (b : Buf) : Bool := NgxBuf.size b == 0 && !NgxBuf.special b

/-- Whether `ngx_http_write_filter` returns `NGX_ERROR` with the alert of a zero size buffer: `out` is what
is left of earlier calls, and `inp` the new chain. -/
def ngxHttpWriteFilterAlerts (connectionError : Bool) (out inp : List Buf) : Bool :=
  !connectionError && (out.any zeroSize || inp.any zeroSize)

theorem zeroSize_of_size {b : Buf} (hsize : NgxBuf.size b ≠ 0) : zeroSize b = false := by
  simp [zeroSize, hsize]

theorem zeroSize_of_special {b : Buf} (hspecial : NgxBuf.special b = true) : zeroSize b = false := by
  simp [zeroSize, hspecial]

/-- A buffer that has a size keeps it without its flags. -/
theorem zeroSize_finish {b : Buf} (hspecial : NgxBuf.special b = false) (hb : zeroSize b = false)
    (flag : Bool) : zeroSize (NgxBuf.finish flag b) = false := by
  apply zeroSize_of_size
  rw [size_finish]
  simpa [zeroSize, hspecial] using hb

theorem zeroSize_range (s : NgxStr) : zeroSize (NgxBuf.range s Buf.zero) = (s.len == 0) := by
  have hspecial : NgxBuf.special (NgxBuf.range s Buf.zero) = false := rfl
  rw [zeroSize, size_range, hspecial]
  exact Bool.and_true _

/-- The buffer of `ngx_http_send_special` is special if it is to end or to flush. -/
theorem special_specialBuf (whole last flush : Bool) :
    NgxBuf.special (specialBuf whole last flush) = (last || flush) := by
  cases whole <;> cases last <;> cases flush <;> rfl

/-! ## NdgEchoHandler -/

/-- The buffers that a send gives to `ngx_http_output_filter`. -/
def Send.handed (whole headerOnly : Bool) : Send → List Buf
  | .str s => if headerOnly then [] else [Send.buf whole (.str s)]
  | op => [op.buf whole]

theorem Send.handed_str {whole headerOnly : Bool} {s : NgxStr} :
    (∀ b ∈ (Send.str s).handed whole headerOnly, zeroSize b = false) ↔
      headerOnly = true ∨ s.len ≠ 0 := by
  cases headerOnly with
  | true => simp [Send.handed]
  | false => simp [Send.handed, Send.buf, zeroSize_range]

/-- What `process` gives to `ngx_http_output_filter` has a size or is special, wherever an exception ends
it. -/
def NdgEchoHandler.SendsSized (get headerOnly whole : Bool) (msg args : NgxStr) (comma : UInt64) : Prop :=
  ∀ len sends, NdgEchoHandler.process get msg args comma = some (len, sends) →
    ∀ k, ∀ b ∈ (sends.take k).flatMap (Send.handed whole headerOnly), zeroSize b = false

/-- What is sent before the message has a size: the arguments are looked at first. -/
theorem NdgEchoHandler.process_get (headerOnly whole : Bool) (msg args : NgxStr) (comma : UInt64) :
    ∃ len before,
      NdgEchoHandler.process true msg args comma = some (len, before ++ [.str msg, .flush, .eof]) ∧
      ∀ b ∈ before.flatMap (Send.handed whole headerOnly), zeroSize b = false := by
  refine ⟨_, _, rfl, ?_⟩
  cases hargs : NgxString.empty args with
  | true => simp
  | false =>
      have hlen : args.len ≠ 0 := by
        simp only [NgxString.empty, Bool.or_eq_false_iff, beq_eq_false_iff_ne] at hargs
        exact hargs.2
      have hcomma : (1 : UInt64) ≠ 0 := by decide
      simp only [Bool.false_eq_true, if_false, List.flatMap_cons, List.flatMap_nil,
        List.append_nil, List.forall_mem_append]
      exact ⟨Send.handed_str.2 (Or.inr hlen), Send.handed_str.2 (Or.inr hcomma)⟩

/-- The two special buffers at the end are no matter. -/
theorem Send.handed_message {whole headerOnly : Bool} {msg : NgxStr} :
    (∀ b ∈ [Send.str msg, .flush, .eof].flatMap (Send.handed whole headerOnly), zeroSize b = false) ↔
      headerOnly = true ∨ msg.len ≠ 0 := by
  have hflush : zeroSize (Send.buf whole .flush) = false :=
    zeroSize_of_special (special_specialBuf whole false true)
  have heof : zeroSize (Send.buf whole .eof) = false :=
    zeroSize_of_special (special_specialBuf whole true false)
  have hends : ∀ b ∈ [Send.flush, .eof].flatMap (Send.handed whole headerOnly), zeroSize b = false := by
    simp [Send.handed, hflush, heof]
  rw [List.flatMap_cons, List.forall_mem_append, Send.handed_str]
  exact and_iff_left hends

theorem NdgEchoHandler.sendsSized_iff (get headerOnly whole : Bool) (msg args : NgxStr)
    (comma : UInt64) :
    NdgEchoHandler.SendsSized get headerOnly whole msg args comma ↔
      get = false ∨ headerOnly = true ∨ msg.len ≠ 0 := by
  cases get with
  | false => simp [NdgEchoHandler.SendsSized, NdgEchoHandler.process]
  | true =>
      rcases NdgEchoHandler.process_get headerOnly whole msg args comma with ⟨len, before, hrun, hbefore⟩
      have hall : (∀ b ∈ (before ++ [Send.str msg, .flush, .eof]).flatMap (Send.handed whole headerOnly),
          zeroSize b = false) ↔ headerOnly = true ∨ msg.len ≠ 0 := by
        rw [List.flatMap_append, List.forall_mem_append, Send.handed_message]
        exact and_iff_right hbefore
      constructor
      · intro hsized
        have hwhole := hsized len _ hrun (before ++ [Send.str msg, .flush, .eof]).length
        rw [List.take_length, hall] at hwhole
        exact Or.inr hwhole
      · rintro (hget | hmsg) len' sends hrun' k b hb
        · cases hget
        · rw [hrun] at hrun'
          cases hrun'
          rcases List.mem_flatMap.1 hb with ⟨op, hop, hbop⟩
          exact hall.2 hmsg b (List.mem_flatMap.2 ⟨op, List.mem_of_mem_take hop, hbop⟩)

/-! ## NdgFooterHandler -/

/-- The buffers of a chain that stay when the footer is added: those before the first end, and that end, or
those after it where the footer takes its place. -/
def keptBufs : List Buf → List Buf
  | [] => []
  | b :: bs =>
      if NgxBuf.last b then
        if NgxBuf.size b = 0 then bs else [b]
      else
        b :: keptBufs bs

/-- The buffers that stay in all the calls for one response. -/
def stays (cf : NdgFooterConf) (flag : Nat) : List Content → List Buf
  | [] => []
  | c :: cs =>
      if Applies cf flag c.2 then keptBufs c.2 ++ bufsOf cs else c.2 ++ stays cf flag cs

theorem zeroSize_footerBuf {cf : NdgFooterConf} (hfooter : NgxString.empty cf.footer = false) :
    zeroSize (footerBuf cf) = false := by
  apply zeroSize_of_size
  rw [size_footerBuf]
  simp only [NgxString.empty, Bool.or_eq_false_iff, beq_eq_false_iff_ne] at hfooter
  exact hfooter.2

theorem sized_addFooter_iff {footer : Buf} (hfooter : zeroSize footer = false) (bs : List Buf) :
    (∀ b ∈ addFooter footer bs, zeroSize b = false) ↔ ∀ b ∈ keptBufs bs, zeroSize b = false := by
  induction bs with
  | nil => rfl
  | cons b bs ih =>
      cases hlast : NgxBuf.last b with
      | true =>
          by_cases hsize : NgxBuf.size b = 0
          · simp [addFooter, keptBufs, hlast, hsize, hfooter]
          · have hb : zeroSize b = false := zeroSize_of_size hsize
            have hfinish : zeroSize (NgxBuf.finish false b) = false := zeroSize_of_size hsize
            simp [addFooter, keptBufs, hlast, hsize, hfooter, hb, hfinish]
      | false => simp [addFooter, keptBufs, hlast, ih]

/-- The filter passes a buffer of size 0 on if and only if one stays of those it is given. -/
theorem sized_filtered_iff (cf : NdgFooterConf) (flag : Nat) (cs : List Content) :
    (∀ b ∈ bufsOf (filtered cf flag cs), zeroSize b = false) ↔
      ∀ b ∈ stays cf flag cs, zeroSize b = false := by
  induction cs with
  | nil => rfl
  | cons c cs ih =>
      by_cases happlies : Applies cf flag c.2
      · have hfooter := sized_addFooter_iff (zeroSize_footerBuf happlies.1) c.2
        have hrest : filtered cf 2 cs = cs := filtered_done cf (by decide) cs
        simp only [filtered, stays, happlies, if_true, bufsOf_cons, hrest, List.forall_mem_append,
          hfooter]
      · simp only [filtered, stays, happlies, if_false, bufsOf_cons, List.forall_mem_append, ih]

/-- Nothing stays that was not given. -/
theorem stays_subset (cf : NdgFooterConf) (flag : Nat) (cs : List Content) :
    stays cf flag cs ⊆ bufsOf cs := by
  have hkept : ∀ bs : List Buf, keptBufs bs ⊆ bs := by
    intro bs
    induction bs with
    | nil => exact List.Subset.refl _
    | cons b bs ih =>
        rw [keptBufs]
        split
        · split
          · exact List.subset_cons_self b bs
          · simp
        · exact List.cons_subset_cons b ih
  induction cs with
  | nil => exact List.Subset.refl _
  | cons c cs ih =>
      rw [stays, bufsOf_cons]
      split
      · exact List.append_subset.2 ⟨List.subset_append_of_subset_left _ (hkept c.2),
          List.subset_append_right _ _⟩
      · exact List.append_subset.2 ⟨List.subset_append_left _ _,
          List.subset_append_of_subset_right _ ih⟩

/-! ## NdgSubrequestCallback -/

/-- A body without buffers of size 0 is sent without one. -/
theorem zeroSize_ofResponse {whole : Bool} {text : UInt64} {h : Heap} {l : List Nat}
    (hbody : ∀ q ∈ l, zeroSize (h.data q) = false) {b : Buf}
    (hb : OfResponse whole ⟨text, 10⟩ h l b) : zeroSize b = false := by
  rcases hb with ⟨q, hq, hspecial, rfl | rfl⟩ | rfl | rfl
  · exact hbody q hq
  · exact zeroSize_finish hspecial (hbody q hq) false
  · rw [zeroSize_range]
    rfl
  · exact zeroSize_of_special (special_specialBuf whole true false)

/-! ## All three -/

/-- The write filter has nothing to alert of if and only if no buffer is without a byte. -/
theorem writeFilter_accepts_iff (out inp : List Buf) :
    (∀ error, ngxHttpWriteFilterAlerts error out inp = false) ↔ ∀ b ∈ out ++ inp, zeroSize b = false := by
  rw [List.forall_mem_append]
  simp [ngxHttpWriteFilterAlerts]

/-- The echo handler gives no buffer of size 0 to the output filter if and only if it is not asked with
`GET`, sends a header only, or has a message that is not empty.  The footer passes one on if and only if one
stays of those it is given; the parent of a subrequest, for a body without one, sends none, whatever fails.
Buffers of this kind never make the write filter alert. -/
theorem no_zero_size_iff (get headerOnly whole : Bool) (msg args : NgxStr) (comma : UInt64)
    (cf : NdgFooterConf) (flag : Nat) (calls : List BodyCall) (a : Answers) (f : Filters) (text : UInt64)
    (subHeaders : List NgxTableElt) (ctx : NdgDataHookCtx) (r : ResponseRequest) (sent : Bool) (h : Heap)
    (l : List Nat) (hheaders : ctx.status = 200 → ctx.headers ≠ 0) (howns : h.Owns ctx.body l)
    (hbody : ∀ q ∈ l, zeroSize (h.data q) = false) (hf : f.Spare ⟨text, 10⟩ l) :
    (NdgEchoHandler.SendsSized get headerOnly whole msg args comma ↔
        get = false ∨ headerOnly = true ∨ msg.len ≠ 0) ∧
      (∃ out, passed cf flag calls = some out ∧
        ((∀ b ∈ bufsOf out, zeroSize b = false) ↔
          ∀ b ∈ stays cf flag (contents calls), zeroSize b = false) ∧
        stays cf flag (contents calls) ⊆ bufsOf (contents calls)) ∧
      (∃ posted, NdgSubrequestCallback.parentPostExcept a f text subHeaders ctx r sent h = some posted ∧
        AllSent (fun b => zeroSize b = false) (attempt posted).sending.outs) ∧
      ∀ out inp : List Buf, (∀ error, ngxHttpWriteFilterAlerts error out inp = false) ↔
        ∀ b ∈ out ++ inp, zeroSize b = false := by
  refine ⟨NdgEchoHandler.sendsSized_iff get headerOnly whole msg args comma, ?_, ?_,
    writeFilter_accepts_iff⟩
  · exact ⟨_, passed_eq cf flag calls, sized_filtered_iff cf flag _, stays_subset cf flag _⟩
  · by_cases hstatus : ctx.status = 200
    · rcases parentPostExcept_spec a f text subHeaders r sent hstatus (hheaders hstatus) howns hf with
        ⟨posted, hrun, -, houts⟩
      exact ⟨posted, hrun, houts.mono fun b => zeroSize_ofResponse hbody⟩
    · exact ⟨_, if_pos hstatus, fun out hout => absurd hout List.not_mem_nil⟩

theorem no_zero_size_hello :
    NdgEchoHandler.SendsSized true false true ⟨100, 5⟩ ⟨0, 0⟩ 0 ∧
      ∃ posted, NdgSubrequestCallback.parentPostExcept willing idle 100 [] endedCtx
          ⟨-1, [], false, true⟩ false (oneLinkHeap threeBytes) = some posted ∧
        AllSent (fun b => zeroSize b = false) (attempt posted).sending.outs := by
  rcases no_zero_size_iff true false true ⟨100, 5⟩ ⟨0, 0⟩ 0 ⟨[], ⟨103, 3⟩⟩ 1 [] willing idle 100 []
    endedCtx ⟨-1, [], false, true⟩ false (oneLinkHeap threeBytes) [1] (fun _ => by decide)
    (owns_oneLinkHeap _) (by decide) (spare_idle _ _) with ⟨hecho, -, hparent, -⟩
  exact ⟨hecho.2 (Or.inr (Or.inr (by decide))), hparent⟩

/-- An empty message is sent as a buffer of size 0, which the write filter does not take. -/
theorem empty_message_rejected :
    ¬NdgEchoHandler.SendsSized true false true ⟨0, 0⟩ ⟨0, 0⟩ 0 ∧
      ngxHttpWriteFilterAlerts false [] [Send.buf true (.str ⟨0, 0⟩)] = true := by
  refine ⟨?_, by decide⟩
  rw [NdgEchoHandler.sendsSized_iff]
  decide

end Ngx
end CppPractice
