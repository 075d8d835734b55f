import CppPractice.Ngx.Headers
import CppPractice.Ngx.Response

/-!
# Footer — the filter that appends a footer to responses

`NdgFooterHandler`: the header filter adds headers and the length of the footer, the body filter puts the
footer in place of the buffer that ends the response, or after it.  A flag in the request's context says
which of the two has run.

`addFooter` is what a call of the body filter does to the buffers of the chain.
-/

namespace CppPractice
namespace Ngx

open Segment Heap

/-- `NdgFooterConf` -/
structure NdgFooterConf where
  headers : List (NgxStr × NgxStr)
  footer : NgxStr

/-- What the filter reads and writes of a request: its own flag, and the response headers. -/
structure FooterRequest where
  /-- `NdgFooterCtx::flag` -/
  flag : Nat
  headers : List NgxTableElt
  contentLengthN : Int

namespace NdgFooterHandler

def doHeaderFilter (cf : NdgFooterConf) (r : FooterRequest) : FooterRequest :=
  if r.flag ≠ 0 then
    r
  else
    let added := cf.headers.map fun header => ⟨1, header.1, header.2⟩
    let r := { r with flag := 1, headers := r.headers ++ added }
    if NgxString.empty cf.footer then
      r
    else if 0 < r.contentLengthN then
      { r with contentLengthN := toOffT (r.contentLengthN + cf.footer.len.toNat) }
    else
      r

/-- `do_body_filter`; the chain passed on is the one at `inp`, as it is then. -/
def doBodyFilter (cf : NdgFooterConf) (flag : Nat) (inp : Nat) (h : Heap) : Option (Nat × Heap) :=
  if NgxString.empty cf.footer then
    some (flag, h)
  else if flag ≠ 1 then
    some (flag, h)
  else
    match walk h.next 0 (fun p => NgxBuf.last (h.data p)) h.brk inp with
    | none => none
    | some p =>
        if p = 0 then
          some (flag, h)
        else
          let r := NgxPool.buffer h
          let h := r.2.updateBuf r.1 fun b => NgxBuf.finish true (NgxBuf.range cf.footer b)
          if NgxBuf.size (h.data p) = 0 then
            some (2, h.setBuf p r.1)
          else
            let n := NgxPool.chain h
            let h := (n.2.setBuf n.1 r.1).setNext n.1 0
            let h := h.setNext p n.1
            some (2, h.updateBuf (h.link p).buf (NgxBuf.finish false))

end NdgFooterHandler

/-! ## What a call does to the buffers -/

/-- The buffer made for the footer. -/
def footerBuf (cf : NdgFooterConf) : Buf := NgxBuf.finish true (NgxBuf.range cf.footer Buf.zero)

/-- The first buffer that ends a response is replaced by the footer if it is empty, and otherwise gives
up its flags to the footer, which then ends the chain. -/
def addFooter (footer : Buf) : List Buf → List Buf
  | [] => []
  | b :: bs =>
      if NgxBuf.last b then
        if NgxBuf.size b = 0 then footer :: bs else [NgxBuf.finish false b, footer]
      else
        b :: addFooter footer bs

/-- The call in which the filter does something. -/
def Applies (cf : NdgFooterConf) (flag : Nat) (bs : List Buf) : Prop :=
  NgxString.empty cf.footer = false ∧ flag = 1 ∧ bs.any NgxBuf.last = true

instance (cf : NdgFooterConf) (flag : Nat) (bs : List Buf) : Decidable (Applies cf flag bs) := by
  unfold Applies
  infer_instance

@[simp] theorem size_footerBuf (cf : NdgFooterConf) : NgxBuf.size (footerBuf cf) = cf.footer.len := by
  simp [footerBuf]

@[simp] theorem last_footerBuf (cf : NdgFooterConf) : NgxBuf.last (footerBuf cf) = true := by
  simp [footerBuf]

@[simp] theorem bytes_footerBuf (cf : NdgFooterConf) (mem : UInt64 → UInt8) :
    (footerBuf cf).bytes mem = cf.footer.bytes mem := by
  simp [footerBuf]

/-- Where nothing ends the response yet, there is nothing to do. -/
theorem not_applies {cf : NdgFooterConf} {flag : Nat} {bs : List Buf}
    (hnone : ∀ b ∈ bs, NgxBuf.last b = false) : ¬Applies cf flag bs := by
  rintro ⟨-, -, hany⟩
  rcases List.any_eq_true.1 hany with ⟨b, hb, hlast⟩
  rw [hnone b hb] at hlast
  cases hlast

/-- The buffers before the first one that ends a response stay. -/
theorem addFooter_append (footer : Buf) {as : List Buf} (has : ∀ a ∈ as, NgxBuf.last a = false)
    (b : Buf) (bs : List Buf) (hb : NgxBuf.last b = true) :
    addFooter footer (as ++ b :: bs) =
      if NgxBuf.size b = 0 then as ++ footer :: bs else as ++ [NgxBuf.finish false b, footer] := by
  induction as with
  | nil => simp [addFooter, hb]
  | cons a as ih =>
      have ha : NgxBuf.last a = false := has a List.mem_cons_self
      have htail := ih fun x hx => has x (List.mem_cons_of_mem a hx)
      by_cases hsize : NgxBuf.size b = 0
      · simpa [addFooter, ha, hsize] using htail
      · simpa [addFooter, ha, hsize] using htail

/-! ## The filter on the heap -/

section heap

variable {h : Heap} {p q : Nat} {l a b : List Nat}

/-- The heap once the footer's buffer has been made. -/
def withFooter (cf : NdgFooterConf) (h : Heap) : Heap :=
  (NgxPool.buffer h).2.updateBuf h.brk fun b => NgxBuf.finish true (NgxBuf.range cf.footer b)

theorem withFooter_buf (cf : NdgFooterConf) (h : Heap) :
    (withFooter cf h).buf = Function.update h.buf h.brk (footerBuf cf) := by
  simp [withFooter, NgxPool.buffer, updateBuf, footerBuf]

theorem withFooter_data (cf : NdgFooterConf) (howns : h.Owns p l) (hq : q ∈ l) :
    (withFooter cf h).data q = h.data q := by
  have hne : (h.link q).buf ≠ h.brk := Nat.ne_of_lt (howns.buf_lt q hq)
  calc
    (withFooter cf h).data q = Function.update h.buf h.brk (footerBuf cf) (h.link q).buf :=
      congrFun (withFooter_buf cf h) _
    _ = h.data q := Function.update_of_ne hne _ _

theorem withFooter_owns (cf : NdgFooterConf) (howns : h.Owns p l) : (withFooter cf h).Owns p l := by
  refine ⟨howns.chain, ?_, ?_⟩
  · exact howns.ready.congr rfl (Nat.le_succ _) fun _ _ _ => rfl
  · intro r hr
    exact Nat.lt_succ_of_lt (howns.buf_lt r hr)

/-- Another buffer in a link of the chain. -/
theorem Heap.Owns.setBuf (howns : h.Owns p l) (q : Nat) {buf : Nat} (hbuf : buf < h.brk) :
    (h.setBuf q buf).Owns p l := by
  refine ⟨?_, ?_, ?_⟩
  · simpa using howns.chain
  · exact howns.ready.congr rfl (Nat.le_refl _) fun r _ _ => by simp
  · intro r hr
    by_cases hrq : r = q
    · simpa [Heap.setBuf, hrq] using hbuf
    · simpa [Heap.setBuf, hrq] using howns.buf_lt r hr

theorem data_setBuf (h : Heap) (q buf r : Nat) :
    (h.setBuf q buf).data r = if r = q then h.buf buf else h.data r := by
  by_cases hrq : r = q
  · simp [data, Heap.setBuf, hrq]
  · simp [data, Heap.setBuf, hrq]

/-- The end of the chain after `q` replaced by a new link. -/
theorem Heap.Owns.cut (howns : h.Owns p (a ++ q :: b)) {buf : Nat} (hbuf : buf < h.brk) :
    ∃ n h' g, NgxPool.chain h = (n, h') ∧ g = ((h'.setBuf n buf).setNext n 0).setNext q n ∧
      n ∉ a ++ q :: b ∧ g.Owns p (a ++ [q, n]) ∧ g.mem = h.mem ∧ g.buf = h.buf ∧
      ∀ r, (g.link r).buf = if r = n then buf else (h.link r).buf := by
  rcases NgxPool.chain_spec howns.ready with
    ⟨n, h', hchain, hn0, hnot, hready, hnext, hlink, hbufs, hmem, hbrk⟩
  obtain ⟨g, hg⟩ : ∃ g, g = ((h'.setBuf n buf).setNext n 0).setNext q n := ⟨_, rfl⟩
  have hnq : q ≠ n := by
    rintro rfl
    exact hnot (by simp)
  -- The three writes touch the new link and `q`, so that the links before `q` lead where they did.
  have hgnext : ∀ r, g.next r = if r = q then n else if r = n then 0 else h.next r := by
    intro r
    rw [hg]
    by_cases hrq : r = q
    · simp [hrq]
    · by_cases hrn : r = n
      · simp [hrn, hnq.symm]
      · have hkept : h'.next r = h.next r := congrArg Link.next (hlink r hrn)
        simp [hrq, hrn, hkept]
  have hgbuf : ∀ r, (g.link r).buf = if r = n then buf else (h.link r).buf := by
    intro r
    rw [hg]
    by_cases hrn : r = n
    · simp [hrn, Heap.setBuf]
    · simpa [hrn, Heap.setBuf] using congrArg Link.buf (hlink r hrn)
  -- The links of `b` are no longer owned, and nothing else is lost.
  have hsub : a ++ [q, n] ⊆ n :: (a ++ q :: b) := by
    intro r hr
    simp only [List.mem_append, List.mem_cons, List.not_mem_nil, or_false] at hr ⊢
    tauto
  refine ⟨n, h', g, hchain, hg, hnot, ⟨howns.chain.cut hn0 ?_ ?_ ?_, ?_, ?_⟩, ?_, ?_, hgbuf⟩
  · intro r hr
    have hnodup := howns.chain.nodup
    rw [List.nodup_append] at hnodup
    have hrq : r ≠ q := fun heq => hnodup.2.2 r hr q List.mem_cons_self heq
    have hrn : r ≠ n := by
      rintro rfl
      exact hnot (by simp [hr])
    rw [hgnext, if_neg hrq, if_neg hrn]
  · rw [hgnext, if_pos rfl]
  · rw [hgnext, if_neg hnq.symm, if_pos rfl]
  · have hall : g.Ready (n :: (a ++ q :: b)) := by
      rw [hg]
      refine hready.congr rfl (Nat.le_refl _) ?_
      intro r hr _
      have hrn : r ≠ n := fun heq => hr (by simp [heq])
      have hrq : r ≠ q := fun heq => hr (by simp [heq])
      simp [hrn, hrq]
    exact hall.mono hsub
  · intro r hr
    have hgbrk : g.brk = h'.brk := by rw [hg]; rfl
    rw [hgbuf, hgbrk]
    by_cases hrn : r = n
    · simpa [hrn] using Nat.lt_of_lt_of_le hbuf hbrk
    · have hmemr : r ∈ a ++ q :: b := (List.mem_cons.1 (hsub hr)).resolve_left hrn
      simpa [hrn] using Nat.lt_of_lt_of_le (howns.buf_lt r hmemr) hbrk
  · rw [hg]
    exact hmem
  · rw [hg]
    exact hbufs

/-- Flags of a buffer of the chain. -/
theorem Heap.Owns.updateBuf (howns : h.Owns p l) (buf : Nat) (f : Buf → Buf) :
    (h.updateBuf buf f).Owns p l :=
  ⟨howns.chain, howns.ready.congr rfl (Nat.le_refl _) fun _ _ _ => rfl, howns.buf_lt⟩

/-- The link of the buffer that ends the response gets the footer's buffer. -/
theorem replace_spec (cf : NdgFooterConf) (howns : h.Owns p (a ++ q :: b)) :
    ((withFooter cf h).setBuf q h.brk).Owns p (a ++ q :: b) ∧
      (a ++ q :: b).map ((withFooter cf h).setBuf q h.brk).data =
        a.map h.data ++ footerBuf cf :: b.map h.data := by
  have hnodup := howns.chain.nodup
  rw [List.nodup_append, List.nodup_cons] at hnodup
  have hother : ∀ r ∈ a ++ q :: b, r ≠ q →
      ((withFooter cf h).setBuf q h.brk).data r = h.data r := by
    intro r hr hrq
    simpa [data_setBuf, hrq] using withFooter_data cf howns hr
  have hat : ((withFooter cf h).setBuf q h.brk).data q = footerBuf cf := by
    simp [data_setBuf, withFooter_buf]
  refine ⟨(withFooter_owns cf howns).setBuf q (Nat.lt_succ_self _), ?_⟩
  rw [List.map_append, List.map_cons, hat]
  congr 1
  · apply List.map_congr_left
    intro r hr
    exact hother r (by simp [hr]) fun heq => hnodup.2.2 r hr q List.mem_cons_self heq
  · congr 1
    apply List.map_congr_left
    intro r hr
    exact hother r (by simp [hr]) fun heq => hnodup.2.1.1 (heq ▸ hr)

/-- A new link with the footer's buffer follows the one that ended the response. -/
theorem append_spec (cf : NdgFooterConf) (howns : h.Owns p (a ++ q :: b))
    (ha : ∀ r ∈ a, NgxBuf.last (h.data r) = false) (hq : NgxBuf.last (h.data q) = true) :
    ∃ n h' g, NgxPool.chain (withFooter cf h) = (n, h') ∧
      g = ((h'.setBuf n h.brk).setNext n 0).setNext q n ∧ g.mem = h.mem ∧
      (g.updateBuf (g.link q).buf (NgxBuf.finish false)).Owns p (a ++ [q, n]) ∧
      (a ++ [q, n]).map (g.updateBuf (g.link q).buf (NgxBuf.finish false)).data =
        a.map h.data ++ [NgxBuf.finish false (h.data q), footerBuf cf] := by
  rcases (withFooter_owns cf howns).cut (Nat.lt_succ_self h.brk) with
    ⟨n, h', g, hchain, hg, hnot, hgowns, hmem, hbufs, hlink⟩
  have hbuf : ∀ r, r ∈ a ++ q :: b → (g.link r).buf = (h.link r).buf ∧ (h.link r).buf ≠ h.brk := by
    intro r hr
    have hrn : r ≠ n := by
      rintro rfl
      exact hnot hr
    exact ⟨by rw [hlink, if_neg hrn]; rfl, Nat.ne_of_lt (howns.buf_lt r hr)⟩
  have hgdata : ∀ r ∈ a ++ q :: b, g.data r = h.data r := by
    intro r hr
    calc
      g.data r = (withFooter cf h).buf (h.link r).buf := by rw [data, hbufs, (hbuf r hr).1]
      _ = h.data r := withFooter_data cf howns hr
  have hqmem : q ∈ a ++ q :: b := by simp
  refine ⟨n, h', g, hchain, hg, hmem, hgowns.updateBuf _ _, ?_⟩
  -- the flags are taken from one buffer; a link before it holds another, which has none
  have hbefore : ∀ r ∈ a,
      (g.updateBuf (g.link q).buf (NgxBuf.finish false)).data r = h.data r := by
    intro r hr
    have hrmem : r ∈ a ++ q :: b := by simp [hr]
    have hne : (g.link r).buf ≠ (g.link q).buf := by
      intro heq
      have hsame : h.data r = h.data q := by
        rw [← hgdata r hrmem, ← hgdata q hqmem, data, heq]
        rfl
      have hlast := ha r hr
      rw [hsame, hq] at hlast
      cases hlast
    calc
      (g.updateBuf (g.link q).buf (NgxBuf.finish false)).data r = g.data r :=
        Function.update_of_ne hne _ _
      _ = h.data r := hgdata r hrmem
  have hatq : (g.updateBuf (g.link q).buf (NgxBuf.finish false)).data q =
      NgxBuf.finish false (h.data q) := by
    calc
      (g.updateBuf (g.link q).buf (NgxBuf.finish false)).data q = NgxBuf.finish false (g.data q) :=
        Function.update_self _ _ _
      _ = NgxBuf.finish false (h.data q) := by rw [hgdata q hqmem]
  have hatn : (g.updateBuf (g.link q).buf (NgxBuf.finish false)).data n = footerBuf cf := by
    have hnbuf : (g.link n).buf = h.brk := by rw [hlink, if_pos rfl]
    have hne : (g.link n).buf ≠ (g.link q).buf := by
      rw [hnbuf, (hbuf q hqmem).1]
      exact (hbuf q hqmem).2.symm
    calc
      (g.updateBuf (g.link q).buf (NgxBuf.finish false)).data n = g.buf (g.link n).buf :=
        Function.update_of_ne hne _ _
      _ = footerBuf cf := by rw [hnbuf, hbufs, withFooter_buf, Function.update_self]
  rw [List.map_append, List.map_congr_left hbefore]
  simp [hatq, hatn]

/-- What becomes of the buffers when that of `q` is the first to end the response. -/
theorem addFooter_map {footer : Buf} (ha : ∀ r ∈ a, NgxBuf.last (h.data r) = false)
    (hq : NgxBuf.last (h.data q) = true) :
    addFooter footer ((a ++ q :: b).map h.data) =
      if NgxBuf.size (h.data q) = 0 then a.map h.data ++ footer :: b.map h.data
      else a.map h.data ++ [NgxBuf.finish false (h.data q), footer] := by
  rw [List.map_append, List.map_cons]
  exact addFooter_append _ (by simpa using ha) _ _ hq

/-- One call of `do_body_filter` does to the buffers of the chain what `addFooter` does. -/
theorem doBodyFilter_spec (cf : NdgFooterConf) (flag : Nat) (howns : h.Owns p l) :
    ∃ g m, NdgFooterHandler.doBodyFilter cf flag p h =
        some (if Applies cf flag (l.map h.data) then 2 else flag, g) ∧
      g.mem = h.mem ∧ g.Owns p m ∧
      m.map g.data = if Applies cf flag (l.map h.data) then
        addFooter (footerBuf cf) (l.map h.data) else l.map h.data := by
  unfold NdgFooterHandler.doBodyFilter
  cases hempty : NgxString.empty cf.footer with
  | true => exact ⟨h, l, by simp [Applies, hempty], rfl, howns, by simp [Applies, hempty]⟩
  | false =>
      by_cases hflag : flag = 1
      · subst hflag
        have hwalk := walk_chain (fun q => NgxBuf.last (h.data q)) howns.chain
          (length_le_brk howns.chain howns.ready)
        simp only [Bool.false_eq_true, if_false, ne_eq, not_true_eq_false, hwalk]
        cases hfind : l.find? fun q => NgxBuf.last (h.data q) with
        | none =>
            -- nothing ends the response yet
            have hnone : ∀ b ∈ l.map h.data, NgxBuf.last b = false := by
              simpa using List.find?_eq_none.1 hfind
            have hnot : ¬Applies cf 1 (l.map h.data) := not_applies hnone
            refine ⟨h, l, ?_, rfl, howns, ?_⟩
            · simp [hnot]
            · rw [if_neg hnot]
        | some q =>
            rcases List.find?_eq_some_iff_append.1 hfind with ⟨hq, a, b, rfl, ha⟩
            have ha' : ∀ r ∈ a, NgxBuf.last (h.data r) = false := by simpa using ha
            have hne : q ≠ 0 := by
              rintro rfl
              exact howns.chain.null_notMem (by simp)
            have happlies : Applies cf 1 ((a ++ q :: b).map h.data) :=
              ⟨hempty, rfl, by simp [hq]⟩
            have hsame : (withFooter cf h).data q = h.data q := withFooter_data cf howns (by simp)
            rw [if_pos happlies, if_pos happlies, addFooter_map ha' hq]
            simp only [Option.getD_some, hne, if_false]
            change ∃ g m, (if NgxBuf.size ((withFooter cf h).data q) = 0 then _ else _) = _ ∧ _
            rw [hsame]
            by_cases hsize : NgxBuf.size (h.data q) = 0
            · rcases replace_spec cf howns with ⟨howns', hmap⟩
              refine ⟨_, _, if_pos hsize, rfl, howns', ?_⟩
              rw [if_pos hsize]
              exact hmap
            · rcases append_spec cf howns ha' hq with
                ⟨n, h', g, hchain, hg, hmem, howns', hmap⟩
              refine ⟨g.updateBuf (g.link q).buf (NgxBuf.finish false), _, ?_, hmem, howns', ?_⟩
              · obtain rfl : (NgxPool.chain (withFooter cf h)).1 = n := congrArg Prod.fst hchain
                obtain rfl : (NgxPool.chain (withFooter cf h)).2 = h' := congrArg Prod.snd hchain
                rw [if_neg hsize, hg]
                rfl
              · rw [if_neg hsize]
                exact hmap
      · exact ⟨h, l, by simp [Applies, hflag], rfl, howns, by simp [Applies, hflag]⟩

end heap

end Ngx
end CppPractice
