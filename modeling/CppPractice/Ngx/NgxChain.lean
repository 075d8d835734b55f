import CppPractice.Lib.Trace
import CppPractice.Ngx.BufPointers

/-!
# NgxChain — chains of buffers

What `NgxChain` does to the links of a chain and to their buffers: sizes, copying, appending, and giving
links back to the pool, where `ngx_alloc_chain_link` takes them from.
-/

namespace CppPractice
namespace Ngx

open Segment Heap

/-- In memory, or special and without a part of a file. -/
def MemoryOrSpecial (b : Buf) : Prop :=
  ngxBufInMemory b = true ∨ (ngxBufSpecial b = true ∧ b.filePos = b.fileLast)

instance (b : Buf) : Decidable (MemoryOrSpecial b) := by
  unfold MemoryOrSpecial
  infer_instance

/-- The bytes of a body. -/
def bodyBytes (h : Heap) (l : List Nat) : List UInt8 := l.flatMap fun q => (h.data q).bytes h.mem

/-- `ngx_free_chain(pool, cl)` -/
def ngxFreeChain (cl : Nat) (h : Heap) : Heap :=
  { h.setNext cl h.poolChain with poolChain := cl }

namespace NgxChain

/-- `NgxChain::size()` -/
def size (chain : Nat) (h : Heap) : Option UInt64 :=
  forEach (fun _ => h.next) 0 (fun p len => len + NgxBuf.size (h.data p)) h.brk chain 0

/-- `for(;p->next;p = p->next);`, which reads the link of a null pointer too. -/
def tailLoop (h : Heap) : Nat → Nat → Option Nat
  | 0, p => if p = 0 then none else if h.next p = 0 then some p else none
  | fuel + 1, p =>
      if p = 0 then none else if h.next p = 0 then some p else tailLoop h fuel (h.next p)

def tail (chain : Nat) (h : Heap) : Option Nat := tailLoop h h.brk chain

/-- `append(ch)` -/
def append (chain ch : Nat) (h : Heap) : Option Heap := do
  let p ← tail chain h
  return h.setNext p ch

def clear (chain : Nat) (h : Heap) : Option Heap :=
  forEach (fun h => h.next) 0 (fun q h => h.updateBuf (h.link q).buf NgxBuf.clear) h.brk chain h

/-- The body of the loop of `copy`: the place to go on at, and the heap. -/
def copyBuf (q : Nat) (s : UInt64 × Heap) : UInt64 × Heap :=
  let b := s.2.data q
  let bytes := readBytes s.2.mem b.pos (NgxBuf.size b).toNat
  (s.1 + NgxBuf.size b, { s.2 with mem := writeBytes s.2.mem s.1 bytes })

/-- `copy(p)` -/
def copy (chain : Nat) (p : UInt64) (h : Heap) : Option Heap :=
  (forEach (fun s => s.2.next) 0 copyBuf h.brk chain (p, h)).map Prod.snd

/-- `for(;iter && iter != sentinel;) { auto cur = iter; ++iter; cur->free(pool); }` -/
def freeLoop (pos : Nat) : Nat → Nat → Heap → Option Heap
  | 0, iter, h => if iter = 0 ∨ iter = pos then some h else none
  | fuel + 1, iter, h =>
      if iter = 0 ∨ iter = pos then some h
      else freeLoop pos fuel (h.next iter) (ngxFreeChain iter h)

/-- `free(pool, pos)` -/
def free (chain pos : Nat) (h : Heap) : Option (Nat × Heap) :=
  (freeLoop pos h.brk chain h).map fun h => (pos, h)

end NgxChain

/-! ## Sizes -/

/-- A buffer in memory has as many bytes as its size says, and a special one has none. -/
theorem size_eq_length (mem : UInt64 → UInt8) {b : Buf} (hb : MemoryOrSpecial b) :
    (NgxBuf.size b).toNat = (b.bytes mem).length := by
  rcases hb with hmemory | ⟨hspecial, hfile⟩
  · exact (length_bytes mem hmemory).symm
  · have hnot : ngxBufInMemory b = false := by
      simp only [ngxBufSpecial, Bool.and_eq_true, Bool.not_eq_true'] at hspecial
      exact hspecial.1.2
    simp [NgxBuf.size, ngxBufSize, Buf.bytes, hnot, hfile]

/-- A sum of sizes is that of the numbers, as a `size_t`. -/
theorem foldl_size (size : Nat → UInt64) (l : List Nat) (len : UInt64) :
    (l.foldl (fun len q => len + size q) len).toNat =
      (len.toNat + (l.map fun q => (size q).toNat).sum) % 2 ^ 64 := by
  induction l generalizing len with
  | nil => simp
  | cons q l ih =>
      simp only [List.foldl_cons, ih, UInt64.toNat_add, List.map_cons, List.sum_cons]
      rw [Nat.mod_add_mod, Nat.add_assoc]

theorem NgxChain.size_eq {h : Heap} {p : Nat} {l : List Nat} (hchain : Chain h.next 0 p l)
    (hlength : l.length ≤ h.brk) :
    NgxChain.size p h = some (l.foldl (fun len q => len + NgxBuf.size (h.data q)) 0) :=
  forEach_const hchain hlength

theorem toNat_foldl_size {h : Heap} {l : List Nat} (hmemory : ∀ q ∈ l, MemoryOrSpecial (h.data q)) :
    (l.foldl (fun len q => len + NgxBuf.size (h.data q)) 0).toNat =
      (bodyBytes h l).length % 2 ^ 64 := by
  have hsum : (l.map fun q => (NgxBuf.size (h.data q)).toNat).sum = (bodyBytes h l).length := by
    rw [bodyBytes, List.length_flatMap]
    apply congrArg List.sum
    apply List.map_congr_left
    exact fun q hq => size_eq_length h.mem (hmemory q hq)
  rw [foldl_size (fun q => NgxBuf.size (h.data q)), hsum]
  simp

theorem NgxChain.size_spec {h : Heap} {p : Nat} {l : List Nat} (howns : h.Owns p l)
    (hmemory : ∀ q ∈ l, MemoryOrSpecial (h.data q)) :
    ∃ len, NgxChain.size p h = some len ∧ len.toNat = (bodyBytes h l).length % 2 ^ 64 :=
  ⟨_, size_eq howns.chain (length_le_brk howns.chain howns.ready), toNat_foldl_size hmemory⟩

/-! ## Chains of buffers in memory -/

structure InMemory (h : Heap) (chain : Nat) (l : List Nat) : Prop where
  chain : Chain h.next 0 chain l
  lt_brk : ∀ q ∈ l, q < h.brk
  memory : ∀ q ∈ l, ngxBufInMemory (h.data q) = true

/-- There is memory for the bytes of the chain at `p`, and it is not that of the buffers. -/
structure Room (h : Heap) (l : List Nat) (p : UInt64) : Prop where
  fits : p.toNat + (bodyBytes h l).length < 2 ^ 64
  outside : ∀ q ∈ l, ∀ i < (NgxBuf.size (h.data q)).toNat,
    Outside p (bodyBytes h l).length ((h.data q).pos + UInt64.ofNat i)

/-- Wherever there is room, the copy writes `size()` bytes, which are these, and nothing else. -/
def Copies (h : Heap) (chain : Nat) (l : List Nat) (bytes : List UInt8) : Prop :=
  ∀ p, Room h l p → ∃ g size, NgxChain.copy chain p h = some g ∧ NgxChain.size chain h = some size ∧
    size.toNat = bytes.length ∧ readBytes g.mem p size.toNat = bytes ∧
    (∀ a, Outside p size.toNat a → g.mem a = h.mem a) ∧ g.link = h.link ∧ g.buf = h.buf

section memory

variable {h : Heap} {chain ch : Nat} {l m : List Nat} {p : UInt64}

theorem InMemory.length_le (hl : InMemory h chain l) : l.length ≤ h.brk := by
  have hsub : l ⊆ List.range h.brk := fun q hq => List.mem_range.2 (hl.lt_brk q hq)
  simpa using (List.Nodup.subperm hl.chain.nodup hsub).length_le

theorem bodyBytes_append (h : Heap) (l m : List Nat) :
    bodyBytes h (l ++ m) = bodyBytes h l ++ bodyBytes h m :=
  List.flatMap_append

theorem bodyBytes_congr {g : Heap} (hdata : ∀ q ∈ l, g.data q = h.data q) (hmem : g.mem = h.mem) :
    bodyBytes g l = bodyBytes h l := by
  refine List.flatMap_congr fun q hq => ?_
  rw [hdata q hq, hmem]

theorem copyBuf_mem (h : Heap) (mem : UInt64 → UInt8) (q : Nat) (p : UInt64) :
    NgxChain.copyBuf q (p, { h with mem := mem }) =
      (p + NgxBuf.size (h.data q),
        { h with
          mem := writeBytes mem p
            (readBytes mem (h.data q).pos (NgxBuf.size (h.data q)).toNat) }) :=
  rfl

/-- The loop of `copy` once the buffers of some links have been copied. -/
def copied (h : Heap) (p : UInt64) (before : List Nat) : UInt64 × Heap :=
  (p + UInt64.ofNat (bodyBytes h before).length,
    { h with mem := writeBytes h.mem p (bodyBytes h before) })

theorem copyBuf_copied {before after : List Nat} {q : Nat} (hl : l = before ++ q :: after)
    (hmemory : ∀ q ∈ l, ngxBufInMemory (h.data q) = true) (hroom : Room h l p) :
    NgxChain.copyBuf q (copied h p before) = copied h p (before ++ [q]) := by
  have hq : q ∈ l := by simp [hl]
  have hsize : NgxBuf.size (h.data q) = (h.data q).last - (h.data q).pos := by
    rw [NgxBuf.size, ngxBufSize, if_pos (hmemory q hq)]
  have htotal : (bodyBytes h before).length + ((h.data q).bytes h.mem).length ≤
      (bodyBytes h l).length := by
    rw [hl, bodyBytes_append, bodyBytes, bodyBytes, List.flatMap_cons, List.length_append,
      List.length_append]
    omega
  have hlt := Nat.lt_of_le_of_lt (Nat.le_add_left _ _) hroom.fits
  -- What is to be read has not been written on.
  have hread : readBytes (writeBytes h.mem p (bodyBytes h before)) (h.data q).pos
      (NgxBuf.size (h.data q)).toNat = (h.data q).bytes h.mem := by
    rw [Buf.bytes, if_pos (hmemory q hq), ← hsize]
    refine readBytes_congr fun i hi => writeBytes_outside ?_ h.mem
    exact Nat.le_trans (Nat.le_trans (Nat.le_add_right _ _) htotal) (hroom.outside q hq i hi)
  have hbytes : bodyBytes h (before ++ [q]) = bodyBytes h before ++ (h.data q).bytes h.mem := by
    rw [bodyBytes_append]
    simp [bodyBytes]
  have hnext : UInt64.ofNat (bodyBytes h before).length + NgxBuf.size (h.data q) =
      UInt64.ofNat (bodyBytes h (before ++ [q])).length := by
    rw [hbytes, List.length_append, length_bytes h.mem (hmemory q hq), UInt64.ofNat_add,
      UInt64.ofNat_toNat]
  have hwrite := writeBytes_append h.mem p (Nat.lt_of_le_of_lt htotal hlt)
  rw [copied, copied, copyBuf_mem, hread, hwrite, ← hbytes, UInt64.add_assoc, hnext]

theorem InMemory.copy_eq (hl : InMemory h chain l) (hroom : Room h l p) :
    NgxChain.copy chain p h = some { h with mem := writeBytes h.mem p (bodyBytes h l) } := by
  have hstart : (p, h) = copied h p [] := by simp [copied, bodyBytes]
  have hstep : ∀ before q after (t : UInt64 × Heap), l = before ++ q :: after → t = copied h p before →
      NgxChain.copyBuf q t = copied h p (before ++ [q]) ∧
        ∀ r ∈ q :: after, (NgxChain.copyBuf q t).2.next r = t.2.next r := by
    rintro before q after t hsplit rfl
    exact ⟨copyBuf_copied hsplit hl.memory hroom, fun _ _ => rfl⟩
  have hloop : ∃ t, forEach (fun s : UInt64 × Heap => s.2.next) 0 NgxChain.copyBuf h.brk chain (p, h) =
      some t ∧ t = copied h p l :=
    forEach_rule (I := fun before _ t => t = copied h p before) hstep hstart hl.chain hl.length_le
  rcases hloop with ⟨t, hrun, rfl⟩
  rw [NgxChain.copy, hrun]
  rfl

theorem InMemory.copies (hl : InMemory h chain l) : Copies h chain l (bodyBytes h l) := by
  intro p hroom
  have hlt := Nat.lt_of_le_of_lt (Nat.le_add_left _ _) hroom.fits
  have hsize := toNat_foldl_size (h := h) fun q hq => Or.inl (hl.memory q hq)
  rw [Nat.mod_eq_of_lt hlt] at hsize
  refine ⟨_, _, hl.copy_eq hroom, NgxChain.size_eq hl.chain hl.length_le, hsize, ?_, ?_, rfl, rfl⟩
  · rw [hsize]
    exact readBytes_writeBytes h.mem p hlt
  · intro a ha
    rw [hsize] at ha
    exact writeBytes_outside ha h.mem

/-! ### append -/

theorem tailLoop_spec {init : List Nat} {last fuel : Nat} (hchain : Chain h.next 0 chain (init ++ [last]))
    (hfuel : init.length ≤ fuel) : NgxChain.tailLoop h fuel chain = some last := by
  induction init generalizing chain fuel with
  | nil =>
      rcases hchain.cons_inv with ⟨rfl, hne, hend⟩
      have hnext : h.next chain = 0 := hend.eq_null_of_nil
      cases fuel <;> simp [NgxChain.tailLoop, hne, hnext]
  | cons q init ih =>
      rcases hchain.cons_inv with ⟨rfl, hne, htail⟩
      cases fuel with
      | zero => cases hfuel
      | succ fuel =>
          have hnext : h.next chain ≠ 0 := by
            intro hzero
            rw [hzero] at htail
            have hnil : init ++ [last] = [] := htail.unique (Chain.nil _ 0)
            simp at hnil
          simpa [NgxChain.tailLoop, hne, hnext] using ih htail (Nat.le_of_succ_le_succ hfuel)

/-- The second chain follows the last link of the first. -/
theorem InMemory.append (hl : InMemory h chain l) (hm : InMemory h ch m) (hdisj : l.Disjoint m)
    (hne : chain ≠ 0) :
    ∃ g, NgxChain.append chain ch h = some g ∧ InMemory g chain (l ++ m) ∧
      (∀ q, g.data q = h.data q) ∧ g.mem = h.mem := by
  rcases List.eq_nil_or_concat l with rfl | ⟨init, last, rfl⟩
  · exact absurd hl.chain.eq_null_of_nil hne
  · rw [List.concat_eq_append] at hl hdisj ⊢
    have hlength : init.length ≤ h.brk := by
      have hle := hl.length_le
      rw [List.length_append] at hle
      exact Nat.le_trans (Nat.le_add_right _ _) hle
    have htail : NgxChain.tail chain h = some last := tailLoop_spec hl.chain hlength
    have hnext : (h.setNext last ch).next = Function.update h.next last ch := next_setNext h last ch
    have hdata : ∀ q, (h.setNext last ch).data q = h.data q := by
      intro q
      rw [data, buf_link_setNext]
      rfl
    have hlast : last ∉ m := fun hmem => hdisj (by simp) hmem
    have hfirst : Path (Function.update h.next last ch) chain (init ++ [last]) ch :=
      (Slot.After.behind (Path.concat_iff.1 hl.chain.path).1).fill hl.chain.nodup ch
    refine ⟨h.setNext last ch, ?_, ⟨⟨?_, ?_⟩, ?_, ?_⟩, hdata, rfl⟩
    · rw [NgxChain.append, htail]
      rfl
    · rw [hnext]
      exact hfirst.append (hm.chain.path.update hlast ch)
    · rw [List.mem_append, not_or]
      exact ⟨hl.chain.null_notMem, hm.chain.null_notMem⟩
    · exact fun q hq => (List.mem_append.1 hq).elim (hl.lt_brk q) (hm.lt_brk q)
    · intro q hq
      rw [hdata]
      exact (List.mem_append.1 hq).elim (hl.memory q) (hm.memory q)

theorem foldl_size_append (size : Nat → UInt64) (l m : List Nat) :
    (l ++ m).foldl (fun len q => len + size q) 0 =
      l.foldl (fun len q => len + size q) 0 + m.foldl (fun len q => len + size q) 0 := by
  apply UInt64.toNat_inj.1
  simp only [List.foldl_append, UInt64.toNat_add, foldl_size, UInt64.toNat_zero, Nat.zero_add,
    Nat.mod_add_mod, Nat.add_mod_mod]

/-! ### clear -/

theorem clear_clear (b : Buf) : NgxBuf.clear (NgxBuf.clear b) = NgxBuf.clear b := rfl

theorem size_clear {b : Buf} (hmemory : ngxBufInMemory b = true) : NgxBuf.size (NgxBuf.clear b) = 0 := by
  have hmemory' : ngxBufInMemory (NgxBuf.clear b) = true := hmemory
  rw [NgxBuf.size, ngxBufSize, if_pos hmemory']
  exact UInt64.sub_self _

/-- The buffers of some links have been cleared, whether or not links share one. -/
structure Cleared (h g : Heap) (before : List Nat) : Prop where
  link : g.link = h.link
  mem : g.mem = h.mem
  brk : g.brk = h.brk
  buf : ∀ c, g.buf c = h.buf c ∨ g.buf c = NgxBuf.clear (h.buf c)
  done : ∀ q ∈ before, g.data q = NgxBuf.clear (h.data q)

theorem Cleared.step {g : Heap} {before : List Nat} (hg : Cleared h g before) (q : Nat) :
    Cleared h (g.updateBuf (g.link q).buf NgxBuf.clear) (before ++ [q]) := by
  have hbuf : ∀ c, c = (g.link q).buf →
      (g.updateBuf (g.link q).buf NgxBuf.clear).buf c = NgxBuf.clear (h.buf c) := by
    rintro c rfl
    show Function.update g.buf (g.link q).buf (NgxBuf.clear (g.buf (g.link q).buf)) (g.link q).buf = _
    rw [Function.update_self]
    rcases hg.buf (g.link q).buf with hsame | hclear
    · rw [hsame]
    · rw [hclear, clear_clear]
  have hother : ∀ c, c ≠ (g.link q).buf →
      (g.updateBuf (g.link q).buf NgxBuf.clear).buf c = g.buf c :=
    fun c hc => Function.update_of_ne hc _ _
  refine ⟨hg.link, hg.mem, hg.brk, ?_, ?_⟩
  · intro c
    by_cases hc : c = (g.link q).buf
    · exact Or.inr (hbuf c hc)
    · rw [hother c hc]
      exact hg.buf c
  · intro r hr
    by_cases hc : (g.link r).buf = (g.link q).buf
    · have hlink : (h.link r).buf = (g.link r).buf := by rw [hg.link]
      rw [data, data, hlink]
      exact hbuf _ hc
    · have hrq : r ∈ before := by
        refine (List.mem_append.1 hr).resolve_right fun hmem => hc ?_
        rw [List.mem_singleton.1 hmem]
      rw [← hg.done r hrq]
      exact hother _ hc

theorem InMemory.clear (hl : InMemory h chain l) :
    ∃ g, NgxChain.clear chain h = some g ∧ Cleared h g l := by
  have hstart : Cleared h h [] := ⟨rfl, rfl, rfl, fun _ => Or.inl rfl, fun _ hq => nomatch hq⟩
  exact forEach_rule (I := fun before _ g => Cleared h g before)
    (fun before q after g _ hg => ⟨hg.step q, fun _ _ => rfl⟩) hstart hl.chain hl.length_le

theorem Cleared.inMemory {g : Heap} (hg : Cleared h g l) (hl : InMemory h chain l) :
    InMemory g chain l where
  chain := hl.chain.congr fun q _ => by rw [Heap.next, Heap.next, hg.link]
  lt_brk q hq := by
    rw [hg.brk]
    exact hl.lt_brk q hq
  memory q hq := by
    rw [hg.done q hq]
    exact hl.memory q hq

/-- Sizes and copies agree, before and after the other chain is appended to one with links; and nothing is
left to copy after a `clear`. -/
theorem sizes_copies_agree (hl : InMemory h chain l) (hm : InMemory h ch m) (hdisj : l.Disjoint m) :
    Copies h chain l (bodyBytes h l) ∧
      (chain ≠ 0 → ∃ g n n', NgxChain.append chain ch h = some g ∧ NgxChain.size chain h = some n ∧
        NgxChain.size ch h = some n' ∧ NgxChain.size chain g = some (n + n') ∧
        Chain g.next 0 chain (l ++ m) ∧ Copies g chain (l ++ m) (bodyBytes h l ++ bodyBytes h m)) ∧
      ∃ g, NgxChain.clear chain h = some g ∧ NgxChain.size chain g = some 0 ∧
        (∀ p, NgxChain.copy chain p g = some g) ∧ g.link = h.link ∧ Chain g.next 0 chain l := by
  refine ⟨hl.copies, fun hne => ?_, ?_⟩
  · rcases hl.append hm hdisj hne with ⟨g, happend, hg, hdata, hmem⟩
    have hsizes : (fun q => NgxBuf.size (g.data q)) = fun q => NgxBuf.size (h.data q) :=
      funext fun q => congrArg NgxBuf.size (hdata q)
    have hbytes : bodyBytes g (l ++ m) = bodyBytes h l ++ bodyBytes h m := by
      rw [bodyBytes_congr (fun q _ => hdata q) hmem, bodyBytes_append]
    refine ⟨g, _, _, happend, NgxChain.size_eq hl.chain hl.length_le,
      NgxChain.size_eq hm.chain hm.length_le, ?_, hg.chain, hbytes ▸ hg.copies⟩
    rw [NgxChain.size_eq hg.chain hg.length_le, ← foldl_size_append fun q => NgxBuf.size (h.data q)]
    exact congrArg (fun size => some ((l ++ m).foldl (fun len q => len + size q) 0)) hsizes
  · rcases hl.clear with ⟨g, hclear, hg⟩
    have hin := hg.inMemory hl
    have hzero : ∀ q ∈ l, NgxBuf.size (g.data q) = 0 := by
      intro q hq
      rw [hg.done q hq, size_clear (hl.memory q hq)]
    have hnothing : bodyBytes g l = [] :=
      List.flatMap_eq_nil_iff.2 fun q hq => bytes_of_size_zero g.mem (hzero q hq)
    refine ⟨g, hclear, ?_, fun p => ?_, hg.link, hin.chain⟩
    · rw [NgxChain.size_eq hin.chain hin.length_le, Option.some.injEq]
      apply UInt64.toNat_inj.1
      rw [toNat_foldl_size fun q hq => Or.inl (hin.memory q hq), hnothing]
      rfl
    · have hroom : Room g l p := by
        refine ⟨?_, fun q hq i hi => ?_⟩
        · rw [hnothing]
          exact p.toNat_lt
        · rw [hzero q hq] at hi
          exact absurd hi (Nat.not_lt_zero i)
      rw [hin.copy_eq hroom, hnothing, writeBytes_nil]

end memory

/-- Three bytes, an empty buffer and two bytes: a chain of the first two, and one of the third. -/
def twoChains : Heap where
  link q := if q = 1 then ⟨1, 2⟩ else if q = 2 then ⟨2, 0⟩ else ⟨3, 0⟩
  buf b :=
    if b = 1 then NgxBuf.range ⟨100, 3⟩ Buf.zero
    else if b = 2 then NgxBuf.range ⟨100, 0⟩ Buf.zero
    else NgxBuf.range ⟨200, 2⟩ Buf.zero
  mem a := a.toUInt8
  poolChain := 0
  brk := 4

theorem twoChains_first : InMemory twoChains 1 [1, 2] where
  chain := Chain.cons (by decide) (Chain.cons (by decide) (Chain.nil _ 0))
  lt_brk := by decide
  memory := by decide

theorem twoChains_second : InMemory twoChains 3 [3] where
  chain := Chain.cons (by decide) (Chain.nil _ 0)
  lt_brk := by decide
  memory := by decide

theorem sizes_copies_agree_twoChains :
    Copies twoChains 1 [1, 2] (bodyBytes twoChains [1, 2]) ∧
      (∃ g n n', NgxChain.append 1 3 twoChains = some g ∧ NgxChain.size 1 twoChains = some n ∧
        NgxChain.size 3 twoChains = some n' ∧ NgxChain.size 1 g = some (n + n') ∧
        Chain g.next 0 1 ([1, 2] ++ [3]) ∧
        Copies g 1 ([1, 2] ++ [3]) (bodyBytes twoChains [1, 2] ++ bodyBytes twoChains [3])) ∧
      ∃ g, NgxChain.clear 1 twoChains = some g ∧ NgxChain.size 1 g = some 0 ∧
        (∀ p, NgxChain.copy 1 p g = some g) ∧ g.link = twoChains.link ∧ Chain g.next 0 1 [1, 2] := by
  rcases sizes_copies_agree twoChains_first twoChains_second (by simp) with ⟨hcopies, happend, hclear⟩
  exact ⟨hcopies, happend (by decide), hclear⟩

/-- A chain without links has no last one. -/
theorem append_to_null :
    InMemory twoChains 0 [] ∧ InMemory twoChains 3 [3] ∧ NgxChain.append 0 3 twoChains = none :=
  ⟨⟨Chain.nil _ 0, by decide, by decide⟩, twoChains_second, by decide⟩

/-! ## Giving links back -/

section free

variable {h : Heap} {chain pos iter fuel : Nat} {l frees : List Nat}

/-- What has become of a heap in which the links of `l` before `pos` were given back, those of `frees`
being free before. -/
structure Freed (h g : Heap) (pos : Nat) (l frees : List Nat) : Prop where
  pool : Chain g.next 0 g.poolChain ((l.takeWhile (· != pos)).reverse ++ frees)
  rest : Chain g.next 0 pos (l.dropWhile (· != pos))
  link : ∀ q, q ∉ l.takeWhile (· != pos) → g.link q = h.link q
  buf_link : ∀ q, (g.link q).buf = (h.link q).buf
  others : g.buf = h.buf ∧ g.mem = h.mem ∧ g.brk = h.brk

theorem next_ngxFreeChain (cl : Nat) (h : Heap) :
    (ngxFreeChain cl h).next = Function.update h.next cl h.poolChain :=
  next_setNext h cl h.poolChain

/-- The chain behind a link that is given back stays, and the link is the first of the free ones. -/
theorem chains_ngxFreeChain {cl : Nat} (hcl : cl ≠ 0) (htail : Chain h.next 0 iter l) (hl : cl ∉ l)
    (hpool : Chain h.next 0 h.poolChain frees) (hfrees : cl ∉ frees) :
    Chain (ngxFreeChain cl h).next 0 iter l ∧
      Chain (ngxFreeChain cl h).next 0 (ngxFreeChain cl h).poolChain (cl :: frees) := by
  have hnext := next_ngxFreeChain cl h
  constructor
  · rw [hnext]
    exact ⟨htail.path.update hl _, htail.null_notMem⟩
  · apply Chain.cons hcl
    rw [hnext, Function.update_self]
    exact ⟨hpool.path.update hfrees _, hpool.null_notMem⟩

/-- A loop that stops at its first link has given nothing back. -/
theorem Freed.stop (hchain : Chain h.next 0 pos (pos :: l)) (hpool : Chain h.next 0 h.poolChain frees) :
    Freed h h pos (pos :: l) frees where
  pool := by simpa using hpool
  rest := by simpa using hchain
  link _ _ := rfl
  buf_link _ := rfl
  others := ⟨rfl, rfl, rfl⟩

/-- What the loop does after a link was given back is, with that link, what it does in all. -/
theorem Freed.cons {g : Heap} {cl : Nat} (hg : Freed (ngxFreeChain cl h) g pos l (cl :: frees))
    (hcl : cl ≠ pos) : Freed h g pos (cl :: l) frees := by
  have htake : (cl :: l).takeWhile (· != pos) = cl :: l.takeWhile (· != pos) := by
    simp [hcl]
  have hdrop : (cl :: l).dropWhile (· != pos) = l.dropWhile (· != pos) := by
    simp [hcl]
  refine ⟨?_, ?_, ?_, ?_, hg.others⟩
  · rw [htake, List.reverse_cons, List.append_assoc, List.singleton_append]
    exact hg.pool
  · rw [hdrop]
    exact hg.rest
  · intro r hr
    rw [htake, List.mem_cons, not_or] at hr
    rw [hg.link r hr.2]
    exact Function.update_of_ne hr.1 _ _
  · intro r
    rw [hg.buf_link r]
    exact buf_link_setNext h cl h.poolChain r

theorem freeLoop_spec (hchain : Chain h.next 0 iter l) (hpos : pos = 0 ∨ pos ∈ l)
    (hpool : Chain h.next 0 h.poolChain frees) (hdisj : l.Disjoint frees) (hfuel : l.length ≤ fuel) :
    ∃ g, NgxChain.freeLoop pos fuel iter h = some g ∧ Freed h g pos l frees := by
  -- On the links to come; those that were given back are in `frees` by then.
  induction l generalizing h iter frees fuel with
  | nil =>
      have hiter : iter = 0 := hchain.eq_null_of_nil
      have hzero : pos = 0 := hpos.resolve_right List.not_mem_nil
      refine ⟨h, ?_, ⟨hpool, ?_, fun _ _ => rfl, fun _ => rfl, rfl, rfl, rfl⟩⟩
      · cases fuel <;> simp [NgxChain.freeLoop, hiter]
      · rw [hzero]
        exact Chain.nil _ 0
  | cons q l ih =>
      rcases hchain.cons_inv with ⟨rfl, hne, htail⟩
      cases fuel with
      | zero => cases hfuel
      | succ fuel =>
          by_cases hstop : iter = pos
          · subst hstop
            exact ⟨h, by simp [NgxChain.freeLoop], .stop hchain hpool⟩
          · have hnodup := List.nodup_cons.1 hchain.nodup
            rw [List.disjoint_cons_left] at hdisj
            rcases chains_ngxFreeChain hne htail hnodup.1 hpool hdisj.1 with ⟨htail', hpool'⟩
            have hpos' : pos = 0 ∨ pos ∈ l := by
              refine hpos.imp_right fun hmem => ?_
              exact (List.mem_cons.1 hmem).resolve_left (Ne.symm hstop)
            have hdisj' : l.Disjoint (iter :: frees) := List.disjoint_cons_right.2 ⟨hnodup.1, hdisj.2⟩
            rcases ih htail' hpos' hpool' hdisj' (Nat.le_of_succ_le_succ hfuel) with ⟨g, hloop, hg⟩
            refine ⟨g, ?_, hg.cons hstop⟩
            rw [NgxChain.freeLoop, if_neg (not_or.2 ⟨hne, hstop⟩)]
            exact hloop

/-! ### Later allocations -/

/-- Links in use, by the chain that is left or by those they were handed out to. -/
structure LinkUse where
  heap : Heap
  held : List Nat

inductive LinkOp
  | alloc
  | write (p : Nat) (v : Link)

/-- `ngx_alloc_chain_link`, or a change to a link in use. -/
def LinkUse.step (s : LinkUse) : LinkOp → LinkUse
  | .alloc =>
      let r := ngxAllocChainLink s.heap
      ⟨r.2, r.1 :: s.held⟩
  | .write p v =>
      if p ∈ s.held then { s with heap := { s.heap with link := Function.update s.heap.link p v } } else s

/-- No link is held twice, and the free ones are elsewhere. -/
def LinkUse.Apart (s : LinkUse) : Prop := s.heap.Ready s.held ∧ s.held.Nodup

theorem LinkUse.Apart.step {s : LinkUse} (hs : s.Apart) (op : LinkOp) : (s.step op).Apart := by
  rcases hs with ⟨hready, hnodup⟩
  cases op with
  | alloc =>
      rcases ngxAllocChainLink_spec hready with ⟨p, g, halloc, -, hnot, hready', -⟩
      rw [LinkUse.step, halloc]
      exact ⟨hready', List.nodup_cons.2 ⟨hnot, hnodup⟩⟩
  | write p v =>
      rw [LinkUse.step]
      split
      · refine ⟨hready.congr rfl (Nat.le_refl _) fun r hr _ => ?_, hnodup⟩
        have hne : r ≠ p := by
          rintro rfl
          exact hr ‹_›
        simp [Heap.next, hne]
      · exact ⟨hready, hnodup⟩

theorem LinkUse.Apart.run {s : LinkUse} (hs : s.Apart) (ops : List LinkOp) :
    (Trace.run LinkUse.step s ops).Apart :=
  Trace.run_of_along (P := fun _ _ => True) (fun _ op hs _ => hs.step op) hs fun _ _ _ _ => trivial

theorem Freed.apart {g : Heap} (hg : Freed h g pos l frees) (hnodup : l.Nodup) (hdisj : l.Disjoint frees)
    (hbrk : 0 < h.brk) (hlt : ∀ q ∈ l ++ frees, q < h.brk) :
    LinkUse.Apart ⟨g, l.dropWhile (· != pos)⟩ := by
  have hsplit : l.takeWhile (· != pos) ++ l.dropWhile (· != pos) = l := List.takeWhile_append_dropWhile
  have hparts := List.nodup_append.1 (hsplit.symm ▸ hnodup)
  have hrest : ∀ q ∈ l.dropWhile (· != pos), q ∈ l := fun q hq => List.dropWhile_sublist _ |>.mem hq
  rw [← hg.others.2.2] at hbrk hlt
  refine ⟨⟨hbrk, ⟨_, hg.pool, fun q hq => ?_⟩, fun q hq => hlt q (by simp [hrest q hq])⟩, hparts.2.1⟩
  rcases List.mem_append.1 hq with hq | hq
  · rw [List.mem_reverse] at hq
    have hmem : q ∈ l := List.takeWhile_sublist _ |>.mem hq
    exact ⟨hlt q (by simp [hmem]), fun hin => hparts.2.2 q hq q hin rfl⟩
  · exact ⟨hlt q (by simp [hq]), fun hin => hdisj (hrest q hin) hq⟩

/-- Freeing a chain up to `pos` puts exactly the links before `pos` on the pool's list, the last one first,
and leaves everything else as it was; whatever is allocated and written later, no link of what is left is
handed out, and none twice. -/
theorem free_moves_prefix (hchain : Chain h.next 0 chain l) (hpos : pos = 0 ∨ pos ∈ l)
    (hpool : Chain h.next 0 h.poolChain frees) (hdisj : l.Disjoint frees) (hbrk : 0 < h.brk)
    (hlt : ∀ q ∈ l ++ frees, q < h.brk) :
    ∃ g, NgxChain.free chain pos h = some (pos, g) ∧ Freed h g pos l frees ∧
      ∀ ops, (Trace.run LinkUse.step ⟨g, l.dropWhile (· != pos)⟩ ops).held.Nodup := by
  have hlength : l.length ≤ h.brk := by
    have hsub : l ⊆ List.range h.brk :=
      fun q hq => List.mem_range.2 (hlt q (List.mem_append_left _ hq))
    simpa using (List.Nodup.subperm hchain.nodup hsub).length_le
  rcases freeLoop_spec hchain hpos hpool hdisj hlength with ⟨g, hloop, hg⟩
  refine ⟨g, ?_, hg, fun ops => ?_⟩
  · rw [NgxChain.free, hloop]
    rfl
  · exact ((hg.apart hchain.nodup hdisj hbrk hlt).run ops).2

end free

/-- A chain of three links, and a free one. -/
def fourLinks : Heap :=
  { twoChains with
    link := fun q => if q = 1 then ⟨1, 2⟩ else if q = 2 then ⟨2, 3⟩ else ⟨3, 0⟩
    poolChain := 4
    brk := 5 }

theorem free_moves_prefix_fourLinks :
    ∃ g, NgxChain.free 1 3 fourLinks = some (3, g) ∧ Freed fourLinks g 3 [1, 2, 3] [4] ∧
      ∀ ops, (Trace.run LinkUse.step ⟨g, [1, 2, 3].dropWhile (· != 3)⟩ ops).held.Nodup :=
  free_moves_prefix
    (Chain.cons (by decide) (Chain.cons (by decide) (Chain.cons (by decide) (Chain.nil _ 0))))
    (Or.inr (by decide)) (Chain.cons (by decide) (Chain.nil _ 0)) (by simp) (by decide) (by decide)

end Ngx
end CppPractice
