import CppPractice.Ngx.Buf

/-!
# DataHook — the filter that keeps the body of a subrequest

`NdgDataHookHandler` stops the filter chain for a subrequest whose parent asked for it, and puts the
buffers that come by into the context of the parent.  It makes new links and leaves the buffers where
they are (`ngx_chain_add_copy`).

A run is any number of calls of the body filter, with anything happening in between that leaves the
parent's links and their buffers alone.
-/

namespace CppPractice
namespace Ngx

open Segment Heap

/-! ## ngx_chain_add_copy -/

/-- The local variables of `ngx_chain_add_copy`: `ll`, what `chain` points to, and the heap. -/
structure AddCopy where
  ll : Slot Nat
  chain : Nat
  heap : Heap

namespace AddCopy

/-- `*ll = x` -/
def fill (x : Nat) (s : AddCopy) : AddCopy :=
  match s.ll with
  | .head => { s with chain := x }
  | .behind p => { s with heap := s.heap.setNext p x }

/-- The body of `while(in)`. -/
def copy (p : Nat) (s : AddCopy) : AddCopy :=
  let cl := ngxAllocChainLink s.heap
  let s := { s with heap := cl.2.setBuf cl.1 (cl.2.link p).buf }
  { s.fill cl.1 with ll := .behind cl.1 }

end AddCopy

/-- `ngx_chain_add_copy(pool, chain, in)`: the chain and the heap afterwards. -/
def ngxChainAddCopy (chain inp : Nat) (h : Heap) : Option (Nat × Heap) := do
  let ll ← forEach (fun _ => h.next) 0 (fun p _ => Slot.behind p) h.brk chain .head
  let s ← forEach (fun s => s.heap.next) 0 AddCopy.copy h.brk inp ⟨ll, chain, h⟩
  let s := s.fill 0
  return (s.chain, s.heap)

/-! ## The filters -/

/-- `NdgDataHookCtx` -/
structure NdgDataHookCtx where
  hook : Bool
  status : Int
  headers : Nat
  body : Nat
  doHook : Bool
  deriving DecidableEq, Repr

namespace NdgDataHookCtx

/-- `hooking()` -/
def hooking (ctx : NdgDataHookCtx) : NdgDataHookCtx :=
  { ctx with hook := true, status := 0, headers := 0, body := 0 }

/-- `state(rc)`, where `NGX_OK` is 0 -/
def state (rc : Int) (ctx : NdgDataHookCtx) : NdgDataHookCtx :=
  if ctx.status ≠ 0 then ctx
  else if rc = 0 then { ctx with status := 200 }
  else if rc < 0 then { ctx with status := 500 }
  else { ctx with status := rc }

end NdgDataHookCtx

namespace NdgDataHookHandler

/-- `header_filter(r)`: the context of the parent and that of the request if the header is kept, and
nothing if it goes on to the next filter.  `parent` is the context of the parent, if there is a parent
and it has one. -/
def headerFilter (parent : Option NdgDataHookCtx) (ctx : NdgDataHookCtx) (headersOut : Nat) :
    Option (NdgDataHookCtx × NdgDataHookCtx) :=
  match parent with
  | none => none
  | some pr =>
      if pr.hook then some ({ pr with headers := headersOut }, { ctx with doHook := true }) else none

/-- Where a chain goes: on to the next filter, or into the context of the parent. -/
inductive Filtered
  | next
  | kept (pr : NdgDataHookCtx) (h : Heap)

/-- `body_filter(r, in)`; `ctx` is the context of the request, if it has one. -/
def bodyFilter (ctx : Option NdgDataHookCtx) (pr : NdgDataHookCtx) (inp : Nat) (h : Heap) :
    Option Filtered :=
  if inp = 0 then
    some (.kept pr h)
  else
    match ctx with
    | none => some .next
    | some ctx =>
        if ctx.doHook then
          (ngxChainAddCopy pr.body inp h).map fun r => .kept { pr with body := r.1 } r.2
        else
          some .next

end NdgDataHookHandler

/-! ## What the copy does -/

namespace AddCopy

section fill

variable (x : Nat) (s : AddCopy)

theorem next_fill : (s.fill x).heap.next = s.ll.fillNext x s.heap.next := by
  rcases s with ⟨_ | p, chain, h⟩
  · rfl
  · simp [fill, Slot.fillNext]

theorem chain_fill : (s.fill x).chain = s.ll.fillHead x s.chain := by
  rcases s with ⟨_ | p, chain, h⟩
  · rfl
  · rfl

@[simp] theorem buf_link_fill (q : Nat) :
    ((s.fill x).heap.link q).buf = (s.heap.link q).buf := by
  rcases s with ⟨_ | p, chain, h⟩
  · rfl
  · simp [fill]

/-- Nothing but links changes. -/
theorem fill_heap : (s.fill x).heap.buf = s.heap.buf ∧ (s.fill x).heap.mem = s.heap.mem ∧
    (s.fill x).heap.poolChain = s.heap.poolChain ∧ (s.fill x).heap.brk = s.heap.brk := by
  rcases s with ⟨_ | p, chain, h⟩
  · exact ⟨rfl, rfl, rfl, rfl⟩
  · exact ⟨rfl, rfl, rfl, rfl⟩

end fill

/-- The copying of the chain `m` in the heap `h`, when the list that is built has the links `l` with the
buffers `bufs`. -/
structure Copying (h : Heap) (m l bufs : List Nat) (s : AddCopy) : Prop where
  after : Slot.After s.heap.next s.chain s.ll l
  nodup : l.Nodup
  null_notMem : 0 ∉ l
  apart : ∀ q ∈ l, q ∉ m
  ready : s.heap.Ready (l ++ m)
  bufs : l.map (fun q => (s.heap.link q).buf) = bufs
  inputs : ∀ q ∈ m, s.heap.link q = h.link q
  buf : s.heap.buf = h.buf
  mem : s.heap.mem = h.mem
  brk : h.brk ≤ s.heap.brk

variable {h : Heap} {m l bufs : List Nat} {s : AddCopy}

/-- What is put into the slot changes none of the links of the chain that is copied. -/
theorem Copying.link_fill (hs : Copying h m l bufs s) (x : Nat) {q : Nat} (hq : q ∉ l) :
    (s.fill x).heap.link q = s.heap.link q := by
  rcases hs with ⟨hafter⟩
  rcases s with ⟨ll, chain, heap⟩
  cases hafter with
  | head => rfl
  | @behind l p hpath =>
      have hne : q ≠ p := by
        rintro rfl
        exact hq (by simp)
      simp [fill, setNext, hne]

/-- A round makes a new link with the next buffer first, and leaves the list as it is. -/
theorem Copying.newLink (hs : Copying h m l bufs s) {p : Nat} (hp : p ∈ m) :
    ∃ n t, s.copy p = { t.fill n with ll := .behind n } ∧ Copying h m l bufs t ∧ n ≠ 0 ∧
      n ∉ l ++ m ∧ t.heap.Ready (n :: (l ++ m)) ∧ (t.heap.link n).buf = (h.link p).buf := by
  rcases ngxAllocChainLink_spec hs.ready with
    ⟨n, g, halloc, hn0, hnot, hready, hlink, hbuf, hmem, hbrk⟩
  obtain ⟨t, ht⟩ : ∃ t : AddCopy, t = { s with heap := g.setBuf n (g.link p).buf } := ⟨_, rfl⟩
  have htlink : ∀ q ∈ l ++ m, t.heap.link q = s.heap.link q := by
    intro q hq
    have hne : q ≠ n := fun heq => hnot (heq ▸ hq)
    simp [ht, Heap.setBuf, hne, hlink]
  have hnext : t.heap.next = s.heap.next := by
    simp only [ht, next_setBuf]
    exact congrArg (fun link q => Link.next (link q)) hlink
  have hset : t.heap.Ready (n :: (l ++ m)) := by
    rw [ht]
    exact hready.congr rfl (Nat.le_refl _) fun _ _ _ => by simp
  refine ⟨n, t, ?_, ⟨?_, hs.nodup, hs.null_notMem, hs.apart, ?_, ?_, ?_, ?_, ?_, ?_⟩, hn0, hnot,
    hset, ?_⟩
  · simp [AddCopy.copy, halloc, ht]
  · rw [hnext]
    simpa [ht] using hs.after
  · exact hset.mono (List.subset_cons_self _ _)
  · rw [← hs.bufs]
    apply List.map_congr_left
    intro q hq
    rw [htlink q (List.mem_append_left m hq)]
  · intro q hq
    rw [htlink q (List.mem_append_right l hq), hs.inputs q hq]
  · simpa [ht, Heap.setBuf, hbuf] using hs.buf
  · simpa [ht, Heap.setBuf, hmem] using hs.mem
  · simpa [ht, Heap.setBuf] using Nat.le_trans hs.brk hbrk
  · have hpn : (g.link p).buf = (h.link p).buf := by rw [hlink, hs.inputs p hp]
    simp [ht, Heap.setBuf, hpn]

/-- Then it puts the new link into the slot, which is behind it from then on. -/
theorem Copying.fill (hs : Copying h m l bufs s) {n : Nat} (hn0 : n ≠ 0) (hnot : n ∉ l ++ m)
    (hready : s.heap.Ready (n :: (l ++ m))) :
    Copying h m (l ++ [n]) (bufs ++ [(s.heap.link n).buf]) { s.fill n with ll := .behind n } := by
  have hnl : n ∉ l := fun hin => hnot (List.mem_append_left m hin)
  have hnm : n ∉ m := fun hin => hnot (List.mem_append_right l hin)
  rcases s.fill_heap n with ⟨hfbuf, hfmem, hfpool, hfbrk⟩
  have hpath : Path (s.fill n).heap.next (s.fill n).chain l n := by
    rw [next_fill, chain_fill]
    exact hs.after.fill hs.nodup n
  have hfilled : (s.fill n).heap.Ready (n :: (l ++ m)) := by
    refine hready.congr hfpool (Nat.le_of_eq hfbrk.symm) ?_
    intro q hq _
    have hql : q ∉ l := fun hin => hq (by simp [hin])
    exact congrArg Link.next (hs.link_fill n hql)
  refine ⟨.behind hpath, ?_, ?_, ?_, ?_, ?_, ?_, ?_, ?_, ?_⟩
  · exact List.nodup_append.2 ⟨hs.nodup, List.nodup_singleton n, fun a ha b hb => by
      rw [List.mem_singleton.1 hb]
      exact fun heq => hnl (heq ▸ ha)⟩
  · simpa [hs.null_notMem] using hn0.symm
  · intro q hq
    rcases List.mem_append.1 hq with hq | hq
    · exact hs.apart q hq
    · rw [List.mem_singleton.1 hq]
      exact hnm
  · apply hfilled.mono
    intro q hq
    simp only [List.mem_append, List.mem_cons, List.not_mem_nil, or_false] at hq ⊢
    tauto
  · simp [hs.bufs]
  · intro q hq
    have hql : q ∉ l := fun hin => hs.apart q hin hq
    exact (hs.link_fill n hql).trans (hs.inputs q hq)
  · exact hfbuf.trans hs.buf
  · exact hfmem.trans hs.mem
  · exact Nat.le_trans hs.brk (Nat.le_of_eq hfbrk.symm)

/-- One round of the loop: a new link at the end, with the next buffer. -/
theorem Copying.copy (hs : Copying h m l bufs s) {p : Nat} (hp : p ∈ m) :
    ∃ n, Copying h m (l ++ [n]) (bufs ++ [(h.link p).buf]) (s.copy p) := by
  rcases hs.newLink hp with ⟨n, t, hcopy, ht, hn0, hnot, hready, hbuf⟩
  refine ⟨n, ?_⟩
  rw [hcopy, ← hbuf]
  exact ht.fill hn0 hnot hready

/-- The whole loop: a new link for each of the chain that is copied, in its order. -/
theorem Copying.copies (hs : Copying h m l bufs s) {k : List Nat} (hk : ∀ p ∈ k, p ∈ m) :
    ∃ new, Copying h m (l ++ new) (bufs ++ k.map fun p => (h.link p).buf)
      (k.foldl (fun s p => s.copy p) s) := by
  induction k generalizing s l bufs with
  | nil => exact ⟨[], by simpa using hs⟩
  | cons p k ih =>
      rcases hs.copy (hk p List.mem_cons_self) with ⟨n, hstep⟩
      rcases ih hstep (fun q hq => hk q (List.mem_cons_of_mem p hq)) with ⟨new, hrest⟩
      exact ⟨n :: new, by simpa using hrest⟩

end AddCopy

/-- The chain gets new links for the buffers of the other one; that one keeps its links, and no buffer
moves. -/
theorem ngxChainAddCopy_spec {h : Heap} {chain inp : Nat} {l m : List Nat}
    (hchain : Chain h.next 0 chain l) (hinp : Chain h.next 0 inp m) (hready : h.Ready (l ++ m))
    (hapart : ∀ q ∈ l, q ∉ m) :
    ∃ c g new, ngxChainAddCopy chain inp h = some (c, g) ∧ Chain g.next 0 c (l ++ new) ∧
      g.Ready (l ++ new) ∧
      (l ++ new).map (fun q => (g.link q).buf) =
        l.map (fun q => (h.link q).buf) ++ m.map (fun q => (h.link q).buf) ∧
      g.buf = h.buf ∧ g.mem = h.mem ∧ h.brk ≤ g.brk := by
  have hlready : h.Ready l := hready.mono (List.subset_append_left l m)
  have hmready : h.Ready m := hready.mono (List.subset_append_right l m)
  have htail : forEach (fun _ => h.next) 0 (fun p _ => Slot.behind p) h.brk chain Slot.head =
      some (l.foldl (fun _ q => Slot.behind q) Slot.head) :=
    forEach_const hchain (length_le_brk hchain hlready)
  obtain ⟨ll, hll⟩ : ∃ ll, ll = l.foldl (fun _ q => Slot.behind q) Slot.head := ⟨_, rfl⟩
  have hstart : AddCopy.Copying h m l (l.map fun q => (h.link q).buf) ⟨ll, chain, h⟩ :=
    ⟨hll ▸ Slot.After.of_chain hchain, hchain.nodup, hchain.null_notMem, hapart, hready, rfl,
      fun _ _ => rfl, rfl, rfl, Nat.le_refl _⟩
  have hloop : forEach (fun s => s.heap.next) 0 AddCopy.copy h.brk inp ⟨ll, chain, h⟩ =
      some (m.foldl (fun s p => AddCopy.copy p s) ⟨ll, chain, h⟩) := by
    apply forEach_chain (I := fun s => ∃ l bufs, AddCopy.Copying h m l bufs s) _ ⟨l, _, hstart⟩ hinp
      (length_le_brk hinp hmready)
    rintro s ⟨l, bufs, hs⟩ q hq
    rcases hs.copy hq with ⟨n, hstep⟩
    refine ⟨⟨_, _, hstep⟩, fun r hr => congrArg Link.next ?_⟩
    rw [hstep.inputs r hr, hs.inputs r hr]
  rcases hstart.copies (k := m) (fun _ hp => hp) with ⟨new, hend⟩
  obtain ⟨s, hs⟩ : ∃ s, s = m.foldl (fun s p => AddCopy.copy p s) ⟨ll, chain, h⟩ := ⟨_, rfl⟩
  rw [← hs] at hend hloop
  rcases s.fill_heap 0 with ⟨hfbuf, hfmem, hfpool, hfbrk⟩
  refine ⟨(s.fill 0).chain, (s.fill 0).heap, new, ?_, ⟨?_, hend.null_notMem⟩, ?_, ?_,
    hfbuf.trans hend.buf, hfmem.trans hend.mem, Nat.le_trans hend.brk (Nat.le_of_eq hfbrk.symm)⟩
  · simp [ngxChainAddCopy, htail, ← hll, hloop]
  · rw [AddCopy.next_fill, AddCopy.chain_fill]
    exact hend.after.fill hend.nodup 0
  · refine (hend.ready.mono (List.subset_append_left _ _)).congr hfpool (Nat.le_of_eq hfbrk.symm) ?_
    exact fun q hq _ => congrArg Link.next (hend.link_fill 0 hq)
  · simpa using hend.bufs

/-! ## Any number of calls -/

namespace Heap

/-- A buffer: where it is, what it says and its bytes. -/
def item (h : Heap) (b : Nat) : Nat × Buf × List UInt8 := (b, h.buf b, (h.buf b).bytes h.mem)

/-- The buffers of some links. -/
def items (h : Heap) (l : List Nat) : List (Nat × Buf × List UInt8) :=
  l.map fun q => h.item (h.link q).buf

/-- From `h` to `h'` the links of `l` and the buffers of `m` are left alone. -/
structure Kept (l m : List Nat) (h h' : Heap) : Prop where
  ready : h'.Ready l
  link : ∀ q ∈ l, h'.link q = h.link q
  item : ∀ q ∈ m, h'.item (h.link q).buf = h.item (h.link q).buf
  brk : h.brk ≤ h'.brk

end Heap

/-- A call of the body filter: what happens since the call before it, and the chain it is given. -/
structure HookCall where
  meanwhile : Heap → Heap
  inp : Nat
  links : List Nat
  items : List (Nat × Buf × List UInt8)

/-- The call passes the buffers `items`, in a chain of its own, and the parent's links `l` and their
buffers are as they were. -/
structure HookCall.Passes (c : HookCall) (l : List Nat) (h : Heap) : Prop where
  kept : h.Kept l l (c.meanwhile h)
  chain : Chain (c.meanwhile h).next 0 c.inp c.links
  ready : (c.meanwhile h).Ready (l ++ c.links)
  apart : ∀ q ∈ l, q ∉ c.links
  buf_lt : ∀ q ∈ c.links, ((c.meanwhile h).link q).buf < (c.meanwhile h).brk
  items : (c.meanwhile h).items c.links = c.items

namespace NdgDataHookHandler

/-- The calls one after the other, as long as the chains do not go on to the next filter. -/
def bodyFilters (ctx : Option NdgDataHookCtx) :
    List HookCall → NdgDataHookCtx → Heap → Option (NdgDataHookCtx × Heap)
  | [], pr, h => some (pr, h)
  | c :: calls, pr, h =>
      match bodyFilter ctx pr c.inp (c.meanwhile h) with
      | some (.kept pr h) => bodyFilters ctx calls pr h
      | _ => none

/-- In every call the parent's links and their buffers are as the call before it left them. -/
def Undisturbed (ctx : Option NdgDataHookCtx) : List HookCall → NdgDataHookCtx → Heap → Prop
  | [], _, _ => True
  | c :: calls, pr, h =>
      (∀ l, h.Owns pr.body l → c.Passes l h) ∧
        ∀ pr' h', bodyFilter ctx pr c.inp (c.meanwhile h) = some (.kept pr' h') →
          Undisturbed ctx calls pr' h'

end NdgDataHookHandler

namespace Heap

variable {h h' : Heap} {l m : List Nat} {p : Nat}

theorem items_eq (h : Heap) (l : List Nat) :
    h.items l = (l.map fun q => (h.link q).buf).map h.item := by
  simp [Heap.items, Function.comp_def]

/-- The buffers of links that keep them. -/
theorem items_congr (hlink : ∀ q ∈ l, h'.link q = h.link q)
    (hitem : ∀ q ∈ l, h'.item (h.link q).buf = h.item (h.link q).buf) : h'.items l = h.items l := by
  apply List.map_congr_left
  intro q hq
  rw [hlink q hq, hitem q hq]

theorem Kept.items (hkept : h.Kept l l h') : h'.items l = h.items l :=
  items_congr hkept.link hkept.item

/-- A chain in use stays one. -/
theorem Kept.owns (hkept : h.Kept l m h') (howns : h.Owns p l) : h'.Owns p l where
  chain := howns.chain.congr fun q hq => congrArg Link.next (hkept.link q hq)
  ready := hkept.ready
  buf_lt := by
    intro q hq
    rw [hkept.link q hq]
    exact Nat.lt_of_lt_of_le (howns.buf_lt q hq) hkept.brk

end Heap

namespace NdgDataHookHandler

variable {ctx : NdgDataHookCtx} {pr : NdgDataHookCtx} {h : Heap} {l : List Nat}

/-- One call puts the buffers of its chain behind those of the parent. -/
theorem bodyFilter_spec (hhook : ctx.doHook = true) (howns : h.Owns pr.body l) {c : HookCall}
    (hpasses : c.Passes l h) :
    ∃ pr' h' l', bodyFilter (some ctx) pr c.inp (c.meanwhile h) = some (.kept pr' h') ∧
      h'.Owns pr'.body l' ∧ h'.items l' = h.items l ++ c.items ∧
      pr' = { pr with body := pr'.body } := by
  have howns' : (c.meanwhile h).Owns pr.body l := hpasses.kept.owns howns
  have hkept : (c.meanwhile h).items l = h.items l := hpasses.kept.items
  by_cases hinp : c.inp = 0
  -- A call without a chain is passed on as it is.
  · have hnil : c.links = [] := by
      have hnull : Chain (c.meanwhile h).next 0 c.inp [] := by
        rw [hinp]
        exact Chain.nil _ _
      exact hpasses.chain.unique hnull
    have hnone : c.items = [] := by
      rw [← hpasses.items, hnil]
      rfl
    refine ⟨pr, c.meanwhile h, l, ?_, howns', ?_, rfl⟩
    · simp [bodyFilter, hinp]
    · rw [hkept, hnone, List.append_nil]
  · rcases ngxChainAddCopy_spec howns'.chain hpasses.chain hpasses.ready hpasses.apart with
      ⟨b, g, new, hcopy, hchain, hready, hbufs, hbuf, hmem, hbrk⟩
    have hitem : g.item = (c.meanwhile h).item := by
      funext b
      simp [Heap.item, hbuf, hmem]
    have hitems : g.items (l ++ new) =
        (c.meanwhile h).items l ++ (c.meanwhile h).items c.links := by
      rw [items_eq, hbufs, hitem, List.map_append, ← items_eq, ← items_eq]
    refine ⟨{ pr with body := b }, g, l ++ new, ?_, ⟨hchain, hready, ?_⟩, ?_, rfl⟩
    · simp [bodyFilter, hinp, hhook, hcopy]
    · -- a buffer of the new chain is a buffer of one of the two chains
      intro q hq
      have hin : (g.link q).buf ∈ (l ++ new).map fun q => (g.link q).buf := List.mem_map_of_mem hq
      rw [hbufs] at hin
      rcases List.mem_append.1 hin with hin | hin
      · rcases List.mem_map.1 hin with ⟨r, hr, hrq⟩
        exact hrq ▸ Nat.lt_of_lt_of_le (howns'.buf_lt r hr) hbrk
      · rcases List.mem_map.1 hin with ⟨r, hr, hrq⟩
        exact hrq ▸ Nat.lt_of_lt_of_le (hpasses.buf_lt r hr) hbrk
    · rw [hitems, hkept, hpasses.items]

/-- After any number of calls the chain of the parent holds the buffers of all of them, in order. -/
theorem bodyFilters_spec (hhook : ctx.doHook = true) {calls : List HookCall}
    (howns : h.Owns pr.body l) (hcalls : Undisturbed (some ctx) calls pr h) :
    ∃ pr' h' l', bodyFilters (some ctx) calls pr h = some (pr', h') ∧ h'.Owns pr'.body l' ∧
      h'.items l' = h.items l ++ calls.flatMap HookCall.items ∧
      pr' = { pr with body := pr'.body } := by
  induction calls generalizing pr h l with
  | nil => exact ⟨pr, h, l, rfl, howns, by simp, rfl⟩
  | cons c calls ih =>
      rcases bodyFilter_spec hhook howns (hcalls.1 l howns) with
        ⟨pr', h', l', hrun, howns', hitems, hpr⟩
      rcases ih howns' (hcalls.2 pr' h' hrun) with ⟨pr'', h'', l'', hruns, howns'', hitems', hpr'⟩
      refine ⟨pr'', h'', l'', ?_, howns'', ?_, ?_⟩
      · simp [bodyFilters, hrun, hruns]
      · rw [hitems', hitems]
        simp
      · rw [hpr] at hpr'
        exact hpr'

end NdgDataHookHandler

end Ngx
end CppPractice
