import CppPractice.Lib.Segment
import Mathlib.Data.List.Perm.Subperm

/-!
# Buf — buffers, chains and the pool they come from

`ngx_buf_t` and `ngx_chain_t` with their wrappers `NgxBuf`, `NgxChainNode`, `NgxChain`, and the part of
the pool that hands out buffers and chain links.  Buffers and links live at addresses of a heap, with 0
for the null pointer; the bytes that buffers point to live at 64-bit addresses.
-/

namespace CppPractice
namespace Ngx

open Segment

/-! ## Buffers -/

/-- `ngx_str_t` -/
structure NgxStr where
  data : UInt64
  len : UInt64
  deriving DecidableEq, Repr

/-- `ngx_buf_t` -/
structure Buf where
  pos : UInt64
  last : UInt64
  start : UInt64
  end_ : UInt64
  filePos : UInt64
  fileLast : UInt64
  temporary : Bool
  memory : Bool
  mmap : Bool
  inFile : Bool
  flush : Bool
  sync : Bool
  lastBuf : Bool
  lastInChain : Bool
  deriving DecidableEq, Repr

namespace NgxString

/-- `!data || !len` -/
def empty (s : NgxStr) : Bool := s.data == 0 || s.len == 0

end NgxString

/-- `ngx_buf_in_memory(b)` -/
def ngxBufInMemory (b : Buf) : Bool := b.temporary || b.memory || b.mmap

/-- `ngx_buf_special(b)` -/
def ngxBufSpecial (b : Buf) : Bool :=
  (b.flush || b.lastBuf || b.sync) && !ngxBufInMemory b && !b.inFile

/-- `ngx_buf_size(b)`, as `size_t` -/
def ngxBufSize (b : Buf) : UInt64 :=
  if ngxBufInMemory b then b.last - b.pos else b.fileLast - b.filePos

/-- What `ngx_pcalloc` leaves in a buffer. -/
def Buf.zero : Buf := ⟨0, 0, 0, 0, 0, 0, false, false, false, false, false, false, false, false⟩

namespace NgxBuf

def size (b : Buf) : UInt64 := ngxBufSize b

def special (b : Buf) : Bool := ngxBufSpecial b

/-- `NgxBuf::last()`: one of the two flags that end a response. -/
def last (b : Buf) : Bool := b.lastBuf || b.lastInChain

def finish (flag : Bool) (b : Buf) : Buf := { b with lastBuf := flag, lastInChain := flag }

/-- `range(s->data, s->data + s->len); boundary(s->data, s->data + s->len);` -/
def range (s : NgxStr) (b : Buf) : Buf :=
  { b with
    pos := s.data
    last := s.data + s.len
    memory := true
    start := s.data
    end_ := s.data + s.len }

end NgxBuf

/-- The `n` bytes at an address. -/
def readBytes (mem : UInt64 → UInt8) (addr : UInt64) (n : Nat) : List UInt8 :=
  (List.range n).map fun i => mem (addr + UInt64.ofNat i)

/-- The bytes of a buffer in memory.  A special buffer has none, and what a file holds is left out. -/
def Buf.bytes (mem : UInt64 → UInt8) (b : Buf) : List UInt8 :=
  if ngxBufInMemory b then readBytes mem b.pos (b.last - b.pos).toNat else []

/-- The bytes of a string. -/
def NgxStr.bytes (mem : UInt64 → UInt8) (s : NgxStr) : List UInt8 := readBytes mem s.data s.len.toNat

@[simp] theorem length_readBytes (mem : UInt64 → UInt8) (addr : UInt64) (n : Nat) :
    (readBytes mem addr n).length = n := by
  simp [readBytes]

theorem length_bytes (mem : UInt64 → UInt8) {b : Buf} (hmemory : ngxBufInMemory b = true) :
    (b.bytes mem).length = (NgxBuf.size b).toNat := by
  simp [Buf.bytes, NgxBuf.size, ngxBufSize, hmemory]

/-- A buffer of size 0 has no bytes. -/
theorem bytes_of_size_zero (mem : UInt64 → UInt8) {b : Buf} (hsize : NgxBuf.size b = 0) :
    b.bytes mem = [] := by
  cases hmemory : ngxBufInMemory b with
  | true =>
      have hlength : (b.bytes mem).length = 0 := by
        rw [length_bytes mem hmemory, hsize]
        rfl
      exact List.eq_nil_of_length_eq_zero hlength
  | false => simp [Buf.bytes, hmemory]

@[simp] theorem size_range (s : NgxStr) (b : Buf) : NgxBuf.size (NgxBuf.range s b) = s.len := by
  calc
    NgxBuf.size (NgxBuf.range s b) = s.data + s.len - s.data := by
      simp [NgxBuf.size, NgxBuf.range, ngxBufSize, ngxBufInMemory]
    _ = s.len := by rw [UInt64.add_comm, UInt64.add_sub_cancel]

@[simp] theorem bytes_range (mem : UInt64 → UInt8) (s : NgxStr) (b : Buf) :
    (NgxBuf.range s b).bytes mem = s.bytes mem := by
  have hlength : s.data + s.len - s.data = s.len := by
    rw [UInt64.add_comm, UInt64.add_sub_cancel]
  simp [Buf.bytes, NgxStr.bytes, NgxBuf.range, ngxBufInMemory, hlength]

@[simp] theorem size_finish (flag : Bool) (b : Buf) :
    NgxBuf.size (NgxBuf.finish flag b) = NgxBuf.size b := rfl

@[simp] theorem bytes_finish (mem : UInt64 → UInt8) (flag : Bool) (b : Buf) :
    (NgxBuf.finish flag b).bytes mem = b.bytes mem := rfl

@[simp] theorem last_finish (flag : Bool) (b : Buf) : NgxBuf.last (NgxBuf.finish flag b) = flag := by
  simp [NgxBuf.last, NgxBuf.finish]

/-! ## The heap -/

/-- `ngx_chain_t` -/
structure Link where
  buf : Nat
  next : Nat
  deriving DecidableEq, Repr

structure Heap where
  link : Nat → Link
  buf : Nat → Buf
  mem : UInt64 → UInt8
  /-- `pool->chain`, the links given back -/
  poolChain : Nat
  /-- Everything from this address on is still unused. -/
  brk : Nat

namespace Heap

def next (h : Heap) (p : Nat) : Nat := (h.link p).next

/-- `p->next = q` -/
def setNext (p q : Nat) (h : Heap) : Heap :=
  { h with link := Function.update h.link p { h.link p with next := q } }

/-- `p->buf = b` -/
def setBuf (p b : Nat) (h : Heap) : Heap :=
  { h with link := Function.update h.link p { h.link p with buf := b } }

/-- The buffer at `b` changes. -/
def updateBuf (b : Nat) (f : Buf → Buf) (h : Heap) : Heap :=
  { h with buf := Function.update h.buf b (f (h.buf b)) }

/-- The buffer of a link. -/
def data (h : Heap) (p : Nat) : Buf := h.buf (h.link p).buf

/-- The buffers of the chain at `p`. -/
def chain (h : Heap) (p : Nat) : Option (List Buf) :=
  (nodes h.next 0 h.brk p).map fun l => l.map h.data

end Heap

/-- `ngx_alloc_chain_link(pool)`: what the link holds is left over from before. -/
def ngxAllocChainLink (h : Heap) : Nat × Heap :=
  if h.poolChain = 0 then
    (h.brk, { h with brk := h.brk + 1 })
  else
    (h.poolChain, { h with poolChain := h.next h.poolChain })

namespace NgxPool

def chain (h : Heap) : Nat × Heap :=
  let r := ngxAllocChainLink h
  (r.1, r.2.setNext r.1 0)

/-- `buffer()`, which is `ngx_pcalloc` of a buffer. -/
def buffer (h : Heap) : Nat × Heap :=
  (h.brk, { h with brk := h.brk + 1, buf := Function.update h.buf h.brk Buf.zero })

end NgxPool

/-! ## Links in use -/

namespace Heap

/-- The links of `used` are handed out: the pool's list of free links and the unused part of the heap
lie elsewhere. -/
structure Ready (h : Heap) (used : List Nat) : Prop where
  brk_pos : 0 < h.brk
  frees : ∃ frees, Chain h.next 0 h.poolChain frees ∧ ∀ q ∈ frees, q < h.brk ∧ q ∉ used
  used_lt : ∀ q ∈ used, q < h.brk

/-- The chain at `p` has the links of `l`, which are in use, and so are their buffers. -/
structure Owns (h : Heap) (p : Nat) (l : List Nat) : Prop where
  chain : Chain h.next 0 p l
  ready : h.Ready l
  buf_lt : ∀ q ∈ l, (h.link q).buf < h.brk

section links

variable (h : Heap) (p q : Nat)

@[simp] theorem next_setNext : (h.setNext p q).next = Function.update h.next p q := by
  funext r
  by_cases hr : r = p
  · simp [next, setNext, hr]
  · simp [next, setNext, hr]

@[simp] theorem next_setBuf : (h.setBuf p q).next = h.next := by
  funext r
  by_cases hr : r = p
  · simp [next, setBuf, hr]
  · simp [next, setBuf, hr]

/-- Where a link points is not what it holds. -/
@[simp] theorem buf_link_setNext (r : Nat) : ((h.setNext p q).link r).buf = (h.link r).buf := by
  by_cases hr : r = p
  · simp [setNext, hr]
  · simp [setNext, hr]

end links

variable {h h' : Heap} {used l : List Nat} {p q : Nat}

theorem Ready.mono (hready : h.Ready used) (hsub : l ⊆ used) : h.Ready l := by
  rcases hready.frees with ⟨frees, hchain, hfree⟩
  refine ⟨hready.brk_pos, ⟨frees, hchain, ?_⟩, fun r hr => hready.used_lt r (hsub hr)⟩
  intro r hr
  exact ⟨(hfree r hr).1, fun hmem => (hfree r hr).2 (hsub hmem)⟩

/-- Links in use can be set at will. -/
theorem Ready.congr (hready : h.Ready used) (hpool : h'.poolChain = h.poolChain)
    (hbrk : h.brk ≤ h'.brk) (hlink : ∀ r, r ∉ used → r < h.brk → h'.next r = h.next r) :
    h'.Ready used := by
  rcases hready.frees with ⟨frees, hchain, hfree⟩
  refine ⟨Nat.lt_of_lt_of_le hready.brk_pos hbrk, ⟨frees, ?_, ?_⟩, ?_⟩
  · rw [hpool]
    exact hchain.congr fun r hr => hlink r (hfree r hr).2 (hfree r hr).1
  · intro r hr
    exact ⟨Nat.lt_of_lt_of_le (hfree r hr).1 hbrk, (hfree r hr).2⟩
  · intro r hr
    exact Nat.lt_of_lt_of_le (hready.used_lt r hr) hbrk

/-- A link may come from the unused part of the heap. -/
theorem Ready.fresh (hready : h.Ready used) (hpool : h'.poolChain = h.poolChain) (hp : h.brk ≤ p)
    (hlt : p < h'.brk) (hlink : ∀ r, r < h.brk → h'.next r = h.next r) : h'.Ready (p :: used) := by
  rcases hready.frees with ⟨frees, hchain, hfree⟩
  refine ⟨Nat.zero_lt_of_lt hlt, ⟨frees, ?_, ?_⟩, ?_⟩
  · rw [hpool]
    exact hchain.congr fun r hr => hlink r (hfree r hr).1
  · intro r hr
    have hrp : r < p := Nat.lt_of_lt_of_le (hfree r hr).1 hp
    refine ⟨Nat.lt_trans hrp hlt, ?_⟩
    simpa [Nat.ne_of_lt hrp] using (hfree r hr).2
  · intro r hr
    rcases List.mem_cons.1 hr with rfl | hr
    · exact hlt
    · exact Nat.lt_trans (Nat.lt_of_lt_of_le (hready.used_lt r hr) hp) hlt

/-- A chain has no more links than the heap has addresses. -/
theorem length_le_brk (hchain : Chain h.next 0 p l) (hready : h.Ready l) : l.length ≤ h.brk := by
  have hsub : l ⊆ List.range h.brk := fun r hr => List.mem_range.2 (hready.used_lt r hr)
  simpa using (List.Nodup.subperm hchain.nodup hsub).length_le

theorem Owns.chain_eq (howns : h.Owns p l) : h.chain p = some (l.map h.data) := by
  have hnodes : nodes h.next 0 h.brk p = some l :=
    nodes_chain howns.chain (length_le_brk howns.chain howns.ready)
  simp [Heap.chain, hnodes]

end Heap

open Heap

/-- A link handed out is none of those in use. -/
theorem ngxAllocChainLink_spec {h : Heap} {used : List Nat} (hready : h.Ready used) :
    ∃ p h', ngxAllocChainLink h = (p, h') ∧ p ≠ 0 ∧ p ∉ used ∧ h'.Ready (p :: used) ∧
      h'.link = h.link ∧ h'.buf = h.buf ∧ h'.mem = h.mem ∧ h.brk ≤ h'.brk := by
  rcases hready.frees with ⟨frees, hchain, hfree⟩
  by_cases hempty : h.poolChain = 0
  · refine ⟨h.brk, { h with brk := h.brk + 1 }, if_pos hempty, ?_, ?_, ?_, rfl, rfl, rfl,
      Nat.le_succ _⟩
    · exact Nat.ne_of_gt hready.brk_pos
    · exact fun hmem => Nat.lt_irrefl _ (hready.used_lt _ hmem)
    · exact hready.fresh rfl (Nat.le_refl _) (Nat.lt_succ_self _) fun _ _ => rfl
  · cases frees with
    | nil => exact absurd hchain.eq_null_of_nil hempty
    | cons q frees =>
        rcases hchain.cons_inv with ⟨rfl, hne, htail⟩
        have hhead := hfree _ List.mem_cons_self
        have hnodup := List.nodup_cons.1 hchain.nodup
        refine ⟨h.poolChain, { h with poolChain := h.next h.poolChain }, if_neg hempty, hne, hhead.2,
          ?_, rfl, rfl, rfl, Nat.le_refl _⟩
        refine ⟨hready.brk_pos, ⟨frees, htail, ?_⟩, ?_⟩
        · intro q hq
          have hmem := hfree q (List.mem_cons_of_mem _ hq)
          refine ⟨hmem.1, ?_⟩
          intro hin
          rcases List.mem_cons.1 hin with rfl | hin
          · exact hnodup.1 hq
          · exact hmem.2 hin
        · intro q hq
          rcases List.mem_cons.1 hq with rfl | hq
          · exact hhead.1
          · exact hready.used_lt q hq

namespace NgxPool

theorem chain_spec {h : Heap} {used : List Nat} (hready : h.Ready used) :
    ∃ p h', chain h = (p, h') ∧ p ≠ 0 ∧ p ∉ used ∧ h'.Ready (p :: used) ∧ h'.next p = 0 ∧
      (∀ q, q ≠ p → h'.link q = h.link q) ∧ h'.buf = h.buf ∧ h'.mem = h.mem ∧ h.brk ≤ h'.brk := by
  rcases ngxAllocChainLink_spec hready with
    ⟨p, h', halloc, hne, hnot, hready', hlink, hbuf, hmem, hbrk⟩
  refine ⟨p, h'.setNext p 0, ?_, hne, hnot, ?_, ?_, ?_, hbuf, hmem, hbrk⟩
  · simp [chain, halloc]
  · refine hready'.congr rfl (Nat.le_refl _) ?_
    intro q hq _
    have hqp : q ≠ p := fun heq => hq (heq ▸ List.mem_cons_self)
    simp [hqp]
  · simp
  · intro q hq
    simp [setNext, hq, hlink]

end NgxPool

end Ngx
end CppPractice
