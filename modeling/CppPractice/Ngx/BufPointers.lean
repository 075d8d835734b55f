import CppPractice.Lib.Trace
import CppPractice.Ngx.Buf
import Mathlib.Data.UInt

/-!
# BufPointers — the four pointers of a buffer in memory

What `NgxBuf` does to `start`, `pos`, `last` and `end` of a buffer that `NgxBuf(pool, n)` made, and where it
writes.  Addresses are 64-bit numbers and so are lengths; an addition may wrap round.

`Ordered n b` is what the pointers are meant to keep.
-/

namespace CppPractice
namespace Ngx

/-- `ngx_create_temp_buf(pool, size)`, where the memory is at `start`. -/
def ngxCreateTempBuf (start size : UInt64) : Buf :=
  { Buf.zero with start := start, pos := start, last := start, end_ := start + size, temporary := true }

/-- The bytes that `ngx_slprintf(buf, last, ..)` writes: of the text that the format gives, what there is
space for. -/
def ngxSlprintf (buf last : UInt64) (text : List UInt8) : List UInt8 :=
  if buf < last then text.take (last - buf).toNat else []

namespace NgxBuf

/-- `NgxBuf(pool, n)`, where the memory is at `start`; without bytes it is a buffer of zeros. -/
def make (start n : UInt64) : Buf := if 0 < n then ngxCreateTempBuf start n else Buf.zero

def printf (text : List UInt8) (b : Buf) : Buf :=
  { b with last := b.pos + UInt64.ofNat (ngxSlprintf b.pos b.end_ text).length }

/-- `copy(src, n)`, as far as the pointers go. -/
def copy (n : UInt64) (b : Buf) : Buf := { b with last := b.pos + n }

def clear (b : Buf) : Buf := { b with pos := b.last }

def reset (b : Buf) : Buf := { b with pos := b.start, last := b.start }

def consume (n : UInt64) (b : Buf) : Buf :=
  let n := if size b < n then size b else n
  { b with pos := b.pos + n }

def produce (n : UInt64) (b : Buf) : Buf :=
  let b := { b with last := b.last + n }
  if b.end_ < b.last then { b with last := b.end_ } else b

end NgxBuf

/-- A buffer and the memory around it. -/
structure BufMemory where
  buf : Buf
  mem : UInt64 → UInt8

/-- Some bytes put at an address. -/
def writeBytes (mem : UInt64 → UInt8) (addr : UInt64) (bytes : List UInt8) (a : UInt64) : UInt8 :=
  (bytes[(a - addr).toNat]?).getD (mem a)

/-- The address is none of the `n` from `addr` on. -/
def Outside (addr : UInt64) (n : Nat) (a : UInt64) : Prop := n ≤ (a - addr).toNat

theorem writeBytes_outside {addr a : UInt64} {bytes : List UInt8} (h : Outside addr bytes.length a)
    (mem : UInt64 → UInt8) : writeBytes mem addr bytes a = mem a := by
  rw [writeBytes, List.getElem?_eq_none h]
  rfl

@[simp] theorem writeBytes_nil (mem : UInt64 → UInt8) (addr : UInt64) : writeBytes mem addr [] = mem := by
  funext a
  exact writeBytes_outside (Nat.zero_le _) mem

/-- Bytes written one after the other. -/
theorem writeBytes_append (mem : UInt64 → UInt8) (addr : UInt64) {bytes more : List UInt8}
    (hlength : bytes.length + more.length < 2 ^ 64) :
    writeBytes (writeBytes mem addr bytes) (addr + UInt64.ofNat bytes.length) more =
      writeBytes mem addr (bytes ++ more) := by
  funext a
  have hfrom : (a - (addr + UInt64.ofNat bytes.length)).toNat =
      if bytes.length ≤ (a - addr).toNat then (a - addr).toNat - bytes.length
      else (a - addr).toNat + 2 ^ 64 - bytes.length := by
    have hlt := (a - addr).toNat_lt
    have hbytes : (UInt64.ofNat bytes.length).toNat = bytes.length := by
      rw [UInt64.toNat_ofNat', Nat.mod_eq_of_lt (by omega)]
    have haddr := addr.toNat_lt
    have ha := a.toNat_lt
    rw [UInt64.toNat_sub, UInt64.toNat_add, hbytes, UInt64.toNat_sub]
    split <;> omega
  rw [writeBytes, hfrom]
  by_cases hpast : bytes.length ≤ (a - addr).toNat
  · rw [if_pos hpast, writeBytes, writeBytes, List.getElem?_append_right hpast,
      List.getElem?_eq_none hpast]
    rfl
  · rw [if_neg hpast, writeBytes, writeBytes, List.getElem?_append_left (Nat.not_le.1 hpast),
      List.getElem?_eq_none (by omega)]
    rfl

theorem readBytes_writeBytes (mem : UInt64 → UInt8) (addr : UInt64) {bytes : List UInt8}
    (hlength : bytes.length < 2 ^ 64) :
    readBytes (writeBytes mem addr bytes) addr bytes.length = bytes := by
  apply List.ext_getElem
  · exact length_readBytes _ _ _
  · intro i hi hi'
    have hat : (addr + UInt64.ofNat i - addr).toNat = i := by
      rw [UInt64.add_comm, UInt64.add_sub_cancel, UInt64.toNat_ofNat',
        Nat.mod_eq_of_lt (Nat.lt_trans hi' hlength)]
    simp only [readBytes, List.getElem_map, List.getElem_range, writeBytes, hat,
      List.getElem?_eq_getElem hi', Option.getD_some]

/-- Reading elsewhere is not affected. -/
theorem readBytes_congr {mem mem' : UInt64 → UInt8} {addr : UInt64} {n : Nat}
    (h : ∀ i < n, mem' (addr + UInt64.ofNat i) = mem (addr + UInt64.ofNat i)) :
    readBytes mem' addr n = readBytes mem addr n :=
  List.map_congr_left fun i hi => h i (List.mem_range.1 hi)

inductive BufOp
  | printf (text : List UInt8)
  | copy (src n : UInt64)
  | consume (n : UInt64)
  | produce (n : UInt64)
  | clear
  | reset

namespace BufOp

/-- What the operation writes, at `pos`. -/
def written (s : BufMemory) : BufOp → List UInt8
  | .printf text => ngxSlprintf s.buf.pos s.buf.end_ text
  | .copy src n => readBytes s.mem src n.toNat
  | _ => []

def pointers : BufOp → Buf → Buf
  | .printf text => NgxBuf.printf text
  | .copy _ n => NgxBuf.copy n
  | .consume n => NgxBuf.consume n
  | .produce n => NgxBuf.produce n
  | .clear => NgxBuf.clear
  | .reset => NgxBuf.reset

def step (s : BufMemory) (op : BufOp) : BufMemory :=
  ⟨op.pointers s.buf, writeBytes s.mem s.buf.pos (op.written s)⟩

end BufOp

/-- The pointers are in order, and the buffer has its size. -/
structure Ordered (n : UInt64) (b : Buf) : Prop where
  start_le : b.start ≤ b.pos
  pos_le : b.pos ≤ b.last
  last_le : b.last ≤ b.end_
  size_eq : b.end_ - b.start = n

/-- The operation leaves the pointers in order, and writes between `start` and `end` only. -/
structure KeepsOrder (n : UInt64) (s : BufMemory) (op : BufOp) : Prop where
  ordered : Ordered n (op.step s).buf
  inside : ∀ i < (op.written s).length,
    s.buf.start ≤ s.buf.pos + UInt64.ofNat i ∧ s.buf.pos + UInt64.ofNat i < s.buf.end_

/-- A copy has its space, and a `produce` does not wrap round to before `pos`. -/
def Fits (s : BufMemory) : BufOp → Prop
  | .copy _ n => n ≤ s.buf.end_ - s.buf.pos
  | .produce n =>
      s.buf.last.toNat + n.toNat < 2 ^ 64 ∨ 2 ^ 64 ≤ (s.buf.last - s.buf.pos).toNat + n.toNat
  | _ => True

section steps

variable {n m : UInt64} {b : Buf}

/-- Up to `end`, addresses from `pos` on do not wrap. -/
theorem Ordered.toNat_add (h : Ordered n b) {k : UInt64} (hk : k ≤ b.end_ - b.pos) :
    (b.pos + k).toNat = b.pos.toNat + k.toNat ∧ b.pos.toNat + k.toNat ≤ b.end_.toNat := by
  have hle : b.pos ≤ b.end_ := UInt64.le_trans h.pos_le h.last_le
  have hend : b.end_.toNat < 2 ^ 64 := b.end_.toNat_lt
  rw [UInt64.le_iff_toNat_le, UInt64.toNat_sub_of_le _ _ hle] at hk
  rw [UInt64.le_iff_toNat_le] at hle
  have hsum : b.pos.toNat + k.toNat ≤ b.end_.toNat := by omega
  refine ⟨?_, hsum⟩
  rw [UInt64.toNat_add, Nat.mod_eq_of_lt (Nat.lt_of_le_of_lt hsum hend)]

theorem Ordered.copy (h : Ordered n b) {k : UInt64} (hk : k ≤ b.end_ - b.pos) :
    Ordered n (NgxBuf.copy k b) := by
  rcases h.toNat_add hk with ⟨hadd, hsum⟩
  refine ⟨h.start_le, ?_, ?_, h.size_eq⟩
  · have hpos : b.pos.toNat ≤ (b.pos + k).toNat := hadd ▸ Nat.le_add_right _ _
    exact UInt64.le_iff_toNat_le.2 hpos
  · have hlast : (b.pos + k).toNat ≤ b.end_.toNat := hadd ▸ hsum
    exact UInt64.le_iff_toNat_le.2 hlast

theorem Ordered.clear (h : Ordered n b) : Ordered n (NgxBuf.clear b) :=
  ⟨UInt64.le_trans h.start_le h.pos_le, UInt64.le_refl _, h.last_le, h.size_eq⟩

theorem Ordered.reset (h : Ordered n b) : Ordered n (NgxBuf.reset b) :=
  ⟨UInt64.le_refl _, UInt64.le_refl _,
    UInt64.le_trans (UInt64.le_trans h.start_le h.pos_le) h.last_le, h.size_eq⟩

theorem Ordered.consume (h : Ordered n b) (hsize : NgxBuf.size b ≤ b.last - b.pos) (m : UInt64) :
    Ordered n (NgxBuf.consume m b) := by
  obtain ⟨k, hk⟩ : ∃ k, k = if NgxBuf.size b < m then NgxBuf.size b else m := ⟨_, rfl⟩
  have hle : k.toNat ≤ b.last.toNat - b.pos.toNat := by
    rw [← UInt64.toNat_sub_of_le _ _ h.pos_le, ← UInt64.le_iff_toNat_le, hk]
    split
    · exact hsize
    · exact UInt64.le_trans (UInt64.not_lt.1 ‹_›) hsize
  have hlast : b.last.toNat < 2 ^ 64 := b.last.toNat_lt
  have hpos : b.pos.toNat ≤ b.last.toNat := UInt64.le_iff_toNat_le.1 h.pos_le
  have hadd : (b.pos + k).toNat = b.pos.toNat + k.toNat := by
    rw [UInt64.toNat_add, Nat.mod_eq_of_lt (by omega)]
  have hgo : b.pos ≤ b.pos + k := by
    rw [UInt64.le_iff_toNat_le, hadd]
    exact Nat.le_add_right _ _
  have hend : b.pos + k ≤ b.last := by
    rw [UInt64.le_iff_toNat_le, hadd]
    omega
  rw [NgxBuf.consume, ← hk]
  exact ⟨UInt64.le_trans h.start_le hgo, hend, h.last_le, h.size_eq⟩

/-- `produce` keeps the order where the end of the data does not wrap round to before its beginning. -/
theorem Ordered.produce_iff (h : Ordered n b) (m : UInt64) :
    Ordered n (NgxBuf.produce m b) ↔ b.pos ≤ b.last + m := by
  have hle : b.pos ≤ b.end_ := UInt64.le_trans h.pos_le h.last_le
  rw [NgxBuf.produce]
  by_cases hclamp : b.end_ < b.last + m
  · simp only [hclamp, if_true]
    have hpos : b.pos ≤ b.last + m := UInt64.le_of_lt (UInt64.lt_of_le_of_lt hle hclamp)
    exact iff_of_true ⟨h.start_le, hle, UInt64.le_refl _, h.size_eq⟩ hpos
  · simp only [hclamp, if_false]
    exact ⟨fun h' => h'.pos_le, fun hpos => ⟨h.start_le, hpos, UInt64.not_lt.1 hclamp, h.size_eq⟩⟩

theorem Ordered.le_add_iff (h : Ordered n b) (m : UInt64) :
    b.pos ≤ b.last + m ↔
      b.last.toNat + m.toNat < 2 ^ 64 ∨ 2 ^ 64 ≤ (b.last - b.pos).toNat + m.toNat := by
  have hpos : b.pos.toNat ≤ b.last.toNat := UInt64.le_iff_toNat_le.1 h.pos_le
  have hlast : b.last.toNat < 2 ^ 64 := b.last.toNat_lt
  have hm : m.toNat < 2 ^ 64 := m.toNat_lt
  rw [UInt64.toNat_sub_of_le _ _ h.pos_le, UInt64.le_iff_toNat_le, UInt64.toNat_add]
  omega

/-- The bytes from `pos` on are inside the buffer when there are not too many of them. -/
theorem Ordered.inside_iff (h : Ordered n b) {k : Nat} (hk : k < 2 ^ 64) :
    (∀ i < k, b.start ≤ b.pos + UInt64.ofNat i ∧ b.pos + UInt64.ofNat i < b.end_) ↔
      k ≤ (b.end_ - b.pos).toNat := by
  have hle : b.pos ≤ b.end_ := UInt64.le_trans h.pos_le h.last_le
  constructor
  · intro hinside
    by_contra hmore
    -- The byte at `end` is one of them.
    have hat := (hinside _ (Nat.not_le.1 hmore)).2
    rw [UInt64.ofNat_toNat, UInt64.add_comm, UInt64.sub_add_cancel] at hat
    exact UInt64.lt_irrefl _ hat
  · intro hfits i hi
    have hnat : (UInt64.ofNat i).toNat = i := by
      rw [UInt64.toNat_ofNat', Nat.mod_eq_of_lt (Nat.lt_trans hi hk)]
    have hi' : i < (b.end_ - b.pos).toNat := Nat.lt_of_lt_of_le hi hfits
    have hki : UInt64.ofNat i ≤ b.end_ - b.pos := by
      rw [UInt64.le_iff_toNat_le, hnat]
      exact Nat.le_of_lt hi'
    rcases h.toNat_add hki with ⟨hadd, -⟩
    rw [hnat] at hadd
    rw [UInt64.toNat_sub_of_le _ _ hle] at hi'
    constructor
    · have hgo : b.pos ≤ b.pos + UInt64.ofNat i := by
        rw [UInt64.le_iff_toNat_le, hadd]
        exact Nat.le_add_right _ _
      exact UInt64.le_trans h.start_le hgo
    · rw [UInt64.lt_iff_toNat_lt, hadd]
      omega

theorem length_ngxSlprintf (buf last : UInt64) (text : List UInt8) :
    (ngxSlprintf buf last text).length ≤ (last - buf).toNat := by
  rw [ngxSlprintf]
  split
  · exact List.length_take_le _ _
  · exact Nat.zero_le _

theorem Ordered.printf (h : Ordered n b) (text : List UInt8) : Ordered n (NgxBuf.printf text b) := by
  refine h.copy ?_
  have hlength := length_ngxSlprintf b.pos b.end_ text
  have hlt := (b.end_ - b.pos).toNat_lt
  rw [UInt64.le_iff_toNat_le, UInt64.toNat_ofNat', Nat.mod_eq_of_lt (Nat.lt_of_le_of_lt hlength hlt)]
  exact hlength

end steps

/-! ## Runs -/

/-- What holds of a buffer that `NgxBuf(pool, n)` made, in every state that is in order: a buffer that is not
in memory has no bytes in a file either. -/
structure PoolBuf (n : UInt64) (s : BufMemory) : Prop where
  ordered : Ordered n s.buf
  sized : ngxBufInMemory s.buf = true ∨ s.buf.fileLast = s.buf.filePos

namespace PoolBuf

variable {n : UInt64} {s : BufMemory}

theorem size_le (h : PoolBuf n s) : NgxBuf.size s.buf ≤ s.buf.last - s.buf.pos := by
  rw [NgxBuf.size, ngxBufSize]
  split
  case isTrue => exact UInt64.le_refl _
  case isFalse hmemory =>
    rw [h.sized.resolve_left hmemory, UInt64.sub_self]
    exact UInt64.zero_le

theorem make {start n : UInt64} (hfit : start.toNat + n.toNat < 2 ^ 64) (mem : UInt64 → UInt8) :
    PoolBuf n ⟨NgxBuf.make start n, mem⟩ := by
  rw [NgxBuf.make]
  split
  case isTrue =>
    have hle : start ≤ start + n := by
      rw [UInt64.le_iff_toNat_le, UInt64.toNat_add, Nat.mod_eq_of_lt hfit]
      exact Nat.le_add_right _ _
    refine ⟨⟨UInt64.le_refl _, UInt64.le_refl _, hle, ?_⟩, .inl rfl⟩
    show start + n - start = n
    rw [UInt64.add_comm, UInt64.add_sub_cancel]
  case isFalse hpos =>
    have hzero : n = 0 := UInt64.le_zero_iff.1 (UInt64.not_lt.1 hpos)
    rw [hzero]
    exact ⟨⟨UInt64.le_refl _, UInt64.le_refl _, UInt64.le_refl _, UInt64.sub_self _⟩, .inr rfl⟩

theorem sized_step (h : PoolBuf n s) (op : BufOp) :
    ngxBufInMemory (op.step s).buf = true ∨ (op.step s).buf.fileLast = (op.step s).buf.filePos := by
  cases op with
  | produce m =>
      show ngxBufInMemory (NgxBuf.produce m s.buf) = true ∨
        (NgxBuf.produce m s.buf).fileLast = (NgxBuf.produce m s.buf).filePos
      rw [NgxBuf.produce]
      split <;> exact h.sized
  | _ => exact h.sized

theorem inside_written (h : PoolBuf n s) (op : BufOp) :
    (∀ i < (op.written s).length, s.buf.start ≤ s.buf.pos + UInt64.ofNat i ∧
      s.buf.pos + UInt64.ofNat i < s.buf.end_) ↔
      match op with
      | .copy _ m => m ≤ s.buf.end_ - s.buf.pos
      | _ => True := by
  have hnone : ∀ i < ([] : List UInt8).length, s.buf.start ≤ s.buf.pos + UInt64.ofNat i ∧
      s.buf.pos + UInt64.ofNat i < s.buf.end_ := fun i hi => absurd hi (Nat.not_lt_zero i)
  cases op with
  | printf text =>
      have hlength := length_ngxSlprintf s.buf.pos s.buf.end_ text
      have hlt := Nat.lt_of_le_of_lt hlength (s.buf.end_ - s.buf.pos).toNat_lt
      exact iff_of_true ((h.ordered.inside_iff hlt).2 hlength) trivial
  | copy src m =>
      have hlength : (BufOp.written s (.copy src m)).length = m.toNat := length_readBytes _ _ _
      rw [hlength, h.ordered.inside_iff m.toNat_lt]
      exact UInt64.le_iff_toNat_le.symm
  | consume m => exact iff_of_true hnone trivial
  | produce m => exact iff_of_true hnone trivial
  | clear => exact iff_of_true hnone trivial
  | reset => exact iff_of_true hnone trivial

theorem keepsOrder_iff (h : PoolBuf n s) (op : BufOp) : KeepsOrder n s op ↔ Fits s op := by
  constructor
  · rintro ⟨hordered, hinside⟩
    cases op with
    | copy src m => exact (h.inside_written (.copy src m)).1 hinside
    | produce m => exact (h.ordered.le_add_iff m).1 ((h.ordered.produce_iff m).1 hordered)
    | _ => trivial
  · intro hfits
    cases op with
    | printf text => exact ⟨h.ordered.printf text, (h.inside_written (.printf text)).2 trivial⟩
    | copy src m => exact ⟨h.ordered.copy hfits, (h.inside_written (.copy src m)).2 hfits⟩
    | consume m => exact ⟨h.ordered.consume h.size_le m, (h.inside_written (.consume m)).2 trivial⟩
    | produce m =>
        have hpos := (h.ordered.le_add_iff m).2 hfits
        exact ⟨(h.ordered.produce_iff m).2 hpos, (h.inside_written (.produce m)).2 trivial⟩
    | clear => exact ⟨h.ordered.clear, (h.inside_written .clear).2 trivial⟩
    | reset => exact ⟨h.ordered.reset, (h.inside_written .reset).2 trivial⟩

theorem step (h : PoolBuf n s) {op : BufOp} (hop : Fits s op) : PoolBuf n (op.step s) :=
  ⟨((h.keepsOrder_iff op).2 hop).ordered, h.sized_step op⟩

end PoolBuf

/-- Whatever the operations on a new buffer, its pointers stay in order and its writes inside exactly while
every copy has its space and no `produce` wraps round to before `pos`. -/
theorem pointers_ordered_iff {start size : UInt64} (hfit : start.toNat + size.toNat < 2 ^ 64)
    (mem : UInt64 → UInt8) (ops : List BufOp) :
    Trace.Along BufOp.step (KeepsOrder size) ⟨NgxBuf.make start size, mem⟩ ops ↔
      Trace.Along BufOp.step Fits ⟨NgxBuf.make start size, mem⟩ ops :=
  Trace.along_iff_along (fun _ _ hs hop => hs.step hop) (fun _ op hs => hs.keepsOrder_iff op)
    (PoolBuf.make hfit mem)

theorem pointers_ordered_filled :
    Trace.Along BufOp.step (KeepsOrder 16) ⟨NgxBuf.make 4096 16, fun _ => 0⟩
        [.printf [72, 105], .produce 100, .consume 3, .copy 64 13, .clear, .consume 5, .reset] ↔
      Trace.Along BufOp.step Fits ⟨NgxBuf.make 4096 16, fun _ => 0⟩
        [.printf [72, 105], .produce 100, .consume 3, .copy 64 13, .clear, .consume 5, .reset] :=
  pointers_ordered_iff (by decide) _ _

/-- A copy that is longer than the buffer, and a length that takes `last` back to before `pos`. -/
theorem pointers_out_of_order :
    ¬ Trace.Along BufOp.step (KeepsOrder 16) ⟨NgxBuf.make 4096 16, fun _ => 0⟩
        [.copy 64 17] ∧
      ¬ Trace.Along BufOp.step (KeepsOrder 16) ⟨NgxBuf.make 4096 16, fun _ => 0⟩
        [.produce 0xffffffffffffffff] := by
  have hnew : PoolBuf 16 ⟨NgxBuf.make 4096 16, fun _ => 0⟩ := PoolBuf.make (by decide) _
  constructor
  · intro h
    have hfits : (17 : UInt64) ≤ 4096 + 16 - 4096 :=
      (hnew.keepsOrder_iff (.copy 64 17)).1 (Trace.along_cons.1 h).1
    exact absurd hfits (by decide)
  · intro h
    rcases (hnew.keepsOrder_iff (.produce 0xffffffffffffffff)).1 (Trace.along_cons.1 h).1 with hfit | hback
    · exact absurd hfit (by decide)
    · exact absurd hback (by decide)

end Ngx
end CppPractice
