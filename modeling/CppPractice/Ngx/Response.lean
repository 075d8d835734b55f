import CppPractice.Ngx.Buf
import Mathlib.Data.UInt

/-!
# Response — what handlers send

The sends of `NgxResponse`, `ngx_http_send_special`, and the echo handler.  A send makes a chain of one
buffer and gives it to the output filters; what they do to the heap afterwards is not said here, so that
each send starts from whatever heap there is by then.
-/

namespace CppPractice
namespace Ngx

open Segment Heap

/-- What an `off_t` holds of a number: the number modulo 2^64, with a sign. -/
def toOffT (n : Int) : Int := n.bmod (2 ^ 64)

theorem toOffT_eq_iff (n : Nat) : toOffT n = n ↔ n < 2 ^ 63 := by
  unfold toOffT
  simp only [Int.bmod]
  split <;> omega

/-! ## Sends -/

namespace NgxResponse

/-- `send(ngx_buf_t* buf)`, up to the output filters -/
def sendBuf (buf : Nat) (h : Heap) : Nat × Heap :=
  let ch := NgxPool.chain h
  (ch.1, ch.2.setBuf ch.1 buf)

/-- `send(ngx_str_t* str)` -/
def sendStr (s : NgxStr) (h : Heap) : Nat × Heap :=
  let buf := NgxPool.buffer h
  sendBuf buf.1 (buf.2.updateBuf buf.1 (NgxBuf.range s))

end NgxResponse

/-- The buffer of `ngx_http_send_special`; `whole` is `r == r->main && !r->post_action`. -/
def specialBuf (whole last flush : Bool) : Buf :=
  { Buf.zero with
    lastBuf := last && whole
    sync := last && !whole
    lastInChain := last && !whole
    flush := flush }

@[simp] theorem size_specialBuf (whole last flush : Bool) :
    NgxBuf.size (specialBuf whole last flush) = 0 := by
  simp [NgxBuf.size, ngxBufSize, ngxBufInMemory, specialBuf, Buf.zero]

/-- `ngx_http_send_special(r, flags)`, up to the output filters; the chain link is a local variable. -/
def ngxHttpSendSpecial (whole last flush : Bool) (h : Heap) : Nat × Heap :=
  let b := h.brk
  let out := h.brk + 1
  (out,
    { h with
      brk := h.brk + 2
      buf := Function.update h.buf b (specialBuf whole last flush)
      link := Function.update h.link out ⟨b, 0⟩ })

/-- The sends of `NgxResponse` that handlers use. -/
inductive Send
  | str (s : NgxStr)
  | flush
  | eof
  deriving DecidableEq, Repr

namespace Send

def chain (whole : Bool) : Send → Heap → Nat × Heap
  | .str s => NgxResponse.sendStr s
  | .flush => ngxHttpSendSpecial whole false true
  | .eof => ngxHttpSendSpecial whole true false

def buf (whole : Bool) : Send → Buf
  | .str s => NgxBuf.range s Buf.zero
  | .flush => specialBuf whole false true
  | .eof => specialBuf whole true false

end Send

section sends

variable {h : Heap} {used : List Nat}

theorem sendBuf_spec (hready : h.Ready used) {buf : Nat} (hbuf : buf < h.brk) :
    ∃ n g, NgxResponse.sendBuf buf h = (n, g) ∧ n ∉ used ∧ g.Owns n [n] ∧ g.Ready (n :: used) ∧
      (g.link n).buf = buf ∧ g.mem = h.mem ∧ g.buf = h.buf ∧ h.brk ≤ g.brk ∧
      ∀ q, q ≠ n → g.link q = h.link q := by
  rcases NgxPool.chain_spec hready with
    ⟨n, h', hchain, hn0, hnot, hready', hnext, hlink, hbufs, hmem, hbrk⟩
  have hready'' : (h'.setBuf n buf).Ready (n :: used) :=
    hready'.congr rfl (Nat.le_refl _) fun _ _ _ => by simp
  have hat : (h'.setBuf n buf).link n = ⟨buf, 0⟩ := by
    simpa [Heap.setBuf, Heap.next] using hnext
  refine ⟨n, h'.setBuf n buf, ?_, hnot, ⟨?_, hready''.mono (by simp), ?_⟩, hready'',
    congrArg Link.buf hat, hmem, hbufs, hbrk, ?_⟩
  · simp [NgxResponse.sendBuf, hchain]
  · apply Chain.cons hn0
    have hnull : (h'.setBuf n buf).next n = 0 := congrArg Link.next hat
    rw [hnull]
    exact Chain.nil _ _
  · intro q hq
    rw [List.mem_singleton.1 hq, hat]
    exact Nat.lt_of_lt_of_le hbuf hbrk
  · intro q hq
    simp [Heap.setBuf, hq, hlink]

theorem sendSpecial_spec (whole last flush : Bool) (hready : h.Ready used) :
    ∃ n g, ngxHttpSendSpecial whole last flush h = (n, g) ∧ n ∉ used ∧ g.Owns n [n] ∧
      g.Ready (n :: used) ∧ g.data n = specialBuf whole last flush ∧ g.mem = h.mem ∧
      (∀ b < h.brk, g.buf b = h.buf b) ∧ h.brk ≤ g.brk ∧ ∀ q ∈ used, g.link q = h.link q := by
  obtain ⟨g, hg⟩ : ∃ g, g = (ngxHttpSendSpecial whole last flush h).2 := ⟨_, rfl⟩
  have hlink : g.link = Function.update h.link (h.brk + 1) ⟨h.brk, 0⟩ := by rw [hg]; rfl
  have hbufs : g.buf = Function.update h.buf h.brk (specialBuf whole last flush) := by rw [hg]; rfl
  have hbrk : g.brk = h.brk + 2 := by rw [hg]; rfl
  have hold : ∀ q, q < h.brk → g.link q = h.link q := by
    intro q hq
    rw [hlink, Function.update_of_ne (Nat.ne_of_lt (Nat.lt_succ_of_lt hq))]
  have hready' : g.Ready ((h.brk + 1) :: used) := by
    apply hready.fresh _ (Nat.le_succ _) (hbrk ▸ Nat.lt_succ_self _)
    · exact fun q hq => congrArg Link.next (hold q hq)
    · rw [hg]
      rfl
  refine ⟨h.brk + 1, g, by rw [hg]; rfl, ?_, ⟨?_, hready'.mono (by simp), ?_⟩, hready', ?_, ?_, ?_,
    ?_, ?_⟩
  · exact fun hmem => Nat.not_succ_lt_self (hready.used_lt _ hmem)
  · apply Chain.cons (Nat.succ_ne_zero _)
    have hnull : g.next (h.brk + 1) = 0 := by simp [Heap.next, hlink]
    rw [hnull]
    exact Chain.nil _ _
  · intro q hq
    rw [List.mem_singleton.1 hq, hlink, Function.update_self, hbrk]
    exact Nat.lt_add_of_pos_right Nat.two_pos
  · simp [data, hlink, hbufs]
  · rw [hg]
    rfl
  · intro b hb
    rw [hbufs, Function.update_of_ne (Nat.ne_of_lt hb)]
  · rw [hbrk]
    exact Nat.le_add_right _ _
  · exact fun q hq => hold q (hready.used_lt q hq)

/-- A send gives the output filters a chain of one new link with the buffer of the send, and leaves
everything that was in use. -/
theorem Send.chain_spec (whole : Bool) (op : Send) (hready : h.Ready used) :
    ∃ n g, op.chain whole h = (n, g) ∧ n ∉ used ∧ g.Owns n [n] ∧ g.Ready (n :: used) ∧
      g.data n = op.buf whole ∧ g.mem = h.mem ∧ (∀ b < h.brk, g.buf b = h.buf b) ∧
      h.brk ≤ g.brk ∧ ∀ q ∈ used, g.link q = h.link q := by
  cases op with
  | str s =>
      have hready' : ((NgxPool.buffer h).2.updateBuf h.brk (NgxBuf.range s)).Ready used :=
        hready.congr rfl (Nat.le_succ _) fun _ _ _ => rfl
      rcases sendBuf_spec hready' (Nat.lt_succ_self h.brk) with
        ⟨n, g, hsend, hnot, howns, hg, hbuf, hmem, hbufs, hbrk, hlink⟩
      refine ⟨n, g, hsend, hnot, howns, hg, ?_, hmem, ?_, Nat.le_of_succ_le hbrk, ?_⟩
      · simp [data, hbuf, hbufs, updateBuf, NgxPool.buffer, Send.buf]
      · intro b hb
        have hne : b ≠ h.brk := Nat.ne_of_lt hb
        simp [hbufs, updateBuf, NgxPool.buffer, hne]
      · intro q hq
        have hne : q ≠ n := fun heq => hnot (heq ▸ hq)
        exact hlink q hne
  | flush => exact sendSpecial_spec whole false true hready
  | eof => exact sendSpecial_spec whole true false hready

end sends

/-! ## NdgEchoHandler -/

namespace NdgEchoHandler

/-- `process(r)`: the declared length and the sends; `comma` is the address of the pool's copy of the
comma.  Any method but `GET` is not allowed. -/
def process (get : Bool) (msg args : NgxStr) (comma : UInt64) : Option (Int × List Send) :=
  if get then
    let len := if NgxString.empty args then msg.len else msg.len + (args.len + 1)
    let sends := if NgxString.empty args then [] else [Send.str args, .str ⟨comma, 1⟩]
    some (toOffT len.toNat, sends ++ [.str msg, .flush, .eof])
  else
    none

end NdgEchoHandler

end Ngx
end CppPractice
