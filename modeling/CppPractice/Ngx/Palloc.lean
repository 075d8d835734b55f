import CppPractice.Lib.Malloc
import CppPractice.Lib.Trace

/-!
# Palloc — nginx's memory pools

A pool takes blocks from the system and gives out pieces of them one after another.  What is too large for a
block has a region of its own.  The pool keeps its records in its blocks too: where each large region is, and
what is to be called when it is destroyed.

Sizes and addresses are those of a machine with words of eight bytes.  The next block of a block is the next
of a list.
-/

namespace CppPractice
namespace Ngx

open Malloc

/-! ## The pool -/

/-- `NGX_ALIGNMENT` -/
def ngxAlignment : Nat := 8

/-- `NGX_POOL_ALIGNMENT` -/
def ngxPoolAlignment : Nat := 16

/-- `sizeof(ngx_pool_t)` -/
def sizeofPool : Nat := 80

/-- `sizeof(ngx_pool_data_t)` -/
def sizeofPoolData : Nat := 32

/-- `sizeof(ngx_pool_large_t)` -/
def sizeofPoolLarge : Nat := 16

/-- `sizeof(ngx_pool_cleanup_t)` -/
def sizeofPoolCleanup : Nat := 24

/-- `NGX_MIN_POOL_SIZE` -/
def ngxMinPoolSize : Nat := 112

/-- `ngx_pool_data_t`, with its address.  `header` is the size of what is kept before the pieces of the
block; no code reads it. -/
structure PoolBlock where
  addr : Nat
  header : Nat
  last : Nat
  endAddr : Nat
  failed : Nat
  deriving DecidableEq, Repr

/-- `ngx_pool_large_t`, with its address; a region that is freed is null. -/
structure PoolLarge where
  addr : Nat
  alloc : Option Region
  deriving DecidableEq, Repr

/-- `ngx_pool_cleanup_t`, with its address; a handler is given by a number, which is 0 if it is null. -/
structure PoolCleanup where
  addr : Nat
  handler : Nat
  data : Nat
  deriving DecidableEq, Repr

/-- `ngx_pool_t`: its blocks, of which it is itself the first, and the place of `current` among them. -/
structure NgxPoolT where
  blocks : List PoolBlock
  max : Nat
  current : Nat
  large : List PoolLarge
  cleanup : List PoolCleanup

/-- A pool and the memory of the process. -/
structure Memory where
  pool : NgxPoolT
  heap : Malloc.Heap

/-- `ngx_align_ptr(p, NGX_ALIGNMENT)` -/
def ngxAlignPtr (p : Nat) : Nat := (p + (ngxAlignment - 1)) / ngxAlignment * ngxAlignment

/-- `(size_t) (end - m)` -/
def roomAt (endAddr m : Nat) : Nat := (endAddr + 2 ^ 64 - m) % 2 ^ 64

/-- `ngx_create_pool(size, log)` -/
def ngxCreatePool (os : Source) (pagesize size : Nat) (heap : Malloc.Heap) : Option Memory :=
  let r := obtain os ngxPoolAlignment size heap
  r.1.map fun p =>
    { pool := {
        blocks := [⟨p.addr, sizeofPool, p.addr + sizeofPool, p.addr + size, 0⟩]
        max := if size - sizeofPool < pagesize - 1 then size - sizeofPool else pagesize - 1
        current := 0
        large := []
        cleanup := [] }
      heap := r.2 }

/-- The loop of `ngx_palloc` and `ngx_pnalloc` over the blocks, in which `align` is what they do to
`last`. -/
def carve (align : Nat → Nat) (size : Nat) : List PoolBlock → Option (Nat × List PoolBlock)
  | [] => none
  | b :: bs =>
      let m := align b.last
      if size ≤ roomAt b.endAddr m then some (m, { b with last := m + size } :: bs)
      else (carve align size bs).map fun r => (r.1, b :: r.2)

/-- The loop of `ngx_palloc_block` over the blocks from the one at `i`, with the `current` that it
leaves. -/
def countFailures : Nat → Nat → List PoolBlock → List PoolBlock × Nat
  | i, current, b :: c :: bs =>
      let r := countFailures (i + 1) (if 4 < b.failed then i + 1 else current) (c :: bs)
      ({ b with failed := b.failed + 1 } :: r.1, r.2)
  | _, current, bs => (bs, current)

/-- `ngx_palloc_block(pool, size)`, where `psize` is the size of the first block. -/
def ngxPallocBlock (os : Source) (size : Nat) (s : Memory) : Option Nat × Memory :=
  let pool := s.pool
  let psize := match pool.blocks with
    | [] => 0
    | b :: _ => b.endAddr - b.addr
  let r := obtain os ngxPoolAlignment psize s.heap
  match r.1 with
  | none => (none, { s with heap := r.2 })
  | some p =>
      let m := ngxAlignPtr (p.addr + sizeofPoolData)
      let counted := countFailures pool.current pool.current (pool.blocks.drop pool.current)
      (some m, {
        pool := { pool with
          blocks := pool.blocks.take pool.current ++ counted.1 ++
            [⟨p.addr, sizeofPoolData, m + size, p.addr + psize, 0⟩]
          current := counted.2 }
        heap := r.2 })

/-- `ngx_palloc` and `ngx_pnalloc` where a block is large enough. -/
def pallocSmall (os : Source) (align : Nat → Nat) (size : Nat) (s : Memory) : Option Nat × Memory :=
  match carve align size (s.pool.blocks.drop s.pool.current) with
  | some (m, bs) =>
      (some m, { s with pool := { s.pool with blocks := s.pool.blocks.take s.pool.current ++ bs } })
  | none => ngxPallocBlock os size s

/-- The loop of `ngx_palloc_large` over the records, in which `n` have been seen. -/
def reuseLarge (p : Region) : Nat → List PoolLarge → Option (List PoolLarge)
  | _, [] => none
  | n, l :: ls =>
      match l.alloc with
      | none => some ({ l with alloc := some p } :: ls)
      | some _ => if 3 < n then none else (reuseLarge p (n + 1) ls).map (l :: ·)

/-- `large = ngx_palloc(pool, sizeof(ngx_pool_large_t))` for the region `p`, and what follows it.  The
result is `none` where `p` is not one that `ngx_free` takes, and for a pool without room for a record, where
`ngx_palloc` calls itself. -/
def recordLarge (os : Source) (p : Region) (s : Memory) : Option (Option Nat × Memory) :=
  if sizeofPoolLarge ≤ s.pool.max then
    let r := pallocSmall os ngxAlignPtr sizeofPoolLarge s
    match r.1 with
    | none => (free p.addr r.2.heap).map fun h => (none, { r.2 with heap := h })
    | some m => some (some p.addr, { r.2 with
        pool := { r.2.pool with large := ⟨m, some p⟩ :: r.2.pool.large } })
  else
    none

/-- `ngx_palloc_large(pool, size)` -/
def ngxPallocLarge (os : Source) (size : Nat) (s : Memory) : Option (Option Nat × Memory) :=
  let r := obtain os ngxPoolAlignment size s.heap
  let s := { s with heap := r.2 }
  match r.1 with
  | none => some (none, s)
  | some p =>
      match reuseLarge p 0 s.pool.large with
      | some large => some (some p.addr, { s with pool := { s.pool with large := large } })
      | none => recordLarge os p s

/-- `ngx_palloc(pool, size)` -/
def ngxPalloc (os : Source) (size : Nat) (s : Memory) : Option (Option Nat × Memory) :=
  if size ≤ s.pool.max then some (pallocSmall os ngxAlignPtr size s) else ngxPallocLarge os size s

/-- `ngx_pnalloc(pool, size)` -/
def ngxPnalloc (os : Source) (size : Nat) (s : Memory) : Option (Option Nat × Memory) :=
  if size ≤ s.pool.max then some (pallocSmall os id size s) else ngxPallocLarge os size s

/-- `ngx_pmemalign(pool, size, alignment)` -/
def ngxPmemalign (os : Source) (size alignment : Nat) (s : Memory) : Option (Option Nat × Memory) :=
  let r := obtain os alignment size s.heap
  let s := { s with heap := r.2 }
  match r.1 with
  | none => some (none, s)
  | some p => recordLarge os p s

/-- The loop of `ngx_pfree`: the region that is freed, if there is one, and the records it leaves. -/
def releaseLarge (p : Nat) : List PoolLarge → Option (Option Region × List PoolLarge)
  | [] => none
  | l :: ls =>
      if p = (l.alloc.map Region.addr).getD 0 then some (l.alloc, { l with alloc := none } :: ls)
      else (releaseLarge p ls).map fun r => (r.1, l :: r.2)

/-- `ngx_pfree(pool, p)`, and whether it returns `NGX_OK`; a null pointer is 0. -/
def ngxPfree (p : Nat) (s : Memory) : Option (Bool × Memory) :=
  match releaseLarge p s.pool.large with
  | none => some (false, s)
  | some (r, large) =>
      let s := { s with pool := { s.pool with large := large } }
      match r with
      | none => some (true, s)
      | some r => (free r.addr s.heap).map fun h => (true, { s with heap := h })

/-- `ngx_pool_cleanup_add(p, size)` with what `NgxPool::cleanup(func, data, size)` stores in the record;
the result is the memory for the data that comes with it. -/
def NgxPool.cleanup (os : Source) (handler data size : Nat) (s : Memory) :
    Option (Option Nat × Memory) := do
  match ← ngxPalloc os sizeofPoolCleanup s with
  | (none, s) => return (none, s)
  | (some c, s) =>
      if size = 0 then
        return (some 0, { s with pool := { s.pool with cleanup := ⟨c, handler, data⟩ :: s.pool.cleanup } })
      else
        match ← ngxPalloc os size s with
        | (none, s) => return (none, s)
        | (some m, s) =>
            return (some m, { s with pool := { s.pool with
              cleanup := ⟨c, handler, if data = 0 then m else data⟩ :: s.pool.cleanup } })

/-- The addresses of the large regions that are not freed, as the loops over them come to them. -/
def NgxPoolT.allocs (pool : NgxPoolT) : List Region := pool.large.filterMap PoolLarge.alloc

/-- `ngx_reset_pool(pool)` -/
def ngxResetPool (s : Memory) : Option Memory :=
  (freeAll (s.pool.allocs.map Region.addr) s.heap).map fun h =>
    { pool := { s.pool with
        blocks := s.pool.blocks.map fun b => { b with last := b.addr + sizeofPool, failed := 0 }
        current := 0
        large := [] }
      heap := h }

/-- `ngx_destroy_pool(pool)`: the handlers that it calls, each with its data, and the memory it leaves. -/
def ngxDestroyPool (s : Memory) : Option (List (Nat × Nat) × Malloc.Heap) :=
  let called := (s.pool.cleanup.filter fun c => c.handler ≠ 0).map fun c => (c.handler, c.data)
  (freeAll (s.pool.allocs.map Region.addr) s.heap).bind fun h =>
    (freeAll (s.pool.blocks.map PoolBlock.addr) h).map fun h => (called, h)

/-! ## A piece of a block -/

def PoolBlock.region (b : PoolBlock) : Region := ⟨b.addr, b.endAddr - b.addr⟩

/-- The region is one of the pieces that have been taken from the blocks. -/
def InZone (blocks : List PoolBlock) (r : Region) : Prop :=
  ∃ b ∈ blocks, b.addr + b.header ≤ r.addr ∧ r.addr + r.size ≤ b.last

structure PoolBlock.Sound (psize : Nat) (b : PoolBlock) : Prop where
  aligned : ngxPoolAlignment ∣ b.addr
  header : b.header ≤ sizeofPool
  pieces : b.addr + b.header ≤ b.last
  last : b.last ≤ b.endAddr
  endAddr : b.endAddr = b.addr + psize
  limit : b.endAddr < 2 ^ 64

/-- The blocks of a pool, in a heap of which `rest` is what else is in use. -/
structure Memory.Blocks (psize : Nat) (rest : List Region) (s : Memory) : Prop where
  distinct : s.heap.Sound
  owned : s.heap.Perm (s.pool.blocks.map PoolBlock.region ++ rest)
  sound : ∀ b ∈ s.pool.blocks, b.Sound psize
  current : s.pool.current < s.pool.blocks.length
  aligned : ngxPoolAlignment ∣ psize
  max : s.pool.max + sizeofPool ≤ psize
  record : sizeofPoolCleanup ≤ s.pool.max

/-- What `ngx_palloc` and `ngx_pnalloc` do to `last`. -/
structure Rounds (align : Nat → Nat) : Prop where
  le : ∀ p, p ≤ align p
  bound : ∀ {p e}, ngxAlignment ∣ e → p ≤ e → align p ≤ e

theorem rounds_id : Rounds id := ⟨fun _ => Nat.le_refl _, fun _ h => h⟩

theorem dvd_ngxAlignPtr (p : Nat) : ngxAlignment ∣ ngxAlignPtr p := Nat.dvd_mul_left ..

theorem rounds_ngxAlignPtr : Rounds ngxAlignPtr := by
  constructor
  · intro p
    simp only [ngxAlignPtr, ngxAlignment]
    omega
  · intro p e he hp
    simp only [ngxAlignPtr, ngxAlignment] at *
    omega

theorem PoolBlock.Sound.room {psize : Nat} {b : PoolBlock} (hb : b.Sound psize) {m : Nat}
    (hm : m ≤ b.endAddr) : roomAt b.endAddr m = b.endAddr - m := by
  have hlimit := hb.limit
  rw [roomAt, Nat.add_comm, Nat.add_sub_assoc hm, Nat.add_mod_left]
  exact Nat.mod_eq_of_lt (by omega)

theorem PoolBlock.Sound.dvd_end {psize : Nat} {b : PoolBlock} (hb : b.Sound psize)
    (hpsize : ngxPoolAlignment ∣ psize) : ngxAlignment ∣ b.endAddr := by
  have haligned := hb.aligned
  rw [hb.endAddr]
  simp only [ngxPoolAlignment, ngxAlignment] at *
  omega

section pieces

variable {psize size : Nat} {align : Nat → Nat} {blocks : List PoolBlock}

/-- The loop takes the piece from a block that has room for it. -/
theorem carve_eq_some {bs' : List PoolBlock} {m : Nat} (h : carve align size blocks = some (m, bs')) :
    ∃ before b after, blocks = before ++ b :: after ∧ m = align b.last ∧
      size ≤ roomAt b.endAddr m ∧ bs' = before ++ { b with last := m + size } :: after := by
  induction blocks generalizing bs' with
  | nil => cases h
  | cons b bs ih =>
      rw [carve] at h
      split_ifs at h with hroom
      · cases h
        exact ⟨[], b, bs, rfl, rfl, hroom, rfl⟩
      · rcases Option.map_eq_some_iff.1 h with ⟨⟨m', bs''⟩, hrest, heq⟩
        cases heq
        rcases ih hrest with ⟨before, c, after, hbs, hm, hsize, hbs'⟩
        refine ⟨b :: before, c, after, ?_, hm, hsize, ?_⟩
        · rw [hbs, List.cons_append]
        · rw [List.cons_append, ← hbs']

/-- Only the counters change. -/
theorem countFailures_spec (i current : Nat) (bs : List PoolBlock) :
    (countFailures i current bs).1.map (fun b => { b with failed := 0 }) =
        bs.map (fun b => { b with failed := 0 }) ∧
      ((countFailures i current bs).2 = current ∨
        i < (countFailures i current bs).2 ∧ (countFailures i current bs).2 < i + bs.length) := by
  induction bs generalizing i current with
  | nil => exact ⟨rfl, .inl rfl⟩
  | cons b bs ih =>
      cases bs with
      | nil => exact ⟨rfl, .inl rfl⟩
      | cons c bs =>
          rcases ih (i + 1) (if 4 < b.failed then i + 1 else current) with ⟨hblocks, hcurrent⟩
          refine ⟨?_, ?_⟩
          · rw [countFailures, List.map_cons, hblocks]
            rfl
          · rw [countFailures]
            dsimp only
            simp only [List.length_cons] at *
            by_cases hfailed : 4 < b.failed
            · rw [if_pos hfailed] at hcurrent ⊢
              omega
            · rw [if_neg hfailed] at hcurrent ⊢
              omega

theorem InZone.of_counters {bs bs' : List PoolBlock}
    (h : bs'.map (fun b => { b with failed := 0 }) = bs.map (fun b => { b with failed := 0 }))
    {r : Region} : InZone bs r → InZone bs' r := by
  rintro ⟨b, hb, hlow, hhigh⟩
  have hmem : { b with failed := 0 } ∈ bs'.map (fun b : PoolBlock => { b with failed := 0 }) := by
    rw [h]
    exact List.mem_map_of_mem hb
  rcases List.mem_map.1 hmem with ⟨c, hc, heq⟩
  refine ⟨c, hc, ?_, ?_⟩
  · have haddr := congrArg PoolBlock.addr heq
    have hheader := congrArg PoolBlock.header heq
    dsimp only at haddr hheader
    omega
  · have hlast := congrArg PoolBlock.last heq
    dsimp only at hlast
    omega

end pieces

/-- What taking a piece of `size` bytes does to the blocks of `s`. -/
structure Carved (psize : Nat) (rest : List Region) (size : Nat) (s : Memory)
    (out : Option Nat × Memory) : Prop where
  blocks : out.2.Blocks psize rest
  large : out.2.pool.large = s.pool.large
  cleanup : out.2.pool.cleanup = s.pool.cleanup
  max : out.2.pool.max = s.pool.max
  headers : ∀ b ∈ s.pool.blocks, ∃ c ∈ out.2.pool.blocks, c.addr = b.addr ∧ c.header = b.header
  zone : ∀ r, InZone s.pool.blocks r → InZone out.2.pool.blocks r
  piece : ∀ m, out.1 = some m → InZone out.2.pool.blocks ⟨m, size⟩ ∧
    ∀ r, InZone s.pool.blocks r → r.Apart ⟨m, size⟩

section carving

variable {psize size : Nat} {rest : List Region} {s : Memory} {os : Source} {align : Nat → Nat}

theorem PoolBlock.Sound.within {b : PoolBlock} (hb : b.Sound psize) {r : Region}
    (hlow : b.addr + b.header ≤ r.addr) (hhigh : r.addr + r.size ≤ b.last) : r.Within b.region := by
  have hlast := hb.last
  constructor
  · change b.addr ≤ r.addr
    omega
  · change r.addr + r.size ≤ b.addr + (b.endAddr - b.addr)
    omega

/-- The regions of two blocks of the list are apart. -/
theorem Memory.Blocks.apart (hs : s.Blocks psize rest) {before after : List PoolBlock} {b c : PoolBlock}
    (hblocks : s.pool.blocks = before ++ b :: after) (hc : c ∈ before ∨ c ∈ after) :
    c.region.Apart b.region := by
  have hpairwise := (List.pairwise_append.1 (hs.distinct.perm hs.owned)).1
  rw [hblocks, List.map_append, List.map_cons] at hpairwise
  rcases List.pairwise_append.1 hpairwise with ⟨-, htail, hcross⟩
  rcases hc with hc | hc
  · exact (hcross _ (List.mem_map_of_mem hc) _ List.mem_cons_self).2
  · exact ((List.pairwise_cons.1 htail).1 _ (List.mem_map_of_mem hc)).2.symm

/-- A piece that a block has room for. -/
theorem Carved.of_block (hs : s.Blocks psize rest) {front after : List PoolBlock} {b : PoolBlock}
    (hblocks : s.pool.blocks = front ++ b :: after) {m : Nat} (hm : b.last ≤ m)
    (hend : m + size ≤ b.endAddr) :
    Carved psize rest size s (some m, { s with
      pool := { s.pool with blocks := front ++ { b with last := m + size } :: after } }) := by
  have hb : b.Sound psize := hs.sound b (by simp [hblocks])
  have hpieces := hb.pieces
  have hpiece : Region.Within ⟨m, size⟩ b.region := by
    refine ⟨?_, ?_⟩
    · change b.addr ≤ m
      omega
    · change m + size ≤ b.addr + (b.endAddr - b.addr)
      omega
  -- every block but the changed one is still there
  have hkept : ∀ c ∈ s.pool.blocks, c = b ∨ (c ∈ front ∨ c ∈ after) := by
    intro c hc
    rw [hblocks, List.mem_append, List.mem_cons] at hc
    rcases hc with hc | hc | hc
    · exact .inr (.inl hc)
    · exact .inl hc
    · exact .inr (.inr hc)
  have hmem : ∀ c, c ∈ front ∨ c ∈ after → c ∈ front ++ { b with last := m + size } :: after := by
    rintro c (hc | hc)
    · exact List.mem_append_left _ hc
    · exact List.mem_append_right _ (List.mem_cons_of_mem _ hc)
  have hnew : { b with last := m + size } ∈ front ++ { b with last := m + size } :: after :=
    List.mem_append_right _ List.mem_cons_self
  refine ⟨⟨hs.distinct, ?_, ?_, ?_, hs.aligned, hs.max, hs.record⟩, rfl, rfl, rfl, ?_, ?_, ?_⟩
  · have howned := hs.owned
    rw [hblocks, List.map_append, List.map_cons] at howned
    rw [List.map_append, List.map_cons]
    exact howned
  · intro c hc
    rw [List.mem_append, List.mem_cons] at hc
    rcases hc with hc | rfl | hc
    · exact hs.sound c (by simp [hblocks, hc])
    · exact ⟨hb.aligned, hb.header, by dsimp only; omega, hend, hb.endAddr, hb.limit⟩
    · exact hs.sound c (by simp [hblocks, hc])
  · have hcurrent := hs.current
    rw [hblocks] at hcurrent
    simpa using hcurrent
  · intro c hc
    rcases hkept c hc with rfl | hc
    · exact ⟨_, hnew, rfl, rfl⟩
    · exact ⟨c, hmem c hc, rfl, rfl⟩
  · rintro r ⟨c, hc, hlow, hhigh⟩
    rcases hkept c hc with rfl | hc
    · refine ⟨_, hnew, hlow, ?_⟩
      dsimp only
      omega
    · exact ⟨c, hmem c hc, hlow, hhigh⟩
  · rintro _ ⟨⟩
    refine ⟨⟨_, hnew, ?_, Nat.le_refl _⟩, ?_⟩
    · dsimp only
      omega
    · rintro r ⟨c, hc, hlow, hhigh⟩
      have hwithin : r.Within c.region := (hs.sound c hc).within hlow hhigh
      rcases hkept c hc with rfl | hother
      · exact .inl (by dsimp only; omega)
      · exact (hs.apart hblocks hother).mono hwithin hpiece

theorem Carved.carve (hs : s.Blocks psize rest) (halign : Rounds align) {m : Nat} {bs : List PoolBlock}
    (h : carve align size (s.pool.blocks.drop s.pool.current) = some (m, bs)) :
    Carved psize rest size s (some m, { s with
      pool := { s.pool with blocks := s.pool.blocks.take s.pool.current ++ bs } }) := by
  rcases carve_eq_some h with ⟨before, b, after, hdrop, rfl, hroom, rfl⟩
  have hblocks : s.pool.blocks = (s.pool.blocks.take s.pool.current ++ before) ++ b :: after := by
    rw [List.append_assoc, ← hdrop, List.take_append_drop]
  have hb : b.Sound psize := hs.sound b (by rw [hblocks]; simp)
  have hbound : align b.last ≤ b.endAddr := halign.bound (hb.dvd_end hs.aligned) hb.last
  rw [hb.room hbound] at hroom
  rw [← List.append_assoc]
  exact Carved.of_block hs hblocks (halign.le _) (by omega)

/-- A new block behind the others. -/
theorem Carved.block (hs : s.Blocks psize rest) (hos : os.Lawful) (hsize : size ≤ s.pool.max) :
    Carved psize rest size s (ngxPallocBlock os size s) := by
  have hfirst : (match s.pool.blocks with
      | [] => 0
      | b :: _ => b.endAddr - b.addr) = psize := by
    cases hblocks : s.pool.blocks with
    | nil =>
        have hcurrent := hs.current
        rw [hblocks] at hcurrent
        exact absurd hcurrent (Nat.not_lt_zero _)
    | cons b bs =>
        have hend := (hs.sound b (by simp [hblocks])).endAddr
        dsimp only
        omega
  rw [ngxPallocBlock]
  dsimp only
  rw [hfirst]
  rcases obtain_cases os ngxPoolAlignment psize s.heap with hnone | ⟨a, ha, hsome⟩
  · rw [hnone]
    refine ⟨hs, rfl, rfl, rfl, fun b hb => ⟨b, hb, rfl, rfl⟩, fun r hr => hr, ?_⟩
    intro m hm
    cases hm
  rw [hsome]
  dsimp only
  have hdvd : ngxPoolAlignment ∣ a := hos.aligned ha
  have hm : ngxAlignPtr (a + sizeofPoolData) = a + sizeofPoolData := by
    simp only [ngxAlignPtr, ngxPoolAlignment, sizeofPoolData, ngxAlignment] at *
    omega
  rw [hm]
  have hroom : a + sizeofPoolData + size ≤ a + psize := by
    have hmax := hs.max
    simp only [sizeofPool, sizeofPoolData] at *
    omega
  rcases countFailures_spec s.pool.current s.pool.current (s.pool.blocks.drop s.pool.current) with
    ⟨hcounters, hcurrent⟩
  generalize countFailures s.pool.current s.pool.current (s.pool.blocks.drop s.pool.current) = counted at *
  -- the old blocks, but for their counters
  have hold : (s.pool.blocks.take s.pool.current ++ counted.1).map (fun b => { b with failed := 0 }) =
      s.pool.blocks.map (fun b => { b with failed := 0 }) := by
    rw [List.map_append, hcounters, ← List.map_append, List.take_append_drop]
  generalize hbs : s.pool.blocks.take s.pool.current ++ counted.1 = bs at *
  have hlength : bs.length = s.pool.blocks.length := by
    simpa using congrArg List.length hold
  have hregions : bs.map PoolBlock.region = s.pool.blocks.map PoolBlock.region := by
    have hmap := congrArg (List.map PoolBlock.region) hold
    rw [List.map_map, List.map_map] at hmap
    exact hmap
  have hblock : ∀ b ∈ bs, b.Sound psize := by
    intro b hb
    have hmem : { b with failed := 0 } ∈ s.pool.blocks.map (fun b : PoolBlock => { b with failed := 0 }) := by
      rw [← hold]
      exact List.mem_map_of_mem hb
    rcases List.mem_map.1 hmem with ⟨c, hc, heq⟩
    have hsound := hs.sound c hc
    have haddr := congrArg PoolBlock.addr heq
    have hheader := congrArg PoolBlock.header heq
    have hlast := congrArg PoolBlock.last heq
    have hend := congrArg PoolBlock.endAddr heq
    dsimp only at haddr hheader hlast hend
    refine ⟨?_, ?_, ?_, ?_, ?_, ?_⟩
    · rw [← haddr]
      exact hsound.aligned
    · rw [← hheader]
      exact hsound.header
    · rw [← haddr, ← hheader, ← hlast]
      exact hsound.pieces
    · rw [← hlast, ← hend]
      exact hsound.last
    · rw [← hend, ← haddr]
      exact hsound.endAddr
    · rw [← hend]
      exact hsound.limit
  -- what lies in a block lies in it still
  have hzone : ∀ r, InZone s.pool.blocks r → InZone (bs ++ [⟨a, sizeofPoolData, a + sizeofPoolData + size,
      a + psize, 0⟩]) r := by
    intro r hr
    rcases InZone.of_counters hold hr with ⟨b, hb, hlow, hhigh⟩
    exact ⟨b, List.mem_append_left _ hb, hlow, hhigh⟩
  refine ⟨⟨?_, ?_, ?_, ?_, hs.aligned, hs.max, hs.record⟩, rfl, rfl, rfl, ?_, hzone, ?_⟩
  · exact hos.sound hs.distinct ha
  · rw [List.map_append, hregions, List.append_assoc]
    have hnew : PoolBlock.region ⟨a, sizeofPoolData, a + sizeofPoolData + size, a + psize, 0⟩ =
        ⟨a, psize⟩ := by
      simp [PoolBlock.region]
    rw [List.map_singleton, hnew]
    exact (hs.owned.cons _).trans List.perm_middle.symm
  · intro b hb
    rcases List.mem_append.1 hb with hb | hb
    · exact hblock b hb
    · rw [List.mem_singleton.1 hb]
      have hheader : sizeofPoolData ≤ sizeofPool := by decide
      refine ⟨hdvd, hheader, ?_, hroom, rfl, hos.limit ha⟩
      dsimp only
      omega
  · have hlt := hs.current
    rw [List.length_drop] at hcurrent
    rw [List.length_append, hlength, List.length_singleton]
    dsimp only
    omega
  · intro b hb
    have hmem : { b with failed := 0 } ∈ bs.map (fun b : PoolBlock => { b with failed := 0 }) := by
      rw [hold]
      exact List.mem_map_of_mem hb
    rcases List.mem_map.1 hmem with ⟨c, hc, heq⟩
    have haddr := congrArg PoolBlock.addr heq
    have hheader := congrArg PoolBlock.header heq
    exact ⟨c, List.mem_append_left _ hc, haddr, hheader⟩
  · -- a fresh region overlaps no block there was
    rintro _ ⟨⟩
    refine ⟨⟨_, List.mem_append_right _ (List.mem_singleton_self _), Nat.le_refl _, Nat.le_refl _⟩, ?_⟩
    rintro r ⟨c, hc, hlow, hhigh⟩
    have hwithin : r.Within c.region := (hs.sound c hc).within hlow hhigh
    have hmem : c.region ∈ s.heap :=
      hs.owned.mem_iff.2 (List.mem_append_left _ (List.mem_map_of_mem hc))
    have hapart : c.region.Apart ⟨a, psize⟩ := (hos.fresh ha _ hmem).2.symm
    refine hapart.mono hwithin ⟨?_, hroom⟩
    dsimp only
    omega

theorem Carved.small (hs : s.Blocks psize rest) (hos : os.Lawful) (halign : Rounds align)
    (hsize : size ≤ s.pool.max) : Carved psize rest size s (pallocSmall os align size s) := by
  rw [pallocSmall]
  cases hcarve : Ngx.carve align size (s.pool.blocks.drop s.pool.current) with
  | none => exact Carved.block hs hos hsize
  | some r => exact Carved.carve hs halign hcarve

/-- The pieces of `ngx_palloc` are aligned. -/
theorem dvd_pallocSmall {m : Nat}
    (h : (pallocSmall os ngxAlignPtr size s).1 = some m) : ngxAlignment ∣ m := by
  rw [pallocSmall] at h
  cases hcarve : Ngx.carve ngxAlignPtr size (s.pool.blocks.drop s.pool.current) with
  | none =>
      rw [hcarve] at h
      dsimp only at h
      rw [ngxPallocBlock] at h
      dsimp only at h
      split at h
      · cases h
      · cases h
        exact dvd_ngxAlignPtr _
  | some r =>
      rw [hcarve] at h
      rcases carve_eq_some hcarve with ⟨before, b, after, -, hm, -⟩
      cases h
      rw [hm]
      exact dvd_ngxAlignPtr _

end carving

end Ngx
end CppPractice
