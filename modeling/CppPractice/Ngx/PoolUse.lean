import CppPractice.Ngx.Palloc

/-!
# PoolUse — every use of a memory pool

The users of a pool ask for memory, give large regions back and register what is to be called at the end.
Each call comes with the answers of the system, which are any that keep regions in use apart.

What the users have is apart from what other users have and from the records of the pool, and lies in memory
that the system has given.  Destroying the pool calls what has been registered, the last first, and gives back
all that was taken.
-/

namespace CppPractice
namespace Ngx

open Malloc

/-! ## What a pool keeps -/

namespace NgxPoolT

/-- The records that the pool keeps among the pieces of its blocks. -/
def pieces (pool : NgxPoolT) : List Region :=
  pool.large.map (fun l => ⟨l.addr, sizeofPoolLarge⟩) ++
    pool.cleanup.map fun c => ⟨c.addr, sizeofPoolCleanup⟩

/-- The fronts of the blocks, which hold the pool itself and where each block ends. -/
def headers (pool : NgxPoolT) : List Region := pool.blocks.map fun b => ⟨b.addr, b.header⟩

end NgxPoolT

/-- The pool of `s` is in order: `taken` are the pieces of its blocks that users have, `others` the regions
in use by others. -/
structure Memory.Sound (psize : Nat) (others taken : List Region) (s : Memory) : Prop where
  blocks : s.Blocks psize (s.pool.allocs ++ others)
  apart : (taken ++ s.pool.pieces).Pairwise Region.Apart
  zone : ∀ r ∈ taken ++ s.pool.pieces, InZone s.pool.blocks r
  pos : ∀ r ∈ s.pool.allocs, 0 < r.addr

section sound

variable {psize size : Nat} {others taken taken' : List Region} {s : Memory} {os : Source} {p : Region}

theorem Memory.Sound.sublist (hs : s.Sound psize others taken) (h : taken'.Sublist taken) :
    s.Sound psize others taken' :=
  ⟨hs.blocks, hs.apart.sublist (h.append (.refl _)), fun r hr => hs.zone r ((h.append (.refl _)).subset hr),
    hs.pos⟩

theorem Memory.Sound.perm (hs : s.Sound psize others taken) (h : taken.Perm taken') :
    s.Sound psize others taken' := by
  have hperm : (taken ++ s.pool.pieces).Perm (taken' ++ s.pool.pieces) := h.append_right _
  exact ⟨hs.blocks, (hperm.pairwise_iff Region.Apart.symm).1 hs.apart,
    fun r hr => hs.zone r (hperm.mem_iff.2 hr), hs.pos⟩

/-- Another list of large regions, with the same records. -/
theorem Memory.Sound.setLarge (hs : s.Sound psize others taken) (others' : List Region)
    {large : List PoolLarge} (haddr : large.map PoolLarge.addr = s.pool.large.map PoolLarge.addr)
    (hperm : (s.pool.allocs ++ others).Perm (large.filterMap PoolLarge.alloc ++ others'))
    (hpos : ∀ r ∈ large.filterMap PoolLarge.alloc, 0 < r.addr) :
    Memory.Sound psize others' taken { s with pool := { s.pool with large := large } } := by
  have hpieces : NgxPoolT.pieces { s.pool with large := large } = s.pool.pieces := by
    have hmap := congrArg (List.map fun a => (⟨a, sizeofPoolLarge⟩ : Region)) haddr
    rw [List.map_map, List.map_map] at hmap
    exact congrArg (· ++ _) hmap
  have hblocks := hs.blocks
  refine ⟨⟨hblocks.distinct, ?_, hblocks.sound, hblocks.current, hblocks.aligned, hblocks.max,
    hblocks.record⟩, ?_, ?_, hpos⟩
  · exact hblocks.owned.trans (hperm.append_left _)
  · change (taken ++ NgxPoolT.pieces { s.pool with large := large }).Pairwise _
    rw [hpieces]
    exact hs.apart
  · change ∀ r ∈ taken ++ NgxPoolT.pieces { s.pool with large := large }, _
    rw [hpieces]
    exact hs.zone

/-- A new piece for the users. -/
theorem Memory.Sound.carved (hs : s.Sound psize others taken) {out : Option Nat × Memory}
    (hout : Carved psize (s.pool.allocs ++ others) size s out) :
    out.2.Sound psize others taken ∧
      ∀ m, out.1 = some m → out.2.Sound psize others (⟨m, size⟩ :: taken) := by
  have hallocs : out.2.pool.allocs = s.pool.allocs := congrArg (List.filterMap _) hout.large
  have hpieces : out.2.pool.pieces = s.pool.pieces := by
    rw [NgxPoolT.pieces, hout.large, hout.cleanup, NgxPoolT.pieces]
  have hblocks : out.2.Blocks psize (out.2.pool.allocs ++ others) := by
    rw [hallocs]
    exact hout.blocks
  have hpos : ∀ r ∈ out.2.pool.allocs, 0 < r.addr := by
    rw [hallocs]
    exact hs.pos
  refine ⟨⟨hblocks, ?_, ?_, hpos⟩, fun m hm => ⟨hblocks, ?_, ?_, hpos⟩⟩
  · rw [hpieces]
    exact hs.apart
  · rw [hpieces]
    exact fun r hr => hout.zone r (hs.zone r hr)
  · rw [hpieces, List.cons_append, List.pairwise_cons]
    exact ⟨fun r hr => ((hout.piece m hm).2 r (hs.zone r hr)).symm, hs.apart⟩
  · rw [hpieces, List.cons_append]
    intro r hr
    rcases List.mem_cons.1 hr with rfl | hr
    · exact (hout.piece m hm).1
    · exact hout.zone r (hs.zone r hr)

/-- The users' newest piece becomes a record of a large region. -/
theorem Memory.Sound.addLarge {m : Nat}
    (hs : s.Sound psize (p :: others) (⟨m, sizeofPoolLarge⟩ :: taken)) (hp : 0 < p.addr) :
    Memory.Sound psize others taken
      { s with pool := { s.pool with large := ⟨m, some p⟩ :: s.pool.large } } := by
  have hblocks := hs.blocks
  have hperm : ((⟨m, sizeofPoolLarge⟩ :: taken) ++ s.pool.pieces).Perm
      (taken ++ (⟨m, sizeofPoolLarge⟩ :: s.pool.pieces)) := List.perm_middle.symm
  refine ⟨⟨hblocks.distinct, ?_, hblocks.sound, hblocks.current, hblocks.aligned, hblocks.max,
    hblocks.record⟩, ?_, ?_, ?_⟩
  · exact hblocks.owned.trans (List.perm_middle.append_left _)
  · exact (hperm.pairwise_iff Region.Apart.symm).1 hs.apart
  · exact fun r hr => hs.zone r (hperm.mem_iff.2 hr)
  · intro r hr
    rcases List.mem_cons.1 hr with rfl | hr
    · exact hp
    · exact hs.pos r hr

/-- It becomes a record of what is to be called. -/
theorem Memory.Sound.addCleanup {m handler data : Nat}
    (hs : s.Sound psize others (⟨m, sizeofPoolCleanup⟩ :: taken)) :
    Memory.Sound psize others taken
      { s with pool := { s.pool with cleanup := ⟨m, handler, data⟩ :: s.pool.cleanup } } := by
  have hblocks := hs.blocks
  have hperm : ((⟨m, sizeofPoolCleanup⟩ :: taken) ++ s.pool.pieces).Perm
      (taken ++ NgxPoolT.pieces { s.pool with cleanup := ⟨m, handler, data⟩ :: s.pool.cleanup }) := by
    have hpieces : (⟨m, sizeofPoolCleanup⟩ :: s.pool.pieces).Perm
        (NgxPoolT.pieces { s.pool with cleanup := ⟨m, handler, data⟩ :: s.pool.cleanup }) :=
      List.perm_middle.symm
    exact List.perm_middle.symm.trans (hpieces.append_left _)
  refine ⟨⟨hblocks.distinct, hblocks.owned, hblocks.sound, hblocks.current, hblocks.aligned, hblocks.max,
    hblocks.record⟩, ?_, ?_, hs.pos⟩
  · exact (hperm.pairwise_iff Region.Apart.symm).1 hs.apart
  · exact fun r hr => hs.zone r (hperm.mem_iff.2 hr)

end sound

/-! ## What an allocation gives -/

/-- What asking for `size` bytes gives: nothing, or a piece or a large region for a user. -/
structure Given (psize : Nat) (others taken : List Region) (size : Nat) (large : Bool) (s : Memory)
    (out : Option Nat × Memory) : Prop where
  cleanup : out.2.pool.cleanup = s.pool.cleanup
  max : out.2.pool.max = s.pool.max
  refused : out.1 = none → out.2.Sound psize others taken ∧ out.2.pool.allocs.Perm s.pool.allocs
  piece : ∀ a, out.1 = some a → large = false →
    out.2.Sound psize others (⟨a, size⟩ :: taken) ∧ out.2.pool.allocs.Perm s.pool.allocs
  region : ∀ a, out.1 = some a → large = true →
    out.2.Sound psize others taken ∧ out.2.pool.allocs.Perm (⟨a, size⟩ :: s.pool.allocs)

section allocation

variable {psize size : Nat} {others taken : List Region} {s : Memory} {os : Source} {p : Region}

theorem Memory.Sound.small (hs : s.Sound psize others taken) (hos : os.Lawful) {align : Nat → Nat}
    (halign : Rounds align) (hsize : size ≤ s.pool.max) :
    Given psize others taken size false s (pallocSmall os align size s) := by
  have hout := Carved.small hs.blocks hos halign hsize
  have hallocs : (pallocSmall os align size s).2.pool.allocs = s.pool.allocs :=
    congrArg (List.filterMap _) hout.large
  rcases hs.carved hout with ⟨hsame, hpiece⟩
  refine ⟨hout.cleanup, hout.max, fun _ => ⟨hsame, .of_eq hallocs⟩, fun a ha _ => ?_, (by simp)⟩
  exact ⟨hpiece a ha, .of_eq hallocs⟩

/-- A null record takes the new region. -/
theorem reuseLarge_eq_some {n : Nat} {ls ls' : List PoolLarge} (h : reuseLarge p n ls = some ls') :
    ls'.map PoolLarge.addr = ls.map PoolLarge.addr ∧
      (ls'.filterMap PoolLarge.alloc).Perm (p :: ls.filterMap PoolLarge.alloc) := by
  induction ls generalizing n ls' with
  | nil => cases h
  | cons l ls ih =>
      rw [reuseLarge] at h
      cases halloc : l.alloc with
      | none =>
          rw [halloc] at h
          cases h
          refine ⟨rfl, ?_⟩
          rw [List.filterMap_cons_none halloc]
          exact .refl _
      | some r =>
          rw [halloc] at h
          dsimp only at h
          split_ifs at h
          rcases Option.map_eq_some_iff.1 h with ⟨rest, hrest, rfl⟩
          rcases ih hrest with ⟨haddr, hperm⟩
          refine ⟨by rw [List.map_cons, haddr, List.map_cons], ?_⟩
          rw [List.filterMap_cons_some halloc, List.filterMap_cons_some halloc]
          exact (hperm.cons r).trans (.swap p r _)

/-- Taking a region from the system, for the pool to record. -/
theorem Memory.Sound.obtained (hs : s.Sound psize others taken) (hos : os.Lawful) {align a : Nat}
    (ha : os s.heap align size = some a) :
    Memory.Sound psize (⟨a, size⟩ :: others) taken { s with heap := ⟨a, size⟩ :: s.heap } := by
  have hblocks := hs.blocks
  refine ⟨⟨hos.sound hblocks.distinct ha, ?_, hblocks.sound, hblocks.current, hblocks.aligned,
    hblocks.max, hblocks.record⟩, hs.apart, hs.zone, hs.pos⟩
  have hperm : (⟨a, size⟩ :: s.heap).Perm
      (⟨a, size⟩ :: (s.pool.blocks.map PoolBlock.region ++ (s.pool.allocs ++ others))) :=
    hblocks.owned.cons _
  refine hperm.trans ?_
  rw [← List.append_assoc, ← List.append_assoc]
  exact List.perm_middle.symm

theorem recordLarge_spec (hs : s.Sound psize (p :: others) taken) (hos : os.Lawful) (hp : 0 < p.addr) :
    ∃ out, recordLarge os p s = some out ∧ Given psize others taken p.size true s out ∧
      (out.1 = none ∨ out.1 = some p.addr) := by
  have hrecord : sizeofPoolLarge ≤ s.pool.max :=
    Nat.le_trans (by decide : sizeofPoolLarge ≤ sizeofPoolCleanup) hs.blocks.record
  have hsmall := hs.small hos rounds_ngxAlignPtr hrecord
  rw [recordLarge, if_pos hrecord]
  generalize pallocSmall os ngxAlignPtr sizeofPoolLarge s = r at hsmall ⊢
  rcases r with ⟨_ | m, t⟩
  · -- The region goes back to the system.
    rcases hsmall.refused rfl with ⟨hsound, hallocs⟩
    have hblocks := hsound.blocks
    have howned : t.heap.Perm (p :: (t.pool.blocks.map PoolBlock.region ++ (t.pool.allocs ++ others))) :=
      hblocks.owned.trans ((List.perm_middle.append_left _).trans List.perm_middle)
    rcases free_perm hblocks.distinct howned with ⟨k, hk, hkp⟩
    have hkept : Memory.Sound psize others taken { t with heap := k } := by
      refine ⟨⟨?_, hkp, hblocks.sound, hblocks.current, hblocks.aligned, hblocks.max, hblocks.record⟩,
        hsound.apart, hsound.zone, hsound.pos⟩
      exact Heap.Sound.perm (List.Pairwise.tail (hblocks.distinct.perm howned)) hkp.symm
    refine ⟨(none, { t with heap := k }), ?_, ?_, .inl rfl⟩
    · dsimp only
      rw [hk]
      rfl
    · exact ⟨hsmall.cleanup, hsmall.max, fun _ => ⟨hkept, hallocs⟩, (by simp), (by simp)⟩
  · rcases hsmall.piece m rfl rfl with ⟨hsound, hallocs⟩
    refine ⟨_, rfl, ⟨hsmall.cleanup, hsmall.max, (by simp), (by simp), ?_⟩, .inr rfl⟩
    rintro _ ⟨⟩ _
    exact ⟨hsound.addLarge hp, hallocs.cons p⟩

theorem ngxPallocLarge_spec (hs : s.Sound psize others taken) (hos : os.Lawful) :
    ∃ out, ngxPallocLarge os size s = some out ∧ Given psize others taken size true s out ∧
      ∀ a, out.1 = some a → ngxPoolAlignment ∣ a := by
  rw [ngxPallocLarge]
  rcases obtain_cases os ngxPoolAlignment size s.heap with hnone | ⟨a, ha, hsome⟩
  · rw [hnone]
    exact ⟨_, rfl, ⟨rfl, rfl, fun _ => ⟨hs, .refl _⟩, (by simp), (by simp)⟩, (by simp)⟩
  rw [hsome]
  have hobtained := hs.obtained hos ha
  have hpos : 0 < a := hos.pos ha
  dsimp only
  cases hreuse : reuseLarge ⟨a, size⟩ 0 s.pool.large with
  | none =>
      rcases recordLarge_spec hobtained hos hpos with ⟨out, hout, hgiven, haddr⟩
      refine ⟨out, hout, ⟨hgiven.cleanup, hgiven.max, hgiven.refused, hgiven.piece, hgiven.region⟩, ?_⟩
      intro b hb
      rcases haddr with hnone | hsome
      · rw [hnone] at hb
        cases hb
      · rw [hsome] at hb
        cases hb
        exact hos.aligned ha
  | some large =>
      rcases reuseLarge_eq_some hreuse with ⟨haddr, hperm⟩
      have hset := hobtained.setLarge others haddr
        (List.perm_middle.trans (hperm.symm.append_right others)) (by
          intro r hr
          rcases List.mem_cons.1 (hperm.mem_iff.1 hr) with rfl | hr
          · exact hpos
          · exact hs.pos r hr)
      refine ⟨_, rfl, ⟨rfl, rfl, (by simp), (by simp), ?_⟩, ?_⟩
      · rintro _ ⟨⟩ _
        exact ⟨hset, hperm⟩
      · rintro _ ⟨⟩
        exact hos.aligned ha

theorem ngxPmemalign_spec (hs : s.Sound psize others taken) (hos : os.Lawful) (alignment : Nat) :
    ∃ out, ngxPmemalign os size alignment s = some out ∧ Given psize others taken size true s out ∧
      ∀ a, out.1 = some a → alignment ∣ a := by
  rw [ngxPmemalign]
  rcases obtain_cases os alignment size s.heap with hnone | ⟨a, ha, hsome⟩
  · rw [hnone]
    exact ⟨_, rfl, ⟨rfl, rfl, fun _ => ⟨hs, .refl _⟩, (by simp), (by simp)⟩, (by simp)⟩
  rw [hsome]
  rcases recordLarge_spec (hs.obtained hos ha) hos (hos.pos ha) with ⟨out, hout, hgiven, haddr⟩
  refine ⟨out, hout, ⟨hgiven.cleanup, hgiven.max, hgiven.refused, hgiven.piece, hgiven.region⟩, ?_⟩
  intro b hb
  rcases haddr with hnone | hsome
  · rw [hnone] at hb
    cases hb
  · rw [hsome] at hb
    cases hb
    exact hos.aligned ha

/-- What is larger than `max` has a region of its own. -/
theorem ngxPalloc_spec (hs : s.Sound psize others taken) (hos : os.Lawful) (size : Nat) :
    ∃ out, ngxPalloc os size s = some out ∧
      Given psize others taken size (decide (s.pool.max < size)) s out ∧
      ∀ a, out.1 = some a → ngxAlignment ∣ a := by
  rw [ngxPalloc]
  by_cases hsize : size ≤ s.pool.max
  · rw [if_pos hsize, decide_eq_false (Nat.not_lt.2 hsize)]
    exact ⟨_, rfl, hs.small hos rounds_ngxAlignPtr hsize, fun a ha => dvd_pallocSmall ha⟩
  · rw [if_neg hsize, decide_eq_true (Nat.not_le.1 hsize)]
    rcases ngxPallocLarge_spec hs hos with ⟨out, hout, hgiven, haligned⟩
    exact ⟨out, hout, hgiven, fun a ha =>
      Nat.dvd_trans (by decide : ngxAlignment ∣ ngxPoolAlignment) (haligned a ha)⟩

theorem ngxPnalloc_spec (hs : s.Sound psize others taken) (hos : os.Lawful) (size : Nat) :
    ∃ out, ngxPnalloc os size s = some out ∧
      Given psize others taken size (decide (s.pool.max < size)) s out := by
  rw [ngxPnalloc]
  by_cases hsize : size ≤ s.pool.max
  · rw [if_pos hsize, decide_eq_false (Nat.not_lt.2 hsize)]
    exact ⟨_, rfl, hs.small hos rounds_id hsize⟩
  · rw [if_neg hsize, decide_eq_true (Nat.not_le.1 hsize)]
    rcases ngxPallocLarge_spec hs hos with ⟨out, hout, hgiven, -⟩
    exact ⟨out, hout, hgiven⟩

/-- The first record of the region takes it out, and a null one nothing. -/
theorem releaseLarge_spec {q : Nat} {ls : List PoolLarge}
    (hpos : ∀ r ∈ ls.filterMap PoolLarge.alloc, 0 < r.addr) :
    match releaseLarge q ls with
    | none => ∀ r ∈ ls.filterMap PoolLarge.alloc, r.addr ≠ q
    | some (none, ls') => q = 0 ∧ ls'.map PoolLarge.addr = ls.map PoolLarge.addr ∧
        ls'.filterMap PoolLarge.alloc = ls.filterMap PoolLarge.alloc
    | some (some r, ls') => r.addr = q ∧ ls'.map PoolLarge.addr = ls.map PoolLarge.addr ∧
        (ls.filterMap PoolLarge.alloc).Perm (r :: ls'.filterMap PoolLarge.alloc) := by
  induction ls with
  | nil => exact fun _ hr => absurd hr List.not_mem_nil
  | cons l ls ih =>
      have hrest : ∀ r ∈ ls.filterMap PoolLarge.alloc, 0 < r.addr := by
        intro r hr
        rcases List.mem_filterMap.1 hr with ⟨m, hm, halloc⟩
        exact hpos r (List.mem_filterMap.2 ⟨m, List.mem_cons_of_mem l hm, halloc⟩)
      have ih := ih hrest
      rw [releaseLarge]
      by_cases hq : q = (l.alloc.map Region.addr).getD 0
      · rw [if_pos hq]
        cases halloc : l.alloc with
        | none =>
            rw [halloc] at hq
            refine ⟨hq, rfl, ?_⟩
            rw [List.filterMap_cons_none halloc, List.filterMap_cons_none rfl]
        | some r =>
            rw [halloc] at hq
            refine ⟨hq.symm, rfl, ?_⟩
            rw [List.filterMap_cons_some halloc, List.filterMap_cons_none rfl]
      · rw [if_neg hq]
        -- the record at the front stays
        have hcons : ∀ m : List PoolLarge, (l :: m).filterMap PoolLarge.alloc =
            l.alloc.toList ++ m.filterMap PoolLarge.alloc := by
          intro m
          cases halloc : l.alloc with
          | none => rw [List.filterMap_cons_none halloc]; rfl
          | some r => rw [List.filterMap_cons_some halloc]; rfl
        rcases hls : releaseLarge q ls with _ | ⟨_ | r, ls'⟩
        · rw [hls] at ih
          dsimp only [Option.map_none]
          rw [hcons]
          intro r hr
          rcases List.mem_append.1 hr with hr | hr
          · rw [Option.mem_toList] at hr
            intro haddr
            rw [hr] at hq
            exact hq haddr.symm
          · exact ih r hr
        · rw [hls] at ih
          dsimp only [Option.map_some]
          rw [hcons, hcons, ih.2.2, List.map_cons, ih.2.1, List.map_cons]
          exact ⟨ih.1, rfl, rfl⟩
        · rw [hls] at ih
          dsimp only [Option.map_some]
          rw [hcons, hcons, List.map_cons, ih.2.1, List.map_cons]
          exact ⟨ih.1, rfl, (ih.2.2.append_left _).trans List.perm_middle⟩

/-- A large region is freed, and only that; nothing else changes. -/
theorem ngxPfree_spec (hs : s.Sound psize others taken) (q : Nat) :
    ∃ ok t, ngxPfree q s = some (ok, t) ∧ t.Sound psize others taken ∧
      t.pool.cleanup = s.pool.cleanup ∧ t.pool.max = s.pool.max ∧
      ((∃ r, r.addr = q ∧ ok = true ∧ s.pool.allocs.Perm (r :: t.pool.allocs)) ∨
        (t.pool.allocs = s.pool.allocs ∧ ∀ r ∈ s.pool.allocs, r.addr ≠ q)) := by
  have hrelease := releaseLarge_spec (q := q) hs.pos
  rw [ngxPfree]
  rcases hcase : releaseLarge q s.pool.large with _ | ⟨_ | r, large⟩
  · rw [hcase] at hrelease
    exact ⟨false, s, rfl, hs, rfl, rfl, .inr ⟨rfl, hrelease⟩⟩
  · rw [hcase] at hrelease
    rcases hrelease with ⟨rfl, haddr, hallocs⟩
    refine ⟨true, _, rfl, hs.setLarge others haddr (.of_eq (congrArg (· ++ others) hallocs.symm)) ?_, rfl, rfl,
      .inr ⟨hallocs, fun r hr => Nat.ne_of_gt (hs.pos r hr)⟩⟩
    rw [hallocs]
    exact hs.pos
  · rw [hcase] at hrelease
    rcases hrelease with ⟨hr, haddr, hperm⟩
    have hset := hs.setLarge (r :: others) haddr
      ((hperm.append_right others).trans List.perm_middle.symm) (by
        intro x hx
        exact hs.pos x (hperm.mem_iff.2 (List.mem_cons_of_mem r hx)))
    have hblocks := hset.blocks
    have howned : s.heap.Perm (r :: (s.pool.blocks.map PoolBlock.region ++
        (large.filterMap PoolLarge.alloc ++ others))) :=
      hblocks.owned.trans ((List.perm_middle.append_left _).trans List.perm_middle)
    rcases free_perm hblocks.distinct howned with ⟨k, hk, hkp⟩
    refine ⟨true, ⟨{ s.pool with large := large }, k⟩, ?_, ?_, rfl, rfl, .inl ⟨r, hr, rfl, hperm⟩⟩
    · dsimp only
      rw [hk]
      rfl
    · refine ⟨⟨?_, hkp, hblocks.sound, hblocks.current, hblocks.aligned, hblocks.max, hblocks.record⟩,
        hset.apart, hset.zone, hset.pos⟩
      exact Heap.Sound.perm (List.Pairwise.tail (hblocks.distinct.perm howned)) hkp.symm

end allocation

/-! ## The end of a pool -/

section ending

variable {psize : Nat} {others taken : List Region} {s : Memory}

/-- After a reset the pool has its blocks, and nothing is taken from them. -/
theorem ngxResetPool_spec (hs : s.Sound psize others taken) (hcleanup : s.pool.cleanup = []) :
    ∃ t, ngxResetPool s = some t ∧ t.Sound psize others [] ∧ t.pool.cleanup = [] ∧ t.pool.allocs = [] := by
  have hblocks := hs.blocks
  have howned : s.heap.Perm (s.pool.allocs ++ (s.pool.blocks.map PoolBlock.region ++ others)) := by
    refine hblocks.owned.trans ?_
    rw [← List.append_assoc, ← List.append_assoc]
    exact List.perm_append_comm.append_right others
  rcases freeAll_perm hblocks.distinct howned with ⟨k, hk, hkp⟩
  have hregions : (s.pool.blocks.map fun b => { b with last := b.addr + sizeofPool, failed := 0 }).map
      PoolBlock.region = s.pool.blocks.map PoolBlock.region := by
    rw [List.map_map]
    rfl
  rw [ngxResetPool, hk, Option.map_some]
  refine ⟨_, rfl, ⟨⟨?_, ?_, ?_, ?_, hblocks.aligned, hblocks.max, hblocks.record⟩, ?_, ?_, ?_⟩,
    hcleanup, rfl⟩
  · exact Heap.Sound.perm (List.pairwise_append.1 (hblocks.distinct.perm howned)).2.1 hkp.symm
  · change k.Perm (List.map PoolBlock.region _ ++ _)
    rw [hregions]
    exact hkp
  · intro b hb
    rcases List.mem_map.1 hb with ⟨c, hc, rfl⟩
    have hsound := hblocks.sound c hc
    have hheader := hsound.header
    have hend := hsound.endAddr
    have hmax := hblocks.max
    refine ⟨hsound.aligned, hheader, ?_, ?_, hend, hsound.limit⟩
    · dsimp only
      omega
    · dsimp only
      omega
  · rw [List.length_map]
    exact Nat.lt_of_le_of_lt (Nat.zero_le _) hblocks.current
  · simp [NgxPoolT.pieces, hcleanup]
  · simp [NgxPoolT.pieces, hcleanup]
  · exact fun _ hr => absurd hr List.not_mem_nil

/-- Destroying the pool leaves the regions of others. -/
theorem ngxDestroyPool_spec (hs : s.Sound psize others taken) :
    ∃ called h, ngxDestroyPool s = some (called, h) ∧ h.Perm others ∧
      called = (s.pool.cleanup.filter fun c => c.handler ≠ 0).map fun c => (c.handler, c.data) := by
  have hblocks := hs.blocks
  have howned : s.heap.Perm (s.pool.allocs ++ (s.pool.blocks.map PoolBlock.region ++ others)) := by
    refine hblocks.owned.trans ?_
    rw [← List.append_assoc, ← List.append_assoc]
    exact List.perm_append_comm.append_right others
  rcases freeAll_perm hblocks.distinct howned with ⟨k, hk, hkp⟩
  have hsound : Heap.Sound k :=
    Heap.Sound.perm (List.pairwise_append.1 (hblocks.distinct.perm howned)).2.1 hkp.symm
  rcases freeAll_perm hsound hkp with ⟨k', hk', hkp'⟩
  rw [List.map_map] at hk'
  have hk' : freeAll (s.pool.blocks.map PoolBlock.addr) k = some k' := hk'
  refine ⟨_, k', ?_, hkp', rfl⟩
  rw [ngxDestroyPool, hk, Option.bind_some, hk']
  rfl

end ending

/-! ## Its users -/

/-- What the pool has given to a user. -/
structure Grant where
  region : Region
  align : Nat
  large : Bool

/-- A pool with what its users have, and what they have registered. -/
structure PoolUse where
  memory : Memory
  granted : List Grant
  registered : List (Nat × Nat)

inductive PoolOp
  | palloc (size : Nat)
  | pnalloc (size : Nat)
  | pmemalign (size alignment : Nat)
  | pfree (p : Nat)
  | cleanup (handler data size : Nat)
  | reset
  deriving DecidableEq

namespace PoolUse

/-- A user has what an allocation gives. -/
def give (size align : Nat) (large : Bool) (u : PoolUse) (r : Option Nat × Memory) : PoolUse :=
  { u with
    memory := r.2
    granted := match r.1 with
      | none => u.granted
      | some a => ⟨⟨a, size⟩, align, large⟩ :: u.granted }

/-- A call of a user, with the answers of the system. -/
def step (u : PoolUse) (a : Source × PoolOp) : Option PoolUse :=
  let isLarge := fun size => decide (u.memory.pool.max < size)
  match a.2 with
  | .palloc size => (ngxPalloc a.1 size u.memory).map (u.give size ngxAlignment (isLarge size))
  | .pnalloc size => (ngxPnalloc a.1 size u.memory).map (u.give size 1 (isLarge size))
  | .pmemalign size alignment =>
      (ngxPmemalign a.1 size alignment u.memory).map (u.give size alignment true)
  | .pfree p => (ngxPfree p u.memory).map fun r =>
      { u with
        memory := r.2
        granted := u.granted.filter fun g => ¬(r.1 = true ∧ g.large = true ∧ g.region.addr = p) }
  | .cleanup handler data size => (NgxPool.cleanup a.1 handler data size u.memory).map fun r =>
      match r.1 with
      | none => { u with memory := r.2 }
      | some m =>
          { memory := r.2
            granted := if size = 0 then u.granted
              else ⟨⟨m, size⟩, ngxAlignment, isLarge size⟩ :: u.granted
            registered := u.registered ++ [(handler, if data = 0 then m else data)] }
  | .reset => (ngxResetPool u.memory).map fun m => { u with memory := m, granted := [] }

/-- A pool that has been created. -/
def start (m : Memory) : PoolUse := ⟨m, [], []⟩

/-- The system is lawful, and a pool with something registered is not reset: the records would be given
out. -/
def Allowed (u : PoolUse) (a : Source × PoolOp) : Prop :=
  a.1.Lawful ∧ (a.2 = .reset → u.registered = [])

/-- The pieces of the blocks that users have. -/
def pieces (u : PoolUse) : List Region := (u.granted.filter fun g => !g.large).map Grant.region

def larges (u : PoolUse) : List Region := (u.granted.filter Grant.large).map Grant.region

/-- The invariant of every run. -/
structure Sound (psize : Nat) (others : List Region) (u : PoolUse) : Prop where
  memory : u.memory.Sound psize others u.pieces
  larges : u.larges.Perm u.memory.pool.allocs
  aligned : ∀ g ∈ u.granted, g.align ∣ g.region.addr
  registered : u.memory.pool.cleanup.map (fun c => (c.handler, c.data)) = u.registered.reverse

/-- What the users have a right to. -/
structure Safe (others : List Region) (u : PoolUse) : Prop where
  apart : (u.granted.map Grant.region).Pairwise Region.Apart
  records : ∀ g ∈ u.granted, ∀ r ∈ u.memory.pool.headers ++ u.memory.pool.pieces, g.region.Apart r
  others : ∀ g ∈ u.granted, ∀ r ∈ others, g.region.Apart r
  inside : ∀ g ∈ u.granted, ∃ r ∈ u.memory.heap, g.region.Within r
  aligned : ∀ g ∈ u.granted, g.align ∣ g.region.addr

section runs

variable {psize : Nat} {others : List Region} {u : PoolUse}

/-- Every grant is a piece of a block or a large region. -/
theorem Sound.grant_cases (hu : u.Sound psize others) {g : Grant} (hg : g ∈ u.granted) :
    (g.large = false ∧ g.region ∈ u.pieces ∧ InZone u.memory.pool.blocks g.region) ∨
      (g.large = true ∧ g.region ∈ u.memory.pool.allocs) := by
  cases hlarge : g.large with
  | false =>
      have hpiece : g.region ∈ u.pieces :=
        List.mem_map_of_mem (List.mem_filter.2 ⟨hg, by rw [hlarge]; rfl⟩)
      exact .inl ⟨rfl, hpiece, hu.memory.zone _ (List.mem_append_left _ hpiece)⟩
  | true =>
      exact .inr ⟨rfl, hu.larges.mem_iff.1 (List.mem_map_of_mem (List.mem_filter.2 ⟨hg, hlarge⟩))⟩

/-- What is in a block is apart from every other region of the heap. -/
theorem Sound.zone_apart (hu : u.Sound psize others) {r x : Region} (hr : InZone u.memory.pool.blocks r)
    (hx : x ∈ u.memory.pool.allocs ++ others) : r.Apart x := by
  rcases hr with ⟨b, hb, hlow, hhigh⟩
  have hblocks := hu.memory.blocks
  have hcross := (List.pairwise_append.1 (hblocks.distinct.perm hblocks.owned)).2.2
  exact (hcross _ (List.mem_map_of_mem hb) x hx).2.mono ((hblocks.sound b hb).within hlow hhigh)
    (Region.Within.refl x)

/-- A piece of a block is apart from the fronts of all blocks. -/
theorem Sound.zone_headers (hu : u.Sound psize others) {r x : Region} (hr : InZone u.memory.pool.blocks r)
    (hx : x ∈ u.memory.pool.headers) : r.Apart x := by
  rcases hr with ⟨b, hb, hlow, hhigh⟩
  rcases List.mem_map.1 hx with ⟨c, hc, rfl⟩
  have hblocks := hu.memory.blocks
  have hpieces := (hblocks.sound c hc).pieces
  have hlast := (hblocks.sound c hc).last
  have hwithin : Region.Within ⟨c.addr, c.header⟩ c.region := by
    refine ⟨Nat.le_refl _, ?_⟩
    change c.addr + c.header ≤ c.addr + (c.endAddr - c.addr)
    omega
  rcases List.append_of_mem hb with ⟨before, after, hsplit⟩
  have hmem : c ∈ before ∨ c = b ∨ c ∈ after := by
    rw [hsplit, List.mem_append, List.mem_cons] at hc
    exact hc
  rcases hmem with hmem | rfl | hmem
  · exact (hblocks.apart hsplit (.inl hmem)).symm.mono ((hblocks.sound b hb).within hlow hhigh) hwithin
  · exact .inr hlow
  · exact (hblocks.apart hsplit (.inr hmem)).symm.mono ((hblocks.sound b hb).within hlow hhigh) hwithin

theorem Sound.safe (hu : u.Sound psize others) : u.Safe others := by
  have hblocks := hu.memory.blocks
  have hpairwise := (List.pairwise_append.1 (hblocks.distinct.perm hblocks.owned)).2.1
  rcases List.pairwise_append.1 hpairwise with ⟨hallocs, -, hcross⟩
  have hpieces := (List.pairwise_append.1 hu.memory.apart).1
  refine ⟨?_, ?_, ?_, ?_, hu.aligned⟩
  · have hperm : (u.granted.map Grant.region).Perm (u.larges ++ u.pieces) := by
      rw [PoolUse.larges, PoolUse.pieces, ← List.map_append]
      exact ((List.filter_append_perm Grant.large u.granted).map Grant.region).symm
    apply (hperm.pairwise_iff Region.Apart.symm).2
    refine List.pairwise_append.2 ⟨?_, hpieces, ?_⟩
    · exact (hu.larges.pairwise_iff Region.Apart.symm).2 (hallocs.imp And.right)
    · intro x hx r hr
      have hzone := hu.memory.zone r (List.mem_append_left _ hr)
      exact (hu.zone_apart hzone (List.mem_append_left _ (hu.larges.mem_iff.1 hx))).symm
  · intro g hg r hr
    rcases hu.grant_cases hg with ⟨-, hpiece, hzone⟩ | ⟨-, halloc⟩
    · rcases List.mem_append.1 hr with hr | hr
      · exact hu.zone_headers hzone hr
      · exact (List.pairwise_append.1 hu.memory.apart).2.2 _ hpiece r hr
    · rcases List.mem_append.1 hr with hr | hr
      · rcases List.mem_map.1 hr with ⟨c, hc, rfl⟩
        have hsound := hblocks.sound c hc
        have hcpieces := hsound.pieces
        have hclast := hsound.last
        have hfar := ((List.pairwise_append.1 (hblocks.distinct.perm hblocks.owned)).2.2 _
          (List.mem_map_of_mem hc) _ (List.mem_append_left _ halloc)).2
        refine hfar.symm.mono (Region.Within.refl _) ⟨Nat.le_refl _, ?_⟩
        change c.addr + c.header ≤ c.addr + (c.endAddr - c.addr)
        omega
      · exact (hu.zone_apart (hu.memory.zone r (List.mem_append_right _ hr))
          (List.mem_append_left _ halloc)).symm
  · intro g hg r hr
    rcases hu.grant_cases hg with ⟨-, -, hzone⟩ | ⟨-, halloc⟩
    · exact hu.zone_apart hzone (List.mem_append_right _ hr)
    · exact (hcross _ halloc r hr).2
  · intro g hg
    rcases hu.grant_cases hg with ⟨-, -, b, hb, hlow, hhigh⟩ | ⟨-, halloc⟩
    · exact ⟨b.region, hblocks.owned.mem_iff.2 (List.mem_append_left _ (List.mem_map_of_mem hb)),
        (hblocks.sound b hb).within hlow hhigh⟩
    · exact ⟨g.region, hblocks.owned.mem_iff.2 (List.mem_append_right _ (List.mem_append_left _ halloc)),
        Region.Within.refl _⟩

/-- A grant more, or none. -/
theorem Sound.give (hu : u.Sound psize others) {size align : Nat} {large : Bool}
    {out : Option Nat × Memory} (hout : Given psize others u.pieces size large u.memory out)
    (haligned : ∀ a, out.1 = some a → align ∣ a) : (u.give size align large out).Sound psize others := by
  have hregistered : out.2.pool.cleanup.map (fun c => (c.handler, c.data)) = u.registered.reverse := by
    rw [hout.cleanup]
    exact hu.registered
  rcases out with ⟨_ | a, t⟩
  · rcases hout.refused rfl with ⟨hmemory, hallocs⟩
    exact ⟨hmemory, hu.larges.trans hallocs.symm, hu.aligned, hregistered⟩
  · have hall : ∀ g ∈ (⟨⟨a, size⟩, align, large⟩ : Grant) :: u.granted, g.align ∣ g.region.addr := by
      intro g hg
      rcases List.mem_cons.1 hg with rfl | hg
      · exact haligned a rfl
      · exact hu.aligned g hg
    cases large with
    | false =>
        rcases hout.piece a rfl rfl with ⟨hmemory, hallocs⟩
        exact ⟨hmemory, hu.larges.trans hallocs.symm, hall, hregistered⟩
    | true =>
        rcases hout.region a rfl rfl with ⟨hmemory, hallocs⟩
        exact ⟨hmemory, (hu.larges.cons _).trans hallocs.symm, hall, hregistered⟩

theorem Sound.palloc (hu : u.Sound psize others) {os : Source} (hos : os.Lawful) (size : Nat) :
    ∃ v, u.step (os, .palloc size) = some v ∧ v.Sound psize others := by
  rcases ngxPalloc_spec hu.memory hos size with ⟨out, hout, hgiven, haligned⟩
  refine ⟨_, ?_, hu.give hgiven haligned⟩
  rw [step]
  dsimp only
  rw [hout]
  rfl

theorem Sound.pnalloc (hu : u.Sound psize others) {os : Source} (hos : os.Lawful) (size : Nat) :
    ∃ v, u.step (os, .pnalloc size) = some v ∧ v.Sound psize others := by
  rcases ngxPnalloc_spec hu.memory hos size with ⟨out, hout, hgiven⟩
  refine ⟨_, ?_, hu.give hgiven fun a _ => Nat.one_dvd a⟩
  rw [step]
  dsimp only
  rw [hout]
  rfl

theorem Sound.pmemalign (hu : u.Sound psize others) {os : Source} (hos : os.Lawful)
    (size alignment : Nat) :
    ∃ v, u.step (os, .pmemalign size alignment) = some v ∧ v.Sound psize others := by
  rcases ngxPmemalign_spec hu.memory hos alignment with ⟨out, hout, hgiven, haligned⟩
  refine ⟨_, ?_, hu.give hgiven haligned⟩
  rw [step]
  dsimp only
  rw [hout]
  rfl

/-- The user of the region that is freed has it no longer. -/
theorem Sound.pfree (hu : u.Sound psize others) (os : Source) (p : Nat) :
    ∃ v, u.step (os, .pfree p) = some v ∧ v.Sound psize others := by
  rcases ngxPfree_spec hu.memory p with ⟨ok, t, hfree, hmemory, hcleanup, -, hfreed⟩
  have hstep : u.step (os, .pfree p) = some ⟨t, u.granted.filter fun g =>
      ¬(ok = true ∧ g.large = true ∧ g.region.addr = p), u.registered⟩ := by
    rw [step]
    dsimp only
    rw [hfree]
    rfl
  generalize hgranted : (u.granted.filter fun g =>
    ¬(ok = true ∧ g.large = true ∧ g.region.addr = p)) = granted at hstep
  have hsublist : granted.Sublist u.granted := hgranted ▸ List.filter_sublist
  have hpieces : (PoolUse.mk t granted u.registered).pieces = u.pieces := by
    rw [PoolUse.pieces, ← hgranted, List.filter_filter, PoolUse.pieces]
    refine congrArg _ (List.filter_congr fun g _ => ?_)
    cases g.large <;> simp
  refine ⟨_, hstep, ?_, ?_, fun g hg => hu.aligned g (hsublist.subset hg), ?_⟩
  · rw [hpieces]
    exact hmemory
  · rcases hfreed with ⟨r, rfl, rfl, hperm⟩ | ⟨hallocs, hnone⟩
    · -- Of the large regions only `r` has its address.
      have hdistinct : (r :: t.pool.allocs).Pairwise Distinct := by
        have hblocks := hu.memory.blocks
        have hpairwise := (List.pairwise_append.1 (hblocks.distinct.perm hblocks.owned)).2.1
        exact (hperm.pairwise_iff Distinct.symm).1 (List.pairwise_append.1 hpairwise).1
      have hrest : (t.pool.allocs.filter fun x => decide (x.addr ≠ r.addr)) = t.pool.allocs :=
        List.filter_eq_self.2 fun x hx =>
          decide_eq_true ((List.pairwise_cons.1 hdistinct).1 x hx).1.symm
      have hlarges : (PoolUse.mk t granted u.registered).larges =
          u.larges.filter fun x => decide (x.addr ≠ r.addr) := by
        rw [PoolUse.larges, ← hgranted, List.filter_filter, PoolUse.larges, List.filter_map,
          List.filter_filter]
        refine congrArg _ (List.filter_congr fun g _ => ?_)
        cases g.large <;> simp
      have hfilter := (hu.larges.trans hperm).filter fun x => decide (x.addr ≠ r.addr)
      rw [List.filter_cons_of_neg (by simp), hrest] at hfilter
      rw [hlarges]
      exact hfilter
    · have hsame : granted = u.granted := by
        rw [← hgranted]
        refine List.filter_eq_self.2 fun g hg => decide_eq_true ?_
        rintro ⟨-, hlarge, haddr⟩
        rcases hu.grant_cases hg with ⟨hsmall, -⟩ | ⟨-, halloc⟩
        · rw [hlarge] at hsmall
          cases hsmall
        · exact hnone _ halloc haddr
      change PoolUse.larges ⟨t, granted, u.registered⟩ |>.Perm t.pool.allocs
      rw [hallocs, hsame]
      exact hu.larges
  · exact (congrArg _ hcleanup).trans hu.registered

/-- The record comes first, and is only linked when there is memory for the data too. -/
theorem Sound.cleanup (hu : u.Sound psize others) {os : Source} (hos : os.Lawful)
    (handler data size : Nat) :
    ∃ v, u.step (os, .cleanup handler data size) = some v ∧ v.Sound psize others := by
  rcases ngxPalloc_spec hu.memory hos sizeofPoolCleanup with ⟨⟨record, t⟩, hrecord, hgiven, -⟩
  rw [decide_eq_false (Nat.not_lt.2 hu.memory.blocks.record)] at hgiven
  have hcleanup : t.pool.cleanup = u.memory.pool.cleanup := hgiven.cleanup
  have hcalled : t.pool.cleanup.map (fun c => (c.handler, c.data)) = u.registered.reverse := by
    rw [hcleanup]
    exact hu.registered
  -- what is registered behind the others is the first of the records
  have hnext : ∀ c data' : Nat,
      (⟨c, handler, data'⟩ :: t.pool.cleanup).map (fun c => (c.handler, c.data)) =
        (u.registered ++ [(handler, data')]).reverse := by
    intro c data'
    rw [List.map_cons, hcalled, List.reverse_append]
    rfl
  cases record with
  | none =>
      rcases hgiven.refused rfl with ⟨hmemory, hallocs⟩
      refine ⟨{ u with memory := t }, ?_, hmemory, hu.larges.trans hallocs.symm, hu.aligned, hcalled⟩
      simp [PoolUse.step, NgxPool.cleanup, hrecord]
  | some c =>
      rcases hgiven.piece c rfl rfl with ⟨hmemory, hallocs⟩
      by_cases hsize : size = 0
      · subst hsize
        refine ⟨⟨{ t with pool := { t.pool with cleanup := ⟨c, handler, data⟩ :: t.pool.cleanup } },
          u.granted, u.registered ++ [(handler, data)]⟩, ?_, hmemory.addCleanup,
          hu.larges.trans hallocs.symm, hu.aligned, hnext c data⟩
        have hdata : (if data = 0 then 0 else data) = data := by
          split
          case isTrue h => exact h.symm
          case isFalse => rfl
        simp [PoolUse.step, NgxPool.cleanup, hrecord, hdata]
      rcases ngxPalloc_spec hmemory hos size with ⟨⟨room, t'⟩, hroom, hgiven', haligned⟩
      have hmax : t.pool.max = u.memory.pool.max := hgiven.max
      rw [hmax] at hgiven'
      have hcleanup' : t'.pool.cleanup = t.pool.cleanup := hgiven'.cleanup
      cases room with
      | none =>
          rcases hgiven'.refused rfl with ⟨hmemory', hallocs'⟩
          refine ⟨{ u with memory := t' }, ?_, hmemory'.sublist (List.sublist_cons_self ..),
            hu.larges.trans (hallocs'.trans hallocs).symm, hu.aligned, ?_⟩
          · simp [PoolUse.step, NgxPool.cleanup, hrecord, hroom, hsize]
          · exact (congrArg _ hcleanup').trans hcalled
      | some m =>
          generalize hdata : (if data = 0 then m else data) = data'
          -- the users have the piece for the data, and the record is the pool's
          have hgranted : (PoolUse.give size ngxAlignment (decide (u.memory.pool.max < size))
              { u with registered := u.registered ++ [(handler, data')] }
              (some m, { t' with pool := { t'.pool with
                cleanup := ⟨c, handler, data'⟩ :: t'.pool.cleanup } })).Sound psize others := by
            have hall : ∀ g ∈ (⟨⟨m, size⟩, ngxAlignment, decide (u.memory.pool.max < size)⟩ : Grant) ::
                u.granted, g.align ∣ g.region.addr := by
              intro g hg
              rcases List.mem_cons.1 hg with rfl | hg
              · exact haligned m rfl
              · exact hu.aligned g hg
            have hregistered := hnext c data'
            rw [← hcleanup'] at hregistered
            cases hlarge : decide (u.memory.pool.max < size) with
            | false =>
                rw [hlarge] at hall hgiven'
                rcases hgiven'.piece m rfl rfl with ⟨hmemory', hallocs'⟩
                exact ⟨(hmemory'.perm (.swap _ _ _)).addCleanup,
                  hu.larges.trans (hallocs'.trans hallocs).symm, hall, hregistered⟩
            | true =>
                rw [hlarge] at hall hgiven'
                rcases hgiven'.region m rfl rfl with ⟨hmemory', hallocs'⟩
                exact ⟨hmemory'.addCleanup,
                  (hu.larges.cons _).trans (hallocs'.trans (hallocs.cons _)).symm, hall, hregistered⟩
          refine ⟨_, ?_, hgranted⟩
          simp [PoolUse.step, NgxPool.cleanup, hrecord, hroom, hsize, PoolUse.give, hdata]

theorem Sound.reset (hu : u.Sound psize others) (os : Source) (hregistered : u.registered = []) :
    ∃ v, u.step (os, .reset) = some v ∧ v.Sound psize others := by
  have hcleanup : u.memory.pool.cleanup = [] := by
    have hmap := hu.registered
    rw [hregistered] at hmap
    exact List.map_eq_nil_iff.1 hmap
  rcases ngxResetPool_spec hu.memory hcleanup with ⟨t, ht, hmemory, hnone, hallocs⟩
  refine ⟨⟨t, [], u.registered⟩, ?_, hmemory, ?_, (by simp), ?_⟩
  · rw [step]
    dsimp only
    rw [ht]
    rfl
  · rw [hallocs]
    exact .refl _
  · rw [hnone, hregistered]
    rfl

theorem Sound.step (hu : u.Sound psize others) {a : Source × PoolOp} (ha : u.Allowed a) :
    ∃ v, u.step a = some v ∧ v.Sound psize others := by
  rcases a with ⟨os, op⟩
  rcases ha with ⟨hos, hreset⟩
  cases op with
  | palloc size => exact hu.palloc hos size
  | pnalloc size => exact hu.pnalloc hos size
  | pmemalign size alignment => exact hu.pmemalign hos size alignment
  | pfree p => exact hu.pfree os p
  | cleanup handler data size => exact hu.cleanup hos handler data size
  | reset => exact hu.reset os (hreset rfl)

end runs

/-! ## Every run -/

/-- A pool that has been created. -/
theorem sound_start {os : Source} (hos : os.Lawful) {heap : Malloc.Heap} (hheap : heap.Sound)
    {pagesize size : Nat} (hpage : sizeofPoolCleanup < pagesize) (hsize : ngxMinPoolSize ≤ size)
    (haligned : ngxPoolAlignment ∣ size) {m : Memory} (hm : ngxCreatePool os pagesize size heap = some m) :
    (start m).Sound size heap := by
  rw [ngxCreatePool] at hm
  rcases obtain_cases os ngxPoolAlignment size heap with hnone | ⟨a, ha, hsome⟩
  · rw [hnone] at hm
    cases hm
  rw [hsome] at hm
  cases hm
  simp only [ngxMinPoolSize] at hsize
  simp only [sizeofPoolCleanup] at hpage
  have hregion : PoolBlock.region ⟨a, sizeofPool, a + sizeofPool, a + size, 0⟩ = ⟨a, size⟩ := by
    simp [PoolBlock.region]
  refine ⟨⟨⟨hos.sound hheap ha, ?_, ?_, Nat.one_pos, haligned, ?_, ?_⟩, .nil,
    fun _ hr => absurd hr List.not_mem_nil, fun _ hr => absurd hr List.not_mem_nil⟩, .refl _,
    fun _ hr => absurd hr List.not_mem_nil, rfl⟩
  · change List.Perm _ ([PoolBlock.region _] ++ ([] ++ heap))
    rw [hregion]
    exact .refl _
  · intro b hb
    rw [List.mem_singleton.1 hb]
    refine ⟨hos.aligned ha, Nat.le_refl _, Nat.le_refl _, ?_, rfl, hos.limit ha⟩
    simp only [sizeofPool]
    omega
  · change (if size - 80 < pagesize - 1 then size - 80 else pagesize - 1) + 80 ≤ size
    split <;> omega
  · change 24 ≤ if size - 80 < pagesize - 1 then size - 80 else pagesize - 1
    split <;> omega

/-- In every run of a pool of a legal size, whatever the system answers: no call fails, what the users have
is theirs alone, and destroying the pool calls what is registered, the last first, and leaves no region
behind. -/
theorem pool_uses_safe {os : Source} (hos : os.Lawful) {heap : Malloc.Heap} (hheap : heap.Sound)
    {pagesize size : Nat} (hpage : sizeofPoolCleanup < pagesize) (hsize : ngxMinPoolSize ≤ size)
    (haligned : ngxPoolAlignment ∣ size) {m : Memory} (hm : ngxCreatePool os pagesize size heap = some m)
    {actions : List (Source × PoolOp)} (hactions : Trace.AlongReached step Allowed (start m) actions) :
    ∃ u, actions.foldlM step (start m) = some u ∧ u.Safe heap ∧
      ∃ called h, ngxDestroyPool u.memory = some (called, h) ∧ h.Perm heap ∧
        called = u.registered.reverse.filter fun c => c.1 ≠ 0 := by
  have hstart := sound_start hos hheap hpage hsize haligned hm
  rcases Trace.exists_foldlM_reached (J := Sound size heap) (fun u a hu ha => hu.step ha) hstart hactions
    with ⟨u, hrun, hu⟩
  rcases ngxDestroyPool_spec hu.memory with ⟨called, h, hdestroy, hperm, hcalled⟩
  refine ⟨u, hrun, hu.safe, called, h, hdestroy, hperm, ?_⟩
  rw [hcalled, ← hu.registered, List.filter_map]
  rfl

/-- The smallest pool, in a memory with nothing in use. -/
def smallPool : Memory :=
  ⟨⟨[⟨16, sizeofPool, 96, 128, 0⟩], 32, 0, [], []⟩, [⟨16, 112⟩]⟩

/-- A piece of the block and large regions, one of them on an alignment of its own, and a reset; the same again,
where the aligned region is freed; and something to call. -/
def smallUses : List (Source × PoolOp) :=
  [(bump, .palloc 20), (bump, .pmemalign 40 64), (bump, .pnalloc 500), (bump, .reset), (bump, .pnalloc 32),
    (bump, .pmemalign 40 64), (bump, .pnalloc 500), (bump, .cleanup 7 0 16), (bump, .pfree 384),
    (bump, .palloc 8)]

theorem smallUses_allowed : Trace.AlongReached step Allowed (start smallPool) smallUses := by
  have hreset : Trace.AlongReached step (fun u a => a.2 = .reset → u.registered = []) (start smallPool)
      smallUses := by
    decide +kernel
  intro before a after u hsplit hrun
  have hmem : a ∈ smallUses := by rw [hsplit]; simp
  have hall : ∀ b ∈ smallUses, b.1 = bump := by simp [smallUses]
  refine ⟨?_, hreset before a after u hsplit hrun⟩
  rw [hall a hmem]
  exact bump_lawful

theorem pool_uses_safe_small : ∃ u, smallUses.foldlM step (start smallPool) = some u ∧ u.Safe [] ∧
    ∃ called h, ngxDestroyPool u.memory = some (called, h) ∧ h.Perm [] ∧
      called = u.registered.reverse.filter fun c => c.1 ≠ 0 := by
  have hpage : sizeofPoolCleanup < 4096 := by decide
  have hsize : ngxMinPoolSize ≤ 112 := by decide
  exact pool_uses_safe bump_lawful .nil hpage hsize (by decide) (by rfl) smallUses_allowed

end PoolUse

end Ngx
end CppPractice
