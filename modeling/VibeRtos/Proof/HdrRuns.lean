import VibeRtos.Proof.HdrHeap

/-!
# Every run of a program keeps the pool in order

What a program can observe of the first-fit and best-fit pools, in every state that any
sequence of calls and stores reaches. The pool is set up by the first allocation; until
then nothing is live and the counters are zero.
-/

namespace VibeRtos

open ByteMem Links Tiling Runs

namespace Hdr

variable {v : Variant} {c : HeapConfig} {mem : Mem} {st : HeapState} {live : List Grant}
  {bs : List HBlock}

/-! ## The statistics -/

/-- The sizes of the FREE blocks. -/
def freeBlocks (bs : List HBlock) : List HBlock := bs.filter fun b => b.tag.isNone

/-- The loop adds up the blocks it passes. -/
theorem foldl_walkStats (hsizes : ∀ b ∈ bs, size mem b.addr = b.size)
    (hmagics : ∀ b ∈ bs, magic mem b.addr = tagMagic b.tag) (out : HeapStats)
    (hsum : out.used + out.free + (bs.map Block.size).sum < 2 ^ 32)
    (hcount : out.allocCount + out.freeCount + bs.length < 2 ^ 32) :
    (bs.map Block.addr).foldl (walkStatsStep mem) out = { out with
      used := out.used + ((usedBlocks bs).map Block.size).sum
      free := out.free + ((freeBlocks bs).map Block.size).sum
      allocCount := out.allocCount + (usedBlocks bs).length
      freeCount := out.freeCount + (freeBlocks bs).length
      largestFree := ((freeBlocks bs).map Block.size).foldl max out.largestFree } := by
  have hfree : freeBlocks bs = bs.filter fun b => !b.tag.isSome := by
    unfold freeBlocks
    simp
  have htally := foldl_tally (g := walkStatsStep mem) (fun b => b.tag.isSome) ?_ out hsum hcount
  · rw [htally, hfree]
    rfl
  · intro b hb out
    have hmagic := hmagics b hb
    unfold walkStatsStep
    rw [hsizes b hb]
    cases htag : b.tag with
    | none =>
        rw [htag] at hmagic
        rw [if_neg (by rw [hmagic]; decide)]
        rfl
    | some r =>
        rw [htag] at hmagic
        rw [if_pos (by rw [hmagic]; rfl)]
        rfl

/-- What `vibe_heap_stats` reports. -/
theorem PoolInv.stats (h : PoolInv c st live bs) (hsize : 16 ≤ c.size) :
    heapWalkStats c st = {
      total := c.size - 16
      used := ((usedBlocks bs).map Block.size).sum
      free := ((freeBlocks bs).map Block.size).sum
      largestFree := ((freeBlocks bs).map Block.size).foldl max 0
      allocCount := (usedBlocks bs).length
      freeCount := (freeBlocks bs).length } := by
  have hne : bs ≠ [] := by
    intro hnil
    have ht := h.rep.tiles
    rw [hnil] at ht
    have hend : c.pool = c.pool + c.size := ht
    omega
  have hsum := h.rep.tiles.sum
  have hfits := c.fits
  unfold hdrSize at hsum
  unfold heapWalkStats
  rw [h.rep.chain_eq h.head hne, foldl_walkStats h.rep.sizes h.rep.magics _
    (by simp only; omega) (by simp only; omega)]
  simp only [HeapStats.mk.injEq, Nat.zero_add, and_self, and_true]
  exact sub32_eq hsize (by omega)

/-! ## The pool a program sees -/

/-- The pool is in order: `bs` are its blocks. -/
structure PoolOk (c : HeapConfig) (s : HeapSys HeapState) (bs : List HBlock) : Prop where
  /-- the chain starts at the pool and its blocks fill the pool exactly -/
  head : s.heap.head = c.pool
  tiles : Tiles hdrSize c.pool bs (c.pool + c.size)
  /-- `prev` and `next` link the blocks in order -/
  linked : Chain (links s.heap.mem) none (bs.map Block.addr) none
  sizes : ∀ b ∈ bs, size s.heap.mem b.addr = b.size
  /-- every block is FREE or USED -/
  magics : ∀ b ∈ bs, b.tag = none ∧ magic s.heap.mem b.addr = magicFree
    ∨ b.tag ≠ none ∧ magic s.heap.mem b.addr = magicUsed
  /-- no two neighbours are FREE -/
  merged : Merged (fun b => magic s.heap.mem b.addr = magicFree) bs
  /-- the USED blocks are the live grants -/
  live : s.live.Perm (grants bs)
  /-- live payloads are as large as requested and do not overlap -/
  room : ∀ l ∈ s.live, l.req ≤ size s.heap.mem (hdrFromPtr l.ptr)
  disjoint : s.live.Pairwise fun l k => l.ptr + size s.heap.mem (hdrFromPtr l.ptr) ≤ k.ptr
    ∨ k.ptr + size s.heap.mem (hdrFromPtr k.ptr) ≤ l.ptr
  /-- the counters and the statistics agree with the blocks -/
  usedBytes : s.heap.usedBytes = ((usedBlocks bs).map Block.size).sum
  allocCount : s.heap.allocCount = (usedBlocks bs).length
  stats : heapWalkStats c s.heap = {
    total := c.size - 16
    used := s.heap.usedBytes
    free := ((freeBlocks bs).map Block.size).sum
    largestFree := ((freeBlocks bs).map Block.size).foldl max 0
    allocCount := s.heap.allocCount
    freeCount := (freeBlocks bs).length }
  /-- with nothing live the pool is one FREE block -/
  empty : s.live = [] → bs = [⟨c.pool, c.size - 16, none⟩]

theorem PoolInv.ok {s : HeapSys HeapState} (h : PoolInv c s.heap s.live bs)
    (hc : (backend v c).Correct c.size (HdrInv c)) (hinit : s.heap.initialized = true)
    (hsize : 16 ≤ c.size) : PoolOk c s bs := by
  have hi : HdrInv c s.heap s.live := Or.inr ⟨hinit, bs, h⟩
  refine ⟨h.head, h.rep.tiles, h.rep.linked, h.rep.sizes, ?_, ?_, h.live, fun l hl => hc.room hi hl,
    ?_, h.used, h.count, ?_, ?_⟩
  · intro b hb
    have hmagic := h.rep.magics b hb
    cases htag : b.tag with
    | none => exact Or.inl ⟨rfl, by rw [hmagic, htag]; rfl⟩
    | some r => exact Or.inr ⟨by simp, by rw [hmagic, htag]; rfl⟩
  · refine List.IsChain.imp_of_mem_imp ?_ h.merged
    intro x y hx hy hxy hboth
    dsimp only at hboth
    rw [h.rep.magics x hx, h.rep.magics y hy, tagMagic_eq_free, tagMagic_eq_free] at hboth
    exact hxy hboth
  · refine (List.pairwise_map.mp h.nodup).imp_of_mem ?_
    intro l k hl hk hne
    exact hc.disjoint hi hl hk hne
  · rw [h.stats hsize, h.used, h.count]
  · intro hnil
    have hperm := h.live
    rw [hnil] at hperm
    have hnone : usedBlocks bs = [] := List.map_eq_nil_iff.mp hperm.symm.eq_nil
    have hfree : ∀ b ∈ bs, IsFree b := by
      intro b hb
      by_contra hused
      have hmem : b ∈ usedBlocks bs :=
        mem_usedBlocks.mpr ⟨hb, Option.isSome_iff_ne_none.mpr hused⟩
      rw [hnone] at hmem
      exact absurd hmem (by simp)
    have hone := h.merged.single hfree
    have ht := h.rep.tiles
    match bs, hone with
    | [], _ =>
        have hend : c.pool = c.pool + c.size := ht
        omega
    | [b], _ =>
        obtain ⟨a, n, t⟩ := b
        obtain ⟨ha, hend⟩ := ht
        have ht' : t = none := hfree _ List.mem_cons_self
        simp only [Tiles, hdrSize] at ha hend
        subst ha ht'
        have hn : n = c.size - 16 := by omega
        rw [hn]

/--
**The first-fit and best-fit pools stay in order.**

In every state that a sequence of allocations, resizes, frees and stores reaches, the
pool is untouched and nothing is live, or its blocks are in order.
-/
theorem pool_in_order {v : Variant} {c : HeapConfig} {mem : Mem} {labels : List HeapLabel}
    {s : HeapSys HeapState} (hsize : 256 ≤ c.size)
    (hrun : run (HeapSys.step (backend v c) c.size) ⟨heapState mem, []⟩ labels = some s) :
    s.heap.initialized = true ∧ (∃ bs, PoolOk c s bs)
      ∨ s.heap.initialized = false ∧ s.live = [] ∧ s.heap = heapState s.heap.mem := by
  have hc := correct v c (by omega)
  have hstart : HdrInv c (heapState mem) [] := Or.inl ⟨rfl, rfl, rfl⟩
  rcases hc.run (s := ⟨heapState mem, []⟩) hstart hrun with ⟨hno, hst, hlive⟩ | ⟨hyes, bs, hp⟩
  · exact Or.inr ⟨hno, hlive, hst⟩
  · exact Or.inl ⟨hyes, bs, hp.ok hc hyes (by omega)⟩

/-- A 256-byte pool at `0x2000`. -/
def smallPool : HeapConfig := ⟨0x2000, 256, samplePool_pos, samplePool_aligned, samplePool_fits⟩

/-- Two allocations, a resize that moves the first, and a free, under best fit. -/
theorem pool_in_order_best :
    ∃ s, run (HeapSys.step (backend ⟨true, true⟩ smallPool) 256) ⟨heapState fun _ => 0, []⟩
        [.alloc 10, .alloc 20, .realloc 0x2010 40, .free 0x2030] = some s
      ∧ s.live = [⟨0x2058, 40⟩]
      ∧ (s.heap.initialized = true ∧ (∃ bs, PoolOk smallPool s bs)
        ∨ s.heap.initialized = false ∧ s.live = [] ∧ s.heap = heapState s.heap.mem) := by
  obtain ⟨s, hrun, hlive⟩ : ∃ s,
      run (HeapSys.step (backend ⟨true, true⟩ smallPool) 256) ⟨heapState fun _ => 0, []⟩
        [.alloc 10, .alloc 20, .realloc 0x2010 40, .free 0x2030] = some s
      ∧ s.live = [⟨0x2058, 40⟩] := Option.map_eq_some_iff.mp (by decide +kernel)
  exact ⟨s, hrun, hlive, pool_in_order (c := smallPool) (by decide) hrun⟩

end Hdr

end VibeRtos
