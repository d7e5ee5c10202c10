import VibeRtos.Proof.TlsfCalls

/-!
# Every run of a program keeps the TLSF pool in order

What a program can observe of the TLSF pool, in every state that any sequence of calls
and stores reaches: the physical blocks, the free lists and the live payloads. Blocks
that lie next to each other on free lists are a different matter: whether two of them
are merged is decided by a flag that a split does not set.
-/

namespace VibeRtos

open ByteMem Bits Links Tiling Runs

namespace Tlsf

variable {c : TlsfConfig} {mem : Mem} {st : TlsfState} {live : List Grant} {l k : Grant}
  {xs ys zs fs bs : List TBlock} {b d : TBlock} {f : Nat × Nat → List Nat} {n r a : Nat}

/-- Requests up to the size of the heap have a size class. -/
theorem correct_size (c : TlsfConfig) : (backend c.toHeapConfig).Correct c.size (TlsfInv c) :=
  (correct c).mono c.small

/-! ## The free lists as the code walks them -/

theorem Rep.freeList_eq (h : Rep c mem zs fs f) {k : Nat × Nat} (hk : InRange k) :
    freeList mem c.pool k = f k :=
  h.lists.freeList_eq (h.family h.headers) hk

/-- A block is listed in the class of its size. -/
theorem Rep.mem_freeList (h : Rep c mem zs fs f) {k : Nat × Nat} (hk : InRange k) :
    a ∈ freeList mem c.pool k ↔ ∃ b ∈ fs, b.tag.req = none ∧ b.addr = a ∧ mapping b.size = k := by
  rw [h.freeList_eq hk]
  exact h.listed k a

theorem Rep.inRange (h : Rep c mem zs fs f) (hb : b ∈ fs) : InRange (mapping b.size) := by
  have hlim := h.headers.bounds (h.sub.subset hb)
  have hsmall := c.small
  exact (mapping_inRange (by omega)).mpr (by omega)

/-! ## The physical blocks as the code walks them -/

/-- The physical blocks from `cur` on, up to the sentinel. -/
def physBlocks (mem : Mem) : Nat → Nat → List Nat
  | 0, _ => []
  | fuel + 1, cur =>
      if blockSize mem cur = 0 then [] else cur :: physBlocks mem fuel (blockNext mem cur)

/-- The walk passes the blocks in order. -/
theorem physBlocks_eq {fuel : Nat} (hmin : ∀ b ∈ bs, 8 ≤ b.size)
    (h : Headers c.toHeapConfig mem (xs ++ (bs ++ [sentinel c.toHeapConfig])))
    (hfuel : bs.length < fuel) (ha : ∀ b ∈ (bs ++ [sentinel c.toHeapConfig]).head?, b.addr = a) :
    physBlocks mem fuel a = bs.map Block.addr := by
  induction bs generalizing xs fuel a with
  | nil =>
      obtain ⟨fuel, rfl⟩ := Nat.exists_eq_succ_of_ne_zero (by omega : fuel ≠ 0)
      have hsize : blockSize mem (sentinel c.toHeapConfig).addr = 0 := h.size_of_mem (by simp)
      have haddr := ha (sentinel c.toHeapConfig) rfl
      -- the sentinel has size zero, which ends the walk
      rw [physBlocks, ← haddr, if_pos hsize]
      rfl
  | cons b bs ih =>
      obtain ⟨fuel, rfl⟩ := Nat.exists_eq_succ_of_ne_zero (by omega : fuel ≠ 0)
      have h8 := hmin b List.mem_cons_self
      have hsize := h.size_of_mem (b := b) (by simp)
      have haddr := ha b rfl
      obtain ⟨y, ys, hy⟩ : ∃ y ys, bs ++ [sentinel c.toHeapConfig] = y :: ys :=
        List.exists_cons_of_ne_nil (by simp)
      have hnext := h
      rw [List.cons_append, hy] at hnext
      have h' : Headers c.toHeapConfig mem ((xs ++ [b]) ++ (bs ++ [sentinel c.toHeapConfig])) := by
        simpa using h
      rw [physBlocks, ← haddr, if_neg (by omega), hnext.blockNext_eq, List.map_cons]
      congr 1
      refine ih (fun d hd => hmin d (List.mem_cons_of_mem _ hd)) h'
        (by simp only [List.length_cons] at hfuel; omega) fun d hd => ?_
      rw [hy] at hd
      rw [Option.some.inj hd]

theorem TlsfConfig.size_le_walkBound (c : TlsfConfig) : c.size ≤ walkBound := by
  have hfits := c.fits
  unfold walkBound
  omega

namespace PoolInv

/-- The walk from the start of the pool passes all blocks. -/
theorem physBlocks_eq {fuel : Nat} (h : PoolInv c mem live bs) (hfuel : c.size ≤ fuel) :
    physBlocks mem fuel (poolStart c.pool) = bs.map Block.addr := by
  obtain ⟨f, hrep⟩ := h.rep
  have hlarge := c.large
  have hsum := h.tiles.sum
  rw [poolStart_eq] at hsum
  unfold blockHdrOffset at hsum
  have hall : Headers c.toHeapConfig mem ([] ++ (bs ++ [sentinel c.toHeapConfig])) := hrep.headers
  -- each block takes eight bytes or more, so there are fewer blocks than bytes
  refine Tlsf.physBlocks_eq hrep.least hall (by omega) ?_
  have ht := hrep.headers.tiles
  cases hbs : bs ++ [sentinel c.toHeapConfig] with
  | nil => simp
  | cons x xs =>
      rw [hbs] at ht
      intro b hb
      rw [← Option.some.inj hb]
      exact ht.1

theorem onFreeList (h : PoolInv c mem live bs) :
    OnFreeList mem c.pool a ↔ ∃ b ∈ bs, IsListed b ∧ b.addr = a := by
  obtain ⟨f, hrep⟩ := h.rep
  constructor
  · rintro ⟨k, hk, ha⟩
    obtain ⟨b, hb, hreq, hba, -⟩ := (hrep.mem_freeList hk).mp ha
    exact ⟨b, hb, hreq, hba⟩
  · rintro ⟨b, hb, hreq, rfl⟩
    have hk := hrep.inRange hb
    exact ⟨_, hk, (hrep.mem_freeList hk).mpr ⟨b, hb, hreq, rfl, rfl⟩⟩

theorem listed_iff (h : PoolInv c mem live bs) (hb : b ∈ bs) :
    OnFreeList mem c.pool b.addr ↔ IsListed b := by
  rw [h.onFreeList]
  constructor
  · rintro ⟨d, hd, hreq, he⟩
    rwa [← h.tiles.addr_inj (by decide) hd hb he]
  · exact fun hreq => ⟨b, hb, hreq, rfl⟩

/-- The pointers the program holds are the payloads of the blocks in use. -/
theorem held_iff (h : PoolInv c mem live bs) (hb : b ∈ bs) :
    Held live (b.addr + 8) ↔ ¬ IsListed b := by
  constructor
  · rintro ⟨l, hl, he⟩
    obtain ⟨d, hd, hreq, hptr, -⟩ := h.block hl
    obtain rfl := h.tiles.addr_inj (by decide) hd hb (by omega)
    rw [IsListed, hreq]
    simp
  · intro hlive
    obtain ⟨r, hr⟩ := Option.ne_none_iff_exists'.mp hlive
    refine ⟨⟨b.addr + 8, r⟩, h.live.mem_iff.mpr ?_, rfl⟩
    exact List.mem_filterMap.mpr ⟨b, hb, by rw [hr]; rfl⟩

/-- The pool is not empty, so every block has another one or the sentinel behind it. -/
theorem next (h : PoolInv c mem live bs) (hb : b ∈ bs) : ∃ xs y ys f,
    bs ++ [sentinel c.toHeapConfig] = xs ++ b :: y :: ys
      ∧ Rep c mem (xs ++ b :: y :: ys) bs f := by
  obtain ⟨f, hrep⟩ := h.rep
  obtain ⟨xs, zs, rfl⟩ := List.append_of_mem hb
  -- behind the last block there is still the sentinel
  obtain ⟨y, ys, hy⟩ : ∃ y ys, zs ++ [sentinel c.toHeapConfig] = y :: ys :=
    List.exists_cons_of_ne_nil (by simp)
  have hall : xs ++ b :: zs ++ [sentinel c.toHeapConfig] = xs ++ b :: y :: ys := by
    rw [List.append_assoc, List.cons_append, hy]
  exact ⟨xs, y, ys, f, hall, hall ▸ hrep⟩

/-- The block behind a block knows whether that one is listed. -/
theorem prevIsFree_next (h : PoolInv c mem live bs) (hb : b ∈ bs) :
    blockPrevIsFree mem (blockNext mem b.addr) ↔ IsListed b := by
  obtain ⟨xs, y, ys, f, -, hrep⟩ := h.next hb
  have hy : Headers c.toHeapConfig mem ((xs ++ [b]) ++ y :: ys) := by
    simpa using hrep.headers
  rw [hrep.headers.blockNext_eq, hy.prevIsFree_iff, List.getLast?_concat]
  simp [prevIsFree, IsListed]

end PoolInv

/-! ## The pool a program sees -/

/-- The pool is in order: `bs` are its blocks. -/
structure PoolOk (c : TlsfConfig) (s : HeapSys TlsfState) (bs : List TBlock) : Prop where
  ctl : s.heap.ctl = c.pool
  /-- the blocks fill the pool from behind the control structure up to the sentinel -/
  tiles : Tiles blockHdrOffset (poolStart c.pool) bs (c.pool + c.size - blockHdrOffset)
  sizes : ∀ b ∈ bs, blockSize s.heap.mem b.addr = b.size
  sentinel : blockSize s.heap.mem (c.pool + c.size - blockHdrOffset) = 0
  /-- `prev_phys` is the inverse of `block_next` -/
  prevFirst : prevPhys s.heap.mem (poolStart c.pool) = 0
  prevNext : ∀ b ∈ bs, prevPhys s.heap.mem (blockNext s.heap.mem b.addr) = b.addr
  /-- PREV_FREE tells whether the block in front is on a free list -/
  flagFirst : ¬ blockPrevIsFree s.heap.mem (poolStart c.pool)
  flagNext : ∀ b ∈ bs, blockPrevIsFree s.heap.mem (blockNext s.heap.mem b.addr)
    ↔ OnFreeList s.heap.mem c.pool b.addr
  /-- every block is live or on exactly one free list -/
  owned : ∀ b ∈ bs, Held s.live (b.addr + 8) ∧ ¬ OnFreeList s.heap.mem c.pool b.addr
    ∨ ¬ Held s.live (b.addr + 8) ∧ ∃! k, InRange k ∧ b.addr ∈ freeList s.heap.mem c.pool k
  /-- and there is nothing else on the lists -/
  lists : ∀ k, InRange k → (freeList s.heap.mem c.pool k).Nodup
    ∧ ∀ a ∈ freeList s.heap.mem c.pool k, ∃ b ∈ bs, b.addr = a
  /-- live payloads are those of blocks, aligned, as large as requested and inside the pool -/
  payload : ∀ l ∈ s.live, ∃ b ∈ bs, l.ptr = b.addr + 8
  aligned : ∀ l ∈ s.live, 8 ∣ l.ptr
  room : ∀ l ∈ s.live, l.req ≤ blockSize s.heap.mem (ptrToBlock l.ptr)
  inside : ∀ l ∈ s.live, c.pool ≤ l.ptr
    ∧ l.ptr + blockSize s.heap.mem (ptrToBlock l.ptr) ≤ c.pool + c.size
  /-- they do not overlap, neither each other nor the headers and the control structure -/
  disjoint : s.live.Pairwise fun l k =>
    l.ptr + blockSize s.heap.mem (ptrToBlock l.ptr) ≤ k.ptr
      ∨ k.ptr + blockSize s.heap.mem (ptrToBlock k.ptr) ≤ l.ptr
  apart : ∀ l ∈ s.live, ∀ x, HeaderByte (bs ++ [Tlsf.sentinel c.toHeapConfig]) x
    ∨ c.pool ≤ x ∧ x < poolStart c.pool →
    x < l.ptr ∨ l.ptr + blockSize s.heap.mem (ptrToBlock l.ptr) ≤ x

/-- The pool starts at a multiple of eight, and so does every block. -/
theorem aligned_blocks {z : Nat} (h8 : ∀ b ∈ bs, 8 ∣ b.size) (ha : 8 ∣ a)
    (ht : Tiles blockHdrOffset a bs z) : ∀ b ∈ bs, 8 ∣ b.addr := by
  induction bs generalizing a with
  | nil => simp
  | cons x bs ih =>
      obtain ⟨hx, hrest⟩ := ht
      have hs := h8 x List.mem_cons_self
      have hnext : 8 ∣ a + blockHdrOffset + x.size := by
        unfold blockHdrOffset
        omega
      intro b hb
      rcases List.mem_cons.mp hb with rfl | hb
      · exact hx ▸ ha
      · exact ih (fun b hb => h8 b (List.mem_cons_of_mem _ hb)) hnext hrest b hb

theorem PoolInv.ok {s : HeapSys TlsfState} (h : PoolInv c s.heap.mem s.live bs)
    (hctl : s.heap.ctl = c.pool) : PoolOk c s bs := by
  obtain ⟨f, hrep⟩ := h.rep
  have hi : TlsfInv c s.heap s.live := Or.inr ⟨hctl, bs, h⟩
  have hpool := c.aligned
  have hlarge := c.large
  have hstart : ∃ x xs, bs ++ [Tlsf.sentinel c.toHeapConfig] = x :: xs
    ∧ x.addr = poolStart c.pool := by
    obtain ⟨x, xs, hx⟩ : ∃ x xs, bs ++ [Tlsf.sentinel c.toHeapConfig] = x :: xs :=
      List.exists_cons_of_ne_nil (by simp)
    have ht := hrep.headers.tiles
    rw [hx] at ht
    exact ⟨x, xs, hx, ht.1⟩
  obtain ⟨x, xs, hx, hxa⟩ := hstart
  have hfirst : Headers c.toHeapConfig s.heap.mem ([] ++ x :: xs) := hx ▸ hrep.headers
  have halign : ∀ b ∈ bs, 8 ∣ b.size := fun b hb =>
    hrep.headers.aligned b (List.mem_append_left _ hb)
  have haddr := aligned_blocks halign (by rw [poolStart_eq]; omega) h.tiles
  -- the fields in order: the headers, the lists, and the payloads
  refine ⟨hctl, h.tiles, fun b hb => hrep.headers.size_of_mem (List.mem_append_left _ hb),
    hrep.headers.size_of_mem (b := Tlsf.sentinel c.toHeapConfig) (by simp), ?_, fun b hb => ?_, ?_,
    fun b hb => ?_, fun b hb => ?_, fun k hk =>
      ⟨?_, fun a ha => ?_⟩, fun l hl => ?_, fun l hl => ?_,
    fun l hl => (correct c).room hi hl, fun l hl => ?_, ?_, fun l hl a ha => ?_⟩
  · rw [← hxa]
    exact hfirst.header.prev
  · obtain ⟨us, y, vs, g, hall, hrep'⟩ := h.next hb
    rw [hrep'.headers.blockNext_eq]
    exact hrep'.headers.header_next.prev
  · rw [← hxa, hfirst.prevIsFree_iff]
    simp [prevIsFree]
  · rw [h.prevIsFree_next hb, h.listed_iff hb]
  · rw [h.held_iff hb, h.listed_iff hb, not_not]
    by_cases hl : IsListed b
    · refine Or.inr ⟨hl, mapping b.size, ⟨hrep.inRange hb, ?_⟩, fun k hk => ?_⟩
      · exact (hrep.mem_freeList (hrep.inRange hb)).mpr ⟨b, hb, hl, rfl, rfl⟩
      · obtain ⟨d, hd, -, he, rfl⟩ := (hrep.mem_freeList hk.1).mp hk.2
        rw [h.tiles.addr_inj (by decide) hd hb he]
    · exact Or.inl ⟨hl, hl⟩
  · rw [hrep.freeList_eq hk]
    exact hrep.nodup k
  · obtain ⟨b, hb, -, hba, -⟩ := (hrep.mem_freeList hk).mp ha
    exact ⟨b, hb, hba⟩
  · obtain ⟨b, hb, -, hptr, -⟩ := h.block hl
    exact ⟨b, hb, hptr⟩
  · obtain ⟨b, hb, -, hptr, -⟩ := h.block hl
    have h8 := haddr b hb
    omega
  · obtain ⟨b, hb, -, hptr, hsz⟩ := h.block hl
    have hlim := h.tiles.bounds hb
    rw [poolStart_eq] at hlim
    unfold blockHdrOffset at hlim
    omega
  · refine (List.pairwise_map.mp h.nodup).imp_of_mem ?_
    intro l k hl hk hne
    exact (correct c).disjoint hi hl hk hne
  · obtain ⟨b, hb, -, hptr, hsz⟩ := h.block hl
    rw [hsz]
    by_contra hin
    -- a header byte is no payload, and the control structure lies in front of all blocks
    rcases ha with ha | ha
    · have hpay := hrep.headers.payload (List.mem_append_left _ hb)
        (show a - (b.addr + 8) < b.size by omega)
      rw [show b.addr + 8 + (a - (b.addr + 8)) = a by omega] at hpay
      exact hpay ha
    · have hlim := (h.tiles.bounds hb).1
      omega

/-- The invariant holds in every state that a program reaches. -/
theorem inv_of_run {labels : List HeapLabel} {s : HeapSys TlsfState}
    (hrun : run (HeapSys.step (backend c.toHeapConfig) c.size) ⟨tlsfState mem, []⟩ labels
      = some s) : TlsfInv c s.heap s.live :=
  (correct_size c).run (s := ⟨tlsfState mem, []⟩) (Or.inl ⟨rfl, rfl⟩) hrun

/-- From the first allocation on there is a pool, and it is in order. -/
theorem poolInv_of_run {labels : List HeapLabel} {s : HeapSys TlsfState}
    (hrun : run (HeapSys.step (backend c.toHeapConfig) c.size) ⟨tlsfState mem, []⟩ labels
      = some s) (hready : s.heap.ctl ≠ 0) :
    s.heap.ctl = c.pool ∧ ∃ bs, PoolInv c s.heap.mem s.live bs := by
  rcases inv_of_run hrun with ⟨h0, -⟩ | hpool
  · exact absurd h0 hready
  · exact hpool

/--
**The TLSF pool stays in order.**

In every state that a sequence of allocations, resizes, frees and stores reaches, the
pool is untouched and nothing is live, or its blocks, lists and live payloads are in
order; and no call from there changes a byte of a payload it is not given.
-/
theorem pool_stays_in_order {c : TlsfConfig} {mem : Mem} {labels : List HeapLabel}
    {s : HeapSys TlsfState}
    (hrun : run (HeapSys.step (backend c.toHeapConfig) c.size) ⟨tlsfState mem, []⟩ labels
    = some s) :
    (s.heap.ctl = 0 ∧ s.live = [] ∨ ∃ bs, PoolOk c s bs)
      ∧ ∀ l s', s.step (backend c.toHeapConfig) c.size l = some s' → l.IsCall →
        ∀ k ∈ s.live, k.ptr ≠ l.target → ∀ i < blockSize s.heap.mem (ptrToBlock k.ptr),
          s'.heap.mem (k.ptr + i) = s.heap.mem (k.ptr + i) := by
  have hi := inv_of_run hrun
  refine ⟨?_, fun l s' hs hcall k hk hne i hlt =>
    (correct_size c).step_keeps hi hs hcall hk hne hlt⟩
  rcases hi with hno | ⟨hctl, bs, hp⟩
  · exact Or.inl hno
  · exact Or.inr ⟨bs, hp.ok hctl⟩

/-- A heap of 1024 bytes at `0x2000`. -/
def kilobyte : TlsfConfig :=
  ⟨⟨0x2000, 1024, samplePool_pos, samplePool_aligned, by decide⟩,
    by decide, by decide, by decide⟩

/-- Two allocations and a resize that moves the first. -/
theorem pool_stays_in_order_moved :
    ∃ s, run (HeapSys.step (backend kilobyte.toHeapConfig) kilobyte.size)
        ⟨tlsfState fun _ => 0, []⟩ [.alloc 10, .alloc 20, .realloc 8944 40] = some s
      ∧ s.live = [⟨9000, 40⟩, ⟨8968, 20⟩]
      ∧ (s.heap.ctl = 0 ∧ s.live = [] ∨ ∃ bs, PoolOk kilobyte s bs) := by
  obtain ⟨s, hrun, hlive⟩ : ∃ s, run (HeapSys.step (backend kilobyte.toHeapConfig) kilobyte.size)
        ⟨tlsfState fun _ => 0, []⟩ [.alloc 10, .alloc 20, .realloc 8944 40] = some s
      ∧ s.live = [⟨9000, 40⟩, ⟨8968, 20⟩] := Option.map_eq_some_iff.mp (by decide +kernel)
  exact ⟨s, hrun, hlive, (pool_stays_in_order hrun).1⟩

end Tlsf

end VibeRtos
