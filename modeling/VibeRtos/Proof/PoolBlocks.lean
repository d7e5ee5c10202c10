import VibeRtos.Lib.SList
import VibeRtos.Kernel.PoolSystem

/-!
# The blocks of a memory pool

`Blocks mem p free alloc`: the free list of the pool is `free`, and the blocks of the
pool are those of `free` and of `alloc`, each once. Blocks do not overlap, so a write
into one changes the link of no other. Whether a block that was taken is already cleared
does not matter here.
-/

namespace VibeRtos

open ByteMem SList Kernel

namespace PoolSys

variable {mem mem' : Mem} {p : MemPool} {free alloc : List Nat} {b x y : Nat}

theorem ptr_eq_none {v : Nat} : ptr v = none ↔ v = 0 := by
  unfold ptr
  split <;> simp [*]

theorem ptr_of_ne {v : Nat} (h : v ≠ 0) : ptr v = some v := if_neg h

/-- The free list and the blocks it shares the pool with. -/
structure Blocks (mem : Mem) (p : MemPool) (free alloc : List Nat) : Prop where
  list : Path (link mem) (ptr p.freeList) free none
  count : p.freeCount.toNat = free.length
  blocks : (free ++ alloc).Perm (blockStarts p.blocks p.blockSize p.numBlocks)
  /-- a link fits in a block -/
  size : 4 ≤ p.blockSize.toNat
  pos : 0 < p.blocks
  fits : p.blocks + p.numBlocks.toNat * p.blockSize.toNat ≤ 2 ^ 32

/-! ## Where blocks lie -/

theorem mem_blockStarts {buffer : Nat} {bs n : UInt32} :
    b ∈ blockStarts buffer bs n ↔ ∃ i < n.toNat, b = buffer + i * bs.toNat := by
  simp [blockStarts, eq_comm]

theorem blockStarts_bounds {buffer : Nat} {bs n : UInt32} (h : b ∈ blockStarts buffer bs n) :
    buffer ≤ b ∧ b + bs.toNat ≤ buffer + n.toNat * bs.toNat := by
  obtain ⟨i, hi, rfl⟩ := mem_blockStarts.mp h
  have hmul : (i + 1) * bs.toNat ≤ n.toNat * bs.toNat := Nat.mul_le_mul_right _ hi
  rw [Nat.succ_mul] at hmul
  omega

/-- Two blocks do not overlap. -/
theorem blockStarts_apart {buffer : Nat} {bs n : UInt32} (hx : x ∈ blockStarts buffer bs n)
    (hy : y ∈ blockStarts buffer bs n) (hne : x ≠ y) :
    x + bs.toNat ≤ y ∨ y + bs.toNat ≤ x := by
  obtain ⟨i, -, rfl⟩ := mem_blockStarts.mp hx
  obtain ⟨j, -, rfl⟩ := mem_blockStarts.mp hy
  rcases Nat.lt_trichotomy i j with hij | rfl | hij
  · have hmul : (i + 1) * bs.toNat ≤ j * bs.toNat := Nat.mul_le_mul_right _ hij
    rw [Nat.succ_mul] at hmul
    omega
  · exact absurd rfl hne
  · have hmul : (j + 1) * bs.toNat ≤ i * bs.toNat := Nat.mul_le_mul_right _ hij
    rw [Nat.succ_mul] at hmul
    omega

theorem blockStarts_nodup {buffer : Nat} {bs n : UInt32} (h : 0 < bs.toNat) :
    (blockStarts buffer bs n).Nodup := by
  refine List.Nodup.map (fun i j hij => ?_) List.nodup_range
  exact Nat.eq_of_mul_eq_mul_right h (Nat.add_left_cancel hij)

namespace Blocks

variable (h : Blocks mem p free alloc)
include h

theorem nodup : (free ++ alloc).Nodup :=
  h.blocks.nodup_iff.mpr (blockStarts_nodup (by have := h.size; omega))

/-- A free block is not allocated. -/
theorem not_alloc (hb : b ∈ free) : b ∉ alloc := fun ha =>
  (List.nodup_append.mp h.nodup).2.2 b hb b ha rfl

theorem bounds (hb : b ∈ free ++ alloc) :
    p.blocks ≤ b ∧ b + p.blockSize.toNat ≤ p.blocks + p.numBlocks.toNat * p.blockSize.toNat :=
  blockStarts_bounds (h.blocks.mem_iff.mp hb)

theorem apart (hx : x ∈ free ++ alloc) (hy : y ∈ free ++ alloc) (hne : x ≠ y) :
    x + p.blockSize.toNat ≤ y ∨ y + p.blockSize.toNat ≤ x :=
  blockStarts_apart (h.blocks.mem_iff.mp hx) (h.blocks.mem_iff.mp hy) hne

theorem length : free.length + alloc.length = p.numBlocks.toNat := by
  have hlen := h.blocks.length_eq
  simpa [blockStarts] using hlen

theorem freeList_eq_zero : p.freeList = 0 ↔ p.freeCount = 0 := by
  have hcount : p.freeCount = 0 ↔ free = [] := by
    rw [← UInt32.toNat_inj, h.count]
    exact List.length_eq_zero_iff
  rw [hcount, ← ptr_eq_none, h.list.head]
  exact List.head?_eq_none_iff

/-- The links of the free blocks survive a change of other blocks. -/
theorem congr (hm : ∀ c ∈ free, ∀ i < 4, mem' (c + i) = mem (c + i)) :
    Blocks mem' p free alloc := by
  refine { h with list := h.list.congr fun c hc => ?_ }
  rw [link, link, read32_congr (hm c hc)]

/-! ## Taking and giving back -/

/-- **Taking the first block.** -/
theorem take (hne : p.freeList ≠ 0) : ∃ rest, free = p.freeList :: rest
    ∧ Blocks mem (p.take mem) rest (p.freeList :: alloc) := by
  have hstart := h.list.head
  rw [ptr_of_ne hne] at hstart
  cases free with
  | nil => exact absurd hstart (by simp)
  | cons c rest =>
      obtain rfl : p.freeList = c := Option.some.inj hstart
      refine ⟨rest, rfl, h.list.2, ?_, h.blocks.symm.trans ?_ |>.symm, h.size, h.pos, h.fits⟩
      · have hcount := h.count
        rw [List.length_cons] at hcount
        have hone : (1 : UInt32) ≤ p.freeCount := UInt32.le_iff_toNat_le.mpr (by
          rw [hcount]
          exact Nat.le_add_left 1 _)
        show (p.freeCount - 1).toNat = rest.length
        rw [UInt32.toNat_sub_of_le _ _ hone, hcount]
        rfl
      · exact List.perm_middle.symm

/-- **Giving a block back.** -/
theorem give {rest : List Nat} (hb : b ∈ alloc) (hrest : alloc.Perm (b :: rest)) :
    Blocks (write32 mem b p.freeList) { p with freeList := b, freeCount := p.freeCount + 1 }
      (b :: free) rest := by
  have hbounds := h.bounds (List.mem_append_right _ hb)
  have hsize := h.size
  have hfits := h.fits
  have hpos := h.pos
  have hlist : p.freeList < 2 ^ 32 := by
    by_cases h0 : p.freeList = 0
    · omega
    · obtain ⟨rest', hfree, -⟩ := h.take h0
      have hin := h.bounds (List.mem_append_left _ (hfree ▸ List.mem_cons_self))
      omega
  have hlink : link (write32 mem b p.freeList) b = ptr p.freeList := by
    rw [link, read32_write32_same, Nat.mod_eq_of_lt hlist]
  have hlen := h.length
  have hne0 : b ≠ 0 := by omega
  refine ⟨⟨ptr_of_ne hne0, ?_⟩, ?_, ?_, hsize, hpos, hfits⟩
  · rw [hlink]
    -- the links of the others are not touched
    refine h.list.congr fun c hc => ?_
    have hne : c ≠ b := fun he => h.not_alloc hc (he ▸ hb)
    have hapart := h.apart (List.mem_append_left _ hc) (List.mem_append_right _ hb) hne
    rw [link, link, read32_write32_ne (by omega)]
  · have halloc : 0 < alloc.length := List.length_pos_of_mem hb
    have hcount := h.count
    have hn := p.numBlocks.toNat_lt
    show (p.freeCount + 1).toNat = free.length + 1
    have hone : (1 : UInt32).toNat = 1 := rfl
    rw [UInt32.toNat_add, hcount, hone, Nat.mod_eq_of_lt (by omega)]
  · refine List.Perm.trans ?_ h.blocks
    exact (List.perm_middle.symm.trans (hrest.symm.append_left free))

/-- A write into an allocated block leaves the free list alone. -/
theorem write (hb : b ∈ alloc) (hm : ∀ a, a < b ∨ b + p.blockSize.toNat ≤ a → mem' a = mem a) :
    Blocks mem' p free alloc := by
  have hsize := h.size
  refine h.congr fun c hc i hi => hm _ ?_
  have hne : c ≠ b := fun he => h.not_alloc hc (he ▸ hb)
  have hapart := h.apart (List.mem_append_left _ hc) (List.mem_append_right _ hb) hne
  omega

omit h in
/-- The order of the allocated blocks does not matter. -/
theorem perm {alloc' : List Nat} (h : Blocks mem p free alloc) (ha : alloc.Perm alloc') :
    Blocks mem p free alloc' :=
  { h with blocks := (ha.symm.append_left free).trans h.blocks }

end Blocks

/-! ## Initialisation -/

/-- The loop of `vibe_mem_pool_init` after `k + 1` rounds. -/
theorem memPoolChain_spec {buffer : Nat} {bs : UInt32} (hpos : 0 < buffer) (hsize : 4 ≤ bs.toNat)
    (mem : Mem) (k : Nat) (hfits : buffer + (k + 1) * bs.toNat ≤ 2 ^ 32) :
    let c := (List.range (k + 1)).foldl (memPoolChain bs) ⟨mem, 0, 0, buffer⟩
    c.freeList = buffer ∧ c.prevBlk = buffer + k * bs.toNat
      ∧ c.p = buffer + (k + 1) * bs.toNat
      ∧ Path (link c.mem) (some buffer) ((List.range (k + 1)).map fun i => buffer + i * bs.toNat)
        none := by
  induction k with
  | zero =>
      have hlink : link (write32 mem buffer 0) buffer = none := by
        rw [link, read32_write32_same]
        rfl
      refine ⟨rfl, by simp [memPoolChain], by simp [memPoolChain], ?_⟩
      simpa [memPoolChain] using hlink
  | succ k ih =>
      have hmul : (k + 1 + 1) * bs.toNat = (k + 1) * bs.toNat + bs.toNat := Nat.succ_mul _ _
      have hmul' : (k + 1) * bs.toNat = k * bs.toNat + bs.toNat := Nat.succ_mul _ _
      obtain ⟨hlist, hprev, hp, hpath⟩ := ih (by omega)
      rw [List.range_succ (n := k + 1), List.foldl_append, List.map_append]
      generalize (List.range (k + 1)).foldl (memPoolChain bs) ⟨mem, 0, 0, buffer⟩ = c at *
      have hne : c.prevBlk ≠ 0 := by omega
      have hmem : (memPoolChain bs c (k + 1)).mem
        = write32 (write32 c.mem c.prevBlk c.p) c.p 0 := by
        simp [memPoolChain, hne]
      refine ⟨?_, ?_, ?_, ?_⟩
      · simpa [memPoolChain] using hlist
      · simpa [memPoolChain] using hp
      · simp only [List.foldl_cons, List.foldl_nil, memPoolChain]
        omega
      · -- the block of this round is linked behind the last one
        have hlast : ((List.range (k + 1)).map fun i => buffer + i * bs.toNat).getLast?
            = some c.prevBlk := by
          rw [List.range_succ, List.map_append, List.getLast?_append, hprev]
          simp
        rw [List.foldl_cons, List.foldl_nil, hmem, List.map_cons, List.map_nil, ← hp]
        refine hpath.snoc ?_ ?_ (fun _ => rfl) ?_ ?_
        · rw [link, read32_write32_same]
          rfl
        · rw [hlast]
          show link _ c.prevBlk = some c.p
          rw [link, read32_write32_ne (by omega), read32_write32_same,
            Nat.mod_eq_of_lt (by omega), ptr_of_ne (by omega)]
        · intro z hz hnl
          rw [hlast] at hnl
          obtain ⟨i, hi, rfl⟩ := List.mem_map.mp hz
          have hik := List.mem_range.mp hi
          have hlt : i < k := by
            rcases Nat.lt_succ_iff_lt_or_eq.mp hik with hlt | rfl
            · exact hlt
            · exact absurd (congrArg some hprev) hnl
          have hle : (i + 1) * bs.toNat ≤ k * bs.toNat := Nat.mul_le_mul_right _ hlt
          rw [Nat.succ_mul] at hle
          rw [link, link, read32_write32_ne (by omega), read32_write32_ne (by omega)]
        · refine List.Nodup.map (fun i j hij => ?_) List.nodup_range
          exact Nat.eq_of_mul_eq_mul_right (by omega) (Nat.add_left_cancel hij)

/-- A new pool has all its blocks on the free list. -/
theorem memPoolInit_blocks {buffer : Nat} {bs n : UInt32} (hsize : 4 ≤ bs.toNat)
    (hfits : buffer + n.toNat * bs.toNat ≤ 2 ^ 32)
    (hinit : memPoolInit mem buffer bs n = some (mem', p)) :
    Blocks mem' p (blockStarts buffer bs n) [] ∧ p.blocks = buffer ∧ p.blockSize = bs
      ∧ p.numBlocks = n ∧ p.waitList = listInit := by
  unfold memPoolInit at hinit
  split at hinit
  · exact absurd hinit (by simp)
  · rename_i hok
    have hlarge : ¬ bs < 4 := fun hlt => by
      have hlt' := UInt32.lt_iff_toNat_lt.mp hlt
      have hfour : (4 : UInt32).toNat = 4 := rfl
      omega
    rw [if_neg hlarge] at hinit
    obtain ⟨rfl, rfl⟩ := Prod.mk.inj (Option.some.inj hinit)
    have hbuf : buffer ≠ 0 := fun h0 => hok (Or.inl h0)
    have hn : n.toNat ≠ 0 := fun h0 => hok (Or.inr (Or.inr (UInt32.toNat_inj.mp h0)))
    obtain ⟨k, hk⟩ : ∃ k, n.toNat = k + 1 := ⟨n.toNat - 1, by omega⟩
    obtain ⟨hlist, -, -, hpath⟩ :=
      memPoolChain_spec (Nat.pos_of_ne_zero hbuf) hsize mem k (by rw [← hk]; exact hfits)
    rw [← hk] at hlist hpath
    refine ⟨⟨?_, ?_, ?_, hsize, Nat.pos_of_ne_zero hbuf, hfits⟩, rfl, rfl, rfl, rfl⟩
    · dsimp only
      rw [hlist, ptr_of_ne hbuf]
      exact hpath
    · simp [blockStarts]
    · rw [List.append_nil]

/-- `vibe_mem_pool_free` refuses an address outside of the pool; else it links the block, and
wakes the first waiter. -/
theorem poolThread_free {k : Kernel} {o : PoolObj} {self : Tid} {ptr : Nat}
    {r : Kernel × PoolObj × PoolPc} (hr : poolThread k o self .idle (.free ptr) = some r) :
    (memPoolFree k o.mem o.pool ptr).2.2.2 = .done .einval ∧ r = (k, o, .idle)
    ∨ (memPoolFree k o.mem o.pool ptr).2.2.2 = .resched .ok ∧ ptr ∈ o.inUse
      ∧ r = ((k.wakeHead o.pool.waitList).1, { o with
          mem := write32 o.mem ptr o.pool.freeList
          pool := { o.pool with
            freeList := ptr
            freeCount := o.pool.freeCount + 1
            waitList := (k.wakeHead o.pool.waitList).2 }
          woken := o.woken ++ o.pool.waitList.head.toList
          inUse := o.inUse.erase ptr }, .idle) := by
  change (if (memPoolFree k o.mem o.pool ptr).2.2.2 = .done .einval then _ else _) = some r at hr
  by_cases hbad : ptr = 0 ∨ ptr < o.pool.blocks
      ∨ ptr ≥ o.pool.blocks + (o.pool.numBlocks * o.pool.blockSize).toNat
  · have hres : memPoolFree k o.mem o.pool ptr = (k, o.mem, o.pool, .done .einval) := if_pos hbad
    rw [hres, if_pos rfl] at hr
    rw [hres]
    exact Or.inl ⟨rfl, (Option.some.inj hr).symm⟩
  · have hres : memPoolFree k o.mem o.pool ptr
        = ((k.wakeHead o.pool.waitList).1, write32 o.mem ptr o.pool.freeList,
          { o.pool with
            freeList := ptr
            freeCount := o.pool.freeCount + 1
            waitList := (k.wakeHead o.pool.waitList).2 }, .resched .ok) := if_neg hbad
    rw [hres, if_neg (by simp)] at hr
    obtain ⟨hin, hr⟩ := Option.ite_none_right_eq_some.mp hr
    rw [hres]
    exact Or.inr ⟨rfl, hin, (Option.some.inj hr).symm⟩

end PoolSys

end VibeRtos
