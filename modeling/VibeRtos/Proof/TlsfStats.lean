import VibeRtos.Proof.TlsfRuns

/-!
# The statistics of TLSF

`vibe_heap_stats` walks the physical blocks and takes the IS_FREE flag for the answer to
whether a block is free, while the allocator goes by its lists. The rest of a block that
was split is on a list without the flag, and is then counted as used.
-/

namespace VibeRtos

open ByteMem Bits Links Tiling Runs

namespace Tlsf

variable {c : TlsfConfig} {mem : Mem} {st : TlsfState} {live : List Grant} {l k : Grant}
  {s s' : HeapSys TlsfState} {xs ys zs bs : List TBlock} {b d : TBlock} {n r a : Nat}
  {f : Nat × Nat → List Nat}

/-- The blocks on the free lists. -/
def listedBlocks (mem : Mem) (ctl : Nat) : List Nat := classes.flatMap (freeList mem ctl)

/-- What `vibe_heap_stats` should report: the live grants, and the blocks on the free lists. -/
structure Exact (c : TlsfConfig) (s : HeapSys TlsfState) (out : HeapStats) : Prop where
  allocCount : out.allocCount = s.live.length
  used : out.used = (s.live.map fun l => blockSize s.heap.mem (ptrToBlock l.ptr)).sum
  free : out.free = ((listedBlocks s.heap.mem c.pool).map (blockSize s.heap.mem)).sum
  freeCount : out.freeCount = (listedBlocks s.heap.mem c.pool).length
  largestFree : out.largestFree
    = ((listedBlocks s.heap.mem c.pool).map (blockSize s.heap.mem)).foldl max 0

/-- `vibe_heap_stats` terminates and its report is exact. -/
def StatsExact (c : TlsfConfig) (s : HeapSys TlsfState) : Prop :=
  ∃ out, (∀ fuel, c.size ≤ fuel → heapStats c.toHeapConfig fuel s.heap = some out) ∧ Exact c s out

/-! ## The walk -/

/-- The loop makes one round for each physical block, if they end within its bound. -/
theorem statsLoop_eq {fuel : Nat} (h : (physBlocks mem fuel a).length < fuel) (out : HeapStats) :
    statsLoop mem fuel a out = some ((physBlocks mem fuel a).foldl (statsStep mem) out) := by
  induction fuel generalizing a out with
  | zero => exact absurd h (by simp)
  | succ fuel ih =>
      rw [statsLoop]
      rw [physBlocks] at h ⊢
      split
      · rfl
      · rename_i hend
        rw [if_neg hend, List.length_cons] at h
        exact ih (by omega) _

/-- A round of the walk counts by the IS_FREE flag. -/
theorem statsStep_block (h : Headers c.toHeapConfig mem zs) (hb : b ∈ zs) (out : HeapStats) :
    statsStep mem out b.addr
      = if (!b.tag.isFree) = true then out.addUsed b.size else out.addFree b.size := by
  obtain ⟨xs, ys, rfl⟩ := List.append_of_mem hb
  unfold statsStep
  rw [h.size_eq]
  dsimp only
  cases hf : b.tag.isFree with
  | true =>
      rw [if_pos (h.isFree_iff.mpr hf)]
      rfl
  | false =>
      rw [if_neg (by rw [h.isFree_iff, hf]; simp)]
      rfl

namespace PoolInv

/-- What `vibe_heap_stats` reports. -/
theorem stats (h : PoolInv c st.mem live bs) (hctl : st.ctl = c.pool) {fuel : Nat}
    (hfuel : c.size ≤ fuel) : heapStats c.toHeapConfig fuel st = some {
      total := c.size
      used := ((bs.filter fun b => !b.tag.isFree).map Block.size).sum
      free := ((bs.filter fun b => b.tag.isFree).map Block.size).sum
      largestFree := ((bs.filter fun b => b.tag.isFree).map Block.size).foldl max 0
      allocCount := (bs.filter fun b => !b.tag.isFree).length
      freeCount := (bs.filter fun b => b.tag.isFree).length } := by
  obtain ⟨f, hrep⟩ := h.rep
  have hpos := c.pos
  have hfits := c.fits
  have hlarge := c.large
  have hsum := h.tiles.sum
  rw [poolStart_eq] at hsum
  unfold blockHdrOffset at hsum
  have hphys := h.physBlocks_eq hfuel
  have hlen : (physBlocks st.mem fuel (poolStart c.pool)).length < fuel := by
    rw [hphys, List.length_map]
    omega
  have hwalk := statsLoop_eq hlen ⟨c.size, 0, 0, 0, 0, 0⟩
  rw [hphys] at hwalk
  have htally := foldl_tally (g := statsStep st.mem) (fun b : TBlock => !b.tag.isFree)
    (fun b hb out => statsStep_block hrep.headers (List.mem_append_left _ hb) out)
    ⟨c.size, 0, 0, 0, 0, 0⟩ (by simp only; omega) (by simp only; omega)
  unfold heapStats
  rw [if_neg (by omega), hctl, hwalk, htally]
  simp

/-! ## The two views -/

/-- The blocks on the lists are those that count as free. -/
theorem listedBlocks_perm (h : PoolInv c mem live bs) :
    (listedBlocks mem c.pool).Perm ((bs.filter fun b => b.tag.req.isNone).map Block.addr) := by
  obtain ⟨f, hrep⟩ := h.rep
  have hmem : ∀ a, a ∈ listedBlocks mem c.pool ↔ OnFreeList mem c.pool a := by
    intro a
    simp [listedBlocks, OnFreeList, List.mem_flatMap, mem_classes]
  refine (List.perm_ext_iff_of_nodup ?_ ?_).mpr fun a => ?_
  · refine List.nodup_flatMap.mpr
      ⟨fun k hk => ?_, classes_nodup.imp_of_mem fun hk hk' hne a ha ha' => ?_⟩
    · rw [hrep.freeList_eq (mem_classes.mp hk)]
      exact hrep.nodup k
    · rw [hrep.freeList_eq (mem_classes.mp hk)] at ha
      rw [hrep.freeList_eq (mem_classes.mp hk')] at ha'
      exact hne ((hrep.family hrep.headers).once _ _ a ha ha')
  · exact (h.tiles.nodup_addr (by decide)).sublist (List.filter_sublist.map _)
  · rw [hmem, h.onFreeList, List.mem_map]
    simp only [List.mem_filter, Option.isNone_iff_eq_none, IsListed, and_assoc]

/-- The sizes of the listed blocks. -/
theorem listed_sizes (h : PoolInv c mem live bs) :
    ((listedBlocks mem c.pool).map (blockSize mem)).Perm
      ((bs.filter fun b => b.tag.req.isNone).map Block.size) := by
  obtain ⟨f, hrep⟩ := h.rep
  refine (h.listedBlocks_perm.map _).trans (List.Perm.of_eq ?_)
  rw [List.map_map]
  refine List.map_congr_left fun b hb => ?_
  exact hrep.headers.size_of_mem (List.mem_append_left _ (List.mem_filter.mp hb).1)

/-- The sizes of the live payloads. -/
theorem live_sizes (h : PoolInv c mem live bs) :
    (live.map fun l => blockSize mem (ptrToBlock l.ptr)).Perm ((liveBlocks bs).map Block.size) := by
  obtain ⟨f, hrep⟩ := h.rep
  refine (h.live.map _).trans (List.Perm.of_eq (map_grants fun b hb r _ => ?_))
  rw [ptrToBlock_add]
  exact hrep.headers.size_of_mem (List.mem_append_left _ hb)

/-- **The report is exact** if every listed block has its IS_FREE flag set, and only then. -/
theorem statsExact_iff (h : PoolInv c s.heap.mem s.live bs) (hctl : s.heap.ctl = c.pool) :
    StatsExact c s ↔ ∀ b ∈ bs, IsListed b → b.tag.isFree = true := by
  have hcount : s.live.length = (liveBlocks bs).length := by
    have hlen := h.live_sizes.length_eq
    simpa using hlen
  have hlisted := h.listed_sizes
  constructor
  · rintro ⟨out, hout, hexact⟩ b hb hreq
    by_contra hflag
    have hreport := (hout c.size le_rfl).symm.trans (h.stats hctl le_rfl)
    have halloc := hexact.allocCount
    rw [Option.some.inj hreport, hcount] at halloc
    -- the blocks in use are among those counted as used, and `b` is counted besides
    -- split at `b`: on both sides the blocks in use are no more than those without the flag
    obtain ⟨xs, ys, rfl⟩ := List.append_of_mem hb
    have hle : ∀ zs : List TBlock, zs ⊆ xs ++ b :: ys →
        (liveBlocks zs).length ≤ (zs.filter fun b => !b.tag.isFree).length := by
      intro zs hzs
      rw [liveBlocks, ← List.countP_eq_length_filter, ← List.countP_eq_length_filter]
      refine List.countP_mono_left fun d hd hlive => ?_
      cases hf : d.tag.isFree with
      | false => rfl
      | true =>
          have hnone := h.flag d (hzs hd) hf
          rw [hnone] at hlive
          exact absurd hlive (by simp)
    have hxs := hle xs (List.subset_append_left _ _)
    have hys := hle ys fun d hd => List.mem_append_right _ (List.mem_cons_of_mem _ hd)
    have hb' : (!b.tag.isFree) = true := by simpa using hflag
    rw [liveBlocks_append, liveBlocks_cons_free hreq] at halloc
    have hcons : (b :: ys).filter (fun b => !b.tag.isFree)
      = b :: ys.filter fun b => !b.tag.isFree :=
      List.filter_cons_of_pos hb'
    simp only [List.filter_append, hcons, List.length_append, List.length_cons] at halloc
    omega
  · -- the flag and the lists agree, so the two ways to count do
    intro hflags
    have hfree : (bs.filter fun b => b.tag.isFree) = bs.filter fun b => b.tag.req.isNone := by
      refine List.filter_congr fun b hb => ?_
      rw [Bool.eq_iff_iff, Option.isNone_iff_eq_none]
      exact ⟨h.flag b hb, hflags b hb⟩
    have hused : (bs.filter fun b => !b.tag.isFree) = liveBlocks bs := by
      refine List.filter_congr fun b hb => ?_
      rw [Bool.eq_iff_iff, Option.isSome_iff_ne_none, Bool.not_eq_true', ← Bool.not_eq_true]
      exact not_congr ⟨h.flag b hb, hflags b hb⟩
    refine ⟨_, fun fuel hfuel => h.stats hctl hfuel, ⟨?_, ?_, ?_, ?_, ?_⟩⟩
    · rw [hused, hcount]
    · rw [hused]
      exact h.live_sizes.sum_nat.symm
    · rw [hfree]
      exact hlisted.sum_nat.symm
    · rw [hfree]
      have hlen := hlisted.length_eq
      simpa using hlen.symm
    · rw [hfree]
      exact hlisted.symm.foldl_eq 0

end PoolInv

/--
**When the statistics are exact.**

In every state that a program reaches after its first allocation, `vibe_heap_stats`
reports the live allocations and the blocks on the free lists exactly when every block on
a free list has its IS_FREE flag set.
-/
theorem stats_exact_iff {c : TlsfConfig} {mem : Mem} {labels : List HeapLabel}
    {s : HeapSys TlsfState}
    (hrun : run (HeapSys.step (backend c.toHeapConfig) c.size) ⟨tlsfState mem, []⟩ labels = some s)
    (hready : s.heap.ctl ≠ 0) :
    StatsExact c s ↔ ∀ a, OnFreeList s.heap.mem c.pool a → blockIsFree s.heap.mem a := by
  obtain ⟨hctl, bs, hp⟩ := poolInv_of_run hrun hready
  obtain ⟨f, hrep⟩ := hp.rep
  have hflag : ∀ b ∈ bs, (blockIsFree s.heap.mem b.addr ↔ b.tag.isFree = true) := by
    intro b hb
    obtain ⟨xs, y, ys, g, -, hrep'⟩ := hp.next hb
    exact hrep'.headers.isFree_iff
  rw [hp.statsExact_iff hctl]
  constructor
  · intro h a ha
    obtain ⟨b, hb, hreq, rfl⟩ := hp.onFreeList.mp ha
    exact (hflag b hb).mpr (h b hb hreq)
  · intro h b hb hreq
    exact (hflag b hb).mp (h b.addr ((hp.listed_iff hb).mpr hreq))

/-- **A report that is not exact.** After one allocation of 8 bytes the rest of the pool, which is
on a free list, is reported as a second allocation. -/
theorem stats_count_rest :
    ∃ s, run (HeapSys.step (backend kilobyte.toHeapConfig) kilobyte.size)
        ⟨tlsfState fun _ => 0, []⟩ [.alloc 8] = some s
      ∧ s.live.length = 1
      ∧ heapStats kilobyte.toHeapConfig 1024 s.heap = some ⟨1024, 256, 0, 0, 2, 0⟩
      ∧ ¬ StatsExact kilobyte s := by
  obtain ⟨s, hrun, hfacts⟩ : ∃ s,
      run (HeapSys.step (backend kilobyte.toHeapConfig) kilobyte.size)
        ⟨tlsfState fun _ => 0, []⟩ [.alloc 8] = some s
      ∧ decide (s.live.length = 1
        ∧ heapStats kilobyte.toHeapConfig 1024 s.heap = some ⟨1024, 256, 0, 0, 2, 0⟩) = true :=
    Option.map_eq_some_iff.mp (by decide +kernel)
  obtain ⟨hlive, hstats⟩ := of_decide_eq_true hfacts
  refine ⟨s, hrun, hlive, hstats, ?_⟩
  rintro ⟨out, hout, hexact⟩
  have hreport := (hout 1024 le_rfl).symm.trans hstats
  have hcount := hexact.allocCount
  rw [Option.some.inj hreport, hlive] at hcount
  exact absurd hcount (by decide)

/-! ## Evaluating the condition -/

/-- Every block that the walk meets is in use or has IS_FREE set. -/
def WalkFlagged (c : TlsfConfig) (s : HeapSys TlsfState) : Prop :=
  ∀ a ∈ physBlocks s.heap.mem c.size (poolStart c.pool),
    Held s.live (blockToPtr a) ∨ blockIsFree s.heap.mem a

instance : Decidable (WalkFlagged c s) := inferInstanceAs (Decidable (∀ a ∈ _, _ ∨ _))

/-- Then so has every listed block, since a listed block is met and not in use. -/
theorem PoolInv.flagged (h : PoolInv c s.heap.mem s.live bs) (hwalk : WalkFlagged c s) :
    ∀ a, OnFreeList s.heap.mem c.pool a → blockIsFree s.heap.mem a := by
  intro a ha
  obtain ⟨b, hb, hreq, rfl⟩ := h.onFreeList.mp ha
  have hmet : b.addr ∈ physBlocks s.heap.mem c.size (poolStart c.pool) := by
    rw [h.physBlocks_eq le_rfl]
    exact List.mem_map_of_mem hb
  rcases hwalk b.addr hmet with hheld | hfree
  · exact absurd hreq ((h.held_iff hb).mp hheld)
  · exact hfree

/-- A block freed in front of a live one has its flag set, and the report is exact. -/
theorem stats_exact_iff_freed :
    ∃ s, run (HeapSys.step (backend kilobyte.toHeapConfig) kilobyte.size)
        ⟨tlsfState fun _ => 0, []⟩ [.alloc 8, .alloc 240, .free 8944] = some s
      ∧ s.live = [⟨8960, 240⟩]
      ∧ OnFreeList s.heap.mem kilobyte.pool 8936
      ∧ heapStats kilobyte.toHeapConfig 1024 s.heap = some ⟨1024, 248, 8, 8, 1, 1⟩
      ∧ StatsExact kilobyte s := by
  obtain ⟨s, hrun, hfacts⟩ : ∃ s,
      run (HeapSys.step (backend kilobyte.toHeapConfig) kilobyte.size)
        ⟨tlsfState fun _ => 0, []⟩ [.alloc 8, .alloc 240, .free 8944] = some s
      ∧ decide (s.live = [⟨8960, 240⟩] ∧ s.heap.ctl ≠ 0
        ∧ freeHead s.heap.mem kilobyte.pool 0 1 = 8936
        ∧ heapStats kilobyte.toHeapConfig 1024 s.heap = some ⟨1024, 248, 8, 8, 1, 1⟩
        ∧ WalkFlagged kilobyte s) = true :=
    Option.map_eq_some_iff.mp (by decide +kernel)
  obtain ⟨hlive, hready, hhead, hstats, hwalk⟩ := of_decide_eq_true hfacts
  have hlisted : OnFreeList s.heap.mem kilobyte.pool 8936 :=
    head_onFreeList (by decide) hhead (by decide)
  obtain ⟨-, bs, hp⟩ := poolInv_of_run hrun hready
  exact ⟨s, hrun, hlive, hlisted, hstats, (stats_exact_iff hrun hready).mpr (hp.flagged hwalk)⟩

end Tlsf

end VibeRtos
