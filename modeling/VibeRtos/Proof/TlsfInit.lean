import VibeRtos.Proof.TlsfRuns

/-!
# `tlsf_init` for every configuration

The size of the pool is a number the build chooses between 256 and 131072. `tlsf_init`
takes it as it is: the control structure alone needs 740 bytes, and the sentinel lies
eight bytes in front of the end, wherever that is.
-/

namespace VibeRtos

open ByteMem Bits Links Tiling Runs

namespace Tlsf

/-- The sentinel's header: the last bytes of the pool. -/
def sentinelAddr (c : HeapConfig) : Nat := c.pool + c.size - blockHdrOffset

/-- `tlsf_init` has turned `mem` into `m`, and left a well-formed pool. -/
structure WellFormed (c : HeapConfig) (mem m : Mem) : Prop where
  /-- the control structure, the main block with its links and its payload, and the sentinel lie
  one behind the other in the pool -/
  control : c.pool + ctlSize ≤ poolStart c.pool
  links : poolStart c.pool + blockHdrOffset + blockPayloadMin ≤ sentinelAddr c
  payload : poolStart c.pool + blockHdrOffset + blockSize m (poolStart c.pool) ≤ sentinelAddr c
  inside : sentinelAddr c + blockHdrOffset ≤ c.pool + c.size
  /-- both headers are aligned -/
  aligned : 8 ∣ poolStart c.pool ∧ 8 ∣ sentinelAddr c
  /-- the main block is free, and reaches up to the sentinel -/
  isFree : blockIsFree m (poolStart c.pool)
  prevUsed : ¬ blockPrevIsFree m (poolStart c.pool)
  size : blockNext m (poolStart c.pool) = sentinelAddr c
  /-- it is on a list of the tables, as the only block -/
  listed : InRange (mapping (blockSize m (poolStart c.pool)))
  onList : ∀ k, InRange k → freeList m c.pool k
    = if k = mapping (blockSize m (poolStart c.pool)) then [poolStart c.pool] else []
  /-- the sentinel is in use and behind the main block -/
  sentinel : blockSize m (sentinelAddr c) = 0 ∧ ¬ blockIsFree m (sentinelAddr c)
    ∧ blockPrevIsFree m (sentinelAddr c) ∧ prevPhys m (sentinelAddr c) = poolStart c.pool
  /-- nothing around the pool has changed -/
  frame : ∀ x, x < c.pool ∨ c.pool + c.size ≤ x → m x = mem x

/-- The pool that is large enough and ends at a multiple of eight. -/
theorem wellFormed_of_size (c : TlsfConfig) (mem : Mem) :
    WellFormed c.toHeapConfig mem (tlsfInit c.toHeapConfig mem) := by
  obtain ⟨⟨f, hrep⟩, hframe⟩ := tlsfInit_rep c mem
  have hpool := c.aligned
  have h8 := c.multiple
  have hlarge := c.large
  have hstart := poolStart_eq c.pool
  have hmain : Headers c.toHeapConfig (tlsfInit c.toHeapConfig mem)
      ([] ++ mainBlock c.toHeapConfig :: sentinel c.toHeapConfig :: []) := hrep.headers
  have hsent : Headers c.toHeapConfig (tlsfInit c.toHeapConfig mem)
      ([mainBlock c.toHeapConfig] ++ sentinel c.toHeapConfig :: []) := hrep.headers
  have hsize : blockSize (tlsfInit c.toHeapConfig mem) (poolStart c.pool) = c.size - 760 :=
    hmain.size_eq
  have hend : sentinelAddr c.toHeapConfig = c.pool + c.size - 8 := rfl
  refine ⟨by rw [hstart]; unfold ctlSize; omega, ?_, ?_, ?_,
    ⟨?_, ?_⟩, ?_, ?_, hmain.blockNext_eq, ?_,
    fun k hk => ?_, ⟨hsent.size_eq, ?_, ?_, hsent.header.prev⟩, hframe⟩
  · rw [hstart, hend]
    unfold blockHdrOffset blockPayloadMin
    omega
  · rw [hsize, hstart, hend]
    unfold blockHdrOffset
    omega
  · rw [hend]
    unfold blockHdrOffset
    omega
  · rw [hstart]
    omega
  · rw [hend]
    omega
  · exact hmain.isFree_iff.mpr rfl
  · exact hmain.prevIsFree_iff.not.mpr (by simp [prevIsFree])
  · rw [hsize]
    exact hrep.inRange (b := mainBlock c.toHeapConfig) List.mem_cons_self
  · -- the main block is the only one that is listed, in the class of its size
    have hmem : ∀ a, a ∈ freeList (tlsfInit c.toHeapConfig mem) c.pool k
        ↔ a = poolStart c.pool ∧ k = mapping (c.size - 760) := by
      intro a
      rw [hrep.mem_freeList hk]
      constructor
      · rintro ⟨b, hb, -, ha, hkey⟩
        obtain rfl := List.mem_singleton.mp hb
        exact ⟨ha.symm.trans hstart.symm, hkey.symm⟩
      · intro hlisted
        rcases hlisted with ⟨ha, hkey⟩
        exact ⟨mainBlock c.toHeapConfig, List.mem_cons_self, rfl, hstart.symm.trans ha.symm,
          hkey.symm⟩
    have hnodup := hrep.nodup k
    rw [← hrep.freeList_eq hk] at hnodup
    rw [hsize]
    split
    · rename_i hkey
      refine List.perm_singleton.mp ((List.perm_ext_iff_of_nodup hnodup (by simp)).mpr fun a => ?_)
      rw [hmem a, List.mem_singleton, and_iff_left hkey]
    · rename_i hkey
      refine List.eq_nil_iff_forall_not_mem.mpr fun a ha => ?_
      exact hkey ((hmem a).mp ha).2
  · exact hsent.isFree_iff.not.mpr (by simp [Tlsf.sentinel])
  · exact hsent.prevIsFree_iff.mpr rfl

/--
**Which pools `tlsf_init` initialises.**

Of the sizes the build offers, `tlsf_init` leaves a well-formed pool exactly for the
multiples of eight from 768 on.
-/
theorem tlsf_init_well_formed_iff {c : HeapConfig} {mem : Mem} (hmin : 256 ≤ c.size)
    (hmax : c.size ≤ 131072) :
    WellFormed c mem (tlsfInit c mem) ↔ 8 ∣ c.size ∧ 768 ≤ c.size := by
  constructor
  · intro h
    have hpool := c.aligned
    -- the links of the main block must lie in front of the sentinel, which must be aligned
    have hlinks := h.links
    have halign := h.aligned.2
    rw [poolStart_eq] at hlinks
    unfold sentinelAddr blockHdrOffset blockPayloadMin at hlinks
    unfold sentinelAddr blockHdrOffset at halign
    omega
  · rintro ⟨h8, hlarge⟩
    exact wellFormed_of_size ⟨c, h8, hlarge, by omega⟩ mem

/-- A pool of 256 bytes at `0x2000`. -/
def tinyPool : HeapConfig := ⟨0x2000, 256, samplePool_pos, samplePool_aligned, samplePool_fits⟩

/-- **The smallest pool the build offers** is overrun: the control structure alone is larger. -/
theorem tlsf_init_overruns :
    256 ≤ tinyPool.size ∧ tinyPool.size ≤ 131072
      ∧ ¬ WellFormed tinyPool (fun _ => 1) (tlsfInit tinyPool fun _ => 1) := by
  refine ⟨by decide, by decide, fun h => ?_⟩
  have hbyte : tlsfInit tinyPool (fun _ => 1) (0x2000 + 256) ≠ 1 := by decide +kernel
  exact hbyte (h.frame (0x2000 + 256) (Or.inr le_rfl))

/-- The pool of a kilobyte is well formed, in memory that held ones before. -/
theorem tlsf_init_well_formed_iff_kilobyte :
    WellFormed kilobyte.toHeapConfig (fun _ => 1) (tlsfInit kilobyte.toHeapConfig fun _ => 1) :=
  (tlsf_init_well_formed_iff (by decide) (by decide)).mpr ⟨by decide, by decide⟩

end Tlsf

end VibeRtos
