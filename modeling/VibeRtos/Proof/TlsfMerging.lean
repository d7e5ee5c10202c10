import VibeRtos.Proof.TlsfRuns

/-!
# When TLSF merges its free blocks

`vibe_heap_free` asks the IS_FREE flag of the block behind the freed one, not the free
lists, and a split puts the rest of a block on a list without setting that flag. So the
pool stays merged exactly as long as no block is freed in front of such a rest.
-/

namespace VibeRtos

open ByteMem Bits Links Tiling Runs

namespace Tlsf

variable {c : TlsfConfig} {mem : Mem} {st : TlsfState} {live : List Grant} {l k : Grant}
  {s s' : HeapSys TlsfState} {xs ys bs : List TBlock} {b d : TBlock} {n r a : Nat}

/-- A program that allocates, frees and stores. -/
def plainStep (c : TlsfConfig) (s : HeapSys TlsfState) (l : HeapLabel) :
    Option (HeapSys TlsfState) :=
  match l with
  | .alloc _ | .free _ | .store _ _ => s.step (backend c.toHeapConfig) c.size l
  | _ => none

/-- The pool as one free block, and every request served that the fresh heap serves. -/
def Restored (c : TlsfConfig) (st : TlsfState) : Prop :=
  blockSize st.mem (poolStart c.pool) = c.size - poolStart 0 - 2 * blockHdrOffset
    ∧ blockNext st.mem (poolStart c.pool) = c.pool + c.size - blockHdrOffset
    ∧ OnFreeList st.mem c.pool (poolStart c.pool)
    ∧ ∀ n ≤ c.size, ∀ mem, (heapAlloc c.toHeapConfig (tlsfState mem) n).2 ≠ 0 →
      (heapAlloc c.toHeapConfig st n).2 ≠ 0

/-- No two neighbours are on free lists, and with nothing live the pool is one free block. -/
def Coalesced (c : TlsfConfig) (s : HeapSys TlsfState) : Prop :=
  s.heap.ctl ≠ 0 →
    (∀ a, OnFreeList s.heap.mem c.pool a →
      ¬ OnFreeList s.heap.mem c.pool (blockNext s.heap.mem a))
    ∧ (s.live = [] → Restored c s.heap)

/-- A block is freed in front of a listed block only if that one has IS_FREE set. -/
def SeesNext (c : TlsfConfig) (s : HeapSys TlsfState) : HeapLabel → Prop
  | .free p => p ≠ 0 →
      OnFreeList s.heap.mem c.pool (blockNext s.heap.mem (ptrToBlock p)) →
      blockIsFree s.heap.mem (blockNext s.heap.mem (ptrToBlock p))
  | _ => True

namespace PoolInv

/-- The sentinel is on no list. -/
theorem sentinel_unlisted (h : PoolInv c mem live bs) :
    ¬ OnFreeList mem c.pool (sentinel c.toHeapConfig).addr := by
  rw [h.onFreeList]
  rintro ⟨b, hb, -, he⟩
  have hlim := h.tiles.bounds hb
  simp only [sentinel, blockHdrOffset] at he hlim
  omega

/-- The block behind a block is the next one of the pool, or the sentinel. -/
theorem next_listed (h : PoolInv c mem live (xs ++ b :: ys)) :
    OnFreeList mem c.pool (blockNext mem b.addr) ↔ ∃ y ∈ ys.head?, IsListed y := by
  obtain ⟨f, hrep⟩ := h.rep
  rw [List.append_assoc, List.cons_append] at hrep
  cases ys with
  | nil =>
      rw [List.nil_append] at hrep
      rw [hrep.headers.blockNext_eq]
      simpa using h.sentinel_unlisted
  -- the next block is in the pool
  | cons y ys =>
      rw [List.cons_append] at hrep
      rw [hrep.headers.blockNext_eq, h.listed_iff (by simp)]
      simp

/-- The flag of the block behind a block that is listed. -/
theorem next_flag (h : PoolInv c mem live (xs ++ b :: ys)) :
    (OnFreeList mem c.pool (blockNext mem b.addr) → blockIsFree mem (blockNext mem b.addr))
      ↔ ∀ y ∈ ys.head?, IsListed y → y.tag.isFree = true := by
  rw [h.next_listed]
  obtain ⟨f, hrep⟩ := h.rep
  rw [List.append_assoc, List.cons_append] at hrep
  cases ys with
  | nil => simp
  | cons y ys =>
      rw [List.cons_append] at hrep
      have hy : Headers c.toHeapConfig mem
        ((xs ++ [b]) ++ y :: (ys ++ [sentinel c.toHeapConfig])) := by
        simpa using hrep.headers
      rw [hrep.headers.blockNext_eq, hy.isFree_iff]
      simp

/-- Being merged, in terms of the lists. -/
theorem merged_iff (h : PoolInv c mem live bs) : Merged IsListed bs ↔
    ∀ a, OnFreeList mem c.pool a → ¬ OnFreeList mem c.pool (blockNext mem a) := by
  unfold Merged
  rw [List.isChain_iff_forall_rel_of_append_cons_cons]
  constructor
  · intro hm a ha hnext
    obtain ⟨b, hb, hreq, rfl⟩ := h.onFreeList.mp ha
    obtain ⟨xs, ys, rfl⟩ := List.append_of_mem hb
    -- two neighbours on lists are two neighbouring blocks of the pool
    obtain ⟨y, hy, hreq'⟩ := h.next_listed.mp hnext
    obtain ⟨zs, rfl⟩ := List.head?_eq_some_iff.mp hy
    exact hm rfl ⟨hreq, hreq'⟩
  · intro hall x y us vs heq hboth
    subst heq
    refine hall x.addr ((h.listed_iff (by simp)).mpr hboth.1) (h.next_listed.mpr ?_)
    exact ⟨y, rfl, hboth.2⟩

/-! ## The empty pool -/

/-- With nothing live, a merged pool is the block that `tlsf_init` created. -/
theorem single (h : PoolInv c mem [] bs) (hm : Merged IsListed bs) :
    ∃ i, bs = [⟨c.pool + 744, c.size - 760, ⟨none, i⟩⟩] := by
  have hlarge := c.large
  -- with nothing live every block is on a list
  have hall : ∀ b ∈ bs, IsListed b := by
    intro b hb
    by_contra hlive
    obtain ⟨l, hl, -⟩ := (h.held_iff hb).mpr hlive
    simp at hl
  have ht := h.tiles
  match bs, hm.single hall with
  | [], _ =>
      have hend : poolStart c.pool = c.pool + c.size - 8 := ht
      rw [poolStart_eq] at hend
      omega
  | [b], _ =>
      obtain ⟨a, n, q, i⟩ := b
      have hq : q = none := hall _ List.mem_cons_self
      simp only [Tiles, poolStart_eq, blockHdrOffset] at ht
      have hn : n = c.size - 760 := by omega
      exact ⟨i, by rw [hq, hn, ht.1]⟩

/-- What an allocation from a pool of one free block depends on. -/
theorem alloc_single {i : Bool} (hctl : (Tlsf.ready c.toHeapConfig st).ctl = c.pool)
    (h : PoolInv c (Tlsf.ready c.toHeapConfig st).mem live
      [⟨c.pool + 744, c.size - 760, ⟨none, i⟩⟩]) (h0 : n ≠ 0) (hn : n ≤ maxRequest) :
    (heapAlloc c.toHeapConfig st n).2 ≠ 0 ↔ roundUpSize (request n) ≤ c.size - 760 := by
  rcases heapAlloc_cases hctl h h0 hn with ⟨xs, b, ys, hbs, -, hsize, heq⟩ | ⟨heq, hsmall⟩
  · obtain rfl : b = ⟨c.pool + 744, c.size - 760, ⟨none, i⟩⟩ := by
      have hb : b ∈ xs ++ b :: ys := by simp
      rw [← hbs] at hb
      exact List.mem_singleton.mp hb
    rw [heq]
    exact iff_of_true (by simp) hsize
  · rw [heq]
    have hlt := hsmall _ List.mem_cons_self rfl
    simp only at hlt
    exact iff_of_false (by simp) (by omega)

theorem restored (h : PoolInv c st.mem [] bs) (hctl : st.ctl = c.pool)
    (hm : Merged IsListed bs) : Restored c st := by
  obtain ⟨i, rfl⟩ := h.single hm
  have hpos := c.pos
  have hlarge := c.large
  obtain ⟨f, hrep⟩ := h.rep
  have hsize := hrep.headers.size_of_mem (b := ⟨c.pool + 744, c.size - 760, ⟨none, i⟩⟩) (by simp)
  have hnext := (show Headers c.toHeapConfig st.mem
    ([] ++ ⟨c.pool + 744, c.size - 760, ⟨none, i⟩⟩ :: [sentinel c.toHeapConfig])
    from hrep.headers).blockNext_eq
  refine ⟨?_, hnext, h.onFreeList.mpr ⟨_, List.mem_cons_self, rfl, rfl⟩, fun n hn mem hfresh => ?_⟩
  · rw [poolStart_eq, poolStart_eq, hsize]
    simp only [blockHdrOffset]
    omega
  · have hmax : n ≤ maxRequest := hn.trans c.small
    by_cases h0 : n = 0
    · subst h0
      exact absurd rfl hfresh
    · have hready : Tlsf.ready c.toHeapConfig st = st := by
        unfold Tlsf.ready
        rw [if_neg (by omega)]
      -- both heaps are one free block of one size, so they serve the same requests
      rw [alloc_single (by rw [hready, hctl]) (by rw [hready]; exact h) h0 hmax]
      have hctl0 : (Tlsf.ready c.toHeapConfig (tlsfState mem)).ctl = c.pool := rfl
      exact (alloc_single hctl0 (tlsfInit_inv c mem) h0 hmax).mp hfresh

/-- In a pool in order, `Coalesced` is about the lists alone. -/
theorem coalesced_iff (h : PoolInv c s.heap.mem s.live bs) (hctl : s.heap.ctl = c.pool) :
    Coalesced c s ↔ Merged IsListed bs := by
  have hpos := c.pos
  constructor
  · intro hco
    exact h.merged_iff.mpr (hco (by omega)).1
  · intro hm _
    refine ⟨h.merged_iff.mp hm, fun hnil => ?_⟩
    rw [hnil] at h
    exact h.restored hctl hm

end PoolInv

/-! ## Runs -/

theorem plainStep_step {l : HeapLabel} (hs : plainStep c s l = some s') :
    s.step (backend c.toHeapConfig) c.size l = some s' := by
  unfold plainStep at hs
  split at hs
  all_goals first
    | exact hs
    | exact absurd hs (by simp)

/-- The pool the search starts from is merged if the heap is. -/
theorem ready_merged (hi : TlsfInv c st live) (hco : Coalesced c ⟨st, live⟩) :
    ∃ bs, (ready c.toHeapConfig st).ctl = c.pool
      ∧ PoolInv c (ready c.toHeapConfig st).mem live bs ∧ Merged IsListed bs := by
  have hpos := c.pos
  unfold ready
  rcases hi with ⟨h0, rfl⟩ | ⟨hctl, bs, hp⟩
  · rw [if_pos h0]
    exact ⟨_, rfl, tlsfInit_inv c st.mem, List.isChain_singleton _⟩
  · rw [if_neg (by omega)]
    exact ⟨bs, hctl, hp, (hp.coalesced_iff (s := ⟨st, live⟩) hctl).mp hco⟩

/-- **An allocation** keeps a merged pool merged. -/
theorem alloc_coalesced (hi : TlsfInv c st live) (hco : Coalesced c ⟨st, live⟩) (hn : n ≤ c.size) :
    Coalesced c ⟨(heapAlloc c.toHeapConfig st n).1,
      grant live (heapAlloc c.toHeapConfig st n).2 n⟩ := by
  by_cases h0 : n = 0
  · subst h0
    exact hco
  have hmax : n ≤ maxRequest := hn.trans c.small
  obtain ⟨bs, hctl, hp, hm⟩ := ready_merged hi hco
  rcases heapAlloc_cases hctl hp h0 hmax with ⟨xs, b, ys, rfl, hreq, hsize, heq⟩ | ⟨heq, -⟩
  · obtain ⟨h8, hpos⟩ := request_aligned n
    have hle : n ≤ request n := le_request (by unfold maxRequest at hmax; omega)
    have hround := (roundUpSize_spec h8 (request_le hmax)).1
    obtain ⟨bs', hp', -, -, hm'⟩ := hp.take hreq (hround.trans hsize) h8 hpos hle
    rw [heq, grant_of_ne (by omega)]
    exact (hp'.coalesced_iff (s := ⟨_, _⟩) rfl).mpr (hm' hm)
  · rw [heq]
    exact (hp.coalesced_iff (s := ⟨_, _⟩) hctl).mpr hm

/-- **A free** keeps a merged pool merged exactly when it sees what is behind the block. -/
theorem free_coalesced (hi : TlsfInv c st live) (hco : Coalesced c ⟨st, live⟩) (hl : l ∈ live) :
    Coalesced c ⟨heapFree st l.ptr, release live l.ptr⟩ ↔ SeesNext c ⟨st, live⟩ (.free l.ptr) := by
  rcases hi with ⟨-, rfl⟩ | ⟨hctl, bs, hp⟩
  · simp at hl
  · have hm := (hp.coalesced_iff (s := ⟨st, live⟩) hctl).mp hco
    obtain ⟨xs, b, ys, rfl, hreq, hptr, hrest, hfree⟩ := hp.free_at hctl hl
    obtain ⟨bs', hp', -, hiff, -⟩ := hp.give hreq hrest
    rw [hfree, hp'.coalesced_iff (s := ⟨_, _⟩) rfl, hiff hm, ← hp.next_flag, SeesNext, hptr,
      ptrToBlock_add]
    exact ⟨fun h _ => h, fun h => h (by omega)⟩

/-- **A store** of the program changes nothing about the blocks. -/
theorem store_coalesced (hi : TlsfInv c st live) (hco : Coalesced c ⟨st, live⟩)
    (ha : Writable live a) (v : UInt8) :
    Coalesced c ⟨{ st with mem := Function.update st.mem a v }, live⟩ := by
  obtain ⟨l, hl, hin⟩ := ha
  have hroom := (correct c).room hi hl
  rcases hi with ⟨-, rfl⟩ | ⟨hctl, bs, hp⟩
  · simp at hl
  · have hm := (hp.coalesced_iff (s := ⟨st, live⟩) hctl).mp hco
    have hp' := hp.store (m := Function.update st.mem a v) hl fun x hx => by
      refine Function.update_of_ne ?_ _ _
      simp only [backend] at hroom
      omega
    exact (hp'.coalesced_iff (s := ⟨{ st with mem := _ }, live⟩) hctl).mpr hm

/--
**When the pool stays merged.**

In every run of allocations, frees and stores, no two neighbours are ever on free lists,
and the pool is one free block again whenever nothing is live, exactly when every block
that is freed in front of a listed one finds the IS_FREE flag of that one set.
-/
theorem coalesced_iff_sees_next {c : TlsfConfig} {mem : Mem} {labels : List HeapLabel}
    {s : HeapSys TlsfState} (hrun : run (plainStep c) ⟨tlsfState mem, []⟩ labels = some s) :
    Always (plainStep c) (Coalesced c) ⟨tlsfState mem, []⟩ labels
      ↔ Along (plainStep c) (SeesNext c) ⟨tlsfState mem, []⟩ labels := by
  refine always_iff_along (Q := fun s => TlsfInv c s.heap s.live) ?_ ?_ (Or.inl ⟨rfl, rfl⟩)
    (fun hne => absurd rfl hne) hrun
  · intro s l s' hi hs
    exact (correct_size c).step hi (plainStep_step hs)
  · intro s l s' hi hco hs
    cases l with
    | alloc n =>
        obtain ⟨hle, heq⟩ := Option.ite_none_right_eq_some.mp (plainStep_step hs)
        obtain rfl := Option.some.inj heq
        exact iff_of_true (alloc_coalesced hi hco hle) trivial
    | free p =>
        obtain ⟨hptr, heq⟩ := Option.ite_none_right_eq_some.mp (plainStep_step hs)
        obtain rfl := Option.some.inj heq
        rcases hptr with rfl | ⟨l, hl, rfl⟩
        · rw [(correct c).release_null hi]
          exact iff_of_true hco fun hne => absurd rfl hne
        · exact free_coalesced hi hco hl
    | store a v =>
        obtain ⟨ha, heq⟩ := Option.ite_none_right_eq_some.mp (plainStep_step hs)
        obtain rfl := Option.some.inj heq
        exact iff_of_true (store_coalesced hi hco ha v) trivial
    | calloc _ _ => exact absurd hs (by simp [plainStep])
    | realloc _ _ => exact absurd hs (by simp [plainStep])

/-- **Two neighbours on free lists.** An allocation of 8 bytes leaves a rest without IS_FREE, and
freeing the block again does not merge them: the heap no longer serves 256 bytes. -/
theorem free_leaves_neighbours :
    ∃ s, run (plainStep kilobyte) ⟨tlsfState fun _ => 0, []⟩ [.alloc 8, .free 8944] = some s
      ∧ s.live = [] ∧ s.heap.ctl ≠ 0
      ∧ (∃ a, OnFreeList s.heap.mem kilobyte.pool a
        ∧ OnFreeList s.heap.mem kilobyte.pool (blockNext s.heap.mem a))
      ∧ (heapAlloc kilobyte.toHeapConfig (tlsfState fun _ => 0) 256).2 ≠ 0
      ∧ (heapAlloc kilobyte.toHeapConfig s.heap 256).2 = 0 := by
  obtain ⟨s, hrun, hfacts⟩ : ∃ s,
      run (plainStep kilobyte) ⟨tlsfState fun _ => 0, []⟩ [.alloc 8, .free 8944] = some s
      ∧ decide (s.live = [] ∧ s.heap.ctl ≠ 0 ∧ freeHead s.heap.mem kilobyte.pool 0 1 = 8936
        ∧ freeHead s.heap.mem kilobyte.pool 4 7 = 8952 ∧ blockNext s.heap.mem 8936 = 8952
        ∧ (heapAlloc kilobyte.toHeapConfig (tlsfState fun _ => 0) 256).2 ≠ 0
        ∧ (heapAlloc kilobyte.toHeapConfig s.heap 256).2 = 0) = true :=
    Option.map_eq_some_iff.mp (by decide +kernel)
  obtain ⟨hlive, hctl, hone, htwo, hnext, hfresh, hfail⟩ := of_decide_eq_true hfacts
  refine ⟨s, hrun, hlive, hctl, ⟨8936, head_onFreeList (by decide) hone (by decide), ?_⟩, hfresh,
    hfail⟩
  rw [hnext]
  exact head_onFreeList (by decide) htwo (by decide)

/-! ## Evaluating the guard -/

/-- The block behind a freed one is in use, or the sentinel, or has IS_FREE set. -/
def NextSettled (c : TlsfConfig) (s : HeapSys TlsfState) : HeapLabel → Prop
  | .free p => p ≠ 0 →
      (Held s.live (blockToPtr (blockNext s.heap.mem (ptrToBlock p)))
        ∨ blockNext s.heap.mem (ptrToBlock p) = (sentinel c.toHeapConfig).addr)
      ∨ blockIsFree s.heap.mem (blockNext s.heap.mem (ptrToBlock p))
  | _ => True

instance (c : TlsfConfig) (s : HeapSys TlsfState) :
    (l : HeapLabel) → Decidable (NextSettled c s l)
  | .free _ => inferInstanceAs (Decidable (_ → (_ ∨ _) ∨ _))
  | .alloc _ | .calloc .. | .realloc .. | .store .. => isTrue trivial

/-- The block behind a block is on no list exactly if it is in use or the sentinel. -/
theorem PoolInv.next_unlisted (h : PoolInv c mem live (xs ++ b :: ys)) :
    Held live (blockToPtr (blockNext mem b.addr))
        ∨ blockNext mem b.addr = (sentinel c.toHeapConfig).addr
      ↔ ¬ OnFreeList mem c.pool (blockNext mem b.addr) := by
  rw [h.next_listed]
  obtain ⟨f, hrep⟩ := h.rep
  rw [List.append_assoc, List.cons_append] at hrep
  cases ys with
  | nil =>
      rw [List.nil_append] at hrep
      exact iff_of_true (Or.inr hrep.headers.blockNext_eq) (by simp)
  | cons y ys =>
      rw [List.cons_append] at hrep
      have hy : y ∈ xs ++ b :: y :: ys := by simp
      -- a block of the pool ends before the sentinel
      have hlim := h.tiles.bounds hy
      have hne : y.addr ≠ (sentinel c.toHeapConfig).addr := by
        simp only [sentinel, blockHdrOffset] at hlim ⊢
        omega
      rw [hrep.headers.blockNext_eq, or_iff_left hne, blockToPtr, blockHdrOffset, h.held_iff hy]
      simp

/-- The guard without the free lists: whoever holds the block behind is in `live`. -/
theorem sees_next_iff_settled (hi : TlsfInv c s.heap s.live) {l : HeapLabel}
    (hs : plainStep c s l = some s') : SeesNext c s l ↔ NextSettled c s l := by
  cases l with
  | free p =>
      obtain ⟨hptr, -⟩ := Option.ite_none_right_eq_some.mp (plainStep_step hs)
      refine imp_congr_right fun hp => ?_
      obtain ⟨l, hl, rfl⟩ := hptr.resolve_left hp
      rcases hi with ⟨-, hnil⟩ | ⟨hctl, bs, hinv⟩
      · rw [hnil] at hl
        simp at hl
      · obtain ⟨xs, b, ys, rfl, -, hptr, -, -⟩ := hinv.free_at hctl hl
        rw [hptr, ptrToBlock_add, hinv.next_unlisted, or_iff_not_imp_left, not_not]
  | _ => exact Iff.rfl

/-- Three blocks that fill the pool; the middle one is freed first and merges with both. -/
def fillAndEmpty : List HeapLabel :=
  [.alloc 8, .alloc 8, .alloc 224, .free 8960, .free 8944, .free 8976]

/-- **Three blocks that merge again**: with the next one, then with the one before. -/
theorem coalesced_iff_sees_next_merging :
    ∃ s, run (plainStep kilobyte) ⟨tlsfState fun _ => 0, []⟩ fillAndEmpty = some s
      ∧ s.live = []
      ∧ Always (plainStep kilobyte) (Coalesced kilobyte) ⟨tlsfState fun _ => 0, []⟩ fillAndEmpty
      ∧ Restored kilobyte s.heap := by
  obtain ⟨s, hrun, hfacts⟩ : ∃ s,
      run (plainStep kilobyte) ⟨tlsfState fun _ => 0, []⟩ fillAndEmpty = some s
      ∧ decide (s.live = [] ∧ s.heap.ctl ≠ 0) = true :=
    Option.map_eq_some_iff.mp (by decide +kernel)
  obtain ⟨hlive, hctl⟩ := of_decide_eq_true hfacts
  have hsettled : Along (plainStep kilobyte) (NextSettled kilobyte) ⟨tlsfState fun _ => 0, []⟩
      fillAndEmpty := by decide +kernel
  have hsees : Along (plainStep kilobyte) (SeesNext kilobyte) ⟨tlsfState fun _ => 0, []⟩
      fillAndEmpty :=
    (along_iff_guarded (Q := fun s => TlsfInv kilobyte s.heap s.live)
      (fun _ _ _ hi _ hs => (correct_size kilobyte).step hi (plainStep_step hs))
      (fun _ _ _ hi hs => sees_next_iff_settled hi hs) (Or.inl ⟨rfl, rfl⟩) hrun).mpr hsettled
  have hall := (coalesced_iff_sees_next hrun).mpr hsees
  exact ⟨s, hrun, hlive, hall, (hall.last hrun hctl).2 hlive⟩

end Tlsf

end VibeRtos
