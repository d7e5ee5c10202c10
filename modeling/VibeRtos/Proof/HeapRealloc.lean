import VibeRtos.Proof.HdrRuns
import VibeRtos.Proof.TlsfRuns

/-!
# The contract of `vibe_heap_realloc`

Resizing keeps the contents, and a resize that fails changes nothing. The argument is
the same for the three backends: it composes an allocation, a copy and a free of a
backend that is correct. What it needs besides is that the heap itself tells which
pointers are live, and that an allocation that fails leaves a heap in use as it was.
-/

namespace VibeRtos

open ByteMem Links Tiling Runs

variable {σ : Type} {B : Backend σ} {limit : Nat} {Inv : σ → List Grant → Prop}
  {Live : σ → Nat → Prop} {live : List Grant} {l k : Grant}

/-- A correct backend whose heap shows which pointers are live. -/
structure Backend.Readable (B : Backend σ) (limit : Nat) (Inv : σ → List Grant → Prop)
    (Live : σ → Nat → Prop) : Prop where
  correct : B.Correct limit Inv
  liveAt_iff : ∀ {s live p}, Inv s live → (Live s p ↔ Held live p)
  alloc_fails : ∀ {s live size}, Inv s live → live ≠ [] → size ≤ limit →
    (B.alloc s size).2 = 0 → (B.alloc s size).1 = s

/-- The contract: `r` is the heap and the pointer after `vibe_heap_realloc(p, n)` on `h`. -/
structure ReallocOk (B : Backend σ) (Live : σ → Nat → Prop) (h : σ) (p n : Nat)
    (r : σ × Nat) : Prop where
  /-- a block is returned: it has room for the request and the old contents -/
  returned : r.2 ≠ 0 → Live r.1 r.2 ∧ n ≤ B.sizeOf r.1 r.2
    ∧ (∀ i < min (B.sizeOf h p) n, B.mem r.1 (r.2 + i) = B.mem h (p + i))
    ∧ (r.2 ≠ p → ¬ Live r.1 p)
  /-- no block is returned: the heap is unchanged, and `p` with it -/
  failed : 0 < n → r.2 = 0 → r.1 = h ∧ Live r.1 p
  /-- nothing is requested: `p` is freed -/
  freed : n = 0 → r.2 = 0 ∧ ¬ Live r.1 p
  /-- the other live blocks keep their contents -/
  others : ∀ q, Live h q → q ≠ p → Live r.1 q
    ∧ ∀ i < B.sizeOf h q, B.mem r.1 (q + i) = B.mem h (q + i)

theorem not_held_release (live : List Grant) (p : Nat) : ¬ Held (release live p) p := by
  rintro ⟨l, hl, hp⟩
  exact (mem_release.mp hl).2 hp

theorem held_release {p q : Nat} (h : Held live q) (hne : q ≠ p) : Held (release live p) q := by
  obtain ⟨l, hl, rfl⟩ := h
  exact ⟨l, mem_release.mpr ⟨hl, hne⟩, rfl⟩

theorem Backend.Readable.mono (hB : B.Readable limit Inv Live) {limit' : Nat}
    (hle : limit' ≤ limit) :
    B.Readable limit' Inv Live :=
  ⟨hB.correct.mono hle, hB.liveAt_iff, fun hi hne hs => hB.alloc_fails hi hne (hs.trans hle)⟩

/-- **Resizing meets its contract** on every heap in order. -/
theorem Backend.Readable.realloc (hB : B.Readable limit Inv Live) {h : σ} (hi : Inv h live)
    (hl : l ∈ live) {n : Nat} (hn : n ≤ limit) :
    ReallocOk B Live h l.ptr n (B.realloc h l.ptr n) := by
  have hc := hB.correct
  have hnull := hc.ptr_ne hi hl
  have hlimit := hc.limit_lt
  have hheld : Held live l.ptr := ⟨l, hl, rfl⟩
  have hlive : Live h l.ptr := (hB.liveAt_iff hi).mpr hheld
  have hcases := B.realloc_cases h n hnull
  generalize B.realloc h l.ptr n = r at hcases ⊢
  cases hcases with
  | freed hzero =>
      -- nothing is requested
      have hi' := hc.free hi hl
      refine ⟨fun hne => absurd rfl hne, fun hpos => absurd hzero (by omega),
        fun _ => ⟨rfl, (hB.liveAt_iff hi').not.mpr (not_held_release _ _)⟩, fun q hq hne => ?_⟩
      obtain ⟨k, hk, rfl⟩ := (hB.liveAt_iff hi).mp hq
      refine ⟨(hB.liveAt_iff hi').mpr (held_release ⟨k, hk, rfl⟩ hne), ?_⟩
      exact hc.free_keeps hi hl hk hne
  | stays hzero hfit =>
      -- the block is large enough as it is
      have hroom : n ≤ B.sizeOf h l.ptr := (le_heapAlignUp (by omega)).trans hfit
      exact ⟨fun _ => ⟨hlive, hroom, fun _ _ => rfl, fun hne => absurd rfl hne⟩,
        fun _ h0 => absurd h0 hnull, fun h0 => absurd h0 hzero, fun q hq _ => ⟨hq, fun _ _ => rfl⟩⟩
  | fails hzero hfit hp =>
      -- the allocation fails; a heap in use is not initialised again
      have hne : live ≠ [] := List.ne_nil_of_mem hl
      rw [hB.alloc_fails hi hne hn hp]
      exact ⟨fun h0 => absurd rfl h0, fun _ _ => ⟨rfl, hlive⟩, fun h0 => absurd h0 hzero,
        fun q hq _ => ⟨hq, fun _ _ => rfl⟩⟩
  | moves hzero hfit hp =>
      -- the contents are copied, and the old block is freed
      obtain ⟨hi', hothers, hbytes⟩ := hc.move hi hl hn (Nat.min_le_right (B.sizeOf h l.ptr) n)
        (Nat.min_le_left _ _) hp
      have halloc := hc.alloc hi hn
      rw [grant_of_ne hp] at halloc
      have hfresh := hc.ne_of_fresh halloc hl
      refine ⟨fun _ => ⟨(hB.liveAt_iff hi').mpr ⟨_, List.mem_cons_self, rfl⟩,
        hc.room hi' List.mem_cons_self, hbytes, fun _ => ?_⟩, fun _ h0 => absurd h0 hp,
        fun h0 => absurd h0 hzero, fun q hq hne => ?_⟩
      · rw [hB.liveAt_iff hi']
        rintro ⟨k, hk, hkp⟩
        rcases List.mem_cons.mp hk with rfl | hk
        · exact hfresh hkp.symm
        · exact not_held_release _ _ ⟨k, hk, hkp⟩
      · obtain ⟨k, hk, rfl⟩ := (hB.liveAt_iff hi).mp hq
        obtain ⟨k', hk', hkp⟩ := held_release ⟨k, hk, rfl⟩ hne
        exact ⟨(hB.liveAt_iff hi').mpr ⟨k', List.mem_cons_of_mem _ hk', hkp⟩, hothers k hk hne⟩

/-- It does so in every state a program reaches. -/
theorem Backend.Readable.realloc_of_run (hB : B.Readable limit Inv Live) {s s' : HeapSys σ}
    {labels : List HeapLabel} (hi : Inv s.heap s.live)
    (hrun : run (HeapSys.step B limit) s labels = some s') {p n : Nat} (hp : Live s'.heap p)
    (hn : n ≤ limit) : ReallocOk B Live s'.heap p n (B.realloc s'.heap p n) := by
  have hi' := hB.correct.run hi hrun
  obtain ⟨l, hl, rfl⟩ := (hB.liveAt_iff hi').mp hp
  exact hB.realloc hi' hl hn

/-! ## First fit and best fit -/

namespace Hdr

/-- A block of the chain is marked USED. -/
def LiveAt (st : HeapState) (p : Nat) : Prop :=
  hdrFromPtr p ∈ chain st ∧ magic st.mem (hdrFromPtr p) = magicUsed

variable {v : Variant} {c : HeapConfig} {st : HeapState} {bs : List HBlock} {p n : Nat}

instance (st : HeapState) (p : Nat) : Decidable (LiveAt st p) :=
  inferInstanceAs (Decidable (_ ∧ _))

theorem PoolInv.chain_eq (h : PoolInv c st live bs) (hsize : 16 ≤ c.size) :
    chain st = bs.map Block.addr := by
  refine h.rep.chain_eq h.head ?_
  rintro rfl
  have hend : c.pool = c.pool + c.size := h.rep.tiles
  omega

/-- The USED blocks are those of the live grants. -/
theorem PoolInv.liveAt_iff (h : PoolInv c st live bs) (hsize : 16 ≤ c.size) :
    LiveAt st p ↔ Held live p := by
  have hpos := c.pos
  unfold LiveAt
  rw [h.chain_eq hsize]
  constructor
  · rintro ⟨hin, hmagic⟩
    obtain ⟨b, hb, hba⟩ := List.mem_map.mp hin
    have hlim := (h.rep.bounds hb).1
    rw [← hba, h.rep.magics b hb] at hmagic
    have hused : b.tag.isSome := by
      cases htag : b.tag with
      | none =>
          rw [htag] at hmagic
          exact absurd hmagic (by decide)
      | some r => rfl
    -- a USED block has a request, and there is a grant for it
    refine ⟨⟨b.addr + 16, b.tag.getD 0⟩, h.live.mem_iff.mpr ?_, ?_⟩
    · exact List.mem_map.mpr ⟨b, mem_usedBlocks.mpr ⟨hb, hused⟩, rfl⟩
    · unfold hdrFromPtr hdrSize at hba
      simp only
      omega
  · rintro ⟨l, hl, rfl⟩
    obtain ⟨b, hb, htag, hptr, -⟩ := h.block (v := ⟨true, true⟩) hl
    rw [hptr, hdrFromPtr_add]
    refine ⟨List.mem_map_of_mem hb, ?_⟩
    rw [h.rep.magics b hb, htag]
    rfl

/-- Nothing is live before the first allocation. -/
theorem not_liveAt_start (mem : Mem) : ¬ LiveAt (heapState mem) p := by
  rintro ⟨hin, -⟩
  exact absurd hin (by simp [chain, heapState, ptr, walk, walkBound])

/-- The heap that the search starts from. -/
def ready (c : HeapConfig) (st : HeapState) : HeapState :=
  if st.initialized then st else heapPoolInit c st

/-- An allocation depends on what the search finds. -/
theorem heapAlloc_none (h0 : n ≠ 0)
    (h : search v (ready c st).mem (heapAlignUp n) (chain (ready c st)) = none) :
    heapAlloc v c st n = (ready c st, 0) := by
  unfold heapAlloc
  rw [if_neg h0]
  dsimp only
  rw [show (if st.initialized then st else heapPoolInit c st) = ready c st from rfl, h]

theorem heapAlloc_some {a : Nat} (h0 : n ≠ 0)
    (h : search v (ready c st).mem (heapAlignUp n) (chain (ready c st)) = some a) :
    (heapAlloc v c st n).2 ≠ 0 := by
  unfold heapAlloc
  rw [if_neg h0]
  dsimp only
  rw [show (if st.initialized then st else heapPoolInit c st) = ready c st from rfl, h]
  simp only [ptrFromHdr, hdrSize]
  omega

theorem readable (v : Variant) (c : HeapConfig) (hsize : 16 ≤ c.size) {limit : Nat}
    (hlimit : limit + 7 < 2 ^ 32) : (backend v c).Readable limit (HdrInv c) LiveAt where
  correct := correct_limit v c hsize hlimit
  liveAt_iff hi := by
    rcases hi with ⟨-, hst, rfl⟩ | ⟨-, bs, hp⟩
    · rw [hst]
      exact iff_of_false (not_liveAt_start _) (by simp [Held])
    · exact hp.liveAt_iff hsize
  alloc_fails := by
    intro st live size hi hne hle hnull
    by_cases h0 : size = 0
    · subst h0
      rfl
    · rcases hi with ⟨-, -, rfl⟩ | ⟨hyes, bs, hp⟩
      · exact absurd rfl hne
      · have hready : ready c st = st := if_pos hyes
        cases hsearch : search v (ready c st).mem (heapAlignUp size) (chain (ready c st)) with
        | none => exact (congrArg Prod.fst (heapAlloc_none h0 hsearch)).trans hready
        | some b => exact absurd hnull (heapAlloc_some h0 hsearch)

end Hdr

/-! ## TLSF -/

namespace Tlsf

/-- A physical block that the block behind it does not take for free (PREV_FREE). -/
def LiveAt (st : TlsfState) (p : Nat) : Prop :=
  st.ctl ≠ 0 ∧ ptrToBlock p ∈ physBlocks st.mem walkBound (poolStart st.ctl)
    ∧ ¬ blockPrevIsFree st.mem (blockNext st.mem (ptrToBlock p))

variable {c : TlsfConfig} {mem : Mem} {st : TlsfState} {xs bs : List TBlock} {a p n : Nat}

instance (st : TlsfState) (p : Nat) : Decidable (LiveAt st p) :=
  inferInstanceAs (Decidable (_ ∧ _))

/-- The blocks in use are those of the live grants. -/
theorem PoolInv.liveAt_iff (h : PoolInv c st.mem live bs) (hctl : st.ctl = c.pool) :
    LiveAt st p ↔ Held live p := by
  have hpos := c.pos
  unfold LiveAt
  rw [hctl, h.physBlocks_eq c.size_le_walkBound]
  constructor
  · rintro ⟨-, hin, hlisted⟩
    obtain ⟨b, hb, hba⟩ := List.mem_map.mp hin
    have hlow := (h.tiles.bounds hb).1
    rw [poolStart_eq] at hlow
    rw [← hba, h.prevIsFree_next hb] at hlisted
    have hp : p = b.addr + 8 := by
      unfold ptrToBlock blockHdrOffset at hba
      omega
    rw [hp]
    exact (h.held_iff hb).mpr hlisted
  · intro hheld
    obtain ⟨l, hl, rfl⟩ := hheld
    obtain ⟨b, hb, -, hptr, -⟩ := h.block hl
    have hheld : Held live (b.addr + 8) := ⟨l, hl, hptr⟩
    rw [hptr, ptrToBlock_add, h.prevIsFree_next hb]
    exact ⟨by omega, List.mem_map_of_mem hb, (h.held_iff hb).mp hheld⟩

theorem readable (c : TlsfConfig) :
    (backend c.toHeapConfig).Readable maxRequest (TlsfInv c) LiveAt where
  correct := correct c
  liveAt_iff hi := by
    rcases hi with ⟨h0, rfl⟩ | ⟨hctl, bs, hp⟩
    · exact iff_of_false (fun hlive => hlive.1 h0) (by simp [Held])
    · exact hp.liveAt_iff hctl
  alloc_fails := by
    intro st live size hi hne hle hnull
    simp only [backend] at hnull ⊢
    by_cases h0 : size = 0
    · subst h0
      rfl
    · obtain ⟨bs, hctl, hp, hsame⟩ := hi.ready
      rcases heapAlloc_cases hctl hp h0 hle with ⟨xs, b, ys, -, -, -, heq⟩ | ⟨heq, -⟩
      · rw [heq] at hnull
        exact absurd hnull (by simp)
      · rw [heq]
        exact hsame.resolve_left hne

end Tlsf

/-! ## The three backends -/

/-- `vibe_heap_realloc` meets its contract in every state that a program reaches. -/
def ReallocKept (B : Backend σ) (Live : σ → Nat → Prop) (limit : Nat) (start : σ) : Prop :=
  ∀ (labels : List HeapLabel) (s : HeapSys σ),
    run (HeapSys.step B limit) ⟨start, []⟩ labels = some s →
    ∀ p n, Live s.heap p → n ≤ limit → ReallocOk B Live s.heap p n (B.realloc s.heap p n)

/-- A heap of 1026 bytes at `0x2000`, which the build accepts. -/
def oddPool : HeapConfig := ⟨0x2000, 1026, samplePool_pos, samplePool_aligned, by decide⟩

end VibeRtos
