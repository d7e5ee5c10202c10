import VibeRtos.Proof.HdrHeap
import VibeRtos.Proof.TlsfHeap

/-!
# The calls of TLSF

What `vibe_heap_alloc` and `vibe_heap_free` do to a pool in order: a request is rounded
up and served from a listed block that is large enough, and a block given back is merged
and listed. With that TLSF is a correct backend for every request that has a size class.
-/

namespace VibeRtos

open ByteMem Bits Links Tiling Runs

namespace Tlsf

/-- The size `vibe_heap_alloc` looks for. -/
def request (n : Nat) : Nat :=
  if heapAlignUp n < blockPayloadMin then blockPayloadMin else heapAlignUp n

/-- The state the search starts from, with the pool initialised. -/
def ready (c : HeapConfig) (st : TlsfState) : TlsfState :=
  if st.ctl = 0 then ⟨tlsfInit c st.mem, c.pool⟩ else st

variable {c : TlsfConfig} {mem : Mem} {st : TlsfState} {live : List Grant} {l k : Grant}
  {xs ys bs : List TBlock} {b d : TBlock} {n r : Nat}

theorem request_aligned (n : Nat) : 8 ∣ request n ∧ 8 ≤ request n := by
  unfold request heapAlignUp blockPayloadMin
  split <;> omega

theorem le_request (h : n + 7 < 2 ^ 32) : n ≤ request n := by
  have hle := le_heapAlignUp h
  unfold request
  split <;> omega

/-- Rounding up does not leave the size classes. -/
theorem request_le (h : n ≤ maxRequest) : request n ≤ maxRequest := by
  unfold request heapAlignUp blockPayloadMin
  unfold maxRequest at *
  split <;> omega

/-- `vibe_heap_alloc` searches and takes what it has found. -/
theorem heapAlloc_eq (c : HeapConfig) (st : TlsfState) (h0 : n ≠ 0) :
    heapAlloc c st n = match locateFree (ready c st).mem (ready c st).ctl (request n) with
      | none => (ready c st, 0)
      | some a => (⟨takeBlock (ready c st).mem (ready c st).ctl a (request n), (ready c st).ctl⟩,
          blockToPtr a) := by
  unfold heapAlloc
  rw [if_neg h0]
  rfl

/-- `vibe_heap_free` gives back a block in use. -/
theorem heapFree_eq (st : TlsfState) {p : Nat} (h0 : p ≠ 0)
    (hused : ¬ blockIsFree st.mem (ptrToBlock p)) :
    heapFree st p = ⟨giveBlock st.mem st.ctl (ptrToBlock p), st.ctl⟩ := by
  unfold heapFree
  rw [if_neg h0]
  dsimp only
  rw [if_neg hused]
  rfl

@[simp] theorem ptrToBlock_add (a : Nat) : ptrToBlock (a + 8) = a := by
  simp [ptrToBlock, blockHdrOffset]

/-! ## Grants and blocks -/

theorem grants_of_live {zs : List TBlock} (h : liveBlocks bs = liveBlocks zs) :
    grants bs = grants zs := by
  have hg : ∀ zs : List TBlock, grants zs = grants (liveBlocks zs) := by
    intro zs
    induction zs with
    | nil => rfl
    | cons b zs ih =>
        cases hb : b.tag.req with
        | none => rw [grants_cons_free hb, liveBlocks_cons_free hb, ih]
        | some r => rw [liveBlocks_cons_live hb, grants_cons_live hb, grants_cons_live hb, ih]
  rw [hg, h, ← hg]

namespace PoolInv

/-- The block behind a grant. -/
theorem block (h : PoolInv c mem live bs) (hl : l ∈ live) :
    ∃ b ∈ bs, b.tag.req = some l.req ∧ l.ptr = b.addr + 8
      ∧ blockSize mem (ptrToBlock l.ptr) = b.size := by
  have hg : l ∈ grants bs := h.live.mem_iff.mp hl
  obtain ⟨b, hb, hr⟩ := List.mem_filterMap.mp hg
  obtain ⟨r, hreq, rfl⟩ := Option.map_eq_some_iff.mp hr
  obtain ⟨f, hrep⟩ := h.rep
  refine ⟨b, hb, hreq, rfl, ?_⟩
  rw [ptrToBlock_add]
  exact hrep.headers.size_of_mem (List.mem_append_left _ hb)

/-- The blocks lie in the pool, one behind the other. -/
theorem tiles (h : PoolInv c mem live bs) :
    Tiles blockHdrOffset (poolStart c.pool) bs (c.pool + c.size - 8) := by
  obtain ⟨f, hrep⟩ := h.rep
  obtain ⟨m, hbs, hs, -⟩ := tiles_append.mp hrep.headers.tiles
  simp only [sentinel] at hs
  rwa [← hs] at hbs

theorem nodup (h : PoolInv c mem live bs) : (live.map Grant.ptr).Nodup := by
  refine (h.live.map Grant.ptr).nodup_iff.mpr ?_
  have hptrs : (grants bs).map Grant.ptr = (liveBlocks bs).map fun b => b.addr + 8 :=
    map_grants fun _ _ _ _ => rfl
  have hadd : (liveBlocks bs).map (fun b => b.addr + 8)
      = ((liveBlocks bs).map Block.addr).map (· + 8) := by simp [Function.comp_def]
  -- blocks that tile the pool start at different addresses
  have haddr : ((liveBlocks bs).map Block.addr).Nodup :=
    (h.tiles.nodup_addr (by decide)).sublist (List.filter_sublist.map _)
  rw [hptrs, hadd]
  exact haddr.map (add_left_injective 8)

/-- Splitting the pool at a grant. -/
theorem at_grant (h : PoolInv c mem live bs) (hl : l ∈ live) : ∃ xs b ys, bs = xs ++ b :: ys
    ∧ b.tag.req = some l.req ∧ l.ptr = b.addr + 8
    ∧ (release live l.ptr).Perm (grants (xs ++ ys)) := by
  obtain ⟨b, hb, hreq, hptr, -⟩ := h.block hl
  obtain ⟨xs, ys, rfl⟩ := List.append_of_mem hb
  refine ⟨xs, b, ys, rfl, hreq, hptr, ?_⟩
  have hlive := h.live
  rw [grants_append, grants_cons_live hreq] at hlive
  rw [hptr, grants_append]
  exact release_perm hlive h.nodup

/-- The block of another grant is in use as well. -/
theorem other_live (h : PoolInv c mem live (xs ++ b :: ys)) (hk : k ∈ live)
    (hne : k.ptr ≠ b.addr + 8) : ∃ d ∈ liveBlocks (xs ++ ys), k.ptr = d.addr + 8
      ∧ blockSize mem (ptrToBlock k.ptr) = d.size := by
  obtain ⟨d, hd, hreq, hptr, hsize⟩ := h.block hk
  refine ⟨d, mem_liveBlocks.mpr ⟨?_, by simp [hreq]⟩, hptr, hsize⟩
  -- two grants of one block would be one pointer
  refine (mem_middle.mp hd).resolve_left ?_
  rintro rfl
  exact hne hptr

/-! ## Allocating -/

/-- **Searching** finds a listed block of the rounded size, or there is none. -/
theorem locate (h : PoolInv c mem live bs) (hn : n ≤ maxRequest) (h8 : 8 ∣ n) (h0 : n ≠ 0) :
    (∃ b ∈ bs, IsListed b ∧ locateFree mem c.pool n = some b.addr ∧ roundUpSize n ≤ b.size)
      ∨ locateFree mem c.pool n = none ∧ ∀ b ∈ bs, IsListed b → b.size < roundUpSize n := by
  obtain ⟨f, hrep⟩ := h.rep
  have hsize : ∀ b ∈ bs, blockSize mem b.addr = b.size :=
    fun b hb => hrep.headers.size_of_mem (List.mem_append_left _ hb)
  have hclass : ∀ k, ∀ a ∈ f k, mapping (blockSize mem a) = k := by
    intro k a ha
    obtain ⟨b, hb, -, rfl, rfl⟩ := (hrep.listed k a).mp ha
    rw [hsize b hb]
  rcases hrep.lists.good_fit (hrep.family hrep.headers) hclass h8 h0 hn with
    ⟨a, k, hfound, hfirst, hfit⟩ | ⟨hnone, hsmall⟩
  · obtain ⟨b, hb, hreq, rfl, -⟩ := (hrep.listed k a).mp (List.mem_of_mem_head? hfirst.1)
    rw [hsize b hb] at hfit
    exact Or.inl ⟨b, hb, hreq, hfound, hfit⟩
  · refine Or.inr ⟨hnone, fun b hb hreq => ?_⟩
    rw [← hsize b hb]
    exact hsmall _ _ ((hrep.listed (mapping b.size) b.addr).mpr ⟨b, hb, hreq, rfl, rfl⟩)

/-- **Taking a listed block.** -/
theorem take (h : PoolInv c mem live (xs ++ b :: ys)) (hreq : IsListed b) (hn : n ≤ b.size)
    (h8 : 8 ∣ n) (hpos : 8 ≤ n) (hr : r ≤ n) :
    ∃ bs, PoolInv c (takeBlock mem c.pool b.addr n) (⟨b.addr + 8, r⟩ :: live) bs
      ∧ PayloadsKept (liveBlocks (xs ++ ys)) mem (takeBlock mem c.pool b.addr n)
      ∧ liveBlocks (xs ++ ys) ⊆ bs
      ∧ (Merged IsListed (xs ++ b :: ys) → Merged IsListed bs) := by
  obtain ⟨f, hrep⟩ := h.rep
  rw [List.append_assoc, List.cons_append] at hrep
  obtain ⟨s, rest, g, hs, htags, hlen, hrep', hkept⟩ := takeBlock_rep hrep hreq hn h8 hpos r
  -- the rest, if the block was split, serves nobody
  have hrest : ∀ d ∈ rest, d.tag.req = none := fun d hd => by rw [htags d hd]
  have hmem : ∀ d ∈ xs ++ ⟨b.addr, s, ⟨some r, false⟩⟩ :: (rest ++ ys),
      d = ⟨b.addr, s, ⟨some r, false⟩⟩ ∨ d ∈ rest ∨ d ∈ xs ++ ys := by
    intro d hd
    simp only [List.mem_append, List.mem_cons] at hd ⊢
    tauto
  have hold : ∀ d ∈ xs ++ ys, d ∈ xs ++ b :: ys := fun d hd => mem_middle.mpr (Or.inr hd)
  have hgrants : grants (rest ++ ys) = grants ys := by
    have hnone : grants rest = [] := by
      simp only [grants, List.filterMap_eq_nil_iff]
      exact fun d hd => by simp [hrest d hd]
    rw [grants_append, hnone, List.nil_append]
  refine ⟨xs ++ ⟨b.addr, s, ⟨some r, false⟩⟩ :: (rest ++ ys),
    ⟨⟨g, by simpa using hrep'⟩, ?_, ?_, ?_⟩,
    hkept, ?_, fun hm => ?_⟩
  · intro d hd hf
    rcases hmem d hd with rfl | hd | hd
    · simp at hf
    · exact hrest d hd
    · exact h.flag d (hold d hd) hf
  · have hlive := h.live
    rw [grants_append, grants_cons_free hreq] at hlive
    rw [grants_append, grants_cons_live rfl, hgrants]
    exact (hlive.cons _).trans List.perm_middle.symm
  · -- only the block that was taken has a new request
    intro d hd q hq
    rcases hmem d hd with rfl | hd | hd
    · obtain rfl : r = q := Option.some.inj hq
      exact hr.trans hs
    · rw [hrest d hd] at hq
      exact absurd hq (by simp)
    · exact h.room d (hold d hd) q hq
  · intro d hd
    have hin := (mem_liveBlocks.mp hd).1
    simp only [List.mem_append, List.mem_cons] at hin ⊢
    tauto
  · -- the residual block is listed, and the block behind the taken one is not
    obtain ⟨hxs, hys, hsides⟩ := merged_middle.mp hm
    refine merged_middle.mpr ⟨hxs, ?_, fun hl => absurd hl (by simp [IsListed])⟩
    rcases rest with _ | ⟨d, _ | ⟨e, rest⟩⟩
    · exact hys
    · exact List.isChain_cons.mpr ⟨fun y hy hl => (hsides hreq).2 y hy hl.2, hys⟩
    · exact absurd hlen (by simp)

/-! ## Freeing -/

/-- **Giving back the block of a grant.** The pool stays merged exactly when the IS_FREE flag of
the next block tells whether it is listed. -/
theorem give (h : PoolInv c mem live (xs ++ b :: ys)) (hb : b.tag.req = some r)
    {live' : List Grant} (hlive : live'.Perm (grants (xs ++ ys))) :
    ∃ bs, PoolInv c (giveBlock mem c.pool b.addr) live' bs
      ∧ liveBlocks bs = liveBlocks (xs ++ ys)
      ∧ (Merged IsListed (xs ++ b :: ys) → (Merged IsListed bs
        ↔ ∀ y ∈ ys.head?, IsListed y → y.tag.isFree = true))
      ∧ PayloadsKept (liveBlocks (xs ++ ys)) mem (giveBlock mem c.pool b.addr) := by
  obtain ⟨f, hrep⟩ := h.rep
  rw [List.append_assoc, List.cons_append] at hrep
  have hold : ∀ d ∈ xs ++ ys, d ∈ xs ++ b :: ys := fun d hd => mem_middle.mpr (Or.inr hd)
  -- merging keeps the blocks in use, so it keeps their grants
  obtain ⟨bs, g, hrep', hsame, hflag, hmem, hmerged, hkept⟩ := giveBlock_rep hrep hb
    fun d hd => h.flag d (hold d hd)
  refine ⟨bs, ⟨⟨g, hrep'⟩, hflag, ?_, ?_⟩, hsame, hmerged, hkept⟩
  · rw [grants_of_live hsame]
    exact hlive
  · intro d hd q hq
    rcases hmem d hd with hd | hd
    · exact h.room d (hold d hd) q hq
    · rw [hd] at hq
      exact absurd hq (by simp)

/-- The header of a grant's block does not say that it is free. -/
theorem not_free (h : PoolInv c mem live bs) (hl : l ∈ live) :
    ¬ blockIsFree mem (ptrToBlock l.ptr) := by
  obtain ⟨xs, b, ys, rfl, hreq, hptr, -⟩ := h.at_grant hl
  obtain ⟨f, hrep⟩ := h.rep
  rw [List.append_assoc, List.cons_append] at hrep
  rw [hptr, ptrToBlock_add, hrep.headers.isFree_iff]
  intro hfree
  have hnone := h.flag b (by simp) hfree
  rw [hreq] at hnone
  exact absurd hnone (by simp)

/-- **A free** gives back the block of the grant. -/
theorem free_at (h : PoolInv c st.mem live bs) (hctl : st.ctl = c.pool) (hl : l ∈ live) :
    ∃ xs b ys, bs = xs ++ b :: ys ∧ b.tag.req = some l.req ∧ l.ptr = b.addr + 8
      ∧ (release live l.ptr).Perm (grants (xs ++ ys))
      ∧ heapFree st l.ptr = ⟨giveBlock st.mem c.pool b.addr, c.pool⟩ := by
  have hused := h.not_free hl
  obtain ⟨xs, b, ys, rfl, hreq, hptr, hrest⟩ := h.at_grant hl
  refine ⟨xs, b, ys, rfl, hreq, hptr, hrest, ?_⟩
  rw [heapFree_eq _ (by omega) hused, hctl, hptr, ptrToBlock_add]

end PoolInv

/-! ## Grants that change, and stores -/

/-- The headers tell that a block serves a request, but not which. -/
theorem Linked.retag {b' : TBlock} (haddr : b'.addr = b.addr) (hsize : b'.size = b.size)
    (hfree : b'.tag.isFree = b.tag.isFree) (hreq : b'.tag.req.isNone = b.tag.req.isNone)
    {p : Option TBlock} (h : Linked mem p (xs ++ b :: ys)) : Linked mem p (xs ++ b' :: ys) := by
  obtain ⟨hxs, hb, hys⟩ := linked_append.mp h
  refine linked_append.mpr ⟨hxs, ⟨?_, ?_⟩, ?_⟩
  · rw [haddr]
    exact hb.prev
  · rw [haddr, hsize, hfree]
    exact hb.word
  · cases ys with
    | nil => trivial
    | cons y ys =>
        refine ⟨⟨?_, ?_⟩, hys.2⟩
        · have hprev := hys.1.prev
          simpa [prevAddr, haddr] using hprev
        · have hword := hys.1.word
          simpa [prevIsFree, hreq] using hword

namespace PoolInv

/-- A grant may change its request within its block. -/
theorem resize (h : PoolInv c mem live bs) (hl : l ∈ live)
    (hr : r ≤ blockSize mem (ptrToBlock l.ptr)) :
    ∃ bs, PoolInv c mem (⟨l.ptr, r⟩ :: release live l.ptr) bs := by
  obtain ⟨xs, b, ys, rfl, hreq, hptr, hrest⟩ := h.at_grant hl
  obtain ⟨f, hrep⟩ := h.rep
  have hlist := hrep.toListing
  rw [List.append_assoc, List.cons_append] at hrep
  have hb : b ∈ xs ++ b :: (ys ++ [sentinel c.toHeapConfig]) := by simp
  rw [hptr, ptrToBlock_add, hrep.headers.size_of_mem hb] at hr
  obtain ⟨b', hb'⟩ : ∃ b' : TBlock, b' = ⟨b.addr, b.size, ⟨some r, b.tag.isFree⟩⟩ := ⟨_, rfl⟩
  have hold : ∀ d ∈ xs ++ ys, d ∈ xs ++ b :: ys := fun d hd => mem_middle.mpr (Or.inr hd)
  have hflag : b.tag.isFree ≠ true := by
    intro hf
    have hnone := h.flag b (by simp) hf
    rw [hreq] at hnone
    exact absurd hnone (by simp)
  have hheaders : Headers c.toHeapConfig mem (xs ++ b' :: (ys ++ [sentinel c.toHeapConfig])) := by
    refine ⟨?_, hrep.headers.linked.retag (by rw [hb']) (by rw [hb']) (by rw [hb'])
      (by rw [hb', hreq]; rfl), fun d hd => ?_⟩
    · rw [hb']
      exact hrep.headers.tiles.retag _
    · rcases mem_middle.mp hd with rfl | hd
      · rw [hb']
        exact hrep.headers.aligned b hb
      · exact hrep.headers.aligned d (mem_middle.mpr (Or.inr hd))
  -- a block in use is on no list, so the lists do not see the new request
  have hdrop := hrep.drop_live (by simp [hreq])
  have hadd : Listing (xs ++ b' :: (ys ++ [sentinel c.toHeapConfig])) (xs ++ b' :: ys) f := by
    refine (listing_live (by simp [hb']) ?_ ?_).mpr
      ⟨?_, hdrop.least, hdrop.listed, hdrop.nodup⟩
    · rw [hb']
      exact hrep.least b (by simp)
    · exact (List.Sublist.refl xs).append ((List.sublist_append_left _ _).cons_cons _)
    · exact (List.Sublist.refl xs).append ((List.sublist_append_left _ _).cons _)
  refine ⟨xs ++ b' :: ys, ⟨f, ?_⟩, fun d hd hf => ?_, ?_, fun d hd q hq => ?_⟩
  · rw [List.append_assoc, List.cons_append]
    exact ⟨hadd, hheaders, hrep.lists⟩
  · rcases mem_middle.mp hd with rfl | hd
    · rw [hb'] at hf
      exact absurd hf hflag
    · exact h.flag d (hold d hd) hf
  · rw [grants_append] at hrest ⊢
    rw [grants_cons_live (b := b') (r := r) (by rw [hb']), hb', hptr, ← hptr]
    exact (hrest.cons _).trans List.perm_middle.symm
  · rcases mem_middle.mp hd with rfl | hd
    · rw [hb'] at hq ⊢
      obtain rfl : r = q := Option.some.inj hq
      exact hr
    · exact h.room d (hold d hd) q hq

/-- Stores into granted blocks do no harm. -/
theorem store (h : PoolInv c mem live bs) (hl : l ∈ live) {m : Mem}
    (hm : ∀ a, a < l.ptr ∨ l.ptr + blockSize mem (ptrToBlock l.ptr) ≤ a → m a = mem a) :
    PoolInv c m live bs := by
  obtain ⟨b, hb, hreq, hptr, hsize⟩ := h.block hl
  obtain ⟨f, hrep⟩ := h.rep
  have hlive : b ∈ liveBlocks bs := mem_liveBlocks.mpr ⟨hb, by simp [hreq]⟩
  -- what is written is payload of one block, and neither headers nor lists are
  have hsame : ∀ x, (∀ i < b.size, x ≠ b.addr + 8 + i) → m x = mem x := by
    intro x hx
    refine hm x ?_
    rw [hsize, hptr]
    by_contra hin
    exact hx (x - (b.addr + 8)) (by omega) (by omega)
  refine ⟨⟨f, hrep.toListing, hrep.headers.congr fun x hx => hsame x fun i hi => ?_,
    hrep.lists.congr fun x hx => hsame x fun i hi => ?_⟩, h.flag, h.live, h.room⟩
  · rintro rfl
    exact hrep.headers.payload (List.mem_append_left _ hb) hi hx
  · rintro rfl
    exact hrep.live_apart hrep.headers hlive hi hx

end PoolInv

/-! ## The calls -/

/-- The first allocation initialises the pool. -/
theorem TlsfInv.ready (hi : TlsfInv c st live) : ∃ bs, (ready c.toHeapConfig st).ctl = c.pool
    ∧ PoolInv c (ready c.toHeapConfig st).mem live bs
    ∧ (live = [] ∨ ready c.toHeapConfig st = st) := by
  have hpos := c.pos
  unfold Tlsf.ready
  rcases hi with ⟨h0, rfl⟩ | ⟨hctl, bs, hp⟩
  · rw [if_pos h0]
    exact ⟨_, rfl, tlsfInit_inv c st.mem, Or.inl rfl⟩
  · rw [if_neg (by omega)]
    exact ⟨bs, hctl, hp, Or.inr rfl⟩

/-- An allocation takes a listed block of the rounded size, or there is none. -/
theorem heapAlloc_cases (hctl : (Tlsf.ready c.toHeapConfig st).ctl = c.pool)
    (hp : PoolInv c (Tlsf.ready c.toHeapConfig st).mem live bs) (h0 : n ≠ 0)
    (hn : n ≤ maxRequest) :
    (∃ xs b ys, bs = xs ++ b :: ys ∧ IsListed b ∧ roundUpSize (request n) ≤ b.size
        ∧ heapAlloc c.toHeapConfig st n
          = (⟨takeBlock (Tlsf.ready c.toHeapConfig st).mem c.pool b.addr
          (request n), c.pool⟩, b.addr + 8))
      ∨ heapAlloc c.toHeapConfig st n = (Tlsf.ready c.toHeapConfig st, 0)
        ∧ ∀ b ∈ bs, IsListed b → b.size < roundUpSize (request n) := by
  obtain ⟨h8, hpos⟩ := request_aligned n
  rw [heapAlloc_eq _ _ h0, hctl]
  rcases hp.locate (request_le hn) h8 (by omega) with ⟨b, hb, hreq, hfound, hsize⟩ | ⟨hnone, hsmall⟩
  · obtain ⟨xs, ys, rfl⟩ := List.append_of_mem hb
    rw [hfound]
    exact Or.inl ⟨xs, b, ys, rfl, hreq, hsize, rfl⟩
  · rw [hnone]
    exact Or.inr ⟨rfl, hsmall⟩

/-- **Allocation** keeps the invariant and leaves the granted blocks alone. -/
theorem heapAlloc_spec (hi : TlsfInv c st live) (hn : n ≤ maxRequest) :
    TlsfInv c (heapAlloc c.toHeapConfig st n).1 (grant live (heapAlloc c.toHeapConfig st n).2 n)
      ∧ ∀ l ∈ live, blockSize (heapAlloc c.toHeapConfig st n).1.mem (ptrToBlock l.ptr)
          = blockSize st.mem (ptrToBlock l.ptr)
        ∧ ∀ i < blockSize st.mem (ptrToBlock l.ptr),
          (heapAlloc c.toHeapConfig st n).1.mem (l.ptr + i) = st.mem (l.ptr + i) := by
  by_cases h0 : n = 0
  · have hnull : heapAlloc c.toHeapConfig st n = (st, 0) := if_pos h0
    rw [hnull]
    exact ⟨hi, fun _ _ => ⟨rfl, fun _ _ => rfl⟩⟩
  obtain ⟨bs, hctl, hp, hsame⟩ := hi.ready
  rcases heapAlloc_cases hctl hp h0 hn with ⟨xs, b, ys, rfl, hreq, hsize, heq⟩ | ⟨heq, -⟩
  · obtain ⟨h8, hpos⟩ := request_aligned n
    have hle : n ≤ request n := le_request (by unfold maxRequest at hn; omega)
    have hround := (roundUpSize_spec h8 (request_le hn)).1
    obtain ⟨bs', hp', hkept, hin, -⟩ := hp.take hreq (hround.trans hsize) h8 hpos hle
    rw [heq]
    refine ⟨Or.inr ⟨rfl, bs', ?_⟩, fun l hl => ?_⟩
    · rw [grant_of_ne (by omega)]
      exact hp'
    · rcases hsame with rfl | hsame
      · simp at hl
      · -- the block of an older grant is still there, with the same payload
        obtain ⟨d, hd, htag, hptr, hsz⟩ := hp.block hl
        have hlive : d ∈ liveBlocks (xs ++ ys) := by
          refine mem_liveBlocks.mpr ⟨(mem_middle.mp hd).resolve_left ?_, by simp [htag]⟩
          rintro rfl
          rw [hreq] at htag
          exact absurd htag (by simp)
        obtain ⟨f, hrep'⟩ := hp'.rep
        have hsize' := hrep'.headers.size_of_mem (List.mem_append_left _ (hin hlive))
        rw [hsame] at hsz hkept hsize' ⊢
        rw [hsz, hptr, ptrToBlock_add]
        exact ⟨hsize', fun i hlt => hkept d hlive i hlt⟩
  · rw [heq]
    refine ⟨Or.inr ⟨hctl, bs, hp⟩, fun l hl => ?_⟩
    rcases hsame with rfl | hsame
    · simp at hl
    · rw [hsame]
      exact ⟨rfl, fun _ _ => rfl⟩

/-- **The calls of TLSF respect the invariant**, for requests that have a size class. -/
theorem correct (c : TlsfConfig) : (backend c.toHeapConfig).Correct maxRequest (TlsfInv c) where
  limit_lt := by decide
  mem_setMem _ _ := rfl
  nodup hi := by
    rcases hi with ⟨-, rfl⟩ | ⟨-, bs, hp⟩
    · simp
    · exact hp.nodup
  ptr_ne hi hl := by
    rcases hi with ⟨-, rfl⟩ | ⟨-, bs, hp⟩
    · simp at hl
    · obtain ⟨b, -, -, hptr, -⟩ := hp.block hl
      omega
  room hi hl := by
    rcases hi with ⟨-, rfl⟩ | ⟨-, bs, hp⟩
    · simp at hl
    · obtain ⟨b, hb, hreq, -, hsz⟩ := hp.block hl
      exact (hp.room b hb _ hreq).trans hsz.ge
  disjoint hi hl hk hne := by
    rcases hi with ⟨-, rfl⟩ | ⟨-, bs, hp⟩
    · simp at hl
    · obtain ⟨b, hb, -, hptr, hsz⟩ := hp.block hl
      obtain ⟨d, hd, -, hptr', hsz'⟩ := hp.block hk
      have hapart := hp.tiles.apart_of_ne hb hd (by omega)
      simp only [backend, blockHdrOffset] at hapart ⊢
      omega
  alloc hi hle := (heapAlloc_spec hi hle).1
  alloc_keeps hi hle hl := (heapAlloc_spec hi hle).2 _ hl
  alloc_zero _ := rfl
  free hi hl := by
    rcases hi with ⟨-, rfl⟩ | ⟨hctl, bs, hp⟩
    · simp at hl
    · obtain ⟨xs, b, ys, rfl, hreq, hptr, hrest, hfree⟩ := hp.free_at hctl hl
      obtain ⟨bs', hp', -⟩ := hp.give hreq hrest
      refine Or.inr ?_
      simp only [backend]
      rw [hfree]
      exact ⟨rfl, bs', hp'⟩
  free_keeps hi hl hk hne := by
    rcases hi with ⟨-, rfl⟩ | ⟨hctl, bs, hp⟩
    · simp at hl
    · obtain ⟨xs, b, ys, rfl, hreq, hptr, hrest, hfree⟩ := hp.free_at hctl hl
      obtain ⟨bs', -, -, -, hkept⟩ := hp.give hreq hrest
      obtain ⟨d, hd, hptr', hsz⟩ := hp.other_live hk (by omega)
      intro i hlt
      simp only [backend] at hlt ⊢
      rw [hsz] at hlt
      rw [hfree, hptr']
      exact hkept d hd i hlt
  free_null _ := rfl
  resize hi hl hle := by
    rcases hi with ⟨-, rfl⟩ | ⟨hctl, bs, hp⟩
    · simp at hl
    · exact Or.inr ⟨hctl, hp.resize hl hle⟩
  store hi hl hm := by
    rcases hi with ⟨-, rfl⟩ | ⟨hctl, bs, hp⟩
    · simp at hl
    · have hp' := hp.store hl hm
      refine ⟨Or.inr ⟨hctl, bs, hp'⟩, fun p hheld => ?_⟩
      obtain ⟨k, hk, rfl⟩ := hheld
      obtain ⟨d, hd, -, hptr, hsz⟩ := hp.block hk
      obtain ⟨f, hrep'⟩ := hp'.rep
      refine (?_ : blockSize _ (ptrToBlock k.ptr) = d.size).trans hsz.symm
      rw [hptr, ptrToBlock_add]
      exact hrep'.headers.size_of_mem (List.mem_append_left _ hd)

end Tlsf

end VibeRtos
