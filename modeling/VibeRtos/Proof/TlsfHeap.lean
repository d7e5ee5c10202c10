import VibeRtos.Proof.HeapApi
import VibeRtos.Proof.TlsfPool

/-!
# TLSF keeps its pool in order

`PoolInv c mem live bs` ties the memory to the grants that are live: the headers describe
the blocks `bs` and the sentinel behind them, the free lists hold exactly the blocks that
are not in use, and the others serve the live grants. The IS_FREE flag alone does not say
which blocks are listed: the rest of a block that was cut is listed without it.
-/

namespace VibeRtos

open ByteMem Bits Links Tiling Runs

namespace Tlsf

/-- The sentinel at the end of the pool: it has no payload and is never free. -/
def sentinel (c : HeapConfig) : TBlock := ⟨c.pool + c.size - 8, 0, ⟨some 0, false⟩⟩

/-- The grants the blocks in use serve. -/
def grants (bs : List TBlock) : List Grant :=
  bs.filterMap fun b => b.tag.req.map fun r => ⟨b.addr + 8, r⟩

/-- The pool after its initialisation: `bs` are its blocks and `live` the grants. -/
structure PoolInv (c : TlsfConfig) (mem : Mem) (live : List Grant) (bs : List TBlock) : Prop where
  rep : ∃ f, Rep c mem (bs ++ [sentinel c.toHeapConfig]) bs f
  flag : ∀ b ∈ bs, b.tag.isFree = true → b.tag.req = none
  live : live.Perm (grants bs)
  room : ∀ b ∈ bs, ∀ r, b.tag.req = some r → r ≤ b.size

/-- The allocator before and after its initialisation. -/
def TlsfInv (c : TlsfConfig) (st : TlsfState) (live : List Grant) : Prop :=
  st.ctl = 0 ∧ live = [] ∨ st.ctl = c.pool ∧ ∃ bs, PoolInv c st.mem live bs

variable {c : TlsfConfig} {mem mem' : Mem} {st : TlsfState} {live : List Grant}
  {xs ys zs fs bs : List TBlock} {b d : TBlock} {f : Nat × Nat → List Nat} {n r : Nat}

theorem grants_append : grants (xs ++ ys) = grants xs ++ grants ys := by
  simp [grants]

theorem grants_cons_free (hb : b.tag.req = none) : grants (b :: ys) = grants ys := by
  simp [grants, hb]

theorem grants_cons_live (hb : b.tag.req = some r) :
    grants (b :: ys) = ⟨b.addr + 8, r⟩ :: grants ys := by
  simp [grants, hb]

/-- What is told of the grants can be told of their blocks. -/
theorem map_grants {β : Type} {g : Grant → β} {g' : TBlock → β} {bs : List TBlock}
    (h : ∀ b ∈ bs, ∀ r, b.tag.req = some r → g ⟨b.addr + 8, r⟩ = g' b) :
    (grants bs).map g = (liveBlocks bs).map g' := by
  induction bs with
  | nil => rfl
  | cons b bs ih =>
      have hrest := ih fun d hd => h d (List.mem_cons_of_mem _ hd)
      cases hb : b.tag.req with
      | none => rw [grants_cons_free hb, liveBlocks_cons_free hb, hrest]
      | some r =>
          rw [grants_cons_live hb, liveBlocks_cons_live hb, List.map_cons, List.map_cons, hrest,
            h b List.mem_cons_self r hb]

/-! ## Serving a request -/

/-- What `vibe_heap_alloc` does with the block it has found. -/
def takeBlock (mem : Mem) (ctl blk size : Nat) : Mem :=
  let mem := freeListRemove mem ctl blk
  let remSize := sub32 (blockSize mem blk) size
  let mem :=
    if remSize ≥ blockHdrOffset + blockPayloadMin then
      let split := blockSplit mem blk size
      freeListInsert (blockSetPrevUsed split.1 split.2) ctl split.2
    else mem
  let mem := blockSetUsed mem blk
  let mem := blockSetPrevFree mem (blockNext mem blk)
  blockSetPrevUsed mem (blockNext mem blk)

/-- The flags are set last: the block is in use, and the next one knows. -/
theorem serve_rep (h : Rep c mem (xs ++ b :: zs) fs f) (hz : zs ≠ [])
    (hsub : fs.Sublist (xs ++ zs)) (r : Nat) {m₁ m₂ : Mem} (hm₁ : m₁ = blockSetUsed mem b.addr)
    (hm₂ : m₂ = blockSetPrevFree m₁ (blockNext m₁ b.addr)) :
    Rep c (blockSetPrevUsed m₂ (blockNext m₂ b.addr))
        (xs ++ ⟨b.addr, b.size, ⟨some r, false⟩⟩ :: zs) fs f
      ∧ PayloadsKept (liveBlocks fs) mem (blockSetPrevUsed m₂ (blockNext m₂ b.addr)) := by
  obtain ⟨y, zs, rfl⟩ := List.exists_cons_of_ne_nil hz
  have hused := h.headers.setUsed_step
  rw [← hm₁] at hused
  obtain ⟨h₁, hk₁⟩ := h.header_step hused (hsub.trans sublist_middle)
  have hnext₁ := h₁.headers.blockNext_eq
  simp only at hnext₁
  have hfree := h₁.headers.setPrevFree_step
  rw [← hnext₁, ← hm₂] at hfree
  obtain ⟨h₂, hk₂⟩ := h₁.header_step hfree (hsub.trans sublist_middle)
  have hnext₂ := h₂.headers.blockNext_eq
  simp only at hnext₂
  have hprev := h₂.headers.setPrevUsed_step r
  rw [← hnext₂] at hprev
  obtain ⟨h₃, hk₃⟩ := h₂.header_step hprev (hsub.trans sublist_middle)
  exact ⟨h₃, (hk₁.trans hk₂).trans hk₃⟩

/-- A block that is in use joins the others. -/
theorem Rep.add_live (h : Rep c mem (xs ++ b :: zs) (xs ++ ys) f) (hb : b.tag.req ≠ none)
    (h8 : 8 ≤ b.size) (hsub : ys.Sublist zs) : Rep c mem (xs ++ b :: zs) (xs ++ b :: ys) f :=
  ⟨(listing_live hb h8 ((List.Sublist.refl xs).append (hsub.cons_cons b))).mpr h.toListing,
    h.headers, h.lists⟩

/-- A block that is in use is set aside. -/
theorem Rep.drop_live (h : Rep c mem zs (xs ++ b :: ys) f) (hb : b.tag.req ≠ none) :
    Rep c mem zs (xs ++ ys) f :=
  ⟨(listing_live hb (h.least b (by simp)) h.sub).mp h.toListing, h.headers, h.lists⟩

/-- **A found block** is taken off its list, cut if there is enough left, and marked. -/
theorem takeBlock_rep
    (h : Rep c mem (xs ++ b :: (ys ++ [sentinel c.toHeapConfig])) (xs ++ b :: ys) f)
    (hreq : b.tag.req = none) (hn : n ≤ b.size) (h8n : 8 ∣ n) (hpos : 8 ≤ n) (r : Nat) :
    ∃ s rest g, n ≤ s ∧ (∀ d ∈ rest, d.tag = ⟨none, false⟩) ∧ rest.length ≤ 1
      ∧ Rep c (takeBlock mem c.pool b.addr n)
        (xs ++ ⟨b.addr, s, ⟨some r, false⟩⟩ :: (rest ++ ys ++ [sentinel c.toHeapConfig]))
        (xs ++ ⟨b.addr, s, ⟨some r, false⟩⟩ :: (rest ++ ys)) g
      ∧ PayloadsKept (liveBlocks (xs ++ ys)) mem (takeBlock mem c.pool b.addr n) := by
  have hb : b ∈ xs ++ b :: (ys ++ [sentinel c.toHeapConfig]) := by simp
  have hlim := h.headers.bounds hb
  have h8 := h.headers.aligned b hb
  obtain ⟨g, hrem, hk⟩ := h.remove hreq
  have hsize := hrem.headers.size_of_mem hb
  have hrest : sub32 (blockSize (freeListRemove mem c.pool b.addr) b.addr) n = b.size - n := by
    rw [hsize]
    exact sub32_eq hn (by omega)
  have hbehind : ys.Sublist (ys ++ [sentinel c.toHeapConfig]) := List.sublist_append_left _ _
  unfold takeBlock
  dsimp only
  rw [hrest]
  by_cases hcut : b.size - n ≥ blockHdrOffset + blockPayloadMin
  · rw [if_pos hcut]
    unfold blockHdrOffset blockPayloadMin at hcut
    obtain ⟨y, zs, hyz⟩ : ∃ y zs, ys ++ [sentinel c.toHeapConfig] = y :: zs :=
      List.exists_cons_of_ne_nil (by simp)
    have hheaders := hrem.headers
    rw [hyz] at hheaders
    obtain ⟨hres, hstep⟩ := hheaders.split_step hreq (by omega) h8n r
    rw [← hyz] at hstep
    obtain ⟨hsplit, hk'⟩ := hrem.header_step hstep
      ((List.Sublist.refl xs).append ((hbehind.cons _).cons _))
    rw [hres] at hsplit hk' ⊢
    -- the residual block goes on a list, without its IS_FREE flag
    obtain ⟨g', hins, hk'', -⟩ :=
      hsplit.insert (b := ⟨b.addr + 8 + n, b.size - n - 8, ⟨none, false⟩⟩)
      rfl (by simp only; omega) ((List.Sublist.refl xs).append ((hbehind.cons_cons _).cons _))
    have hlive : liveBlocks (xs ++ ⟨b.addr + 8 + n, b.size - n - 8, ⟨none, false⟩⟩ :: ys)
        = liveBlocks (xs ++ ys) := by
      rw [liveBlocks_append, liveBlocks_append, liveBlocks_cons_free rfl]
    obtain ⟨hrep, hkept⟩ := serve_rep hins (by simp)
      ((List.Sublist.refl xs).append (hbehind.cons_cons _)) r rfl rfl
    rw [hlive] at hkept
    refine ⟨n, [⟨b.addr + 8 + n, b.size - n - 8, ⟨none, false⟩⟩], g', le_rfl, by simp, by simp, ?_,
      ((hk.trans hk').trans hk'').trans hkept⟩
    exact hrep.add_live (by simp) hpos (hbehind.cons_cons _)
  · rw [if_neg hcut]
    obtain ⟨hrep, hkept⟩ :=
      serve_rep hrem (by simp) ((List.Sublist.refl xs).append hbehind) r rfl rfl
    refine ⟨b.size, [], g, hn, by simp, by simp, ?_, hk.trans hkept⟩
    exact hrep.add_live (by simp) (hpos.trans hn) hbehind

/-! ## Giving a block back -/

/-- A block that is on a free list. -/
def IsListed (b : TBlock) : Prop := b.tag.req = none

/-- What `vibe_heap_free` does with a block in use. -/
def giveBlock (mem : Mem) (ctl blk : Nat) : Mem :=
  let mem := blockSetFree mem blk
  let merged := mergePrev mem ctl blk
  let merged := mergeNext merged.1 ctl merged.2
  let mem := blockSetPrevFree merged.1 (blockNext merged.1 merged.2)
  freeListInsert mem ctl merged.2

/-- The branch of `merge_prev` that merges. -/
theorem mergePrev_eq (ctl : Nat) {blk w : Nat} (hfree : blockPrevIsFree mem blk)
    (haddr : prevPhys mem blk = w) : ∃ m, m = setSizeFlags (freeListRemove mem ctl w) w
        ((sizeFlags (freeListRemove mem ctl w) w &&& not32 blockSizeMask)
          ||| (blockSize (freeListRemove mem ctl w) w + blockHdrOffset
            + blockSize (freeListRemove mem ctl w) blk))
      ∧ mergePrev mem ctl blk = (setPrevPhys m (blockNext m w) w, w) := by
  refine ⟨_, rfl, ?_⟩
  unfold mergePrev
  rw [if_pos hfree]
  dsimp only
  rw [haddr]

/-- The branch of `merge_next` that merges. -/
theorem mergeNext_eq (ctl : Nat) {blk y : Nat} (hnext : blockNext mem blk = y)
    (hfree : blockIsFree mem y) :
    ∃ m, m = blockSetSize (freeListRemove mem ctl y) blk
        (blockSize (freeListRemove mem ctl y) blk + blockHdrOffset
          + blockSize (freeListRemove mem ctl y) y)
      ∧ mergeNext mem ctl blk = (setPrevPhys m (blockNext m blk) blk, blk) := by
  refine ⟨_, rfl, ?_⟩
  unfold mergeNext
  dsimp only
  rw [hnext, if_pos hfree]

/-- Merging with the block in front, which PREV_FREE tells to be on a list. -/
theorem mergePrev_rep (h : Rep c mem (xs ++ b :: (ys ++ [sentinel c.toHeapConfig])) (xs ++ ys) f)
    (hb : b.tag.req = some r) : ∃ ws d g, (mergePrev mem c.pool b.addr).2 = d.addr
      ∧ d.tag.req = some r ∧ b.size ≤ d.size
      ∧ Rep c (mergePrev mem c.pool b.addr).1 (ws ++ d :: (ys ++ [sentinel c.toHeapConfig]))
        (ws ++ ys) g
      ∧ liveBlocks ws = liveBlocks xs ∧ ws ⊆ xs
      ∧ (Merged IsListed xs → Merged IsListed ws ∧ ∀ w ∈ ws.getLast?, ¬ IsListed w)
      ∧ PayloadsKept (liveBlocks (xs ++ ys)) mem (mergePrev mem c.pool b.addr).1 := by
  have hprev := h.headers.prevIsFree_iff
  rcases List.eq_nil_or_concat' xs with rfl | ⟨ws, w, rfl⟩
  · have hsame : mergePrev mem c.pool b.addr = (mem, b.addr) := if_neg (by simp [hprev, prevIsFree])
    rw [hsame]
    exact ⟨[], b, f, rfl, hb, le_rfl, h, rfl, fun _ hw => hw, fun hm => ⟨hm, by simp⟩, .refl⟩
  · by_cases hw : w.tag.req = none
    · have hfree : blockPrevIsFree mem b.addr := by
        rw [hprev, List.getLast?_concat]
        simp [prevIsFree, hw]
      have haddr : prevPhys mem b.addr = w.addr := by
        have hp := h.headers.header.prev
        rwa [List.getLast?_concat] at hp
      have h' : Rep c mem (ws ++ w :: b :: (ys ++ [sentinel c.toHeapConfig]))
        (ws ++ w :: ys) f := by
        simpa using h
      obtain ⟨g, hrem, hk⟩ := h'.remove hw
      obtain ⟨y, zs, hyz⟩ : ∃ y zs, ys ++ [sentinel c.toHeapConfig] = y :: zs :=
        List.exists_cons_of_ne_nil (by simp)
      have hheaders := hrem.headers
      rw [hyz] at hheaders
      obtain ⟨m, hm, hresult⟩ := mergePrev_eq c.pool hfree haddr
      have hstep := hheaders.joinPrev_step hm
      rw [← hyz] at hstep
      obtain ⟨hrep, hk'⟩ := hrem.header_step hstep
        ((List.Sublist.refl ws).append ((List.sublist_append_left _ _).cons _))
      have hlive : liveBlocks (ws ++ [w]) = liveBlocks ws := by
        rw [liveBlocks_append, liveBlocks_cons_free hw]
        exact List.append_nil _
      rw [hresult]
      refine ⟨ws, ⟨w.addr, w.size + (8 + b.size), ⟨b.tag.req, w.tag.isFree⟩⟩, g, rfl, hb, ?_, hrep,
        hlive.symm, List.subset_append_left _ _, fun hm => ?_, ?_⟩
      · simp only
        omega
      · obtain ⟨hws, -, hlast⟩ := merged_middle.mp hm
        exact ⟨hws, (hlast hw).1⟩
      · rw [liveBlocks_append, hlive, ← liveBlocks_append]
        exact hk.trans hk'
    · have hsame : mergePrev mem c.pool b.addr = (mem, b.addr) := by
        refine if_neg ?_
        rw [hprev, List.getLast?_concat]
        simpa [prevIsFree] using hw
      rw [hsame]
      refine ⟨ws ++ [w], b, f, rfl, hb, le_rfl, h, rfl, fun _ hw => hw, fun hm => ⟨hm, ?_⟩, .refl⟩
      simpa [IsListed] using hw

/-- Merging with the block behind, if its own IS_FREE flag is set. -/
theorem mergeNext_rep (h : Rep c mem (xs ++ b :: (ys ++ [sentinel c.toHeapConfig])) (xs ++ ys) f)
    (hflag : ∀ y ∈ ys, y.tag.isFree = true → IsListed y) : ∃ vs d g,
      (mergeNext mem c.pool b.addr).2 = d.addr ∧ b.size ≤ d.size
      ∧ Rep c (mergeNext mem c.pool b.addr).1 (xs ++ d :: (vs ++ [sentinel c.toHeapConfig]))
        (xs ++ vs) g
      ∧ liveBlocks vs = liveBlocks ys ∧ vs ⊆ ys
      ∧ (Merged IsListed ys → Merged IsListed vs ∧ ((∀ v ∈ vs.head?, ¬ IsListed v)
        ↔ ∀ y ∈ ys.head?, IsListed y → y.tag.isFree = true))
      ∧ PayloadsKept (liveBlocks (xs ++ ys)) mem (mergeNext mem c.pool b.addr).1 := by
  cases ys with
  | nil =>
      have hnext := h.headers.blockNext_eq
      have hs : Headers c.toHeapConfig mem ((xs ++ [b]) ++ sentinel c.toHeapConfig :: []) := by
        simpa using h.headers
      have hsame : mergeNext mem c.pool b.addr = (mem, b.addr) := by
        unfold mergeNext
        dsimp only
        rw [hnext, if_neg (by rw [hs.isFree_iff]; simp [sentinel])]
      rw [hsame]
      exact ⟨[], b, f, rfl, le_rfl, h, rfl, fun _ hv => hv, fun hm => ⟨hm, by simp⟩, .refl⟩
  | cons y vs =>
      have hnext := h.headers.blockNext_eq
      have hs : Headers c.toHeapConfig mem
        ((xs ++ [b]) ++ y :: (vs ++ [sentinel c.toHeapConfig])) := by
        simpa using h.headers
      by_cases hy : y.tag.isFree = true
      · have hlisted : IsListed y := hflag y List.mem_cons_self hy
        obtain ⟨g, hrem, hk⟩ := h.remove hlisted
        obtain ⟨z, zs, hyz⟩ : ∃ z zs, vs ++ [sentinel c.toHeapConfig] = z :: zs :=
          List.exists_cons_of_ne_nil (by simp)
        have hheaders := hrem.headers
        rw [List.cons_append, hyz] at hheaders
        obtain ⟨m, hm, hresult⟩ := mergeNext_eq c.pool hnext (hs.isFree_iff.mpr hy)
        have hstep := hheaders.joinNext_step hm
        rw [← hyz] at hstep
        obtain ⟨hrep, hk'⟩ := hrem.header_step hstep
          ((List.Sublist.refl xs).append ((List.sublist_append_left _ _).cons _))
        rw [hresult]
        refine ⟨vs, ⟨b.addr, b.size + (8 + y.size), ⟨y.tag.req, b.tag.isFree⟩⟩, g, rfl, ?_, hrep,
          (liveBlocks_cons_free hlisted).symm, List.subset_cons_self _ _, fun hm => ?_, ?_⟩
        · simp only
          omega
        · obtain ⟨hhead, hvs⟩ := List.isChain_cons.mp hm
          refine ⟨hvs, iff_of_true (fun v hv hl => hhead v hv ⟨hlisted, hl⟩) ?_⟩
          simpa using fun _ => hy
        · rw [liveBlocks_append, liveBlocks_cons_free hlisted, ← liveBlocks_append]
          exact hk.trans hk'
      · have hsame : mergeNext mem c.pool b.addr = (mem, b.addr) := by
          unfold mergeNext
          dsimp only
          rw [hnext, if_neg (by rw [hs.isFree_iff]; exact hy)]
        rw [hsame]
        refine ⟨y :: vs, b, f, rfl, le_rfl, h, rfl, fun _ hv => hv, fun hm => ⟨hm, ?_⟩, .refl⟩
        simp [hy]

/-- **A block given back** is merged with its neighbours and put on a list. The pool stays merged
exactly when the IS_FREE flag of the next block tells whether it is listed. -/
theorem giveBlock_rep
    (h : Rep c mem (xs ++ b :: (ys ++ [sentinel c.toHeapConfig])) (xs ++ b :: ys) f)
    (hb : b.tag.req = some r) (hflag : ∀ d ∈ xs ++ ys, d.tag.isFree = true → IsListed d) :
    ∃ bs g, Rep c (giveBlock mem c.pool b.addr) (bs ++ [sentinel c.toHeapConfig]) bs g
      ∧ liveBlocks bs = liveBlocks (xs ++ ys)
      ∧ (∀ d ∈ bs, d.tag.isFree = true → IsListed d)
      ∧ (∀ d ∈ bs, d ∈ xs ++ ys ∨ IsListed d)
      ∧ (Merged IsListed (xs ++ b :: ys) → (Merged IsListed bs
        ↔ ∀ y ∈ ys.head?, IsListed y → y.tag.isFree = true))
      ∧ PayloadsKept (liveBlocks (xs ++ ys)) mem (giveBlock mem c.pool b.addr) := by
  have hbehind : ∀ {zs : List TBlock}, zs.Sublist (zs ++ [sentinel c.toHeapConfig]) :=
    List.sublist_append_left _ _
  have h8 := h.least b (by simp)
  have h₀ := h.drop_live (by simp [hb])
  obtain ⟨y, zs, hyz⟩ : ∃ y zs, ys ++ [sentinel c.toHeapConfig] = y :: zs :=
    List.exists_cons_of_ne_nil (by simp)
  have hheaders := h₀.headers
  rw [hyz] at hheaders
  have hfree := hheaders.setFree_step
  rw [← hyz] at hfree
  obtain ⟨h₁, hk₁⟩ := h₀.header_step hfree ((List.Sublist.refl xs).append (hbehind.cons _))
  obtain ⟨ws, d, g, hd, hdr, hds, h₂, hlive, hws, hmw, hk₂⟩ := mergePrev_rep h₁ hb
  simp only at hd hds h₂ hk₂
  obtain ⟨vs, e, g', he, hes, h₃, hlive', hvs, hmv, hk₃⟩ := mergeNext_rep h₂
    fun y hy => hflag y (List.mem_append_right _ hy)
  obtain ⟨y', zs', hyz'⟩ : ∃ y zs, vs ++ [sentinel c.toHeapConfig] = y :: zs :=
    List.exists_cons_of_ne_nil (by simp)
  have hheaders' := h₃.headers
  rw [hyz'] at hheaders'
  have hset := hheaders'.setPrevFree_step
  rw [← hheaders'.blockNext_eq, ← hyz'] at hset
  obtain ⟨h₄, hk₄⟩ := h₃.header_step hset ((List.Sublist.refl ws).append (hbehind.cons _))
  obtain ⟨g'', h₅, hk₅, -⟩ := h₄.insert (b := ⟨e.addr, e.size, ⟨none, e.tag.isFree⟩⟩) rfl
    (h8.trans (hds.trans hes)) ((List.Sublist.refl ws).append (hbehind.cons_cons _))
  have hgive : giveBlock mem c.pool b.addr = freeListInsert (blockSetPrevFree
      (mergeNext (mergePrev (blockSetFree mem b.addr) c.pool b.addr).1 c.pool d.addr).1
      (blockNext (mergeNext (mergePrev (blockSetFree mem b.addr) c.pool b.addr).1 c.pool d.addr).1
        e.addr)) c.pool e.addr := by
    unfold giveBlock
    dsimp only
    rw [hd, he]
  have hlive₁ : liveBlocks (ws ++ ys) = liveBlocks (xs ++ ys) := by
    rw [liveBlocks_append, hlive, ← liveBlocks_append]
  have hlive₂ : liveBlocks (ws ++ vs) = liveBlocks (xs ++ ys) := by
    rw [liveBlocks_append, hlive', ← liveBlocks_append, hlive₁]
  rw [hlive₁] at hk₃
  rw [hlive₂] at hk₄ hk₅
  have hmem : ∀ d ∈ ws ++ ⟨e.addr, e.size, ⟨none, e.tag.isFree⟩⟩ :: vs,
      d ∈ xs ++ ys ∨ IsListed d := by
    intro d hd
    rcases mem_middle.mp hd with rfl | hd
    · exact Or.inr rfl
    · exact Or.inl (List.mem_append.mpr
        ((List.mem_append.mp hd).imp (fun hw => hws hw) fun hv => hvs hv))
  rw [hgive]
  refine ⟨ws ++ ⟨e.addr, e.size, ⟨none, e.tag.isFree⟩⟩ :: vs, g'', by simpa using h₅, ?_,
    fun d hd hf => ?_, hmem, fun hm => ?_, (((hk₁.trans hk₂).trans hk₃).trans hk₄).trans hk₅⟩
  · rw [liveBlocks_append, liveBlocks_cons_free rfl, ← liveBlocks_append, hlive₂]
  · exact (hmem d hd).elim (fun hd => hflag d hd hf) id
  · obtain ⟨hxs, hys, -⟩ := merged_middle.mp hm
    obtain ⟨hmws, hlast⟩ := hmw hxs
    obtain ⟨hmvs, hiff⟩ := hmv hys
    rw [← hiff, merged_middle]
    constructor
    · rintro ⟨-, -, hsides⟩
      exact (hsides rfl).2
    · intro hhead
      exact ⟨hmws, hmvs, fun _ => ⟨hlast, hhead⟩⟩

/-! ## The fresh pool -/

/-- The block `tlsf_init` creates. -/
def mainBlock (c : HeapConfig) : TBlock := ⟨c.pool + 744, c.size - 760, ⟨none, true⟩⟩

/-- Storing one value into the heads `ks`. -/
theorem foldl_setFreeHead (ctl : Nat) {v : Nat} (hv : v < 2 ^ 32) :
    ∀ {ks : List (Nat × Nat)} (mem : Mem), (∀ k ∈ ks, InRange k) →
    (∀ k, InRange k → k ∈ ks ∨ freeHead mem ctl k.1 k.2 = v →
      freeHead (ks.foldl (fun m k => setFreeHead m v ctl k.1 k.2) mem) ctl k.1 k.2 = v)
    ∧ ∀ x, x < ctl + 84 ∨ ctl + 724 ≤ x →
      ks.foldl (fun m k => setFreeHead m v ctl k.1 k.2) mem x = mem x := by
  intro ks
  induction ks with
  | nil =>
      intro mem _
      exact ⟨fun k _ hk => hk.resolve_left (by simp), fun _ _ => rfl⟩
  | cons k₀ ks ih =>
      intro mem hks
      have hk₀ : k₀.1 < 20 ∧ k₀.2 < 8 := hks k₀ List.mem_cons_self
      obtain ⟨hheads, hframe⟩ := ih (setFreeHead mem v ctl k₀.1 k₀.2)
        fun k hk => hks k (List.mem_cons_of_mem _ hk)
      refine ⟨fun k hk hor => hheads k hk ?_, fun x hx => (hframe x hx).trans ?_⟩
      · have hk' : k.1 < 20 ∧ k.2 < 8 := hk
        by_cases he : k = k₀
        · subst he
          exact Or.inr (read32_write32_eq hv)
        · refine (hor.imp_left fun hin =>
            (List.mem_cons.mp hin).resolve_left he).imp_right fun hold => ?_
          refine (read32_write32_ne ?_).trans hold
          have hne : k.1 ≠ k₀.1 ∨ k.2 ≠ k₀.2 := by
            by_contra hsame
            exact he (Prod.ext (by omega) (by omega))
          unfold slIndexCount
          omega
      · refine write32_frame ?_
        unfold slIndexCount
        omega

/-- After the loops of `tlsf_init` every list is empty. -/
theorem initFree_spec {ctl : Nat} (mem : Mem) (hctl : ctl + 744 < 2 ^ 32) :
    (∀ k, InRange k → freeHead (initFree mem ctl) ctl k.1 k.2 = nullBlock ctl)
      ∧ ∀ x, x < ctl + 84 ∨ ctl + 724 ≤ x → initFree mem ctl x = mem x := by
  have hloop : initFree mem ctl
      = classes.foldl (fun m k => setFreeHead m (nullBlock ctl) ctl k.1 k.2) mem := by
    rw [classes, List.foldl_flatMap]
    simp only [List.foldl_map]
    rfl
  rw [hloop]
  obtain ⟨hheads, hframe⟩ := foldl_setFreeHead ctl
    (show nullBlock ctl < 2 ^ 32 by unfold nullBlock; omega) mem fun k hk => mem_classes.mp hk
  exact ⟨fun k hk => hheads k hk (Or.inl (mem_classes.mpr hk)), hframe⟩

/-- The control structure after the first steps of `tlsf_init`. -/
theorem initLists {ctl : Nat} (hctl : ctl + 744 < 2 ^ 32) {m : Mem} (hm : m = initFree
    (setSizeFlags (setPrevFree (setNextFree (fill mem ctl ctlSize 0) (nullBlock ctl)
      (nullBlock ctl)) (nullBlock ctl) (nullBlock ctl)) (nullBlock ctl) 0) ctl) :
    Lists m ctl fun _ => [] := by
  obtain ⟨hheads, hframe⟩ := initFree_spec (setSizeFlags (setPrevFree (setNextFree
    (fill mem ctl ctlSize 0) (nullBlock ctl) (nullBlock ctl)) (nullBlock ctl) (nullBlock ctl))
    (nullBlock ctl) 0) hctl
  rw [← hm] at hheads hframe
  -- the bitmaps lie in front of the heads, and are still clear
  have hzero : ∀ i ≤ 20, read32 m (ctl + 4 * i) = 0 := by
    intro i hi
    have hsame : read32 m (ctl + 4 * i) = read32 (fill mem ctl ctlSize 0) (ctl + 4 * i) := by
      refine read32_congr fun n hn => (hframe _ (by omega)).trans ?_
      simp (disch := (unfold nullBlock; omega)) only [setSizeFlags, setPrevFree, setNextFree,
        write32_frame]
    have hbyte : ∀ n < 4, fill mem ctl ctlSize 0 (ctl + 4 * i + n) = 0 := by
      intro n hn
      unfold fill ctlSize
      rw [if_pos (by omega)]
    have h0 := hbyte 0 (by omega)
    rw [hsame, read32, hbyte 1 (by omega), hbyte 2 (by omega), hbyte 3 (by omega)]
    rw [Nat.add_zero] at h0
    rw [h0]
    rfl
  refine ⟨fun _ => trivial, fun k hk => ?_, fun i hi j => ?_, fun i => ?_⟩
  · rw [hheads k hk, nullable_null]
    rfl
  · have hi' : i < 20 := hi
    have hz := hzero (i + 1) (by omega)
    rw [slBitmap, show ctl + 4 + 4 * i = ctl + 4 * (i + 1) by omega, hz]
    simp
  · have hz := hzero 0 (by omega)
    rw [flBitmap, ← Nat.add_zero ctl, hz]
    simp

/-- What the control structure, the header and the sentinel leave of the pool. -/
theorem tlsfInit_size (c : TlsfConfig) :
    sub32 (sub32 (sub32 (c.pool + c.size) (c.pool + 744)) blockHdrOffset) blockHdrOffset
      = c.size - 760 := by
  have hfits := c.fits
  have hlarge := c.large
  have hone : sub32 (c.pool + c.size) (c.pool + 744) = c.size - 744 :=
    (sub32_eq (by omega) hfits).trans (by omega)
  have htwo : sub32 (c.size - 744) blockHdrOffset = c.size - 752 :=
    (sub32_eq (b := 8) (by omega) (by omega)).trans (by omega)
  have hthree : sub32 (c.size - 752) blockHdrOffset = c.size - 760 :=
    (sub32_eq (b := 8) (by omega) (by omega)).trans (by omega)
  rw [hone, htwo, hthree]

/-- The header words of the main block and of the sentinel, as `tlsf_init` writes them. -/
theorem tlsfInit_headers (c : TlsfConfig) {m m' : Mem}
    (hm' : m' = setPrevPhys (setPrevPhys (setSizeFlags (setPrevPhys
      (setSizeFlags m (c.pool + c.size - 8) prevFreeBit) (c.pool + c.size - 8) 0) (c.pool + 744)
      (c.size - 760 + flags true false)) (c.pool + 744) 0) (c.pool + c.size - 8) (c.pool + 744)) :
    Headers c.toHeapConfig (setSizeFlags m' (c.pool + c.size - 8) (0 + flags false true))
      ([mainBlock c.toHeapConfig] ++ [sentinel c.toHeapConfig]) := by
  have hfits := c.fits
  have hlarge := c.large
  have h8 := c.multiple
  have hflags := flags_lt true false
  have hstart : poolStart c.pool = c.pool + 744 := rfl
  refine ⟨⟨rfl, ?_, ?_⟩, ⟨⟨?_, ?_⟩, ⟨?_, ?_⟩, trivial⟩, ?_⟩
  · simp only [mainBlock, sentinel, hstart, blockHdrOffset]
    omega
  · simp only [Tiles, mainBlock, sentinel, hstart, blockHdrOffset]
    omega
  · simp (disch := omega) only [hm', mainBlock, prevPhys, setPrevPhys, setSizeFlags,
      read32_write32_ne, read32_write32_eq]
    rfl
  · simp (disch := omega) only [hm', mainBlock, sizeFlags, setPrevPhys, setSizeFlags,
      read32_write32_ne, read32_write32_eq]
    rfl
  · simp (disch := omega) only [hm', sentinel, prevPhys, setPrevPhys, setSizeFlags,
      read32_write32_ne, read32_write32_eq]
    rfl
  · exact read32_write32_eq (by decide)
  · intro d hd
    rcases List.mem_cons.mp hd with rfl | hd
    · simp only [mainBlock]
      omega
    · obtain rfl := List.mem_singleton.mp hd
      exact Nat.dvd_zero 8

/-- **The fresh pool** is one free block, and nothing around the pool is written. -/
theorem tlsfInit_rep (c : TlsfConfig) (mem : Mem) :
    (∃ f, Rep c (tlsfInit c.toHeapConfig mem)
        ([mainBlock c.toHeapConfig] ++ [sentinel c.toHeapConfig]) [mainBlock c.toHeapConfig] f)
      ∧ ∀ x, x < c.pool ∨ c.pool + c.size ≤ x → tlsfInit c.toHeapConfig mem x = mem x := by
  have hfits := c.fits
  have hlarge := c.large
  have h8 := c.multiple
  have hstart : poolStart c.pool = c.pool + 744 := rfl
  unfold tlsfInit
  dsimp only
  obtain ⟨m, hm⟩ : ∃ m, m = initFree (setSizeFlags (setPrevFree (setNextFree
      (fill mem c.pool ctlSize 0) (nullBlock c.pool) (nullBlock c.pool)) (nullBlock c.pool)
      (nullBlock c.pool)) (nullBlock c.pool) 0) c.pool := ⟨_, rfl⟩
  have hlists := initLists (by omega) hm
  rw [← hm, hstart]
  have hword : c.size - 760 ||| isFreeBit = c.size - 760 + flags true false := by
    have h4 : 4 ∣ c.size - 760 := by omega
    rw [show isFreeBit = flags true false from rfl, Nat.or_comm]
    exact flags_or_size h4
  rw [tlsfInit_size, hword, show c.pool + c.size - blockHdrOffset = c.pool + c.size - 8 from rfl]
  obtain ⟨m', hm'⟩ : ∃ m', m' = setPrevPhys (setPrevPhys (setSizeFlags (setPrevPhys
      (setSizeFlags m (c.pool + c.size - 8) prevFreeBit) (c.pool + c.size - 8) 0) (c.pool + 744)
      (c.size - 760 + flags true false)) (c.pool + 744) 0) (c.pool + c.size - 8) (c.pool + 744) :=
    ⟨_, rfl⟩
  have hsent : sizeFlags m' (c.pool + c.size - 8) = 0 + flags false true := by
    rw [hm']
    simp (disch := omega) only [sizeFlags, setPrevPhys, setSizeFlags, read32_write32_ne]
    exact read32_write32_eq (by decide)
  rw [← hm', blockSetPrevFree_eq hsent (by decide)]
  have hheaders := tlsfInit_headers c hm'
  have hrep : Rep c (setSizeFlags m' (c.pool + c.size - 8) (0 + flags false true))
      ([mainBlock c.toHeapConfig] ++ [sentinel c.toHeapConfig]) ([] ++ []) fun _ => [] := by
    refine ⟨⟨List.nil_sublist _, by simp, by simp, by simp⟩, hheaders, hlists.congr fun x hx => ?_⟩
    have hlow : x < c.pool + 744 := by
      rcases hx with ⟨-, hx⟩ | ⟨k, a, ha, -⟩
      · exact hx
      · simp at ha
    rw [hm']
    simp (disch := omega) only [setPrevPhys, setSizeFlags, write32_frame]
  obtain ⟨f, hf, -, hframe⟩ := hrep.insert (b := mainBlock c.toHeapConfig) rfl
    (by simp only [mainBlock]; omega) (by simp)
  refine ⟨⟨f, hf⟩, fun x hx => (hframe x fun hlb => ?_).trans ?_⟩
  · have hin := hf.listByte_inside hlb
    omega
  · rw [hm']
    simp (disch := omega) only [setPrevPhys, setSizeFlags, write32_frame]
    rw [hm, (initFree_spec _ (by omega)).2 x (by omega)]
    simp (disch := (unfold nullBlock; omega)) only [setSizeFlags, setPrevFree, setNextFree,
      write32_frame]
    unfold fill ctlSize
    rw [if_neg (by omega)]

theorem tlsfInit_inv (c : TlsfConfig) (mem : Mem) :
    PoolInv c (tlsfInit c.toHeapConfig mem) [] [mainBlock c.toHeapConfig] :=
  ⟨(tlsfInit_rep c mem).1, by simp [mainBlock], .refl _, by simp [mainBlock]⟩

end Tlsf

end VibeRtos
