import VibeRtos.Proof.HdrChain
import VibeRtos.Proof.HeapApi

/-!
# First fit and best fit keep their pool in order

`PoolInv c st live bs` ties the state of the allocator to the grants that are live: the
headers describe the blocks `bs`, no two FREE blocks are neighbours, the USED blocks are
the live grants, and the counters count them. Allocating turns one FREE block into a
USED one and perhaps a FREE rest; freeing turns a USED block into a FREE one and merges
it with its neighbours.
-/

namespace VibeRtos

open ByteMem Links Tiling Runs

/-- Giving up a pointer takes exactly its grant out. -/
theorem release_perm {live gs hs : List Grant} {g : Grant} (h : live.Perm (gs ++ g :: hs))
    (hnd : (live.map Grant.ptr).Nodup) : (release live g.ptr).Perm (gs ++ hs) := by
  have hnd' := (h.map Grant.ptr).nodup_iff.mp hnd
  rw [List.map_append, List.map_cons] at hnd'
  obtain ⟨-, hcons, hdis⟩ := List.nodup_append.mp hnd'
  have hkeep : ∀ l ∈ gs ++ hs, l.ptr ≠ g.ptr := by
    intro l hl he
    rcases List.mem_append.mp hl with hl | hl
    · exact hdis l.ptr (List.mem_map.mpr ⟨l, hl, rfl⟩) g.ptr List.mem_cons_self he
    · exact (List.nodup_cons.mp hcons).1 (List.mem_map.mpr ⟨l, hl, he⟩)
  have hfilter := h.filter fun l => decide (l.ptr ≠ g.ptr)
  have heq : (gs ++ g :: hs).filter (fun l => decide (l.ptr ≠ g.ptr)) = gs ++ hs := by
    rw [List.filter_append, List.filter_cons_of_neg (by simp), ← List.filter_append]
    exact List.filter_eq_self.mpr fun l hl => by simpa using hkeep l hl
  rwa [heq] at hfilter

namespace Hdr

/-- The blocks that are USED. -/
def usedBlocks (bs : List HBlock) : List HBlock := bs.filter fun b => b.tag.isSome

/-- The grants the USED blocks serve. -/
def grants (bs : List HBlock) : List Grant :=
  (usedBlocks bs).map fun b => ⟨b.addr + 16, b.tag.getD 0⟩

/-- A block that is not in use. -/
def IsFree (b : HBlock) : Prop := b.tag = none

/-- The payloads of the blocks `us` are the same in both memories. -/
def PayloadsKept (us : List HBlock) (mem mem' : Mem) : Prop :=
  ∀ d ∈ us, ∀ i < d.size, mem' (d.addr + 16 + i) = mem (d.addr + 16 + i)

variable {v : Variant} {c : HeapConfig} {mem mem' mem'' : Mem} {st : HeapState}
  {live : List Grant} {l k : Grant} {xs ys bs us : List HBlock} {b d : HBlock} {n : Nat}

@[simp] theorem usedBlocks_append :
    usedBlocks (xs ++ ys) = usedBlocks xs ++ usedBlocks ys := by
  simp [usedBlocks]

theorem usedBlocks_cons_free (hb : b.tag = none) : usedBlocks (b :: ys) = usedBlocks ys := by
  simp [usedBlocks, hb]

theorem usedBlocks_cons_used {r : Nat} (hb : b.tag = some r) :
    usedBlocks (b :: ys) = b :: usedBlocks ys := by
  simp [usedBlocks, hb]

theorem mem_usedBlocks : b ∈ usedBlocks bs ↔ b ∈ bs ∧ b.tag.isSome := by
  simp [usedBlocks]

theorem PayloadsKept.refl : PayloadsKept us mem mem := fun _ _ _ _ => rfl

theorem PayloadsKept.trans (h : PayloadsKept us mem mem') (h' : PayloadsKept us mem' mem'') :
    PayloadsKept us mem mem'' :=
  fun d hd i hi => (h' d hd i hi).trans (h d hd i hi)

/-- A change of header bytes keeps the payloads. -/
theorem ChainRep.kept (h : ChainRep c mem' bs) (hu : ∀ d ∈ us, d ∈ bs)
    (hf : ∀ x, ¬ HeaderByte bs x → mem' x = mem x) : PayloadsKept us mem mem' :=
  fun d hd _ hi => hf _ (h.payload (hu d hd) hi)

/-! ## The searches -/

/-- What is found is a block of the list that fits. -/
theorem firstFit_fits {sz a : Nat} {as : List Nat} (h : firstFit mem sz as = some a) :
    a ∈ as ∧ Fits mem sz a := by
  induction as with
  | nil => exact absurd h (by simp [firstFit])
  | cons x as ih =>
      rw [firstFit] at h
      split at h
      · rename_i hx
        obtain rfl := Option.some.inj h
        exact ⟨List.mem_cons_self, hx⟩
      · exact ⟨List.mem_cons_of_mem _ (ih h).1, (ih h).2⟩

theorem bestFit_fits {sz a : Nat} {as : List Nat} {best : Option Nat}
    (h : bestFit mem sz best as = some a) : best = some a ∨ a ∈ as ∧ Fits mem sz a := by
  induction as generalizing best with
  | nil => exact Or.inl h
  | cons x as ih =>
      rw [bestFit] at h
      split at h
      · rename_i hx
        split at h
        · obtain rfl := Option.some.inj h
          exact Or.inr ⟨List.mem_cons_self, hx.1⟩
        · rcases ih h with hbest | ⟨ha, hfits⟩
          · obtain rfl := Option.some.inj hbest
            exact Or.inr ⟨List.mem_cons_self, hx.1⟩
          · exact Or.inr ⟨List.mem_cons_of_mem _ ha, hfits⟩
      · rcases ih h with hbest | ⟨ha, hfits⟩
        · exact Or.inl hbest
        · exact Or.inr ⟨List.mem_cons_of_mem _ ha, hfits⟩

theorem search_fits {sz a : Nat} {as : List Nat} (h : search v mem sz as = some a) :
    a ∈ as ∧ Fits mem sz a := by
  unfold search at h
  split at h
  · rcases bestFit_fits h with hbest | hfits
    · exact absurd hbest (by simp)
    · exact hfits
  · exact firstFit_fits h

/-- The loops visit the blocks in order. -/
theorem ChainRep.chain_eq (h : ChainRep c st.mem bs) (hhead : st.head = c.pool) (hne : bs ≠ []) :
    chain st = bs.map Block.addr := by
  have hlen : bs.length ≤ walkBound := by
    have hsum := h.tiles.sum
    unfold hdrSize at hsum
    have hfits := c.fits
    unfold walkBound
    omega
  have hstart : ptr st.head = (bs.map Block.addr).head? := by
    cases bs with
    | nil => exact absurd rfl hne
    | cons b bs =>
        have hfirst : b.addr = c.pool := h.tiles.1
        have hpos := c.pos
        rw [hhead, ptr_of_ne (by omega), List.map_cons, List.head?_cons, hfirst]
  rw [chain, hstart]
  exact walk_chain h.linked (by simpa using hlen)

/-! ## Cutting and merging -/

/-- The block that an allocation is served from, cut if there is enough left. -/
theorem heapSplit_rep (h : ChainRep c mem (xs ++ b :: ys)) (hb : b.tag = none)
    (hn : n ≤ b.size) (h8 : 8 ∣ n) : ∃ s rest, n ≤ s ∧
      ChainRep c (heapSplit mem b.addr n) (xs ++ ⟨b.addr, s, none⟩ :: (rest ++ ys))
      ∧ (rest = [] ∨ ∃ r, rest = [r] ∧ r.tag = none)
      ∧ ∀ x, ¬ HeaderByte (xs ++ ⟨b.addr, s, none⟩ :: (rest ++ ys)) x →
        heapSplit mem b.addr n x = mem x := by
  by_cases hroom : n + 24 ≤ b.size
  · have hsplit := h.split hroom h8
    have hframe := fun x => h.split_frame (x := x) hroom
    rw [hb] at hsplit hframe
    exact ⟨n, [⟨b.addr + 16 + n, b.size - n - 16, none⟩], le_rfl, hsplit, Or.inr ⟨_, rfl, rfl⟩,
      hframe⟩
  · -- not enough room for another block: the whole one is given
    have hsame : heapSplit mem b.addr n = mem := by
      unfold heapSplit
      dsimp only
      rw [h.sizes b (by simp), if_pos (by unfold blkMinSize hdrSize; omega)]
    rw [hsame]
    refine ⟨b.size, [], hn, ?_, Or.inl rfl, fun _ _ => rfl⟩
    rw [← hb]
    exact h

/-- Merging with the block behind. -/
theorem mergeNext_rep (h : ChainRep c mem (xs ++ b :: ys)) (hb : b.tag = none)
    (hys : Merged IsFree ys) : ∃ d zs m, d.tag = none ∧ d.addr = b.addr
      ∧ (if next mem b.addr ≠ 0 ∧ magic mem (next mem b.addr) = magicFree
          then absorb mem b.addr (next mem b.addr) else mem) = m
      ∧ ChainRep c m (xs ++ d :: zs) ∧ Merged IsFree zs ∧ (∀ z ∈ zs.head?, ¬ IsFree z)
      ∧ usedBlocks zs = usedBlocks ys
      ∧ PayloadsKept (usedBlocks xs ++ usedBlocks ys) mem m := by
  rcases h.behind with ⟨rfl, h0⟩ | ⟨y, zs, rfl, hy, -, hy0⟩
  · rw [if_neg (by simp [h0])]
    exact ⟨b, [], _, hb, rfl, rfl, h, hys, by simp, rfl, .refl⟩
  · rw [hy, h.magics y (by simp)]
    by_cases hfree : y.tag = none
    · rw [if_pos ⟨hy0, tagMagic_eq_free.mpr hfree⟩]
      have hjoin := h.join
      obtain ⟨hhead, hrest⟩ := List.isChain_cons.mp hys
      refine ⟨⟨b.addr, b.size + (16 + y.size), b.tag⟩, zs, _, hb, rfl, rfl, hjoin, hrest, ?_,
        (usedBlocks_cons_free hfree).symm, ?_⟩
      · exact fun z hz hfz => hhead z hz ⟨hfree, hfz⟩
      · refine hjoin.kept (fun d hd => ?_) fun x hx => h.join_frame hx
        rw [usedBlocks_cons_free hfree] at hd
        rcases List.mem_append.mp hd with hd | hd
        · exact List.mem_append_left _ (mem_usedBlocks.mp hd).1
        · exact List.mem_append_right _ (List.mem_cons_of_mem _ (mem_usedBlocks.mp hd).1)
    · rw [if_neg (fun he => hfree (tagMagic_eq_free.mp he.2))]
      exact ⟨b, y :: zs, _, hb, rfl, rfl, h, hys, by simpa [IsFree] using hfree, rfl, .refl⟩

/-- Merging with the block in front. -/
theorem mergePrev_rep (h : ChainRep c mem (xs ++ b :: ys)) (hb : b.tag = none)
    (hxs : Merged IsFree xs) (hys : Merged IsFree ys) (hhead : ∀ y ∈ ys.head?, ¬ IsFree y) :
    ∃ bs m, (if prev mem b.addr ≠ 0 ∧ magic mem (prev mem b.addr) = magicFree
          then absorb mem (prev mem b.addr) b.addr else mem) = m
      ∧ ChainRep c m bs ∧ Merged IsFree bs ∧ usedBlocks bs = usedBlocks xs ++ usedBlocks ys
      ∧ PayloadsKept (usedBlocks xs ++ usedBlocks ys) mem m := by
  rcases List.eq_nil_or_concat' xs with rfl | ⟨ws, w, rfl⟩
  · rw [if_neg (by rw [h.prev_nil]; simp)]
    refine ⟨b :: ys, _, rfl, h, ?_, ?_, .refl⟩
    · exact merged_middle.mpr ⟨hxs, hys, fun _ => ⟨by simp, hhead⟩⟩
    · rw [usedBlocks_cons_free hb]
      rfl
  · have h' : ChainRep c mem (ws ++ w :: b :: ys) := by simpa using h
    have hw0 : w.addr ≠ 0 := by
      have hpos := (h'.bounds (b := w) (by simp)).1
      omega
    obtain ⟨hws, -, hlast⟩ := merged_middle.mp hxs
    rw [h'.prev_concat, h'.magics w (by simp)]
    by_cases hfree : w.tag = none
    · rw [if_pos ⟨hw0, tagMagic_eq_free.mpr hfree⟩]
      have hjoin := h'.join
      have hused : usedBlocks (ws ++ [w]) = usedBlocks ws := by
        rw [usedBlocks_append, usedBlocks_cons_free hfree]
        exact List.append_nil _
      refine ⟨_, _, rfl, hjoin, ?_, ?_, ?_⟩
      · exact merged_middle.mpr ⟨hws, hys, fun _ => ⟨(hlast hfree).1, hhead⟩⟩
      · have hw : usedBlocks (⟨w.addr, w.size + (16 + b.size), w.tag⟩ :: ys) = usedBlocks ys :=
          usedBlocks_cons_free hfree
        rw [usedBlocks_append, hw, hused]
      · refine hjoin.kept (fun d hd => ?_) fun x hx => h'.join_frame hx
        rw [hused] at hd
        rcases List.mem_append.mp hd with hd | hd
        · exact List.mem_append_left _ (mem_usedBlocks.mp hd).1
        · exact List.mem_append_right _ (List.mem_cons_of_mem _ (mem_usedBlocks.mp hd).1)
    · rw [if_neg (fun he => hfree (tagMagic_eq_free.mp he.2))]
      refine ⟨(ws ++ [w]) ++ b :: ys, _, rfl, h, ?_, ?_, .refl⟩
      · refine merged_middle.mpr ⟨hxs, hys, fun _ => ⟨?_, hhead⟩⟩
        simpa [IsFree] using hfree
      · rw [usedBlocks_append, usedBlocks_cons_free hb]

/-- **Coalescing** merges a FREE block with its neighbours and leaves the USED ones alone. -/
theorem heapCoalesce_rep (h : ChainRep c mem (xs ++ b :: ys)) (hb : b.tag = none)
    (hxs : Merged IsFree xs) (hys : Merged IsFree ys) :
    ∃ bs, ChainRep c (heapCoalesce mem b.addr) bs ∧ Merged IsFree bs
      ∧ usedBlocks bs = usedBlocks xs ++ usedBlocks ys
      ∧ PayloadsKept (usedBlocks xs ++ usedBlocks ys) mem (heapCoalesce mem b.addr) := by
  obtain ⟨d, zs, m, hd, hda, hm, hrep, hzs, hhead, hused, hkept⟩ := mergeNext_rep h hb hys
  obtain ⟨bs, m', hm', hrep', hmerged, hused', hkept'⟩ := mergePrev_rep hrep hd hxs hzs hhead
  have hresult : heapCoalesce mem b.addr = m' := by
    unfold heapCoalesce
    rw [hm, ← hda]
    exact hm'
  rw [hresult]
  rw [hused] at hused' hkept'
  exact ⟨bs, hrep', hmerged, hused', hkept.trans hkept'⟩

/-! ## The invariant -/

/-- The pool after its initialisation: `bs` are its blocks and `live` the grants. -/
structure PoolInv (c : HeapConfig) (st : HeapState) (live : List Grant) (bs : List HBlock) :
    Prop where
  rep : ChainRep c st.mem bs
  head : st.head = c.pool
  merged : Merged IsFree bs
  live : live.Perm (grants bs)
  room : ∀ b ∈ bs, ∀ r, b.tag = some r → r ≤ b.size
  used : st.usedBytes = ((usedBlocks bs).map Block.size).sum
  count : st.allocCount = (usedBlocks bs).length

/-- The allocator before and after its initialisation. -/
def HdrInv (c : HeapConfig) (st : HeapState) (live : List Grant) : Prop :=
  st.initialized = false ∧ st = heapState st.mem ∧ live = []
    ∨ st.initialized = true ∧ ∃ bs, PoolInv c st live bs

theorem grants_append : grants (xs ++ ys) = grants xs ++ grants ys := by
  simp [grants]

theorem grants_cons_used {r : Nat} (hb : b.tag = some r) :
    grants (b :: ys) = ⟨b.addr + 16, r⟩ :: grants ys := by
  simp [grants, usedBlocks_cons_used hb, hb]

theorem grants_of_used (h : usedBlocks bs = usedBlocks xs ++ usedBlocks ys) :
    grants bs = grants xs ++ grants ys := by
  simp [grants, h]

theorem grants_cons_free (hb : b.tag = none) : grants (b :: ys) = grants ys := by
  simp [grants, usedBlocks_cons_free hb]

@[simp] theorem hdrFromPtr_add (a : Nat) : hdrFromPtr (a + 16) = a := by
  simp [hdrFromPtr, hdrSize]

namespace PoolInv

/-- The block behind a grant. -/
theorem block (h : PoolInv c st live bs) (hl : l ∈ live) :
    ∃ b ∈ bs, b.tag = some l.req ∧ l.ptr = b.addr + 16
      ∧ (backend v c).sizeOf st l.ptr = b.size := by
  have hg : l ∈ grants bs := h.live.mem_iff.mp hl
  obtain ⟨b, hb, rfl⟩ := List.mem_map.mp hg
  obtain ⟨hbs, hsome⟩ := mem_usedBlocks.mp hb
  obtain ⟨r, hr⟩ := Option.isSome_iff_exists.mp hsome
  refine ⟨b, hbs, by simp [hr], rfl, ?_⟩
  show size st.mem (hdrFromPtr (b.addr + 16)) = b.size
  rw [hdrFromPtr_add]
  exact h.rep.sizes b hbs

theorem nodup (h : PoolInv c st live bs) : (live.map Grant.ptr).Nodup := by
  have hptrs : (grants bs).map Grant.ptr = (usedBlocks bs).map fun b => b.addr + 16 := by
    simp [grants, Function.comp_def]
  refine (h.live.map Grant.ptr).nodup_iff.mpr ?_
  rw [hptrs]
  have haddr : ((usedBlocks bs).map Block.addr).Nodup :=
    (h.rep.tiles.nodup_addr (by decide)).sublist (List.filter_sublist.map _)
  have hadd : (usedBlocks bs).map (fun b => b.addr + 16)
      = ((usedBlocks bs).map Block.addr).map (· + 16) := by simp [Function.comp_def]
  rw [hadd]
  exact haddr.map (add_left_injective 16)

/-- Splitting the pool at a grant. -/
theorem at_grant (h : PoolInv c st live bs) (hl : l ∈ live) : ∃ xs b ys, bs = xs ++ b :: ys
    ∧ b.tag = some l.req ∧ l.ptr = b.addr + 16
    ∧ (release live l.ptr).Perm (grants xs ++ grants ys) := by
  obtain ⟨b, hb, htag, hptr, -⟩ := h.block (v := ⟨true, true⟩) hl
  obtain ⟨xs, ys, rfl⟩ := List.append_of_mem hb
  refine ⟨xs, b, ys, rfl, htag, hptr, ?_⟩
  have hlive := h.live
  rw [grants_append, grants_cons_used htag] at hlive
  rw [hptr]
  exact release_perm hlive h.nodup

/-- The sums stay in range. -/
theorem bounds (h : PoolInv c st live (xs ++ b :: ys)) :
    ((usedBlocks xs).map Block.size).sum + b.size + ((usedBlocks ys).map Block.size).sum < 2 ^ 32
      ∧ (usedBlocks xs).length + (usedBlocks ys).length + 1 < 2 ^ 32 := by
  have hsum := h.rep.tiles.sum
  have hfits := c.fits
  have hle : ∀ zs : List HBlock, ((usedBlocks zs).map Block.size).sum ≤ (zs.map Block.size).sum :=
    fun zs => (List.filter_sublist.map _).sum_le_sum (by simp)
  have hlen : ∀ zs : List HBlock, (usedBlocks zs).length ≤ zs.length :=
    fun zs => List.length_filter_le _ _
  have hxs := hle xs
  have hys := hle ys
  have hxs' := hlen xs
  have hys' := hlen ys
  simp only [hdrSize, List.map_append, List.sum_append, List.map_cons, List.sum_cons,
    List.length_append, List.length_cons] at hsum
  omega

/-! ### Allocation -/

/-- **Serving a request from a FREE block.** -/
theorem take (h : PoolInv c st live (xs ++ b :: ys)) (hb : b.tag = none) {req sz : Nat}
    (hreq : req ≤ sz) (hn : sz ≤ b.size) (h8 : 8 ∣ sz) :
    let m := setMagic (heapSplit st.mem b.addr sz) b.addr magicUsed
    ∃ bs, PoolInv c { st with
        mem := m
        usedBytes := add32 st.usedBytes (size m b.addr)
        allocCount := add32 st.allocCount 1 } (⟨b.addr + 16, req⟩ :: live) bs
      ∧ PayloadsKept (usedBlocks xs ++ usedBlocks ys) st.mem m
      ∧ ∀ d ∈ usedBlocks xs ++ usedBlocks ys, d ∈ bs := by
  intro m
  obtain ⟨s, rest, hs, hrep, hrest, hframe⟩ := heapSplit_rep h.rep hb hn h8
  have hmark : ChainRep c m (xs ++ ⟨b.addr, s, some req⟩ :: (rest ++ ys)) := hrep.mark (some req)
  have hused : usedBlocks (rest ++ ys) = usedBlocks ys := by
    rcases hrest with rfl | ⟨r, rfl, hr⟩
    · rfl
    · exact usedBlocks_cons_free hr
  have hall : usedBlocks (xs ++ ⟨b.addr, s, some req⟩ :: (rest ++ ys))
      = usedBlocks xs ++ ⟨b.addr, s, some req⟩ :: usedBlocks ys := by
    rw [usedBlocks_append, usedBlocks_cons_used (r := req) rfl, hused]
  have hold : usedBlocks (xs ++ b :: ys) = usedBlocks xs ++ usedBlocks ys := by
    rw [usedBlocks_append, usedBlocks_cons_free hb]
  have hmem : ∀ d ∈ usedBlocks xs ++ usedBlocks ys,
      d ∈ xs ++ ⟨b.addr, s, some req⟩ :: (rest ++ ys) := by
    intro d hd
    rcases List.mem_append.mp hd with hd | hd
    · exact List.mem_append_left _ (mem_usedBlocks.mp hd).1
    · have hd' := (mem_usedBlocks.mp hd).1
      simp [hd']
  have hsize : size m b.addr = s := hmark.sizes ⟨b.addr, s, some req⟩ (by simp)
  have hbounds := h.bounds
  have hsb : s ≤ b.size := by
    have hold' := h.rep.tiles.sum
    have hnew' := hmark.tiles.sum
    simp only [hdrSize, List.map_append, List.sum_append, List.map_cons, List.sum_cons,
      List.length_append, List.length_cons] at hold' hnew'
    omega
  obtain ⟨hxs, hys, hsides⟩ := merged_middle.mp h.merged
  refine ⟨_, ⟨hmark, h.head, ?_, ?_, ?_, ?_, ?_⟩, ?_, hmem⟩
  · refine merged_middle.mpr ⟨hxs, ?_, fun hf => absurd hf (by simp [IsFree])⟩
    rcases hrest with rfl | ⟨r, rfl, hr⟩
    · exact hys
    · -- the rest is FREE, and the block behind it is not
      exact List.isChain_cons.mpr ⟨fun y hy hfy => (hsides hb).2 y hy hfy.2, hys⟩
  · rw [grants_append, grants_cons_used (r := req) rfl]
    have hlive := h.live
    rw [grants_append, grants_cons_free hb] at hlive
    have hys' : grants (rest ++ ys) = grants ys := by
      simp [grants, hused]
    rw [hys']
    exact (hlive.cons _).trans List.perm_middle.symm
  · intro d hd r hr
    rcases List.mem_append.mp hd with hd | hd
    · exact h.room d (List.mem_append_left _ hd) r hr
    · rcases List.mem_cons.mp hd with rfl | hd
      · obtain rfl : req = r := Option.some.inj hr
        exact hreq.trans hs
      · rcases List.mem_append.mp hd with hd | hd
        · rcases hrest with rfl | ⟨r', rfl, hr'⟩
          · simp at hd
          · obtain rfl := List.mem_singleton.mp hd
            rw [hr'] at hr
            exact absurd hr (by simp)
        · exact h.room d (by simp [hd]) r hr
  · show add32 st.usedBytes (size m b.addr) = _
    rw [hall, hsize, h.used, hold]
    simp only [List.map_append, List.sum_append, List.map_cons, List.sum_cons]
    rw [add32_eq (by omega)]
    omega
  · show add32 st.allocCount 1 = _
    rw [hall, h.count, hold]
    simp only [List.length_append, List.length_cons]
    rw [add32_eq (by omega)]
    omega
  · refine hmark.kept hmem fun x hx => ?_
    have hout : ¬ HeaderByte (xs ++ ⟨b.addr, s, none⟩ :: (rest ++ ys)) x := by
      intro hbyte
      rcases hbyte with ⟨d, hd, hin⟩
      rcases List.mem_append.mp hd with hd | hd
      · exact hx ⟨d, List.mem_append_left _ hd, hin⟩
      · rcases List.mem_cons.mp hd with rfl | hd
        · exact hx ⟨⟨b.addr, s, some req⟩, by simp, hin⟩
        · exact hx ⟨d, by simp [hd], hin⟩
    exact (ChainRep.mark_frame (b := ⟨b.addr, s, none⟩) (some req) hx).trans (hframe x hout)

end PoolInv

namespace PoolInv

/-! ### Freeing -/

/-- **Freeing a USED block.** -/
theorem give (h : PoolInv c st live (xs ++ b :: ys)) (hb : b.tag = some l.req)
    (hptr : l.ptr = b.addr + 16)
    (hrest : (release live l.ptr).Perm (grants xs ++ grants ys)) :
    ∃ bs, PoolInv c (heapFree v st l.ptr) (release live l.ptr) bs
      ∧ PayloadsKept (usedBlocks xs ++ usedBlocks ys) st.mem (heapFree v st l.ptr).mem := by
  have hfree : heapFree v st l.ptr = { st with
      usedBytes := sub32 st.usedBytes (size st.mem b.addr)
      allocCount := sub32 st.allocCount 1
      mem := heapCoalesce (setMagic st.mem b.addr magicFree) b.addr } := by
    unfold heapFree
    dsimp only
    rw [hptr, hdrFromPtr_add, if_neg (by omega), if_neg]
    intro hbad
    exact hbad.2 (by rw [h.rep.magics b (by simp), hb]; rfl)
  have hmark : ChainRep c (setMagic st.mem b.addr magicFree)
      (xs ++ { b with tag := none } :: ys) := h.rep.mark none
  obtain ⟨hxs, hys, -⟩ := merged_middle.mp h.merged
  obtain ⟨bs, hrep, hmerged, hused, hkept⟩ := heapCoalesce_rep hmark rfl hxs hys
  have hold : usedBlocks (xs ++ b :: ys) = usedBlocks xs ++ b :: usedBlocks ys := by
    rw [usedBlocks_append, usedBlocks_cons_used hb]
  have hbounds := h.bounds
  have hin : ∀ d ∈ usedBlocks xs ++ usedBlocks ys, d ∈ xs ++ { b with tag := none } :: ys := by
    intro d hd
    rcases List.mem_append.mp hd with hd | hd
    · exact List.mem_append_left _ (mem_usedBlocks.mp hd).1
    · exact List.mem_append_right _ (List.mem_cons_of_mem _ (mem_usedBlocks.mp hd).1)
  rw [hfree]
  generalize heapCoalesce (setMagic st.mem b.addr magicFree) b.addr = m at hrep hkept ⊢
  refine ⟨bs, ⟨hrep, h.head, hmerged, ?_, ?_, ?_, ?_⟩, ?_⟩
  · rw [grants_of_used hused]
    exact hrest
  · intro d hd r hr
    have hd' : d ∈ usedBlocks bs := mem_usedBlocks.mpr ⟨hd, by rw [hr]; rfl⟩
    rw [hused] at hd'
    rcases List.mem_append.mp hd' with hd' | hd'
    · exact h.room d (List.mem_append_left _ (mem_usedBlocks.mp hd').1) r hr
    · exact h.room d (by simp [(mem_usedBlocks.mp hd').1]) r hr
  · show sub32 st.usedBytes (size st.mem b.addr) = _
    rw [hused, h.used, hold, h.rep.sizes b (by simp)]
    simp only [List.map_append, List.sum_append, List.map_cons, List.sum_cons]
    rw [sub32_eq (by omega) (by omega)]
    omega
  · show sub32 st.allocCount 1 = _
    rw [hused, h.count, hold]
    simp only [List.length_append, List.length_cons]
    rw [sub32_eq (by omega) (by omega)]
    omega
  · exact (hmark.kept hin fun x hx => ChainRep.mark_frame none hx).trans hkept

/-- A grant may change its request within its block. -/
theorem resize (h : PoolInv c st live bs) (hl : l ∈ live) {req : Nat}
    (hreq : req ≤ (backend v c).sizeOf st l.ptr) :
    ∃ bs, PoolInv c st (⟨l.ptr, req⟩ :: release live l.ptr) bs := by
  obtain ⟨xs, b, ys, rfl, htag, hptr, hrest⟩ := h.at_grant hl
  have hsize : (backend v c).sizeOf st l.ptr = b.size := by
    show size st.mem (hdrFromPtr l.ptr) = b.size
    rw [hptr, hdrFromPtr_add]
    exact h.rep.sizes b (by simp)
  have hmem : ∀ x ∈ xs ++ { b with tag := some req } :: ys,
      x = { b with tag := some req } ∨ x ∈ xs ++ b :: ys := by
    intro x hx
    simp only [List.mem_append, List.mem_cons] at hx ⊢
    tauto
  have hb : b ∈ xs ++ b :: ys := by simp
  have hold : usedBlocks (xs ++ b :: ys) = usedBlocks xs ++ b :: usedBlocks ys := by
    rw [usedBlocks_append, usedBlocks_cons_used htag]
  have hnew : usedBlocks (xs ++ { b with tag := some req } :: ys)
      = usedBlocks xs ++ { b with tag := some req } :: usedBlocks ys := by
    rw [usedBlocks_append, usedBlocks_cons_used (r := req) rfl]
  refine ⟨xs ++ { b with tag := some req } :: ys, ⟨h.rep.tiles.retag _, ?_, ?_, ?_, ?_⟩, h.head,
    ?_, ?_, ?_, ?_, ?_⟩
  · have hmap : (xs ++ { b with tag := some req } :: ys).map Block.addr
        = (xs ++ b :: ys).map Block.addr := by simp
    rw [hmap]
    exact h.rep.linked
  · intro x hx
    rcases hmem x hx with rfl | hx
    · exact h.rep.sizes b hb
    · exact h.rep.sizes x hx
  · intro x hx
    rcases hmem x hx with rfl | hx
    · refine (h.rep.magics b hb).trans ?_
      rw [htag]
      rfl
    · exact h.rep.magics x hx
  · intro x hx
    rcases hmem x hx with rfl | hx
    · exact h.rep.aligned b hb
    · exact h.rep.aligned x hx
  · obtain ⟨hxs, hys, -⟩ := merged_middle.mp h.merged
    exact merged_middle.mpr ⟨hxs, hys, fun hf => absurd hf (by simp [IsFree])⟩
  · rw [grants_append, grants_cons_used (r := req) rfl, hptr, ← hptr]
    exact (hrest.cons _).trans List.perm_middle.symm
  · intro x hx r hr
    rcases hmem x hx with rfl | hx
    · obtain rfl : req = r := Option.some.inj hr
      rwa [hsize] at hreq
    · exact h.room x hx r hr
  · rw [hnew, h.used, hold]
    simp
  · rw [hnew, h.count, hold]
    simp

/-- Stores into granted blocks do no harm. -/
theorem store (h : PoolInv c st live bs) (hl : l ∈ live) {m : Mem}
    (hm : ∀ a, a < l.ptr ∨ l.ptr + (backend v c).sizeOf st l.ptr ≤ a → m a = st.mem a) :
    PoolInv c { st with mem := m } live bs := by
  obtain ⟨b, hb, -, hptr, hsize⟩ := h.block (v := v) hl
  refine ⟨h.rep.congr fun x hx => hm x ?_, h.head, h.merged, h.live, h.room, h.used, h.count⟩
  rw [hsize, hptr]
  by_contra hin
  have hi : x - (b.addr + 16) < b.size := by omega
  have hpay := h.rep.payload hb hi
  have hx' : b.addr + 16 + (x - (b.addr + 16)) = x := by omega
  rw [hx'] at hpay
  exact hpay hx

end PoolInv

/-- The pool after `heap_pool_init` is one FREE block. -/
theorem poolInit_inv (hsize : 16 ≤ c.size) :
    PoolInv c (heapPoolInit c (heapState mem)) [] [⟨c.pool, c.size - 16, none⟩] := by
  have hpos := c.pos
  have hfits := c.fits
  have hfree : magicFree < 2 ^ 32 := by decide
  have hwords : prev (heapPoolInit c (heapState mem)).mem c.pool = 0
      ∧ next (heapPoolInit c (heapState mem)).mem c.pool = 0
      ∧ size (heapPoolInit c (heapState mem)).mem c.pool = c.size - 16
      ∧ magic (heapPoolInit c (heapState mem)).mem c.pool = magicFree := by
    unfold heapPoolInit heapState
    refine ⟨?_, ?_, ?_, ?_⟩
    all_goals simp (disch := omega) only [prev, next, size, magic, setPrev, setNext, setSize,
      setMagic, hdrSize, read32_write32_ne, read32_write32_eq]
  obtain ⟨hp, hn, hs, hm⟩ := hwords
  refine ⟨⟨⟨rfl, ?_⟩, ⟨?_, trivial⟩, ?_, ?_, ?_⟩, rfl, List.isChain_singleton _, .refl _, ?_, rfl,
    rfl⟩
  · show c.pool + hdrSize + (c.size - 16) = c.pool + c.size
    unfold hdrSize
    omega
  · simp only [links, hp, hn]
    rfl
  all_goals
    intro b hb
    obtain rfl := List.mem_singleton.mp hb
  · exact hs
  · exact hm
  · exact c.aligned
  · exact fun r hr => absurd hr (by simp)

/-- The state the search starts from, with the pool initialised. -/
theorem HdrInv.ready (hsize : 16 ≤ c.size) (hi : HdrInv c st live) : ∃ st₀ bs,
    (if st.initialized then st else heapPoolInit c st) = st₀ ∧ st₀.initialized = true
      ∧ PoolInv c st₀ live bs ∧ (live = [] ∨ st₀ = st) := by
  rcases hi with ⟨hno, hst, rfl⟩ | ⟨hyes, bs, hp⟩
  · rw [if_neg (by simp [hno]), hst]
    exact ⟨_, _, rfl, rfl, poolInit_inv hsize, Or.inl rfl⟩
  · rw [if_pos hyes]
    exact ⟨_, _, rfl, hyes, hp, Or.inr rfl⟩

/-- **Allocation** keeps the invariant and leaves the granted blocks alone. -/
theorem heapAlloc_spec (hsize : 16 ≤ c.size) (hi : HdrInv c st live) (hle : n + 7 < 2 ^ 32) :
    HdrInv c (heapAlloc v c st n).1 (grant live (heapAlloc v c st n).2 n)
      ∧ ∀ l ∈ live,
        (backend v c).sizeOf (heapAlloc v c st n).1 l.ptr = (backend v c).sizeOf st l.ptr
        ∧ ∀ i < (backend v c).sizeOf st l.ptr,
          (heapAlloc v c st n).1.mem (l.ptr + i) = st.mem (l.ptr + i) := by
  by_cases h0 : n = 0
  · have hnull : heapAlloc v c st n = (st, 0) := if_pos h0
    rw [hnull]
    exact ⟨hi, fun _ _ => ⟨rfl, fun _ _ => rfl⟩⟩
  obtain ⟨st₀, bs, hst, hready, hp, hsame⟩ := hi.ready hsize
  unfold heapAlloc
  rw [if_neg h0]
  dsimp only
  rw [hst]
  cases hsearch : search v st₀.mem (heapAlignUp n) (chain st₀) with
  | none =>
      refine ⟨Or.inr ⟨hready, bs, hp⟩, fun l hl => ?_⟩
      rcases hsame with rfl | rfl
      · simp at hl
      · exact ⟨rfl, fun _ _ => rfl⟩
  | some a =>
      have hne : bs ≠ [] := by
        rintro rfl
        have hend : c.pool = c.pool + c.size := hp.rep.tiles
        omega
      obtain ⟨ha, hmagic, hfits⟩ := search_fits hsearch
      rw [hp.rep.chain_eq hp.head hne] at ha
      obtain ⟨b, hb, rfl⟩ := List.mem_map.mp ha
      rw [hp.rep.magics b hb, tagMagic_eq_free] at hmagic
      rw [hp.rep.sizes b hb] at hfits
      obtain ⟨xs, ys, rfl⟩ := List.append_of_mem hb
      have halign := heapAlignUp_eq hle
      obtain ⟨bs', hp', hkept, hin⟩ := hp.take hmagic (le_heapAlignUp hle) hfits
        (by rw [halign]; exact Dvd.intro_left _ rfl)
      dsimp only
      refine ⟨Or.inr ⟨hready, bs', ?_⟩, fun l hl => ?_⟩
      · rw [grant_of_ne (by unfold ptrFromHdr hdrSize; omega)]
        exact hp'
      · rcases hsame with rfl | rfl
        · simp at hl
        · -- the block of an older grant is still there, with the same payload
          obtain ⟨d, hd, htag, hptr, hsz⟩ := hp.block (v := v) hl
          have hused : d ∈ usedBlocks xs ++ usedBlocks ys := by
            have hall : d ∈ usedBlocks (xs ++ b :: ys) := mem_usedBlocks.mpr ⟨hd, by simp [htag]⟩
            rwa [usedBlocks_append, usedBlocks_cons_free hmagic] at hall
          constructor
          · rw [hsz]
            show size _ (hdrFromPtr l.ptr) = d.size
            rw [hptr, hdrFromPtr_add]
            exact hp'.rep.sizes d (hin d hused)
          · intro i hlt
            rw [hsz] at hlt
            rw [hptr]
            exact hkept d hused i hlt

/-- **The calls of either backend respect the invariant**, for requests that can be aligned. -/
theorem correct_limit (v : Variant) (c : HeapConfig) (hsize : 16 ≤ c.size) {limit : Nat}
    (hlimit : limit + 7 < 2 ^ 32) : (backend v c).Correct limit (HdrInv c) where
  limit_lt := hlimit
  mem_setMem _ _ := rfl
  nodup hi := by
    rcases hi with ⟨-, -, rfl⟩ | ⟨-, bs, hp⟩
    · simp
    · exact hp.nodup
  ptr_ne hi hl := by
    rcases hi with ⟨-, -, rfl⟩ | ⟨-, bs, hp⟩
    · simp at hl
    · obtain ⟨b, -, -, hptr, -⟩ := hp.block (v := v) hl
      omega
  room hi hl := by
    rcases hi with ⟨-, -, rfl⟩ | ⟨-, bs, hp⟩
    · simp at hl
    · obtain ⟨b, hb, htag, -, hsz⟩ := hp.block (v := v) hl
      rw [hsz]
      exact hp.room b hb _ htag
  disjoint hi hl hk hne := by
    rcases hi with ⟨-, -, rfl⟩ | ⟨-, bs, hp⟩
    · simp at hl
    · obtain ⟨b, hb, -, hptr, hsz⟩ := hp.block (v := v) hl
      obtain ⟨d, hd, -, hptr', hsz'⟩ := hp.block (v := v) hk
      have hapart := hp.rep.tiles.apart_of_ne hb hd (by omega)
      unfold hdrSize at hapart
      omega
  alloc hi hle := (heapAlloc_spec hsize hi (by omega)).1
  alloc_keeps hi hle hl := (heapAlloc_spec hsize hi (by omega)).2 _ hl
  alloc_zero _ := rfl
  free hi hl := by
    rcases hi with ⟨-, -, rfl⟩ | ⟨hyes, bs, hp⟩
    · simp at hl
    · obtain ⟨xs, b, ys, rfl, htag, hptr, hrest⟩ := hp.at_grant hl
      obtain ⟨bs', hp', -⟩ := hp.give (v := v) htag hptr hrest
      refine Or.inr ⟨?_, bs', hp'⟩
      show (heapFree v _ _).initialized = true
      unfold heapFree
      split
      · exact hyes
      · dsimp only
        split <;> exact hyes
  free_keeps hi hl hk hne := by
    rcases hi with ⟨-, -, rfl⟩ | ⟨-, bs, hp⟩
    · simp at hl
    · obtain ⟨xs, b, ys, rfl, htag, hptr, hrest⟩ := hp.at_grant hl
      obtain ⟨bs', -, hkept⟩ := hp.give (v := v) htag hptr hrest
      obtain ⟨d, hd, htag', hptr', hsz⟩ := hp.block (v := v) hk
      have hused : d ∈ usedBlocks xs ++ usedBlocks ys := by
        have hall : d ∈ usedBlocks (xs ++ b :: ys) := mem_usedBlocks.mpr ⟨hd, by simp [htag']⟩
        rw [usedBlocks_append, usedBlocks_cons_used htag] at hall
        rcases List.mem_append.mp hall with hx | hx
        · exact List.mem_append_left _ hx
        · rcases List.mem_cons.mp hx with rfl | hx
          · exact absurd (hptr'.trans hptr.symm) hne
          · exact List.mem_append_right _ hx
      intro i hlt
      rw [hsz] at hlt
      rw [hptr']
      exact hkept d hused i hlt
  free_null _ := rfl
  resize hi hl hle := by
    rcases hi with ⟨-, -, rfl⟩ | ⟨hyes, bs, hp⟩
    · simp at hl
    · exact Or.inr ⟨hyes, hp.resize hl hle⟩
  store hi hl hm := by
    rcases hi with ⟨-, -, rfl⟩ | ⟨hyes, bs, hp⟩
    · simp at hl
    · have hp' := hp.store (v := v) hl hm
      refine ⟨Or.inr ⟨hyes, bs, hp'⟩, fun p hheld => ?_⟩
      obtain ⟨k, hk, rfl⟩ := hheld
      obtain ⟨d, hd, -, hptr, hsz⟩ := hp.block (v := v) hk
      rw [hsz]
      show size _ (hdrFromPtr k.ptr) = d.size
      rw [hptr, hdrFromPtr_add]
      exact hp'.rep.sizes d hd

/-- Requests up to the size of the heap can be aligned. -/
theorem correct (v : Variant) (c : HeapConfig) (hsize : 16 ≤ c.size) :
    (backend v c).Correct c.size (HdrInv c) :=
  correct_limit v c hsize (by
    have hfits := c.fits
    have h8 := Nat.le_of_dvd c.pos c.aligned
    omega)

end Hdr

end VibeRtos
