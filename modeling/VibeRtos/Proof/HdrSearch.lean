import VibeRtos.Proof.HdrRuns

/-!
# Which block first fit and best fit choose

Both walk the chain from the pool's start. First fit stops at the first block that is
large enough; best fit keeps the smallest one it has seen and stops early when it fits
exactly. On a chain in address order that is the lowest block that fits, and the lowest
one of minimal sufficient size.
-/

namespace VibeRtos

open ByteMem Links Tiling Runs

namespace Hdr

variable {v : Variant} {c : HeapConfig} {mem : Mem} {st : HeapState} {bs : List HBlock}
  {sz a b x n : Nat} {as : List Nat}

/-- The blocks of the heap form a well-formed chain. -/
structure ChainOk (c : HeapConfig) (st : HeapState) : Prop where
  initialized : st.initialized = true
  head : st.head = c.pool
  large : hdrSize ≤ c.size
  rep : ∃ bs, ChainRep c st.mem bs

/-- The exhaustive search: the smallest block that fits, the earlier one of equals. -/
def fullScan (mem : Mem) (sz : Nat) (best : Option Nat) : List Nat → Option Nat
  | [] => best
  | b :: bs =>
      if Fits mem sz b ∧ best.all (fun x => size mem b < size mem x) then
        fullScan mem sz (some b) bs
      else fullScan mem sz best bs

/-- `b` is the lowest block of `blocks` that fits. -/
def LowestFit (mem : Mem) (sz : Nat) (blocks : List Nat) (b : Nat) : Prop :=
  b ∈ blocks ∧ Fits mem sz b ∧ ∀ d ∈ blocks, Fits mem sz d → b ≤ d

/-- `b` is the lowest block of minimal size among those that fit. -/
def LowestBest (mem : Mem) (sz : Nat) (blocks : List Nat) (b : Nat) : Prop :=
  b ∈ blocks ∧ Fits mem sz b ∧ ∀ d ∈ blocks, Fits mem sz d →
    size mem b < size mem d ∨ size mem b = size mem d ∧ b ≤ d

/-! ## First fit -/

theorem firstFit_none (h : firstFit mem sz as = none) : ∀ d ∈ as, ¬ Fits mem sz d := by
  induction as with
  | nil => simp
  | cons b as ih =>
      rw [firstFit] at h
      split at h
      · exact absurd h (by simp)
      · rename_i hb
        intro d hd
        rcases List.mem_cons.mp hd with rfl | hd
        · exact hb
        · exact ih h d hd

/-- On a list in address order the first block that fits is the lowest. -/
theorem firstFit_lowest (hs : as.Pairwise (· < ·)) (h : firstFit mem sz as = some a) :
    LowestFit mem sz as a := by
  obtain ⟨ha, hfits⟩ := firstFit_fits h
  refine ⟨ha, hfits, ?_⟩
  induction as with
  | nil => simp
  | cons b as ih =>
      obtain ⟨hb, hs⟩ := List.pairwise_cons.mp hs
      rw [firstFit] at h
      split at h
      · obtain rfl := Option.some.inj h
        -- the search stops at the first one, and the others are behind it
        intro d hd _
        rcases List.mem_cons.mp hd with rfl | hd
        · exact le_rfl
        · exact (hb d hd).le
      · rename_i hno
        intro d hd hfit
        rcases List.mem_cons.mp hd with rfl | hd
        · exact absurd hfit hno
        · exact ih hs h (firstFit_fits h).1 d hd hfit

/-! ## Best fit -/

/-- Nothing improves on a perfect fit. -/
theorem fullScan_perfect (hb : size mem b = sz) : fullScan mem sz (some b) as = some b := by
  induction as with
  | nil => rfl
  | cons d as ih =>
      rw [fullScan, if_neg, ih]
      rintro ⟨hfits, hless⟩
      have hge := hfits.2
      simp only [Option.all_some, decide_eq_true_eq] at hless
      omega

/-- **The early exit is harmless.** -/
theorem bestFit_eq_fullScan (best : Option Nat) :
    bestFit mem sz best as = fullScan mem sz best as := by
  induction as generalizing best with
  | nil => rfl
  | cons b as ih =>
      rw [bestFit, fullScan]
      split
      · split
        · rename_i hb
          exact (fullScan_perfect hb).symm
        · exact ih _
      · exact ih _

/-- The invariant of the scan: the block kept so far is the lowest best of those seen. -/
theorem fullScan_best (hs : (x :: as).Pairwise (· < ·)) (hx : Fits mem sz x) :
    ∃ y, fullScan mem sz (some x) as = some y ∧ LowestBest mem sz (x :: as) y := by
  induction as generalizing x with
  | nil =>
      refine ⟨x, rfl, List.mem_cons_self, hx, fun d hd _ => ?_⟩
      obtain rfl := List.mem_singleton.mp hd
      exact Or.inr ⟨rfl, le_rfl⟩
  | cons b as ih =>
      obtain ⟨hxs, hbs⟩ := List.pairwise_cons.mp hs
      have hxb := hxs b List.mem_cons_self
      rw [fullScan]
      by_cases hb : Fits mem sz b ∧ (some x).all (fun x => size mem b < size mem x)
      · rw [if_pos hb]
        obtain ⟨hfits, hless⟩ := hb
        simp only [Option.all_some, decide_eq_true_eq] at hless
        obtain ⟨y, hy, hmem, hyfits, hleast⟩ := ih hbs hfits
        refine ⟨y, hy, List.mem_cons_of_mem _ hmem, hyfits, fun d hd hd' => ?_⟩
        rcases List.mem_cons.mp hd with rfl | hd
        · -- `y` is no larger than `b`, which is smaller than the old candidate
          have hyb := hleast b List.mem_cons_self hfits
          omega
        · exact hleast d hd hd'
      · rw [if_neg hb]
        have hs' : (x :: as).Pairwise (· < ·) :=
          List.pairwise_cons.mpr ⟨fun d hd => hxs d (List.mem_cons_of_mem _ hd),
            (List.pairwise_cons.mp hbs).2⟩
        obtain ⟨y, hy, hmem, hyfits, hleast⟩ := ih hs' hx
        refine ⟨y, hy, ?_, hyfits, fun d hd hd' => ?_⟩
        · rcases List.mem_cons.mp hmem with rfl | hmem
          · exact List.mem_cons_self
          · exact List.mem_cons_of_mem _ (List.mem_cons_of_mem _ hmem)
        · rcases List.mem_cons.mp hd with rfl | hd
          · exact hleast d List.mem_cons_self hd'
          · rcases List.mem_cons.mp hd with rfl | hd
            · -- `d` did not replace the candidate `x`, so it is no smaller
              have hge : size mem x ≤ size mem d := by
                by_contra hlt
                exact hb ⟨hd', by simpa using hlt⟩
              have hyx := hleast x List.mem_cons_self hx
              omega
            · exact hleast d (List.mem_cons_of_mem _ hd) hd'

theorem fullScan_none (h : fullScan mem sz none as = none) : ∀ d ∈ as, ¬ Fits mem sz d := by
  have hsome : ∀ (as : List Nat) (x : Nat), fullScan mem sz (some x) as ≠ none := by
    intro as
    induction as with
    | nil => simp [fullScan]
    | cons b as ih =>
        intro x
        rw [fullScan]
        split
        · exact ih b
        · exact ih x
  induction as with
  | nil => simp
  | cons b as ih =>
      rw [fullScan] at h
      split at h
      · exact absurd h (hsome as b)
      · rename_i hb
        intro d hd
        rcases List.mem_cons.mp hd with rfl | hd
        · exact fun hfits => hb ⟨hfits, rfl⟩
        · exact ih h d hd

/-- On a list in address order the scan finds the lowest best block. -/
theorem fullScan_lowest (hs : as.Pairwise (· < ·)) (h : fullScan mem sz none as = some a) :
    LowestBest mem sz as a := by
  induction as with
  | nil => exact absurd h (by simp [fullScan])
  | cons b as ih =>
      rw [fullScan] at h
      split at h
      · rename_i hb
        obtain ⟨y, hy, hbest⟩ := fullScan_best hs hb.1
        obtain rfl := Option.some.inj (hy.symm.trans h)
        exact hbest
      · rename_i hb
        obtain ⟨hmem, hfits, hleast⟩ := ih (List.pairwise_cons.mp hs).2 h
        refine ⟨List.mem_cons_of_mem _ hmem, hfits, fun d hd hd' => ?_⟩
        rcases List.mem_cons.mp hd with rfl | hd
        · exact absurd ⟨hd', rfl⟩ hb
        · exact hleast d hd hd'

/-! ## Either search -/

/-- The block either backend should choose. -/
def Chosen (v : Variant) (mem : Mem) (sz : Nat) (blocks : List Nat) (b : Nat) : Prop :=
  if v.best then LowestBest mem sz blocks b else LowestFit mem sz blocks b

/-- Of two blocks that could be chosen, neither is in front of the other. -/
theorem Chosen.unique {b' : Nat} (h : Chosen v mem sz as b) (h' : Chosen v mem sz as b') :
    b = b' := by
  unfold Chosen at h h'
  split at h
  · rename_i hv
    rw [if_pos hv] at h'
    have hle := h.2.2 b' h'.1 h'.2.1
    have hge := h'.2.2 b h.1 h.2.1
    omega
  · rename_i hv
    rw [if_neg hv] at h'
    have hle := h.2.2 b' h'.1 h'.2.1
    have hge := h'.2.2 b h.1 h.2.1
    omega

theorem search_chosen (hs : as.Pairwise (· < ·)) (h : search v mem sz as = some a) :
    Chosen v mem sz as a := by
  unfold search at h
  unfold Chosen
  split
  · rename_i hv
    rw [if_pos hv, bestFit_eq_fullScan] at h
    exact fullScan_lowest hs h
  · rename_i hv
    rw [if_neg hv] at h
    exact firstFit_lowest hs h

theorem search_none (h : search v mem sz as = none) : ∀ d ∈ as, ¬ Fits mem sz d := by
  unfold search at h
  split at h
  · rw [bestFit_eq_fullScan] at h
    exact fullScan_none h
  · exact firstFit_none h

/-- The walk over a well-formed chain visits its blocks in address order. -/
theorem ChainOk.chain_eq (h : ChainOk c st) : ∃ bs, ChainRep c st.mem bs
    ∧ chain st = bs.map Block.addr ∧ (chain st).Pairwise (· < ·) := by
  obtain ⟨bs, hrep⟩ := h.rep
  have hlarge := h.large
  have hne : bs ≠ [] := by
    rintro rfl
    have hend : c.pool = c.pool + c.size := hrep.tiles
    unfold hdrSize at hlarge
    omega
  have heq := hrep.chain_eq h.head hne
  refine ⟨bs, hrep, heq, ?_⟩
  rw [heq]
  refine List.pairwise_map.mpr (hrep.tiles.pairwise.imp ?_)
  intro x y hxy
  unfold hdrSize at hxy
  omega

/-- The chain of every heap that a program reaches is well formed. -/
theorem chainOk_of_run {labels : List HeapLabel} {s : HeapSys HeapState} (hsize : 16 ≤ c.size)
    (hrun : run (HeapSys.step (backend v c) c.size) ⟨heapState mem, []⟩ labels = some s)
    (hinit : s.heap.initialized = true) : ChainOk c s.heap := by
  rcases (correct v c hsize).run (s := ⟨heapState mem, []⟩) (Or.inl ⟨rfl, rfl, rfl⟩) hrun with
    ⟨hno, -, -⟩ | ⟨-, bs, hp⟩
  · exact absurd hinit (by rw [hno]; simp)
  · exact ⟨hinit, hp.head, hsize, bs, hp.rep⟩

/--
**Which block is allocated.**

On every well-formed chain and for every request up to the size of the heap, first fit
allocates in the lowest FREE block that is large enough, best fit in the one an
exhaustive search finds, the lowest of minimal sufficient size; and they return `NULL`,
with the heap unchanged, exactly when no FREE block is large enough.
-/
theorem alloc_chooses {v : Variant} {c : HeapConfig} {st : HeapState} {n : Nat}
    (h : ChainOk c st) (hpos : 1 ≤ n) (hn : n ≤ c.size) :
    (∀ b, Chosen v st.mem (heapAlignUp n) (chain st) b →
        (heapAlloc v c st n).2 = ptrFromHdr b
        ∧ magic (heapAlloc v c st n).1.mem b = magicUsed
        ∧ heapAlignUp n ≤ size (heapAlloc v c st n).1.mem b)
      ∧ (v.best = true → search v st.mem (heapAlignUp n) (chain st)
        = fullScan st.mem (heapAlignUp n) none (chain st))
      ∧ ((heapAlloc v c st n).2 = 0 ↔ ∀ b ∈ chain st, ¬ Fits st.mem (heapAlignUp n) b)
      ∧ ((∃ b ∈ chain st, Fits st.mem (heapAlignUp n) b) →
        ∃ b, Chosen v st.mem (heapAlignUp n) (chain st) b)
      ∧ ((heapAlloc v c st n).2 = 0 → (heapAlloc v c st n).1 = st) := by
  obtain ⟨bs, hrep, hchain, hsorted⟩ := h.chain_eq
  have hfits := c.fits
  have hpool := Nat.le_of_dvd c.pos c.aligned
  have halign := heapAlignUp_eq (x := n) (by omega)
  have hscan : v.best = true → search v st.mem (heapAlignUp n) (chain st)
      = fullScan st.mem (heapAlignUp n) none (chain st) := by
    intro hv
    unfold search
    rw [if_pos hv, bestFit_eq_fullScan]
  have hready : (if st.initialized then st else heapPoolInit c st) = st := by
    rw [if_pos h.initialized]
  unfold heapAlloc
  rw [if_neg (by omega)]
  dsimp only
  rw [hready]
  cases hsearch : search v st.mem (heapAlignUp n) (chain st) with
  | none =>
      have hno := search_none hsearch
      refine ⟨fun b hb => ?_, fun hv => ?_, iff_of_true rfl hno, ?_, fun _ => rfl⟩
      · unfold Chosen at hb
        split at hb
        all_goals exact absurd hb.2.1 (hno b hb.1)
      · rw [← hscan hv, hsearch]
      · rintro ⟨b, hb, hfit⟩
        exact absurd hfit (hno b hb)
  -- found: the block is split if it is too large, and marked
  | some a =>
      have hchosen := search_chosen hsorted hsearch
      obtain ⟨ha, hfit⟩ := search_fits hsearch
      have hin := ha
      rw [hchain] at hin
      obtain ⟨b, hb, rfl⟩ := List.mem_map.mp hin
      obtain ⟨hmagic, hsize⟩ := hfit
      rw [hrep.magics b hb, tagMagic_eq_free] at hmagic
      rw [hrep.sizes b hb] at hsize
      obtain ⟨xs, ys, rfl⟩ := List.append_of_mem hb
      obtain ⟨s, rest, hs, hsplit, -, -⟩ := heapSplit_rep hrep hmagic hsize
        (by rw [halign]; exact Dvd.intro_left _ rfl)
      have hmark : ChainRep c (setMagic (heapSplit st.mem b.addr (heapAlignUp n)) b.addr magicUsed)
          (xs ++ ⟨b.addr, s, some n⟩ :: (rest ++ ys)) := hsplit.mark (some n)
      have hne : ptrFromHdr b.addr ≠ 0 := by
        unfold ptrFromHdr hdrSize
        omega
      refine ⟨fun d hd => ?_, fun hv => ?_, iff_of_false hne fun hno => ?_, fun _ => ⟨_, hchosen⟩,
        fun h0 => absurd h0 hne⟩
      · obtain rfl := hd.unique hchosen
        refine ⟨rfl, hmark.magics ⟨b.addr, s, some n⟩ (by simp), ?_⟩
        exact hs.trans (hmark.sizes ⟨b.addr, s, some n⟩ (by simp)).ge
      · rw [← hscan hv, hsearch]
      · exact hno b.addr ha ((search_fits hsearch).2)

/-- FREE blocks of 40, 24, 24 and 32 bytes, with blocks in use between them. -/
def scatter : List HeapLabel :=
  [.alloc 40, .alloc 8, .alloc 24, .alloc 8, .alloc 24, .alloc 8, .free 0x2010, .free 0x2060,
    .free 0x20a0]

/-- **First fit and best fit on one chain.** A request for 10 bytes, 16 when aligned, goes to the
block of 40 under first fit and to the lower of the two blocks of 24 under best fit; 41 bytes are
not found. -/
theorem alloc_chooses_scattered :
    ∃ s t, run (HeapSys.step (backend ⟨false, true⟩ smallPool) 256) ⟨heapState fun _ => 0, []⟩
        scatter = some s
      ∧ run (HeapSys.step (backend ⟨true, true⟩ smallPool) 256) ⟨heapState fun _ => 0, []⟩
        scatter = some t
      ∧ ((chain t.heap).filter fun b => magic t.heap.mem b = magicFree).map (size t.heap.mem)
        = [40, 24, 24, 32]
      ∧ (heapAlloc ⟨false, true⟩ smallPool s.heap 10).2 = 0x2010
      ∧ Chosen ⟨false, true⟩ s.heap.mem (heapAlignUp 10) (chain s.heap) 0x2000
      ∧ (heapAlloc ⟨true, true⟩ smallPool t.heap 10).2 = 0x2060
      ∧ Chosen ⟨true, true⟩ t.heap.mem (heapAlignUp 10) (chain t.heap) 0x2050
      ∧ ∀ b ∈ chain t.heap, ¬ Fits t.heap.mem 48 b := by
  obtain ⟨s, hrun, hfacts⟩ : ∃ s,
      run (HeapSys.step (backend ⟨false, true⟩ smallPool) 256) ⟨heapState fun _ => 0, []⟩ scatter
        = some s
      ∧ decide (s.heap.initialized = true
        ∧ (heapAlloc ⟨false, true⟩ smallPool s.heap 10).2 = 0x2010) = true :=
    Option.map_eq_some_iff.mp (by decide +kernel)
  obtain ⟨hinit, hfirst⟩ := of_decide_eq_true hfacts
  obtain ⟨t, hrun', hfacts'⟩ : ∃ t,
      run (HeapSys.step (backend ⟨true, true⟩ smallPool) 256) ⟨heapState fun _ => 0, []⟩ scatter
        = some t
      ∧ decide (t.heap.initialized = true
        ∧ ((chain t.heap).filter fun b => magic t.heap.mem b = magicFree).map (size t.heap.mem)
          = [40, 24, 24, 32]
        ∧ (heapAlloc ⟨true, true⟩ smallPool t.heap 10).2 = 0x2060
        ∧ (heapAlloc ⟨true, true⟩ smallPool t.heap 41).2 = 0) = true :=
    Option.map_eq_some_iff.mp (by decide +kernel)
  obtain ⟨hinit', hsizes, hbest, hnull⟩ := of_decide_eq_true hfacts'
  have hok : ChainOk smallPool s.heap := chainOk_of_run (by decide) hrun hinit
  have hok' : ChainOk smallPool t.heap := chainOk_of_run (by decide) hrun' hinit'
  -- a block is found, and the pointer returned tells which one
  have hchosen : ∀ (v : Variant) (st : HeapState) (b : Nat), ChainOk smallPool st →
      (heapAlloc v smallPool st 10).2 = ptrFromHdr b →
      Chosen v st.mem (heapAlignUp 10) (chain st) b := by
    intro v st b hst hptr
    obtain ⟨hwhere, -, hnone, hsome, -⟩ :=
      alloc_chooses (v := v) (n := 10) hst (by decide) (by decide)
    have hfits : ∃ d ∈ chain st, Fits st.mem (heapAlignUp 10) d := by
      by_contra hno
      push Not at hno
      rw [hnone.mpr hno] at hptr
      exact absurd hptr (by simp [ptrFromHdr, hdrSize])
    obtain ⟨d, hd⟩ := hsome hfits
    have heq := (hwhere d hd).1.symm.trans hptr
    obtain rfl : d = b := by simpa [ptrFromHdr] using heq
    exact hd
  have hlarge := alloc_chooses (v := ⟨true, true⟩) (n := 41) hok' (by decide) (by decide)
  exact ⟨s, t, hrun, hrun', hsizes, hfirst, hchosen _ _ _ hok hfirst, hbest,
    hchosen _ _ _ hok' hbest, hlarge.2.2.1.mp hnull⟩

end Hdr

end VibeRtos
