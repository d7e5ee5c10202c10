import VibeRtos.Heap.Hdr
import VibeRtos.Lib.Tiling

/-!
# The block chain of the first-fit and best-fit pools

`ChainRep c mem bs` says that the headers in memory describe the blocks `bs`, that the
blocks fill the pool exactly and that `prev` and `next` link them in order. A block's
tag is the request it serves, `none` while it is FREE. Marking, splitting and merging
a block are edits of `bs` at one place, and touch header bytes only.
-/

namespace VibeRtos

open ByteMem Links Tiling

namespace Hdr

/-- A block of the pool and the request it serves. -/
abbrev HBlock := Block (Option Nat)

/-- The magic of a block. -/
def tagMagic : Option Nat → Nat
  | none => magicFree
  | some _ => magicUsed

theorem tagMagic_lt (t : Option Nat) : tagMagic t < 2 ^ 32 := by
  cases t <;> simp [tagMagic, magicFree, magicUsed]

theorem tagMagic_eq_free {t : Option Nat} : tagMagic t = magicFree ↔ t = none := by
  cases t <;> simp [tagMagic, magicFree, magicUsed]

/-- The headers in memory describe `bs`. -/
structure ChainRep (c : HeapConfig) (mem : Mem) (bs : List HBlock) : Prop where
  tiles : Tiles hdrSize c.pool bs (c.pool + c.size)
  linked : Chain (links mem) none (bs.map Block.addr) none
  sizes : ∀ b ∈ bs, size mem b.addr = b.size
  magics : ∀ b ∈ bs, magic mem b.addr = tagMagic b.tag
  aligned : ∀ b ∈ bs, 8 ∣ b.addr

/-- The bytes of the headers. -/
def HeaderByte (bs : List HBlock) (x : Nat) : Prop := ∃ b ∈ bs, b.addr ≤ x ∧ x < b.addr + hdrSize

variable {c : HeapConfig} {mem mem' : Mem} {xs ys bs : List HBlock} {b d : HBlock} {n x v : Nat}

theorem ptr_eq_none : ptr v = none ↔ v = 0 := by
  unfold ptr
  split <;> simp_all

theorem ptr_eq_some {w : Nat} (h : ptr v = some w) : v = w ∧ w ≠ 0 := by
  unfold ptr at h
  split at h
  · exact absurd h (by simp)
  · rename_i hv
    exact ⟨Option.some.inj h, by rw [← Option.some.inj h]; exact hv⟩

theorem ptr_of_ne (h : v ≠ 0) : ptr v = some v := if_neg h

/-- A header is read from its sixteen bytes. -/
theorem header_congr (h : ∀ i < 16, mem' (x + i) = mem (x + i)) :
    links mem' x = links mem x ∧ size mem' x = size mem x ∧ magic mem' x = magic mem x := by
  have hword : ∀ k, k + 4 ≤ 16 → read32 mem' (x + k) = read32 mem (x + k) := by
    intro k hk
    refine read32_congr fun i hi => ?_
    rw [Nat.add_assoc]
    exact h (k + i) (by omega)
  have h0 := hword 0 (by omega)
  have h4 := hword 4 (by omega)
  refine ⟨?_, hword 8 (by omega), hword 12 (by omega)⟩
  rw [Nat.add_zero] at h0
  simp only [links, prev, next, h0, h4]

namespace ChainRep

theorem bounds (h : ChainRep c mem bs) (hb : b ∈ bs) :
    0 < b.addr ∧ c.pool ≤ b.addr ∧ b.addr + 16 + b.size ≤ c.pool + c.size
      ∧ b.addr + 16 + b.size < 2 ^ 32 := by
  have hin := h.tiles.bounds hb
  have hpos := c.pos
  have hfits := c.fits
  unfold hdrSize at hin
  omega

/-- Only the headers matter. -/
theorem congr (h : ChainRep c mem bs) (hm : ∀ x, HeaderByte bs x → mem' x = mem x) :
    ChainRep c mem' bs := by
  have hsame : ∀ b ∈ bs, links mem' b.addr = links mem b.addr
      ∧ size mem' b.addr = size mem b.addr
      ∧ magic mem' b.addr = magic mem b.addr := by
    intro b hb
    refine header_congr fun i hi => hm _ ⟨b, hb, ?_, ?_⟩
    · omega
    · unfold hdrSize
      omega
  refine ⟨h.tiles, h.linked.congr fun a ha => ?_, fun b hb => ?_, fun b hb => ?_, h.aligned⟩
  · obtain ⟨b, hb, rfl⟩ := List.mem_map.mp ha
    exact (hsame b hb).1
  · rw [(hsame b hb).2.1]
    exact h.sizes b hb
  · rw [(hsame b hb).2.2]
    exact h.magics b hb

/-- The links of a block. -/
theorem links_at (h : ChainRep c mem (xs ++ b :: ys)) :
    ptr (prev mem b.addr) = (xs.map Block.addr).getLast?
      ∧ ptr (next mem b.addr) = (ys.map Block.addr).head? := by
  have hc := h.linked
  rw [List.map_append, List.map_cons] at hc
  have hat := hc.at
  rw [Option.or_none, Option.or_none] at hat
  exact ⟨congrArg Link.prev hat, congrArg Link.next hat⟩

theorem next_nil (h : ChainRep c mem (xs ++ [b])) : next mem b.addr = 0 :=
  ptr_eq_none.mp h.links_at.2

theorem next_cons (h : ChainRep c mem (xs ++ b :: d :: ys)) : next mem b.addr = d.addr :=
  (ptr_eq_some h.links_at.2).1

theorem prev_nil (h : ChainRep c mem (b :: ys)) : prev mem b.addr = 0 := by
  have h' : ChainRep c mem ([] ++ b :: ys) := h
  exact ptr_eq_none.mp h'.links_at.1

theorem prev_concat (h : ChainRep c mem (xs ++ d :: b :: ys)) : prev mem b.addr = d.addr := by
  have h' : ChainRep c mem ((xs ++ [d]) ++ b :: ys) := by simpa using h
  have hp := h'.links_at.1
  rw [List.map_append, List.map_cons, List.map_nil, List.getLast?_concat] at hp
  exact (ptr_eq_some hp).1

/-! ## Marking a block -/

/-- Setting the magic of a block. -/
theorem mark (h : ChainRep c mem (xs ++ b :: ys)) (t : Option Nat) :
    ChainRep c (setMagic mem b.addr (tagMagic t)) (xs ++ { b with tag := t } :: ys) := by
  have hlt := tagMagic_lt t
  -- the magic is the last word of the header, so the other words and headers stay
  have hself : links (setMagic mem b.addr (tagMagic t)) b.addr = links mem b.addr
      ∧ size (setMagic mem b.addr (tagMagic t)) b.addr = size mem b.addr := by
    simp (disch := omega) only [links, prev, next, size, setMagic, read32_write32_ne,
      and_self]
  have hothers : ∀ x ∈ xs ++ ys, ∀ i < 16,
      setMagic mem b.addr (tagMagic t) (x.addr + i) = mem (x.addr + i) := by
    intro x hx i hi
    have hapart := h.tiles.apart hx
    unfold hdrSize at hapart
    exact write32_frame (by omega)
  have hmem : ∀ x ∈ xs ++ { b with tag := t } :: ys,
      x = { b with tag := t } ∨ x ∈ xs ++ ys ∧ x ∈ xs ++ b :: ys := by
    intro x hx
    simp only [List.mem_append, List.mem_cons] at hx ⊢
    tauto
  refine ⟨h.tiles.retag t, ?_, ?_, ?_, ?_⟩
  · have hmap : (xs ++ { b with tag := t } :: ys).map Block.addr
        = (xs ++ b :: ys).map Block.addr := by simp
    rw [hmap]
    refine h.linked.congr fun a ha => ?_
    obtain ⟨x, hx, rfl⟩ := List.mem_map.mp ha
    rcases List.mem_append.mp hx with hx | hx
    · exact (header_congr (hothers x (List.mem_append_left _ hx))).1
    · rcases List.mem_cons.mp hx with rfl | hx
      · exact hself.1
      · exact (header_congr (hothers x (List.mem_append_right _ hx))).1
  · intro x hx
    rcases hmem x hx with rfl | ⟨hx, hx'⟩
    · exact hself.2.trans (h.sizes b (by simp))
    · rw [(header_congr (hothers x hx)).2.1]
      exact h.sizes x hx'
  · intro x hx
    rcases hmem x hx with rfl | ⟨hx, hx'⟩
    · exact read32_write32_eq hlt
    · rw [(header_congr (hothers x hx)).2.2]
      exact h.magics x hx'
  · intro x hx
    rcases hmem x hx with rfl | ⟨-, hx'⟩
    · exact h.aligned b (by simp)
    · exact h.aligned x hx'

end ChainRep

/-! ## Cutting and joining -/

/-- What `heapSplit` leaves in the headers it touches, and what it leaves alone: a block at `a`
of `s` bytes, in front of the block `w`, is cut at `n`. -/
structure SplitAt (mem m : Mem) (a n s w : Nat) : Prop where
  prev_low : prev m a = prev mem a
  next_low : next m a = a + 16 + n
  size_low : size m a = n
  magic_low : magic m a = magic mem a
  prev_high : prev m (a + 16 + n) = a
  next_high : next m (a + 16 + n) = w
  size_high : size m (a + 16 + n) = s - n - 16
  magic_high : magic m (a + 16 + n) = magicFree
  prev_next : w ≠ 0 → prev m w = a + 16 + n
  frame : ∀ x, (x < a + 4 ∨ a + 12 ≤ x) → (x < a + 16 + n ∨ a + 16 + n + 16 ≤ x) →
    (w = 0 ∨ x < w ∨ w + 4 ≤ x) → m x = mem x

theorem heapSplit_at {a s w : Nat} (hs : size mem a = s) (hw : next mem a = w) (hn : n + 24 ≤ s)
    (hlim : a + 16 + s < 2 ^ 32) (hbehind : w = 0 ∨ a + 16 + s ≤ w) :
    SplitAt mem (heapSplit mem a n) a n s w := by
  have hlt : w < 2 ^ 32 := hw ▸ read32_lt _ _
  have hfree : magicFree < 2 ^ 32 := by decide
  unfold heapSplit
  dsimp only
  rw [hs, if_neg (by unfold blkMinSize hdrSize; omega)]
  simp only [hdrSize]
  -- the new header does not overlap the link it copies
  have hfirst : next (setPrev mem (a + 16 + n) a) a = w := by
    rw [← hw]
    simp (disch := omega) only [next, setPrev, read32_write32_ne]
  have hsecond : next (setMagic (setSize (setNext (setPrev mem (a + 16 + n) a) (a + 16 + n) w)
      (a + 16 + n) (s - n - 16)) (a + 16 + n) magicFree) a = w := by
    rw [← hw]
    simp (disch := omega) only [next, setPrev, setNext, setSize, setMagic, read32_write32_ne]
  simp only [hfirst, hsecond]
  clear hw hfirst hsecond
  by_cases h0 : w = 0
  · rw [if_neg (by simpa using h0)]
    refine ⟨?_, ?_, ?_, ?_, ?_, ?_, ?_, ?_, fun hne => absurd h0 hne, fun x h1 h2 _ => ?_⟩
    all_goals simp (disch := omega) only [next, prev, size, magic, setPrev, setNext, setSize,
      setMagic, read32_write32_ne, read32_write32_eq, write32_frame]
  · rw [if_pos h0]
    refine ⟨?_, ?_, ?_, ?_, ?_, ?_, ?_, ?_, fun _ => ?_, fun x h1 h2 h3 => ?_⟩
    all_goals simp (disch := omega) only [next, prev, size, magic, setPrev, setNext, setSize,
      setMagic, read32_write32_ne, read32_write32_eq, write32_frame]

/-- The same for `absorb`: the block at `a`, of `s` bytes, swallows the one at `d`, of `r` bytes,
in front of the block `w`. -/
structure AbsorbAt (mem m : Mem) (a d s r w : Nat) : Prop where
  prev_low : prev m a = prev mem a
  next_low : next m a = w
  size_low : size m a = s + (16 + r)
  magic_low : magic m a = magic mem a
  prev_next : w ≠ 0 → prev m w = a
  frame : ∀ x, (x < a + 4 ∨ a + 12 ≤ x) → (w = 0 ∨ x < w ∨ w + 4 ≤ x) → m x = mem x

theorem absorb_at {a s r w : Nat} {d : Nat} (hs : size mem a = s) (hr : size mem d = r)
    (hw : next mem d = w) (hd : d = a + 16 + s) (hlim : d + 16 + r < 2 ^ 32)
    (hbehind : w = 0 ∨ d + 16 + r ≤ w) :
    AbsorbAt mem (absorb mem a d) a d s r w := by
  have hlt : w < 2 ^ 32 := hw ▸ read32_lt _ _
  unfold absorb
  dsimp only
  rw [hs, hr]
  simp only [hdrSize]
  have hfirst : next (setSize mem a (s + (16 + r))) d = w := by
    rw [← hw]
    simp (disch := omega) only [next, setSize, read32_write32_ne]
  have hsecond : next (setNext (setSize mem a (s + (16 + r))) a w) d = w := by
    rw [← hw]
    simp (disch := omega) only [next, setNext, setSize, read32_write32_ne]
  simp only [hfirst, hsecond]
  clear hw hfirst hsecond
  by_cases h0 : w = 0
  · rw [if_neg (by simpa using h0)]
    refine ⟨?_, ?_, ?_, ?_, fun hne => absurd h0 hne, fun x h1 _ => ?_⟩
    all_goals simp (disch := omega) only [next, prev, size, magic, setNext, setSize,
      read32_write32_ne, read32_write32_eq, write32_frame]
  · rw [if_pos h0]
    refine ⟨?_, ?_, ?_, ?_, fun _ => ?_, fun x h1 h2 => ?_⟩
    all_goals simp (disch := omega) only [next, prev, size, magic, setPrev, setNext, setSize,
      read32_write32_ne, read32_write32_eq, write32_frame]

namespace ChainRep

/--
Replacing neighbouring blocks. The new blocks take the place of the old ones, the first
of them at the same address; the blocks in front stay as they are, and of the blocks
behind only the first changes, in its `prev`.
-/
theorem splice {os ns : List HBlock} (h : ChainRep c mem (xs ++ (os ++ ys)))
    (ht : Tiles hdrSize c.pool (xs ++ (ns ++ ys)) (c.pool + c.size))
    (hos : os ≠ []) (hhead : (ns.map Block.addr).head? = (os.map Block.addr).head?)
    (hns : Chain (links mem') (xs.map Block.addr).getLast? (ns.map Block.addr)
      (ys.map Block.addr).head?)
    (hnew : ∀ x ∈ ns, size mem' x.addr = x.size ∧ magic mem' x.addr = tagMagic x.tag
      ∧ 8 ∣ x.addr)
    (hfront : ∀ x ∈ xs, links mem' x.addr = links mem x.addr ∧ size mem' x.addr = size mem x.addr
      ∧ magic mem' x.addr = magic mem x.addr)
    (hback : ∀ y ∈ ys, size mem' y.addr = size mem y.addr ∧ magic mem' y.addr = magic mem y.addr
      ∧ ((ys.map Block.addr).head? ≠ some y.addr → links mem' y.addr = links mem y.addr))
    (hfirst : ∀ y, ys.head? = some y →
      links mem' y.addr = { links mem y.addr with prev := (ns.map Block.addr).getLast? }) :
    ChainRep c mem' (xs ++ (ns ++ ys)) := by
  have hold := h.linked
  rw [List.map_append, List.map_append, chain_append, chain_append] at hold
  obtain ⟨hxs, -, hys⟩ := hold
  have hsome : ∃ o, (os.map Block.addr).head? = some o := by
    cases os with
    | nil => exact absurd rfl hos
    | cons o os => exact ⟨o.addr, rfl⟩
  obtain ⟨o, ho⟩ := hsome
  have hne : ns ≠ [] := by
    intro hnil
    rw [hnil, ho] at hhead
    exact absurd hhead (by simp)
  refine ⟨ht, ?_, ?_, ?_, ?_⟩
  · rw [List.map_append, List.map_append, chain_append, chain_append]
    refine ⟨?_, ?_, ?_⟩
    · -- in front: the address that the last block points on to is the same
      rw [List.head?_append, ho] at hxs
      rw [List.head?_append, hhead, ho]
      refine hxs.congr fun a ha => ?_
      obtain ⟨x, hx, rfl⟩ := List.mem_map.mp ha
      exact (hfront x hx).1
    · rw [Option.or_none, Option.or_none]
      exact hns
    · -- behind: the first block points back at the last new one
      have hlast : ((ns.map Block.addr).getLast?.or ((xs.map Block.addr).getLast?.or none))
          = (ns.map Block.addr).getLast? := by
        cases hl : (ns.map Block.addr).getLast? with
        | none => exact absurd (by simpa using hl) hne
        | some v => rfl
      rw [hlast]
      have hnodup := h.tiles.nodup_addr (by decide)
      rw [List.map_append, List.map_append] at hnodup
      refine hys.retarget_first ?_ ?_ (List.nodup_append.mp (List.nodup_append.mp hnodup).2.1).2.1
      · intro a ha hne'
        obtain ⟨y, hy, rfl⟩ := List.mem_map.mp ha
        exact (hback y hy).2.2 hne'
      · intro a ha
        rw [List.head?_map] at ha
        obtain ⟨y, hy, rfl⟩ := Option.map_eq_some_iff.mp ha
        exact hfirst y hy
  all_goals
    intro x hx
    rcases List.mem_append.mp hx with hx | hx
    · have hx' : x ∈ xs ++ (os ++ ys) := List.mem_append_left _ hx
      first
        | exact (hfront x hx).2.1.trans (h.sizes x hx')
        | exact (hfront x hx).2.2.trans (h.magics x hx')
        | exact h.aligned x hx'
    · rcases List.mem_append.mp hx with hx | hx
      · first
          | exact (hnew x hx).1
          | exact (hnew x hx).2.1
          | exact (hnew x hx).2.2
      · have hx' : x ∈ xs ++ (os ++ ys) := by simp [hx]
        first
          | exact (hback x hx).1.trans (h.sizes x hx')
          | exact (hback x hx).2.1.trans (h.magics x hx')
          | exact h.aligned x hx'

/-- The block behind, if there is one. -/
theorem behind (h : ChainRep c mem (xs ++ b :: ys)) :
    ys = [] ∧ next mem b.addr = 0
      ∨ ∃ y zs, ys = y :: zs ∧ next mem b.addr = y.addr ∧ y.addr = b.addr + 16 + b.size
        ∧ y.addr ≠ 0 := by
  cases ys with
  | nil => exact Or.inl ⟨rfl, h.next_nil⟩
  | cons y zs =>
      have hpos := (h.bounds (b := y) (by simp)).1
      exact Or.inr ⟨y, zs, rfl, h.next_cons, h.tiles.next, by omega⟩

/--
An edit at `b`: it keeps its address, the bytes in front of its links and behind its old
end stay, up to the `prev` of the block behind. What is left to say is what the new
blocks are.
-/
theorem edit (os ns : List HBlock) {e : Nat} (h : ChainRep c mem (xs ++ (b :: os ++ ys)))
    (ht : Tiles hdrSize c.pool (xs ++ (ns ++ ys)) (c.pool + c.size))
    (hhead : (ns.map Block.addr).head? = some b.addr)
    (hns : Chain (links mem') (xs.map Block.addr).getLast? (ns.map Block.addr)
      (ys.map Block.addr).head?)
    (hnew : ∀ x ∈ ns, size mem' x.addr = x.size ∧ magic mem' x.addr = tagMagic x.tag
      ∧ 8 ∣ x.addr)
    (hend : ∀ y ∈ ys, e ≤ y.addr)
    (hframe : ∀ x, (x < b.addr + 4 ∨ e ≤ x) →
      (∀ w, (ys.map Block.addr).head? = some w → x < w ∨ w + 4 ≤ x) → mem' x = mem x)
    (hprev : ∀ w, (ys.map Block.addr).head? = some w →
      ∃ l, (ns.map Block.addr).getLast? = some l ∧ l ≠ 0 ∧ prev mem' w = l) :
    ChainRep c mem' (xs ++ (ns ++ ys)) := by
  have htiles : Tiles hdrSize c.pool (xs ++ b :: (os ++ ys)) (c.pool + c.size) := h.tiles
  have hbehind : ∀ w y, (ys.map Block.addr).head? = some w → y ∈ ys → y.addr = w
      ∨ w + 16 ≤ y.addr := by
    intro w y hw hy
    cases ys with
    | nil => simp at hy
    | cons z zs =>
        obtain rfl : z.addr = w := by simpa using hw
        rcases List.mem_cons.mp hy with rfl | hy
        · exact Or.inl rfl
        · have hz : Tiles hdrSize c.pool ((xs ++ b :: os) ++ z :: zs) (c.pool + c.size) := by
            simpa using h.tiles
          have hafter := hz.after hy
          unfold hdrSize at hafter
          omega
  refine h.splice ht (by simp) (by simpa using hhead) hns hnew ?_ ?_ ?_
  · intro x hx
    refine header_congr fun i hi => hframe _ ?_ ?_
    · have hb := htiles.before hx
      unfold hdrSize at hb
      omega
    · intro w hw
      have hb := htiles.before hx
      unfold hdrSize at hb
      obtain ⟨y, hy, rfl⟩ := List.mem_map.mp (List.mem_of_mem_head? hw)
      have hy' := htiles.after (y := y) (List.mem_append_right _ hy)
      unfold hdrSize at hy'
      omega
  · intro y hy
    have he := hend y hy
    by_cases hw : (ys.map Block.addr).head? = some y.addr
    · -- the first block behind keeps all but its `prev`
      have hword : ∀ k, 4 ≤ k → k + 4 ≤ 16 →
          read32 mem' (y.addr + k) = read32 mem (y.addr + k) := by
        intro k hk hk'
        refine read32_congr fun i hi => hframe _ (by omega) ?_
        intro w hw'
        obtain rfl : y.addr = w := Option.some.inj (hw.symm.trans hw')
        omega
      exact ⟨hword 8 (by omega) (by omega), hword 12 (by omega) (by omega),
        fun hne => absurd hw hne⟩
    · have hsame : ∀ i < 16, mem' (y.addr + i) = mem (y.addr + i) := by
        intro i hi
        refine hframe _ (by omega) ?_
        intro w hw'
        rcases hbehind w y hw' hy with heq | hfar
        · exact absurd (heq ▸ hw') hw
        · omega
      have hall := header_congr hsame
      exact ⟨hall.2.1, hall.2.2, fun _ => hall.1⟩
  · intro y hy
    have hw : (ys.map Block.addr).head? = some y.addr := by
      rw [List.head?_map, hy]
      rfl
    obtain ⟨l, hl, hl0, hp⟩ := hprev y.addr hw
    have he := hend y (List.mem_of_mem_head? hy)
    have hnext : next mem' y.addr = next mem y.addr := by
      refine read32_congr fun i hi => hframe _ (by omega) ?_
      intro w hw'
      obtain rfl : y.addr = w := Option.some.inj (hw.symm.trans hw')
      omega
    rw [hl]
    simp only [links, hp, hnext, ptr_of_ne hl0]

/-- **Cutting a block.** The rest becomes a FREE block of its own. -/
theorem split (h : ChainRep c mem (xs ++ b :: ys)) (hn : n + 24 ≤ b.size) (h8 : 8 ∣ n) :
    ChainRep c (heapSplit mem b.addr n)
      (xs ++ ⟨b.addr, n, b.tag⟩ :: ⟨b.addr + 16 + n, b.size - n - 16, none⟩ :: ys) := by
  have hb := h.bounds (b := b) (by simp)
  have hbehind := h.behind
  have hlinks := h.links_at
  obtain ⟨w, hw⟩ : ∃ w, next mem b.addr = w := ⟨_, rfl⟩
  rw [hw] at hbehind hlinks
  have hcut := heapSplit_at (h.sizes b (by simp)) hw hn hb.2.2.2 (by
    rcases hbehind with ⟨-, h0⟩ | ⟨y, zs, -, hy, hy', -⟩ <;> omega)
  refine edit [] [⟨b.addr, n, b.tag⟩, ⟨b.addr + 16 + n, b.size - n - 16, none⟩]
    (e := b.addr + 16 + b.size) h ?_ rfl ?_ ?_ ?_ ?_ ?_
  · exact h.tiles.split (by unfold hdrSize; omega) _ _
  · refine ⟨?_, ?_, trivial⟩
    · simp only [links, hcut.prev_low, hcut.next_low, hlinks.1]
      rw [ptr_of_ne (by omega)]
      rfl
    · simp only [links, hcut.prev_high, hcut.next_high, hlinks.2]
      rw [ptr_of_ne (by omega)]
      rfl
  · intro x hx
    have h8b := h.aligned b (by simp)
    rcases List.mem_cons.mp hx with rfl | hx
    · exact ⟨hcut.size_low, hcut.magic_low.trans (h.magics b (by simp)), h8b⟩
    · obtain rfl := List.mem_singleton.mp hx
      refine ⟨hcut.size_high, hcut.magic_high, ?_⟩
      simp only
      omega
  · intro y hy
    exact h.tiles.after hy
  · intro x hx hw'
    rcases hbehind with ⟨-, h0⟩ | ⟨y, zs, rfl, hy, -, -⟩
    · exact hcut.frame x (by omega) (by omega) (Or.inl h0)
    · have := hw' y.addr rfl
      exact hcut.frame x (by omega) (by omega) (by omega)
  · intro v hv
    rcases hbehind with ⟨rfl, -⟩ | ⟨y, zs, rfl, rfl, -, hy0⟩
    · exact absurd hv (by simp)
    · obtain rfl : y.addr = v := by simpa using hv
      exact ⟨b.addr + 16 + n, rfl, by omega, hcut.prev_next hy0⟩

/-- **Joining two blocks.** The first keeps its address and its state. -/
theorem join (h : ChainRep c mem (xs ++ b :: d :: ys)) :
    ChainRep c (absorb mem b.addr d.addr)
      (xs ++ ⟨b.addr, b.size + (16 + d.size), b.tag⟩ :: ys) := by
  have hb := h.bounds (b := b) (by simp)
  have hd := h.bounds (b := d) (by simp)
  have hnext := h.tiles.next
  unfold hdrSize at hnext
  have h' : ChainRep c mem ((xs ++ [b]) ++ d :: ys) := by simpa using h
  have hbehind := h'.behind
  have hlinks := h'.links_at
  have hlinks_b := h.links_at
  obtain ⟨w, hw⟩ : ∃ w, next mem d.addr = w := ⟨_, rfl⟩
  rw [hw] at hbehind hlinks
  have hjoin := absorb_at (h.sizes b (by simp)) (h.sizes d (by simp)) hw (by omega) hd.2.2.2 (by
    rcases hbehind with ⟨-, h0⟩ | ⟨y, zs, -, hy, hy', -⟩ <;> omega)
  refine edit [d] [⟨b.addr, b.size + (16 + d.size), b.tag⟩] (e := d.addr + 16 + d.size) h
    ?_ rfl ?_ ?_ ?_ ?_ ?_
  · exact h.tiles.merge _
  · refine ⟨?_, trivial⟩
    simp only [links, hjoin.prev_low, hjoin.next_low, hlinks_b.1, hlinks.2]
    rfl
  · intro x hx
    obtain rfl := List.mem_singleton.mp hx
    exact ⟨hjoin.size_low, hjoin.magic_low.trans (h.magics b (by simp)), h.aligned b (by simp)⟩
  · intro y hy
    exact h'.tiles.after hy
  · intro x hx hw'
    rcases hbehind with ⟨-, h0⟩ | ⟨y, zs, rfl, hy, -, -⟩
    · exact hjoin.frame x (by omega) (Or.inl h0)
    · have := hw' y.addr rfl
      exact hjoin.frame x (by omega) (by omega)
  · intro v hv
    rcases hbehind with ⟨rfl, -⟩ | ⟨y, zs, rfl, rfl, -, hy0⟩
    · exact absurd hv (by simp)
    · obtain rfl : y.addr = v := by simpa using hv
      exact ⟨b.addr, rfl, by omega, hjoin.prev_next hy0⟩

/-! ## Only header bytes change -/

theorem mark_frame (t : Option Nat) (hx : ¬ HeaderByte (xs ++ { b with tag := t } :: ys) x) :
    setMagic mem b.addr v x = mem x := by
  refine write32_frame ?_
  by_contra hin
  refine hx ⟨{ b with tag := t }, by simp, ?_⟩
  unfold hdrSize
  simp only
  omega

theorem split_frame (h : ChainRep c mem (xs ++ b :: ys)) (hn : n + 24 ≤ b.size)
    (hx : ¬ HeaderByte
      (xs ++ ⟨b.addr, n, b.tag⟩ :: ⟨b.addr + 16 + n, b.size - n - 16, none⟩ :: ys) x) :
    heapSplit mem b.addr n x = mem x := by
  have hb := h.bounds (b := b) (by simp)
  have hbehind := h.behind
  obtain ⟨w, hw⟩ : ∃ w, next mem b.addr = w := ⟨_, rfl⟩
  rw [hw] at hbehind
  have hcut := heapSplit_at (h.sizes b (by simp)) hw hn hb.2.2.2 (by
    rcases hbehind with ⟨-, h0⟩ | ⟨y, zs, -, hy, hy', -⟩ <;> omega)
  have hout : ∀ d ∈ xs ++ (⟨b.addr, n, b.tag⟩ : HBlock)
      :: ⟨b.addr + 16 + n, b.size - n - 16, none⟩ :: ys, x < d.addr ∨ d.addr + 16 ≤ x := by
    intro d hd
    by_contra hin
    refine hx ⟨d, hd, ?_⟩
    unfold hdrSize
    omega
  have h1 := hout ⟨b.addr, n, b.tag⟩ (by simp)
  have h2 := hout ⟨b.addr + 16 + n, b.size - n - 16, none⟩ (by simp)
  simp only at h1 h2
  refine hcut.frame x (by omega) h2 ?_
  rcases hbehind with ⟨-, h0⟩ | ⟨y, zs, rfl, hy, -, -⟩
  · exact Or.inl h0
  · have h3 := hout y (by simp)
    omega

theorem join_frame (h : ChainRep c mem (xs ++ b :: d :: ys))
    (hx : ¬ HeaderByte (xs ++ ⟨b.addr, b.size + (16 + d.size), b.tag⟩ :: ys) x) :
    absorb mem b.addr d.addr x = mem x := by
  have hd := h.bounds (b := d) (by simp)
  have hnext := h.tiles.next
  unfold hdrSize at hnext
  have h' : ChainRep c mem ((xs ++ [b]) ++ d :: ys) := by simpa using h
  have hbehind := h'.behind
  obtain ⟨w, hw⟩ : ∃ w, next mem d.addr = w := ⟨_, rfl⟩
  rw [hw] at hbehind
  have hjoin := absorb_at (h.sizes b (by simp)) (h.sizes d (by simp)) hw (by omega) hd.2.2.2 (by
    rcases hbehind with ⟨-, h0⟩ | ⟨y, zs, -, hy, hy', -⟩ <;> omega)
  have hout : ∀ e ∈ xs ++ (⟨b.addr, b.size + (16 + d.size), b.tag⟩ : HBlock) :: ys,
      x < e.addr ∨ e.addr + 16 ≤ x := by
    intro e he
    by_contra hin
    refine hx ⟨e, he, ?_⟩
    unfold hdrSize
    omega
  have h1 := hout ⟨b.addr, b.size + (16 + d.size), b.tag⟩ (by simp)
  simp only at h1
  refine hjoin.frame x (by omega) ?_
  rcases hbehind with ⟨-, h0⟩ | ⟨y, zs, rfl, hy, -, -⟩
  · exact Or.inl h0
  · have h3 := hout y (by simp)
    omega

/-- Payloads hold no header bytes. -/
theorem payload (h : ChainRep c mem bs) (hb : b ∈ bs) {i : Nat} (hi : i < b.size) :
    ¬ HeaderByte bs (b.addr + 16 + i) := by
  intro ⟨d, hd, hlo, hhi⟩
  unfold hdrSize at hhi
  by_cases hne : b.addr = d.addr
  · omega
  · have hapart := h.tiles.apart_of_ne hb hd hne
    unfold hdrSize at hapart
    omega

end ChainRep

end Hdr

end VibeRtos
