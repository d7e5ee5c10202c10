import VibeRtos.Heap.Tlsf
import VibeRtos.Lib.Tiling

/-!
# The physical blocks of TLSF

`Headers c mem zs` says that the block headers in memory describe `zs`: the blocks fill
the pool behind the control structure, `prev_phys` is the address of the block in front,
and `size_flags` is the size with the two flags. A block's tag is the request it serves,
`none` while it counts as free, and its IS_FREE flag; its PREV_FREE flag says whether the
block in front counts as free. Marking, splitting and joining are edits of `zs` at one
place, and touch header bytes only.
-/

namespace VibeRtos

open ByteMem Bits Tiling

namespace Tlsf

/-- What is known about a block: the request it serves, and its IS_FREE flag. -/
structure BlockTag where
  req : Option Nat
  isFree : Bool
  deriving DecidableEq

/-- A block of the pool. -/
abbrev TBlock := Block BlockTag

/-- The flags of a header. -/
def flags (isFree prevFree : Bool) : Nat := isFree.toNat + 2 * prevFree.toNat

/-- The block in front counts as free. -/
def prevIsFree (p : Option TBlock) : Bool := p.any fun b => b.tag.req.isNone

/-- The address of the block in front. -/
def prevAddr (p : Option TBlock) : Nat := (p.map Block.addr).getD 0

/-- The header of `b`, with `p` in front of it. -/
structure Header (mem : Mem) (p : Option TBlock) (b : TBlock) : Prop where
  prev : prevPhys mem b.addr = prevAddr p
  word : sizeFlags mem b.addr = b.size + flags b.tag.isFree (prevIsFree p)

/-- The headers of the blocks `zs`, with `p` in front of them. -/
def Linked (mem : Mem) : Option TBlock → List TBlock → Prop
  | _, [] => True
  | p, b :: zs => Header mem p b ∧ Linked mem (some b) zs

/-- The headers in memory describe `zs`. -/
structure Headers (c : HeapConfig) (mem : Mem) (zs : List TBlock) : Prop where
  tiles : Tiles blockHdrOffset (poolStart c.pool) zs (c.pool + c.size)
  linked : Linked mem none zs
  aligned : ∀ b ∈ zs, 8 ∣ b.size

/-- The bytes of the headers. -/
def HeaderByte (zs : List TBlock) (x : Nat) : Prop := ∃ b ∈ zs, b.addr ≤ x ∧ x < b.addr + 8

variable {c : HeapConfig} {mem mem' : Mem} {xs ys zs news olds : List TBlock} {b d y : TBlock}
  {p : Option TBlock} {i j : Bool} {a n s x v : Nat}

/-! ## The word with the size and the flags -/

theorem flags_lt (i j : Bool) : flags i j < 2 ^ 2 := by
  cases i <;> cases j <;> decide

/-- The flags are the low bits of the word. -/
theorem word_eq (h4 : 4 ∣ s) : s + flags i j = 2 ^ 2 * (s / 4) + flags i j := by
  omega

section Word

variable (hw : sizeFlags mem a = s + flags i j) (h4 : 4 ∣ s) (hs : s + 3 < 2 ^ 32)
include hw h4

theorem blockIsFree_iff : blockIsFree mem a ↔ i = true := by
  rw [blockIsFree, hw, word_eq h4, and_low (flags_lt i j) (by decide)]
  cases i <;> cases j <;> decide

theorem blockPrevIsFree_iff : blockPrevIsFree mem a ↔ j = true := by
  rw [blockPrevIsFree, hw, word_eq h4, and_low (flags_lt i j) (by decide)]
  cases i <;> cases j <;> decide

theorem flags_eq : sizeFlags mem a &&& not32 blockSizeMask = flags i j := by
  rw [hw, word_eq h4, and_low (flags_lt i j) (by decide)]
  cases i <;> cases j <;> decide

theorem blockSetFree_eq : blockSetFree mem a = setSizeFlags mem a (s + flags true j) := by
  rw [blockSetFree, hw, word_eq h4, or_low (flags_lt i j) (by decide), word_eq h4]
  cases i <;> cases j <;> rfl

theorem blockSetPrevFree_eq : blockSetPrevFree mem a = setSizeFlags mem a (s + flags i true) := by
  rw [blockSetPrevFree, hw, word_eq h4, or_low (flags_lt i j) (by decide), word_eq h4]
  cases i <;> cases j <;> rfl

include hs

theorem blockSize_eq : blockSize mem a = s := by
  have hlt := flags_lt i j
  have hmask := and_not32_mask (q := s / 4) hlt (by decide) (by omega)
  rw [blockSize, hw, word_eq h4]
  exact hmask.trans (by omega)

theorem blockSetUsed_eq : blockSetUsed mem a = setSizeFlags mem a (s + flags false j) := by
  have hlt := flags_lt i j
  rw [blockSetUsed, hw, word_eq h4, and_not32_low hlt (by decide) (by decide) (by omega),
    word_eq h4]
  cases i <;> cases j <;> rfl

theorem blockSetPrevUsed_eq : blockSetPrevUsed mem a = setSizeFlags mem a (s + flags i false) := by
  have hlt := flags_lt i j
  rw [blockSetPrevUsed, hw, word_eq h4, and_not32_low hlt (by decide) (by decide) (by omega),
    word_eq h4]
  cases i <;> cases j <;> rfl

end Word

/-- Putting a size and flags together. -/
theorem flags_or_size (h4 : 4 ∣ s) : flags i j ||| s = s + flags i j := by
  have hor := or_low (q := s / 4) (by decide : 0 < 2 ^ 2) (flags_lt i j)
  rw [Nat.add_zero, Nat.zero_or] at hor
  rw [Nat.or_comm, word_eq h4, ← hor]
  congr 1
  omega

theorem blockSetSize_eq (hw : sizeFlags mem a = n + flags i j) (hn : 4 ∣ n) (h4 : 4 ∣ s)
    (hs : s < 2 ^ 32) : blockSetSize mem a s = setSizeFlags mem a (s + flags i j) := by
  have hmask := and_not32_mask (q := s / 4) (by decide : 0 < 2 ^ 2) (by decide) (by omega)
  have hs' : s &&& blockSizeMask = s := by
    have heq : 2 ^ 2 * (s / 4) + 0 = s := by omega
    rw [heq] at hmask
    exact hmask.trans (by omega)
  rw [blockSetSize, flags_eq hw hn, hs', flags_or_size h4]

/-! ## Reading the headers -/

theorem linked_append : ∀ {p : Option TBlock}, Linked mem p (xs ++ ys) ↔
    Linked mem p xs ∧ Linked mem (xs.getLast?.or p) ys := by
  induction xs with
  | nil => simp [Linked]
  | cons x xs ih =>
      intro p
      have hlast : (x :: xs).getLast?.or p = xs.getLast?.or (some x) := by
        cases hl : xs.getLast? <;> simp [List.getLast?_cons, hl]
      rw [List.cons_append, Linked, Linked, ih, hlast, and_assoc]

/-- A header is read from its eight bytes. -/
theorem Header.congr (h : Header mem p b) (hm : ∀ i < 8, mem' (b.addr + i) = mem (b.addr + i)) :
    Header mem' p b := by
  have hprev : prevPhys mem' b.addr = prevPhys mem b.addr :=
    read32_congr fun i hi => hm i (by omega)
  have hword : sizeFlags mem' b.addr = sizeFlags mem b.addr := by
    refine read32_congr fun i hi => ?_
    have hm' := hm (4 + i) (by omega)
    rwa [← Nat.add_assoc] at hm'
  exact ⟨hprev.trans h.prev, hword.trans h.word⟩

theorem Linked.congr : ∀ {p : Option TBlock}, Linked mem p zs →
    (∀ b ∈ zs, ∀ i < 8, mem' (b.addr + i) = mem (b.addr + i)) → Linked mem' p zs := by
  induction zs with
  | nil => exact fun _ _ => trivial
  | cons b zs ih =>
      intro p h hm
      exact ⟨h.1.congr (hm b List.mem_cons_self),
        ih h.2 fun d hd => hm d (List.mem_cons_of_mem _ hd)⟩

namespace Headers

theorem bounds (h : Headers c mem zs) (hb : b ∈ zs) :
    c.pool + 744 ≤ b.addr ∧ b.addr + 8 + b.size ≤ c.pool + c.size
      ∧ b.addr + 8 + b.size < 2 ^ 32 := by
  have hin := h.tiles.bounds hb
  have hfits := c.fits
  rw [show poolStart c.pool = c.pool + 744 from rfl] at hin
  unfold blockHdrOffset at hin
  omega

/-- Only the headers matter. -/
theorem congr (h : Headers c mem zs) (hm : ∀ x, HeaderByte zs x → mem' x = mem x) :
    Headers c mem' zs :=
  ⟨h.tiles, h.linked.congr fun b hb i hi => hm _ ⟨b, hb, by omega, by omega⟩, h.aligned⟩

/-- The payload of a block holds no header. -/
theorem payload (h : Headers c mem zs) (hb : b ∈ zs) (hn : n < b.size) :
    ¬ HeaderByte zs (b.addr + 8 + n) := by
  rintro ⟨d, hd, hlow, hhigh⟩
  by_cases he : d.addr = b.addr
  · omega
  · have hapart := h.tiles.apart_of_ne hd hb he
    unfold blockHdrOffset at hapart
    omega

theorem header (h : Headers c mem (xs ++ b :: ys)) : Header mem xs.getLast? b := by
  have hl := (linked_append.mp h.linked).2.1
  rwa [Option.or_none] at hl

theorem next_addr (h : Headers c mem (xs ++ b :: y :: ys)) : y.addr = b.addr + 8 + b.size :=
  h.tiles.next

theorem four_dvd (h : Headers c mem zs) (hb : b ∈ zs) : 4 ∣ b.size :=
  Nat.dvd_trans (by decide) (h.aligned b hb)

theorem size_eq (h : Headers c mem (xs ++ b :: ys)) : blockSize mem b.addr = b.size := by
  have hb : b ∈ xs ++ b :: ys := by simp
  have hlim := h.bounds hb
  have h8 := h.aligned b hb
  exact blockSize_eq h.header.word (h.four_dvd hb) (by omega)

theorem size_of_mem (h : Headers c mem zs) (hb : b ∈ zs) : blockSize mem b.addr = b.size := by
  obtain ⟨xs, ys, rfl⟩ := List.append_of_mem hb
  exact h.size_eq

theorem isFree_iff (h : Headers c mem (xs ++ b :: ys)) :
    blockIsFree mem b.addr ↔ b.tag.isFree = true :=
  blockIsFree_iff h.header.word (h.four_dvd (by simp))

theorem prevIsFree_iff (h : Headers c mem (xs ++ b :: ys)) :
    blockPrevIsFree mem b.addr ↔ prevIsFree xs.getLast? = true :=
  blockPrevIsFree_iff h.header.word (h.four_dvd (by simp))

theorem blockNext_eq (h : Headers c mem (xs ++ b :: y :: ys)) : blockNext mem b.addr = y.addr := by
  rw [blockNext, h.size_eq, h.next_addr]
  rfl

end Headers

/-! ## Edits -/

theorem start_unique {h a' z : Nat} {τ : Type} {bs : List (Block τ)} (ht : Tiles h a bs z)
    (ht' : Tiles h a' bs z) : a = a' := by
  cases bs with
  | nil => exact Eq.trans ht ht'.symm
  | cons b bs => exact ht.1.symm.trans ht'.1

/-- **An edit of neighbouring blocks.** The blocks `olds`, from `a` up to the block `y`, become
`news`; bytes in front of them and behind the header of `y` stay. -/
theorem Headers.edit (h : Headers c mem (xs ++ (olds ++ y :: ys)))
    (hold : Tiles blockHdrOffset a olds y.addr) (hnew : Tiles blockHdrOffset a news y.addr)
    (hal : ∀ d ∈ news, 8 ∣ d.size) (hl : Linked mem' xs.getLast? (news ++ [y]))
    (hm : ∀ x, x < a ∨ y.addr + 8 ≤ x → mem' x = mem x) :
    Headers c mem' (xs ++ (news ++ y :: ys)) := by
  obtain ⟨m, hxs, hrest⟩ := tiles_append.mp h.tiles
  obtain ⟨m', holds, hy, hys⟩ := tiles_append.mp hrest
  obtain rfl : m' = y.addr := hy.symm
  obtain rfl : m = a := start_unique holds hold
  refine ⟨tiles_append.mpr ⟨m, hxs, tiles_append.mpr ⟨y.addr, hnew, hy, hys⟩⟩, ?_, ?_⟩
  · obtain ⟨hlx, hlr⟩ := linked_append.mp h.linked
    have hlx' : Linked mem' none xs := hlx.congr fun d hd i hi => by
      have hin := hxs.bounds hd
      unfold blockHdrOffset at hin
      exact hm _ (by omega)
    have hly : Linked mem (some y) ys := (linked_append.mp hlr).2.2
    have hly' : Linked mem' (some y) ys := hly.congr fun d hd i hi => by
      have hin := hys.bounds hd
      unfold blockHdrOffset at hin
      exact hm _ (by omega)
    refine linked_append.mpr ⟨hlx', ?_⟩
    obtain ⟨hnews, hyl, -⟩ := linked_append.mp hl
    rw [Option.or_none]
    exact linked_append.mpr ⟨hnews, hyl, hly'⟩
  · intro d hd
    rcases List.mem_append.mp hd with hd | hd
    · exact h.aligned d (List.mem_append_left _ hd)
    · rcases List.mem_append.mp hd with hd | hd
      · exact hal d hd
      · exact h.aligned d (List.mem_append_right _ (List.mem_append_right _ hd))

/-- A step that writes headers: afterwards they describe `zs`, and nothing else has changed. -/
structure HeaderStep (c : HeapConfig) (mem mem' : Mem) (zs : List TBlock) : Prop where
  headers : Headers c mem' zs
  frame : ∀ x, ¬ HeaderByte zs x → mem' x = mem x

theorem setSizeFlags_frame (ha : a ∈ zs.map Block.addr) (hx : ¬ HeaderByte zs x) :
    setSizeFlags mem a v x = mem x := by
  obtain ⟨b, hb, rfl⟩ := List.mem_map.mp ha
  refine write32_frame ?_
  by_contra hin
  exact hx ⟨b, hb, by omega, by omega⟩

theorem setPrevPhys_frame (ha : a ∈ zs.map Block.addr) (hx : ¬ HeaderByte zs x) :
    setPrevPhys mem a v x = mem x := by
  obtain ⟨b, hb, rfl⟩ := List.mem_map.mp ha
  refine write32_frame ?_
  by_contra hin
  exact hx ⟨b, hb, by omega, by omega⟩

namespace Headers

theorem header_next (h : Headers c mem (xs ++ b :: y :: ys)) : Header mem (some b) y := by
  have h' : Headers c mem ((xs ++ [b]) ++ y :: ys) := by simpa using h
  have hy := h'.header
  rwa [List.getLast?_concat] at hy

/-- Setting or clearing IS_FREE. -/
theorem setIsFree (h : Headers c mem (xs ++ b :: y :: ys)) (f : Bool) :
    HeaderStep c mem (setSizeFlags mem b.addr (b.size + flags f (prevIsFree xs.getLast?)))
      (xs ++ ⟨b.addr, b.size, ⟨b.tag.req, f⟩⟩ :: y :: ys) := by
  have hb : b ∈ xs ++ b :: y :: ys := by simp
  have hlim := h.bounds hb
  have hnext := h.next_addr
  have hflags := flags_lt f (prevIsFree xs.getLast?)
  have h8 := h.aligned b hb
  have hlinked : Linked (setSizeFlags mem b.addr (b.size + flags f (prevIsFree xs.getLast?)))
      xs.getLast? ([⟨b.addr, b.size, ⟨b.tag.req, f⟩⟩] ++ [y]) := by
    refine ⟨⟨?_, ?_⟩, ⟨?_, ?_⟩, trivial⟩
    · exact (read32_write32_ne (by simp only; omega)).trans h.header.prev
    · exact read32_write32_eq (by omega)
    · exact (read32_write32_ne (by omega)).trans h.header_next.prev
    · exact (read32_write32_ne (by omega)).trans h.header_next.word
  have h' : Headers c mem (xs ++ ([b] ++ y :: ys)) := h
  have hnew : Tiles blockHdrOffset b.addr [(⟨b.addr, b.size, ⟨b.tag.req, f⟩⟩ : TBlock)] y.addr :=
    ⟨rfl, hnext.symm⟩
  refine ⟨h'.edit ⟨rfl, hnext.symm⟩ hnew (by simpa using h8) hlinked
    fun x hx => write32_frame (by omega), fun x hx => ?_⟩
  exact setSizeFlags_frame (by simp) hx

/-- Setting or clearing PREV_FREE of the next block decides whether this one counts as free. -/
theorem setReq (h : Headers c mem (xs ++ b :: y :: ys)) (r : Option Nat) :
    HeaderStep c mem (setSizeFlags mem y.addr (y.size + flags y.tag.isFree r.isNone))
      (xs ++ ⟨b.addr, b.size, ⟨r, b.tag.isFree⟩⟩ :: y :: ys) := by
  have hb : b ∈ xs ++ b :: y :: ys := by simp
  have hy : y ∈ xs ++ b :: y :: ys := by simp
  have hlim := h.bounds hy
  have hnext := h.next_addr
  have hflags := flags_lt y.tag.isFree r.isNone
  have h8 := h.aligned y hy
  have hlinked : Linked (setSizeFlags mem y.addr (y.size + flags y.tag.isFree r.isNone))
      xs.getLast? ([⟨b.addr, b.size, ⟨r, b.tag.isFree⟩⟩] ++ [y]) := by
    refine ⟨⟨?_, ?_⟩, ⟨?_, ?_⟩, trivial⟩
    · exact (read32_write32_ne (by simp only; omega)).trans h.header.prev
    · exact (read32_write32_ne (by simp only; omega)).trans h.header.word
    · exact (read32_write32_ne (by omega)).trans h.header_next.prev
    · exact read32_write32_eq (by omega)
  have h' : Headers c mem (xs ++ ([b] ++ y :: ys)) := h
  have hnew : Tiles blockHdrOffset b.addr [(⟨b.addr, b.size, ⟨r, b.tag.isFree⟩⟩ : TBlock)] y.addr :=
    ⟨rfl, hnext.symm⟩
  refine ⟨h'.edit ⟨rfl, hnext.symm⟩ hnew (by simpa using h.aligned b hb) hlinked
    fun x hx => write32_frame (by omega), fun x hx => ?_⟩
  exact setSizeFlags_frame (by simp) hx

/-- **Joining.** The block swallows the one behind it, whose place it takes: it counts as free
if that one did. -/
theorem join (h : Headers c mem (xs ++ b :: d :: y :: ys)) :
    HeaderStep c mem (setPrevPhys (setSizeFlags mem b.addr
        (b.size + (8 + d.size) + flags b.tag.isFree (prevIsFree xs.getLast?))) y.addr b.addr)
      (xs ++ ⟨b.addr, b.size + (8 + d.size), ⟨d.tag.req, b.tag.isFree⟩⟩ :: y :: ys) := by
  have hb : b ∈ xs ++ b :: d :: y :: ys := by simp
  have hd : d ∈ xs ++ b :: d :: y :: ys := by simp
  have hlim := h.bounds hd
  have hdb := h.next_addr
  have hyd : Headers c mem ((xs ++ [b]) ++ d :: y :: ys) := by simpa using h
  have hnext := hyd.next_addr
  have hflags := flags_lt b.tag.isFree (prevIsFree xs.getLast?)
  have h8 := h.aligned b hb
  have h8' := h.aligned d hd
  have hlinked : Linked (setPrevPhys (setSizeFlags mem b.addr
        (b.size + (8 + d.size) + flags b.tag.isFree (prevIsFree xs.getLast?))) y.addr b.addr)
      xs.getLast? ([⟨b.addr, b.size + (8 + d.size), ⟨d.tag.req, b.tag.isFree⟩⟩] ++ [y]) := by
    refine ⟨⟨?_, ?_⟩, ⟨?_, ?_⟩, trivial⟩
    · refine (read32_write32_ne (by simp only; omega)).trans ?_
      exact (read32_write32_ne (by simp only; omega)).trans h.header.prev
    · refine (read32_write32_ne (by simp only; omega)).trans ?_
      exact read32_write32_eq (by omega)
    · exact read32_write32_eq (by omega)
    · refine (read32_write32_ne (by omega)).trans ?_
      exact (read32_write32_ne (by omega)).trans hyd.header_next.word
  have h' : Headers c mem (xs ++ ([b, d] ++ y :: ys)) := h
  have hold : Tiles blockHdrOffset b.addr [b, d] y.addr := by
    refine ⟨rfl, hdb, ?_⟩
    simp only [Tiles, blockHdrOffset]
    omega
  have hnew : Tiles blockHdrOffset b.addr
      [(⟨b.addr, b.size + (8 + d.size), ⟨d.tag.req, b.tag.isFree⟩⟩ : TBlock)] y.addr := by
    refine ⟨rfl, ?_⟩
    simp only [Tiles, blockHdrOffset]
    omega
  have hal : 8 ∣ b.size + (8 + d.size) := by omega
  refine ⟨h'.edit hold hnew (by simpa using hal) hlinked fun x hx => ?_, fun x hx => ?_⟩
  · exact (write32_frame (by omega)).trans (write32_frame (by omega))
  · exact (setPrevPhys_frame (by simp) hx).trans (setSizeFlags_frame (by simp) hx)

/-- **Cutting.** A block that counts as free is cut at `n`; the front serves a request, the
rest counts as free. -/
theorem cut (h : Headers c mem (xs ++ b :: y :: ys)) (hreq : b.tag.req = none)
    (hn : n + 8 ≤ b.size) (h8n : 8 ∣ n) (r : Nat) {m : Mem}
    (hm : m = setPrevPhys (setSizeFlags (setPrevPhys (setSizeFlags mem (b.addr + 8 + n)
        (b.size - n - 8)) (b.addr + 8 + n) b.addr) b.addr
        (n + flags b.tag.isFree (prevIsFree xs.getLast?))) y.addr (b.addr + 8 + n)) :
    HeaderStep c mem m (xs ++ ⟨b.addr, n, ⟨some r, b.tag.isFree⟩⟩
      :: ⟨b.addr + 8 + n, b.size - n - 8, ⟨none, false⟩⟩ :: y :: ys) := by
  have hb : b ∈ xs ++ b :: y :: ys := by simp
  have hlim := h.bounds hb
  have hnext := h.next_addr
  have hflags := flags_lt b.tag.isFree (prevIsFree xs.getLast?)
  have h8 := h.aligned b hb
  have hylim := h.bounds (b := y) (by simp)
  have hlinked : Linked m xs.getLast? ([⟨b.addr, n, ⟨some r, b.tag.isFree⟩⟩,
      ⟨b.addr + 8 + n, b.size - n - 8, ⟨none, false⟩⟩] ++ [y]) := by
    have hyword : sizeFlags mem y.addr = y.size + flags y.tag.isFree true := by
      have hword := h.header_next.word
      rwa [show prevIsFree (some b) = true by simp [prevIsFree, hreq]] at hword
    subst hm
    refine ⟨⟨?_, ?_⟩, ⟨?_, ?_⟩, ⟨?_, ?_⟩, trivial⟩
    · rw [← h.header.prev]
      simp (disch := omega) only [prevPhys, setPrevPhys, setSizeFlags, read32_write32_ne]
    · simp (disch := omega) only [sizeFlags, setPrevPhys, setSizeFlags, read32_write32_ne,
        read32_write32_eq]
    · simp (disch := omega) only [prevPhys, setPrevPhys, setSizeFlags, read32_write32_ne,
        read32_write32_eq]
      rfl
    · simp (disch := omega) only [sizeFlags, setPrevPhys, setSizeFlags, read32_write32_ne,
        read32_write32_eq]
      rfl
    · simp (disch := omega) only [prevPhys, setPrevPhys, setSizeFlags, read32_write32_eq]
      rfl
    · refine Eq.trans ?_ hyword
      simp (disch := omega) only [sizeFlags, setPrevPhys, setSizeFlags, read32_write32_ne]
  have h' : Headers c mem (xs ++ ([b] ++ y :: ys)) := h
  have hnew : Tiles blockHdrOffset b.addr [(⟨b.addr, n, ⟨some r, b.tag.isFree⟩⟩ : TBlock),
      ⟨b.addr + 8 + n, b.size - n - 8, ⟨none, false⟩⟩] y.addr := by
    refine ⟨rfl, rfl, ?_⟩
    simp only [Tiles, blockHdrOffset]
    omega
  have hal : 8 ∣ b.size - n - 8 := by omega
  refine ⟨h'.edit ⟨rfl, hnext.symm⟩ hnew (by simp only [List.forall_mem_cons]; simp [h8n, hal])
    hlinked fun x hx => ?_, fun x hx => ?_⟩
  · subst hm
    simp (disch := omega) only [setPrevPhys, setSizeFlags, write32_frame]
  · subst hm
    rw [setPrevPhys_frame (by simp) hx, setSizeFlags_frame (by simp) hx,
      setPrevPhys_frame (by simp) hx, setSizeFlags_frame (by simp) hx]

end Headers

/-! ## The steps of the source -/

theorem headerByte_congr {zs' : List TBlock} (h : zs.map Block.addr = zs'.map Block.addr) :
    HeaderByte zs x ↔ HeaderByte zs' x := by
  have hany : ∀ ws : List TBlock,
      HeaderByte ws x ↔ ∃ a ∈ ws.map Block.addr, a ≤ x ∧ x < a + 8 := by
    intro ws
    simp [HeaderByte]
  rw [hany, hany, h]

theorem HeaderStep.trans {m : Mem} {zs' : List TBlock} (h : HeaderStep c mem mem' zs)
    (h' : HeaderStep c mem' m zs') (ha : zs.map Block.addr = zs'.map Block.addr) :
    HeaderStep c mem m zs' :=
  ⟨h'.headers, fun x hx => (h'.frame x hx).trans
    (h.frame x fun hb => hx ((headerByte_congr ha).mp hb))⟩

namespace Headers

theorem setFree_step (h : Headers c mem (xs ++ b :: y :: ys)) :
    HeaderStep c mem (blockSetFree mem b.addr)
      (xs ++ ⟨b.addr, b.size, ⟨b.tag.req, true⟩⟩ :: y :: ys) := by
  rw [blockSetFree_eq h.header.word (h.four_dvd (by simp))]
  exact h.setIsFree true

theorem setUsed_step (h : Headers c mem (xs ++ b :: y :: ys)) :
    HeaderStep c mem (blockSetUsed mem b.addr)
      (xs ++ ⟨b.addr, b.size, ⟨b.tag.req, false⟩⟩ :: y :: ys) := by
  have hb : b ∈ xs ++ b :: y :: ys := by simp
  have hlim := h.bounds hb
  have h8 := h.aligned b hb
  rw [blockSetUsed_eq h.header.word (h.four_dvd hb) (by omega)]
  exact h.setIsFree false

theorem setPrevFree_step (h : Headers c mem (xs ++ b :: y :: ys)) :
    HeaderStep c mem (blockSetPrevFree mem y.addr)
      (xs ++ ⟨b.addr, b.size, ⟨none, b.tag.isFree⟩⟩ :: y :: ys) := by
  rw [blockSetPrevFree_eq h.header_next.word (h.four_dvd (by simp))]
  exact h.setReq none

theorem setPrevUsed_step (h : Headers c mem (xs ++ b :: y :: ys)) (r : Nat) :
    HeaderStep c mem (blockSetPrevUsed mem y.addr)
      (xs ++ ⟨b.addr, b.size, ⟨some r, b.tag.isFree⟩⟩ :: y :: ys) := by
  have hy : y ∈ xs ++ b :: y :: ys := by simp
  have hlim := h.bounds hy
  have h8 := h.aligned y hy
  rw [blockSetPrevUsed_eq h.header_next.word (h.four_dvd hy) (by omega)]
  exact h.setReq (some r)

/-- `block_split`, and the flag its caller clears. -/
theorem split_step (h : Headers c mem (xs ++ b :: y :: ys)) (hreq : b.tag.req = none)
    (hn : n + 8 ≤ b.size) (h8n : 8 ∣ n) (r : Nat) :
    (blockSplit mem b.addr n).2 = b.addr + 8 + n
      ∧ HeaderStep c mem (blockSetPrevUsed (blockSplit mem b.addr n).1 (blockSplit mem b.addr n).2)
        (xs ++ ⟨b.addr, n, ⟨some r, b.tag.isFree⟩⟩
          :: ⟨b.addr + 8 + n, b.size - n - 8, ⟨none, false⟩⟩ :: y :: ys) := by
  have hb : b ∈ xs ++ b :: y :: ys := by simp
  have hlim := h.bounds hb
  have h8 := h.aligned b hb
  have hnext := h.next_addr
  refine ⟨rfl, ?_⟩
  have hrem : sub32 (sub32 (blockSize mem b.addr) n) blockHdrOffset = b.size - n - 8 := by
    have hinner : sub32 b.size n = b.size - n := sub32_eq (by omega) (by omega)
    rw [h.size_eq, hinner]
    exact sub32_eq (b := 8) (by omega) (by omega)
  obtain ⟨m₁, hm₁⟩ : ∃ m, setPrevPhys (setSizeFlags mem (b.addr + 8 + n) (b.size - n - 8))
      (b.addr + 8 + n) b.addr = m := ⟨_, rfl⟩
  have hword : sizeFlags m₁ b.addr = b.size + flags b.tag.isFree (prevIsFree xs.getLast?) := by
    rw [← h.header.word, ← hm₁]
    simp (disch := omega) only [sizeFlags, setPrevPhys, setSizeFlags, read32_write32_ne]
  have hset := blockSetSize_eq hword (h.four_dvd hb) (s := n) (by omega) (by omega)
  -- the residual block ends where the old one did
  have hafter : blockNext (blockSetSize m₁ b.addr n) (b.addr + 8 + n) = y.addr := by
    have hsize : sizeFlags (blockSetSize m₁ b.addr n) (b.addr + 8 + n)
        = b.size - n - 8 + flags false false := by
      rw [hset, ← hm₁]
      simp (disch := omega) only [sizeFlags, setPrevPhys, setSizeFlags, read32_write32_ne,
        read32_write32_eq]
      rfl
    rw [blockNext, blockSize_eq hsize (by omega) (by omega), hnext]
    unfold blockHdrOffset
    omega
  have hsplit : (blockSplit mem b.addr n).1
      = setPrevPhys (blockSetSize m₁ b.addr n) y.addr (b.addr + 8 + n) := by
    unfold blockSplit blockToPtr
    dsimp only
    rw [hrem]
    simp only [show blockHdrOffset = 8 from rfl, hm₁, hafter]
  have hcut := h.cut hreq hn h8n r (m := (blockSplit mem b.addr n).1) (by rw [hsplit, hset, ← hm₁])
  -- clearing the flag of the residual block changes nothing
  have hfront : Headers c (blockSplit mem b.addr n).1 ((xs ++ [⟨b.addr, n, ⟨some r, b.tag.isFree⟩⟩])
      ++ ⟨b.addr + 8 + n, b.size - n - 8, ⟨none, false⟩⟩ :: y :: ys) := by simpa using hcut.headers
  have hword' := hfront.header.word
  rw [List.getLast?_concat] at hword'
  have hclear := blockSetPrevUsed_eq hword' (by simp only; omega) (by simp only; omega)
  have hflag := hfront.setIsFree false
  rw [List.getLast?_concat, List.append_assoc] at hflag
  rw [show (blockSplit mem b.addr n).2 = b.addr + 8 + n from rfl, hclear]
  exact hcut.trans hflag rfl

/-- The joined block ends where the second one did. -/
theorem blockNext_joined (h : Headers c mem (xs ++ b :: d :: y :: ys)) :
    blockNext (setSizeFlags mem b.addr
      (b.size + (8 + d.size) + flags b.tag.isFree (prevIsFree xs.getLast?))) b.addr = y.addr := by
  have hb : b ∈ xs ++ b :: d :: y :: ys := by simp
  have hd : d ∈ xs ++ b :: d :: y :: ys := by simp
  have hlim := h.bounds hd
  have hnext := h.next_addr
  have hyd : Headers c mem ((xs ++ [b]) ++ d :: y :: ys) := by simpa using h
  have hnext' := hyd.next_addr
  have h8 := h.aligned b hb
  have h8' := h.aligned d hd
  have hflags := flags_lt b.tag.isFree (prevIsFree xs.getLast?)
  have hword : sizeFlags (setSizeFlags mem b.addr
      (b.size + (8 + d.size) + flags b.tag.isFree (prevIsFree xs.getLast?))) b.addr
      = b.size + (8 + d.size) + flags b.tag.isFree (prevIsFree xs.getLast?) :=
    read32_write32_eq (by omega)
  rw [blockNext, blockSize_eq hword (by omega) (by omega), hnext', hnext]
  unfold blockHdrOffset
  omega

/-- The writes of `merge_prev`. -/
theorem joinPrev_step (h : Headers c mem (xs ++ b :: d :: y :: ys)) {m : Mem}
    (hm : m = setSizeFlags mem b.addr ((sizeFlags mem b.addr &&& not32 blockSizeMask)
      ||| (blockSize mem b.addr + blockHdrOffset + blockSize mem d.addr))) :
    HeaderStep c mem (setPrevPhys m (blockNext m b.addr) b.addr)
      (xs ++ ⟨b.addr, b.size + (8 + d.size), ⟨d.tag.req, b.tag.isFree⟩⟩ :: y :: ys) := by
  have hb : b ∈ xs ++ b :: d :: y :: ys := by simp
  have hd : d ∈ xs ++ b :: d :: y :: ys := by simp
  have h8 := h.aligned b hb
  have h8' := h.aligned d hd
  have hsum : b.size + blockHdrOffset + d.size = b.size + (8 + d.size) := by
    unfold blockHdrOffset
    omega
  rw [flags_eq h.header.word (h.four_dvd hb), h.size_eq, h.size_of_mem hd, hsum,
    flags_or_size (by omega)] at hm
  rw [hm, h.blockNext_joined]
  exact h.join

/-- The writes of `merge_next`. -/
theorem joinNext_step (h : Headers c mem (xs ++ b :: d :: y :: ys)) {m : Mem}
    (hm : m = blockSetSize mem b.addr
      (blockSize mem b.addr + blockHdrOffset + blockSize mem d.addr)) :
    HeaderStep c mem (setPrevPhys m (blockNext m b.addr) b.addr)
      (xs ++ ⟨b.addr, b.size + (8 + d.size), ⟨d.tag.req, b.tag.isFree⟩⟩ :: y :: ys) := by
  have hb : b ∈ xs ++ b :: d :: y :: ys := by simp
  have hd : d ∈ xs ++ b :: d :: y :: ys := by simp
  have h8 := h.aligned b hb
  have h8' := h.aligned d hd
  have hlim := h.bounds hd
  have hnext := h.next_addr
  have hsum : b.size + blockHdrOffset + d.size = b.size + (8 + d.size) := by
    unfold blockHdrOffset
    omega
  rw [h.size_eq, h.size_of_mem hd, hsum,
    blockSetSize_eq h.header.word (h.four_dvd hb) (by omega) (by omega)] at hm
  rw [hm, h.blockNext_joined]
  exact h.join

end Headers

end Tlsf

end VibeRtos
