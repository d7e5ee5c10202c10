import VibeRtos.Proof.TlsfClasses
import VibeRtos.Sys.List

/-!
# The free lists of TLSF

`Lists mem ctl f` says that the words of the control structure and the links inside the
free blocks describe the family `f` of lists, one for each class: the heads, the links
back and forth, and the two levels of bitmaps. Inserting and removing a block are edits
of one list of the family; they touch the control structure and the links of the members
only. Searching finds a member of a class that is large enough whenever there is one.
-/

namespace VibeRtos

open ByteMem Bits Links

namespace Tlsf

/-- A link, with `none` for the null block. -/
def nullable (ctl v : Nat) : Option Nat := if v = nullBlock ctl then none else some v

/-- The links of a free block. -/
def freeLinks (mem : Mem) (ctl a : Nat) : Link Nat :=
  ⟨nullable ctl (prevFree mem a), nullable ctl (nextFree mem a)⟩

/-- The blocks that following `next_free` from the head of a list visits. -/
def freeList (mem : Mem) (ctl : Nat) (k : Nat × Nat) : List Nat :=
  walk (freeLinks mem ctl) walkBound (nullable ctl (freeHead mem ctl k.1 k.2))

/-- The block at `a` is on a free list. -/
def OnFreeList (mem : Mem) (ctl a : Nat) : Prop := ∃ k, InRange k ∧ a ∈ freeList mem ctl k

instance (mem : Mem) (ctl a : Nat) : Decidable (OnFreeList mem ctl a) :=
  decidable_of_iff (∃ k ∈ classes, a ∈ freeList mem ctl k) (by simp only [mem_classes, OnFreeList])

/-- The members of the lists: behind the control structure, apart, in one list each. -/
structure Family (ctl : Nat) (f : Nat × Nat → List Nat) : Prop where
  low : ∀ k, ∀ a ∈ f k, poolStart ctl ≤ a
  high : ∀ k, ∀ a ∈ f k, a + 16 ≤ 2 ^ 32
  apart : ∀ k k', ∀ a ∈ f k, ∀ b ∈ f k', a = b ∨ a + 16 ≤ b ∨ b + 16 ≤ a
  once : ∀ k k' a, a ∈ f k → a ∈ f k' → k = k'
  nodup : ∀ k, (f k).Nodup
  inRange : ∀ k, f k ≠ [] → InRange k

/-- The memory describes the lists `f`. -/
structure Lists (mem : Mem) (ctl : Nat) (f : Nat × Nat → List Nat) : Prop where
  chain : ∀ k, Chain (freeLinks mem ctl) none (f k) none
  head : ∀ k, InRange k → nullable ctl (freeHead mem ctl k.1 k.2) = (f k).head?
  second : ∀ i < flIndexCount, ∀ j, (slBitmap mem ctl i).testBit j = true ↔ f (i, j) ≠ []
  first : ∀ i, (flBitmap mem ctl).testBit i = true ↔ ∃ j, f (i, j) ≠ []

/-- The bytes the lists are made of. -/
def ListByte (ctl : Nat) (f : Nat × Nat → List Nat) (x : Nat) : Prop :=
  ctl ≤ x ∧ x < poolStart ctl ∨ ∃ k, ∃ a ∈ f k, a + 8 ≤ x ∧ x < a + 16

variable {mem mem' : Mem} {ctl a b n v : Nat} {k k' : Nat × Nat} {f : Nat × Nat → List Nat}
  {us vs : List Nat}

theorem poolStart_eq (ctl : Nat) : poolStart ctl = ctl + 744 := rfl

@[simp] theorem nullable_null (ctl : Nat) : nullable ctl (nullBlock ctl) = none := if_pos rfl

theorem nullable_of_ne (h : v ≠ nullBlock ctl) : nullable ctl v = some v := if_neg h

/-- The block that a list starts with is on it. -/
theorem head_onFreeList {i j : Nat} (hk : InRange (i, j)) (hhead : freeHead mem ctl i j = a)
    (hne : a ≠ nullBlock ctl) : OnFreeList mem ctl a := by
  refine ⟨(i, j), hk, ?_⟩
  rw [freeList, hhead, nullable_of_ne hne]
  exact List.mem_cons_self

theorem nullable_eq_none : nullable ctl v = none ↔ v = nullBlock ctl := by
  unfold nullable
  split <;> simp_all

theorem nullable_eq_some : nullable ctl v = some a ↔ v = a ∧ a ≠ nullBlock ctl := by
  unfold nullable
  split
  · rename_i hv
    constructor
    · intro h
      exact absurd h (by simp)
    · rintro ⟨rfl, hne⟩
      exact absurd hv hne
  · rename_i hv
    constructor
    · intro h
      obtain rfl := Option.some.inj h
      exact ⟨rfl, hv⟩
    · rintro ⟨rfl, -⟩
      rfl

theorem null_or_some {o : Option Nat} (h : nullable ctl v = o) :
    v = nullBlock ctl ∨ o = some v := by
  cases o with
  | none => exact Or.inl (nullable_eq_none.mp h)
  | some x =>
      obtain ⟨rfl, -⟩ := nullable_eq_some.mp h
      exact Or.inr rfl

theorem flBitmap_lt (mem : Mem) (ctl : Nat) : flBitmap mem ctl < 2 ^ 32 := read32_lt _ _

theorem slBitmap_lt (mem : Mem) (ctl i : Nat) : slBitmap mem ctl i < 2 ^ 32 := read32_lt _ _

/-- The links of a block are read from eight bytes of its payload. -/
theorem freeLinks_congr (h : ∀ i < 8, mem' (a + 8 + i) = mem (a + 8 + i)) :
    freeLinks mem' ctl a = freeLinks mem ctl a := by
  have hnext : nextFree mem' a = nextFree mem a := read32_congr fun i hi => h i (by omega)
  have hprev : prevFree mem' a = prevFree mem a := by
    refine read32_congr fun i hi => ?_
    have hi' := h (4 + i) (by omega)
    rwa [show a + 8 + (4 + i) = a + 12 + i by omega] at hi'
  unfold freeLinks
  rw [hnext, hprev]

/-- Only the bytes of the lists matter. -/
theorem Lists.congr (h : Lists mem ctl f) (hm : ∀ x, ListByte ctl f x → mem' x = mem x) :
    Lists mem' ctl f := by
  have hctl : ∀ x, x + 4 ≤ ctl + 744 → ctl ≤ x → read32 mem' x = read32 mem x := by
    intro x hx hle
    refine read32_congr fun i hi => hm _ (Or.inl ?_)
    rw [poolStart_eq]
    omega
  refine ⟨fun k => (h.chain k).congr fun a ha => ?_, fun k hk => ?_, fun i hi j => ?_, fun i => ?_⟩
  · exact freeLinks_congr fun i hi => hm _ (Or.inr ⟨k, a, ha, by omega, by omega⟩)
  · rw [← h.head k hk, freeHead, freeHead, hctl]
    · unfold InRange flIndexCount slIndexCount flIndexShift at hk
      unfold slIndexCount
      omega
    · omega
  · rw [← h.second i hi j, slBitmap, slBitmap, hctl]
    · unfold flIndexCount flIndexShift at hi
      omega
    · omega
  · rw [← h.first i, flBitmap, flBitmap, hctl _ (by omega) (by omega)]

namespace Family

theorem ne_null (hf : Family ctl f) (ha : a ∈ f k) : a ≠ nullBlock ctl := by
  have hlow := hf.low k a ha
  rw [poolStart_eq] at hlow
  unfold nullBlock
  omega

theorem length_le (hf : Family ctl f) (k : Nat × Nat) : (f k).length ≤ walkBound := by
  have hsub : f k ⊆ List.range (2 ^ 32) := by
    intro a ha
    have hhigh := hf.high k a ha
    exact List.mem_range.mpr (by omega)
  have hlen := (List.subperm_of_subset (hf.nodup k) hsub).length_le
  rwa [List.length_range] at hlen

end Family

/-- Following the links visits exactly the list. -/
theorem Lists.freeList_eq (h : Lists mem ctl f) (hf : Family ctl f) (hk : InRange k) :
    freeList mem ctl k = f k := by
  rw [freeList, h.head k hk]
  exact walk_chain (h.chain k) (hf.length_le k)

/-! ## Editing one list -/

/-- Members of two lists, or two members of one, are apart. -/
theorem Family.apart_of_ne (hf : Family ctl f) (ha : a ∈ f k) (hb : b ∈ f k') (hne : a ≠ b) :
    a + 16 ≤ b ∨ b + 16 ≤ a :=
  (hf.apart k k' a ha b hb).resolve_left hne

theorem Family.ne_of_class (hf : Family ctl f) (ha : a ∈ f k) (hb : b ∈ f k') (hne : k ≠ k') :
    a ≠ b := by
  rintro rfl
  exact hne (hf.once k k' a ha hb)

/-- What a change of the list `(i, j)` has to establish: the chain and the head of that list,
its bit in the second bitmap, and the first bitmap's bit for the class. -/
structure Edit (mem m : Mem) (ctl i j : Nat) (f g : Nat × Nat → List Nat) : Prop where
  other : ∀ k, k ≠ (i, j) → g k = f k
  chain : Chain (freeLinks m ctl) none (g (i, j)) none
  links : ∀ k, k ≠ (i, j) → ∀ a ∈ f k, freeLinks m ctl a = freeLinks mem ctl a
  head : nullable ctl (freeHead m ctl i j) = (g (i, j)).head?
  heads : ∀ i' j', i' < 20 → j' < 8 → i' ≠ i ∨ j' ≠ j →
    freeHead m ctl i' j' = freeHead mem ctl i' j'
  bit : (slBitmap m ctl i).testBit j = true ↔ g (i, j) ≠ []
  bits : ∀ j', j' ≠ j → ((slBitmap m ctl i).testBit j' = true
    ↔ (slBitmap mem ctl i).testBit j' = true)
  second : ∀ i' < 20, i' ≠ i → slBitmap m ctl i' = slBitmap mem ctl i'
  class_bit : (flBitmap m ctl).testBit i = true ↔ slBitmap m ctl i ≠ 0
  first : ∀ i', i' ≠ i → ((flBitmap m ctl).testBit i' = true
    ↔ (flBitmap mem ctl).testBit i' = true)

theorem Lists.edit {i j : Nat} {m : Mem} {g : Nat × Nat → List Nat} (h : Lists mem ctl f)
    (hi : i < 20) (he : Edit mem m ctl i j f g) : Lists m ctl g := by
  have hsecond : ∀ i' < flIndexCount, ∀ j',
      (slBitmap m ctl i').testBit j' = true ↔ g (i', j') ≠ [] := by
    intro i' hi' j'
    by_cases hii : i' = i
    · subst hii
      by_cases hj : j' = j
      · subst hj
        exact he.bit
      · rw [he.bits j' hj, h.second i' hi' j', he.other (i', j') (by simpa using hj)]
    · rw [he.second i' hi' hii, h.second i' hi' j', he.other (i', j') (by simp [hii])]
  refine ⟨fun k => ?_, fun k hk => ?_, hsecond, fun i' => ?_⟩
  · by_cases hk : k = (i, j)
    · subst hk
      exact he.chain
    · rw [he.other k hk]
      exact (h.chain k).congr (he.links k hk)
  · by_cases hne : k = (i, j)
    · subst hne
      exact he.head
    · obtain ⟨i', j'⟩ := k
      have hk' : i' < 20 ∧ j' < 8 := hk
      have hij : i' ≠ i ∨ j' ≠ j := by
        rw [Prod.mk.injEq] at hne
        omega
      rw [he.other _ hne, ← h.head _ hk]
      simp only [he.heads i' j' hk'.1 hk'.2 hij]
  · by_cases hii : i' = i
    · subst hii
      rw [he.class_bit, ne_eq, eq_zero_iff, not_forall]
      exact exists_congr fun j' => by rw [not_not, hsecond i' hi j']
    · rw [he.first i' hii, h.first i']
      exact exists_congr fun j' => by rw [he.other (i', j') (by simp [hii])]

/-! ## Inserting -/

/-- What `free_list_insert` leaves in the words it touches, and what it leaves alone: the block
`b` becomes the head of the list `(i, j)`, whose head was `h`. -/
structure InsertAt (mem m : Mem) (ctl b i j h : Nat) : Prop where
  next_self : nextFree m b = h
  prev_self : prevFree m b = nullBlock ctl
  next_head : h ≠ nullBlock ctl → nextFree m h = nextFree mem h
  prev_head : h ≠ nullBlock ctl → prevFree m h = b
  head_self : freeHead m ctl i j = b
  head_other : ∀ i' j', i' < 20 → j' < 8 → i' ≠ i ∨ j' ≠ j →
    freeHead m ctl i' j' = freeHead mem ctl i' j'
  first : flBitmap m ctl = flBitmap mem ctl ||| shl32 1 i
  second_self : slBitmap m ctl i = slBitmap mem ctl i ||| shl32 1 j
  second_other : ∀ i' < 20, i' ≠ i → slBitmap m ctl i' = slBitmap mem ctl i'
  frame : ∀ x, (x < ctl ∨ ctl + 744 ≤ x) → (x < b + 8 ∨ b + 16 ≤ x) →
    (h = nullBlock ctl ∨ x < h + 12 ∨ h + 16 ≤ x) → m x = mem x

theorem freeListInsert_at {i j h : Nat} (hk : mapping (blockSize mem b) = (i, j)) (hi : i < 20)
    (hj : j < 8) (hh : freeHead mem ctl i j = h) (hb : ctl + 744 ≤ b) (hb32 : b + 16 ≤ 2 ^ 32)
    (hapart : h = nullBlock ctl ∨ ctl + 744 ≤ h ∧ (h + 16 ≤ b ∨ b + 16 ≤ h)) :
    InsertAt mem (freeListInsert mem ctl b) ctl b i j h := by
  have hh32 : h < 2 ^ 32 := hh ▸ read32_lt _ _
  have hfl : flBitmap mem ctl ||| shl32 1 i < 2 ^ 32 := set_lt (read32_lt _ _) (by omega)
  have hsl : slBitmap mem ctl i ||| shl32 1 j < 2 ^ 32 := set_lt (read32_lt _ _) (by omega)
  have hnull : nullBlock ctl = ctl + 724 := rfl
  unfold freeListInsert
  dsimp only
  simp only [hk, hh]
  simp only [hnull, setNextFree, setPrevFree, setFreeHead, setFlBitmap, setSlBitmap, flBitmap,
    slBitmap, slIndexCount] at hfl hsl hapart ⊢
  clear hk hh
  by_cases h0 : h = ctl + 724
  · rw [if_neg (by simpa using h0)]
    simp (disch := omega) only [read32_write32_ne]
    refine ⟨?_, ?_, fun hne => absurd h0 hne, fun hne => absurd h0 hne, ?_,
      fun i' j' hi' hj' hne => ?_, ?_, ?_, fun i' hi' hne => ?_, fun x h1 h2 h3 => ?_⟩
    all_goals simp (disch := omega) only [nextFree, prevFree, freeHead, flBitmap, slBitmap,
      slIndexCount, hnull, read32_write32_ne, read32_write32_eq, write32_frame]
  · rw [if_pos h0]
    simp (disch := omega) only [read32_write32_ne]
    refine ⟨?_, ?_, fun _ => ?_, fun _ => ?_, ?_, fun i' j' hi' hj' hne => ?_, ?_, ?_,
      fun i' hi' hne => ?_, fun x h1 h2 h3 => ?_⟩
    all_goals simp (disch := omega) only [nextFree, prevFree, freeHead, flBitmap, slBitmap,
      slIndexCount, hnull, read32_write32_ne, read32_write32_eq, write32_frame]

/-- **Inserting** puts the block in front of the list of its class. -/
theorem Lists.insert (h : Lists mem ctl f) (hk : mapping (blockSize mem b) = k)
    (hf : Family ctl (Function.update f k (b :: f k))) :
    Lists (freeListInsert mem ctl b) ctl (Function.update f k (b :: f k))
      ∧ ∀ x, ¬ ListByte ctl (Function.update f k (b :: f k)) x →
        freeListInsert mem ctl b x = mem x := by
  obtain ⟨g, hg⟩ : ∃ g, Function.update f k (b :: f k) = g := ⟨_, rfl⟩
  have hgk : g k = b :: f k := by rw [← hg, Function.update_self]
  have hgo : ∀ k', k' ≠ k → g k' = f k' := fun k' hne => by
    rw [← hg, Function.update_of_ne hne]
  rw [hg] at hf ⊢
  have hbg : b ∈ g k := by simp [hgk]
  obtain ⟨i, j⟩ := k
  have hin : InRange (i, j) := hf.inRange (i, j) (by simp [hgk])
  have hin' : i < 20 ∧ j < 8 := hin
  have hlow := hf.low _ b hbg
  have hhigh := hf.high _ b hbg
  rw [poolStart_eq] at hlow
  obtain ⟨head, hhead⟩ : ∃ v, freeHead mem ctl i j = v := ⟨_, rfl⟩
  have hfirst := h.head (i, j) hin
  rw [show freeHead mem ctl (i, j).1 (i, j).2 = head from hhead] at hfirst
  have hnd := hf.nodup (i, j)
  rw [hgk] at hnd
  -- the old head is a member that is not `b`, if there is one
  have hold : head = nullBlock ctl ∨ head ∈ f (i, j) :=
    (null_or_some hfirst).imp_right List.mem_of_mem_head?
  have hmem : ∀ a ∈ f (i, j), a ∈ g (i, j) := fun a ha => by simp [hgk, ha]
  have hne : ∀ a ∈ f (i, j), a ≠ b := by
    rintro a ha rfl
    exact (List.nodup_cons.mp hnd).1 ha
  have hat : InsertAt mem (freeListInsert mem ctl b) ctl b i j head := by
    refine freeListInsert_at hk hin'.1 hin'.2 hhead hlow hhigh (hold.imp_right fun hm => ?_)
    have hl := hf.low _ _ (hmem _ hm)
    rw [poolStart_eq] at hl
    exact ⟨hl, hf.apart_of_ne (hmem _ hm) hbg (hne _ hm)⟩
  -- the other members keep their links
  have hothers : ∀ k', ∀ a ∈ g k', a ≠ b → a ≠ head →
      freeLinks (freeListInsert mem ctl b) ctl a = freeLinks mem ctl a := by
    intro k' a ha hab hah
    have hl := hf.low _ _ ha
    rw [poolStart_eq] at hl
    have hb' := hf.apart_of_ne ha hbg hab
    refine freeLinks_congr fun n hn => hat.frame _ (Or.inr (by omega)) (by omega) ?_
    refine hold.imp_right fun hm => ?_
    have hh' := hf.apart_of_ne ha (hmem _ hm) hah
    omega
  have hbit : (slBitmap (freeListInsert mem ctl b) ctl i).testBit j = true := by
    rw [hat.second_self, testBit_set (by omega)]
    exact Or.inr rfl
  constructor
  · refine h.edit hin'.1 ⟨hgo, ?_, fun k' hne' a ha => ?_, ?_, hat.head_other, ?_, fun j' hj => ?_,
      hat.second_other, ?_, fun i' hi => ?_⟩
    · rw [hgk]
      have hlink : Chain (freeLinks mem ctl) none ([] ++ f (i, j)) none := h.chain (i, j)
      refine hlink.link (List.nodup_cons.mp hnd).2 ?_ (by simp) ?_ ?_
      · simp only [freeLinks, hat.prev_self, hat.next_self, nullable_null, hfirst]
        simp
      · intro y hy
        rw [hy] at hfirst
        obtain ⟨rfl, hnull⟩ := nullable_eq_some.mp hfirst
        simp only [freeLinks, hat.prev_head hnull, hat.next_head hnull,
          nullable_of_ne (hf.ne_null hbg)]
      · intro a ha _ hah
        refine hothers (i, j) a (hmem a ha) (hne a ha) ?_
        rintro rfl
        rw [nullable_of_ne (hf.ne_null (hmem a ha))] at hfirst
        exact hah hfirst.symm
    · rw [← hgo k' hne'] at ha
      refine hothers k' a ha (hf.ne_of_class ha hbg hne') ?_
      rcases hold with rfl | hm
      · exact hf.ne_null ha
      · exact hf.ne_of_class ha (hmem _ hm) hne'
    · rw [hgk, hat.head_self, nullable_of_ne (hf.ne_null hbg)]
      rfl
    · exact iff_of_true hbit (by simp [hgk])
    · rw [hat.second_self, testBit_set (by omega)]
      simp [hj]
    · refine iff_of_true ?_ fun hz => ?_
      · rw [hat.first, testBit_set (by omega)]
        exact Or.inr rfl
      · exact absurd hbit (by simp [hz])
    · rw [hat.first, testBit_set (by omega)]
      simp [hi]
  · intro x hx
    unfold ListByte at hx
    rw [poolStart_eq] at hx
    have hb' : x < b + 8 ∨ b + 16 ≤ x := by
      by_contra hin
      exact hx (Or.inr ⟨(i, j), b, hbg, by omega, by omega⟩)
    refine hat.frame x (by omega) hb' (hold.imp_right fun hm => ?_)
    by_contra hin
    exact hx (Or.inr ⟨(i, j), head, hmem _ hm, by omega, by omega⟩)

/-! ## Removing -/

/-- The same for `free_list_remove`: the block `b` of the list `(i, j)` lies between `p` and `n`. -/
structure RemoveAt (mem m : Mem) (ctl b i j p n : Nat) : Prop where
  prev_next : n ≠ nullBlock ctl → prevFree m n = p
  next_next : n ≠ nullBlock ctl → nextFree m n = nextFree mem n
  next_prev : p ≠ nullBlock ctl → nextFree m p = n
  prev_prev : p ≠ nullBlock ctl → prevFree m p = prevFree mem p
  head_self : freeHead mem ctl i j = b → freeHead m ctl i j = n
  head_kept : freeHead mem ctl i j ≠ b → freeHead m ctl i j = freeHead mem ctl i j
  head_other : ∀ i' j', i' < 20 → j' < 8 → i' ≠ i ∨ j' ≠ j →
    freeHead m ctl i' j' = freeHead mem ctl i' j'
  second_self : slBitmap m ctl i = if freeHead mem ctl i j = b ∧ n = nullBlock ctl
    then slBitmap mem ctl i &&& not32 (shl32 1 j) else slBitmap mem ctl i
  second_other : ∀ i' < 20, i' ≠ i → slBitmap m ctl i' = slBitmap mem ctl i'
  first : flBitmap m ctl = if (freeHead mem ctl i j = b ∧ n = nullBlock ctl)
      ∧ slBitmap mem ctl i &&& not32 (shl32 1 j) = 0
    then flBitmap mem ctl &&& not32 (shl32 1 i) else flBitmap mem ctl
  frame : ∀ x, (x < ctl ∨ ctl + 744 ≤ x) → (p = nullBlock ctl ∨ x < p + 8 ∨ p + 12 ≤ x) →
    (n = nullBlock ctl ∨ x < n + 12 ∨ n + 16 ≤ x) → m x = mem x

theorem freeListRemove_at {i j p n : Nat} (hk : mapping (blockSize mem b) = (i, j)) (hi : i < 20)
    (hj : j < 8) (hb : ctl + 744 ≤ b) (hprev : prevFree mem b = p) (hnext : nextFree mem b = n)
    (hp : p = nullBlock ctl ∨ ctl + 744 ≤ p ∧ (p + 16 ≤ b ∨ b + 16 ≤ p))
    (hn : n = nullBlock ctl ∨ ctl + 744 ≤ n ∧ (n + 16 ≤ b ∨ b + 16 ≤ n))
    (hpn : p = nullBlock ctl ∨ n = nullBlock ctl ∨ p + 16 ≤ n ∨ n + 16 ≤ p) :
    RemoveAt mem (freeListRemove mem ctl b) ctl b i j p n := by
  have hp32 : p < 2 ^ 32 := hprev ▸ read32_lt _ _
  have hn32 : n < 2 ^ 32 := hnext ▸ read32_lt _ _
  have hsl : slBitmap mem ctl i &&& not32 (shl32 1 j) < 2 ^ 32 := and_lt (read32_lt _ _)
  have hfl : flBitmap mem ctl &&& not32 (shl32 1 i) < 2 ^ 32 := and_lt (read32_lt _ _)
  have hnull : nullBlock ctl = ctl + 724 := rfl
  unfold freeListRemove
  dsimp only
  simp only [hk, hprev, hnext]
  simp only [hnull, nextFree, prevFree, setNextFree, setPrevFree, freeHead, setFreeHead, flBitmap,
    setFlBitmap, slBitmap, setSlBitmap, slIndexCount] at hfl hsl hp hn hpn hprev hnext ⊢
  simp (disch := omega) only [read32_write32_ne, hprev, hnext]
  simp (disch := omega) only [read32_write32_eq]
  clear hk hprev hnext
  by_cases hhead : read32 mem (ctl + 84 + 4 * (8 * i + j)) = b
  · by_cases h0 : n = ctl + 724
    · by_cases hz : read32 mem (ctl + 4 + 4 * i) &&& not32 (shl32 1 j) = 0
      · simp only [if_pos hhead, if_pos h0, if_pos hz]
        refine ⟨fun hne => absurd h0 hne, fun hne => absurd h0 hne, fun _ => ?_, fun _ => ?_,
          fun _ => ?_, fun hne => absurd hhead hne, fun i' j' hi' hj' hne => ?_, ?_,
          fun i' hi' hne => ?_, ?_, fun x h1 h2 h3 => ?_⟩
        all_goals simp (disch := omega) only [nextFree, prevFree, freeHead, flBitmap, slBitmap,
          slIndexCount, hnull, if_pos, read32_write32_ne, read32_write32_eq, write32_frame]
      · simp only [if_pos hhead, if_pos h0, if_neg hz]
        refine ⟨fun hne => absurd h0 hne, fun hne => absurd h0 hne, fun _ => ?_, fun _ => ?_,
          fun _ => ?_, fun hne => absurd hhead hne, fun i' j' hi' hj' hne => ?_, ?_,
          fun i' hi' hne => ?_, ?_, fun x h1 h2 h3 => ?_⟩
        all_goals simp (disch := omega) only [nextFree, prevFree, freeHead, flBitmap, slBitmap,
          slIndexCount, hnull, if_pos, if_neg, read32_write32_ne, read32_write32_eq, write32_frame]
    · simp only [if_pos hhead, if_neg h0]
      refine ⟨fun _ => ?_, fun _ => ?_, fun _ => ?_, fun _ => ?_, fun _ => ?_,
        fun hne => absurd hhead hne, fun i' j' hi' hj' hne => ?_, ?_, fun i' hi' hne => ?_, ?_,
        fun x h1 h2 h3 => ?_⟩
      all_goals simp (disch := omega) only [nextFree, prevFree, freeHead, flBitmap, slBitmap,
        slIndexCount, hnull, if_neg, read32_write32_ne, read32_write32_eq, write32_frame]
  · simp only [if_neg hhead]
    refine ⟨fun hne => ?_, fun hne => ?_, fun hne => ?_, fun hne => ?_, fun hb => absurd hb hhead,
      fun _ => ?_, fun i' j' hi' hj' hne => ?_, ?_, fun i' hi' hne => ?_, ?_, fun x h1 h2 h3 => ?_⟩
    all_goals simp (disch := omega) only [nextFree, prevFree, freeHead, flBitmap, slBitmap,
      slIndexCount, hnull, if_neg, read32_write32_ne, read32_write32_eq, write32_frame]

/-- `p` and `n` stand in front of a place of a list and behind it, or are the null block. -/
structure Neighbours (ctl : Nat) (us vs : List Nat) (p n : Nat) : Prop where
  prev : nullable ctl p = us.getLast?
  next : nullable ctl n = vs.head?

section RemoveAt

variable {i j p : Nat} {m : Mem}

theorem Neighbours.prev_mem (hb : Neighbours ctl us vs p n) : p = nullBlock ctl ∨ p ∈ us :=
  (null_or_some hb.prev).imp_right List.mem_of_getLast?

theorem Neighbours.next_mem (hb : Neighbours ctl us vs p n) : n = nullBlock ctl ∨ n ∈ vs :=
  (null_or_some hb.next).imp_right List.mem_of_mem_head?

theorem Neighbours.next_null (hb : Neighbours ctl us vs p n) : n = nullBlock ctl ↔ vs = [] := by
  rw [← @nullable_eq_none ctl, hb.next, List.head?_eq_none_iff]

theorem Lists.neighbours (h : Lists mem ctl f) (hl : f k = us ++ b :: vs) :
    Neighbours ctl us vs (prevFree mem b) (nextFree mem b) := by
  have hchain := h.chain k
  rw [hl] at hchain
  have hat := hchain.at
  rw [Option.or_none, Option.or_none, freeLinks, Link.mk.injEq] at hat
  exact ⟨hat.1, hat.2⟩

/-- The other members of the list of `b`. -/
theorem Family.beside (hf : Family ctl f) (hl : f k = us ++ b :: vs) (ha : a ∈ us ++ vs) :
    a ∈ f k ∧ a ≠ b := by
  have hnd := hf.nodup k
  rw [hl] at hnd ⊢
  have hmid := List.nodup_middle.mp hnd
  refine ⟨?_, fun hab => (List.nodup_cons.mp hmid).1 (hab ▸ ha)⟩
  rcases List.mem_append.mp ha with ha | ha
  · exact List.mem_append_left _ ha
  · exact List.mem_append_right _ (List.mem_cons_of_mem _ ha)

theorem Lists.removeAt (h : Lists mem ctl f) (hf : Family ctl f)
    (hk : mapping (blockSize mem b) = (i, j)) (hl : f (i, j) = us ++ b :: vs) :
    RemoveAt mem (freeListRemove mem ctl b) ctl b i j (prevFree mem b) (nextFree mem b) := by
  have hbf : b ∈ f (i, j) := by simp [hl]
  have hin : i < 20 ∧ j < 8 := hf.inRange (i, j) (by simp [hl])
  have hlow : ∀ a ∈ f (i, j), ctl + 744 ≤ a := hf.low (i, j)
  have hnb := h.neighbours hl
  have hmem : ∀ a ∈ us ++ vs, ctl + 744 ≤ a ∧ (a + 16 ≤ b ∨ b + 16 ≤ a) := by
    intro a ha
    obtain ⟨haf, hab⟩ := hf.beside hl ha
    exact ⟨hlow a haf, hf.apart_of_ne haf hbf hab⟩
  refine freeListRemove_at hk hin.1 hin.2 (hlow b hbf) rfl rfl
    (hnb.prev_mem.imp_right fun hp => hmem _ (List.mem_append_left _ hp))
    (hnb.next_mem.imp_right fun hn => hmem _ (List.mem_append_right _ hn)) ?_
  rcases hnb.prev_mem with hp0 | hp
  · exact Or.inl hp0
  · -- two members on different sides of `b` are not the same
    refine Or.inr (hnb.next_mem.imp_right fun hn => ?_)
    have hnd := hf.nodup (i, j)
    rw [hl] at hnd
    exact hf.apart_of_ne (hf.beside hl (List.mem_append_left _ hp)).1
      (hf.beside hl (List.mem_append_right _ hn)).1
      ((List.nodup_append.mp hnd).2.2 _ hp _ (List.mem_cons_of_mem _ hn))

/-- The members that are not neighbours keep their links. -/
theorem RemoveAt.links (hat : RemoveAt mem m ctl b i j p n) (hf : Family ctl f)
    (hl : f k = us ++ b :: vs) (hnb : Neighbours ctl us vs p n) (ha : a ∈ f k') (hap : a ≠ p)
    (han : a ≠ n) : freeLinks m ctl a = freeLinks mem ctl a := by
  have hla : ctl + 744 ≤ a := hf.low k' a ha
  refine freeLinks_congr fun x hx => hat.frame _ (Or.inr (by omega)) ?_ ?_
  · refine hnb.prev_mem.imp_right fun hp => ?_
    have hapart := hf.apart_of_ne ha (hf.beside hl (List.mem_append_left _ hp)).1 hap
    omega
  · refine hnb.next_mem.imp_right fun hn => ?_
    have hapart := hf.apart_of_ne ha (hf.beside hl (List.mem_append_right _ hn)).1 han
    omega

/-- What is left of the list is linked. -/
theorem RemoveAt.chain (hat : RemoveAt mem m ctl b i j p n) (h : Lists mem ctl f)
    (hf : Family ctl f) (hl : f k = us ++ b :: vs) (hnb : Neighbours ctl us vs p n) :
    Chain (freeLinks m ctl) none (us ++ vs) none := by
  have hchain := h.chain k
  have hnd := hf.nodup k
  rw [hl] at hchain hnd
  refine hchain.unlink hnd ?_ ?_ ?_
  · intro x hx
    obtain ⟨rfl, hx0⟩ := nullable_eq_some.mp (hnb.prev.trans hx)
    simp only [freeLinks, hat.next_prev hx0, hat.prev_prev hx0, hnb.next, Option.or_none]
  · intro y hy
    obtain ⟨rfl, hy0⟩ := nullable_eq_some.mp (hnb.next.trans hy)
    simp only [freeLinks, hat.prev_next hy0, hat.next_next hy0, hnb.prev, Option.or_none]
  · intro a ha hau hav
    have haf := (hf.beside hl ha).1
    have hsome : nullable ctl a = some a := nullable_of_ne (hf.ne_null haf)
    refine hat.links hf hl hnb haf ?_ ?_
    · rintro rfl
      exact hau (hnb.prev.symm.trans hsome)
    · rintro rfl
      exact hav (hnb.next.symm.trans hsome)

/-- The bit of the list stays while something is left of it. -/
theorem RemoveAt.bit (hat : RemoveAt mem m ctl b i j p n) (h : Lists mem ctl f)
    (hin : InRange (i, j)) (hl : f (i, j) = us ++ b :: vs)
    (hhead : freeHead mem ctl i j = b ↔ us = [])
    (hnb : Neighbours ctl us vs p n) :
    (slBitmap m ctl i).testBit j = true ↔ us ++ vs ≠ [] := by
  have hin' : i < 20 ∧ j < 8 := hin
  have hiff : (freeHead mem ctl i j = b ∧ n = nullBlock ctl) ↔ us ++ vs = [] := by
    rw [hhead, hnb.next_null, List.append_eq_nil_iff]
  rw [hat.second_self]
  by_cases hempty : freeHead mem ctl i j = b ∧ n = nullBlock ctl
  · rw [if_pos hempty, testBit_clear (slBitmap_lt _ _ _) (by omega)]
    simp [hiff.mp hempty]
  · rw [if_neg hempty, h.second i hin'.1 j, hl]
    exact iff_of_true (by simp) fun hnil => hempty (hiff.mpr hnil)

/-- The bit of the first level stays while a bit of the second level is set. -/
theorem RemoveAt.first_bit (hat : RemoveAt mem m ctl b i j p n) (h : Lists mem ctl f)
    (hin : InRange (i, j)) (hne : f (i, j) ≠ []) :
    (flBitmap m ctl).testBit i = true ↔ slBitmap m ctl i ≠ 0 := by
  have hin' : i < 20 ∧ j < 8 := hin
  have hold : (flBitmap mem ctl).testBit i = true := (h.first i).mpr ⟨j, hne⟩
  rw [hat.first, hat.second_self]
  by_cases hempty : freeHead mem ctl i j = b ∧ n = nullBlock ctl
  · by_cases hz : slBitmap mem ctl i &&& not32 (shl32 1 j) = 0
    · rw [if_pos ⟨hempty, hz⟩, if_pos hempty, testBit_clear (flBitmap_lt _ _) (by omega)]
      simp [hz]
    · rw [if_neg (fun hboth => hz hboth.2), if_pos hempty]
      exact iff_of_true hold hz
  · -- nothing is cleared, and the bit of `b` is still there
    rw [if_neg (fun hboth => hempty hboth.1), if_neg hempty]
    refine iff_of_true hold fun hz => ?_
    have hbit := (h.second i hin'.1 j).mpr hne
    exact absurd hbit (by simp [hz])

end RemoveAt

/-- **Removing** takes the block out of the list of its class. -/
theorem Lists.remove (h : Lists mem ctl f) (hf : Family ctl f) (hk : mapping (blockSize mem b) = k)
    (hl : f k = us ++ b :: vs) :
    Lists (freeListRemove mem ctl b) ctl (Function.update f k (us ++ vs))
      ∧ ∀ x, ¬ ListByte ctl f x → freeListRemove mem ctl b x = mem x := by
  obtain ⟨g, hg⟩ : ∃ g, Function.update f k (us ++ vs) = g := ⟨_, rfl⟩
  have hgk : g k = us ++ vs := by rw [← hg, Function.update_self]
  have hgo : ∀ k', k' ≠ k → g k' = f k' := fun k' hne => by
    rw [← hg, Function.update_of_ne hne]
  rw [hg]
  obtain ⟨i, j⟩ := k
  have hne : f (i, j) ≠ [] := by simp [hl]
  have hin : InRange (i, j) := hf.inRange (i, j) hne
  have hin' : i < 20 ∧ j < 8 := hin
  have hat := h.removeAt hf hk hl
  have hnb := h.neighbours hl
  have hprev : prevFree mem b = nullBlock ctl ∨ prevFree mem b ∈ f (i, j) :=
    hnb.prev_mem.imp_right fun hp => (hf.beside hl (List.mem_append_left _ hp)).1
  have hnext : nextFree mem b = nullBlock ctl ∨ nextFree mem b ∈ f (i, j) :=
    hnb.next_mem.imp_right fun hn => (hf.beside hl (List.mem_append_right _ hn)).1
  have hfirst := h.head (i, j) hin
  rw [hl] at hfirst
  simp only at hfirst
  -- `b` is the head exactly when nothing is in front of it
  have hhead : freeHead mem ctl i j = b ↔ us = [] := by
    cases us with
    | nil =>
        simp only [List.nil_append, List.head?_cons] at hfirst
        simp [(nullable_eq_some.mp hfirst).1]
    | cons u us =>
        simp only [List.cons_append, List.head?_cons] at hfirst
        simp [(nullable_eq_some.mp hfirst).1, (hf.beside hl List.mem_cons_self).2]
  constructor
  · refine h.edit hin'.1 ⟨hgo, hgk ▸ hat.chain h hf hl hnb, fun k' hne a ha => ?_, ?_,
      hat.head_other, hgk ▸ hat.bit h hin hl hhead hnb, fun j' hj => ?_, hat.second_other,
      hat.first_bit h hin hne, fun i' hi => ?_⟩
    · refine hat.links hf hl hnb ha ?_ ?_
      · rcases hprev with hp0 | hp
        · exact hp0 ▸ hf.ne_null ha
        · exact hf.ne_of_class ha hp hne
      · rcases hnext with hn0 | hn
        · exact hn0 ▸ hf.ne_null ha
        · exact hf.ne_of_class ha hn hne
    · rw [hgk]
      by_cases hnil : us = []
      · rw [hat.head_self (hhead.mpr hnil), hnb.next, hnil]
        rfl
      · rw [hat.head_kept (fun hb => hnil (hhead.mp hb)), hfirst,
          List.head?_append_of_ne_nil _ hnil,
          List.head?_append_of_ne_nil _ hnil]
    · rw [hat.second_self]
      split
      · rw [testBit_clear (slBitmap_lt _ _ _) (by omega)]
        simp [hj]
      · rfl
    · rw [hat.first]
      split
      · rw [testBit_clear (flBitmap_lt _ _) (by omega)]
        simp [hi]
      · rfl
  · intro x hx
    unfold ListByte at hx
    rw [poolStart_eq] at hx
    refine hat.frame x (by omega) (hprev.imp_right fun hp => ?_) (hnext.imp_right fun hn => ?_)
    · by_contra hin
      exact hx (Or.inr ⟨(i, j), _, hp, by omega, by omega⟩)
    · by_contra hin
      exact hx (Or.inr ⟨(i, j), _, hn, by omega, by omega⟩)

/-! ## Searching -/

/-- The lowest bit of a second-level bitmap leads to the head of its list. -/
theorem Lists.locateIn {i x : Nat} (h : Lists mem ctl f) (hf : Family ctl f)
    (hi : i < flIndexCount) (hx : x < 2 ^ 32) (h0 : x ≠ 0)
    (hsub : ∀ j, x.testBit j = true → (slBitmap mem ctl i).testBit j = true) :
    ∃ j b, Tlsf.locateIn mem ctl i x = some b ∧ (f (i, j)).head? = some b
      ∧ x.testBit j = true ∧ ∀ j', x.testBit j' = true → j ≤ j' := by
  obtain ⟨hbit, hleast⟩ := ctz32_spec hx h0
  have hne := (h.second i hi _).mp (hsub _ hbit)
  have hin := hf.inRange _ hne
  have hhead := h.head _ hin
  cases hl : f (i, ctz32 x) with
  | nil => exact absurd hl hne
  | cons b bs =>
      rw [hl, List.head?_cons] at hhead
      obtain ⟨hb, hnull⟩ := nullable_eq_some.mp hhead
      simp only at hb
      refine ⟨ctz32 x, b, ?_, by simp [hl], hbit, hleast⟩
      unfold Tlsf.locateIn
      dsimp only
      rw [hb, if_pos hnull]

/-- `b` is the head of the list `k`, the first one that is not empty from the class `r` on. -/
def FirstFrom (f : Nat × Nat → List Nat) (r k : Nat × Nat) (b : Nat) : Prop :=
  (f k).head? = some b ∧ ClassLe r k ∧ ∀ k', ClassLe r k' → f k' ≠ [] → ClassLe k k'

/-- **Searching** finds the head of the first list that is not empty from the class of the
rounded size on, or there is none. -/
theorem Lists.locate (h : Lists mem ctl f) (hf : Family ctl f) (h0 : n ≠ 0)
    (hk : InRange (mapping (roundUpSize n))) :
    (∃ b k, locateFree mem ctl n = some b ∧ FirstFrom f (mapping (roundUpSize n)) k b)
      ∨ locateFree mem ctl n = none ∧ ∀ k, ClassLe (mapping (roundUpSize n)) k → f k = [] := by
  obtain ⟨⟨i, j⟩, hij⟩ : ∃ k, mapping (roundUpSize n) = k := ⟨_, rfl⟩
  rw [hij] at hk ⊢
  unfold locateFree
  rw [if_neg h0]
  dsimp only
  rw [hij]
  dsimp only
  by_cases hsl : slBitmap mem ctl i &&& shl32 (not32 0) j = 0
  · rw [if_pos hsl]
    -- nothing in this class from the second index on
    have hnone : ∀ j', j ≤ j' → f (i, j') = [] := by
      intro j' hle
      by_contra hne
      have hbit := (h.second i hk.1 j').mpr hne
      exact eq_zero_iff.mp hsl j' ((testBit_from (slBitmap_lt _ _ _)).mpr ⟨hbit, hle⟩)
    by_cases hfl : flBitmap mem ctl &&& shl32 (not32 0) (i + 1) = 0
    · rw [if_pos hfl]
      refine Or.inr ⟨rfl, fun k hle => ?_⟩
      obtain ⟨i', j'⟩ := k
      rcases hle with hlt | ⟨heq, hle⟩
      · by_contra hne
        have hbit := (h.first i').mpr ⟨j', hne⟩
        exact eq_zero_iff.mp hfl i' ((testBit_from (flBitmap_lt _ _)).mpr ⟨hbit, hlt⟩)
      · simp only at heq hle
        rw [← heq]
        exact hnone j' hle
    · rw [if_neg hfl]
      have hlt : flBitmap mem ctl &&& shl32 (not32 0) (i + 1) < 2 ^ 32 := and_lt (flBitmap_lt _ _)
      obtain ⟨hctz, hleast⟩ := ctz32_spec hlt hfl
      obtain ⟨hbit, hle⟩ := (testBit_from (flBitmap_lt _ _)).mp hctz
      obtain ⟨i', hi'⟩ : ∃ i', ctz32 (flBitmap mem ctl &&& shl32 (not32 0) (i + 1)) = i' := ⟨_, rfl⟩
      rw [hi'] at hbit hle hleast ⊢
      obtain ⟨j', hne⟩ := (h.first i').mp hbit
      have hin := (hf.inRange _ hne).1
      have hsl0 : slBitmap mem ctl i' ≠ 0 := by
        intro hz
        exact eq_zero_iff.mp hz j' ((h.second i' hin j').mpr hne)
      obtain ⟨j'', b, hb, hhead, -, hfirst⟩ :=
        h.locateIn hf hin (slBitmap_lt _ _ _) hsl0 fun _ hj => hj
      refine Or.inl ⟨b, (i', j''), hb, hhead, Or.inl hle, ?_⟩
      rintro ⟨p, q⟩ hpq hne'
      rcases hpq with hlt' | ⟨heq, hle'⟩
      · have hp := hleast p ((testBit_from (flBitmap_lt _ _)).mpr ⟨(h.first p).mpr ⟨q, hne'⟩, hlt'⟩)
        rcases Nat.lt_or_eq_of_le hp with hlt'' | rfl
        · exact Or.inl hlt''
        · exact Or.inr ⟨rfl, hfirst q ((h.second _ hin q).mpr hne')⟩
      · simp only at heq hle'
        rw [← heq] at hne'
        exact absurd (hnone q hle') hne'
  · rw [if_neg hsl]
    obtain ⟨j', b, hb, hhead, hbit, hfirst⟩ := h.locateIn hf hk.1 (and_lt (slBitmap_lt _ _ _)) hsl
      fun j' hj => ((testBit_from (slBitmap_lt _ _ _)).mp hj).1
    have hle := ((testBit_from (slBitmap_lt _ _ _)).mp hbit).2
    refine Or.inl ⟨b, (i, j'), hb, hhead, Or.inr ⟨rfl, hle⟩, ?_⟩
    rintro ⟨p, q⟩ hpq hne
    rcases hpq with hlt | ⟨heq, hle'⟩
    · exact Or.inl hlt
    · simp only at heq hle'
      subst heq
      refine Or.inr ⟨rfl, hfirst q ?_⟩
      exact (testBit_from (slBitmap_lt _ _ _)).mpr ⟨(h.second i hk.1 q).mpr hne, hle'⟩

theorem blockSize_lt (mem : Mem) (a : Nat) : blockSize mem a < 2 ^ 32 := and_lt (read32_lt _ _)

/-- **The search is a good fit**: it finds a block of the rounded size if there is one, without
looking at the sizes of the blocks. -/
theorem Lists.good_fit (h : Lists mem ctl f) (hf : Family ctl f)
    (hclass : ∀ k, ∀ a ∈ f k, mapping (blockSize mem a) = k) (h8 : 8 ∣ n) (h0 : n ≠ 0)
    (hn : n ≤ maxRequest) :
    (∃ b k, locateFree mem ctl n = some b ∧ FirstFrom f (mapping (roundUpSize n)) k b
        ∧ roundUpSize n ≤ blockSize mem b)
      ∨ locateFree mem ctl n = none ∧ ∀ k, ∀ a ∈ f k, blockSize mem a < roundUpSize n := by
  obtain ⟨-, hlt, hround⟩ := roundUpSize_spec h8 hn
  have hrange := (mapping_inRange (n := roundUpSize n) (by omega)).mpr hlt
  rcases h.locate hf h0 hrange with ⟨b, k, hfound, hfirst⟩ | ⟨hnone, hempty⟩
  · refine Or.inl ⟨b, k, hfound, hfirst, hround.le (by omega) (blockSize_lt mem b) ?_⟩
    rw [hclass k b (List.mem_of_mem_head? hfirst.1)]
    exact hfirst.2.1
  · refine Or.inr ⟨hnone, fun k a ha => ?_⟩
    by_contra hbig
    have hle := mapping_mono (r := roundUpSize n) (b := blockSize mem a) (by omega)
      (blockSize_lt mem a)
    rw [hclass k a ha] at hle
    rw [hempty k hle] at ha
    simp at ha

end Tlsf

end VibeRtos
