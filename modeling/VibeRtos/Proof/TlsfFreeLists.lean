import VibeRtos.Lib.Runs
import VibeRtos.Proof.TlsfInit

/-!
# The free lists over whole runs

`free_list_insert` and `free_list_remove` in any order, with any other stores between them,
from the control structure that `tlsf_init` sets up. The state remembers which blocks were
inserted and not removed since, each with the size it had then. After every run each list holds
exactly the remembered blocks of its class, and the bitmaps tell which lists are not empty; that
removals also store into the null block does not matter, as no list is read through it.
-/

namespace VibeRtos

open ByteMem Bits Links Runs

namespace Tlsf

/-- The control structure as the first half of `tlsf_init` sets it up. -/
def initControl (mem : Mem) (ctl : Nat) : Mem :=
  let mem := fill mem ctl ctlSize 0
  let mem := setNextFree mem (nullBlock ctl) (nullBlock ctl)
  let mem := setPrevFree mem (nullBlock ctl) (nullBlock ctl)
  let mem := setSizeFlags mem (nullBlock ctl) 0
  initFree mem ctl

/-- The memory, and the blocks on the lists with the sizes they were inserted with. -/
structure ListState where
  mem : Mem
  listed : List (Nat × Nat)

/-- The bytes of the control structure and of the links of the listed blocks. -/
def ListState.Holds (ctl : Nat) (s : ListState) (x : Nat) : Prop :=
  ctl ≤ x ∧ x < poolStart ctl ∨ ∃ p ∈ s.listed, p.1 + 8 ≤ x ∧ x < p.1 + 16

instance (ctl : Nat) (s : ListState) (x : Nat) : Decidable (s.Holds ctl x) :=
  inferInstanceAs (Decidable (_ ∨ _))

/-- The block at `b` is behind the control structure, apart from the listed ones and small
enough for a class. -/
def ListState.CanInsert (ctl : Nat) (s : ListState) (b : Nat) : Prop :=
  poolStart ctl ≤ b ∧ b + 16 ≤ 2 ^ 32 ∧ (∀ p ∈ s.listed, p.1 + 16 ≤ b ∨ b + 16 ≤ p.1)
    ∧ blockSize s.mem b < 2 ^ 23

instance (ctl : Nat) (s : ListState) (b : Nat) : Decidable (s.CanInsert ctl b) :=
  inferInstanceAs (Decidable (_ ∧ _))

inductive ListCall where
  /-- `free_list_insert` of a block that is on no list -/
  | insert (b : Nat)
  /-- `free_list_remove` of a listed block that has kept its size -/
  | remove (b : Nat)
  /-- any change of the other bytes -/
  | store (m : Mem)

def listStep (ctl : Nat) (s : ListState) : ListCall → Option ListState
  | .insert b =>
      if s.CanInsert ctl b then
        some ⟨freeListInsert s.mem ctl b, (b, blockSize s.mem b) :: s.listed⟩
      else none
  | .remove b =>
      if (b, blockSize s.mem b) ∈ s.listed then
        some ⟨freeListRemove s.mem ctl b, s.listed.erase (b, blockSize s.mem b)⟩
      else none
  | .store m => some { s with mem := fun x => if s.Holds ctl x then s.mem x else m x }

/-- `free[fl][sl]` and its bit. -/
structure ListExact (mem : Mem) (ctl : Nat) (listed : List (Nat × Nat)) (k : Nat × Nat) :
    Prop where
  head : nullable ctl (freeHead mem ctl k.1 k.2) = (freeList mem ctl k).head?
  chain : Chain (freeLinks mem ctl) none (freeList mem ctl k) none
  nodup : (freeList mem ctl k).Nodup
  members : ∀ b, b ∈ freeList mem ctl k ↔ ∃ n, (b, n) ∈ listed ∧ mapping n = k
  bit : (slBitmap mem ctl k.1).testBit k.2 = true ↔ freeList mem ctl k ≠ []

section Steps

variable {ctl a b n : Nat} {k : Nat × Nat} {f : Nat × Nat → List Nat} {s s' : ListState}
  {us vs : List Nat}

/-- A block that is apart from the members may join them. -/
theorem Family.insert (hf : Family ctl f) (hlow : poolStart ctl ≤ b) (hhigh : b + 16 ≤ 2 ^ 32)
    (hapart : ∀ k, ∀ a ∈ f k, a + 16 ≤ b ∨ b + 16 ≤ a) (hk : InRange k) :
    Family ctl (Function.update f k (b :: f k)) := by
  have hnot : ∀ k, b ∉ f k := by
    intro k' hb
    have hself := hapart k' b hb
    omega
  have hmem : ∀ k' a, a ∈ Function.update f k (b :: f k) k' ↔ a = b ∧ k' = k ∨ a ∈ f k' := by
    intro k' a
    by_cases hkk : k' = k
    · subst hkk
      simp
    · simp [hkk]
  refine ⟨fun k' a ha => ?_, fun k' a ha => ?_, fun k₁ k₂ a ha a' ha' => ?_,
    fun k₁ k₂ a ha ha' => ?_, fun k' => ?_, fun k' hne => ?_⟩
  · rcases (hmem k' a).mp ha with ⟨rfl, -⟩ | ha
    · exact hlow
    · exact hf.low k' a ha
  · rcases (hmem k' a).mp ha with ⟨rfl, -⟩ | ha
    · exact hhigh
    · exact hf.high k' a ha
  · rcases (hmem k₁ a).mp ha with ⟨rfl, -⟩ | hm <;> rcases (hmem k₂ a').mp ha' with ⟨rfl, -⟩ | hm'
    · exact Or.inl rfl
    · exact Or.inr (hapart k₂ a' hm').symm
    · exact Or.inr (hapart k₁ a hm)
    · exact hf.apart k₁ k₂ a hm a' hm'
  · rcases (hmem k₁ a).mp ha with ⟨rfl, rfl⟩ | hm <;> rcases (hmem k₂ a).mp ha' with ⟨h, h'⟩ | hm'
    · exact h'.symm
    · exact absurd hm' (hnot k₂)
    · exact absurd (h ▸ hm) (hnot k₁)
    · exact hf.once k₁ k₂ a hm hm'
  · by_cases hkk : k' = k
    · subst hkk
      rw [Function.update_self]
      exact List.nodup_cons.mpr ⟨hnot k', hf.nodup k'⟩
    · rw [Function.update_of_ne hkk]
      exact hf.nodup k'
  · by_cases hkk : k' = k
    · exact hkk ▸ hk
    · rw [Function.update_of_ne hkk] at hne
      exact hf.inRange k' hne

/-- A family without one of its members. -/
theorem Family.remove (hf : Family ctl f) (hl : f k = us ++ b :: vs) :
    Family ctl (Function.update f k (us ++ vs)) := by
  have hsub : ∀ k', (Function.update f k (us ++ vs) k').Sublist (f k') := by
    intro k'
    by_cases hkk : k' = k
    · subst hkk
      rw [Function.update_self, hl]
      exact (List.sublist_cons_self b vs).append_left us
    · rw [Function.update_of_ne hkk]
  refine ⟨fun k' a ha => hf.low k' a ((hsub k').subset ha),
    fun k' a ha => hf.high k' a ((hsub k').subset ha),
    fun k₁ k₂ a ha a' ha' => hf.apart k₁ k₂ a ((hsub k₁).subset ha) a' ((hsub k₂).subset ha'),
    fun k₁ k₂ a ha ha' => hf.once k₁ k₂ a ((hsub k₁).subset ha) ((hsub k₂).subset ha'),
    fun k' => (hf.nodup k').sublist (hsub k'), fun k' hne => hf.inRange k' fun hnil => hne ?_⟩
  exact List.sublist_nil.mp (hnil ▸ hsub k')

/-- The members of the family `f` are the listed blocks, each in the class of its size. -/
structure Enlists (ctl : Nat) (f : Nat × Nat → List Nat) (listed : List (Nat × Nat)) :
    Prop where
  family : Family ctl f
  members : ∀ k b, b ∈ f k ↔ ∃ n, (b, n) ∈ listed ∧ mapping n = k
  once : (listed.map Prod.fst).Nodup

/-- The invariant: the memory describes lists that hold the listed blocks. -/
def ListState.Inv (ctl : Nat) (s : ListState) : Prop :=
  ∃ f, Lists s.mem ctl f ∧ Enlists ctl f s.listed

theorem Enlists.mem_class {listed : List (Nat × Nat)} (h : Enlists ctl f listed)
    (hb : (b, n) ∈ listed) : b ∈ f (mapping n) :=
  (h.members (mapping n) b).mpr ⟨n, hb, rfl⟩

/-- The bytes of the lists in both readings. -/
theorem Enlists.listByte_iff (h : Enlists ctl f s.listed) {x : Nat} :
    ListByte ctl f x ↔ s.Holds ctl x := by
  refine or_congr Iff.rfl ⟨?_, ?_⟩
  · rintro ⟨k, a, ha, hx⟩
    obtain ⟨n, hn, -⟩ := (h.members k a).mp ha
    exact ⟨(a, n), hn, hx⟩
  · rintro ⟨⟨a, n⟩, hn, hx⟩
    exact ⟨mapping n, a, h.mem_class hn, hx⟩

theorem inv_init (mem : Mem) (hctl : poolStart ctl < 2 ^ 32) :
    ListState.Inv ctl ⟨initControl mem ctl, []⟩ := by
  refine ⟨fun _ => [], initLists (m := initControl mem ctl) hctl rfl, ⟨?_, by simp, by simp⟩⟩
  exact ⟨by simp, by simp, by simp, by simp, by simp, by simp⟩

theorem inv_insert (h : s.Inv ctl) (hb : s.CanInsert ctl b) :
    ListState.Inv ctl ⟨freeListInsert s.mem ctl b, (b, blockSize s.mem b) :: s.listed⟩ := by
  obtain ⟨f, hlists, henl⟩ := h
  obtain ⟨hlow, hhigh, hapart, hsize⟩ := hb
  have hnew : b ∉ s.listed.map Prod.fst := by
    intro hmem
    obtain ⟨p, hp, rfl⟩ := List.mem_map.mp hmem
    have hself := hapart p hp
    omega
  have hfam : Family ctl (Function.update f (mapping (blockSize s.mem b))
      (b :: f (mapping (blockSize s.mem b)))) := by
    refine henl.family.insert hlow hhigh (fun k a ha => ?_)
      ((mapping_inRange (blockSize_lt s.mem b)).mpr hsize)
    obtain ⟨n, hn, -⟩ := (henl.members k a).mp ha
    exact hapart (a, n) hn
  refine ⟨_, (hlists.insert rfl hfam).1, ⟨hfam, fun k a => ?_, ?_⟩⟩
  · by_cases hk : k = mapping (blockSize s.mem b)
    · subst hk
      rw [Function.update_self, List.mem_cons, henl.members]
      constructor
      · rintro (rfl | ⟨n, hn, hcls⟩)
        · exact ⟨_, List.mem_cons_self, rfl⟩
        · exact ⟨n, List.mem_cons_of_mem _ hn, hcls⟩
      · rintro ⟨n, hn, hcls⟩
        rcases List.mem_cons.mp hn with heq | hn
        · exact Or.inl (congrArg Prod.fst heq)
        · exact Or.inr ⟨n, hn, hcls⟩
    · rw [Function.update_of_ne hk, henl.members]
      constructor
      · rintro ⟨n, hn, hcls⟩
        exact ⟨n, List.mem_cons_of_mem _ hn, hcls⟩
      · rintro ⟨n, hn, hcls⟩
        rcases List.mem_cons.mp hn with heq | hn
        · obtain ⟨-, rfl⟩ := Prod.mk.inj heq
          exact absurd hcls.symm hk
        · exact ⟨n, hn, hcls⟩
  · rw [List.map_cons]
    exact List.nodup_cons.mpr ⟨hnew, henl.once⟩

theorem inv_remove (h : s.Inv ctl) (hb : (b, blockSize s.mem b) ∈ s.listed) :
    ListState.Inv ctl
      ⟨freeListRemove s.mem ctl b, s.listed.erase (b, blockSize s.mem b)⟩ := by
  obtain ⟨f, hlists, henl⟩ := h
  obtain ⟨us, vs, hl⟩ := List.append_of_mem (henl.mem_class hb)
  have hnd : s.listed.Nodup := List.Nodup.of_map Prod.fst henl.once
  have hsame : ∀ {n}, (b, n) ∈ s.listed → n = blockSize s.mem b := fun hn =>
    (Prod.mk.inj (List.inj_on_of_nodup_map henl.once hn hb rfl)).2
  refine ⟨_, (hlists.remove henl.family rfl hl).1, ⟨henl.family.remove hl, fun k a => ?_, ?_⟩⟩
  · have hmid := henl.family.nodup (mapping (blockSize s.mem b))
    rw [hl] at hmid
    have hnot := (List.nodup_cons.mp (List.nodup_middle.mp hmid)).1
    -- membership is kept by every block but `b`
    have hiff : a ∈ Function.update f (mapping (blockSize s.mem b)) (us ++ vs) k
        ↔ a ∈ f k ∧ a ≠ b := by
      by_cases hk : k = mapping (blockSize s.mem b)
      · subst hk
        rw [Function.update_self, hl]
        constructor
        · intro ha
          refine ⟨?_, fun hab => hnot (hab ▸ ha)⟩
          rcases List.mem_append.mp ha with ha | ha
          · exact List.mem_append_left _ ha
          · exact List.mem_append_right _ (List.mem_cons_of_mem _ ha)
        · rintro ⟨ha, hab⟩
          rcases List.mem_append.mp ha with ha | ha
          · exact List.mem_append_left _ ha
          · exact List.mem_append_right _ ((List.mem_cons.mp ha).resolve_left hab)
      · rw [Function.update_of_ne hk]
        refine ⟨fun ha => ⟨ha, ?_⟩, And.left⟩
        exact henl.family.ne_of_class ha (henl.mem_class hb) hk
    rw [hiff, henl.members]
    constructor
    · rintro ⟨⟨n, hn, hcls⟩, hab⟩
      exact ⟨n, (List.mem_erase_of_ne (by simp [hab])).mpr hn, hcls⟩
    · rintro ⟨n, hn, hcls⟩
      obtain ⟨hne, hn'⟩ := (hnd.mem_erase_iff).mp hn
      refine ⟨⟨n, hn', hcls⟩, ?_⟩
      rintro rfl
      exact hne (by rw [hsame hn'])
  · exact henl.once.sublist (List.erase_sublist.map _)

theorem inv_store (h : s.Inv ctl) (m : Mem) :
    ListState.Inv ctl { s with mem := fun x => if s.Holds ctl x then s.mem x else m x } := by
  obtain ⟨f, hlists, henl⟩ := h
  refine ⟨f, hlists.congr fun x hx => ?_, henl⟩
  exact if_pos (henl.listByte_iff.mp hx)

/-- **One call** keeps the invariant. -/
theorem listStep_inv (s : ListState) (c : ListCall) (s' : ListState) (h : s.Inv ctl)
    (hs : listStep ctl s c = some s') : s'.Inv ctl := by
  cases c with
  | insert b =>
      rw [listStep] at hs
      split at hs
      · rename_i hb
        obtain rfl := Option.some.inj hs
        exact inv_insert h hb
      · exact absurd hs (by simp)
  | remove b =>
      rw [listStep] at hs
      split at hs
      · rename_i hb
        obtain rfl := Option.some.inj hs
        exact inv_remove h hb
      · exact absurd hs (by simp)
  | store m =>
      obtain rfl := Option.some.inj hs
      exact inv_store h m

/-- What the invariant says about one list. -/
theorem ListState.Inv.exact (h : s.Inv ctl) (hk : InRange k) :
    ListExact s.mem ctl s.listed k := by
  obtain ⟨f, hlists, henl⟩ := h
  have hlist := hlists.freeList_eq henl.family hk
  refine ⟨?_, ?_, ?_, fun b => ?_, ?_⟩
  · rw [hlist]
    exact hlists.head k hk
  · rw [hlist]
    exact hlists.chain k
  · rw [hlist]
    exact henl.family.nodup k
  · rw [hlist]
    exact henl.members k b
  · rw [hlist]
    exact hlists.second k.1 hk.1 k.2

/-- What it says about the first level. -/
theorem ListState.Inv.first (h : s.Inv ctl) {i : Nat} (hi : i < flIndexCount) :
    (flBitmap s.mem ctl).testBit i = true ↔ slBitmap s.mem ctl i ≠ 0 := by
  obtain ⟨f, hlists, -⟩ := h
  rw [hlists.first i, ne_eq, eq_zero_iff, not_forall]
  exact exists_congr fun j => by rw [not_not, hlists.second i hi j]

end Steps

/-- **The free lists are exact.** After any inserting and removing from the control structure of
`tlsf_init`, every list is a doubly linked list, ended by the null block, of exactly the blocks
of its class that were inserted and not removed, and the bitmaps tell which lists and which
rows hold one. -/
theorem free_lists_exact {ctl : Nat} (hctl : poolStart ctl < 2 ^ 32) (mem : Mem)
    (calls : List ListCall) {s : ListState}
    (hrun : run (listStep ctl) ⟨initControl mem ctl, []⟩ calls = some s) :
    (∀ k, InRange k → ListExact s.mem ctl s.listed k)
      ∧ ∀ i < flIndexCount, (flBitmap s.mem ctl).testBit i = true ↔ slBitmap s.mem ctl i ≠ 0 := by
  have hinv : s.Inv ctl := run_invariant listStep_inv (inv_init mem hctl) hrun
  exact ⟨fun k hk => hinv.exact hk, fun i hi => hinv.first hi⟩

/-- Two blocks of one class at 0x2400 and 0x2500, inserted and the second one removed: the list
is left with the first. -/
def twoBlocks : Mem := setSizeFlags (setSizeFlags (fun _ => 0) 0x2400 64) 0x2500 64

theorem free_lists_exact_two :
    ∃ s, run (listStep 0x2000) ⟨initControl twoBlocks 0x2000, []⟩
        [.insert 0x2400, .insert 0x2500, .remove 0x2500] = some s
      ∧ s.listed = [(0x2400, 64)] ∧ ListExact s.mem 0x2000 s.listed (3, 0) := by
  obtain ⟨s, hs⟩ : ∃ s, run (listStep 0x2000) ⟨initControl twoBlocks 0x2000, []⟩
      [.insert 0x2400, .insert 0x2500, .remove 0x2500] = some s :=
    Option.isSome_iff_exists.mp (by decide +kernel)
  have hlisted : (run (listStep 0x2000) ⟨initControl twoBlocks 0x2000, []⟩
      [.insert 0x2400, .insert 0x2500, .remove 0x2500]).map (·.listed) = some [(0x2400, 64)] := by
    decide +kernel
  rw [hs] at hlisted
  refine ⟨s, hs, Option.some.inj hlisted, ?_⟩
  exact (free_lists_exact (by decide) twoBlocks _ hs).1 (3, 0) (by decide)

/-- `tlsf_init` is such a run: what it stores behind the control structure, and the insertion of
the main block. -/
theorem tlsfInit_run (c : TlsfConfig) (mem : Mem) :
    ∃ m, run (listStep c.pool) ⟨initControl mem c.pool, []⟩ [.store m, .insert (poolStart c.pool)]
      = some ⟨tlsfInit c.toHeapConfig mem, [(poolStart c.pool, c.size - 760)]⟩ := by
  have hfits := c.fits
  have hlarge := c.large
  have h8 := c.multiple
  have hsmall := c.small
  have hstart : poolStart c.pool = c.pool + 744 := rfl
  have hword : c.size - 760 ||| isFreeBit = c.size - 760 + flags true false := by
    have h4 : 4 ∣ c.size - 760 := by omega
    rw [show isFreeBit = flags true false from rfl, Nat.or_comm]
    exact flags_or_size h4
  obtain ⟨m', hm'⟩ : ∃ m', m' = setPrevPhys (setPrevPhys (setSizeFlags (setPrevPhys
      (setSizeFlags (initControl mem c.pool) (c.pool + c.size - 8) prevFreeBit)
      (c.pool + c.size - 8) 0) (c.pool + 744) (c.size - 760 + flags true false)) (c.pool + 744) 0)
      (c.pool + c.size - 8) (c.pool + 744) := ⟨_, rfl⟩
  have hsent : sizeFlags m' (c.pool + c.size - 8) = 0 + flags false true := by
    rw [hm']
    simp (disch := omega) only [sizeFlags, setPrevPhys, setSizeFlags, read32_write32_ne]
    exact read32_write32_eq (by decide)
  have hinit : tlsfInit c.toHeapConfig mem
      = freeListInsert (blockSetPrevFree m' (c.pool + c.size - 8)) c.pool (c.pool + 744) := by
    rw [hm', ← hword, ← tlsfInit_size c]
    rfl
  have hsize : blockSize (blockSetPrevFree m' (c.pool + c.size - 8)) (c.pool + 744)
      = c.size - 760 := by
    rw [blockSetPrevFree_eq hsent (by decide)]
    exact (tlsfInit_headers c hm').size_of_mem (b := mainBlock c.toHeapConfig) (by simp)
  have hkept : (fun x => if ListState.Holds c.pool ⟨initControl mem c.pool, []⟩ x then
      initControl mem c.pool x else blockSetPrevFree m' (c.pool + c.size - 8) x)
        = blockSetPrevFree m' (c.pool + c.size - 8) := by
    funext x
    split
    · rename_i hx
      have hin : c.pool ≤ x ∧ x < c.pool + 744 := hx.resolve_right (by simp)
      rw [hm']
      simp (disch := omega) only [blockSetPrevFree, setPrevPhys, setSizeFlags, write32_frame]
    · rfl
  obtain ⟨m'', hm''⟩ : ∃ m'', m'' = blockSetPrevFree m' (c.pool + c.size - 8) := ⟨_, rfl⟩
  rw [← hm''] at hinit hsize hkept
  have hcan : ListState.CanInsert c.pool ⟨m'', []⟩ (c.pool + 744) := by
    refine ⟨le_refl _, by omega, by simp, ?_⟩
    rw [hsize]
    omega
  refine ⟨m'', run_cons.mpr ⟨⟨m'', []⟩, ?_, run_cons.mpr ⟨_, ?_, rfl⟩⟩⟩
  · rw [listStep, hkept]
  · rw [listStep, hstart, if_pos hcan, hsize, hinit]

end Tlsf

end VibeRtos
