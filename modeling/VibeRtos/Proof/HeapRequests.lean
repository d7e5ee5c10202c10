import VibeRtos.Proof.HdrSearch
import VibeRtos.Proof.HeapRealloc

/-!
# Request sizes of the heap API

A request is any `size_t`, and aligning it, rounding it up to a size class or multiplying
two of them may leave the 32 bits. Up to a limit of the backend every request is
answered: with a block that has room for it, or with `NULL` and an unchanged heap. Above
the limit that is so only as long as the search finds nothing.
-/

namespace VibeRtos

open ByteMem Bits Links Tiling Runs

/-- One step of a program that passes any `size_t`. -/
def HeapSys.sizeStep {σ : Type} (B : Backend σ) (s : HeapSys σ) : HeapLabel → Option (HeapSys σ)
  | .calloc nmemb size =>
      if nmemb < 2 ^ 32 ∧ size < 2 ^ 32 then
        let r := B.calloc s.heap nmemb size
        some ⟨r.1, grant s.live r.2 (nmemb * size)⟩
      else none
  | l => s.step B (2 ^ 32 - 1) l

/-- How the requests of a backend are judged. -/
structure Judge (σ : Type) where
  /-- the pointer is live -/
  live : σ → Nat → Prop
  /-- the heap after the one-time initialisation -/
  ready : σ → σ
  /-- the classes that an allocation of this size computes are in the tables -/
  index : σ → Nat → Prop
  /-- and those of the blocks of the heap -/
  tables : σ → Prop
  /-- an allocation of this size is answered -/
  guard : σ → Nat → Prop

section Judged

variable {σ : Type} (B : Backend σ) (J : Judge σ) (c : HeapConfig)

/-- `r` is the heap and the pointer after a request of `n` bytes on `h`: `NULL` and the heap
unchanged, or a live block in the pool with room for the request. -/
def Answered (h : σ) (n : Nat) (r : σ × Nat) : Prop :=
  (n ≠ 0 → r.2 = 0 → r.1 = h ∨ r.1 = J.ready h)
    ∧ (r.2 ≠ 0 → J.live r.1 r.2 ∧ n ≤ B.sizeOf r.1 r.2
      ∧ c.pool ≤ r.2 ∧ r.2 + B.sizeOf r.1 r.2 ≤ c.pool + c.size)

/-- The call does what it should. -/
def CallOk (s : HeapSys σ) : HeapLabel → Prop
  | .alloc n => (n ≠ 0 → J.index s.heap n) ∧ J.tables (B.alloc s.heap n).1
      ∧ Answered B J c s.heap n (B.alloc s.heap n)
  | .calloc nmemb size => (nmemb * size ≠ 0 → nmemb * size < 2 ^ 32 → J.index s.heap (nmemb * size))
      ∧ J.tables (B.calloc s.heap nmemb size).1
      ∧ Answered B J c s.heap (nmemb * size) (B.calloc s.heap nmemb size)
  | .realloc p n => (n ≠ 0 → p = 0 ∨ B.sizeOf s.heap p < heapAlignUp n → J.index s.heap n)
      ∧ J.tables (B.realloc s.heap p n).1 ∧ Answered B J c s.heap n (B.realloc s.heap p n)
  | .free p => J.tables (B.free s.heap p)
  | .store _ _ => True

/-- When a call does what it should. -/
def SizeGuard (s : HeapSys σ) : HeapLabel → Prop
  | .alloc n => n = 0 ∨ J.guard s.heap n
  | .calloc nmemb size => nmemb * size = 0 ∨ 2 ^ 32 ≤ nmemb * size ∨ J.guard s.heap (nmemb * size)
  | .realloc p n => n = 0 ∨ if p = 0 then J.guard s.heap n
      else n + 7 < 2 ^ 32 ∧ (heapAlignUp n ≤ B.sizeOf s.heap p ∨ J.guard s.heap n)
  | _ => True

/-- What a backend has to show about single allocations. -/
structure Judge.Sound (limit : Nat) (Inv : σ → List Grant → Prop) : Prop where
  readable : B.Readable limit Inv J.live
  large : c.size ≤ limit
  tables : ∀ {h live}, Inv h live → J.tables h
  ready : ∀ {h live}, Inv h live → Inv (J.ready h) live ∧ (live ≠ [] → J.ready h = h)
  inside : ∀ {h live l}, Inv h live → l ∈ live →
    c.pool ≤ l.ptr ∧ l.ptr + B.sizeOf h l.ptr ≤ c.pool + c.size
  small : ∀ {h live n}, Inv h live → n ≠ 0 → n ≤ limit →
    J.guard h n ∧ J.index h n ∧ ((B.alloc h n).2 = 0 → (B.alloc h n).1 = J.ready h)
  big : ∀ {h live n}, Inv h live → limit < n → n < 2 ^ 32 → J.guard h n →
    J.index h n ∧ B.alloc h n = (J.ready h, 0)
  bad : ∀ {h live n}, Inv h live → n ≠ 0 → n < 2 ^ 32 → ¬ J.guard h n →
    J.index h n → (B.alloc h n).2 ≠ 0

end Judged

variable {σ : Type} {B : Backend σ} {J : Judge σ} {c : HeapConfig} {limit : Nat}
  {Inv : σ → List Grant → Prop} {live : List Grant} {l : Grant} {s s' : HeapSys σ} {h : σ}
  {n p : Nat}

namespace Judge.Sound

/-- A request above the limit cannot be served. -/
theorem not_answered (hJ : J.Sound B c limit Inv) {r : σ × Nat} (hn : limit < n) (hr : r.2 ≠ 0) :
    ¬ Answered B J c h n r := by
  rintro ⟨-, hserved⟩
  obtain ⟨-, hroom, hlow, hhigh⟩ := hserved hr
  have hlarge := hJ.large
  have hle : B.sizeOf r.1 r.2 ≤ c.size := by omega
  omega

/-- Requests up to the limit meet the guard. -/
theorem limit_lt (hJ : J.Sound B c limit Inv) (hi : Inv h live) (h0 : n ≠ 0)
    (hg : ¬ J.guard h n) : limit < n := by
  by_contra hle
  exact hg (hJ.small hi h0 (by omega)).1

/-- A block that has been granted answers the request. -/
theorem answered_of_grant (hJ : J.Sound B c limit Inv) {r : σ × Nat} {req : Nat}
    (hi : Inv r.1 (⟨r.2, req⟩ :: live)) (hn : n ≤ req) (hr : r.2 ≠ 0) : Answered B J c h n r := by
  have hself : (⟨r.2, req⟩ : Grant) ∈ ⟨r.2, req⟩ :: live := List.mem_cons_self
  refine ⟨fun _ h0 => absurd h0 hr, fun _ => ⟨?_, hn.trans (hJ.readable.correct.room hi hself),
    hJ.inside hi hself⟩⟩
  exact (hJ.readable.liveAt_iff hi).mpr ⟨_, hself, rfl⟩

/-! ## Allocating -/

/-- A guarded allocation keeps the invariant. -/
theorem alloc_inv (hJ : J.Sound B c limit Inv) (hi : Inv h live) (hn : n < 2 ^ 32)
    (hg : n = 0 ∨ J.guard h n) : Inv (B.alloc h n).1 (grant live (B.alloc h n).2 n) := by
  by_cases hle : n ≤ limit
  · exact hJ.readable.correct.alloc hi hle
  · -- above the limit a guarded request finds nothing
    have hguard := hg.resolve_left (by omega)
    rw [(hJ.big hi (by omega) hn hguard).2]
    exact (hJ.ready hi).1

/-- **An allocation** is answered exactly under the guard. -/
theorem alloc_iff (hJ : J.Sound B c limit Inv) (hi : Inv h live) (hn : n < 2 ^ 32) (h0 : n ≠ 0) :
    J.index h n ∧ Answered B J c h n (B.alloc h n) ↔ J.guard h n := by
  constructor
  · rintro ⟨hindex, hans⟩
    by_contra hg
    exact hJ.not_answered (hJ.limit_lt hi h0 hg) (hJ.bad hi h0 hn hg hindex) hans
  · intro hg
    by_cases hle : n ≤ limit
    · obtain ⟨-, hindex, hnull⟩ := hJ.small hi h0 hle
      refine ⟨hindex, ?_⟩
      by_cases hp : (B.alloc h n).2 = 0
      · exact ⟨fun _ _ => Or.inr (hnull hp), fun hne => absurd hp hne⟩
      · have halloc := hJ.readable.correct.alloc hi hle
        rw [grant_of_ne hp] at halloc
        exact hJ.answered_of_grant halloc le_rfl hp
    · obtain ⟨hindex, heq⟩ := hJ.big hi (by omega) hn hg
      rw [heq]
      exact ⟨hindex, fun _ _ => Or.inr rfl, fun hne => absurd rfl hne⟩

/-- An allocation of any size. -/
theorem alloc_call (hJ : J.Sound B c limit Inv) (hi : Inv h live) (hn : n < 2 ^ 32) :
    (n ≠ 0 → J.index h n) ∧ Answered B J c h n (B.alloc h n) ↔ n = 0 ∨ J.guard h n := by
  by_cases h0 : n = 0
  · have hnull := hJ.readable.correct.alloc_zero h
    subst h0
    exact iff_of_true ⟨fun hne => absurd rfl hne, fun hne => absurd rfl hne,
      fun hne => absurd hnull hne⟩ (Or.inl rfl)
  · have halloc := hJ.alloc_iff hi hn h0
    exact ⟨fun hok => Or.inr (halloc.mp ⟨hok.1 h0, hok.2⟩),
      fun hg => (halloc.mpr (hg.resolve_left h0)).imp_left fun hindex _ => hindex⟩

/-- `vibe_heap_calloc` allocates the product, if it is one and does not overflow. -/
theorem calloc_eq (B : Backend σ) (h : σ) {m k : Nat} (hk : k < 2 ^ 32) :
    B.calloc h m k = if m * k = 0 ∨ 2 ^ 32 ≤ m * k then (h, 0)
      else if (B.alloc h (m * k)).2 ≠ 0 then (B.setMem (B.alloc h (m * k)).1
        (fill (B.mem (B.alloc h (m * k)).1) (B.alloc h (m * k)).2 (m * k) 0), (B.alloc h (m * k)).2)
      else B.alloc h (m * k) := by
  have hover : k ≠ 0 → (m > (2 ^ 32 - 1) / k ↔ 2 ^ 32 ≤ m * k) := by
    intro hk0
    rw [gt_iff_lt, Nat.div_lt_iff_lt_mul (by omega)]
    omega
  unfold Backend.calloc
  by_cases h0 : m = 0 ∨ k = 0
  · rw [if_pos h0, if_pos (Or.inl (Nat.mul_eq_zero.mpr h0))]
  · rw [if_neg h0]
    have hne : m * k ≠ 0 := fun he => h0 (Nat.mul_eq_zero.mp he)
    by_cases hbig : 2 ^ 32 ≤ m * k
    · rw [if_pos ((hover (by omega)).mpr hbig), if_pos (Or.inr hbig)]
    · -- the test of the code is the test whether the product fits 32 bits
      have hnone : ¬ (m * k = 0 ∨ 2 ^ 32 ≤ m * k) := by omega
      rw [if_neg ((hover (by omega)).not.mpr hbig), if_neg hnone]

/-- A guarded `calloc` keeps the invariant. -/
theorem calloc_inv (hJ : J.Sound B c limit Inv) (hi : Inv h live) {m k : Nat} (hk : k < 2 ^ 32)
    (hg : m * k = 0 ∨ 2 ^ 32 ≤ m * k ∨ J.guard h (m * k)) :
    Inv (B.calloc h m k).1 (grant live (B.calloc h m k).2 (m * k)) := by
  by_cases hle : m * k ≤ limit
  · exact (hJ.readable.correct.calloc hi hle).1
  · rw [calloc_eq B h hk]
    by_cases hnone : m * k = 0 ∨ 2 ^ 32 ≤ m * k
    · rw [if_pos hnone]
      exact hi
    · have hguard := (hg.resolve_left (by omega)).resolve_left (by omega)
      rw [if_neg hnone, (hJ.big hi (by omega) (by omega) hguard).2, if_neg (by simp)]
      exact (hJ.ready hi).1

/-- **A `calloc`** is answered exactly under the guard of the product. -/
theorem calloc_iff (hJ : J.Sound B c limit Inv) (hi : Inv h live) {m k : Nat} (hk : k < 2 ^ 32) :
    (m * k ≠ 0 → m * k < 2 ^ 32 → J.index h (m * k)) ∧ Answered B J c h (m * k) (B.calloc h m k)
      ↔ m * k = 0 ∨ 2 ^ 32 ≤ m * k ∨ J.guard h (m * k) := by
  by_cases hnone : m * k = 0 ∨ 2 ^ 32 ≤ m * k
  · rw [calloc_eq B h hk, if_pos hnone]
    refine iff_of_true ⟨fun h0 hlt => ?_, fun _ _ => Or.inl rfl, fun hne => absurd rfl hne⟩ ?_
    · omega
    · exact hnone.imp_right Or.inl
  · have h0 : m * k ≠ 0 := by omega
    have hlt : m * k < 2 ^ 32 := by omega
    have halloc := hJ.alloc_iff hi hlt h0
    have hguard : m * k = 0 ∨ 2 ^ 32 ≤ m * k ∨ J.guard h (m * k) ↔ J.guard h (m * k) :=
      ⟨fun hg => (hg.resolve_left h0).resolve_left (by omega), fun hg => Or.inr (Or.inr hg)⟩
    rw [hguard]
    constructor
    · rintro ⟨hindex, hans⟩
      by_contra hg
      have hne := hJ.bad hi h0 hlt hg (hindex h0 hlt)
      refine hJ.not_answered (hJ.limit_lt hi h0 hg) ?_ hans
      rw [calloc_eq B h hk, if_neg hnone, if_pos hne]
      exact hne
    · intro hg
      obtain ⟨hindex, hans⟩ := halloc.mpr hg
      refine ⟨fun _ _ => hindex, ?_⟩
      by_cases hp : (B.alloc h (m * k)).2 = 0
      · rw [calloc_eq B h hk, if_neg hnone, if_neg (by simpa using hp)]
        exact hans
      · have hinv := hJ.calloc_inv hi hk (hguard.mpr hg)
        have hsame : (B.calloc h m k).2 = (B.alloc h (m * k)).2 := by
          rw [calloc_eq B h hk, if_neg hnone, if_pos hp]
        rw [grant_of_ne (by rw [hsame]; exact hp)] at hinv
        exact hJ.answered_of_grant hinv le_rfl (by rw [hsame]; exact hp)

/-! ## Resizing -/

/-- A guarded resize of a live pointer keeps the invariant. -/
theorem realloc_inv (hJ : J.Sound B c limit Inv) (hi : Inv h live) (hl : l ∈ live) (hn : n < 2 ^ 32)
    (hg : n = 0 ∨ n + 7 < 2 ^ 32 ∧ (heapAlignUp n ≤ B.sizeOf h l.ptr ∨ J.guard h n)) :
    Inv (B.realloc h l.ptr n).1 (if (B.realloc h l.ptr n).2 = 0 ∧ n ≠ 0 then live
      else grant (release live l.ptr) (B.realloc h l.ptr n).2 n) := by
  by_cases hle : n ≤ limit
  · exact (hJ.readable.correct.realloc hi hle (Or.inr ⟨l, hl, rfl⟩)).1
  · have hnull := hJ.readable.correct.ptr_ne hi hl
    obtain ⟨hn7, hor⟩ := hg.resolve_left (by omega)
    have hinside := (hJ.inside hi hl).2
    have hlow := (hJ.inside hi hl).1
    have hlarge := hJ.large
    have halign := le_heapAlignUp hn7
    have hguard := hor.resolve_left (by omega)
    have heq := (hJ.big hi (by omega) hn hguard).2
    have hcases := B.realloc_cases h n hnull
    generalize B.realloc h l.ptr n = r at hcases ⊢
    cases hcases with
    | freed hzero => omega
    | stays _ hfit => omega
    | fails hzero _ hp =>
        rw [if_pos ⟨rfl, hzero⟩, heq]
        exact (hJ.ready hi).1
    | moves _ _ hp =>
        rw [heq] at hp
        exact absurd rfl hp

/-- **A resize of a live pointer** is answered exactly under its guard. -/
theorem realloc_iff (hJ : J.Sound B c limit Inv) (hi : Inv h live) (hl : l ∈ live)
    (hn : n < 2 ^ 32) :
    (n ≠ 0 → l.ptr = 0 ∨ B.sizeOf h l.ptr < heapAlignUp n → J.index h n)
        ∧ Answered B J c h n (B.realloc h l.ptr n)
      ↔ n = 0 ∨ n + 7 < 2 ^ 32 ∧ (heapAlignUp n ≤ B.sizeOf h l.ptr ∨ J.guard h n) := by
  have hnull := hJ.readable.correct.ptr_ne hi hl
  have hinv := hJ.realloc_inv (n := n) hi hl hn
  have hinside := hJ.inside hi hl
  have hlimit := hJ.readable.correct.limit_lt
  have hcases := B.realloc_cases h n hnull
  generalize B.realloc h l.ptr n = r at hcases hinv ⊢
  -- an aligned request that is larger than a block has not wrapped
  have hwrap : B.sizeOf h l.ptr < heapAlignUp n → n + 7 < 2 ^ 32 := by
    unfold heapAlignUp
    omega
  cases hcases with
  | freed hzero =>
      exact iff_of_true ⟨fun hne => absurd hzero hne, fun hne => absurd hzero hne,
        fun hne => absurd rfl hne⟩ (Or.inl hzero)
  | stays hzero hfit =>
      constructor
      · rintro ⟨-, hans⟩
        -- a size that wraps to one that fits is larger than the whole pool
        refine Or.inr ⟨?_, Or.inl hfit⟩
        by_contra hbig
        exact hJ.not_answered (by omega) hnull hans
      · intro hg
        have hgrant := hinv hg
        rw [if_neg (fun he => hnull he.1), grant_of_ne hnull] at hgrant
        exact ⟨fun _ hor => absurd (hor.resolve_left hnull) (by omega),
          hJ.answered_of_grant hgrant le_rfl hnull⟩
  | fails hzero hfit hp =>
      have halloc := hJ.alloc_iff hi hn hzero
      constructor
      · rintro ⟨hindex, -⟩
        refine Or.inr ⟨hwrap hfit, Or.inr ?_⟩
        -- without the guard the allocation would have found a block
        by_contra hg
        exact hJ.bad hi hzero hn hg (hindex hzero (Or.inr hfit)) hp
      · intro hg
        have hguard := ((hg.resolve_left hzero).2).resolve_left (by omega)
        obtain ⟨hindex, hans⟩ := halloc.mpr hguard
        exact ⟨fun _ _ => hindex, fun h0 _ => hans.1 h0 hp, fun hne => absurd rfl hne⟩
  | moves hzero hfit hp =>
      constructor
      · rintro ⟨hindex, hans⟩
        refine Or.inr ⟨hwrap hfit, Or.inr ?_⟩
        by_contra hg
        exact absurd hans (hJ.not_answered (hJ.limit_lt hi hzero hg) hp)
      · intro hg
        have hguard := ((hg.resolve_left hzero).2).resolve_left (by omega)
        have hgrant := hinv hg
        dsimp only at hgrant
        rw [if_neg (c := (B.alloc h n).2 = 0 ∧ n ≠ 0) (fun he => hp he.1),
          grant_of_ne hp] at hgrant
        exact ⟨fun _ _ => (hJ.alloc_iff hi hn hzero |>.mpr hguard).1,
          hJ.answered_of_grant hgrant le_rfl hp⟩

/-! ## Runs -/

/-- A guarded call keeps the invariant. -/
theorem sizeStep_inv (hJ : J.Sound B c limit Inv) (hi : Inv s.heap s.live) {a : HeapLabel}
    (hg : SizeGuard B J s a) (hs : s.sizeStep B a = some s') : Inv s'.heap s'.live := by
  have hc := hJ.readable.correct
  cases a with
  | alloc n =>
      obtain ⟨hle, heq⟩ := Option.ite_none_right_eq_some.mp hs
      obtain rfl := Option.some.inj heq
      exact hJ.alloc_inv hi (by omega) hg
  | calloc m k =>
      obtain ⟨⟨-, hk⟩, heq⟩ := Option.ite_none_right_eq_some.mp hs
      obtain rfl := Option.some.inj heq
      exact hJ.calloc_inv hi hk hg
  | realloc p n =>
      obtain ⟨⟨hle, hptr⟩, heq⟩ := Option.ite_none_right_eq_some.mp hs
      obtain rfl := Option.some.inj heq
      by_cases h0 : p = 0
      · subst h0
        have hg' : n = 0 ∨ J.guard s.heap n := by simpa [SizeGuard] using hg
        have halloc := hJ.alloc_inv hi (by omega) hg'
        have hreq : B.realloc s.heap 0 n = B.alloc s.heap n := rfl
        rw [hreq, hc.release_null hi]
        split
        · rename_i hfail
          rwa [hfail.1] at halloc
        · exact halloc
      · obtain ⟨l, hl, rfl⟩ := hptr.resolve_left h0
        simp only [SizeGuard, if_neg h0] at hg
        exact hJ.realloc_inv hi hl (by omega) hg
  | free p => exact (hc.step (l := .free p) hi) hs
  | store x v => exact (hc.step (l := .store x v) hi) hs

/-- **A call does what it should** exactly under its guard. -/
theorem callOk_iff (hJ : J.Sound B c limit Inv) (hi : Inv s.heap s.live) {a : HeapLabel}
    (hs : s.sizeStep B a = some s') : CallOk B J c s a ↔ SizeGuard B J s a := by
  have htables : SizeGuard B J s a → J.tables s'.heap :=
    fun hg => hJ.tables (hJ.sizeStep_inv hi hg hs)
  cases a with
  | alloc n =>
      obtain ⟨hle, heq⟩ := Option.ite_none_right_eq_some.mp hs
      obtain rfl := Option.some.inj heq
      have hiff := hJ.alloc_call hi (by omega : n < 2 ^ 32)
      exact ⟨fun hok => hiff.mp ⟨hok.1, hok.2.2⟩,
        fun hg => ⟨(hiff.mpr hg).1, htables hg, (hiff.mpr hg).2⟩⟩
  | calloc m k =>
      obtain ⟨⟨-, hk⟩, heq⟩ := Option.ite_none_right_eq_some.mp hs
      obtain rfl := Option.some.inj heq
      have hiff := hJ.calloc_iff hi (m := m) hk
      exact ⟨fun hok => hiff.mp ⟨hok.1, hok.2.2⟩,
        fun hg => ⟨(hiff.mpr hg).1, htables hg, (hiff.mpr hg).2⟩⟩
  | realloc p n =>
      obtain ⟨⟨hle, hptr⟩, heq⟩ := Option.ite_none_right_eq_some.mp hs
      obtain rfl := Option.some.inj heq
      by_cases h0 : p = 0
      · subst h0
        have hiff := hJ.alloc_call hi (by omega : n < 2 ^ 32)
        have hguard : SizeGuard B J s (.realloc 0 n) ↔ n = 0 ∨ J.guard s.heap n := by
          simp [SizeGuard]
        exact ⟨fun hok => hguard.mpr (hiff.mp ⟨fun hne => hok.1 hne (Or.inl rfl), hok.2.2⟩),
          fun hg => ⟨fun hne _ => (hiff.mpr (hguard.mp hg)).1 hne, htables hg,
            (hiff.mpr (hguard.mp hg)).2⟩⟩
      · obtain ⟨l, hl, rfl⟩ := hptr.resolve_left h0
        have hiff := hJ.realloc_iff hi hl (by omega : n < 2 ^ 32)
        have hguard : SizeGuard B J s (.realloc l.ptr n) ↔ n = 0 ∨ n + 7 < 2 ^ 32
            ∧ (heapAlignUp n ≤ B.sizeOf s.heap l.ptr ∨ J.guard s.heap n) := by
          simp only [SizeGuard, if_neg h0]
        exact ⟨fun hok => hguard.mpr (hiff.mp ⟨hok.1, hok.2.2⟩),
          fun hg => ⟨(hiff.mpr (hguard.mp hg)).1, htables hg, (hiff.mpr (hguard.mp hg)).2⟩⟩
  | free p =>
      obtain ⟨-, heq⟩ := Option.ite_none_right_eq_some.mp hs
      obtain rfl := Option.some.inj heq
      exact iff_of_true (htables trivial) trivial
  | store x v => exact iff_of_true trivial trivial

end Judge.Sound

/-! ## First fit and best fit -/

namespace Hdr

variable {v : Variant} {c : HeapConfig} {st : HeapState} {live : List Grant} {n : Nat}

/-- A request is answered if aligning it does not wrap, or if no block is FREE. -/
def judge (c : HeapConfig) : Judge HeapState where
  live := LiveAt
  ready := ready c
  index := fun _ _ => True
  tables := fun _ => True
  guard := fun st n =>
    n + 7 < 2 ^ 32 ∨ ∀ b ∈ chain (ready c st), magic (ready c st).mem b ≠ magicFree

theorem judge_sound (v : Variant) (c : HeapConfig) (hsize : 16 ≤ c.size) :
    (judge c).Sound (backend v c) c (2 ^ 32 - 8) (HdrInv c) where
  readable := readable v c hsize (by decide)
  large := by
    have h8 := Nat.le_of_dvd c.pos c.aligned
    have hfits := c.fits
    omega
  tables _ := trivial
  ready hi := by
    obtain ⟨st₀, bs, hst, hready, hp, hsame⟩ := hi.ready hsize
    change HdrInv c (ready c _) _ ∧ _
    rw [show ready c _ = st₀ from hst]
    exact ⟨Or.inr ⟨hready, bs, hp⟩, fun hne => hst.trans (hsame.resolve_left hne)⟩
  inside := by
    intro st live l hi hl
    rcases hi with ⟨-, -, rfl⟩ | ⟨-, bs, hp⟩
    · simp at hl
    · obtain ⟨b, hb, -, hptr, hsz⟩ := hp.block (v := v) hl
      have hlim := hp.rep.tiles.bounds hb
      unfold hdrSize at hlim
      omega
  small := by
    intro st live n hi h0 hle
    refine ⟨Or.inl (by omega), trivial, fun hnull => ?_⟩
    cases hsearch : search v (ready c st).mem (heapAlignUp n) (chain (ready c st)) with
    | none => exact congrArg Prod.fst (heapAlloc_none h0 hsearch)
    | some a => exact absurd hnull (heapAlloc_some h0 hsearch)
  big := by
    intro st live n hi hbig hn hg
    have hno := hg.resolve_left (by omega)
    refine ⟨trivial, ?_⟩
    cases hsearch : search v (ready c st).mem (heapAlignUp n) (chain (ready c st)) with
    | none => exact heapAlloc_none (by omega) hsearch
    | some a =>
        obtain ⟨ha, hfits⟩ := search_fits hsearch
        exact absurd hfits.1 (hno a ha)
  bad := by
    intro st live n hi h0 hn hg _
    obtain ⟨hbig, hfree⟩ := not_or.mp hg
    push Not at hfree
    obtain ⟨b, hb, hmagic⟩ := hfree
    -- the aligned request is zero, so that any FREE block will do
    have hzero : heapAlignUp n = 0 := by
      unfold heapAlignUp
      omega
    cases hsearch : search v (ready c st).mem (heapAlignUp n) (chain (ready c st)) with
    | none =>
        rw [hzero] at hsearch
        exact absurd ⟨hmagic, Nat.zero_le _⟩ (search_none hsearch b hb)
    | some a => exact heapAlloc_some h0 hsearch

end Hdr

/-! ## TLSF -/

namespace Tlsf

variable {c : TlsfConfig} {mem : Mem} {st : TlsfState} {live : List Grant} {bs : List TBlock}
  {n : Nat}

/-- A request is answered up to the largest size that rounds to a class, and above it if its
rounded size has a class all the same and the lists are empty. -/
def judge (c : HeapConfig) : Judge TlsfState where
  live := LiveAt
  ready := ready c
  index := fun _ n => InRange (mapping (roundUpSize (request n)))
  tables := fun st => st.ctl ≠ 0 → ∀ a ∈ physBlocks st.mem walkBound (poolStart st.ctl),
    InRange (mapping (blockSize st.mem a))
  guard := fun st n => n ≤ maxRequest
    ∨ InRange (mapping (roundUpSize (request n))) ∧ flBitmap (ready c st).mem c.pool = 0

/-- Requests the tables cover have their class in the tables. -/
theorem request_inRange (hn : n ≤ maxRequest) : InRange (mapping (roundUpSize (request n))) := by
  obtain ⟨-, hlt, -⟩ := roundUpSize_spec (request_aligned n).1 (request_le hn)
  exact (mapping_inRange (by omega)).mpr hlt

/-- Larger requests with a class have wrapped, to next to nothing. -/
theorem request_wraps (hbig : maxRequest < n) (hn : n < 2 ^ 32)
    (hk : InRange (mapping (roundUpSize (request n)))) : roundUpSize (request n) ≤ 8 := by
  have h8 := (request_aligned n).1
  have hreq : request n < 2 ^ 32 := by
    unfold request heapAlignUp blockPayloadMin
    split <;> omega
  have hlt := (mapping_inRange (roundUpSize_lt hreq)).mp hk
  by_cases hover : n + 7 < 2 ^ 32
  · have hle := le_request hover
    -- rounding up to a class wraps: otherwise the class would be behind the tables
    have hwrap : 2 ^ 32 - 2 ^ 28 < request n := by
      by_contra hno
      have hround := roundUpSize_big (n := request n) (by omega) (by omega)
      omega
    rw [roundUpSize_wraps hwrap hreq]
    omega
  · -- aligning wraps to zero, which becomes the least payload
    have height : request n = 8 := by
      have hzero : heapAlignUp n = 0 := by
        unfold heapAlignUp
        omega
      unfold request blockPayloadMin
      rw [hzero, if_pos (by decide)]
    rw [height, roundUpSize_small (by decide)]

namespace PoolInv

/-- With empty bitmaps nothing is found. -/
theorem locate_empty (h : PoolInv c mem live bs) (hk : InRange (mapping (roundUpSize (request n))))
    (hfl : flBitmap mem c.pool = 0) : locateFree mem c.pool (request n) = none := by
  obtain ⟨f, hrep⟩ := h.rep
  have hpos := (request_aligned n).2
  rcases hrep.lists.locate (hrep.family hrep.headers) (by omega) hk with
    ⟨b, k, -, hhead, -⟩ | ⟨hnone, -⟩
  · -- a list with a block would have its bit set
    have hbit := (hrep.lists.first k.1).mpr ⟨k.2, List.ne_nil_of_mem (List.mem_of_mem_head? hhead)⟩
    rw [hfl] at hbit
    simp at hbit
  · exact hnone

/-- With a block on a list a request that has wrapped finds one. -/
theorem locate_wrapped (h : PoolInv c mem live bs)
    (hk : InRange (mapping (roundUpSize (request n))))
    (hsmall : roundUpSize (request n) ≤ 8) (hfl : flBitmap mem c.pool ≠ 0) :
    locateFree mem c.pool (request n) ≠ none := by
  obtain ⟨f, hrep⟩ := h.rep
  have hpos := (request_aligned n).2
  intro hnone
  rcases hrep.lists.locate (hrep.family hrep.headers) (by omega) hk with
    ⟨b, k, hfound, -⟩ | ⟨-, hempty⟩
  · exact absurd (hnone.symm.trans hfound) (by simp)
  · refine hfl (eq_zero_iff.mpr fun i hbit => ?_)
    obtain ⟨j, hne⟩ := (hrep.lists.first i).mp hbit
    obtain ⟨a, ha⟩ := List.exists_mem_of_ne_nil _ hne
    obtain ⟨b, hb, -, -, hclass⟩ := (hrep.listed _ a).mp ha
    have h8 := hrep.least b hb
    have hlim := (hrep.headers.bounds (hrep.sub.subset hb)).2.2
    have hle := mapping_mono (r := roundUpSize (request n)) (b := b.size) (by omega) (by omega)
    rw [hclass] at hle
    exact hne (hempty _ hle)

end PoolInv

theorem judge_sound (c : TlsfConfig) :
    (judge c.toHeapConfig).Sound (backend c.toHeapConfig) c.toHeapConfig maxRequest
      (TlsfInv c) where
  readable := readable c
  large := c.small
  tables := by
    intro st live hi hctl
    rcases hi with ⟨h0, -⟩ | ⟨hpool, bs, hp⟩
    · exact absurd h0 hctl
    · obtain ⟨f, hrep⟩ := hp.rep
      rw [hpool, hp.physBlocks_eq c.size_le_walkBound]
      intro a ha
      obtain ⟨b, hb, rfl⟩ := List.mem_map.mp ha
      rw [hrep.headers.size_of_mem (List.mem_append_left _ hb)]
      exact hrep.inRange hb
  ready hi := by
    obtain ⟨bs, hctl, hp, hsame⟩ := hi.ready
    exact ⟨Or.inr ⟨hctl, bs, hp⟩, fun hne => hsame.resolve_left hne⟩
  inside := by
    intro st live l hi hl
    rcases hi with ⟨-, rfl⟩ | ⟨hctl, bs, hp⟩
    · simp at hl
    · exact (hp.ok (s := ⟨st, live⟩) hctl).inside l hl
  small := by
    intro st live n hi h0 hle
    obtain ⟨bs, hctl, hp, -⟩ := hi.ready
    refine ⟨Or.inl hle, request_inRange hle, fun hnull => ?_⟩
    simp only [backend] at hnull ⊢
    rcases heapAlloc_cases hctl hp h0 hle with ⟨xs, b, ys, -, -, -, heq⟩ | ⟨heq, -⟩
    · rw [heq] at hnull
      exact absurd hnull (by simp)
    · rw [heq]
      rfl
  big := by
    intro st live n hi hbig hn hg
    obtain ⟨hk, hfl⟩ := hg.resolve_left (by omega)
    obtain ⟨bs, hctl, hp, -⟩ := hi.ready
    refine ⟨hk, ?_⟩
    simp only [backend]
    rw [heapAlloc_eq _ _ (by omega), hctl, hp.locate_empty hk hfl]
    rfl
  bad := by
    intro st live n hi h0 hn hg hk
    obtain ⟨hbig, hlists⟩ := not_or.mp hg
    have hfl : flBitmap (ready c.toHeapConfig st).mem c.pool ≠ 0 := fun he => hlists ⟨hk, he⟩
    obtain ⟨bs, hctl, hp, -⟩ := hi.ready
    have hsmall := request_wraps (by omega) hn hk
    simp only [backend]
    rw [heapAlloc_eq _ _ h0, hctl]
    cases hfound : locateFree (ready c.toHeapConfig st).mem c.pool (request n) with
    | none => exact absurd hfound (hp.locate_wrapped hk hsmall hfl)
    | some a =>
        simp only [blockToPtr, blockHdrOffset]
        omega

end Tlsf

/-! ## The three backends -/

/--
**Which requests are answered.**

In every run of calls with any sizes, all calls do what they should exactly when all of
them meet the guard: for first fit and best fit in every configuration, for TLSF in those
from which `tlsf_init` makes a well-formed pool.
-/
theorem requests_answered_iff {c : HeapConfig} (mem : Mem) (hmin : 256 ≤ c.size)
    (hmax : c.size ≤ 131072) :
    (∀ (v : Hdr.Variant) (labels : List HeapLabel) (s : HeapSys Hdr.HeapState),
        run (HeapSys.sizeStep (Hdr.backend v c)) ⟨Hdr.heapState mem, []⟩ labels = some s →
        (Along (HeapSys.sizeStep (Hdr.backend v c)) (CallOk (Hdr.backend v c) (Hdr.judge c) c)
            ⟨Hdr.heapState mem, []⟩ labels
          ↔ Along (HeapSys.sizeStep (Hdr.backend v c)) (SizeGuard (Hdr.backend v c) (Hdr.judge c))
            ⟨Hdr.heapState mem, []⟩ labels))
      ∧ (8 ∣ c.size ∧ 768 ≤ c.size → ∀ (labels : List HeapLabel) (s : HeapSys Tlsf.TlsfState),
        run (HeapSys.sizeStep (Tlsf.backend c)) ⟨Tlsf.tlsfState mem, []⟩ labels = some s →
        (Along (HeapSys.sizeStep (Tlsf.backend c)) (CallOk (Tlsf.backend c) (Tlsf.judge c) c)
            ⟨Tlsf.tlsfState mem, []⟩ labels
          ↔ Along (HeapSys.sizeStep (Tlsf.backend c)) (SizeGuard (Tlsf.backend c) (Tlsf.judge c))
            ⟨Tlsf.tlsfState mem, []⟩ labels)) := by
  constructor
  · intro v labels s hrun
    have hJ := Hdr.judge_sound v c (by omega)
    refine along_iff_guarded (Q := fun s => Hdr.HdrInv c s.heap s.live) ?_ ?_
      (Or.inl ⟨rfl, rfl, rfl⟩) hrun
    · exact fun _ _ _ hi hg hs => hJ.sizeStep_inv hi hg hs
    · exact fun _ _ _ hi hs => hJ.callOk_iff hi hs
  · rintro ⟨h8, hlarge⟩ labels s hrun
    have hJ := Tlsf.judge_sound ⟨c, h8, hlarge, by omega⟩
    refine along_iff_guarded (Q := fun s => Tlsf.TlsfInv ⟨c, h8, hlarge, by omega⟩ s.heap s.live)
      ?_ ?_ (Or.inl ⟨rfl, rfl⟩) hrun
    · exact fun _ _ _ hi hg hs => hJ.sizeStep_inv hi hg hs
    · exact fun _ _ _ hi hs => hJ.callOk_iff hi hs

/-- **A huge request is served with next to nothing.** Aligning `SIZE_MAX` gives zero: first fit and
best fit return a block without a payload, TLSF one of 8 bytes. A request of 8 MiB makes TLSF look
behind the end of its tables. -/
theorem huge_request_served :
    ¬ CallOk (Hdr.backend ⟨false, true⟩ Hdr.smallPool) (Hdr.judge Hdr.smallPool) Hdr.smallPool
        ⟨Hdr.heapState fun _ => 0, []⟩ (.alloc (2 ^ 32 - 1))
      ∧ ¬ CallOk (Hdr.backend ⟨true, true⟩ Hdr.smallPool) (Hdr.judge Hdr.smallPool) Hdr.smallPool
        ⟨Hdr.heapState fun _ => 0, []⟩ (.alloc (2 ^ 32 - 1))
      ∧ ¬ CallOk (Tlsf.backend Tlsf.kilobyte.toHeapConfig) (Tlsf.judge Tlsf.kilobyte.toHeapConfig)
        Tlsf.kilobyte.toHeapConfig ⟨Tlsf.tlsfState fun _ => 0, []⟩ (.alloc (2 ^ 32 - 1))
      ∧ ¬ CallOk (Tlsf.backend Tlsf.kilobyte.toHeapConfig) (Tlsf.judge Tlsf.kilobyte.toHeapConfig)
        Tlsf.kilobyte.toHeapConfig ⟨Tlsf.tlsfState fun _ => 0, []⟩ (.alloc (2 ^ 23)) := by
  have hhdr : ∀ best, (Hdr.heapAlloc ⟨best, true⟩ Hdr.smallPool (Hdr.heapState fun _ => 0)
        (2 ^ 32 - 1)).2 = 0x2010
      ∧ (Hdr.backend ⟨best, true⟩ Hdr.smallPool).sizeOf (Hdr.heapAlloc ⟨best, true⟩ Hdr.smallPool
        (Hdr.heapState fun _ => 0) (2 ^ 32 - 1)).1 0x2010 = 0 := by decide +kernel
  let tlsf := Tlsf.backend Tlsf.kilobyte.toHeapConfig
  have htlsf : (tlsf.alloc (Tlsf.tlsfState fun _ => 0) (2 ^ 32 - 1)).2 = 8944
      ∧ tlsf.sizeOf (tlsf.alloc (Tlsf.tlsfState fun _ => 0) (2 ^ 32 - 1)).1 8944 < 2 ^ 32 - 1 := by
    decide +kernel
  have hserved : ∀ {σ : Type} {B : Backend σ} {J : Judge σ} {c : HeapConfig} {st : σ}
      {n p : Nat}, (B.alloc st n).2 = p → p ≠ 0 → B.sizeOf (B.alloc st n).1 p < n →
      ¬ CallOk B J c ⟨st, []⟩ (.alloc n) := by
    rintro σ B J c st n p rfl hp hsize ⟨-, -, hans⟩
    exact absurd (hans.2 hp).2.1 (Nat.not_le.mpr hsize)
  refine ⟨?_, ?_, ?_, ?_⟩
  · exact hserved (hhdr false).1 (by decide) (lt_of_eq_of_lt (hhdr false).2 (by decide))
  · exact hserved (hhdr true).1 (by decide) (lt_of_eq_of_lt (hhdr true).2 (by decide))
  · exact hserved (B := tlsf) htlsf.1 (by decide) htlsf.2
  · rintro ⟨hindex, -⟩
    have hout : ¬ Tlsf.InRange (Tlsf.mapping (Tlsf.roundUpSize (Tlsf.request (2 ^ 23)))) := by
      decide +kernel
    exact hout (hindex (by decide))

/-- An allocation of 100 bytes, a resize that moves it, a request that no pool here can serve, a
product that overflows, and a free. -/
def mixedRequests (p q : Nat) : List HeapLabel :=
  [.alloc 100, .realloc p 120, .alloc 4000000, .calloc 65536 65536, .free q]

/-- First fit, best fit and TLSF answer all of them. -/
theorem requests_answered_iff_mixed :
    Along (HeapSys.sizeStep (Hdr.backend ⟨false, true⟩ Hdr.smallPool))
        (CallOk (Hdr.backend ⟨false, true⟩ Hdr.smallPool) (Hdr.judge Hdr.smallPool) Hdr.smallPool)
        ⟨Hdr.heapState fun _ => 0, []⟩ (mixedRequests 0x2010 0x2088)
      ∧ Along (HeapSys.sizeStep (Hdr.backend ⟨true, true⟩ Hdr.smallPool))
        (CallOk (Hdr.backend ⟨true, true⟩ Hdr.smallPool) (Hdr.judge Hdr.smallPool) Hdr.smallPool)
        ⟨Hdr.heapState fun _ => 0, []⟩ (mixedRequests 0x2010 0x2088)
      ∧ Along (HeapSys.sizeStep (Tlsf.backend Tlsf.kilobyte.toHeapConfig))
        (CallOk (Tlsf.backend Tlsf.kilobyte.toHeapConfig) (Tlsf.judge Tlsf.kilobyte.toHeapConfig)
          Tlsf.kilobyte.toHeapConfig)
        ⟨Tlsf.tlsfState fun _ => 0, []⟩ (mixedRequests 8944 9056) := by
  have hhdr := (requests_answered_iff (c := Hdr.smallPool) (fun _ => 0) (by decide) (by decide)).1
  have htlsf := (requests_answered_iff (c := Tlsf.kilobyte.toHeapConfig) (fun _ => 0) (by decide)
    (by decide)).2 (by decide)
  -- requests this small meet the guard in whatever state they are made
  have hguards : ∀ {σ : Type} {B : Backend σ} {J : Judge σ} {p q : Nat}, p ≠ 0 →
      (∀ h, ∀ n ≤ 4000000, J.guard h n) → ∀ s, ∀ l ∈ mixedRequests p q, SizeGuard B J s l := by
    intro σ B J p q hp hg s l hl
    simp only [mixedRequests, List.mem_cons, List.not_mem_nil, or_false] at hl
    rcases hl with rfl | rfl | rfl | rfl | rfl
    · exact Or.inr (hg _ _ (by decide))
    · refine Or.inr ?_
      rw [if_neg hp]
      exact ⟨by decide, Or.inr (hg _ _ (by decide))⟩
    · exact Or.inr (hg _ _ (by decide))
    · exact Or.inr (Or.inl (by decide))
    · trivial
  obtain ⟨s, hs⟩ : ∃ s, run (HeapSys.sizeStep (Hdr.backend ⟨false, true⟩ Hdr.smallPool))
      ⟨Hdr.heapState fun _ => 0, []⟩ (mixedRequests 0x2010 0x2088) = some s :=
    Option.isSome_iff_exists.mp (by decide +kernel)
  obtain ⟨t, ht⟩ : ∃ t, run (HeapSys.sizeStep (Hdr.backend ⟨true, true⟩ Hdr.smallPool))
      ⟨Hdr.heapState fun _ => 0, []⟩ (mixedRequests 0x2010 0x2088) = some t :=
    Option.isSome_iff_exists.mp (by decide +kernel)
  obtain ⟨u, hu⟩ : ∃ u, run (HeapSys.sizeStep (Tlsf.backend Tlsf.kilobyte.toHeapConfig))
      ⟨Tlsf.tlsfState fun _ => 0, []⟩ (mixedRequests 8944 9056) = some u :=
    Option.isSome_iff_exists.mp (by decide +kernel)
  have hsmall : ∀ st, ∀ n ≤ 4000000, (Hdr.judge Hdr.smallPool).guard st n := by
    intro st n hn
    exact Or.inl (by omega)
  have hclass : ∀ st, ∀ n ≤ 4000000, (Tlsf.judge Tlsf.kilobyte.toHeapConfig).guard st n := by
    intro st n hn
    exact Or.inl (hn.trans (by decide))
  exact ⟨(hhdr _ _ s hs).mpr (along_of_forall _ (hguards (by decide) hsmall)),
    (hhdr _ _ t ht).mpr (along_of_forall _ (hguards (by decide) hsmall)),
    (htlsf _ u hu).mpr (along_of_forall _ (hguards (by decide) hclass))⟩

end VibeRtos
