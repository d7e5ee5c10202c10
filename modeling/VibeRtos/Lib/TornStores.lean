import VibeRtos.Lib.Stores

/-!
# Stores that are cut short

A reset can come between any two bytes of a procedure that stores. What is then in the memory is
what a prefix of its bytes leaves. A byte that is stored only as `v` is `v` from its first store
on, wherever the cut is.
-/

namespace Stores

open ByteMem

/-- The bytes of a store, in the order in which they are stored. -/
def Store.bytes (s : Store) : List (Nat × UInt8) :=
  (List.range s.len).map fun i => (s.off + i, s.data i)

/-- Store one byte. -/
def putByte (m : Mem) (w : Nat × UInt8) : Mem := Function.update m w.1 w.2

/-- The memory when a reset comes after `n` bytes. -/
def torn (m : Mem) (ss : List Store) (n : Nat) : Mem :=
  ((ss.flatMap Store.bytes).take n).foldl putByte m

/-- How many bytes several stores have. -/
def byteCount (ss : List Store) : Nat := (ss.flatMap Store.bytes).length

variable {m : Mem} {s : Store} {ss ss' : List Store} {n x : Nat}

/-- The first bytes of a block. -/
theorem foldl_putByte_range (m : Mem) (s : Store) (n : Nat) :
    ((List.range n).map fun i => (s.off + i, s.data i)).foldl putByte m
      = blit m s.off s.data n := by
  induction n with
  | zero =>
      funext x
      simp only [List.range_zero, List.map_nil, List.foldl_nil, blit]
      rw [if_neg (by omega)]
  | succ n ih =>
      rw [List.range_succ, List.map_append, List.foldl_append, ih]
      funext x
      simp only [List.map_cons, List.map_nil, List.foldl_cons, List.foldl_nil, putByte, blit,
        Function.update_apply]
      by_cases hx : x = s.off + n
      · rw [if_pos hx, if_pos (by omega), hx, Nat.add_sub_cancel_left]
      · rw [if_neg hx]
        exact if_congr (by omega) rfl rfl

theorem foldl_bytes (m : Mem) (s : Store) : s.bytes.foldl putByte m = s.run m :=
  foldl_putByte_range m s s.len

/-- All bytes together are all stores. -/
theorem foldl_flatMap_bytes : ∀ (ss : List Store) (m : Mem),
    (ss.flatMap Store.bytes).foldl putByte m = runAll m ss := by
  intro ss
  induction ss with
  | nil => exact fun m => rfl
  | cons s ss ih =>
      intro m
      rw [List.flatMap_cons, List.foldl_append, foldl_bytes, ih]
      rfl

@[simp] theorem torn_zero : torn m ss 0 = m := rfl

/-- Nothing was cut. -/
theorem torn_of_le (h : byteCount ss ≤ n) : torn m ss n = runAll m ss := by
  rw [torn, List.take_of_length_le h, foldl_flatMap_bytes]

/-- The cut is in the first part or behind it. -/
theorem torn_append : torn m (ss ++ ss') n
    = if n ≤ byteCount ss then torn m ss n else torn (runAll m ss) ss' (n - byteCount ss) := by
  rw [torn, List.flatMap_append, List.take_append, List.foldl_append]
  split
  · rename_i h
    have hzero : n - (ss.flatMap Store.bytes).length = 0 := Nat.sub_eq_zero_of_le h
    rw [hzero]
    rfl
  · rename_i h
    rw [List.take_of_length_le (not_le.mp h).le, foldl_flatMap_bytes]
    rfl

/-- A byte that is `v` and is stored only as `v`. -/
theorem foldl_putByte_const {v : UInt8} : ∀ (ws : List (Nat × UInt8)) {m : Mem}, m x = v →
    (∀ w ∈ ws, w.1 = x → w.2 = v) → ws.foldl putByte m x = v := by
  intro ws
  induction ws with
  | nil => exact fun hm _ => hm
  | cons w ws ih =>
      intro m hm hws
      refine ih ?_ fun w' hw' => hws w' (List.mem_cons_of_mem _ hw')
      by_cases hx : x = w.1
      · rw [putByte, hx, Function.update_self]
        exact hws w (List.mem_cons_self ..) hx.symm
      · rw [putByte, Function.update_of_ne hx]
        exact hm

theorem bytes_const {v : UInt8} (h : ∀ s ∈ ss, s.Covers x → s.data (x - s.off) = v) :
    ∀ w ∈ ss.flatMap Store.bytes, w.1 = x → w.2 = v := by
  intro w hw hx
  obtain ⟨s, hs, hb⟩ := List.mem_flatMap.mp hw
  obtain ⟨i, hi, rfl⟩ := List.mem_map.mp hb
  have hi' := List.mem_range.mp hi
  have hcov : s.Covers x := ⟨by omega, by omega⟩
  have hdata := h s hs hcov
  rwa [show x - s.off = i by omega] at hdata

/-- A byte that is stored only as `v`, if at all, and is `v` to begin with. -/
theorem torn_const {v : UInt8} (hm : m x = v)
    (h : ∀ s ∈ ss, s.Covers x → s.data (x - s.off) = v) : torn m ss n x = v :=
  foldl_putByte_const _ hm fun w hw => bytes_const h w (List.mem_of_mem_take hw)

/-- The first byte, stored only as `v`, is `v` from then on. -/
theorem torn_head {v : UInt8} (hlen : 0 < s.len) (hn : 0 < n) (hv : s.data 0 = v)
    (h : ∀ t ∈ ss, t.Covers s.off → t.data (s.off - t.off) = v) :
    torn m (s :: ss) n s.off = v := by
  have hall : ∀ w ∈ (s :: ss).flatMap Store.bytes, w.1 = s.off → w.2 = v := by
    refine bytes_const fun t ht hc => ?_
    rcases List.mem_cons.mp ht with rfl | ht
    · rwa [Nat.sub_self]
    · exact h t ht hc
  have hbytes : (s :: ss).flatMap Store.bytes
      = (s.off, v) :: ((s :: ss).flatMap Store.bytes).tail := by
    obtain ⟨k, hk⟩ : ∃ k, s.len = k + 1 := ⟨s.len - 1, by omega⟩
    simp [Store.bytes, hk, List.range_succ_eq_map, hv]
  obtain ⟨j, rfl⟩ : ∃ j, n = j + 1 := ⟨n - 1, by omega⟩
  rw [torn, hbytes, List.take_succ_cons, List.foldl_cons]
  refine foldl_putByte_const _ (by simp [putByte]) fun w hw => hall w ?_
  exact List.mem_of_mem_tail (List.mem_of_mem_take hw)

/-- A byte of a store behind the cut. -/
theorem torn_behind {i : Nat} (h : n ≤ i) : torn m [s] n (s.off + i) = m (s.off + i) := by
  refine foldl_putByte_const _ rfl fun w hw hx => ?_
  rw [List.flatMap_singleton, Store.bytes, ← List.map_take, List.take_range] at hw
  obtain ⟨j, hj, rfl⟩ := List.mem_map.mp hw
  have hj' := List.mem_range.mp hj
  dsimp only at hx
  omega

/-- A byte that is not stored. -/
theorem torn_frame (h : ¬ Covered ss x) : torn m ss n x = m x :=
  torn_const rfl fun s hs hc => absurd ⟨s, hs, hc⟩ h

end Stores
