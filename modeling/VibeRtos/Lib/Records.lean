import Mathlib

/-!
# Records of a fixed length

A file of records is the concatenation of lists of one length, and a field of a record is a
32-bit word in little-endian order. The record at an index is found again by its offset, and
a field by its offset in the record.
-/

namespace Records

variable {α β : Type}

/-! ## Words -/

/-- The four bytes of a word, the least significant first. -/
def le32 (v : Nat) : List UInt8 :=
  [UInt8.ofNat v, UInt8.ofNat (v / 256), UInt8.ofNat (v / 65536), UInt8.ofNat (v / 16777216)]

/-- The word at an offset, where bytes behind the end count as 0. -/
def word (bytes : List UInt8) (off : Nat) : Nat :=
  (bytes.getD off 0).toNat + 256 * (bytes.getD (off + 1) 0).toNat
    + 65536 * (bytes.getD (off + 2) 0).toNat + 16777216 * (bytes.getD (off + 3) 0).toNat

@[simp] theorem length_le32 (v : Nat) : (le32 v).length = 4 := rfl

theorem word_le32 {v : Nat} (h : v < 2 ^ 32) (rest : List UInt8) : word (le32 v ++ rest) 0 = v := by
  show (UInt8.ofNat v).toNat + 256 * (UInt8.ofNat (v / 256)).toNat
    + 65536 * (UInt8.ofNat (v / 65536)).toNat + 16777216 * (UInt8.ofNat (v / 16777216)).toNat = v
  simp only [UInt8.toNat_ofNat']
  omega

/-- A field behind others. -/
theorem word_append {front rest : List UInt8} {off : Nat} :
    word (front ++ rest) (front.length + off) = word rest off := by
  have h : ∀ i, (front ++ rest).getD (front.length + i) 0 = rest.getD i 0 := by
    intro i
    rw [List.getD_eq_getElem?_getD, List.getD_eq_getElem?_getD,
      List.getElem?_append_right (Nat.le_add_right ..), Nat.add_sub_cancel_left]
  simp only [word, Nat.add_assoc, h]

/-- The words of a header. -/
theorem word_flatten {vs : List Nat} (hvs : ∀ v ∈ vs, v < 2 ^ 32) (rest : List UInt8) :
    ∀ (i : Nat) (hi : i < vs.length), word ((vs.map le32).flatten ++ rest) (4 * i) = vs[i] := by
  induction vs with
  | nil => simp
  | cons v vs ih =>
      intro i hi
      rw [List.map_cons, List.flatten_cons, List.append_assoc]
      cases i with
      | zero => exact word_le32 (hvs v (List.mem_cons_self ..)) _
      | succ i =>
          rw [show 4 * (i + 1) = (le32 v).length + 4 * i by rw [length_le32]; omega, word_append]
          exact ih (fun w hw => hvs w (List.mem_cons_of_mem _ hw)) i (by simpa using hi)

/-! ## Records -/

/-- The record at index `i`. -/
def record (n : Nat) (xs : List α) (i : Nat) : List α := (xs.drop (n * i)).take n

/-- All records. -/
def records (n : Nat) (xs : List α) : List (List α) :=
  (List.range (xs.length / n)).map (record n xs)

theorem length_flatten {n : Nat} {bs : List (List α)} (h : ∀ b ∈ bs, b.length = n) :
    bs.flatten.length = n * bs.length := by
  induction bs with
  | nil => simp
  | cons b bs ih =>
      rw [List.flatten_cons, List.length_append, h b (List.mem_cons_self ..),
        ih fun c hc => h c (List.mem_cons_of_mem _ hc), List.length_cons, Nat.mul_succ,
        Nat.add_comm]

theorem record_flatten {n : Nat} {bs : List (List α)} (h : ∀ b ∈ bs, b.length = n) :
    ∀ (i : Nat) (hi : i < bs.length), record n bs.flatten i = bs[i] := by
  induction bs with
  | nil => simp
  | cons b bs ih =>
      intro i hi
      have hb := h b (List.mem_cons_self ..)
      rw [record, List.flatten_cons]
      cases i with
      | zero =>
          rw [Nat.mul_zero, List.drop_zero, ← hb, List.take_left]
          rfl
      | succ i =>
          rw [Nat.mul_succ, Nat.add_comm, ← hb, List.drop_length_add_append, hb]
          exact ih (fun c hc => h c (List.mem_cons_of_mem _ hc)) i (by simpa using hi)

/-- The records of a concatenation are its parts. -/
theorem records_flatten {n : Nat} (hn : 0 < n) {bs : List (List α)} (h : ∀ b ∈ bs, b.length = n) :
    records n bs.flatten = bs := by
  rw [records, length_flatten h, Nat.mul_div_cancel_left _ hn]
  refine List.ext_getElem (by simp) fun i hi hi' => ?_
  rw [List.getElem_map, List.getElem_range]
  exact record_flatten h i hi'

/-- Counting through the records is counting through the whole. -/
theorem flatMap_range (f : Nat → β) (n : Nat) : ∀ k : Nat,
    ((List.range k).flatMap fun i => (List.range n).map fun j => f (n * i + j))
      = (List.range (n * k)).map f := by
  intro k
  induction k with
  | zero => simp
  | succ k ih =>
      rw [List.range_succ, List.flatMap_append, ih, List.flatMap_singleton, Nat.mul_succ,
        List.range_add, List.map_append, List.map_map]
      rfl

end Records
