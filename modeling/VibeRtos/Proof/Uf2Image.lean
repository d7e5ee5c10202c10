import VibeRtos.Sys.Uf2

/-!
# The image of a firmware

A block is read back field by field, and the image block by block. What the blocks write is the
padded firmware, counted through from its first byte to its last.
-/

namespace VibeRtos

open Records

theorem structPack_eq {vs : List Nat} (h : ∀ v ∈ vs, v < 2 ^ 32) :
    structPack (vs.map fun v : Nat => (v : Int)) = some (vs.map le32).flatten := by
  have hmap : (vs.map fun v : Nat => (v : Int)).mapM structPackI = some (vs.map le32) := by
    induction vs with
    | nil => rfl
    | cons v vs ih =>
        have hv := h v (List.mem_cons_self ..)
        rw [List.map_cons, List.mapM_cons, structPackI, if_pos (by omega),
          ih fun w hw => h w (List.mem_cons_of_mem _ hw)]
        rfl
  rw [structPack, hmap]
  rfl

theorem structPack_none {vs : List Int} {v : Int} (hv : v ∈ vs) (h : ¬ (0 ≤ v ∧ v < 2 ^ 32)) :
    structPack vs = none := by
  have hmap : vs.mapM structPackI = none := by
    induction vs with
    | nil => simp at hv
    | cons w vs ih =>
        rw [List.mapM_cons]
        cases hw : structPackI w with
        | none => rfl
        | some bytes =>
            rcases List.mem_cons.mp hv with rfl | hv
            · rw [structPackI, if_neg h] at hw
              exact absurd hw (by simp)
            · rw [ih hv]
              rfl
  rw [structPack, hmap]
  rfl

section Block

variable {data : List UInt8} {base family k i : Nat}

/-- A block carries its fields, and its piece of the data. -/
structure Uf2BlockOf (data : List UInt8) (base family k i : Nat) (block : List UInt8) : Prop where
  length : block.length = uf2BlockSz
  fields : Uf2Fields block (base + 256 * i) i k family
  payload : ∀ j < 256, block.getD (32 + j) 0 = data.getD (256 * i + j) 0

/-- The words of the header. -/
def uf2Header (addr blockNo numBlocks familyId : Nat) : List Nat :=
  [uf2Magic0, uf2Magic1, uf2FlagFamilyIdPresent, addr, uf2PayloadSz, blockNo, numBlocks, familyId]

/-- The bytes of block `i`. -/
def uf2BlockBytes (data : List UInt8) (base family k i : Nat) : List UInt8 :=
  ((uf2Header (base + 256 * i) i k family).map le32).flatten
    ++ ((data.drop (256 * i)).take 256 ++ List.replicate 220 0) ++ le32 uf2MagicEnd

theorem uf2Header_lt (hi : i < k) (hbase : base + 256 * k ≤ 2 ^ 32) (hfamily : family < 2 ^ 32) :
    ∀ v ∈ uf2Header (base + 256 * i) i k family, v < 2 ^ 32 := by
  intro v hv
  simp only [uf2Header, List.mem_cons, List.not_mem_nil, or_false] at hv
  rcases hv with rfl | rfl | rfl | rfl | rfl | rfl | rfl | rfl
  all_goals first | decide | omega

theorem length_payload (hdata : data.length = 256 * k) (hi : i < k) :
    ((data.drop (256 * i)).take 256).length = 256 := by
  rw [List.length_take, List.length_drop]
  omega

theorem length_uf2BlockBytes (hdata : data.length = 256 * k) (hi : i < k) :
    (uf2BlockBytes data base family k i).length = uf2BlockSz := by
  rw [uf2BlockBytes, List.length_append, List.length_append, List.length_append,
    length_payload hdata hi, List.length_replicate]
  rfl

theorem uf2Block_eq (hdata : data.length = 256 * k) (hi : i < k) (hbase : base + 256 * k ≤ 2 ^ 32)
    (hfamily : family < 2 ^ 32) :
    uf2Block data base family k i = some (uf2BlockBytes data base family k i) := by
  have hheader := structPack_eq (uf2Header_lt hi hbase hfamily)
  have hfooter : structPack [(uf2MagicEnd : Int)] = some (le32 uf2MagicEnd) := rfl
  have haddr : (base : Int) + (i : Int) * (uf2PayloadSz : Int)
      = ((base + 256 * i : Nat) : Int) := by
    have hsz : (uf2PayloadSz : Int) = 256 := rfl
    rw [hsz]
    omega
  have hpiece : (i + 1) * uf2PayloadSz - 256 * i = 256 := by
    have hsz : uf2PayloadSz = 256 := rfl
    rw [hsz]
    omega
  have hstart : i * uf2PayloadSz = 256 * i := Nat.mul_comm ..
  have hlen : (uf2BlockBytes data base family k i).length = uf2BlockSz :=
    length_uf2BlockBytes hdata hi
  have hlist : [(uf2Magic0 : Int), uf2Magic1, uf2FlagFamilyIdPresent,
      ((base + 256 * i : Nat) : Int), uf2PayloadSz, i, k, family]
      = (uf2Header (base + 256 * i) i k family).map fun v : Nat => (v : Int) := rfl
  have hzeros : uf2DataField - uf2PayloadSz = 220 := rfl
  rw [uf2BlockBytes] at hlen
  simp only [uf2Block, haddr, hpiece, hstart, hlist, hheader, hfooter, hzeros, hlen,
    Option.bind_eq_bind, Option.bind_some, if_true]
  rfl

theorem uf2BlockBytes_spec (hdata : data.length = 256 * k) (hi : i < k)
    (hbase : base + 256 * k ≤ 2 ^ 32) (hfamily : family < 2 ^ 32) :
    Uf2BlockOf data base family k i (uf2BlockBytes data base family k i) := by
  have hheader : ∀ (n : Nat) (hn : n < 8), word (uf2BlockBytes data base family k i) (4 * n)
      = (uf2Header (base + 256 * i) i k family)[n] := by
    intro n hn
    rw [uf2BlockBytes, List.append_assoc]
    exact word_flatten (uf2Header_lt hi hbase hfamily) _ n hn
  have hend : word (uf2BlockBytes data base family k i) 508 = uf2MagicEnd := by
    have hfront : (((uf2Header (base + 256 * i) i k family).map le32).flatten
        ++ ((data.drop (256 * i)).take 256 ++ List.replicate 220 0)).length = 508 := by
      rw [List.length_append, List.length_append, length_payload hdata hi, List.length_replicate]
      rfl
    have hword := word_le32 (show uf2MagicEnd < 2 ^ 32 by decide) []
    rw [← word_append, hfront, List.append_nil] at hword
    exact hword
  refine ⟨length_uf2BlockBytes hdata hi, ⟨hheader 0 (by decide), hheader 1 (by decide),
    hheader 2 (by decide), hheader 3 (by decide), hheader 4 (by decide), hheader 5 (by decide),
    hheader 6 (by decide), hheader 7 (by decide), hend⟩, fun j hj => ?_⟩
  have hfront : (((uf2Header (base + 256 * i) i k family).map le32).flatten).length = 32 := rfl
  have hj' : j < ((data.drop (256 * i)).take 256).length := by
    rw [length_payload hdata hi]
    exact hj
  rw [uf2BlockBytes, List.append_assoc, List.getD_eq_getElem?_getD, List.getD_eq_getElem?_getD,
    List.getElem?_append_right (by omega), hfront, Nat.add_sub_cancel_left, List.append_assoc,
    List.getElem?_append_left hj', List.getElem?_take_of_lt hj, List.getElem?_drop]

end Block

/-! ## The image -/

theorem foldlM_concat {α β : Type} {f : α → Option (List β)} {g : α → List β} :
    ∀ {xs : List α} (acc : List β), (∀ x ∈ xs, f x = some (g x)) →
    xs.foldlM (fun acc x => do
      let ys ← f x
      return acc ++ ys) acc = some (acc ++ (xs.map g).flatten)
  | [], acc, _ => by simp
  | x :: xs, acc, h => by
      rw [List.foldlM_cons, h x (List.mem_cons_self ..)]
      have hrest := foldlM_concat (acc ++ g x) fun y hy => h y (List.mem_cons_of_mem _ hy)
      rw [List.map_cons, List.flatten_cons, ← List.append_assoc]
      exact hrest

/-- The firmware with its padding. -/
def uf2Padded (data : List UInt8) : List UInt8 :=
  if data.length % uf2PayloadSz ≠ 0
  then data ++ List.replicate (uf2PayloadSz - data.length % uf2PayloadSz) 0 else data

theorem length_uf2Padded (data : List UInt8) :
    (uf2Padded data).length = 256 * ((data.length + 255) / 256) := by
  have hsz : uf2PayloadSz = 256 := rfl
  by_cases h : data.length % 256 = 0
  · rw [uf2Padded, hsz, if_neg (not_not.mpr h)]
    omega
  · rw [uf2Padded, hsz, if_pos h, List.length_append, List.length_replicate]
    omega

theorem getD_uf2Padded (data : List UInt8) (j : Nat) :
    (uf2Padded data).getD j 0 = data.getD j 0 := by
  unfold uf2Padded
  split
  · rw [List.getD_eq_getElem?_getD, List.getD_eq_getElem?_getD]
    by_cases hj : j < data.length
    · rw [List.getElem?_append_left hj]
    · have hend : data[j]? = none := List.getElem?_eq_none (by omega)
      rw [List.getElem?_append_right (by omega), hend, List.getElem?_replicate]
      split <;> rfl
  · rfl

/-- The bytes of the image. -/
theorem binToUf2_eq {data : List UInt8} {base family : Nat}
    (hbase : base + 256 * ((data.length + 255) / 256) ≤ 2 ^ 32) (hfamily : family < 2 ^ 32) :
    binToUf2 data base family = some ((List.range ((data.length + 255) / 256)).map
      (uf2BlockBytes (uf2Padded data) base family ((data.length + 255) / 256))).flatten := by
  have hlen := length_uf2Padded data
  have hnum : (uf2Padded data).length / uf2PayloadSz = (data.length + 255) / 256 := by
    rw [hlen]
    exact Nat.mul_div_cancel_left _ (by decide)
  have hfold := foldlM_concat [] fun i hi =>
    uf2Block_eq hlen (List.mem_range.mp hi) hbase hfamily
  have hdef : binToUf2 data base family
      = (List.range ((uf2Padded data).length / uf2PayloadSz)).foldlM (fun blocks blockNo => do
        let block ← uf2Block (uf2Padded data) base family
          ((uf2Padded data).length / uf2PayloadSz) blockNo
        return blocks ++ block) [] := rfl
  rw [hdef, hnum, hfold, List.nil_append]

/-- A family id that does not fit makes `struct.pack` raise. -/
theorem binToUf2_raises {data : List UInt8} {base family : Int} (hdata : data ≠ [])
    (hfamily : ¬ (0 ≤ family ∧ family < 2 ^ 32)) : binToUf2 data base family = none := by
  have hblock : ∀ k i, uf2Block (uf2Padded data) base family k i = none := by
    intro k i
    simp only [uf2Block, Option.bind_eq_bind]
    rw [structPack_none (v := family) (by simp) hfamily]
    rfl
  have hdef : binToUf2 data base family
      = (List.range ((uf2Padded data).length / uf2PayloadSz)).foldlM (fun blocks blockNo => do
        let block ← uf2Block (uf2Padded data) base family
          ((uf2Padded data).length / uf2PayloadSz) blockNo
        return blocks ++ block) [] := rfl
  have hpos := List.length_pos_iff.mpr hdata
  obtain ⟨k, hk⟩ : ∃ k, (uf2Padded data).length / uf2PayloadSz = k + 1 := by
    have hlen := length_uf2Padded data
    refine Nat.exists_eq_succ_of_ne_zero ?_
    rw [hlen, show uf2PayloadSz = 256 from rfl, Nat.mul_div_cancel_left _ (by decide)]
    omega
  rw [hdef, hk, List.range_succ_eq_map, List.foldlM_cons, hblock]
  rfl

/-- Of writes to consecutive addresses, one goes to each. -/
theorem filter_range_writes (base : Nat) (g : Nat → UInt8) (a m : Nat) :
    ((List.range m).map fun j => (base + j, g j)).filter (fun w => w.1 = a)
      = if base ≤ a ∧ a < base + m then [(a, g (a - base))] else [] := by
  induction m with
  | zero =>
      rw [if_neg (by omega)]
      rfl
  | succ m ih =>
      rw [List.range_succ, List.map_append, List.filter_append, ih]
      by_cases ha : base + m = a
      · subst ha
        rw [if_neg (by omega), if_pos (by omega), Nat.add_sub_cancel_left]
        simp
      · have hlast : ([m].map fun j => (base + j, g j)).filter (fun w => w.1 = a) = [] := by
          simpa using ha
        rw [hlast, List.append_nil]
        exact if_congr (by omega) rfl rfl

/-- What the blocks of an image write. -/
theorem uf2Writes_eq {data : List UInt8} {base family k : Nat} (hdata : data.length = 256 * k)
    (hbase : base + 256 * k ≤ 2 ^ 32) (hfamily : family < 2 ^ 32) :
    uf2Writes ((List.range k).map (uf2BlockBytes data base family k)).flatten
      = (List.range (256 * k)).map fun a => (base + a, data.getD a 0) := by
  have hblocks : ∀ b ∈ (List.range k).map (uf2BlockBytes data base family k),
      b.length = uf2BlockSz := by
    intro b hb
    obtain ⟨i, hi, rfl⟩ := List.mem_map.mp hb
    exact length_uf2BlockBytes hdata (List.mem_range.mp hi)
  rw [uf2Writes, records_flatten (by decide) hblocks, List.flatMap_map, ← flatMap_range]
  refine List.flatMap_congr fun i hi => ?_
  have hblock := uf2BlockBytes_spec hdata (List.mem_range.mp hi) hbase hfamily
  rw [uf2BlockWrites, hblock.fields.payloadSz, hblock.fields.addr]
  refine List.map_congr_left fun j hj => ?_
  rw [hblock.payload j (List.mem_range.mp hj), Nat.add_assoc]

/--
**The image encodes the firmware.**

For every firmware and every base for which the addresses fit into 32 bits: with a 32-bit
family id `bin_to_uf2` returns an image of 512-byte blocks, one for each started 256 bytes.
Each block carries the magics, the flag, the family, its number and its address; and a boot
ROM that writes the payloads writes each address of the range once, first the firmware and
then zeros. With any other family id `struct.pack` raises, if there is a block to pack.
-/
theorem uf2_image_exact (data : List UInt8) (base : Nat)
    (hbase : base + 256 * ((data.length + 255) / 256) ≤ 2 ^ 32) :
    (∀ family : Nat, family < 2 ^ 32 → ∃ image, binToUf2 data base family = some image
        ∧ image.length = 512 * ((data.length + 255) / 256)
        ∧ (∀ i < (data.length + 255) / 256, Uf2Fields (record 512 image i) (base + 256 * i) i
          ((data.length + 255) / 256) family)
        ∧ ∀ a, (uf2Writes image).filter (fun w => w.1 = a)
          = if base ≤ a ∧ a < base + 256 * ((data.length + 255) / 256)
            then [(a, data.getD (a - base) 0)] else [])
      ∧ ∀ family : Int, data ≠ [] → ¬ (0 ≤ family ∧ family < 2 ^ 32) →
        binToUf2 data base family = none := by
  refine ⟨fun family hfamily => ?_, fun family hdata hbad => binToUf2_raises hdata hbad⟩
  have hlen := length_uf2Padded data
  have hblocks : ∀ b ∈ (List.range ((data.length + 255) / 256)).map
      (uf2BlockBytes (uf2Padded data) base family ((data.length + 255) / 256)),
      b.length = 512 := by
    intro b hb
    obtain ⟨i, hi, rfl⟩ := List.mem_map.mp hb
    exact length_uf2BlockBytes hlen (List.mem_range.mp hi)
  refine ⟨_, binToUf2_eq hbase hfamily, ?_, fun i hi => ?_, fun a => ?_⟩
  · rw [length_flatten hblocks, List.length_map, List.length_range]
  · rw [record_flatten hblocks i (by simpa using hi), List.getElem_map, List.getElem_range]
    exact (uf2BlockBytes_spec hlen hi hbase hfamily).fields
  · rw [uf2Writes_eq hlen hbase hfamily, filter_range_writes, getD_uf2Padded]

/-- The bytes 0, 1, …, 255, 0, 1, …, 43. -/
def twoBlockFirmware : List UInt8 := (List.range 300).map UInt8.ofNat

/-- At the flash of an RP2040 the 300 bytes make two blocks. The second carries their last 44, and
zeros behind them. -/
theorem uf2_image_exact_two_blocks : ∃ image,
    binToUf2 twoBlockFirmware (0x10000000 : Nat) (0xE48BFF56 : Nat) = some image
    ∧ image.length = 1024
    ∧ Uf2Fields (record 512 image 0) 0x10000000 0 2 0xE48BFF56
    ∧ Uf2Fields (record 512 image 1) 0x10000100 1 2 0xE48BFF56
    ∧ (uf2Writes image).filter (fun w => w.1 = 0x1000012B) = [(0x1000012B, 43)]
    ∧ (uf2Writes image).filter (fun w => w.1 = 0x1000012C) = [(0x1000012C, 0)]
    ∧ (uf2Writes image).filter (fun w => w.1 = 0x10000200) = []
    ∧ binToUf2 twoBlockFirmware (0x10000000 : Nat) 0x100000000 = none := by
  have hnum : (twoBlockFirmware.length + 255) / 256 = 2 := by simp [twoBlockFirmware]
  have hexact := uf2_image_exact twoBlockFirmware 0x10000000 (by rw [hnum]; decide)
  rw [hnum] at hexact
  obtain ⟨image, himage, hlen, hfields, hwrites⟩ := hexact.1 0xE48BFF56 (by decide)
  refine ⟨image, himage, hlen, hfields 0 (by decide), hfields 1 (by decide), ?_, ?_, ?_,
    hexact.2 0x100000000 (by decide) (by decide)⟩
  · rw [hwrites]
    decide
  · rw [hwrites]
    decide
  · rw [hwrites]
    decide

/-- A family id of 33 bits makes `struct.pack` raise. -/
theorem uf2_family_too_large : ¬ ∀ (data : List UInt8) (base family : Nat), data ≠ [] →
    base + 256 * ((data.length + 255) / 256) ≤ 2 ^ 32 →
    ∃ image, binToUf2 data base family = some image := by
  intro h
  obtain ⟨image, himage⟩ := h [1, 2, 3] 0x10000000 0x100000000 (by simp) (by decide)
  rw [binToUf2_raises (by simp) (by decide)] at himage
  exact absurd himage (by simp)

end VibeRtos
