import VibeRtos.Lib.Records

/-!
# The UF2 converter

`bin_to_uf2` of `uf2conv.py`. Its integers are those of Python; an exception is `none`.
-/

namespace VibeRtos

open Records

/-- `UF2_MAGIC0` -/
def uf2Magic0 : Nat := 0x0A324655

/-- `UF2_MAGIC1` -/
def uf2Magic1 : Nat := 0x9E5D5157

/-- `UF2_MAGIC_END` -/
def uf2MagicEnd : Nat := 0x0AB16F30

/-- `UF2_FLAG_FAMILY_ID_PRESENT` -/
def uf2FlagFamilyIdPresent : Nat := 0x00002000

/-- `UF2_PAYLOAD_SZ` -/
def uf2PayloadSz : Nat := 256

/-- `UF2_BLOCK_SZ` -/
def uf2BlockSz : Nat := 512

/-- `UF2_DATA_FIELD` -/
def uf2DataField : Nat := 476

/-- `struct.pack` of an `I`, which has to fit into 32 bits. -/
def structPackI (v : Int) : Option (List UInt8) :=
  if 0 ≤ v ∧ v < 2 ^ 32 then some (le32 v.toNat) else none

/-- `struct.pack` with an `I` for each value. -/
def structPack (vs : List Int) : Option (List UInt8) := (vs.mapM structPackI).map List.flatten

/-- The body of the loop: block `blockNo` of the padded data. -/
def uf2Block (data : List UInt8) (baseAddr familyId : Int) (numBlocks blockNo : Nat) :
    Option (List UInt8) := do
  let addr := baseAddr + blockNo * uf2PayloadSz
  -- `data[block_no * UF2_PAYLOAD_SZ:(block_no + 1) * UF2_PAYLOAD_SZ]`
  let payload := (data.drop (blockNo * uf2PayloadSz)).take
    ((blockNo + 1) * uf2PayloadSz - blockNo * uf2PayloadSz)
  let header ← structPack [uf2Magic0, uf2Magic1, uf2FlagFamilyIdPresent, addr, uf2PayloadSz,
    blockNo, numBlocks, familyId]
  let dataField := payload ++ List.replicate (uf2DataField - uf2PayloadSz) 0
  let footer ← structPack [uf2MagicEnd]
  let block := header ++ dataField ++ footer
  if block.length = uf2BlockSz then
    return block
  else none

/-- `bin_to_uf2` -/
def binToUf2 (data : List UInt8) (baseAddr familyId : Int) : Option (List UInt8) :=
  let remainder := data.length % uf2PayloadSz
  let data := if remainder ≠ 0 then data ++ List.replicate (uf2PayloadSz - remainder) 0 else data
  let numBlocks := data.length / uf2PayloadSz
  (List.range numBlocks).foldlM
    (fun blocks blockNo => do
      let block ← uf2Block data baseAddr familyId numBlocks blockNo
      return blocks ++ block) []

/-! ## Flashing -/

/-- What a boot ROM writes for a block: the payload, to the address in the block. -/
def uf2BlockWrites (block : List UInt8) : List (Nat × UInt8) :=
  (List.range (word block 16)).map fun j => (word block 12 + j, block.getD (32 + j) 0)

/-- What it writes for an image, block by block. -/
def uf2Writes (image : List UInt8) : List (Nat × UInt8) :=
  (records uf2BlockSz image).flatMap uf2BlockWrites

/-- The fields of a block. -/
structure Uf2Fields (block : List UInt8) (addr blockNo numBlocks familyId : Nat) : Prop where
  magic0 : word block 0 = uf2Magic0
  magic1 : word block 4 = uf2Magic1
  flags : word block 8 = uf2FlagFamilyIdPresent
  addr : word block 12 = addr
  payloadSz : word block 16 = uf2PayloadSz
  blockNo : word block 20 = blockNo
  numBlocks : word block 24 = numBlocks
  familyId : word block 28 = familyId
  magicEnd : word block 508 = uf2MagicEnd

end VibeRtos
