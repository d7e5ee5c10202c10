import VibeRtos.Arch.ContextSwitch

/-!
# The reset handler

`Reset_Handler` of `startup.S`, instruction by instruction up to the call of `SystemInit`, with
the symbols that the linker scripts define.
-/

namespace VibeRtos.Reset

open ByteMem

/-- The instructions that the handler is made of; a label is the index of an instruction. -/
inductive Instr where
  /-- `ldr rd, =v` -/
  | ldrLit (rd : Fin 4) (v : Word)
  /-- `cmp rn, rm` -/
  | cmp (rn rm : Fin 4)
  /-- `bcs label` -/
  | bcs (label : Nat)
  /-- `b label` -/
  | b (label : Nat)
  /-- `ldr rt, [rn]` -/
  | ldr (rt rn : Fin 4)
  /-- `str rt, [rn]` -/
  | str (rt rn : Fin 4)
  /-- `adds rd, rd, #v` -/
  | adds (rd : Fin 4) (v : Word)
  /-- `movs rd, #v` -/
  | movs (rd : Fin 4) (v : Word)
  /-- `bl SystemInit` -/
  | blSystemInit

/-- The symbols of the linker script. -/
structure Layout where
  /-- `_sidata` -/
  sidata : Word
  /-- `_sdata` -/
  sdata : Word
  /-- `_edata` -/
  edata : Word
  /-- `_sbss` -/
  sbss : Word
  /-- `_ebss` -/
  ebss : Word

def dataCopyLoop : Nat := 3
def dataCopyDone : Nat := 10
def bssZeroLoop : Nat := 13
def bssZeroDone : Nat := 18

/-- `Reset_Handler`. -/
def code (l : Layout) : List Instr :=
  -- Step 2: copy .data from flash to RAM
  [ .ldrLit 0 l.sidata, .ldrLit 1 l.sdata, .ldrLit 2 l.edata,
    -- _data_copy_loop:
    .cmp 1 2, .bcs dataCopyDone, .ldr 3 0, .adds 0 4, .str 3 1, .adds 1 4, .b dataCopyLoop,
    -- _data_copy_done:
    .ldrLit 0 l.sbss, .ldrLit 1 l.ebss, .movs 2 0,
    -- _bss_zero_loop:
    .cmp 0 1, .bcs bssZeroDone, .str 2 0, .adds 0 4, .b bssZeroLoop,
    -- _bss_zero_done:
    .blSystemInit]

/-- `r0` to `r3`, the carry flag and the memory; `pc` is the index of the instruction. -/
structure State where
  r : Fin 4 → Word
  carry : Bool
  pc : Nat
  mem : Mem

namespace State

def setReg (s : State) (rd : Fin 4) (v : Word) : State :=
  { s with r := Function.update s.r rd v, pc := s.pc + 1 }

/-- Execute an instruction; there is nothing to be done for the call. -/
def exec (s : State) : Instr → Option State
  | .ldrLit rd v => some (s.setReg rd v)
  | .cmp rn rm => some { s with carry := s.r rm ≤ s.r rn, pc := s.pc + 1 }
  | .bcs label => some { s with pc := if s.carry then label else s.pc + 1 }
  | .b label => some { s with pc := label }
  | .ldr rt rn => some (s.setReg rt (VibeRtos.ldr s.mem (s.r rn)))
  | .str rt rn => some { s with mem := VibeRtos.str s.mem (s.r rn) (s.r rt), pc := s.pc + 1 }
  | .adds rd v =>
      some { s.setReg rd (s.r rd + v) with carry := 2 ^ 32 ≤ (s.r rd).toNat + v.toNat }
  | .movs rd v => some (s.setReg rd v)
  | .blSystemInit => none

/-- Execute the next instruction of the handler. -/
def step (l : Layout) (s : State) : Option State := (code l)[s.pc]?.bind s.exec

end State

/-- What the linker scripts see to: `.data` and `.bss` are made of words, and do not overlap each
other or the load image of `.data`. -/
structure Layout.Linked (l : Layout) : Prop where
  data : l.sdata.toNat ≤ l.edata.toNat ∧ 4 ∣ l.edata.toNat - l.sdata.toNat
  bss : l.sbss.toNat ≤ l.ebss.toNat ∧ 4 ∣ l.ebss.toNat - l.sbss.toNat
  image : l.sidata.toNat + (l.edata.toNat - l.sdata.toNat) < 2 ^ 32
  apart : l.edata.toNat ≤ l.sbss.toNat ∨ l.ebss.toNat ≤ l.sdata.toNat
  imageApart : l.sidata.toNat + (l.edata.toNat - l.sdata.toNat) ≤ l.sdata.toNat
    ∨ l.edata.toNat ≤ l.sidata.toNat

end VibeRtos.Reset
