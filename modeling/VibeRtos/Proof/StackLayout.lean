import VibeRtos.Proof.SwitchContexts
import VibeRtos.Arch.RestartSystem
import VibeRtos.Kernel.Thread

/-!
# What lies where in a new thread's stack

`vibe_thread_create` places the TLS block, `_thread_stack_setup` the canary, and
`arch_thread_stack_init` the first frame. The canary and the frame fit any stack. The room for
the TLS block is that of a pointer, and `event.c` uses the block for a larger structure.
-/

namespace VibeRtos

open ByteMem Kernel

/-- `sizeof(_event_wait_ctx_t)`: a `uint32_t`, an enumeration and a `bool`, rounded up to the
alignment of 4. With short enumerations `vibe_event_wait_mode_t` is a byte, else a word. -/
def sizeofEventWaitCtx (shortEnums : Bool) : Nat :=
  (4 + (if shortEnums then 1 else 4) + 1 + 3) / 4 * 4

/-- `n` bytes at `a` lie in the stack of `t`. -/
def Board.Inside (b : Board) (t : Tid) (a n : Nat) : Prop :=
  b.base t ≤ a ∧ a + n ≤ b.base t + b.size t

/-- Where the first frame begins: 8 software words and 8 hardware words below the aligned end. -/
def Board.frameAt (b : Board) (t : Tid) : Word := b.top t - 32 - 32

/-- The layout of a stack with `ctx` bytes of TLS at `tls`. -/
structure Board.LaidOut (b : Board) (t : Tid) (tls ctx : Nat) : Prop where
  canary : b.Inside t (b.base t) 4
  frame : b.Inside t (b.frameAt t).toNat 64
  block : b.Inside t tls ctx
  canary_frame : Separate (b.base t) 4 (b.frameAt t).toNat 64
  canary_block : Separate (b.base t) 4 tls ctx
  frame_block : Separate (b.frameAt t).toNat 64 tls ctx
  /-- the first dispatch pops the frame and leaves PSP at its end -/
  above : (b.frameAt t).toNat + 64 ≤ tls

section

variable {b : Board} {t : Tid} {m : Mem} {a : Nat}

theorem frameAt_toNat (hsize : 72 ≤ b.size t) (hend : b.base t + b.size t < 2 ^ 32) :
    (b.frameAt t).toNat + 64 = (b.base t + b.size t) / 8 * 8 := by
  have htop := top_toNat hend
  have hfp : (b.top t - 32).toNat = (b.top t).toNat - 32 :=
    UInt32.toNat_sub_of_le _ _ (UInt32.le_iff_toNat_le.mpr (by simp; omega))
  rw [Board.frameAt, UInt32.toNat_sub_of_le _ _ (UInt32.le_iff_toNat_le.mpr (by simp; omega)), hfp]
  simp
  omega

/-- The canary and the first frame fit, and are apart. -/
theorem canary_and_frame (hsize : 256 ≤ b.size t) (hend : b.base t + b.size t < 2 ^ 32) :
    b.Inside t (b.base t) 4 ∧ b.Inside t (b.frameAt t).toNat 64
      ∧ Separate (b.base t) 4 (b.frameAt t).toNat 64 := by
  have hframe := frameAt_toNat (by omega) hend
  unfold Board.Inside Separate
  omega

/-- The setup of a stack writes the canary, the frame and the stack pointer. -/
theorem threadStackSetup_frame (canary : Bool) (hsize : 256 ≤ b.size t)
    (hend : b.base t + b.size t < 2 ^ 32) (hcanary : ¬ (b.base t ≤ a ∧ a < b.base t + 4))
    (hframe : ¬ ((b.frameAt t).toNat ≤ a ∧ a < (b.frameAt t).toNat + 64))
    (hsp : ¬ InWord (b.spLoc t) a) : threadStackSetup canary b m t a = m a := by
  have hat := frameAt_toNat (by omega) hend
  have hfp : (b.top t - 32).toNat = (b.frameAt t).toNat + 32 := by
    rw [UInt32.toNat_sub_of_le _ _
      (UInt32.le_iff_toNat_le.mpr (by rw [top_toNat hend]; simp; omega)),
      top_toNat hend]
    simp
    omega
  have hinit : ∀ m, archThreadStackInit b m t = str (Frame.store ⟨0, 0, 0, 0, 0, 0, 0, 0⟩
      ((b.initial t).frame.store m (b.top t - 32)) (b.frameAt t)) (b.spLoc t) (b.frameAt t) := by
    intro m
    rw [← zeroes_eq]
    rfl
  have hbase : (UInt32.ofNat (b.base t)).toNat = b.base t := by
    rw [UInt32.toNat_ofNat']
    omega
  unfold InWord at hsp
  rw [threadStackSetup, hinit, str_frame (by omega), Frame.store_frame _ (by omega) (by omega),
    Frame.store_frame _ (by omega) (by omega)]
  split
  · exact str_frame (by omega)
  · rfl

/-- A pointer's worth of TLS would fit, and be above the frame when the end of the stack is not
the end of the frame. -/
theorem tls_word_fits_iff {tls : Nat} (hsize : 256 ≤ b.size t) (hend : b.base t + b.size t < 2 ^ 32)
    (htls : tls = b.base t + b.size t - 4) :
    b.LaidOut t tls 4 ↔ 4 ≤ (b.base t + b.size t) % 8 := by
  have hat := frameAt_toNat (by omega) hend
  constructor
  · intro h
    have habove := h.above
    omega
  · intro hmod
    obtain ⟨hcanary, hframe, hapart⟩ := canary_and_frame hsize hend
    unfold Board.Inside at *
    refine ⟨hcanary, hframe, ?_, hapart, ?_, ?_, ?_⟩
    · show _ ∧ _
      omega
    · unfold Separate
      omega
    · unfold Separate
      omega
    · omega

/-- The control block of a thread that was created. -/
theorem threadCreate_ok {cfg : Config} {k k' : Kernel} {entry arg : Nat} {attr : Option ThreadAttr}
    {stack heapStack : Option Nat}
    (h : k.threadCreate cfg t entry arg attr stack heapStack = (.ok, k')) :
    ∃ (at' : ThreadAttr) (prio : Prio) (base : Nat), attr = some at'
      ∧ stack.or heapStack = some base
      ∧ k'.thr t = { newThread cfg k.nextThreadId entry arg at' prio base
          (if at'.stackSize > 0 then at'.stackSize else 512) with state := .ready } := by
  unfold threadCreate at h
  cases attr with
  | none => exact absurd (congrArg Prod.fst h) (by simp)
  | some at' =>
      dsimp only at h
      split at h
      · exact absurd (congrArg Prod.fst h) (by simp)
      · split at h
        · exact absurd (congrArg Prod.fst h) (by simp)
        · rename_i hprio
          have hlt : at'.priority.toNat < 32 := by
            have hle := UInt8.le_iff_toNat_le.mp (UInt8.not_lt.mp hprio)
            simp only [prioMax] at hle
            exact Nat.lt_succ_of_le hle
          cases hbuf : stack.or heapStack with
          | none =>
              rw [hbuf] at h
              exact absurd (congrArg Prod.fst h) (by simp)
          | some base =>
              rw [hbuf] at h
              obtain ⟨-, rfl⟩ := Prod.mk.inj h
              refine ⟨at', ⟨_, hlt⟩, base, rfl, rfl, ?_⟩
              rw [schedEnqueue_thr, Function.update_self]
              simp only [Function.update_self]

/--
**The TLS block does not fit.**

Whatever the stack and its size, and however wide an enumeration is, the block that
`vibe_event_wait` and `vibe_event_post` use reaches beyond the end of the stack of a thread
that `vibe_thread_create` has created.
-/
theorem tls_outside_stack {cfg : Config} {k k' : Kernel} {entry arg : Nat}
    {attr : Option ThreadAttr}
    {stack heapStack : Option Nat} (shortEnums : Bool) (htls : cfg.tls = true)
    (hcreate : k.threadCreate cfg t entry arg attr stack heapStack = (.ok, k'))
    (hb : b.thr = k'.thr) (hsize : 256 ≤ b.size t) :
    ∃ tls, (b.thr t).tls = some tls ∧ ¬ b.LaidOut t tls (sizeofEventWaitCtx shortEnums) := by
  obtain ⟨at', prio, base, -, -, hthr⟩ := threadCreate_ok hcreate
  have hbase : b.base t = base := by rw [Board.base, hb, hthr]; rfl
  have hctx : 4 < sizeofEventWaitCtx shortEnums := by cases shortEnums <;> decide
  refine ⟨b.base t + b.size t - 4, ?_, fun h => ?_⟩
  · rw [hbase, Board.size, hb, hthr]
    simp [newThread, htls]
  · -- the block begins a word below the end
    have hend := h.block.2
    omega

end

/-- A stack of 1024 bytes from the caller. -/
def kilobyteAttr : ThreadAttr := ⟨1024, 2, none, true, 0⟩

def tlsConfig : Config := ⟨1000, 10, true⟩

/-- The kernel creates thread 1 on a stack at `0x20001000`. -/
def kilobyteCreated : Err × Kernel :=
  (bss tlsConfig (fun _ => threadDefine [] 0 0 0 0 0) none).threadCreate tlsConfig 1 0x0800_0200 5
    (some kilobyteAttr) (some 0x2000_1000) none

def kilobyteBoard : Board := { duoBoard with thr := kilobyteCreated.2.thr }

theorem tls_outside_stack_kilobyte : ∃ tls, (kilobyteBoard.thr 1).tls = some tls
    ∧ ¬ kilobyteBoard.LaidOut 1 tls (sizeofEventWaitCtx true) := by
  have hcreate : kilobyteCreated = (.ok, kilobyteCreated.2) := Prod.ext (by decide) rfl
  have htls : tlsConfig.tls = true := rfl
  exact tls_outside_stack true htls hcreate rfl (by decide)

/-- With short enumerations the last four bytes of the block belong to somebody else. -/
theorem tls_block_sticks_out : (kilobyteBoard.thr 1).tls = some 0x2000_13FC
    ∧ 0x2000_13FC + sizeofEventWaitCtx true = kilobyteBoard.base 1 + kilobyteBoard.size 1 + 4
    ∧ ¬ kilobyteBoard.LaidOut 1 0x2000_13FC (sizeofEventWaitCtx true) := by
  refine ⟨rfl, rfl, fun h => ?_⟩
  exact absurd h.block.2 (by decide)

end VibeRtos
