import VibeRtos.Lib.TornStores
import VibeRtos.Sys.Coredump
import VibeRtos.Arch.Reset

/-!
# The coredump over resets

The record in RAM from one boot to the next. A capture invalidates the record first and seals it
last, and a reset may come after any byte of it; then the reset handler runs. The rest of the
program writes RAM elsewhere.
-/

namespace VibeRtos

open ByteMem Stores

namespace Coredump

variable (cfg : CoredumpConfig)

/-- The calls that leave a record. -/
inductive Capture where
  /-- `_vibe_coredump_capture`, from a fault handler -/
  | fault (excFrame : Option (Nat → UInt32)) (psp msp reason : UInt32)
  /-- `vibe_coredump_capture_assert` -/
  | assert (file : Option (List UInt8)) (line : Int32) (expr : Option (List UInt8))
  /-- `vibe_coredump_capture_stack_overflow` -/
  | stackOverflow (name : Option (List UInt8))

/-- The record that a call leaves. -/
def Capture.record (env : Env) (cd : Mem) : Capture → Mem
  | .fault excFrame psp msp reason => capture cfg env excFrame psp msp reason cd
  | .assert file line expr => captureAssert cfg env file line expr cd
  | .stackOverflow name => captureStackOverflow cfg env name cd

/-- The assignments of a call up to the checksum. -/
def Capture.stores (env : Env) : Capture → List Store
  | .fault excFrame psp msp reason => captureStores cfg env excFrame psp msp reason
  | .assert file line expr =>
      assertStores cfg file line expr ++ captureStores cfg env none 0 0 reasonAssert
  | .stackOverflow name =>
      (word magic 0 :: match name with
        | some s => [strncpy threadName s 31, nul (threadName + 31)]
        | none => []) ++ captureStores cfg env none 0 0 reasonStackOverflow

/-- All assignments of a call that finds the record `cd`. -/
def Capture.writes (env : Env) (cd : Mem) (c : Capture) : List Store :=
  c.stores cfg env ++ [word (crc32 cfg) (coredumpCrc cfg (runAll cd (c.stores cfg env)))]

/-- The assignments of `vibe_coredump_clear`. -/
def clearStores : List Store := [word magic 0, word (crc32 cfg) 0]

/-- `vibe_coredump_get`, with the bytes of the record. -/
def get (cd : Mem) : Option (List UInt8) :=
  if isValid cfg cd then some (slice cd 0 (size cfg)) else none

/-- Where the linker put `g_coredump`: in `.noinit`, apart from `.data` and `.bss`. -/
structure Placement where
  layout : Reset.Layout
  linked : layout.Linked
  record : Nat
  data : record + size cfg ≤ layout.sdata.toNat ∨ layout.edata.toNat ≤ record
  bss : record + size cfg ≤ layout.sbss.toNat ∨ layout.ebss.toNat ≤ record

variable {cfg}

namespace Placement

variable (p : Placement cfg)

/-- The record in RAM. -/
def view (m : Mem) : Mem := fun i => m (p.record + i)

/-- RAM with the record replaced. -/
def put (m cd : Mem) : Mem := fun x =>
  if p.record ≤ x ∧ x < p.record + size cfg then cd (x - p.record) else m x

end Placement

/-- What happens to the record. A cut is the number of bytes stored before a reset. -/
inductive Event where
  | capture (env : Env) (c : Capture) (cut : Option Nat)
  | clear (cut : Option Nat)
  /-- the reset handler has run -/
  | reset
  /-- the rest of the program -/
  | other

/-- The event was not cut short, and replaces the record. -/
def Event.Completes : Event → Prop
  | .capture _ _ none | .clear none => True
  | _ => False

/-- One event. -/
inductive Step (p : Placement cfg) : Mem → Event → Mem → Prop
  | capture (m : Mem) (env : Env) (c : Capture) :
      Step p m (.capture env c none) (p.put m (c.record cfg env (p.view m)))
  | captureCut (m : Mem) (env : Env) (c : Capture) (n : Nat) :
      Step p m (.capture env c (some n))
        (p.put m (torn (p.view m) (c.writes cfg env (p.view m)) n))
  | clear (m : Mem) : Step p m (.clear none) (p.put m (clear cfg (p.view m)))
  | clearCut (m : Mem) (n : Nat) :
      Step p m (.clear (some n)) (p.put m (torn (p.view m) (clearStores cfg) n))
  | reset {s s' : Reset.State} (hpc : s.pc = 0)
      (h : s' ∈ StateTransition.eval (Reset.State.step p.layout) s) : Step p s.mem .reset s'.mem
  | other {m m' : Mem} (h : ∀ i < size cfg, m' (p.record + i) = m (p.record + i)) :
      Step p m .other m'

/-- Events one after the other. -/
inductive History (p : Placement cfg) : Mem → List Event → Mem → Prop
  | nil (m : Mem) : History p m [] m
  | snoc {m₀ m m' : Mem} {es : List Event} {e : Event} (h : History p m₀ es m)
      (hs : Step p m e m') : History p m₀ (es ++ [e]) m'

end Coredump

end VibeRtos
