import Mathlib.Data.List.Basic

/-!
# Devices

The device table of the linker section, and what `init.c` does with it: the walker that
`vibe_init` calls once for each level, and the two queries. A device is known by its place in
the table. What its `init_fn` returns is given from outside, as `results`.
-/

namespace VibeRtos

/-- `vibe_init_level_t`, in ascending order. -/
inductive InitLevel where
  | preKernel1 | preKernel2 | postKernel | application
  deriving DecidableEq

/-- The value of the enumerator. -/
def InitLevel.toNat : InitLevel → Nat
  | .preKernel1 => 0
  | .preKernel2 => 1
  | .postKernel => 2
  | .application => 3

/-- The fields of `vibe_device_t` that the walker and the queries read. -/
structure Device where
  name : Option (List UInt8)
  /-- a pointer, or `NULL` -/
  initFn : Option Nat
  initLevel : InitLevel

/-- What the walker has done. -/
structure BringUp where
  /-- the devices whose `init_fn` was called -/
  calls : List Nat
  /-- the warnings: name and error -/
  warnings : List (Option (List UInt8) × Int32)

/-- The body of the loop of `_vibe_device_init_level`, for the device at `i`. -/
def initDevice (results : Nat → Int32) (level : InitLevel) (s : BringUp) (dev : Device × Nat) :
    BringUp :=
  if dev.1.initLevel ≠ level then s
  else if dev.1.initFn = none then s
  else
    let s := { s with calls := s.calls ++ [dev.2] }
    if results dev.2 ≠ 0 then { s with warnings := s.warnings ++ [(dev.1.name, results dev.2)] }
    else s

/-- `_vibe_device_init_level` -/
def deviceInitLevel (devs : List Device) (results : Nat → Int32) (s : BringUp)
    (level : InitLevel) : BringUp :=
  devs.zipIdx.foldl (initDevice results level) s

/-- The calls of `_vibe_device_init_level` in `vibe_init`. -/
def initDevices (devs : List Device) (results : Nat → Int32) : BringUp :=
  [.preKernel1, .preKernel2, .postKernel, .application].foldl (deviceInitLevel devs results)
    ⟨[], []⟩

/-- `vibe_device_get` -/
def deviceGet (devs : List Device) (name : List UInt8) : Option Nat :=
  devs.findIdx? fun d => d.name = some name

/-- `vibe_device_is_ready` -/
def deviceIsReady (devs : List Device) (dev : Option Nat) : Bool :=
  match dev with
  | none => false
  | some i => devs[i]?.any fun d => d.initFn ≠ none

/-! ## What is to be done -/

/-- Device `i` is initialised before device `j`: its level is lower, or it is in front of it on
the same level. -/
def InitBefore (devs : List Device) (i j : Nat) : Prop :=
  ∃ d e, devs[i]? = some d ∧ devs[j]? = some e
    ∧ (d.initLevel.toNat < e.initLevel.toNat ∨ d.initLevel = e.initLevel ∧ i < j)

/-- The devices are brought up: each with an `init_fn` once and in order, and ready are those
whose `init_fn` has returned `VIBE_OK`. -/
structure BroughtUp (devs : List Device) (results : Nat → Int32) : Prop where
  order : (initDevices devs results).calls.Pairwise (InitBefore devs)
  once : ∀ i, i ∈ (initDevices devs results).calls ↔ ∃ d, devs[i]? = some d ∧ d.initFn ≠ none
  ready : ∀ i < devs.length, deviceIsReady devs (some i) = true
    ↔ i ∈ (initDevices devs results).calls ∧ results i = 0

end VibeRtos
