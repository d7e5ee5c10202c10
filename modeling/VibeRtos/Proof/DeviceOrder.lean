import VibeRtos.Kernel.Device

/-!
# Bringing the devices up

Each call of the walker goes through the table once and takes the devices of its level. A device
without `init_fn` is passed over, so `vibe_device_is_ready` tells which devices were called; what
their `init_fn` has returned is not kept.
-/

namespace VibeRtos

variable {devs : List Device} {results : Nat → Int32} {level : InitLevel}

/-- The walker calls this device. -/
def Device.Due (level : InitLevel) (d : Device) : Prop := d.initLevel = level ∧ d.initFn ≠ none

instance (level : InitLevel) : DecidablePred (Device.Due level) := fun d =>
  inferInstanceAs (Decidable (d.initLevel = level ∧ d.initFn ≠ none))

/-- The devices that a call of the walker takes, from a place in the table on. -/
def dueFrom (level : InitLevel) (table : List (Device × Nat)) : List Nat :=
  (table.filter fun p => p.1.Due level).map Prod.snd

theorem initDevice_calls (s : BringUp) (p : Device × Nat) :
    (initDevice results level s p).calls = s.calls ++ if p.1.Due level then [p.2] else [] := by
  unfold initDevice Device.Due
  by_cases hl : p.1.initLevel = level
  · by_cases hf : p.1.initFn = none
    · simp [hl, hf]
    · simp only [hl, hf, ne_eq, not_true, if_false, not_false_eq_true, and_self, if_true]
      split <;> rfl
  · simp [hl]

/-- One walk through the table. -/
theorem foldl_initDevice (table : List (Device × Nat)) : ∀ s : BringUp,
    (table.foldl (initDevice results level) s).calls = s.calls ++ dueFrom level table := by
  induction table with
  | nil => exact fun s => (List.append_nil _).symm
  | cons p table ih =>
      intro s
      rw [List.foldl_cons, ih, initDevice_calls, List.append_assoc]
      congr 1
      unfold dueFrom
      by_cases hp : p.1.Due level
      · rw [if_pos hp, List.filter_cons_of_pos (by simpa using hp)]
        rfl
      · rw [if_neg hp, List.filter_cons_of_neg (by simpa using hp)]
        rfl

/-- All walks, level by level. -/
theorem initDevices_calls (devs : List Device) (results : Nat → Int32) :
    (initDevices devs results).calls
      = [InitLevel.preKernel1, .preKernel2, .postKernel, .application].flatMap
        fun level => dueFrom level devs.zipIdx := by
  simp only [initDevices, deviceInitLevel, List.foldl_cons, List.foldl_nil, foldl_initDevice,
    List.flatMap_cons, List.flatMap_nil, List.append_nil, List.nil_append, List.append_assoc]

theorem mem_dueFrom {i : Nat} :
    i ∈ dueFrom level devs.zipIdx ↔ ∃ d, devs[i]? = some d ∧ d.Due level := by
  unfold dueFrom
  rw [List.mem_map]
  constructor
  · intro ⟨p, hp, hpi⟩
    obtain ⟨hmem, hdue⟩ := List.mem_filter.mp hp
    rw [List.mem_zipIdx_iff_getElem?, hpi] at hmem
    exact ⟨p.1, hmem, by simpa using hdue⟩
  · intro ⟨d, hd, hdue⟩
    have hmem : (d, i) ∈ devs.zipIdx := List.mem_zipIdx_iff_getElem?.mpr hd
    exact ⟨(d, i), List.mem_filter.mpr ⟨hmem, by simpa using hdue⟩, rfl⟩

/-- Within a level the devices come in the order of the table. -/
theorem dueFrom_sorted (level : InitLevel) (devs : List Device) :
    (dueFrom level devs.zipIdx).Pairwise (· < ·) := by
  have hsub : (dueFrom level devs.zipIdx).Sublist (devs.zipIdx.map Prod.snd) :=
    List.filter_sublist.map _
  refine List.Pairwise.sublist hsub ?_
  rw [List.zipIdx_map_snd]
  exact List.pairwise_lt_range'

theorem calls_order (devs : List Device) (results : Nat → Int32) :
    (initDevices devs results).calls.Pairwise (InitBefore devs) := by
  rw [initDevices_calls, List.pairwise_flatMap]
  refine ⟨fun level _ => ?_, ?_⟩
  · refine (dueFrom_sorted level devs).imp_of_mem fun {i j} hi hj hlt => ?_
    obtain ⟨d, hd, hdl, -⟩ := mem_dueFrom.mp hi
    obtain ⟨e, he, hel, -⟩ := mem_dueFrom.mp hj
    exact ⟨d, e, hd, he, Or.inr ⟨hdl.trans hel.symm, hlt⟩⟩
  · have hlevels : [InitLevel.preKernel1, .preKernel2, .postKernel, .application].Pairwise
        fun a b => a.toNat < b.toNat := by decide
    refine hlevels.imp fun hlt i hi j hj => ?_
    obtain ⟨d, hd, hdl, -⟩ := mem_dueFrom.mp hi
    obtain ⟨e, he, hel, -⟩ := mem_dueFrom.mp hj
    exact ⟨d, e, hd, he, Or.inl (by rw [hdl, hel]; exact hlt)⟩

theorem mem_calls {i : Nat} :
    i ∈ (initDevices devs results).calls ↔ ∃ d, devs[i]? = some d ∧ d.initFn ≠ none := by
  rw [initDevices_calls, List.mem_flatMap]
  constructor
  · intro ⟨level, _, hi⟩
    obtain ⟨d, hd, -, hfn⟩ := mem_dueFrom.mp hi
    exact ⟨d, hd, hfn⟩
  · intro ⟨d, hd, hfn⟩
    refine ⟨d.initLevel, ?_, mem_dueFrom.mpr ⟨d, hd, rfl, hfn⟩⟩
    cases d.initLevel <;> simp

/-- Ready are the devices that were called. -/
theorem deviceIsReady_iff (results : Nat → Int32) {i : Nat} :
    deviceIsReady devs (some i) = true ↔ i ∈ (initDevices devs results).calls := by
  rw [mem_calls]
  cases hd : devs[i]? with
  | none => simp [deviceIsReady, hd]
  | some d => simp [deviceIsReady, hd]

/--
**When the devices are brought up as promised.**

For every table and whatever the init functions return, each is called once, in ascending level
and in the order of the table; and `vibe_device_is_ready` tells the devices whose `init_fn` has
returned `VIBE_OK` if and only if every `init_fn` of the table returns `VIBE_OK`.
-/
theorem devices_brought_up_iff (devs : List Device) (results : Nat → Int32) :
    BroughtUp devs results ↔ ∀ i d, devs[i]? = some d → d.initFn ≠ none → results i = 0 := by
  constructor
  · intro h i d hd hfn
    have hcall : i ∈ (initDevices devs results).calls := mem_calls.mpr ⟨d, hd, hfn⟩
    have hlt : i < devs.length := (List.getElem?_eq_some_iff.mp hd).1
    exact ((h.ready i hlt).mp ((deviceIsReady_iff results).mpr hcall)).2
  · intro hok
    refine ⟨calls_order devs results, fun i => mem_calls, fun i hi => ?_⟩
    rw [deviceIsReady_iff results]
    refine ⟨fun hcall => ⟨hcall, ?_⟩, fun h => h.1⟩
    obtain ⟨d, hd, hfn⟩ := mem_calls.mp hcall
    exact hok i d hd hfn

/-- A UART whose hardware does not answer. -/
def deadUart : Device := ⟨some [0x75, 0x30], some 0x100, .postKernel⟩

/-- Its `init_fn` returns `VIBE_ENODEV`, and the device is reported ready. -/
theorem failed_device_ready :
    deviceIsReady [deadUart] (deviceGet [deadUart] [0x75, 0x30]) = true
    ∧ (initDevices [deadUart] fun _ => -7).warnings = [(some [0x75, 0x30], -7)]
    ∧ ¬ BroughtUp [deadUart] fun _ => -7 := by
  refine ⟨by decide, by decide, fun h => ?_⟩
  have hready := (h.ready 0 (by decide)).mp (by decide)
  exact absurd hready.2 (by decide)

end VibeRtos
