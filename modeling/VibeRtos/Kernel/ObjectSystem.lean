import VibeRtos.Kernel.Wait

/-!
# Threads and one kernel object under any scheduler

The machine in which the laws of one object are stated: any number of threads, the
object, and a scheduler that may hand the CPU to any READY thread at any time. The
current thread takes the IRQ-locked sections of the calls on the object; between
them the tick handler runs, and interrupts make calls of their own.
-/

namespace VibeRtos

open Kernel

/-- `_vibe_sys_tick_handler`, up to its choice of the next thread. -/
def Kernel.tickSection (cfg : Config) (k : Kernel) : Kernel :=
  let k := { k with tickCount := k.tickCount + 1 }
  (k.schedWakeExpired k.tickCount).schedTimesliceTick cfg

theorem sysTickHandler_eq (cfg : Config) (k : Kernel) :
    sysTickHandler cfg k = (k.tickSection cfg).schedReschedule := rfl

/-- The state of the machine: an object of type `Ω`, and each thread's program point. -/
structure ObjectSys (Ω P : Type) where
  k : Kernel
  obj : Ω
  pc : Tid → P

/-- The sections of the calls on an object. -/
structure Sections (Ω P γ δ : Type) where
  /-- what a thread at a program point does on `γ` -/
  thread : Kernel → Ω → Tid → P → γ → Option (Kernel × Ω × P)
  /-- what an interrupt does -/
  isr : Kernel → Ω → δ → Kernel × Ω

namespace ObjectSys

variable {Ω P γ δ : Type}

/-- The state after a section of `self`. -/
def after (s : ObjectSys Ω P) (self : Tid) (r : Kernel × Ω × P) : ObjectSys Ω P :=
  ⟨r.1, r.2.1, Function.update s.pc self r.2.2⟩

@[simp] theorem after_pc_self (s : ObjectSys Ω P) (self : Tid) (r : Kernel × Ω × P) :
    (s.after self r).pc self = r.2.2 := Function.update_self _ _ _

theorem after_pc_of_ne (s : ObjectSys Ω P) {self t : Tid} (r : Kernel × Ω × P) (h : t ≠ self) :
    (s.after self r).pc t = s.pc t := Function.update_of_ne h _ _

/-- The steps of the machine. -/
inductive Label (γ δ : Type) where
  /-- the scheduler hands the CPU to `t` -/
  | dispatch (t : Tid)
  | tick
  /-- the current thread takes a section -/
  | act (a : γ)
  | isr (i : δ)

/-- One step. -/
def step (cfg : Config) (S : Sections Ω P γ δ) (s : ObjectSys Ω P) :
    Label γ δ → Option (ObjectSys Ω P)
  | .dispatch t =>
      if (s.k.thr t).state = .ready then some { s with k := s.k.switchTo t } else none
  | .tick => some { s with k := s.k.tickSection cfg }
  | .act a =>
      match s.k.current with
      | none => none
      | some self =>
          if (s.k.thr self).state.Active then
            (S.thread s.k s.obj self (s.pc self) a).map (s.after self)
          else none
  | .isr i =>
      let r := S.isr s.k s.obj i
      some { s with k := r.1, obj := r.2 }

theorem act_eq_some {cfg : Config} {S : Sections Ω P γ δ} {s s' : ObjectSys Ω P} {a : γ}
    (h : s.step cfg S (.act a) = some s') :
    ∃ self r, s.k.current = some self ∧ (s.k.thr self).state.Active
      ∧ S.thread s.k s.obj self (s.pc self) a = some r ∧ s' = s.after self r := by
  rw [step] at h
  split at h
  · exact absurd h (by simp)
  · rename_i self hself
    split at h
    · rename_i hact
      obtain ⟨r, hr, rfl⟩ := Option.map_eq_some_iff.mp h
      exact ⟨self, r, hself, hact, hr, rfl⟩
    · exact absurd h (by simp)

/-- The current thread takes a section. -/
theorem step_act {cfg : Config} {S : Sections Ω P γ δ} {s : ObjectSys Ω P} {a : γ} {self : Tid}
    {r : Kernel × Ω × P} (hself : s.k.current = some self) (hact : (s.k.thr self).state.Active)
    (hr : S.thread s.k s.obj self (s.pc self) a = some r) :
    s.step cfg S (.act a) = some (s.after self r) := by
  simp only [step, hself, hact, if_true, hr, Option.map_some]

theorem dispatch_eq_some {cfg : Config} {S : Sections Ω P γ δ} {s s' : ObjectSys Ω P} {t : Tid}
    (h : s.step cfg S (.dispatch t) = some s') :
    (s.k.thr t).state = .ready ∧ s' = { s with k := s.k.switchTo t } := by
  obtain ⟨hready, heq⟩ := Option.ite_none_right_eq_some.mp h
  exact ⟨hready, (Option.some.inj heq).symm⟩

end ObjectSys

end VibeRtos
